import MoleculeOS.Codec
import MoleculeOS.Remote
import MoleculeOS.FifoTable
import MoleculeOS.Partition
import MoleculeOS.Transparency
import MoleculeOS.Completion
import MoleculeOS.Mailbox
import MoleculeOS.Framing
import MoleculeOS.Clients
import MoleculeOS.Queues
import MoleculeOS.Spawn
import MoleculeOS.Processes
import MoleculeOS.Library.Packed
import MoleculeOS.HashMap
import MoleculeOS.Directory
import MoleculeOS.Ownership
import MoleculeOS.Receive
import MoleculeOS.EventLoop
import MoleculeOS.Agreement
import MoleculeOS.Isolation
import MoleculeOS.Startup
import MoleculeOS.Availability
import MoleculeOS.Lengths
import MoleculeOS.Library.Probing
import MoleculeOS.Registration
import MoleculeOS.Replies
import MoleculeOS.Model.Runtime
import MoleculeOS.SelfRegistration
import MoleculeOS.Library.Getopt
import MoleculeOS.Library.Overlay
import MoleculeOS.Model.Arguments
import MoleculeOS.PuNumbers
import MoleculeOS.StartNames
import MoleculeOS.Library.LockWord
import MoleculeOS.Library.Pool
import MoleculeOS.Model.ShmMpscQueue
import MoleculeOS.QueueLayout
import MoleculeOS.QueueRuns
import MoleculeOS.HashTableRuns
import MoleculeOS.Library.Confluence
import MoleculeOS.Library.Streams
import MoleculeOS.StartupExchange
import MoleculeOS.Library.Leases
import MoleculeOS.Model.Transport
import MoleculeOS.Preparation
