import MoleculeOS.Library.Getopt
import MoleculeOS.Model.Interfaces

/-!
# The command line (`moleculeos.c`)

`local_parse_arguments`, and how `main` stores the names that the DSM layer is started with. Between
the two, `main` calls `global_os_init`, which does not touch them.

`strlen` of a field that is full reads on in the fields behind it, and behind the structure.
-/

namespace MoleculeOS

open Stdio Getopt

/-- `Local_Arguments`, without the member that nothing uses. -/
structure LocalArguments where
  puId : Int32
  osPort : Int32
  dsmMasterAddr : Buffer 48
  devName : Buffer 48
  tlName : Buffer 48

/-- `GLOBAL_OS_PORT` -/
def globalOsPort : Int32 := 0xfeeb

/-- A string literal. It ends at its first NUL. -/
def literal (s : String) : CStr :=
  ⟨(bytes s).takeWhile (· ≠ 0), fun b h =>
    of_decide_eq_true (List.all_eq_true.mp List.all_takeWhile b h)⟩

/-- `atoi`: 0 if there is no number. -/
def atoi (s : List Byte) : Int32 :=
  match strtol (s.dropWhile isSpace) with
  | some (z, _) => storeInt z
  | none => 0

/-- The option string and `long_options`. The names of the long options contain blanks. -/
def longOptions (smartc : Bool) : Options where
  short := ['i'.toUInt8, 'p'.toUInt8]
    ++ if smartc then ['m'.toUInt8, 'd'.toUInt8, 't'.toUInt8] else []
  long := [⟨bytes "pu id", 'i'.toUInt8⟩, ⟨bytes "os port", 'p'.toUInt8⟩]
    ++ if smartc then
        [⟨bytes "dsm master addr", 'm'.toUInt8⟩, ⟨bytes "dev name", 'd'.toUInt8⟩,
          ⟨bytes "transport name", 't'.toUInt8⟩]
      else []

/-- The default values. -/
def defaultArguments : Exec LocalArguments := do
  let dsmMasterAddr ← access ((Buffer.zero 48).poke 0 (bytes "127.0.0.1"))
  let devName ← access ((Buffer.zero 48).poke 0 (bytes "eth0"))
  let tlName ← access ((Buffer.zero 48).poke 0 (bytes "tcp"))
  return ⟨-1, globalOsPort, dsmMasterAddr, devName, tlName⟩

/-- The `switch` on the result of `getopt_long`. -/
def LocalArguments.set (smartc : Bool) (args : LocalArguments) : Item → Exec LocalArguments
  | .option opt optarg =>
    if opt = 'i'.toUInt8 then return { args with puId := atoi optarg }
    else if opt = 'p'.toUInt8 then return { args with osPort := atoi optarg }
    -- a value is copied without its NUL
    else if smartc ∧ opt = 'm'.toUInt8 then do
      let dsmMasterAddr ← access (args.dsmMasterAddr.poke 0 optarg)
      return { args with dsmMasterAddr := dsmMasterAddr }
    else if smartc ∧ opt = 'd'.toUInt8 then do
      let devName ← access (args.devName.poke 0 optarg)
      return { args with devName := devName }
    else if smartc ∧ opt = 't'.toUInt8 then do
      let tlName ← access (args.tlName.poke 0 optarg)
      return { args with tlName := tlName }
    else return args
  | .unknown | .missing => return args

/-- What `getopt_long` returns for an argument vector, behind the name of the program. -/
def givenOptions (smartc : Bool) (argv : List CStr) : List Item :=
  items (longOptions smartc) ⟨[], argv.tail.map CStr.chars⟩

def localParseArguments (smartc : Bool) (argv : List CStr) : Exec LocalArguments := do
  let args ← defaultArguments
  (givenOptions smartc argv).foldlM (LocalArguments.set smartc) args

/-- The static names of the DSM layer. -/
structure DsmNames where
  dsmMasterAddr : Buffer 48
  devName : Buffer 48
  tlName : Buffer 48

/-- `memcpy(name, field, strlen(field))` into a cleared array, with the memory from the field on. -/
def copyName (mem : List Byte) : Exec (Buffer 48) :=
  access ((Buffer.zero 48).poke 0 (mem.takeWhile (· ≠ 0)))

/-- What `main` stores, with the bytes behind the structure up to the first NUL. -/
def storeNames (args : LocalArguments) (behind : CStr) : Exec DsmNames := do
  let rest := behind.chars ++ [0]
  let dsmMasterAddr ← copyName
    (args.dsmMasterAddr.data ++ (args.devName.data ++ (args.tlName.data ++ rest)))
  let devName ← copyName (args.devName.data ++ (args.tlName.data ++ rest))
  let tlName ← copyName (args.tlName.data ++ rest)
  return ⟨dsmMasterAddr, devName, tlName⟩

/-- The names that `main` starts the DSM layer with. -/
def mainNames (argv : List CStr) (behind : CStr) : Exec DsmNames := do
  let args ← localParseArguments true argv
  storeNames args behind

end MoleculeOS
