import MoleculeOS.Model.Transport

/-!
# A preparation keeps everything, or nothing

`dev_tl_lookup` opens one memory domain after the other and closes it again, until one has a usable
transport (`lookup_first`). Then `molecule_prepare_dsm_ctx` acquires addresses, a socket and an
endpoint, and any step may fail. What is held at each label is what is released from there on
(`PrepareLabel.Ready`, `runs_cleanupFrom`), so a preparation that fails holds nothing. One that
passes all its steps returns without releasing anything: what its context needs stays held, and so
do the addresses and the socket, which nothing refers to any more (`prepare_balanced`).
-/

namespace MoleculeOS

open Leases Stdio

/-! ### One transport -/

/-- The variables that are freed whether they hold something or not. -/
def freed : Finset Resource := {.oobSock, .peerDev, .peerIface, .ownEp, .peerEp}

/-- The variables that tell whether they hold something, once `iface` has been set to null. -/
def tracked : Finset Resource := insert .iface freed

/-- What is held while the transports of a memory domain are looked at. -/
def opened : Finset Resource := {.async, .worker, .components, .md, .tlResources}

/-- What `init_iface` makes of a transport. -/
def TlResource.supports (tl : TlResource) (funcAmType : FuncAm) : Option IfaceAttr :=
  if tl.configRead && tl.opens then tl.attr.filter (·.am funcAmType) else none

/-- What is held at the labels of `init_iface`. -/
def InitLabel.held : InitLabel → Finset Resource
  | .errorIface => insert .iface opened
  | .errorRet => opened

theorem runs_initIfaceBody (funcAmType : FuncAm) (tl : TlResource) {V : Finset Resource}
    (h_named : Named tracked ⟨opened, V⟩) :
    Runs (initIfaceBody funcAmType tl) ⟨opened, V⟩
      (fun attr s => tl.supports funcAmType = some attr ∧ s.held = insert .iface opened ∧
        Named tracked s)
      fun label s => tl.supports funcAmType = none ∧ s.held = label.held ∧ Named tracked s := by
  -- `assert(iface_p->iface == NULL)`: the variable is set exactly when an interface is open
  have h_null : Resource.iface ∉ insert Resource.config V := by
    rw [Finset.mem_insert, not_or]
    have h_closed : Resource.iface ∉ opened := by decide
    exact ⟨by decide, fun h => h_closed ((h_named .iface (by decide)).mp h)⟩
  have h_config : (insert Resource.config opened).erase .config = opened := by decide
  have h_iface : (insert Resource.iface (insert Resource.config opened)).erase .config =
      insert .iface opened := by decide
  have h_named' : Named tracked ⟨opened, insert .config V⟩ :=
    h_config ▸ (h_named.acquire .config).release (by decide)
  unfold initIfaceBody
  refine .use_then (by decide) (.check_then (fun h => ?_) fun h_read => ?_)
  · refine ⟨?_, rfl, h_named⟩
    unfold TlResource.supports
    rw [h]
    rfl
  refine .acquire_then (by decide) (by decide) (.assertNull_then h_null (.use_then (by decide)
    (.use_then (by decide) (.use_then (by decide)
      (.acquireIf_then (by decide) (by decide) (fun h => ?_) fun h_opens => ?_)))))
  · -- the configuration is released before the status of `uct_iface_open` is looked at
    -- from here on the interface is open, and each failure has to close it
    refine .release_then (by decide) (by decide) ?_
    rw [h_config]
    refine .check_then (fun _ => ⟨?_, rfl, h_named'⟩) fun h' =>
      absurd (h'.symm.trans h) (by decide)
    unfold TlResource.supports
    rw [h, Bool.and_false]
    rfl
  have h_supports : tl.supports funcAmType = tl.attr.filter (·.am funcAmType) := by
    unfold TlResource.supports
    rw [h_read, h_opens]
    rfl
  have h_open : Named tracked ⟨insert .iface opened, insert .iface (insert .config V)⟩ :=
    h_named'.acquire .iface
  refine .release_then (by decide) (by decide) ?_
  rw [h_iface, h_supports]
  refine .check_then (fun h => absurd (h.symm.trans h_opens) (by decide)) fun _ => ?_
  refine .use_then (by decide) (.get_then (fun h => ?_) fun attr h_attr => ?_)
  · exact ⟨by rw [h]; rfl, rfl, h_open⟩
  refine .check_then (fun h => ?_) fun h => runs_pure ?_
  · exact ⟨by rw [h_attr, Option.filter_some, if_neg (by simp [h])], rfl, h_open⟩
  · exact ⟨by rw [h_attr, Option.filter_some, if_pos (by simp [h])], rfl, h_open⟩

/-- What is held beside `H` when a transport has been found. -/
def withIface (found : Option IfaceAttr) (H : Finset Resource) : Finset Resource :=
  if found.isSome then insert .iface H else H

theorem runs_initIface {ε : Type} {E : ε → Store Resource → Prop} (funcAmType : FuncAm)
    (tl : TlResource) {V : Finset Resource} (h_named : Named tracked ⟨opened, V⟩) :
    Runs (initIface funcAmType tl) ⟨opened, V⟩
      (fun r s => r = tl.supports funcAmType ∧ s.held = withIface r opened ∧ Named tracked s)
      E := by
  unfold initIface
  refine (((runs_initIfaceBody funcAmType tl h_named).mono (fun attr s h => ?_) fun label s h => ?_
    ).attempt (P := fun r s => tl.supports funcAmType = r.toOption ∧ Named tracked s ∧
      s.held = match r with | .ok _ => insert .iface opened | .error label => label.held)).bind
      fun r s h => ?_
  · exact ⟨h.1, h.2.2, h.2.1⟩
  · exact ⟨h.1, h.2.2, h.2.1⟩
  obtain ⟨H, V'⟩ := s
  obtain ⟨h_supports, h_named', rfl⟩ := h
  -- `error_iface` closes the interface and falls through to `error_ret`
  match r with
  | .ok attr => exact runs_pure ⟨h_supports.symm, rfl, h_named'⟩
  | .error .errorRet => exact runs_pure ⟨h_supports.symm, rfl, h_named'⟩
  | .error .errorIface =>
    have h_erase : (insert Resource.iface opened).erase .iface = opened := by decide
    refine .release_then (by decide) (by decide) ?_
    have h_rest := (h_named'.mono (Finset.subset_insert .iface freed)).release
      (r := .iface) (by decide)
    change Runs _ ⟨(insert Resource.iface opened).erase .iface, V'⟩ _ _
    change Named freed ⟨(insert Resource.iface opened).erase .iface, V'⟩ at h_rest
    rw [h_erase] at h_rest ⊢
    exact .clear_then (by decide) (runs_pure ⟨h_supports.symm, rfl, h_rest.clear (by decide)⟩)

/-- What the loop over the transports of a memory domain finds. -/
def transportIn (args : CmdArgs) (regHost : Bool) (tls : List TlResource) : Option IfaceAttr :=
  (tls.find? fun tl => args.devName = tl.devName ∧ args.tlName = tl.tlName).bind fun tl =>
    if regHost then tl.supports args.funcAmType else none

theorem runs_lookupTl {ε : Type} {E : ε → Store Resource → Prop} (args : CmdArgs) (regHost : Bool)
    (tls : List TlResource) {V : Finset Resource} (h_named : Named tracked ⟨opened, V⟩) :
    Runs (lookupTl args regHost tls) ⟨opened, V⟩
      (fun r s => r = transportIn args regHost tls ∧ s.held = withIface r opened ∧
        Named tracked s) E := by
  induction tls with
  | nil => exact runs_pure ⟨rfl, rfl, h_named⟩
  | cons tl tls ih =>
    unfold lookupTl
    refine .use_then (by decide) ?_
    unfold transportIn
    rw [List.find?_cons]
    -- the first transport with these names decides: there is a `break` or a `goto` in every branch
    by_cases h : args.devName = tl.devName ∧ args.tlName = tl.tlName
    · rw [if_pos h, decide_eq_true h]
      cases regHost with
      | false => exact runs_pure ⟨rfl, rfl, h_named⟩
      | true => exact runs_initIface args.funcAmType tl h_named
    · rw [if_neg h, decide_eq_false h]
      exact ih

/-! ### The search -/

/-- What a memory domain says to a search: `none` if it goes on, `some none` if it fails here. -/
def MdResource.probe (args : CmdArgs) (md : MdResource) : Option (Option IfaceAttr) :=
  if md.configRead && md.opens then
    match md.regHost, md.tls with
    | some regHost, some tls => (transportIn args regHost tls).map some
    | _, _ => some none
  else some none

/-- What a component says to a search, in order. -/
def Component.probes (args : CmdArgs) (c : Component) : List (Option (Option IfaceAttr)) :=
  match c.query, c.mds with
  | true, some mds => mds.map (MdResource.probe args)
  | _, _ => [some none]

/-- The first transport that is found before the search fails. -/
def transportOf (args : CmdArgs) (components : Option (List Component)) : Option IfaceAttr :=
  components.bind fun cs => ((cs.flatMap (Component.probes args)).findSome? id).join

/-- What is held while the components are looked at. -/
def searching : Finset Resource := {.async, .worker, .components}

/-- What is held when a search of the components ends. -/
def found (r : Option IfaceAttr) : Finset Resource :=
  if r.isSome then insert .iface (insert .md searching) else searching

/-- What is held at the labels of `dev_tl_lookup`. -/
def LookupLabel.held : LookupLabel → Finset Resource
  | .closeMd => insert .md searching
  | .releaseComponentList => searching

theorem runs_lookupMd (args : CmdArgs) (mds : List MdResource) {V : Finset Resource}
    (h_named : Named tracked ⟨searching, V⟩) :
    Runs (lookupMd args mds) ⟨searching, V⟩
      (fun r s => (mds.map (MdResource.probe args)).findSome? id = r.map some ∧
        s.held = found r ∧ Named tracked s)
      fun label s => (mds.map (MdResource.probe args)).findSome? id = some none ∧
        s.held = label.held ∧ Named tracked s := by
  -- the variables that are set change from one memory domain to the next, what is held does not
  induction mds generalizing V with
  | nil => exact runs_pure ⟨rfl, rfl, h_named⟩
  | cons md mds ih =>
    have h_config : (insert Resource.mdConfig searching).erase .mdConfig = searching := by decide
    have h_md : (insert Resource.md (insert Resource.mdConfig searching)).erase .mdConfig =
      insert .md searching := by decide
    have h_opened : insert Resource.tlResources (insert Resource.md searching) = opened := by decide
    have h_named' : Named tracked ⟨searching, insert .mdConfig V⟩ :=
      h_config ▸ (h_named.acquire .mdConfig).release (by decide)
    have h_named_md := h_named'.acquire .md
    rw [List.map_cons, List.findSome?_cons]
    unfold lookupMd
    refine .use_then (by decide) (.check_then (fun h => ?_) fun h_read => ?_)
    · refine ⟨?_, rfl, h_named⟩
      unfold MdResource.probe
      rw [h]
      rfl
    refine .acquire_then (by decide) (by decide) (.use_then (by decide) (.use_then (by decide)
      (.acquireIf_then (by decide) (by decide) (fun h => ?_) fun h_opens => ?_)))
    · -- `uct_md_open` fails: as above, the configuration goes first
      refine .release_then (by decide) (by decide) ?_
      rw [h_config]
      refine .check_then (fun _ => ⟨?_, rfl, h_named'⟩) fun h' =>
        absurd (h'.symm.trans h) (by decide)
      unfold MdResource.probe
      rw [h, Bool.and_false]
      rfl
    refine .release_then (by decide) (by decide) ?_
    rw [h_md]
    refine .check_then (fun h => absurd (h.symm.trans h_opens) (by decide)) fun _ => ?_
    -- the memory domain is open, so what it says is a matter of the two queries
    have h_probe : md.probe args = match md.regHost, md.tls with
        | some regHost, some tls => (transportIn args regHost tls).map some
        | _, _ => some none := by
      unfold MdResource.probe
      rw [h_read, h_opens]
      rfl
    refine .use_then (by decide) (.get_then (fun h => ?_) fun regHost h_reg => ?_)
    · rw [h_probe, h]
      exact ⟨rfl, rfl, h_named_md⟩
    refine .use_then (by decide) (.get_then (fun h => ?_) fun tls h_tls => ?_)
    · rw [h_probe, h_reg, h]
      exact ⟨rfl, rfl, h_named_md⟩
    have h_search : md.probe args = (transportIn args regHost tls).map some := by
      rw [h_probe, h_reg, h_tls]
    refine .acquire_then (by decide) (by decide) ?_
    have h_named_tl := h_named_md.acquire .tlResources
    rw [h_opened] at h_named_tl ⊢
    refine (runs_lookupTl args regHost tls h_named_tl).bind_named fun r V' h_r h_named_r => ?_
    rw [h_search, ← h_r]
    cases r with
    | some attr =>
      -- `goto release_component_list`, with the memory domain and the interface open
      have h_found : (insert Resource.iface opened).erase .tlResources =
        insert .iface (insert .md searching) := by decide
      have h_rest := h_named_r.release (r := .tlResources) (by decide)
      change Named tracked ⟨(insert Resource.iface opened).erase .tlResources, V'⟩ at h_rest
      change Runs _ ⟨insert Resource.iface opened, V'⟩ _ _
      refine .release_then (by decide) (by decide) ?_
      rw [h_found] at h_rest ⊢
      exact runs_pure ⟨rfl, rfl, h_rest⟩
    | none =>
      -- the loop goes on with `tl_resources` null and the memory domain closed
      have h_tl : opened.erase .tlResources = insert .md searching := by decide
      have h_close : (insert Resource.md searching).erase .md = searching := by decide
      have h_rest := h_named_r.release (r := .tlResources) (by decide)
      change Named tracked ⟨opened.erase .tlResources, V'⟩ at h_rest
      change Runs _ ⟨opened, V'⟩ _ _
      refine .release_then (by decide) (by decide) ?_
      rw [h_tl] at h_rest ⊢
      refine .clear_then (by decide) (.release_then (by decide) (by decide) ?_)
      have h_next := ((h_rest.clear (r := .tlResources) (by decide)).mono
        (Finset.subset_insert _ tracked)).release (r := .md) (by decide)
      rw [h_close] at h_next ⊢
      exact ih h_next

theorem runs_lookupComponent (args : CmdArgs) (cs : List Component) {V : Finset Resource}
    (h_named : Named freed ⟨searching, V⟩) :
    Runs (lookupComponent args cs) ⟨searching, V⟩
      (fun r s => (cs.flatMap (Component.probes args)).findSome? id = r.map some ∧
        s.held = found r ∧ Named freed s)
      fun label s => (cs.flatMap (Component.probes args)).findSome? id = some none ∧
        s.held = label.held ∧ Named freed s := by
  have h_sub : freed ⊆ tracked := Finset.subset_insert .iface freed
  induction cs generalizing V with
  | nil => exact runs_pure ⟨rfl, rfl, h_named⟩
  | cons c cs ih =>
    rw [List.flatMap_cons, List.findSome?_append]
    unfold lookupComponent
    refine .use_then (by decide) (.check_then (fun h => ?_) fun h_query => ?_)
    · refine ⟨?_, rfl, h_named⟩
      unfold Component.probes
      rw [h]
      rfl
    refine .use_then (by decide) (.get_then (fun h => ?_) fun mds h_mds => ?_)
    · refine ⟨?_, rfl, h_named⟩
      unfold Component.probes
      rw [h_query, h]
      rfl
    have h_probes : c.probes args = mds.map (MdResource.probe args) := by
      unfold Component.probes
      rw [h_query, h_mds]
    rw [h_probes]
    -- `iface_p->iface = NULL`, before which the interface was not tracked
    refine .clear_then (by decide) ?_
    refine ((runs_lookupMd args mds (h_named.clear (by decide))).mono (fun _ _ h => h)
      fun label s h => ?_).bind_named fun r V' h_search h_named' => ?_
    · rw [h.1]
      exact ⟨rfl, h.2.1, h.2.2.mono h_sub⟩
    rw [h_search]
    cases r with
    | some attr => exact runs_pure ⟨rfl, rfl, h_named'.mono h_sub⟩
    | none => exact ih (h_named'.mono h_sub)

/-- `dev_tl_lookup` opens the first transport that is found, and nothing else. -/
theorem runs_devTlLookup {ε : Type} {E : ε → Store Resource → Prop} (args : CmdArgs)
    (components : Option (List Component)) {V : Finset Resource}
    (h_named : Named freed ⟨{.async, .worker}, V⟩) :
    Runs (devTlLookup args components) ⟨{.async, .worker}, V⟩
      (fun r s => r = transportOf args components ∧
        s.held = (if r.isSome then {.async, .worker, .md, .iface} else {.async, .worker}) ∧
        Named freed s) E := by
  unfold devTlLookup transportOf
  cases components with
  | none => exact runs_pure ⟨rfl, rfl, h_named⟩
  | some cs =>
    have h_searching : insert Resource.components {.async, .worker} = searching := by decide
    have h_start := h_named.acquire .components
    refine .acquire_then (by decide) (by decide) ?_
    rw [h_searching] at h_start ⊢
    change Runs _ _ (fun r _ => r = ((cs.flatMap (Component.probes args)).findSome? id).join ∧ _) _
    refine (((runs_lookupComponent args cs h_start).mono (fun r s h => ?_) fun label s h => ?_
      ).attempt (P := fun x s => (cs.flatMap (Component.probes args)).findSome? id =
          (match x with | .ok r => r.map some | .error _ => some none) ∧ Named freed s ∧
        s.held = match x with | .ok r => found r | .error label => label.held)).bind fun x s h => ?_
    · exact ⟨h.1, h.2.2, h.2.1⟩
    · exact ⟨h.1, h.2.2, h.2.1⟩
    obtain ⟨H, V'⟩ := s
    obtain ⟨h_search, h_rest, rfl⟩ := h
    rw [h_search]
    -- found, not found, and the two labels
    match x, h_rest with
    | .ok (some attr), h_rest =>
      have h_found : (insert Resource.iface (insert .md searching)).erase .components =
        {.async, .worker, .md, .iface} := by decide
      have h_end := h_rest.release (r := .components) (by decide)
      change Runs _ ⟨insert Resource.iface (insert .md searching), V'⟩ _ _
      refine .release_then (by decide) (by decide) (runs_pure ⟨rfl, h_found, h_end⟩)
    | .ok none, h_rest =>
      have h_found : searching.erase .components = {.async, .worker} := by decide
      have h_end := h_rest.release (r := .components) (by decide)
      exact .release_then (by decide) (by decide) (runs_pure ⟨rfl, h_found, h_end⟩)
    | .error .closeMd, h_rest =>
      have h_found : ((insert Resource.md searching).erase .md).erase .components =
        {.async, .worker} := by decide
      have h_end := (h_rest.release (r := .md) (by decide)).release (r := .components) (by decide)
      exact .release_then (by decide) (by decide) (.release_then (by decide) (by decide)
        (runs_pure ⟨rfl, h_found, h_end⟩))
    | .error .releaseComponentList, h_rest =>
      have h_found : searching.erase .components = {.async, .worker} := by decide
      have h_end := h_rest.release (r := .components) (by decide)
      exact .release_then (by decide) (by decide) (runs_pure ⟨rfl, h_found, h_end⟩)

/-- **The first usable transport is opened.** `dev_tl_lookup` finds the transport of the first
memory domain whose first transport with the given names can be opened and sends messages of the
given kind, unless a query fails before; its memory domain and its interface stay open then, and
nothing else does. Where it is called, `peer_dev`, `peer_iface`, `own_ep`, `peer_ep` and `oob_sock`
have just been set to null, which is `h_null`. -/
theorem lookup_first (args : CmdArgs) (components : Option (List Component)) {V : Finset Resource}
    (h_null : Named freed ⟨{.async, .worker}, V⟩) :
    ∃ s, devTlLookup (ε := Empty) args components ⟨{.async, .worker}, V⟩ =
        some (.ok (transportOf args components), s) ∧
      s.held = if (transportOf args components).isSome then {.async, .worker, .md, .iface}
        else {.async, .worker} := by
  rcases runs_devTlLookup (E := fun _ _ => False) args components h_null with
    ⟨r, s, h_x, rfl, h_held, -⟩ | ⟨e, s, -, h⟩
  · exact ⟨s, h_x, h_held⟩
  · exact h.elim

/-- A device with a transport that only sends short messages, and one that sends without copies. -/
def twoComponents : List Component :=
  let attr (am : FuncAm → Bool) : IfaceAttr := ⟨⟨true, false⟩, am, fun _ => 8192⟩
  let tl (am : FuncAm → Bool) : TlResource :=
    ⟨bytes "mlx5_0:1", bytes "rc", true, true, some (attr am)⟩
  [⟨true, some [⟨true, true, some true, some [tl (· = .short)]⟩]⟩,
    ⟨true, some [⟨true, true, some true, some [tl fun _ => true]⟩]⟩]

theorem lookup_first_second : ∃ attr s, devTlLookup (ε := Empty)
      ⟨bytes "mlx5_0:1", bytes "rc", .zcopy, 16⟩ (some twoComponents) ⟨{.async, .worker}, ∅⟩ =
        some (.ok (some attr), s) ∧ s.held = {.async, .worker, .md, .iface} := by
  have h_null : ∀ r ∈ freed, r ∈ (∅ : Finset Resource) ↔
      r ∈ ({.async, .worker} : Finset Resource) := by decide
  obtain ⟨s, h_run, h_held⟩ := lookup_first ⟨bytes "mlx5_0:1", bytes "rc", .zcopy, 16⟩
    (some twoComponents) h_null
  exact ⟨_, s, h_run, h_held⟩

/-! ### The labels -/

namespace PrepareLabel

/-- What is released from a label on. -/
def least : PrepareLabel → Finset Resource
  | .out => ∅
  | .outCleanupAsync => {.async}
  | .outDestroyWorker => {.async, .worker}
  | .outDestroyIface => {.async, .worker, .md, .iface}
  | .outFreeDevAddrs => {.async, .worker, .md, .iface, .ownDev}
  | .outFreeIfAddrs | .outCloseOobSock | .outFreeEpAddrs =>
    {.async, .worker, .md, .iface, .ownDev, .ownIface}
  | .outFreeEp => {.async, .worker, .md, .iface, .ownDev, .ownIface, .ep}

/-- What is freed from a label on, whether it is held or not. -/
def freed : PrepareLabel → Finset Resource
  | .out | .outCleanupAsync | .outDestroyWorker | .outDestroyIface => ∅
  | .outFreeDevAddrs => {.peerDev}
  | .outFreeIfAddrs => {.peerDev, .peerIface}
  | .outCloseOobSock => {.oobSock, .peerDev, .peerIface}
  | .outFreeEpAddrs | .outFreeEp => {.oobSock, .peerDev, .peerIface, .ownEp, .peerEp}

/-- What is held at a label is what is released from there on. -/
def Ready (label : PrepareLabel) (s : Store Resource) : Prop := Kept label.least label.freed s

end PrepareLabel

section Ladder

variable {s : Store Resource} {ε : Type} {E : ε → Store Resource → Prop}

theorem runs_outCleanupAsync (h : PrepareLabel.outCleanupAsync.Ready s) :
    Runs (outCleanupAsync : Leasing Resource ε Unit) s (fun _ s => s.held = ∅) E :=
  .of_then (h.release_then (by decide) (by decide) (by decide) fun _ h' => runs_pure h'.held_eq)

theorem runs_outDestroyWorker (h : PrepareLabel.outDestroyWorker.Ready s) :
    Runs (outDestroyWorker : Leasing Resource ε Unit) s (fun _ s => s.held = ∅) E :=
  h.release_then (by decide) (by decide) (by decide) fun _ h' =>
    runs_outCleanupAsync (h'.congr (by decide) (by decide))

theorem runs_outDestroyIface (h : PrepareLabel.outDestroyIface.Ready s) :
    Runs (outDestroyIface : Leasing Resource ε Unit) s (fun _ s => s.held = ∅) E :=
  -- the interface before the memory domain that it was opened on
  h.release_then (by decide) (by decide) (by decide) fun _ h₁ =>
    h₁.release_then (by decide) (by decide) (by decide) fun _ h₂ =>
      runs_outDestroyWorker (h₂.congr (by decide) (by decide))

theorem runs_outFreeDevAddrs (h : PrepareLabel.outFreeDevAddrs.Ready s) :
    Runs (outFreeDevAddrs : Leasing Resource ε Unit) s (fun _ s => s.held = ∅) E :=
  h.release_then (by decide) (by decide) (by decide) fun _ h₁ =>
    h₁.free_then (by decide) (by decide) (by decide) fun _ h₂ =>
      runs_outDestroyIface (h₂.congr (by decide) (by decide))

theorem runs_outFreeIfAddrs (h : PrepareLabel.outFreeIfAddrs.Ready s) :
    Runs (outFreeIfAddrs : Leasing Resource ε Unit) s (fun _ s => s.held = ∅) E :=
  h.release_then (by decide) (by decide) (by decide) fun _ h₁ =>
    h₁.free_then (by decide) (by decide) (by decide) fun _ h₂ =>
      runs_outFreeDevAddrs (h₂.congr (by decide) (by decide))

theorem runs_outCloseOobSock (h : PrepareLabel.outCloseOobSock.Ready s) :
    Runs (outCloseOobSock : Leasing Resource ε Unit) s (fun _ s => s.held = ∅) E :=
  h.free_then (by decide) (by decide) (by decide) fun _ h' =>
    runs_outFreeIfAddrs (h'.congr (by decide) (by decide))

theorem runs_outFreeEpAddrs (h : PrepareLabel.outFreeEpAddrs.Ready s) :
    Runs (outFreeEpAddrs : Leasing Resource ε Unit) s (fun _ s => s.held = ∅) E :=
  h.free_then (by decide) (by decide) (by decide) fun _ h₁ =>
    h₁.free_then (by decide) (by decide) (by decide) fun _ h₂ =>
      runs_outCloseOobSock (h₂.congr (by decide) (by decide))

theorem runs_outFreeEp (h : PrepareLabel.outFreeEp.Ready s) :
    Runs (outFreeEp : Leasing Resource ε Unit) s (fun _ s => s.held = ∅) E :=
  h.release_then (by decide) (by decide) (by decide) fun _ h' =>
    runs_outFreeEpAddrs (h'.congr (by decide) (by decide))

/-- From every label on, everything that is held is released, once and in order. -/
theorem runs_cleanupFrom {label : PrepareLabel} (h : label.Ready s) :
    Runs (cleanupFrom label : Leasing Resource ε Unit) s (fun _ s => s.held = ∅) E := by
  cases label with
  | outFreeEp => exact runs_outFreeEp h
  | outFreeEpAddrs => exact runs_outFreeEpAddrs h
  | outCloseOobSock => exact runs_outCloseOobSock h
  | outFreeIfAddrs => exact runs_outFreeIfAddrs h
  | outFreeDevAddrs => exact runs_outFreeDevAddrs h
  | outDestroyIface => exact runs_outDestroyIface h
  | outDestroyWorker => exact runs_outDestroyWorker h
  | outCleanupAsync => exact runs_outCleanupAsync h
  | out => exact runs_pure h.held_eq

end Ladder

/-! ### The steps -/

namespace PrepareHost

variable (host : PrepareHost) (args : CmdArgs)

/-- Whether a step of a preparation passes. -/
def ok : PrepareStep → Bool
  | .transport => (transportOf args host.components).isSome
  | .unsupported => false
  | .maxSize =>
    (transportOf args host.components).any
      fun attr => args.testStrlen ≤ attr.maxSize args.funcAmType
  | step => host.passes step

/-- A step among `steps` does not pass. -/
def Fails (steps : List PrepareStep) : Prop := ∃ step ∈ steps, host.ok args step = false

/-- All of them pass. -/
def Passes (steps : List PrepareStep) : Prop := ∀ step ∈ steps, host.ok args step = true

/-- The steps that do not depend on the transport. -/
def reachSteps : List PrepareStep :=
  [.asyncContext, .worker, .transport, .deviceAddrMemory, .ifaceAddrMemory, .deviceAddress,
    .oobConnect, .deviceExchange, .reachable]

/-- What is held when the peer can be reached. -/
def reached : Finset Resource :=
  {.async, .worker, .md, .iface, .ownDev, .ownIface, .oobSock, .peerDev}

variable {host args} {H V : Finset Resource}

theorem freed_subset (label : PrepareLabel) : label.freed ⊆ freed := by cases label <;> decide

/-- A step that does not pass leads to a label that knows what is held. -/
theorem fails_at {label : PrepareLabel} {steps : List PrepareStep} (step : PrepareStep)
    (h_named : Named freed ⟨H, V⟩) (h_fail : host.ok args step = false) (h_step : step ∈ steps)
    (h_least : label.least ⊆ H) (h_most : H ⊆ label.least ∪ label.freed) :
    label.Ready ⟨H, V⟩ ∧ host.Fails args steps :=
  ⟨⟨h_least, h_most, h_named.mono (freed_subset label)⟩, step, h_step, h_fail⟩

theorem exchange_then {own peer : Resource} {step : PrepareStep} {label : PrepareLabel} {β : Type}
    {k : Leasing Resource PrepareLabel β} {P : β → Store Resource → Prop}
    {E : PrepareLabel → Store Resource → Prop} (h_sock : .oobSock ∈ H) (h_own : own ∈ H)
    (h_peer : peer ∉ H) (h_needs : needs peer ⊆ H)
    (h_early : host.passes step = false → E label ⟨H, V⟩)
    (h_late : host.passes step = false → E label ⟨insert peer H, insert peer V⟩)
    (h : host.passes step = true → Runs k ⟨insert peer H, insert peer V⟩ P E) :
    Runs (host.exchange own peer step label >>= fun _ => k) ⟨H, V⟩ P E := by
  refine (Runs.bind (Q := fun _ s => host.passes step = true ∧
    s = ⟨insert peer H, insert peer V⟩) ?_ ?_)
  · unfold exchange
    -- the exchange may fail before it has allocated the buffer, or afterwards
    refine .use_then h_sock (.use_then h_own (.acquireIf_then h_peer h_needs (fun h_none => ?_)
      fun _ => ?_))
    · -- nothing was allocated, so the step did not pass either
      have h_fail := (Bool.or_eq_false_iff.mp h_none).1
      exact .of_then (.check_then h_early fun h' => absurd (h'.symm.trans h_fail) (by decide))
    · exact .of_then (.check_then h_late fun h' => runs_pure ⟨h', rfl⟩)
  · rintro _ _ ⟨h', rfl⟩
    exact h h'

/-- Whatever `uct_ep_connect_to_ep` answers, the preparation goes on. -/
theorem uctEpConnectToEp_then {β : Type} {k : Bool → Leasing Resource PrepareLabel β}
    {P : β → Store Resource → Prop} {E : PrepareLabel → Store Resource → Prop}
    (h_ep : .ep ∈ H) (h_dev : .peerDev ∈ H) (h_peer : .peerEp ∈ H)
    (h : ∀ status, Runs (k status) ⟨H, V⟩ P E) :
    Runs (host.uctEpConnectToEp >>= k) ⟨H, V⟩ P E := by
  refine Runs.bind (Q := fun _ s => s = ⟨H, V⟩) ?_ ?_
  · exact .use_then h_ep (.use_then h_dev (.use_then h_peer (runs_pure rfl)))
  · rintro status _ rfl
    exact h status

theorem runs_reachPeer (h_named : Named freed ⟨∅, V⟩) :
    Runs (host.reachPeer args) ⟨∅, V⟩
      (fun attr s => (transportOf args host.components = some attr ∧ host.Passes args reachSteps) ∧
        s.held = reached ∧ Named freed s)
      fun label s => label.Ready s ∧ host.Fails args reachSteps := by
  have h_async := h_named.acquire .async
  have h_worker := h_async.acquire .worker
  have h_context : (insert Resource.worker (insert Resource.async (∅ : Finset Resource))) =
    {.async, .worker} := by decide
  rw [h_context] at h_worker
  unfold reachPeer
  refine .check_then (fun h => fails_at .asyncContext h_named h (by decide) (by decide) (by decide))
    fun h_ok₁ => .acquire_then (by decide) (by decide) ?_
  refine .check_then (fun h => fails_at .worker h_async h (by decide) (by decide) (by decide))
    fun h_ok₂ => .acquire_then (by decide) (by decide) ?_
  rw [h_context]
  -- `dev_tl_lookup` leaves everything closed when it fails
  refine (runs_devTlLookup args host.components h_worker).bind_named
    fun r V' h_transport h_found => ?_
  refine .get_then (fun h => ?_) fun attr h => ?_
  · subst h
    change Named freed ⟨{.async, .worker}, V'⟩ at h_found
    refine fails_at .transport h_found ?_ (by decide) (by decide) (by decide)
    change (transportOf args host.components).isSome = false
    rw [← h_transport]
    rfl
  subst h
  change Named freed ⟨{.async, .worker, .md, .iface}, V'⟩ at h_found
  change Runs _ ⟨{.async, .worker, .md, .iface}, V'⟩ _ _
  have h_dev := h_found.acquire .ownDev
  have h_iface := h_dev.acquire .ownIface
  have h_sock := h_iface.acquire .oobSock
  have h_peer := h_sock.acquire .peerDev
  refine .check_then
    (fun h => fails_at .deviceAddrMemory h_found h (by decide) (by decide) (by decide))
    fun h_ok₃ => .acquire_then (by decide) (by decide) ?_
  refine .check_then
    (fun h => fails_at .ifaceAddrMemory h_dev h (by decide) (by decide) (by decide))
    fun h_ok₄ => .acquire_then (by decide) (by decide) ?_
  refine .use_then (by decide) (.use_then (by decide) ?_)
  refine .check_then
    (fun h => fails_at .deviceAddress h_iface h (by decide) (by decide) (by decide))
    fun h_ok₅ => ?_
  -- `oob_sock` is -1 after a failure, and closing it does nothing
  refine .check_then (fun h => fails_at .oobConnect h_iface h (by decide) (by decide) (by decide))
    fun h_ok₆ => .acquire_then (by decide) (by decide) ?_
  refine exchange_then (by decide) (by decide) (by decide) (by decide)
    (fun h => fails_at .deviceExchange h_sock h (by decide) (by decide) (by decide))
    (fun h => fails_at .deviceExchange h_peer h (by decide) (by decide) (by decide))
    fun h_ok₇ => ?_
  refine .use_then (by decide) (.use_then (by decide) ?_)
  refine .check_then (fun h => fails_at .reachable h_peer h (by decide) (by decide) (by decide))
    fun h_ok₈ => runs_pure ?_
  have h_reached : insert Resource.peerDev (insert Resource.oobSock (insert Resource.ownIface
    (insert Resource.ownDev {.async, .worker, .md, .iface}))) = reached := by decide
  refine ⟨⟨h_transport.symm, ?_⟩, h_reached, h_peer⟩
  have h_ok : host.ok args .transport = true := by
    change (transportOf args host.components).isSome = true
    rw [← h_transport]
    rfl
  simp only [Passes, reachSteps, List.forall_mem_cons]
  exact ⟨h_ok₁, h_ok₂, h_ok, h_ok₃, h_ok₄, h_ok₅, h_ok₆, h_ok₇, h_ok₈,
    fun _ h => absurd h List.not_mem_nil⟩

/-- The steps of a transport that connects to interfaces. -/
def ifaceSteps (caps : IfaceCaps) : List PrepareStep :=
  if caps.connectToIface then [.ifaceAddress, .ifaceExchange] else []

/-- The steps by which the endpoint comes about. -/
def epSteps (caps : IfaceCaps) : List PrepareStep :=
  if caps.connectToEp then [.epAddrMemory, .epCreate, .epAddress, .epExchange, .barrier]
  else if caps.connectToIface then [.epCreate] else [.unsupported]

/-- What is held when interface addresses have been exchanged or not. -/
def exchanged (connectToIface : Bool) : Finset Resource :=
  if connectToIface then insert .peerIface reached else reached

/-- What is held when the endpoint is there. -/
def connected (caps : IfaceCaps) : Finset Resource :=
  if caps.connectToEp then
    insert .peerEp (insert .ep (insert .ownEp (exchanged caps.connectToIface)))
  else insert .ep (exchanged caps.connectToIface)

theorem runs_exchangeIface (caps : IfaceCaps) (h_named : Named freed ⟨reached, V⟩) :
    Runs (host.exchangeIface caps) ⟨reached, V⟩
      (fun _ s => host.Passes args (ifaceSteps caps) ∧ s.held = exchanged caps.connectToIface ∧
        Named freed s)
      fun label s => label.Ready s ∧ host.Fails args (ifaceSteps caps) := by
  obtain ⟨connectToIface, connectToEp⟩ := caps
  cases connectToIface with
  | false => exact runs_pure ⟨fun _ h => absurd h List.not_mem_nil, rfl, h_named⟩
  | true =>
    have h_steps : ifaceSteps ⟨true, connectToEp⟩ = [.ifaceAddress, .ifaceExchange] := rfl
    have h_peer := h_named.acquire .peerIface
    rw [h_steps]
    refine .use_then (by decide) (.use_then (by decide) ?_)
    refine .check_then
      (fun h => fails_at .ifaceAddress h_named h (by decide) (by decide) (by decide))
      fun h_ok₁ => .of_then ?_
    refine exchange_then (by decide) (by decide) (by decide) (by decide)
      (fun h => fails_at .ifaceExchange h_named h (by decide) (by decide) (by decide))
      (fun h => fails_at .ifaceExchange h_peer h (by decide) (by decide) (by decide))
      fun h_ok₂ => runs_pure ⟨?_, rfl, h_peer⟩
    simp only [Passes, List.forall_mem_cons]
    exact ⟨h_ok₁, h_ok₂, fun _ h => absurd h List.not_mem_nil⟩

theorem runs_connectEp (caps : IfaceCaps)
    (h_named : Named freed ⟨exchanged caps.connectToIface, V⟩) :
    Runs (host.connectEp caps) ⟨exchanged caps.connectToIface, V⟩
      (fun _ s => host.Passes args (epSteps caps) ∧ s.held = connected caps ∧ Named freed s)
      fun label s => label.Ready s ∧ host.Fails args (epSteps caps) := by
  obtain ⟨connectToIface, connectToEp⟩ := caps
  dsimp only at h_named ⊢
  have h_own := h_named.acquire .ownEp
  have h_own_ep := h_own.acquire .ep
  have h_peer := h_own_ep.acquire .peerEp
  have h_ep := h_named.acquire .ep
  cases connectToEp with
  | true =>
    have h_steps : epSteps ⟨connectToIface, true⟩ =
      [.epAddrMemory, .epCreate, .epAddress, .epExchange, .barrier] := rfl
    rw [h_steps]
    -- the interface address of the peer is there or not, and no step depends on it
    cases connectToIface
    all_goals
      refine .check_then
        (fun h => fails_at .epAddrMemory h_named h (by decide) (by decide) (by decide))
        fun h_ok₁ => .acquire_then (by decide) (by decide) ?_
      refine .check_then (fun h => fails_at .epCreate h_own h (by decide) (by decide) (by decide))
        fun h_ok₂ => .acquire_then (by decide) (by decide) ?_
      refine .use_then (by decide) (.use_then (by decide) ?_)
      refine .check_then
        (fun h => fails_at .epAddress h_own_ep h (by decide) (by decide) (by decide))
        fun h_ok₃ => exchange_then (by decide) (by decide) (by decide) (by decide)
          (fun h => fails_at .epExchange h_own_ep h (by decide) (by decide) (by decide))
          (fun h => fails_at .epExchange h_peer h (by decide) (by decide) (by decide))
          fun h_ok₄ => ?_
      -- the barrier comes next, whatever the status was
      refine uctEpConnectToEp_then (by decide) (by decide) (by decide) fun _ =>
        .use_then (by decide) (.of_then ?_)
      refine .check_then (fun h => fails_at .barrier h_peer h (by decide) (by decide) (by decide))
        fun h_ok₅ => runs_pure ⟨?_, rfl, h_peer⟩
      simp only [Passes, List.forall_mem_cons]
      exact ⟨h_ok₁, h_ok₂, h_ok₃, h_ok₄, h_ok₅, fun _ h => absurd h List.not_mem_nil⟩
  | false =>
    cases connectToIface with
    | true =>
      have h_steps : epSteps ⟨true, false⟩ = [.epCreate] := rfl
      rw [h_steps]
      refine .use_then (by decide) (.use_then (by decide) ?_)
      refine .check_then (fun h => fails_at .epCreate h_named h (by decide) (by decide) (by decide))
        fun h_ok => .of_then (.acquire_then (by decide) (by decide) (runs_pure ⟨?_, rfl, h_ep⟩))
      exact List.forall_mem_singleton.mpr h_ok
    | false =>
      -- a transport that connects to neither
      exact runs_jump (fails_at .unsupported h_named rfl (by decide) (by decide) (by decide))

/-! ### A preparation -/

/-- What the transport that is found can connect to. -/
def caps (host : PrepareHost) (args : CmdArgs) : IfaceCaps :=
  (transportOf args host.components).elim ⟨false, false⟩ IfaceAttr.caps

theorem Fails.mono {steps steps' : List PrepareStep} (h : host.Fails args steps)
    (h_sub : steps ⊆ steps') : host.Fails args steps' :=
  h.imp fun _ h => ⟨h_sub h.1, h.2⟩

theorem prepareSteps_eq (caps : IfaceCaps) : prepareSteps caps =
    reachSteps ++ ifaceSteps caps ++ epSteps caps ++ [.maxSize, .amHandler] := rfl

theorem connected_bounds (caps : IfaceCaps) :
    PrepareLabel.outFreeEp.least ⊆ connected caps ∧
      connected caps ⊆ PrepareLabel.outFreeEp.least ∪ PrepareLabel.outFreeEp.freed ∧
      Resource.iface ∈ connected caps := by
  obtain ⟨connectToIface, connectToEp⟩ := caps
  cases connectToIface <;> cases connectToEp <;> decide

theorem runs_prepareBody (V : Finset Resource) : Runs (host.prepareBody args) ⟨∅, V⟩
    (fun _ s => host.Passes args (prepareSteps (host.caps args)) ∧
      s.held = connected (host.caps args))
    fun label s => label.Ready s ∧ host.Fails args (prepareSteps (host.caps args)) := by
  have h_start : Named ∅ ⟨∅, V⟩ := fun r h_r => absurd h_r (Finset.notMem_empty r)
  -- the five variables that the labels free whether they were acquired or not
  have h_null := ((((h_start.clear (r := Resource.peerDev) (by decide)).clear
    (r := .peerIface) (by decide)).clear (r := .ownEp) (by decide)).clear
    (r := .peerEp) (by decide)).clear (r := .oobSock) (by decide)
  have h_freed := h_null.mono (by decide : freed ⊆ _)
  rw [prepareSteps_eq]
  unfold prepareBody
  refine .clear_then (by decide) (.clear_then (by decide) (.clear_then (by decide)
    (.clear_then (by decide) (.clear_then (by decide) ?_))))
  refine ((runs_reachPeer h_freed).mono (fun _ _ h => h)
    fun _ _ h => ⟨h.1, h.2.mono fun _ h_step => by simp [h_step]⟩).bind_named
      fun attr V₁ h_peer h_named => ?_
  obtain ⟨h_transport, h_reach⟩ := h_peer
  have h_caps : host.caps args = attr.caps := by
    unfold caps
    rw [h_transport]
    rfl
  rw [h_caps]
  refine ((runs_exchangeIface attr.caps h_named).mono (fun _ _ h => h)
    fun _ _ h => ⟨h.1, h.2.mono fun _ h_step => by simp [h_step]⟩).bind_named
      fun _ V₂ h_iface h_named => ?_
  refine ((runs_connectEp attr.caps h_named).mono (fun _ _ h => h)
    fun _ _ h => ⟨h.1, h.2.mono fun _ h_step => by simp [h_step]⟩).bind_named
      fun _ V₃ h_ep h_named => ?_
  obtain ⟨h_least, h_most, h_open⟩ := connected_bounds attr.caps
  have h_size : host.ok args .maxSize =
      decide (args.testStrlen ≤ attr.maxSize args.funcAmType) := by
    change (transportOf args host.components).any _ = _
    rw [h_transport]
    rfl
  refine .check_then (fun h => fails_at .maxSize h_named (h_size.trans h) (by simp) h_least h_most)
    fun h_ok₁ => .use_then h_open (.of_then ?_)
  refine .check_then (fun h => fails_at .amHandler h_named h (by simp) h_least h_most)
    fun h_ok₂ => runs_pure ⟨?_, rfl⟩
  intro step h_step
  -- every step is one of the three parts, or one of the last two checks
  rcases List.mem_append.mp h_step with h_step | h_step
  · rcases List.mem_append.mp h_step with h_step | h_step
    · rcases List.mem_append.mp h_step with h_step | h_step
      · exact h_reach step h_step
      · exact h_iface step h_step
    · exact h_ep step h_step
  · rcases List.mem_pair.mp h_step with rfl | rfl
    · exact h_size.trans h_ok₁
    · exact h_ok₂

/-- A preparation either passes all its steps and keeps all it has acquired, or keeps nothing. -/
theorem runs_moleculePrepareDsmCtx (V : Finset Resource) :
    Runs (host.moleculePrepareDsmCtx args) ⟨∅, V⟩
      (fun ready s => (ready = true ↔ host.Passes args (prepareSteps (host.caps args))) ∧
        s.held = if ready then connected (host.caps args) else ∅) fun _ _ => False := by
  unfold moleculePrepareDsmCtx
  -- the body returns when every step has passed, and jumps to a label when one has not
  have h_body : Runs (attempt (host.prepareBody args)) ⟨∅, V⟩
      (fun r s => (∀ u, r = .ok u → host.Passes args (prepareSteps (host.caps args)) ∧
          s.held = connected (host.caps args)) ∧
        ∀ label, r = .error label → label.Ready s ∧
          host.Fails args (prepareSteps (host.caps args))) fun (_ : Empty) _ => False := by
    refine ((runs_prepareBody V).mono (fun u s h => ⟨fun _ _ => h, fun _ h' => ?_⟩)
      fun label s h => ⟨fun _ h' => ?_, fun _ h' => Except.error.inj h' ▸ h⟩).attempt
    · cases h'
    · cases h'
  refine h_body.bind fun r s h => ?_
  cases r with
  | ok u =>
    obtain ⟨h_all, h_held⟩ := h.1 u rfl
    exact runs_pure ⟨iff_of_true rfl h_all, h_held⟩
  | error label =>
    -- and from the label on, all that is held is released
    obtain ⟨h_ready, step, h_step, h_fail⟩ := h.2 label rfl
    refine (runs_cleanupFrom h_ready).bind fun _ s h_held => runs_pure ⟨?_, h_held⟩
    exact iff_of_false (by decide) fun h_all => absurd ((h_all step h_step).symm.trans h_fail)
      (by decide)

/-- The context is stored exactly if every step passes. -/
theorem ready_iff (V : Finset Resource) :
    (∃ s, host.moleculePrepareDsmCtx args ⟨∅, V⟩ = some (.ok true, s)) ↔
      host.Passes args (prepareSteps (host.caps args)) := by
  have h_run : Runs (host.moleculePrepareDsmCtx args) ⟨∅, V⟩ _ _ := runs_moleculePrepareDsmCtx V
  rcases h_run with ⟨ready, s, h_x, h_ready, -⟩ | ⟨e, -⟩
  · rw [← h_ready, h_x]
    constructor
    · rintro ⟨s', h⟩
      exact (Except.ok.inj (Prod.mk.inj (Option.some.inj h)).1)
    · rintro rfl
      exact ⟨s, rfl⟩
  · exact e.elim

/-- What a context needs: the endpoint, and what that is built on. -/
def contextNeeds : Finset Resource := {.async, .worker, .md, .iface, .ep}

/-- What a context needs does not need anything else. -/
theorem needs_contextNeeds : ∀ r ∈ contextNeeds, needs r ⊆ contextNeeds := by decide

/-- What is acquired for the exchange with the other PU. -/
def leftovers (caps : IfaceCaps) : Finset Resource :=
  {.ownDev, .ownIface, .oobSock, .peerDev} ∪
    ((if caps.connectToIface then {.peerIface} else ∅) ∪
      if caps.connectToEp then {.ownEp, .peerEp} else ∅)

theorem connected_eq (caps : IfaceCaps) : connected caps = contextNeeds ∪ leftovers caps := by
  obtain ⟨connectToIface, connectToEp⟩ := caps
  cases connectToIface <;> cases connectToEp <;> decide

/-- **A preparation keeps everything, or nothing.** Whatever the calls of UCT and of the host
answer, nothing is used that is not held, released twice, or overwritten while it is held. The
context is stored exactly if every step passes, where `uct_ep_connect_to_ep` is not a step; then
what the context needs stays held, and so does all that was acquired for the exchange. Else all that
was acquired has been released. -/
theorem prepare_balanced (host : PrepareHost) (args : CmdArgs) (V : Finset Resource) :
    ∃ ready s, host.moleculePrepareDsmCtx args ⟨∅, V⟩ = some (.ok ready, s) ∧
      (ready = true ↔ host.Passes args (prepareSteps (host.caps args))) ∧
      s.held = if ready then contextNeeds ∪ leftovers (host.caps args) else ∅ := by
  rw [← connected_eq]
  have h_run : Runs (host.moleculePrepareDsmCtx args) ⟨∅, V⟩ _ _ := runs_moleculePrepareDsmCtx V
  rcases h_run with ⟨ready, s, h_x, h⟩ | ⟨e, -⟩
  · exact ⟨ready, s, h_x, h⟩
  · exact e.elim

end PrepareHost

end MoleculeOS
