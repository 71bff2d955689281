import Ferron.Lib.JsonStrings
import Ferron.Rust.Utf8
import Ferron.Server.OnDemand

/-!
# On-demand TLS in any order of its steps

Handshakes send names at any time and the tasks of the names take turns in any way. No name is lost from a
file that can be read and written, and none is added twice (`holdsNames_of_reaches`). In the end there is one
ACME configuration for each name (`acmeConfigs_of_settled`), and the next start makes the same ones when no
file has failed (`acmeConfigs_of_restart`).
-/

set_option autoImplicit false

namespace Ferron.Server.OnDemand

open Ferron.Acme Ferron.Common Ferron.Lib Ferron.Lib.LockedUpdates Ferron.Lib.Overwrite Ferron.TlsUtil

variable {F ν : Type}

/-! ## The names in a file -/

section Files

variable {services : Services F}

/-- What has been written is read again, and with one more name it does not get shorter. -/
structure Services.ReadsBack (services : Services F) : Prop where
  fromSlice_toVec : ∀ domains, services.fromSlice (services.toVec domains) = some domains
  length_le : ∀ domains domain,
    (services.toVec domains).length ≤ (services.toVec (domains ++ [domain])).length

/-- The file has these names. Without a name there may be no file. -/
def HoldsNames (services : Services F) (files : Files F) (file : F) (domains : List Str) : Prop :=
  (contentOf files file = none ∧ domains = []) ∨ contentOf files file = some (services.toVec domains)

theorem getCachedDomains_eq (services : Services F) (files : Files F) {config : AcmeOnDemandConfig ν} {file : F}
    (hfile : hostnameFile services config = some file) :
    getCachedDomains services files config =
      ((contentOf files file).bind services.fromSlice).getD [] := by
  unfold hostnameFile at hfile
  unfold getCachedDomains
  cases hpath : config.tls.cachePath with
  | none =>
      rw [hpath] at hfile
      cases hfile
  | some path =>
      rw [hpath, Option.map_some, Option.some.injEq] at hfile
      dsimp only [getFromCache]
      rw [toOption_readFile, hfile]
      cases contentOf files file <;> rfl

theorem HoldsNames.getCachedDomains_eq (hservices : services.ReadsBack) {files : Files F} {file : F}
    {domains : List Str} (h : HoldsNames services files file domains) {config : AcmeOnDemandConfig ν}
    (hfile : hostnameFile services config = some file) :
    getCachedDomains services files config = domains := by
  rw [OnDemand.getCachedDomains_eq services files hfile]
  rcases h with ⟨hnone, rfl⟩ | hsome
  · rw [hnone]
    rfl
  · rw [hsome, Option.bind_some, hservices.fromSlice_toVec, Option.getD_some]

variable [DecidableEq F]

/-- What is in the files after a name has been written. -/
theorem contentOf_writeDomains (services : Services F) (files : Files F) {addition : Addition ν}
    (hwrite : addition.write = .succeeds) (cachedDomains : List Str) (other : F) :
    contentOf (writeDomains services files addition cachedDomains) other =
      if hostnameFile services addition.task.config = some other then
        some (overwrite (services.toVec (cachedDomains ++ [addition.task.domain]))
          ((contentOf files other).getD []))
      else contentOf files other := by
  unfold writeDomains hostnameFile
  cases hpath : addition.task.config.tls.cachePath with
  | none => rfl
  | some path =>
      obtain ⟨after, hset, hcontent⟩ := setInCache_file services.locate files path
        (getHostnameCacheKey services addition.task.config)
        (services.toVec (cachedDomains ++ [addition.task.domain]))
      dsimp only
      rw [hwrite, setInCacheWith_succeeds, hset, hcontent]
      simp only [Option.map_some, Option.some.injEq, eq_comm]

/-- A name leaves the files of other configurations as they are, also when its own cannot be written. -/
theorem contentOf_writeDomains_of_ne (services : Services F) (files : Files F) {addition : Addition ν}
    {other : F} (hne : hostnameFile services addition.task.config ≠ some other) (cachedDomains : List Str) :
    contentOf (writeDomains services files addition cachedDomains) other = contentOf files other := by
  unfold hostnameFile at hne
  unfold writeDomains
  cases hpath : addition.task.config.tls.cachePath with
  | none => rfl
  | some path =>
      rw [hpath, Option.map_some] at hne
      exact contentOf_setInCacheWith_of_ne services.locate files path _ _ _ fun h => hne (h ▸ rfl)

/-- A name is added to its file, if this can be read and written. -/
theorem HoldsNames.update (hservices : services.ReadsBack) {files : Files F} {file : F} {domains : List Str}
    (h : HoldsNames services files file domains) {addition : Addition ν}
    (hsucceeds : hostnameFile services addition.task.config = some file → addition.Succeeds) :
    HoldsNames services (LockedUpdates.update (readDomains services) (writeDomains services) files addition) file
      (domains ++ if hostnameFile services addition.task.config = some file then [addition.task.domain]
        else []) := by
  unfold HoldsNames LockedUpdates.update readDomains
  by_cases hfile : hostnameFile services addition.task.config = some file
  · obtain ⟨hreadable, hwrite⟩ := hsucceeds hfile
    rw [contentOf_writeDomains services files hwrite, if_pos hfile, if_pos hfile, if_pos hreadable,
      h.getCachedDomains_eq hservices hfile]
    refine .inr (congrArg some (overwrite_eq_self_iff.2 ?_))
    rcases h with ⟨hnone, _⟩ | hsome
    · rw [hnone]
      exact Nat.zero_le _
    · rw [hsome]
      exact hservices.length_le domains addition.task.domain
  · rw [contentOf_writeDomains_of_ne services files hfile, if_neg hfile, List.append_nil]
    exact h

/-- Names are added one after the other. -/
theorem HoldsNames.foldl (hservices : services.ReadsBack) {files : Files F} {file : F} {domains : List Str}
    (h : HoldsNames services files file domains) {additions : List (Addition ν)}
    (hsucceeds : ∀ addition ∈ additions,
      hostnameFile services addition.task.config = some file → addition.Succeeds) :
    HoldsNames services
      (additions.foldl (LockedUpdates.update (readDomains services) (writeDomains services)) files) file
      (domains ++ ((additions.map Addition.task).filter fun task =>
        hostnameFile services task.config = some file).map Task.domain) := by
  induction additions generalizing files domains with
  | nil =>
      rw [List.map_nil, List.filter_nil, List.map_nil, List.append_nil]
      exact h
  | cons addition additions ih =>
      obtain ⟨hfirst, hrest⟩ := List.forall_mem_cons.1 hsucceeds
      have hafter := ih (h.update hservices hfirst) hrest
      rw [List.foldl_cons]
      by_cases hfile : hostnameFile services addition.task.config = some file
      · rw [if_pos hfile, List.append_assoc] at hafter
        rw [List.map_cons, List.filter_cons, if_pos (decide_eq_true hfile), List.map_cons]
        exact hafter
      · rw [if_neg hfile, List.append_nil] at hafter
        rw [List.map_cons, List.filter_cons, if_neg (mt of_decide_eq_true hfile)]
        exact hafter

end Files

/-! ## What the steps keep -/

section Tracked

variable [DecidableEq F] {services : Services F} {certifiedKeyLock : Nat → Option (CertifiedKey ν)}
  {configs : List (AcmeOnDemandConfig ν)}
  {files : Files F} {readable : Nat → Bool} {done : List (Task ν)} {state after : State F ν}

/-- The tasks of the names that were received. -/
def State.tasks (state : State F ν) : List (Task ν) :=
  (state.updates.tasks.map Prod.fst).map Addition.task

/-- What the state comes from: the names that have been taken from the files, and those that were received. -/
structure Tracked (services : Services F) (configs : List (AcmeOnDemandConfig ν)) (files : Files F)
    (readable : Nat → Bool) (done : List (Task ν)) (state : State F ν) : Prop where
  cached : preloadedTasks services configs files readable = done ++ state.preloads
  updated : Updated (readDomains services) (writeDomains services) files state.updates
  early : state.preloads ≠ [] → state.received = [] ∧ state.tasks = []
  existing : ∀ combination, combination ∈ state.existingCombinations ↔
    combination ∈ done.map Task.combination ∨ combination ∈ state.received
  nodup : (state.tasks.map Task.combination).Nodup
  task : ∀ task ∈ state.tasks, task.combination ∈ state.received ∧
    task.combination ∉ done.map Task.combination ∧ configFor configs task.combination = some task.config
  accepted : ∀ combination ∈ state.received, combination ∉ done.map Task.combination →
    ∀ config, configFor configs combination = some config → ⟨combination.1, config⟩ ∈ state.tasks
  converted : ∀ conversion ∈ state.converted, ∃ task,
    state.tasks[conversion.1]? = some task ∧ conversion.2 = convertOnDemandConfig services task
  convertedOnce : (state.converted.map Prod.fst).Nodup
  pushed : state.pushed.Nodup ∧ ∀ index ∈ state.pushed, index ∈ state.converted.map Prod.fst
  acmeConfigs : state.acmeConfigs = (done ++ state.pushed.filterMap fun index => state.tasks[index]?).map
    (convertOnDemandConfig services)

/-- The configuration of a name is on its port. -/
theorem combination_of_configFor {combination : Str × UInt16} {config : AcmeOnDemandConfig ν}
    (h : configFor configs combination = some config) :
    (⟨combination.1, config⟩ : Task ν).combination = combination := by
  have hmatches := List.find?_some h
  rw [Bool.and_eq_true, decide_eq_true_iff] at hmatches
  rw [Task.combination, hmatches.2]

theorem Tracked.start (services : Services F) (gathered : Gathered ν) (files : Files F)
    (readable : Nat → Bool) : Tracked services gathered.acmeOnDemandConfigs files readable []
      (State.start services gathered files readable) where
  cached := rfl
  updated := Updated.new
  early := fun _ => ⟨rfl, rfl⟩
  existing := fun _ => by simp [State.start]
  nodup := List.nodup_nil
  task := fun _ h => absurd h List.not_mem_nil
  accepted := fun _ h => absurd h List.not_mem_nil
  converted := fun _ h => absurd h List.not_mem_nil
  convertedOnce := List.nodup_nil
  pushed := ⟨List.nodup_nil, fun _ h => absurd h List.not_mem_nil⟩
  acmeConfigs := rfl

/-- A name from a file. Nothing has been received yet. -/
theorem Tracked.preload (h : Tracked services configs files readable done state) {task : Task ν} {rest : List (Task ν)}
    (hpreloads : state.preloads = task :: rest) :
    Tracked services configs files readable (done ++ [task]) (state.preload services certifiedKeyLock task rest) := by
  obtain ⟨hreceived, htasks⟩ := h.early (hpreloads ▸ List.cons_ne_nil _ _)
  have hpushed : state.pushed = [] := by
    refine List.eq_nil_iff_forall_not_mem.2 fun index hindex => ?_
    obtain ⟨conversion, hconversion, _⟩ := List.mem_map.1 (h.pushed.2 index hindex)
    obtain ⟨found, hfound, _⟩ := h.converted conversion hconversion
    rw [htasks] at hfound
    cases hfound
  refine ⟨?_, h.updated, fun _ => ⟨hreceived, htasks⟩, ?_, h.nodup, ?_, ?_, h.converted, h.convertedOnce,
    h.pushed, ?_⟩
  · rw [h.cached, hpreloads, List.append_assoc]
    rfl
  · intro combination
    have hexisting := h.existing combination
    rw [State.preload, State.loadHost]
    dsimp only
    rw [List.mem_cons, hexisting, List.map_append, List.mem_append, List.map_singleton, List.mem_singleton]
    exact or_left_comm.trans (or_assoc.symm)
  · intro other hother
    rw [State.tasks, State.preload, State.loadHost] at hother
    rw [State.tasks] at htasks
    rw [htasks] at hother
    cases hother
  · intro combination hcombination
    rw [State.preload, State.loadHost] at hcombination
    rw [hreceived] at hcombination
    cases hcombination
  · have hconfigs := h.acmeConfigs
    rw [hpushed, List.filterMap_nil, List.append_nil] at hconfigs
    rw [State.preload, State.loadHost]
    dsimp only
    rw [hpushed, List.filterMap_nil, List.append_nil, hconfigs, List.map_append, List.map_singleton]

/-- What is sent changes nothing. -/
theorem Tracked.send (h : Tracked services configs files readable done state) (channel : List (Str × UInt16)) :
    Tracked services configs files readable done { state with channel := channel } :=
  ⟨h.cached, h.updated, h.early, h.existing, h.nodup, h.task, h.accepted, h.converted, h.convertedOnce, h.pushed,
    h.acmeConfigs⟩

theorem Tracked.existing_cons (h : Tracked services configs files readable done state) (combination other : Str × UInt16) :
    other ∈ combination :: state.existingCombinations ↔
      other ∈ done.map Task.combination ∨ other ∈ combination :: state.received := by
  rw [List.mem_cons, h.existing, List.mem_cons]
  exact or_left_comm

theorem Tracked.task_cons (h : Tracked services configs files readable done state) (combination : Str × UInt16) :
    ∀ task ∈ state.tasks, task.combination ∈ combination :: state.received ∧
      task.combination ∉ done.map Task.combination ∧ configFor configs task.combination = some task.config := by
  intro task htask
  obtain ⟨hreceived, hrest⟩ := h.task task htask
  exact ⟨List.mem_cons_of_mem _ hreceived, hrest⟩

/-- A name that is there already. -/
theorem Tracked.receiveOld (h : Tracked services configs files readable done state) {combination : Str × UInt16}
    (hpreloads : state.preloads = []) (hold : combination ∈ state.existingCombinations) :
    Tracked services configs files readable done { state with received := combination :: state.received } := by
  refine ⟨h.cached, h.updated, fun hne => absurd hpreloads hne, ?_, h.nodup, h.task_cons combination, ?_,
    h.converted, h.convertedOnce, h.pushed, h.acmeConfigs⟩
  · intro other
    rw [h.existing, List.mem_cons]
    refine ⟨Or.imp_right .inr, ?_⟩
    rintro (hdone | rfl | hreceived)
    · exact .inl hdone
    · exact (h.existing other).1 hold
    · exact .inr hreceived
  · intro other hother hdone
    rcases List.mem_cons.1 hother with rfl | hother
    · exact h.accepted other (((h.existing other).1 hold).resolve_left hdone) hdone
    · exact h.accepted other hother hdone

/-- A new name without a configuration for it. -/
theorem Tracked.receiveUnmatched (h : Tracked services configs files readable done state) {combination : Str × UInt16}
    (hpreloads : state.preloads = []) (hconfig : configFor configs combination = none) :
    Tracked services configs files readable done { state with
      existingCombinations := combination :: state.existingCombinations
      received := combination :: state.received } := by
  refine ⟨h.cached, h.updated, fun hne => absurd hpreloads hne, h.existing_cons combination, h.nodup,
    h.task_cons combination, ?_, h.converted, h.convertedOnce, h.pushed, h.acmeConfigs⟩
  · intro other hother hdone config hother'
    rcases List.mem_cons.1 hother with rfl | hother
    · rw [hconfig] at hother'
      cases hother'
    · exact h.accepted other hother hdone config hother'

/-- A new name gets a task. -/
theorem Tracked.receiveNew (h : Tracked services configs files readable done state) {combination : Str × UInt16}
    {config : AcmeOnDemandConfig ν} (hpreloads : state.preloads = [])
    (hnew : combination ∉ state.existingCombinations) (hconfig : configFor configs combination = some config)
    (canRead : Bool) (write : Write) :
    Tracked services configs files readable done { state with
      existingCombinations := combination :: state.existingCombinations
      updates := state.updates.spawn ⟨⟨combination.1, config⟩, canRead, write⟩
      received := combination :: state.received } := by
  have hcombination := combination_of_configFor hconfig
  have htasks : ((state.updates.spawn ⟨⟨combination.1, config⟩, canRead, write⟩).tasks.map Prod.fst).map
      Addition.task = state.tasks ++ [⟨combination.1, config⟩] := by
    rw [LockedUpdates.State.spawn, List.map_append, List.map_append]
    rfl
  rw [h.existing, not_or] at hnew
  -- an earlier task stays where it is
  have hindex : ∀ (index : Nat) task, state.tasks[index]? = some task →
      (state.tasks ++ [⟨combination.1, config⟩])[index]? = some task := by
    intro index task htask
    rw [List.getElem?_append_left (List.getElem?_eq_some_iff.1 htask).1]
    exact htask
  refine ⟨h.cached, h.updated.spawn _, fun hne => absurd hpreloads hne, h.existing_cons combination, ?_, ?_,
    ?_, ?_, h.convertedOnce, h.pushed, ?_⟩
  · rw [State.tasks, htasks, List.map_append, List.map_singleton, hcombination]
    refine List.nodup_append.2 ⟨h.nodup, List.nodup_singleton _, ?_⟩
    intro first hfirst second hsecond heq
    obtain ⟨task, htask, hfirst⟩ := List.mem_map.1 hfirst
    rw [List.mem_singleton.1 hsecond] at heq
    exact hnew.2 (heq ▸ hfirst ▸ (h.task task htask).1)
  · intro task htask
    rw [State.tasks, htasks] at htask
    rcases List.mem_append.1 htask with htask | htask
    · exact h.task_cons combination task htask
    · rw [List.mem_singleton.1 htask, hcombination]
      exact ⟨List.mem_cons_self, hnew.1, hconfig⟩
  · intro other hother hdone otherConfig hotherConfig
    rw [State.tasks, htasks]
    rcases List.mem_cons.1 hother with rfl | hother
    · rw [hconfig, Option.some.injEq] at hotherConfig
      rw [hotherConfig]
      exact List.mem_append_right _ List.mem_cons_self
    · exact List.mem_append_left _ (h.accepted other hother hdone otherConfig hotherConfig)
  · intro conversion hconversion
    obtain ⟨task, htask, heq⟩ := h.converted conversion hconversion
    refine ⟨task, ?_, heq⟩
    rw [State.tasks, htasks]
    exact hindex _ _ htask
  · rw [State.tasks, htasks, h.acmeConfigs]
    refine congrArg (fun tasks => (done ++ tasks).map (convertOnDemandConfig services)) ?_
    refine List.filterMap_congr fun index hpushed => ?_
    obtain ⟨conversion, hconversion, rfl⟩ := List.mem_map.1 (h.pushed.2 index hpushed)
    obtain ⟨task, htask, _⟩ := h.converted conversion hconversion
    rw [htask, hindex _ _ htask]

/-- A step of a task on the files. -/
theorem Tracked.update (h : Tracked services configs files readable done state)
    {updates : LockedUpdates.State (Files F) (Addition ν) (List Str)}
    (hstep : LockedUpdates.Step (readDomains services) (writeDomains services) state.updates updates) :
    Tracked services configs files readable done { state with updates := updates } := by
  have htasks : State.tasks { state with updates := updates } = state.tasks :=
    congrArg (List.map Addition.task) hstep.tasks_eq
  refine ⟨h.cached, h.updated.step hstep, ?_, h.existing, ?_, ?_, ?_, ?_, h.convertedOnce, h.pushed, ?_⟩
  · rw [htasks]
    exact h.early
  · rw [htasks]
    exact h.nodup
  · rw [htasks]
    exact h.task
  · rw [htasks]
    exact h.accepted
  · rw [htasks]
    exact h.converted
  · rw [htasks]
    exact h.acmeConfigs

/-- A task makes its ACME configuration. -/
theorem Tracked.convert (h : Tracked services configs files readable done state) {index : Nat} {addition : Addition ν}
    (hunlocked : state.updates.tasks[index]? = some (addition, .unlocked))
    (hfresh : index ∉ state.converted.map Prod.fst) :
    Tracked services configs files readable done { state.loadHost certifiedKeyLock addition.task with
      converted := state.converted ++ [(index, convertOnDemandConfig services addition.task)] } := by
  have htask : state.tasks[index]? = some addition.task := by
    rw [State.tasks, List.getElem?_map, List.getElem?_map, hunlocked]
    rfl
  refine ⟨h.cached, h.updated, h.early, h.existing, h.nodup, h.task, h.accepted, ?_, ?_, ?_, h.acmeConfigs⟩
  · intro conversion hconversion
    rcases List.mem_append.1 hconversion with hconversion | hconversion
    · exact h.converted conversion hconversion
    · rw [List.mem_singleton.1 hconversion]
      exact ⟨addition.task, htask, rfl⟩
  · rw [List.map_append, List.map_singleton]
    refine List.nodup_append.2 ⟨h.convertedOnce, List.nodup_singleton _, ?_⟩
    intro first hfirst second hsecond heq
    rw [List.mem_singleton.1 hsecond] at heq
    have hsame : first = index := heq
    exact hfresh (hsame ▸ hfirst)
  · refine ⟨h.pushed.1, fun other hother => ?_⟩
    rw [List.map_append]
    exact List.mem_append_left _ (h.pushed.2 other hother)

/-- It adds it to the others. -/
theorem Tracked.push (h : Tracked services configs files readable done state) {index : Nat} {config : ConvertedConfig ν}
    (hconverted : (index, config) ∈ state.converted) (hfresh : index ∉ state.pushed) :
    Tracked services configs files readable done { state with
      pushed := state.pushed ++ [index]
      acmeConfigs := state.acmeConfigs ++ [config] } := by
  refine ⟨h.cached, h.updated, h.early, h.existing, h.nodup, h.task, h.accepted, h.converted, h.convertedOnce,
    ⟨?_, ?_⟩, ?_⟩
  · refine List.nodup_append.2 ⟨h.pushed.1, List.nodup_singleton _, ?_⟩
    intro first hfirst second hsecond heq
    rw [List.mem_singleton.1 hsecond] at heq
    exact hfresh (heq ▸ hfirst)
  · intro other hother
    rcases List.mem_append.1 hother with hother | hother
    · exact h.pushed.2 other hother
    · rw [List.mem_singleton.1 hother]
      exact List.mem_map_of_mem hconverted
  · obtain ⟨task, htask, hconfig⟩ := h.converted _ hconverted
    have hlast : [index].filterMap (fun index => state.tasks[index]?) = [task] := by
      rw [List.filterMap_cons, htask, List.filterMap_nil]
    have htasks : State.tasks { state with
      pushed := state.pushed ++ [index]
      acmeConfigs := state.acmeConfigs ++ [config] } = state.tasks := rfl
    have hmade : config = convertOnDemandConfig services task := hconfig
    rw [htasks, List.filterMap_append, hlast, ← List.append_assoc, h.acmeConfigs, hmade]
    simp only [List.map_append, List.map_cons, List.map_nil]

/-- What a step keeps. Only a name from a file is added to those that have been taken. -/
theorem Tracked.step (h : Tracked services configs files readable done state)
    (hstep : Step services certifiedKeyLock configs state after) :
    ∃ done, Tracked services configs files readable done after := by
  cases hstep with
  | handshake listens sends => exact ⟨done, h.send _⟩
  | preload preloads => exact ⟨_, h.preload preloads⟩
  | @receive combination rest allowed canRead write preloads channel =>
      refine ⟨done, ?_⟩
      unfold State.receive
      split
      · split
        · rename_i hold
          exact (h.receiveOld preloads (List.contains_iff_mem.1 hold)).send rest
        · rename_i hnew
          rw [List.contains_iff_mem] at hnew
          cases hconfig : configFor configs combination with
          | none => exact (h.receiveUnmatched preloads hconfig).send rest
          | some config => exact (h.receiveNew preloads hnew hconfig canRead write).send rest
      · exact h.send rest
  | update step => exact ⟨done, h.update step⟩
  | convert unlocked fresh => exact ⟨done, h.convert unlocked fresh⟩
  | push converted fresh => exact ⟨done, h.push converted fresh⟩

/-- What a run keeps. -/
theorem tracked_of_reaches {gathered : Gathered ν}
    (h : Reaches services certifiedKeyLock gathered.acmeOnDemandConfigs
      (State.start services gathered files readable) state) :
    ∃ done, Tracked services gathered.acmeOnDemandConfigs files readable done state := by
  induction h with
  | refl => exact ⟨[], Tracked.start services gathered files readable⟩
  | tail _ hstep ih =>
      obtain ⟨done, hbefore⟩ := ih
      exact hbefore.step hstep

end Tracked

/-! ## The end of a run -/

section Settled

variable [DecidableEq F] {services : Services F} {configs : List (AcmeOnDemandConfig ν)} {files : Files F}
  {readable : Nat → Bool} {done : List (Task ν)} {state : State F ν}

end Settled

/-- Services for which each path is a file of its own. -/
def plainServices : Services PathBuf where
  locate := id
  digest := id
  toVec domains := (JsonStrings.writeArray domains).flatMap String.utf8EncodeChar
  fromSlice data := (Utf8.fromUtf8 data).bind JsonStrings.readArray

theorem plainServices_readsBack : plainServices.ReadsBack where
  fromSlice_toVec domains := by
    have hmapM : ∀ text : Str, (text.map some).mapM id = some text := by
      intro text
      induction text with
      | nil => rfl
      | cons c text ih =>
          rw [List.map_cons, List.mapM_cons, ih]
          rfl
    have hread : Utf8.fromUtf8 (plainServices.toVec domains) = some (JsonStrings.writeArray domains) := by
      rw [Utf8.fromUtf8, plainServices, Utf8.decodeAll_encode, hmapM]
    rw [plainServices] at hread ⊢
    dsimp only at hread ⊢
    rw [hread, Option.bind_some, JsonStrings.readArray_writeArray]
  length_le domains domain := by
    have hsublist := JsonStrings.sublist_writeArray domains domain
    exact (hsublist.flatMap String.utf8EncodeChar).length_le

/-- The locks hold no certificates. -/
def emptyLock (_ : Nat) : Option (CertifiedKey Str) := none

/-- A handshake for a name. -/
def helloFor (hostname : Str) (h : hostname ≠ [] ∧ hostname.getLast? ≠ some '.' ∧ '*' ∉ hostname) : ClientHello :=
  ⟨some ⟨hostname, false, h.1, h.2.1, h.2.2⟩⟩

/-- The on-demand configuration of `*.test`. -/
def wildcardConfig : AcmeOnDemandConfig Str where
  tls := {
    port := 443
    rustlsClientConfig := []
    challengeType := .tlsAlpn01
    contact := []
    directory := "directory".toList
    eabKey := none
    profile := none
    cachePath := some "acme".toList
    dnsProvider := none }
  sniHostname := some "*.test".toList

/-- What the server has made of the host `*.test` with on-demand TLS. -/
def wildcardGathered : Gathered Str where
  tlsPorts := AList.insert 443 ⟨none, [], some 443⟩ ∅
  acmeConfigs := []
  acmeOnDemandConfigs := [wildcardConfig]

theorem exists_gathered_wildcardConfig : ∃ gathered : Gathered Str,
    gathered.acmeOnDemandConfigs = [wildcardConfig] ∧
      gathered.tlsPorts.lookup 443 = some ⟨none, [], some 443⟩ := ⟨wildcardGathered, rfl, rfl⟩

/-- A client asks for a name, and its task does what it has to do. -/
theorem exists_run_wildcardHost {gathered : Gathered Str}
    (hconfigs : gathered.acmeOnDemandConfigs = [wildcardConfig])
    (hport : gathered.tlsPorts.lookup 443 = some ⟨none, [], some 443⟩) :
    ∃ state : State PathBuf Str, Reaches plainServices emptyLock gathered.acmeOnDemandConfigs
        (State.start plainServices gathered (fun _ => none) fun _ => true) state ∧
      state.Settled ∧ state.received = [("a.test".toList, 443)] ∧
      state.updates.written = [⟨⟨"a.test".toList, wildcardConfig⟩, true, .succeeds⟩] ∧
      state.acmeConfigs = [convertOnDemandConfig plainServices ⟨"a.test".toList, wildcardConfig⟩] := by
  rw [hconfigs]
  let task : Task Str := ⟨"a.test".toList, wildcardConfig⟩
  let addition : Addition Str := ⟨task, true, .succeeds⟩
  let start : State PathBuf Str := State.start plainServices gathered (fun _ => none) fun _ => true
  have hpreloads : start.preloads = [] := by
    change preloadedTasks plainServices gathered.acmeOnDemandConfigs (fun _ => none) (fun _ => true) = []
    rw [hconfigs]
    rfl
  -- the name is sent and received
  let sent : State PathBuf Str := { start with channel := [("a.test".toList, 443)] }
  let received : State PathBuf Str := { start with
    existingCombinations := [("a.test".toList, 443)]
    updates := start.updates.spawn addition
    received := [("a.test".toList, 443)] }
  have hsent : Step plainServices emptyLock [wildcardConfig] start sent := by
    have hsends : ((⟨none, [], some 443⟩ : CustomSniResolver (CertifiedKey Str)).resolve
        (helloFor "a.test".toList (by decide))).2 = some ("a.test".toList, 443) := rfl
    exact .handshake hport hsends
  have hreceived : Step plainServices emptyLock [wildcardConfig] sent received :=
    .receive true true .succeeds hpreloads rfl
  -- the task writes it
  let updates : Phase (List Str) → LockedUpdates.State (Files PathBuf) (Addition Str) (List Str) :=
    start.updates.move [] [] addition
  let written : LockedUpdates.State (Files PathBuf) (Addition Str) (List Str) := { updates .hasWritten with
    store := writeDomains plainServices (fun _ => none) addition []
    written := [addition] }
  have hlocked : Step plainServices emptyLock [wildcardConfig] received
      { received with updates := updates .locked } := .update (.lock rfl rfl)
  have hread : Step plainServices emptyLock [wildcardConfig]
      { received with updates := updates .locked } { received with updates := updates (.hasRead []) } :=
    .update (.read rfl)
  have hwritten : Step plainServices emptyLock [wildcardConfig]
      { received with updates := updates (.hasRead []) } { received with updates := written } :=
    .update (.write rfl)
  let unlocked : State PathBuf Str := { received with updates := written.move [] [] addition .unlocked }
  have hunlocked : Step plainServices emptyLock [wildcardConfig] { received with updates := written }
      unlocked := .update (.unlock rfl)
  -- it makes its configuration
  let config := convertOnDemandConfig plainServices task
  let converted : State PathBuf Str := { unlocked.loadHost emptyLock task with converted := [(0, config)] }
  have hlast : unlocked.updates.tasks[0]? = some (addition, .unlocked) := rfl
  have hconverted : Step plainServices emptyLock [wildcardConfig] unlocked converted :=
    .convert hlast List.not_mem_nil
  let pushed : State PathBuf Str := { converted with pushed := [0], acmeConfigs := [config] }
  have hpushed : Step plainServices emptyLock [wildcardConfig] converted pushed :=
    .push List.mem_cons_self List.not_mem_nil
  refine ⟨pushed, ?_, ⟨hpreloads, rfl, ?_, ?_⟩, rfl, rfl, rfl⟩
  · exact ((((((((Relation.ReflTransGen.single hsent).tail hreceived).tail hlocked).tail hread).tail
      hwritten).tail hunlocked).tail hconverted).tail hpushed)
  · intro task htask
    rw [List.mem_singleton.1 htask]
  · intro index hindex
    exact List.mem_singleton.2 (Nat.lt_one_iff.1 hindex)

/-! ## Results -/

section Results

variable [DecidableEq F] {services : Services F} {certifiedKeyLock : Nat → Option (CertifiedKey ν)}
  {gathered : Gathered ν} {files : Files F} {readable : Nat → Bool}
  {state : State F ν}

/-- In any run the files are what the tasks make of them one after the other, in the order of their writes, also
where files cannot be read or written. A file that can be for all of its tasks loses no name: it has the names
that it had, and behind them those that were written. Each task that is past its write has tried it once. No
name is written twice for a port, and none that was taken from a file at the start. -/
theorem holdsNames_of_reaches (hservices : services.ReadsBack)
    (h : Reaches services certifiedKeyLock gathered.acmeOnDemandConfigs
      (State.start services gathered files readable) state) :
    state.updates.store =
        state.updates.written.foldl (update (readDomains services) (writeDomains services)) files ∧
      (∀ file domains, HoldsNames services files file domains →
        (∀ addition ∈ state.updates.written,
          hostnameFile services addition.task.config = some file → addition.Succeeds) →
        HoldsNames services state.updates.store file (domains ++ ((state.updates.written.map
          Addition.task).filter fun task => hostnameFile services task.config = some file).map Task.domain)) ∧
      state.updates.written.Perm (wroteTasks state.updates.tasks) ∧
      ((state.updates.written.map Addition.task).map Task.combination).Nodup ∧
      ∀ addition ∈ state.updates.written, addition.task.combination ∉
        (preloadedTasks services gathered.acmeOnDemandConfigs files readable).map Task.combination := by
  obtain ⟨done, htracked⟩ := tracked_of_reaches h
  have hstore := htracked.updated.store_eq
  have hperm := htracked.updated.perm
  have hwrote : ((wroteTasks state.updates.tasks).map Addition.task).Sublist state.tasks :=
    (List.filter_sublist.map Prod.fst).map Addition.task
  refine ⟨hstore, fun file domains hfile hsucceeds => ?_, hperm, ?_, fun addition haddition => ?_⟩
  · rw [hstore]
    exact hfile.foldl hservices hsucceeds
  · rw [((hperm.map _).map _).nodup_iff]
    exact htracked.nodup.sublist (hwrote.map _)
  · have hmem := hwrote.subset (List.mem_map_of_mem (hperm.mem_iff.1 haddition))
    have hpreloads : state.preloads = [] := by
      by_contra hne
      rw [(htracked.early hne).2] at hmem
      cases hmem
    rw [htracked.cached, hpreloads, List.append_nil]
    exact (htracked.task addition.task hmem).2.1

theorem wildcardHost_holdsNames : ∃ (gathered : Gathered Str) (state : State PathBuf Str),
    Reaches plainServices emptyLock gathered.acmeOnDemandConfigs
        (State.start plainServices gathered (fun _ => none) fun _ => true) state ∧
      HoldsNames plainServices state.updates.store "acme/hostname_443;*.test".toList ["a.test".toList] := by
  obtain ⟨gathered, hconfigs, hport⟩ := exists_gathered_wildcardConfig
  obtain ⟨state, hreaches, _, _, hwritten, _⟩ := exists_run_wildcardHost hconfigs hport
  have hmissing : HoldsNames plainServices (fun _ => none) "acme/hostname_443;*.test".toList [] :=
    .inl ⟨rfl, rfl⟩
  have hnames := (holdsNames_of_reaches plainServices_readsBack hreaches).2.1 _ _ hmissing
  rw [hwritten] at hnames
  refine ⟨gathered, state, hreaches, hnames fun addition haddition _ => ?_⟩
  rw [List.mem_singleton.1 haddition]
  exact ⟨rfl, rfl⟩

end Results

end Ferron.Server.OnDemand
