import Spacegate.Config.K8sFilterWatch

/-!
# The targets of SgFilter objects over whole runs

An observer of the SgFilter objects knows the targets of the version of each object that it saw
last, and it expects a report for every target that a new version adds, removes or gives another
priority.  The task compares a new version with what it remembers itself, which is nothing for an
object of the first configuration, and it does not see a deletion or a priority.
-/

namespace Spacegate.Config.Watch

open Foundation List TargetRef

/-- A version of an object as the stream has it.  A deleted object comes as it was before. -/
structure Observation extends TouchedFilter where
  deleted : Bool

namespace Observation

variable (o : Observation)

def name : String :=
  o.filter.metadata.name

/-- What is bound after the observation. -/
def targets : List TargetRef :=
  if o.deleted then [] else o.filter.targetRefs

end Observation

def priorityIn (targets : List TargetRef) (key : String × String × String) : Option Int32 :=
  (targets.find? fun target => target.key = key).map priority

/-- The target was added, removed or given another priority. -/
def Changed (old new : List TargetRef) (target : TargetRef) : Prop :=
  priorityIn old target.key ≠ priorityIn new target.key

/-- Filters are looked up for a kind in any spelling. -/
def TargetRef.IsKind (target : TargetRef) (kind : String) : Prop :=
  Text.eqIgnoreAsciiCase target.kind kind = true

instance (target : TargetRef) (kind : String) : Decidable (target.IsKind kind) :=
  inferInstanceAs (Decidable (_ = true))

/-- There is an update of the gateway or the route. -/
def Reported (events : List ConfigEvent) (target : TargetRef) : Prop :=
  (target.IsKind "Gateway" → (.gateway target.name, .update) ∈ events) ∧
    ∀ kind ∈ ["HTTPRoute", "HTTPSpaceroute", "MCPRoute"], target.IsKind kind →
      ∃ gateway, (.route gateway target.name, .update) ∈ events

/-- The kind is spelled as the task spells it and is no MCP route, and an HTTP route is found. -/
structure Handled (answers : RouteAnswers) (target : TargetRef) : Prop where
  spelled : ∀ kind ∈ ["Gateway", "HTTPRoute", "HTTPSpaceroute", "MCPRoute"],
    target.IsKind kind → target.kind = kind
  noMcp : target.kind ≠ "MCPRoute"
  found : target.kind = "HTTPRoute" ∨ target.kind = "HTTPSpaceroute" →
    ((answers.httpSpaceroute target.name).or (answers.httpRoute target.name)).isSome = true

/-- The maps of the task, and the targets that were observed last. -/
structure FilterRun where
  state : FilterState
  last : String → Option (List TargetRef)

def FilterRun.start : FilterRun where
  state := { versions := ∅, digests := ∅, targets := ∅ }
  last := fun _ => none

namespace FilterWatcher

variable (w : FilterWatcher)

/-- The object holds a plugin of the first configuration. -/
def Known (filter : SgFilter) : Prop :=
  (filter.filters.any fun inner =>
    w.filterCodesNames.contains (inner.code, pluginInstanceNameOf inner.name)) = true

def observe (run : FilterRun) (o : Observation) : FilterRun where
  state := (w.process run.state o.toTouchedFilter).1
  last := Function.update run.last o.name (some o.targets)

def ReportsChanges (run : FilterRun) (o : Observation) : Prop :=
  ∀ old, run.last o.name = some old → ∀ target ∈ old ++ o.targets,
    Changed old o.targets target → Reported (w.process run.state o.toTouchedFilter).2 target

/-- What a version may change of the targets of the version before. -/
structure SteadyFrom (s : FilterState) (o : Observation) (old : List TargetRef) : Prop where
  /-- A plugin of the first configuration is there from the beginning. -/
  known : w.Known o.filter → s.versions.lookup o.name ≠ none
  /-- The version that was skipped in the beginning has the same targets if it comes again. -/
  version : s.versions.lookup o.name = some o.filter.metadata.resourceVersion → o.targets = old
  /-- An object that was skipped in the beginning loses no target. -/
  skipped : s.versions.lookup o.name ≠ none →
    ∀ key ∈ old.map TargetRef.key, key ∈ o.targets.map TargetRef.key
  priority : ∀ key ∈ old.map TargetRef.key, key ∈ o.targets.map TargetRef.key →
    priorityIn old key = priorityIn o.targets key
  digest : w.digest (old.map TargetRef.key) = w.digest (o.targets.map TargetRef.key) →
    old.map TargetRef.key = o.targets.map TargetRef.key
  handled : ∀ target ∈ old ++ o.targets, Changed old o.targets target → Handled o.answers target

/-- An object is deleted when it has no targets any more, and its versions differ in targets that
the task knows how to report. -/
def Steady (run : FilterRun) (o : Observation) : Prop :=
  o.targets = o.filter.targetRefs ∧
    ∀ old, run.last o.name = some old → w.SteadyFrom run.state o old

/-! ## One round -/

variable {w} {key : String × String × String}

theorem mem_loop_iff (targets kept : List TargetRef) :
    key ∈ (eraseDupsBy.loop (fun target kept => target.key == kept.key) targets kept).map
        TargetRef.key ↔
      key ∈ targets.map TargetRef.key ∨ key ∈ kept.map TargetRef.key := by
  induction targets generalizing kept with
  | nil => simp [eraseDupsBy.loop]
  | cons target targets ih =>
    rw [eraseDupsBy.loop]
    split
    next hk =>
      -- a key that is dropped is among those that are kept
      obtain ⟨other, ho, hKey⟩ := any_eq_true.mp hk
      rw [ih, map_cons, mem_cons, or_assoc]
      refine ⟨.inr, ?_⟩
      rintro (rfl | h)
      · exact .inr (mem_map.mpr ⟨other, ho, (beq_iff_eq.mp hKey).symm⟩)
      · exact h
    next =>
      rw [ih, map_cons, map_cons, mem_cons, mem_cons]
      tauto

theorem mem_targetSet_iff (targets : List TargetRef) :
    key ∈ (targetSet targets).map TargetRef.key ↔ key ∈ targets.map TargetRef.key := by
  rw [targetSet, eraseDupsBy, mem_loop_iff]
  simp

theorem exists_mem_difference {targets others : List TargetRef}
    (hKey : key ∈ targets.map TargetRef.key) (ho : key ∉ others.map TargetRef.key) :
    ∃ target ∈ w.difference (targetSet targets) (targetSet others), target.key = key := by
  obtain ⟨target, ht, rfl⟩ := mem_map.mp ((mem_targetSet_iff targets).mpr hKey)
  refine ⟨target, (w.order.perm _).mem_iff.mpr (mem_filter.mpr ⟨ht, ?_⟩), rfl⟩
  simpa [mem_targetSet_iff] using ho

theorem priorityIn_eq_none_iff {targets : List TargetRef} :
    priorityIn targets key = none ↔ key ∉ targets.map TargetRef.key := by
  simp [priorityIn]

def remembered (s : FilterState) (name : String) : List TargetRef :=
  (s.targets.lookup name).getD []

/-- What a round does with the maps, and what it reports. -/
theorem process_cases (s : FilterState) (touched : TouchedFilter) :
    let name := touched.filter.metadata.name
    let refs := touched.filter.targetRefs
    let digest := w.digest (refs.map TargetRef.key)
    (w.Known touched.filter ∧ s.versions.lookup name = none ∧ (w.process s touched).1 =
        { s with versions := s.versions.insert name touched.filter.metadata.resourceVersion }) ∨
      s.versions.lookup name = some touched.filter.metadata.resourceVersion ∧
        (w.process s touched).1 = s ∨
      (s.digests.lookup name = some digest ∨ refs = [] ∧ s.targets.lookup name = none) ∧
        (w.process s touched).1 = s ∨
      ((w.process s touched).1 = { s with
            digests := s.digests.insert name digest
            targets := if refs = [] then s.targets.erase name else s.targets.insert name refs } ∧
        ∀ target ∈ w.difference (targetSet refs) (targetSet (remembered s name)) ++
            w.difference (targetSet (remembered s name)) (targetSet refs),
          ∀ event ∈ w.targetReports touched.answers target, event ∈ (w.process s touched).2) := by
  intro name refs digest
  by_cases hk : w.Known touched.filter ∧ s.versions.lookup name = none
  · exact .inl ⟨hk.1, hk.2, congrArg Prod.fst (if_pos hk)⟩
  refine .inr ?_
  by_cases hv : s.versions.lookup name = some touched.filter.metadata.resourceVersion
  · exact .inl ⟨hv, congrArg Prod.fst ((if_neg hk).trans (if_pos hv))⟩
  refine .inr ?_
  by_cases hd : s.digests.lookup name = some digest
  · exact .inl ⟨.inl hd, congrArg Prod.fst ((if_neg hk).trans ((if_neg hv).trans (if_pos hd)))⟩
  by_cases he : refs = [] ∧ s.targets.lookup name = none
  · exact .inl ⟨.inr he, congrArg Prod.fst
      ((if_neg hk).trans ((if_neg hv).trans ((if_neg hd).trans (if_pos he))))⟩
  have hp : w.process s touched = _ :=
    (if_neg hk).trans ((if_neg hv).trans ((if_neg hd).trans (if_neg he)))
  rw [hp]
  refine .inr ⟨rfl, ?_⟩
  intro target ht event hEvent
  exact mem_append_right _ (mem_flatMap.mpr ⟨target, ht, hEvent⟩)

/-- A round leaves what is kept of other objects. -/
theorem lookup_process_of_ne {s : FilterState} {touched : TouchedFilter} {name : String}
    (h : name ≠ touched.filter.metadata.name) :
    (w.process s touched).1.versions.lookup name = s.versions.lookup name ∧
      (w.process s touched).1.digests.lookup name = s.digests.lookup name ∧
      (w.process s touched).1.targets.lookup name = s.targets.lookup name := by
  rcases @process_cases w s touched with ⟨-, -, hs⟩ | ⟨-, hs⟩ | ⟨-, hs⟩ | ⟨hs, -⟩
  · rw [hs]
    exact ⟨AList.lookup_insert_ne h, rfl, rfl⟩
  · rw [hs]
    exact ⟨rfl, rfl, rfl⟩
  · rw [hs]
    exact ⟨rfl, rfl, rfl⟩
  · rw [hs]
    refine ⟨rfl, AList.lookup_insert_ne h, ?_⟩
    split_ifs
    · exact AList.lookup_erase_ne h
    · exact AList.lookup_insert_ne h

/-! ## Whole runs -/

variable (w) in
/-- The task remembers the targets that were observed last, or the object was skipped in the
beginning and nothing of it is remembered. -/
def Follows (s : FilterState) (name : String) : Option (List TargetRef) → Prop
  | none => s.versions.lookup name = none ∧ s.targets.lookup name = none ∧
      s.digests.lookup name = none
  | some old =>
    (remembered s name).map TargetRef.key = old.map TargetRef.key ∧
        (∀ digest, s.digests.lookup name = some digest →
          digest = w.digest (old.map TargetRef.key)) ∨
      s.versions.lookup name ≠ none ∧ s.targets.lookup name = none ∧ s.digests.lookup name = none

variable {run : FilterRun} {o : Observation} {old : List TargetRef}

/-- If a round stops early, the targets are those of the version before. -/
theorem keys_of_unchanged (hf : w.Follows run.state o.name (some old))
    (hRefs : o.targets = o.filter.targetRefs) (hs : w.SteadyFrom run.state o old)
    (h : run.state.digests.lookup o.name = some (w.digest (o.filter.targetRefs.map TargetRef.key)) ∨
      o.filter.targetRefs = [] ∧ run.state.targets.lookup o.name = none) :
    old.map TargetRef.key = o.targets.map TargetRef.key := by
  rcases hf with ⟨hr, hDigests⟩ | ⟨hSkipped, ht, hDigests⟩
  · rcases h with hd | ⟨he, hn⟩
    · refine hs.digest ?_
      rw [hRefs]
      exact (hDigests _ hd).symm
    · rw [← hr, remembered, hn, hRefs, he]
      rfl
  · rcases h with hd | ⟨he, -⟩
    · rw [hDigests] at hd
      cases hd
    · have hk := hs.skipped hSkipped
      rw [hRefs, he] at hk ⊢
      cases old with
      | nil => rfl
      | cons target old => exact absurd (hk target.key mem_cons_self) not_mem_nil

theorem Follows.process (hf : w.Follows run.state o.name (run.last o.name))
    (hSteady : w.Steady run o) :
    w.Follows (w.process run.state o.toTouchedFilter).1 o.name (some o.targets) := by
  obtain ⟨hr, hFrom⟩ := hSteady
  rcases @process_cases w run.state o.toTouchedFilter with
    ⟨hk, hVersions, hs⟩ | ⟨hv, hs⟩ | ⟨hSame, hs⟩ | ⟨hs, -⟩
  · rw [hs]
    cases hl : run.last o.name with
    | none =>
      rw [hl] at hf
      exact .inr ⟨by simp [Observation.name], hf.2.1, hf.2.2⟩
    | some old => exact absurd hVersions ((hFrom old hl).known hk)
  · rw [hs]
    cases hl : run.last o.name with
    | none =>
      rw [hl] at hf
      cases hv.symm.trans hf.1
    | some old =>
      rw [hl] at hf
      rw [(hFrom old hl).version hv]
      exact hf
  · rw [hs]
    cases hl : run.last o.name with
    | none =>
      rw [hl] at hf
      obtain ⟨-, ht, hDigests⟩ := hf
      rcases hSame with hd | ⟨he, -⟩
      · cases hd.symm.trans hDigests
      · refine .inl ⟨?_, ?_⟩
        · rw [remembered, ht, hr, he]
          rfl
        · intro digest hd
          cases hd.symm.trans hDigests
    | some old =>
      rw [hl] at hf
      have hKeys := keys_of_unchanged hf hr (hFrom old hl) hSame
      rw [Follows, ← hKeys]
      exact hf
  · rw [hs, hr]
    refine .inl ⟨?_, ?_⟩
    · dsimp only [remembered, Observation.name]
      split_ifs with he
      · simp [he]
      · simp
    · intro digest hd
      rw [Observation.name, AList.lookup_insert] at hd
      exact (Option.some.inj hd).symm

theorem mem_reports {target found : TargetRef} (answers : RouteAnswers)
    {events : List ConfigEvent} (hKey : found.key = target.key) (hh : Handled answers target)
    (he : ∀ event ∈ w.targetReports answers found, event ∈ events) : Reported events target := by
  obtain ⟨hk, hn, -⟩ : found.kind = target.kind ∧ found.name = target.name ∧ _ := by
    simpa [key] using hKey
  rw [targetReports, hk, hn] at he
  constructor
  · intro hg
    rw [if_pos (hh.spelled "Gateway" (by decide) hg)] at he
    exact he _ mem_cons_self
  · intro kind hMem hKind
    obtain rfl := hh.spelled kind (mem_cons_of_mem _ hMem) hKind
    have hHttp : target.kind = "HTTPRoute" ∨ target.kind = "HTTPSpaceroute" := by
      simpa [hh.noMcp] using hMem
    have hg : target.kind ≠ "Gateway" := by
      rcases hHttp with hk | hk <;> simp [hk]
    obtain ⟨route, hf⟩ := Option.isSome_iff_exists.mp (hh.found hHttp)
    rw [if_neg hg, if_pos hHttp, hf] at he
    exact ⟨_, he _ mem_cons_self⟩

theorem reportsChanges_of_follows (hFollows : w.Follows run.state o.name (run.last o.name))
    (hSteady : w.Steady run o) : w.ReportsChanges run o := by
  obtain ⟨hRefs, hf⟩ := hSteady
  intro old hl target hTarget hc
  have hf := hf old hl
  rw [hl] at hFollows
  -- the priority of a target that stays is the same, so the target comes or goes
  have hm : target.key ∈ o.targets.map key ∧ target.key ∉ old.map key ∨
      target.key ∈ old.map key ∧ target.key ∉ o.targets.map key := by
    by_cases hOld : target.key ∈ old.map key
    · by_cases hNew : target.key ∈ o.targets.map key
      · exact absurd (hf.priority _ hOld hNew) hc
      · exact .inr ⟨hOld, hNew⟩
    · by_cases hNew : target.key ∈ o.targets.map key
      · exact .inl ⟨hNew, hOld⟩
      · refine absurd ?_ hc
        rw [priorityIn_eq_none_iff.mpr hOld, priorityIn_eq_none_iff.mpr hNew]
  rcases @process_cases w run.state o.toTouchedFilter with
    ⟨hk, hv, -⟩ | ⟨hVersion, -⟩ | ⟨hSame, -⟩ | ⟨-, he⟩
  · exact absurd hv (hf.known hk)
  · rw [hf.version hVersion] at hc
    exact absurd rfl hc
  · rw [keys_of_unchanged hFollows hRefs hf hSame] at hm
    tauto
  · have hr :
        target.key ∈ o.targets.map key ∧
            target.key ∉ (remembered run.state o.name).map key ∨
          target.key ∈ (remembered run.state o.name).map key ∧
            target.key ∉ o.targets.map key := by
      rcases hFollows with ⟨hr, -⟩ | ⟨hs, ht, -⟩
      · rwa [hr]
      · rcases hm with ha | hRemoved
        · exact .inl ⟨ha.1, by simp [remembered, ht]⟩
        · exact absurd (hf.skipped hs _ hRemoved.1) hRemoved.2
    rw [hRefs] at hr
    have hh := hf.handled target hTarget hc
    rcases hr with ⟨hNew, hOld⟩ | ⟨hOld, hNew⟩
    · obtain ⟨found, hFound, hKey⟩ := @exists_mem_difference w _ _ _ hNew hOld
      exact mem_reports o.answers hKey hh (he found (mem_append_left _ hFound))
    · obtain ⟨found, hFound, hKey⟩ := @exists_mem_difference w _ _ _ hOld hNew
      exact mem_reports o.answers hKey hh (he found (mem_append_right _ hFound))

theorem follows_observe (hf : ∀ name, w.Follows run.state name (run.last name))
    (hs : w.Steady run o) (name : String) :
    w.Follows (w.observe run o).state name ((w.observe run o).last name) := by
  by_cases hn : name = o.name
  · subst hn
    simpa [observe] using (hf o.name).process hs
  · obtain ⟨hv, hd, ht⟩ := @lookup_process_of_ne w run.state _ _ hn
    have hb := hf name
    simp only [observe, Function.update_of_ne hn]
    cases hl : run.last name with
    | none => simpa only [Follows, hl, hv, hd, ht] using hb
    | some old =>
      simpa only [Follows, remembered, hl, hv, hd, ht] using hb

/-- A watcher for an empty first configuration, with a digest that only counts. -/
def counting : FilterWatcher where
  filterCodesNames := []
  ns := "default"
  digest := fun keys => keys.length.toUInt64
  order := { iter := id, perm := fun targets => List.Perm.refl targets }

/-- A version of an object that is bound to the gateway `a` with the given priorities. -/
def boundTo (version : String) (priorities : List Int32) : Observation where
  filter :=
    { metadata := { name := "limit", uid := "u1", resourceVersion := version }
      filters := []
      targetRefs := priorities.map fun priority =>
        { kind := "Gateway", name := "a", ns := none, priority := priority } }
  answers := { httpSpaceroute := fun _ => none, httpRoute := fun _ => none }
  deleted := false

end FilterWatcher
end Spacegate.Config.Watch
