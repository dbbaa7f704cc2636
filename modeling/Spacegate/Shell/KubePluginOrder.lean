import Spacegate.Shell.KubeRoundTrip

/-!
# The order of plugins that go through Kubernetes and back

A rule or a backend stores references to its plugins in the order in which they handle a
request, without their priorities.  On the way back the priorities are made up from the
positions, in steps of a hundred down from a thousand.  They are numbers of 32 bits: from
position 21474847 on they wrap around, and such a plugin overtakes those before it.
-/

namespace Spacegate.Shell

open Model Config Kube List

/-- The ids of bindings in the order in which they handle a request. -/
def executionOrder (bindings : List PluginBinding) : List PluginInstanceId :=
  (orderPluginBindings bindings).map PluginBinding.id

/-- A rule comes back with the same plugins in the same order. -/
def RuleKeepsOrder (rule : SgHttpRouteRule) : Prop :=
  ∃ rule', SgHttpRouteRule.fromKubeHttproute rule.intoKubeHttproute = .ok rule' ∧
    executionOrder rule'.plugins = executionOrder rule.plugins

/-- A backend comes back with the same plugins in the same order. -/
def BackendKeepsOrder (backend : SgBackendRef) : Prop :=
  ∃ backend', SgBackendRef.fromKubeHttproute backend.intoKubeHttproute = .ok (some backend') ∧
    executionOrder backend'.plugins = executionOrder backend.plugins

/-- The priority of the binding that is read back from a position. -/
def restoredPriority (index : Nat) : Int32 :=
  1000 - Int32.ofNat index * 100

/-- The positions in the order in which their new priorities are handled. -/
def restoredOrder (n : Nat) : List (Fin n) :=
  (finRange n).insertionSort fun i j => restoredPriority j ≤ restoredPriority i

variable (ids : List PluginInstanceId)

/-- The new priorities leave a list of ids as it is. -/
def Unmoved : Prop :=
  (restoredOrder ids.length).map ids.get = ids

/-! ## What is read back -/

theorem fromHttpRouteFilter_of_named {id : PluginInstanceId} {name : String}
    (h : id.name = .named name) :
    id.toHttpRouteFilter.bind PluginInstanceId.fromHttpRouteFilter = some id := by
  obtain ⟨code, _⟩ := id
  cases h
  rfl

variable {bindings : List PluginBinding}
  (hn : ∀ binding ∈ bindings, ∃ name, binding.id.name = .named name)
include hn

theorem filterMap_pluginFilters :
    (pluginFilters bindings).filterMap PluginInstanceId.fromHttpRouteFilter =
      executionOrder bindings := by
  rw [pluginFilters, filterMap_filterMap, executionOrder, ← filterMap_eq_map]
  apply filterMap_congr
  intro binding hMem
  obtain ⟨name, hName⟩ := hn binding ((mem_insertionSort _).mp hMem)
  exact fromHttpRouteFilter_of_named hName

theorem pluginBindings_append
    {legacy : List HttpRouteFilter} (hl : ∀ f ∈ legacy, f.isExtensionRef = false) :
    pluginBindings (legacy ++ pluginFilters bindings) =
      (executionOrder bindings).mapIdx fun index id =>
        { id := id, priority := restoredPriority index } := by
  have hNone : legacy.filter (·.isExtensionRef) = [] := by
    rw [filter_eq_nil_iff]
    intro f hf
    simp [hl f hf]
  have hAll : (pluginFilters bindings).filter (·.isExtensionRef) = pluginFilters bindings :=
    filter_eq_self.mpr fun f hf => isExtensionRef_of_mem_pluginFilters hf
  rw [pluginBindings, filter_append, hNone, hAll, nil_append, filterMap_pluginFilters hn]
  rfl

omit hn in
/-- The order of what is read back depends on the positions alone. -/
theorem executionOrder_mapIdx :
    executionOrder (ids.mapIdx fun index id =>
        { id := id, priority := restoredPriority index }) =
      (restoredOrder ids.length).map ids.get := by
  have hFin : (ids.mapIdx fun index id =>
        ({ id := id, priority := restoredPriority index } : PluginBinding)) =
      (finRange ids.length).map fun i =>
        { id := ids.get i, priority := restoredPriority i } := by
    apply ext_getElem
    · simp
    · intro i hi hi'
      simp
  have hs := map_insertionSort
    (fun i j : Fin ids.length => restoredPriority j ≤ restoredPriority i)
    (fun left right : PluginBinding => right.priority ≤ left.priority)
    (fun i => { id := ids.get i, priority := restoredPriority i }) (finRange ids.length)
    (fun _ _ _ _ => Iff.rfl)
  rw [hFin, executionOrder, orderPluginBindings, ← hs, map_map]
  rfl

theorem restoredOrder_keeps_iff
    {legacy : List HttpRouteFilter} (hl : ∀ f ∈ legacy, f.isExtensionRef = false) :
    executionOrder (pluginBindings (legacy ++ pluginFilters bindings)) = executionOrder bindings ↔
      Unmoved (executionOrder bindings) := by
  rw [pluginBindings_append hn hl, executionOrder_mapIdx]
  rfl

omit hn

/-! ## The new priorities -/

theorem restoredPriority_toInt {index : Nat} (h : index < 21474847) :
    (restoredPriority index).toInt = 1000 - 100 * index := by
  have hs : (1000 - (index : Int) * 100).bmod (2 ^ 32) = 1000 - index * 100 := by
    apply Int.bmod_eq_of_le <;> omega
  rw [restoredPriority, Int32.toInt_sub, Int32.toInt_mul, Int32.toInt_ofNat']
  rw [Int.bmod_mul_bmod, Int.sub_bmod_bmod]
  exact hs.trans (by omega)

theorem restoredOrder_of_le {n : Nat} (h : n ≤ 21474847) : restoredOrder n = List.finRange n := by
  apply List.Pairwise.insertionSort_eq
  refine (pairwise_lt_finRange n).imp ?_
  intro i j hLt
  rw [Int32.le_iff_toInt_le, restoredPriority_toInt (by omega), restoredPriority_toInt (by omega)]
  omega

variable {ids : List PluginInstanceId}

theorem unmoved_of_length_le (h : ids.length ≤ 21474847) : Unmoved ids := by
  rw [Unmoved, restoredOrder_of_le h, map_get_finRange]

/-- The first position whose priority wraps is handled before all earlier ones. -/
theorem head_restoredOrder {n : Nat} (hn : n = 21474848) {first : Fin n} {rest : List (Fin n)}
    (h : restoredOrder n = first :: rest) : first.val = 21474847 := by
  have hs := pairwise_insertionSort
    (fun i j : Fin n => restoredPriority j ≤ restoredPriority i) (finRange n)
  rw [← restoredOrder, h, pairwise_cons] at hs
  have hl : (⟨21474847, by omega⟩ : Fin n) ∈ first :: rest := by
    rw [← h, restoredOrder, mem_insertionSort]
    exact mem_finRange _
  rcases mem_cons.mp hl with hf | hr
  · rw [← hf]
  · by_contra hNe
    have hLe := hs.1 _ hr
    have hw : restoredPriority 21474847 = 2147483596 := by decide
    rw [Int32.le_iff_toInt_le, hw, restoredPriority_toInt (by omega)] at hLe
    simp only [Int32.reduceToInt] at hLe
    omega

theorem not_unmoved (hl : ids.length = 21474848)
    (hm : ids[0]? ≠ ids[21474847]?) : ¬ Unmoved ids := by
  intro h
  rw [Unmoved] at h
  cases ho : restoredOrder ids.length with
  | nil =>
    rw [ho] at h
    rw [← h] at hl
    cases hl
  | cons first rest =>
    have hf := head_restoredOrder hl ho
    rw [ho] at h
    apply hm
    have hGet : ids[21474847]? = some (ids.get first) := by
      rw [← hf]
      exact getElem?_eq_getElem first.isLt
    rw [hGet]
    conv_lhs => rw [← h]
    rfl

/-! ## Rules and backends -/

/-- A rule can be read back exactly if it is not refused. -/
theorem exists_fromKube_iff (rule : SgHttpRouteRule) :
    (∃ rule', SgHttpRouteRule.fromKubeHttproute rule.intoKubeHttproute = .ok rule' ∧
        rule'.plugins = pluginBindings (rule.intoKubeHttproute.filters.getD [])) ↔
      ¬ rule.Refused := by
  constructor
  · rintro ⟨rule', hRule, -⟩ hRefused
    rw [fromKubeHttproute_of_refused hRefused] at hRule
    cases hRule
  · intro ha
    obtain ⟨rule', hRule, -, hp⟩ := exists_fromKubeHttproute ha
    exact ⟨rule', hRule, hp⟩

theorem ruleKeepsOrder_iff {rule : SgHttpRouteRule}
    (hn : ∀ binding ∈ rule.plugins, ∃ name, binding.id.name = .named name) :
    RuleKeepsOrder rule ↔ ¬ rule.Refused ∧ Unmoved (executionOrder rule.plugins) := by
  have ho : executionOrder (pluginBindings (rule.intoKubeHttproute.filters.getD [])) =
      executionOrder rule.plugins ↔ Unmoved (executionOrder rule.plugins) := by
    rw [filters_intoKubeHttproute]
    exact restoredOrder_keeps_iff hn fun f hf => isExtensionRef_of_mem_pathFilters hf
  rw [← exists_fromKube_iff, ← ho]
  constructor
  · rintro ⟨rule', hr, hs⟩
    have ha : ¬ rule.Refused := by
      intro hRefused
      rw [fromKubeHttproute_of_refused hRefused] at hr
      cases hr
    obtain ⟨rule'', hr', hp⟩ := (exists_fromKube_iff rule).mpr ha
    rw [hr] at hr'
    cases hr'
    exact ⟨⟨rule', hr, hp⟩, hp ▸ hs⟩
  · rintro ⟨⟨rule', hr, hp⟩, hs⟩
    exact ⟨rule', hr, hp ▸ hs⟩

theorem backendKeepsOrder_iff {backend : SgBackendRef}
    (hn : ∀ binding ∈ backend.plugins, ∃ name, binding.id.name = .named name) :
    BackendKeepsOrder backend ↔ Unmoved (executionOrder backend.plugins) := by
  have ho := @restoredOrder_keeps_iff backend.plugins hn [] (by simp)
  rw [← ho]
  constructor
  · rintro ⟨backend', hb, hs⟩
    cases Except.ok.inj hb
    exact hs
  · intro hs
    exact ⟨_, rfl, hs⟩

/-- **Plugins through Kubernetes and back.**  Named plugins of a rule and of a backend come
back in the order in which they handled requests exactly when the rule is not refused and the
priorities made up from the positions leave the list of ids as it is.  They do so for up to
21474847 plugins. -/
theorem keepsOrder_iff_unmoved (bindings : List PluginBinding)
    (hNamed : ∀ binding ∈ bindings, ∃ name, binding.id.name = .named name) :
    (∀ rule : SgHttpRouteRule, rule.plugins = bindings →
      (RuleKeepsOrder rule ↔ ¬ rule.Refused ∧ Unmoved (executionOrder bindings))) ∧
    (∀ backend : SgBackendRef, backend.plugins = bindings →
      (BackendKeepsOrder backend ↔ Unmoved (executionOrder bindings))) ∧
    (bindings.length ≤ 21474847 → Unmoved (executionOrder bindings)) := by
  refine ⟨?_, ?_, ?_⟩
  · rintro rule rfl
    exact ruleKeepsOrder_iff hNamed
  · rintro backend rfl
    exact backendKeepsOrder_iff hNamed
  · intro hl
    apply unmoved_of_length_le
    rwa [executionOrder, length_map, orderPluginBindings, length_insertionSort]

/-! ## Two backends -/

/-- A backend with given plugins. -/
def backendWith (plugins : List PluginBinding) : SgBackendRef where
  host := .host "upstream"
  port := none
  timeoutMs := none
  timeoutMode := none
  protocol := none
  weight := none
  plugins := plugins
  downgradeHttp2 := none

def namedBinding (name : String) (priority : Int32) : PluginBinding where
  id := { code := "limit", name := .named name }
  priority := priority

theorem threeBindings_keepOrder :
    BackendKeepsOrder
        (backendWith [namedBinding "a" 5, namedBinding "b" 7, namedBinding "c" 5]) ∧
      executionOrder [namedBinding "a" 5, namedBinding "b" 7, namedBinding "c" 5] =
        [(namedBinding "b" 7).id, (namedBinding "a" 5).id, (namedBinding "c" 5).id] := by
  refine ⟨?_, by decide⟩
  have hk := keepsOrder_iff_unmoved
    [namedBinding "a" 5, namedBinding "b" 7, namedBinding "c" 5] (by simp [namedBinding])
  exact (hk.2.1 _ rfl).mpr (hk.2.2 (by decide))

/-- One plugin before 21474847 others. -/
def longBindings : List PluginBinding :=
  namedBinding "first" 0 :: replicate 21474847 (namedBinding "other" 0)

/-- The last one of the others comes back as the first one. -/
theorem longBindings_not_keepOrder :
    longBindings.length = 21474848 ∧ ¬ BackendKeepsOrder (backendWith longBindings) := by
  have hl : longBindings.length = 21474848 := by
    rw [longBindings, length_cons, length_replicate]
  have hn : ∀ binding ∈ longBindings, ∃ name, binding.id.name = .named name := by
    intro binding hMem
    rcases mem_cons.mp hMem with rfl | hMem
    · exact ⟨"first", rfl⟩
    · rw [eq_of_mem_replicate hMem]
      exact ⟨"other", rfl⟩
  have hz : ∀ binding ∈ longBindings, binding.priority = 0 := by
    intro binding hMem
    rcases mem_cons.mp hMem with rfl | hMem
    · rfl
    · rw [eq_of_mem_replicate hMem]
      rfl
  -- all priorities are the same, so they are handled as they stand
  have ho : executionOrder longBindings = longBindings.map PluginBinding.id := by
    rw [executionOrder, orderPluginBindings, List.Pairwise.insertionSort_eq]
    refine pairwise_of_forall_mem_list ?_
    intro left hLeft right hr
    rw [hz left hLeft, hz right hr]
    exact Int32.le_refl 0
  refine ⟨hl, ?_⟩
  have hp : (backendWith longBindings).plugins = longBindings := rfl
  rw [backendKeepsOrder_iff (hp ▸ hn), hp, ho]
  apply not_unmoved
  · rw [length_map, hl]
  · rw [longBindings, map_cons, map_replicate, getElem?_cons, getElem?_cons, if_pos rfl,
      getElem?_replicate]
    decide

end Spacegate.Shell
