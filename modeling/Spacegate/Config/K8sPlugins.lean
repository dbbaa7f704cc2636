import Spacegate.Config.HigressPlugins
import Spacegate.Config.K8sFilterWatch
import Spacegate.Foundation.Utf8

/-!
# Plugins that are kept in a cluster

The plugins of the Kubernetes backend come from two kinds of objects.  Of an SgFilter object the
first enabled filter counts, and of a WasmPlugin object the default configuration and the enabled
match rules.  A plugin is looked up by the object that its id seems to come from, which is not
always the object that it does come from.
-/

namespace Spacegate.Config.KubePlugins

open Foundation Foundation.Text List
open Model
open Higress (WasmPlugin sortHigressWasmPlugins toSpacegatePluginId toSpacegateRulePluginId)
open Watch (TargetRef extractFromFilter)

/-- `K8sSgFilterSpecFilter`. -/
structure SpecFilter extends Watch.SgFilterSpecFilter where
  displayName : Option String
  config : Json

structure SgFilter where
  name : String
  ns : String
  filters : List SpecFilter
  targetRefs : List TargetRef

def fromFirstFilterObj (obj : SgFilter) : Option PluginConfig :=
  (obj.filters.find? (·.enable)).map fun filter =>
    { id := extractFromFilter filter.toSgFilterSpecFilter obj.name
      displayName := normalizePluginDisplayName filter.displayName
      spec := filter.config }

/-! ## The plugins of a target -/

/-- A reference is compared with a target in a namespace; one without a namespace has the given
one. -/
def refersTo (defaultNs : String) (target : TargetRef) (ns : String) (ref : TargetRef) : Bool :=
  eqIgnoreAsciiCase ref.kind target.kind && eqIgnoreAsciiCase ref.name target.name &&
    eqIgnoreAsciiCase (ref.ns.getD defaultNs) ns

def retrieveConfigItemFilters (ownNs : String) (objs : List SgFilter) (target : TargetRef) :
    List PluginBinding :=
  let refers := refersTo "default" target (target.ns.getD ownNs)
  (objs.filter fun obj => obj.targetRefs.any refers).filterMap fun obj =>
    (fromFirstFilterObj obj).map fun config =>
      { id := config.id
        priority := ((obj.targetRefs.find? refers).map TargetRef.priority).getD 0 }

section Target

variable (ownNs : String) (objs : List SgFilter) (target : TargetRef) (obj : SgFilter)

/-- The code takes a reference without a namespace to be one into `default`. -/
def Selected : Prop :=
  obj.targetRefs.any (refersTo "default" target (target.ns.getD ownNs)) = true

/-- A reference without a namespace is one into the namespace of the SgFilter object. -/
def Denoted : Prop :=
  obj.targetRefs.any (refersTo obj.ns target (target.ns.getD ownNs)) = true

/-- The plugins that are selected are those of the objects with a reference to the target. -/
def SelectsExactly : Prop :=
  ∀ id, (∃ binding ∈ retrieveConfigItemFilters ownNs objs target, binding.id = id) ↔
    ∃ obj ∈ objs, Denoted ownNs target obj ∧ ∃ config, fromFirstFilterObj obj = some config ∧
      config.id = id

/-- The target is named by a reference without a namespace, and by none with its namespace. -/
def OnlyBare : Prop :=
  (∃ ref ∈ obj.targetRefs, ref.ns = none ∧ eqIgnoreAsciiCase ref.kind target.kind = true ∧
    eqIgnoreAsciiCase ref.name target.name = true) ∧
  ¬ ∃ ref ∈ obj.targetRefs, ref.ns ≠ none ∧ refersTo "" target (target.ns.getD ownNs) ref = true

/-- Where an object has only references without a namespace to the target, the target is in both
`default` and the object's namespace or in none of them, or the plugin is rightly selected through
another object. -/
def DefaultsAgree : Prop :=
  ∀ obj ∈ objs, ∀ config, fromFirstFilterObj obj = some config → OnlyBare ownNs target obj →
    eqIgnoreAsciiCase "default" (target.ns.getD ownNs) =
        eqIgnoreAsciiCase obj.ns (target.ns.getD ownNs) ∨
      ∃ other ∈ objs, Selected ownNs target other ∧ Denoted ownNs target other ∧
        ∃ config', fromFirstFilterObj other = some config' ∧ config'.id = config.id

end Target

variable {ownNs : String} {objs : List SgFilter} {target : TargetRef} {obj : SgFilter}

theorem exists_mem_retrieve_iff (id : PluginInstanceId) :
    (∃ binding ∈ retrieveConfigItemFilters ownNs objs target, binding.id = id) ↔
      ∃ obj ∈ objs, Selected ownNs target obj ∧ ∃ config, fromFirstFilterObj obj = some config ∧
        config.id = id := by
  simp only [retrieveConfigItemFilters, mem_filterMap, mem_filter, Option.map_eq_some_iff]
  constructor
  · rintro ⟨binding, ⟨obj, ⟨hObj, hs⟩, config, hc, rfl⟩, hId⟩
    exact ⟨obj, hObj, hs, config, hc, hId⟩
  · rintro ⟨obj, hObj, hs, config, hc, hId⟩
    exact ⟨_, ⟨obj, ⟨hObj, hs⟩, config, hc, rfl⟩, hId⟩

/-- The default matters for the references without a namespace only. -/
theorem any_refersTo_iff (defaultNs : String) :
    obj.targetRefs.any (refersTo defaultNs target (target.ns.getD ownNs)) = true ↔
      (∃ ref ∈ obj.targetRefs, ref.ns ≠ none ∧
          refersTo "" target (target.ns.getD ownNs) ref = true) ∨
        (∃ ref ∈ obj.targetRefs, ref.ns = none ∧ eqIgnoreAsciiCase ref.kind target.kind = true ∧
            eqIgnoreAsciiCase ref.name target.name = true) ∧
          eqIgnoreAsciiCase defaultNs (target.ns.getD ownNs) = true := by
  simp only [any_eq_true, refersTo, Bool.and_eq_true]
  constructor
  · rintro ⟨ref, hRef, ⟨hk, hn⟩, hNs⟩
    cases hOwn : ref.ns with
    | none =>
      exact .inr ⟨⟨ref, hRef, hOwn, hk, hn⟩, by simpa only [hOwn, Option.getD_none] using hNs⟩
    | some ns =>
      refine .inl ⟨ref, hRef, by simp [hOwn], ⟨hk, hn⟩, ?_⟩
      simpa only [hOwn, Option.getD_some] using hNs
  · rintro (⟨ref, hRef, hOwn, ⟨hk, hn⟩, hNs⟩ | ⟨⟨ref, hRef, hOwn, hk, hn⟩, hNs⟩)
    · obtain ⟨ns, hs⟩ := Option.ne_none_iff_exists'.mp hOwn
      refine ⟨ref, hRef, ⟨hk, hn⟩, ?_⟩
      simpa only [hs, Option.getD_some] using hNs
    · refine ⟨ref, hRef, ⟨hk, hn⟩, ?_⟩
      simpa only [hOwn, Option.getD_none] using hNs

theorem selectsExactly_iff_defaultsAgree (ownNs : String) (objs : List SgFilter)
    (target : TargetRef) :
    SelectsExactly ownNs objs target ↔ DefaultsAgree ownNs objs target := by
  have hSelected : ∀ obj, Selected ownNs target obj ↔ _ := fun obj => any_refersTo_iff "default"
  have hDenoted : ∀ obj, Denoted ownNs target obj ↔ _ := fun obj => any_refersTo_iff obj.ns
  simp only [SelectsExactly, exists_mem_retrieve_iff]
  constructor
  · intro he obj hObj config hc hBare
    obtain ⟨hRef, hn⟩ := hBare
    by_cases hDefault : eqIgnoreAsciiCase "default" (target.ns.getD ownNs) = true
    · by_cases hOwn : eqIgnoreAsciiCase obj.ns (target.ns.getD ownNs) = true
      · exact .inl (hDefault.trans hOwn.symm)
      · -- what is denoted is selected here
        obtain ⟨other, ho, hd, hp⟩ := (he config.id).mp
          ⟨obj, hObj, (hSelected obj).mpr (.inr ⟨hRef, hDefault⟩), config, hc, rfl⟩
        refine .inr ⟨other, ho, (hSelected other).mpr ?_, hd, hp⟩
        exact ((hDenoted other).mp hd).imp_right fun h => ⟨h.1, hDefault⟩
    · by_cases hOwn : eqIgnoreAsciiCase obj.ns (target.ns.getD ownNs) = true
      · obtain ⟨other, ho, hs, hp⟩ := (he config.id).mpr
          ⟨obj, hObj, (hDenoted obj).mpr (.inr ⟨hRef, hOwn⟩), config, hc, rfl⟩
        refine .inr ⟨other, ho, hs, (hDenoted other).mpr (.inl ?_), hp⟩
        exact ((hSelected other).mp hs).resolve_right fun h => hDefault h.2
      · exact .inl (by simp only [hDefault, hOwn])
  · intro ha id
    constructor
    · rintro ⟨obj, hObj, hs, config, hc, rfl⟩
      by_cases hd : Denoted ownNs target obj
      · exact ⟨obj, hObj, hd, config, hc, rfl⟩
      rw [hDenoted, not_or, not_and] at hd
      obtain ⟨hRef, hDefault⟩ := ((hSelected obj).mp hs).resolve_left hd.1
      rcases ha obj hObj config hc ⟨hRef, hd.1⟩ with hSame | ⟨other, ho, hb⟩
      · exact absurd (hSame ▸ hDefault) (hd.2 hRef)
      · exact ⟨other, ho, hb.2⟩
    · rintro ⟨obj, hObj, hd, config, hc, rfl⟩
      by_cases hs : Selected ownNs target obj
      · exact ⟨obj, hObj, hs, config, hc, rfl⟩
      rw [hSelected, not_or, not_and] at hs
      obtain ⟨hRef, hOwn⟩ := ((hDenoted obj).mp hd).resolve_left hs.1
      rcases ha obj hObj config hc ⟨hRef, hs.1⟩ with hSame | ⟨other, ho, hb⟩
      · exact absurd (hSame.symm ▸ hOwn) (hs.2 hRef)
      · exact ⟨other, ho, hb.1, hb.2.2⟩

/-- An SgFilter object in the namespace `gateways` with a reference to a gateway there. -/
def neighbour : SgFilter where
  name := "limit"
  ns := "gateways"
  filters :=
    [{ code := "limit", name := none, enable := true, displayName := none, config := .null }]
  targetRefs := [{ kind := "Gateway", name := "a", ns := none, priority := 0 }]

/-- The plugin is not selected for the gateway beside the object. -/
theorem neighbour_not_selected :
    ¬ SelectsExactly "gateways" [neighbour]
      { kind := "Gateway", name := "a", ns := some "gateways", priority := 0 } := by
  intro he
  obtain ⟨binding, hb, -⟩ := (he ⟨"limit", .named "limit"⟩).mpr
    ⟨neighbour, by simp, show List.any _ _ = true by decide +kernel, _, rfl, rfl⟩
  have hn : retrieveConfigItemFilters "gateways" [neighbour]
      { kind := "Gateway", name := "a", ns := some "gateways", priority := 0 } = [] := by
    decide +kernel
  rw [hn] at hb
  simp at hb

/-! ## Listing and looking up -/

section Keys

variable {α β κ : Type} {key : α → κ} {xs : List α}

theorem find?_key_eq_some_iff [DecidableEq κ] (h : (xs.map key).Nodup) {k : κ} {x : α} :
    xs.find? (fun x => key x = k) = some x ↔ x ∈ xs ∧ key x = k := by
  constructor
  · intro hf
    exact ⟨mem_of_find?_eq_some hf, by simpa using find?_some hf⟩
  · rintro ⟨hMem, rfl⟩
    exact find?_key_eq_some h hMem

theorem nodup_filterMap_iff {f : α → Option β} (h : (xs.map key).Nodup) : (xs.filterMap f).Nodup ↔
      ∀ x ∈ xs, ∀ y ∈ xs, ∀ b, f x = some b → f y = some b → key x = key y := by
  rw [List.Nodup, pairwise_filterMap]
  constructor
  · intro hp x hx y hy b hxb hyb
    by_contra hKey
    have hs : Std.Symm fun a a' => ∀ b, f a = some b → ∀ b', f a' = some b' → b ≠ b' :=
      ⟨fun a a' ha b hb b' hb' => (ha b' hb' b hb).symm⟩
    exact hp.forall hx hy (fun hEq => hKey (congrArg key hEq)) b hxb b hyb rfl
  · intro hk
    refine h.of_map.pairwise_of_forall_ne ?_
    rintro x hx y hy hne b hxb b' hyb rfl
    exact hne (inj_on_of_nodup_map h hx hy (hk x hx y hy b hxb hyb))

end Keys

/-- The objects in the namespace of the backend; the names of a kind are distinct. -/
structure PluginObjects where
  filters : List SgFilter
  wasmPlugins : List WasmPlugin
  filters_nodup : (filters.map SgFilter.name).Nodup
  wasmPlugins_nodup : (wasmPlugins.map WasmPlugin.name).Nodup

/-- The configurations of a WasmPlugin object that are enabled: the default and the rules by
their indices. -/
def instancesOf (plugin : WasmPlugin) : List (Option ℕ) :=
  (if plugin.defaultConfigDisable then [] else [none]) ++
    (plugin.matchRules.zipIdx.filter fun entry => !entry.1.configDisable).map fun entry =>
      some entry.2

def instanceId (plugin : WasmPlugin) : Option ℕ → PluginInstanceId
  | none => toSpacegatePluginId plugin
  | some ruleIndex => toSpacegateRulePluginId plugin ruleIndex

/-- What `build_plugin_config` makes of an object, its registry credentials and a rule, apart
from the id: the display name and the specification. -/
abbrev Contents := WasmPlugin → Option ℕ → Option String × Json

variable (contents : Contents)

def buildPluginConfig (plugin : WasmPlugin) (rule : Option ℕ) : PluginConfig where
  id := instanceId plugin rule
  displayName := (contents plugin rule).1
  spec := (contents plugin rule).2

def toSpacegatePluginConfigs (plugin : WasmPlugin) : List PluginConfig :=
  (instancesOf plugin).map (buildPluginConfig contents plugin)

/-- The name after `higress-` of an id that is looked up among the WasmPlugin objects. -/
def wasmName (id : PluginInstanceId) : Option String :=
  match id.name with
  | .named name => if id.code = "wasm" then stripStart "higress-" name else none
  | _ => none

/-- The name of the object: what stands before the last `-rule-`. -/
def baseName (name : String) : String :=
  match rsplitOnceAt "-rule-" name with
  | some (base, _) => base
  | none => name

variable (s : PluginObjects)

def retrieveAllPlugins : List PluginConfig :=
  s.filters.filterMap fromFirstFilterObj ++
    (sortHigressWasmPlugins s.wasmPlugins).flatMap (toSpacegatePluginConfigs contents)

def retrievePlugin (id : PluginInstanceId) : Option PluginConfig :=
  match wasmName id with
  | some name =>
    (s.wasmPlugins.find? fun plugin => plugin.name = baseName name).bind fun plugin =>
      (toSpacegatePluginConfigs contents plugin).find? fun config => config.id = id
  | none =>
    match id.name with
    | .named name => (s.filters.find? fun obj => obj.name = name).bind fromFirstFilterObj
    | _ => none

/-- An id is looked up as it is listed. -/
def Agrees (id : PluginInstanceId) : Prop :=
  ∀ config, retrievePlugin contents s id = some config ↔
    config ∈ retrieveAllPlugins contents s ∧ config.id = id

/-- No two instances of the objects have the same id.  Those of WasmPlugin objects have it where
the name of one object ends like a rule of another one. -/
structure Unambiguous : Prop where
  filters : ∀ obj ∈ s.filters, ∀ obj' ∈ s.filters, ∀ config config',
    fromFirstFilterObj obj = some config → fromFirstFilterObj obj' = some config' →
      config.id = config'.id → obj.name = obj'.name
  apart : ∀ obj ∈ s.filters, ∀ config, fromFirstFilterObj obj = some config →
    ∀ plugin ∈ s.wasmPlugins, ∀ rule ∈ instancesOf plugin, config.id ≠ instanceId plugin rule
  rules : ∀ plugin ∈ s.wasmPlugins, none ∈ instancesOf plugin →
    ∀ other ∈ s.wasmPlugins, ∀ index, some index ∈ instancesOf other →
      plugin.name ≠ other.name ++ "-rule-" ++ toString index

/-- The objects with the id are those it is looked up in. -/
structure Reaches (id : PluginInstanceId) : Prop where
  filter : ∀ obj ∈ s.filters, ∀ config, fromFirstFilterObj obj = some config →
    if (wasmName id).isSome then config.id ≠ id else (id.name = .named obj.name ↔ config.id = id)
  default : ∀ plugin ∈ s.wasmPlugins, none ∈ instancesOf plugin →
    toSpacegatePluginId plugin = id → rsplitOnceAt "-rule-" plugin.name = none

/-! ### The names of the instances -/

/-- The name of an instance after `higress-`. -/
def instanceName (plugin : WasmPlugin) : Option ℕ → String
  | none => plugin.name
  | some ruleIndex => plugin.name ++ "-rule-" ++ toString ruleIndex

variable (plugin : WasmPlugin)

theorem instanceId_eq (rule : Option ℕ) :
    instanceId plugin rule = ⟨"wasm", .named ("higress-" ++ instanceName plugin rule)⟩ := by
  cases rule with
  | none => rfl
  | some index =>
    simp [instanceId, toSpacegateRulePluginId, instanceName, String.append_assoc]

variable {id : PluginInstanceId} {name : String}

theorem wasmName_eq_some_iff :
    wasmName id = some name ↔ id = ⟨"wasm", .named ("higress-" ++ name)⟩ := by
  obtain ⟨code, idName⟩ := id
  cases idName with
  | named idName => simp [wasmName, stripStart_eq_some_iff]
  | anon uid => simp [wasmName]
  | mono => simp [wasmName]

theorem wasmName_instanceId (rule : Option ℕ) :
    wasmName (instanceId plugin rule) = some (instanceName plugin rule) :=
  wasmName_eq_some_iff.mpr (instanceId_eq plugin rule)

theorem instanceName_eq_of_id {plugin other : WasmPlugin} {rule rule' : Option ℕ}
    (h : instanceId plugin rule = instanceId other rule') :
    instanceName plugin rule = instanceName other rule' := by
  have hn := wasmName_instanceId plugin rule
  rw [h, wasmName_instanceId] at hn
  exact (Option.some.inj hn).symm

theorem rsplitOnceAt_rule (name : String) (index : ℕ) :
    rsplitOnceAt "-rule-" (name ++ "-rule-" ++ toString index) = some (name, toString index) := by
  refine (rsplitOnceAt_eq_some_iff (by decide)).mpr ⟨rfl, ?_⟩
  intro hi
  have hd : (toString index).toList.reverse.count '-' = 0 := by
    rw [count_eq_zero, mem_reverse]
    intro hMem
    rw [Nat.toString_eq_ofList_toDigits, String.toList_ofList] at hMem
    exact absurd (Nat.isDigit_of_mem_toDigits (by decide) (by decide) hMem) (by decide)
  -- the separator has two dashes, and one of them is left out
  have hc := hi.sublist.count_le '-'
  rw [count_append, hd] at hc
  exact absurd hc (by decide)

theorem ne_append_rule (name : String) (index : ℕ) : name ≠ name ++ "-rule-" ++ toString index := by
  intro hs
  have hl := congrArg String.length hs
  rw [String.length_append, String.length_append] at hl
  have hr : "-rule-".length = 6 := by decide
  omega

theorem baseName_rule (index : ℕ) : baseName (instanceName plugin (some index)) = plugin.name := by
  rw [baseName, instanceName, rsplitOnceAt_rule]

theorem baseName_eq_self_iff : baseName name = name ↔ rsplitOnceAt "-rule-" name = none := by
  rw [baseName]
  cases hs : rsplitOnceAt "-rule-" name with
  | none => simp
  | some pieces =>
    have ht := ((rsplitOnceAt_eq_some_iff (by decide)).mp hs).1
    simp only [reduceCtorEq, iff_false]
    intro hSame
    have hl := congrArg String.length ht
    rw [String.length_append, String.length_append, hSame] at hl
    have hr : "-rule-".length = 6 := by decide
    omega

theorem eq_of_rule_eq {plugin other : WasmPlugin} {index index' : ℕ}
    (h : instanceName plugin (some index) = instanceName other (some index')) :
    plugin.name = other.name ∧ index = index' := by
  have hs := rsplitOnceAt_rule plugin.name index
  rw [show plugin.name ++ "-rule-" ++ toString index = _ from h, instanceName,
    rsplitOnceAt_rule] at hs
  obtain ⟨hn, hi⟩ := Prod.mk.inj (Option.some.inj hs)
  rw [Nat.toString_eq_ofList_toDigits, Nat.toString_eq_ofList_toDigits, String.ofList_inj] at hi
  refine ⟨hn.symm, ?_⟩
  rw [← @Nat.ofDigitChars_ten_toDigits index, ← hi, Nat.ofDigitChars_ten_toDigits]

/-! ### When ids are distinct -/

variable {s}

theorem nodup_instanceIds : ((instancesOf plugin).map (instanceId plugin)).Nodup := by
  have hr : ((plugin.matchRules.zipIdx.filter fun entry => !entry.1.configDisable).map
      fun entry => entry.2).Nodup := by
    refine List.Nodup.sublist (filter_sublist.map _) ?_
    rw [zipIdx_map_snd]
    exact nodup_range'
  have hi : (instancesOf plugin).Nodup := by
    rw [instancesOf, nodup_append]
    refine ⟨by split_ifs <;> simp, ?_, ?_⟩
    · have hs := hr.map (Option.some_injective ℕ)
      rwa [map_map] at hs
    · intro rule hd rule' hRule
      obtain ⟨entry, -, rfl⟩ := mem_map.mp hRule
      split_ifs at hd <;> simp_all
  refine hi.map_on ?_
  intro rule _ rule' _ hId
  have hn := instanceName_eq_of_id hId
  cases rule with
  | none =>
    cases rule' with
    | none => rfl
    | some index => exact absurd hn (ne_append_rule plugin.name index)
  | some index =>
    cases rule' with
    | none => exact absurd hn.symm (ne_append_rule plugin.name index)
    | some index' => rw [(eq_of_rule_eq hn).2]

theorem nodup_wasm_iff :
    (((sortHigressWasmPlugins s.wasmPlugins).flatMap (toSpacegatePluginConfigs contents)).map
        PluginConfig.id).Nodup ↔
      ∀ plugin ∈ s.wasmPlugins, none ∈ instancesOf plugin →
        ∀ other ∈ s.wasmPlugins, ∀ index, some index ∈ instancesOf other →
          plugin.name ≠ other.name ++ "-rule-" ++ toString index := by
  have hPerm : (sortHigressWasmPlugins s.wasmPlugins).Perm s.wasmPlugins :=
    perm_insertionSort _ _
  rw [map_flatMap, (hPerm.flatMap_right _).nodup_iff, nodup_flatMap]
  have hIds : ∀ plugin, (toSpacegatePluginConfigs contents plugin).map PluginConfig.id =
      (instancesOf plugin).map (instanceId plugin) := by
    intro plugin
    rw [toSpacegatePluginConfigs, map_map]
    rfl
  simp only [hIds]
  constructor
  · rintro ⟨-, hd⟩ plugin hp hDefault other ho index hr hn
    have hSymm : Std.Symm (Function.onFun List.Disjoint
        fun plugin : WasmPlugin => (instancesOf plugin).map (instanceId plugin)) :=
      ⟨fun a b h => h.symm⟩
    have hNe : plugin ≠ other := by
      rintro rfl
      exact ne_append_rule plugin.name index hn
    refine hd.forall hp ho hNe (mem_map_of_mem hDefault)
      (mem_map.mpr ⟨some index, hr, ?_⟩)
    exact congrArg (fun name => (⟨"wasm", .named ("higress-" ++ name)⟩ : PluginInstanceId)) hn.symm
  · intro hRules
    refine ⟨fun plugin _ => nodup_instanceIds plugin, ?_⟩
    refine s.wasmPlugins_nodup.of_map.pairwise_of_forall_ne ?_
    intro plugin hp other ho hNe id hId hId'
    obtain ⟨rule, hr, rfl⟩ := mem_map.mp hId
    obtain ⟨rule', hr', hs⟩ := mem_map.mp hId'
    have hn := instanceName_eq_of_id hs
    have ha : plugin.name ≠ other.name := fun hn =>
      hNe (inj_on_of_nodup_map s.wasmPlugins_nodup hp ho hn)
    cases rule with
    | none =>
      cases rule' with
      | none => exact ha hn.symm
      | some index => exact hRules plugin hp hr other ho index hr' hn.symm
    | some index =>
      cases rule' with
      | none => exact hRules other ho hr' plugin hp index hr hn
      | some index' => exact ha (eq_of_rule_eq hn).1.symm

variable {config : PluginConfig}

theorem mem_wasm_iff :
    config ∈ (sortHigressWasmPlugins s.wasmPlugins).flatMap (toSpacegatePluginConfigs contents) ↔
      ∃ plugin ∈ s.wasmPlugins, ∃ rule ∈ instancesOf plugin,
        buildPluginConfig contents plugin rule = config := by
  have hp : (sortHigressWasmPlugins s.wasmPlugins).Perm s.wasmPlugins := perm_insertionSort _ _
  simp [mem_flatMap, hp.mem_iff, toSpacegatePluginConfigs, mem_map]

theorem nodup_iff_unambiguous :
    ((retrieveAllPlugins contents s).map PluginConfig.id).Nodup ↔ Unambiguous s := by
  rw [retrieveAllPlugins, map_append, nodup_append, nodup_wasm_iff,
    map_filterMap, nodup_filterMap_iff s.filters_nodup]
  simp only [Option.map_eq_some_iff, mem_map, mem_wasm_iff, mem_filterMap]
  constructor
  · rintro ⟨hf, hRules, ha⟩
    refine ⟨?_, ?_, hRules⟩
    · intro obj hObj obj' ho' config config' hc hc' hId
      exact hf obj hObj obj' ho' config.id ⟨config, hc, rfl⟩ ⟨config', hc', hId.symm⟩
    · intro obj hObj config hc plugin hp rule hr
      exact ha config.id ⟨obj, hObj, config, hc, rfl⟩ _ ⟨_, ⟨plugin, hp, rule, hr, rfl⟩, rfl⟩
  · intro h
    refine ⟨?_, h.rules, ?_⟩
    · rintro obj hObj obj' ho' id ⟨config, hc, rfl⟩ ⟨config', hc', hId⟩
      exact h.filters obj hObj obj' ho' config config' hc hc' hId.symm
    · rintro id ⟨obj, hObj, config, hc, rfl⟩ id' ⟨_, ⟨plugin, hp, rule, hr, rfl⟩, rfl⟩
      exact h.apart obj hObj config hc plugin hp rule hr

/-! ### When they are looked up as they are listed -/

theorem retrievePlugin_wasm (hn : wasmName id = some name) :
    retrievePlugin contents s id = some config ↔
      ∃ plugin ∈ s.wasmPlugins, plugin.name = baseName name ∧ ∃ rule ∈ instancesOf plugin,
        buildPluginConfig contents plugin rule = config ∧ config.id = id := by
  have hConfigs : ∀ plugin, ((toSpacegatePluginConfigs contents plugin).map
      PluginConfig.id).Nodup := by
    intro plugin
    rw [toSpacegatePluginConfigs, map_map]
    exact nodup_instanceIds plugin
  simp only [retrievePlugin, hn, Option.bind_eq_some_iff,
    find?_key_eq_some_iff s.wasmPlugins_nodup, find?_key_eq_some_iff (hConfigs _)]
  simp only [toSpacegatePluginConfigs, mem_map]
  constructor
  · rintro ⟨plugin, ⟨hp, hb⟩, ⟨rule, hr, hc⟩, hId⟩
    exact ⟨plugin, hp, hb, rule, hr, hc, hId⟩
  · rintro ⟨plugin, hp, hb, rule, hr, hc, hId⟩
    exact ⟨plugin, ⟨hp, hb⟩, ⟨rule, hr, hc⟩, hId⟩

theorem retrievePlugin_filter (hn : wasmName id = none) :
    retrievePlugin contents s id = some config ↔
      ∃ obj ∈ s.filters, id.name = .named obj.name ∧ fromFirstFilterObj obj = some config := by
  simp only [retrievePlugin, hn]
  cases hId : id.name with
  | named name =>
    simp [Option.bind_eq_some_iff, find?_key_eq_some_iff s.filters_nodup,
      PluginInstanceName.named.injEq, and_assoc, @eq_comm _ name]
  | anon uid => simp
  | mono => simp

theorem mem_retrieveAllPlugins_iff : config ∈ retrieveAllPlugins contents s ↔
      (∃ obj ∈ s.filters, fromFirstFilterObj obj = some config) ∨
        ∃ plugin ∈ s.wasmPlugins, ∃ rule ∈ instancesOf plugin,
          buildPluginConfig contents plugin rule = config := by
  rw [retrieveAllPlugins, mem_append, mem_filterMap, mem_wasm_iff]

theorem agrees_iff_of_wasm (h : Unambiguous s)
    (hn : wasmName id = some name) : Agrees contents s id ↔ Reaches s id := by
  simp only [Agrees, retrievePlugin_wasm contents hn, mem_retrieveAllPlugins_iff]
  constructor
  · intro ha
    refine ⟨?_, ?_⟩
    · intro obj hObj config hc
      rw [if_pos (by rw [hn]; rfl)]
      intro hId
      obtain ⟨plugin, hp, -, rule, hr, rfl, -⟩ := (ha config).mpr ⟨.inl ⟨obj, hObj, hc⟩, hId⟩
      exact h.apart obj hObj _ hc plugin hp rule hr rfl
    · intro plugin hp hd hId
      obtain ⟨other, ho, hb, rule, hr, hc, -⟩ :=
        (ha (buildPluginConfig contents plugin none)).mpr ⟨.inr ⟨plugin, hp, none, hd, rfl⟩, hId⟩
      obtain rfl : plugin.name = name := by
        rw [← hId] at hn
        exact Option.some.inj ((wasmName_instanceId plugin none).symm.trans hn)
      have hoi : instanceId other rule = instanceId plugin none := congrArg PluginConfig.id hc
      have hs := instanceName_eq_of_id hoi
      cases rule with
      | none => exact baseName_eq_self_iff.mp (hb.symm.trans hs)
      | some index =>
        exact absurd hs.symm (h.rules plugin hp hd other ho index hr)
  · intro hReaches config
    constructor
    · rintro ⟨plugin, hp, -, rule, hr, hc, hId⟩
      exact ⟨.inr ⟨plugin, hp, rule, hr, hc⟩, hId⟩
    · rintro ⟨⟨obj, hObj, hc⟩ | ⟨plugin, hp, rule, hr, rfl⟩, hId⟩
      · have hApart := hReaches.filter obj hObj config hc
        rw [if_pos (by rw [hn]; rfl)] at hApart
        exact absurd hId hApart
      · refine ⟨plugin, hp, ?_, rule, hr, rfl, hId⟩
        obtain rfl : instanceName plugin rule = name := by
          rw [← hId, buildPluginConfig, wasmName_instanceId] at hn
          exact Option.some.inj hn
        cases rule with
        | none => exact (baseName_eq_self_iff.mpr (hReaches.default plugin hp hr hId)).symm
        | some index => exact (baseName_rule plugin index).symm

theorem agrees_iff_of_filter (h : Unambiguous s)
    (hn : wasmName id = none) : Agrees contents s id ↔ Reaches s id := by
  simp only [Agrees, retrievePlugin_filter contents hn, mem_retrieveAllPlugins_iff]
  have hw : ∀ plugin rule, instanceId plugin rule ≠ id := by
    rintro plugin rule rfl
    rw [wasmName_instanceId] at hn
    cases hn
  constructor
  · intro ha
    refine ⟨?_, fun plugin _ _ hId => absurd hId (hw plugin none)⟩
    intro obj hObj config hc
    rw [if_neg (by simp [hn])]
    constructor
    · intro hon
      exact ((ha config).mp ⟨obj, hObj, hon, hc⟩).2
    · intro hId
      obtain ⟨obj', ho', hon, hc'⟩ := (ha config).mpr ⟨.inl ⟨obj, hObj, hc⟩, hId⟩
      rw [h.filters obj hObj obj' ho' config config hc hc' rfl]
      exact hon
  · intro hr config
    have hf : ∀ obj ∈ s.filters, fromFirstFilterObj obj = some config →
        (id.name = .named obj.name ↔ config.id = id) := by
      intro obj hObj hc
      have hIff := hr.filter obj hObj config hc
      rwa [if_neg (by simp [hn])] at hIff
    constructor
    · rintro ⟨obj, hObj, hon, hc⟩
      exact ⟨.inl ⟨obj, hObj, hc⟩, (hf obj hObj hc).mp hon⟩
    · rintro ⟨⟨obj, hObj, hc⟩ | ⟨plugin, hp, rule, hRule, rfl⟩, hId⟩
      · exact ⟨obj, hObj, (hf obj hObj hc).mpr hId, hc⟩
      · exact absurd hId (hw plugin rule)

/-- An id is looked up as it is listed, and listed once, if and only if it is looked up in the
objects it comes from and no ids coincide. -/
theorem agrees_iff_reaches (contents : Contents) (s : PluginObjects) (id : PluginInstanceId) :
    Agrees contents s id ∧ ((retrieveAllPlugins contents s).map PluginConfig.id).Nodup ↔
      Reaches s id ∧ Unambiguous s := by
  rw [nodup_iff_unambiguous]
  refine and_congr_left fun h => ?_
  cases hn : wasmName id with
  | none => exact agrees_iff_of_filter contents h hn
  | some name => exact agrees_iff_of_wasm contents h hn

/-- A WasmPlugin object whose name looks like that of a rule. -/
def ruleLike : PluginObjects where
  filters := []
  wasmPlugins := [⟨"auth-rule-0", none, none, false, []⟩]
  filters_nodup := by decide
  wasmPlugins_nodup := by decide

/-- It is looked up in an object `auth`, which does not exist. -/
theorem ruleLike_not_found :
    ¬ (Agrees (fun _ _ => (none, .null)) ruleLike ⟨"wasm", .named "higress-auth-rule-0"⟩ ∧
      ((retrieveAllPlugins (fun _ _ => (none, .null)) ruleLike).map PluginConfig.id).Nodup) := by
  rintro ⟨ha, -⟩
  have hl : retrieveAllPlugins (fun _ _ => (none, .null)) ruleLike =
      [⟨⟨"wasm", .named "higress-auth-rule-0"⟩, none, .null⟩] := rfl
  have hf := (ha ⟨⟨"wasm", .named "higress-auth-rule-0"⟩, none, .null⟩).mpr
    ⟨hl ▸ mem_singleton.mpr rfl, rfl⟩
  cases hf

end Spacegate.Config.KubePlugins
