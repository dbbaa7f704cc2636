import Spacegate.Config.FsModify

/-!
# Creating a route in the file backend

`create_config_item_route` is to add a route that is not there yet.  It looks for a route with
the name of the gateway instead, so that an existing route is overwritten unless the gateway
has such a route, and no route can be created once it has one.
-/

set_option linter.dupNamespace false

namespace Spacegate.Config

open Foundation
open Foundation.DiskM
open Model

namespace Fs

section Creating

variable {G O : Type}

/-- The configuration with one more route of a gateway. -/
def Config.withRoute (config : Config G O) (gatewayName : String) (item : ConfigItem G)
    (routeName : String) (route : SgRoute) : Config G O :=
  config.setItem gatewayName { item with routes := item.routes.insert routeName route }

variable (fs : Fs G O) (order : IterOrder)

/-- The call in a directory, with the directory that it leaves. -/
def runCreateRoute (d : Disk) (gatewayName routeName : String)
    (route : SgRoute) : Except FsError (Config G O) × Disk :=
  (modifyCached fs (Call.createConfigItemRoute gatewayName routeName route).change).exec order d

/-- The call succeeds exactly if the gateway is there without the route, and then the route is
added; it changes nothing when it fails or when there is such a route. -/
structure CreatesRoute (fs : Fs G O) (order : IterOrder) (d : Disk) (config : Config G O)
    (gatewayName routeName : String) (route : SgRoute) : Prop where
  ok_iff : (∃ read, (runCreateRoute fs order d gatewayName routeName route).1 = .ok read) ↔
    ∃ item, config.gateways.get gatewayName = some item ∧ item.routes.get routeName = none
  added : ∀ read item, (runCreateRoute fs order d gatewayName routeName route).1 = .ok read →
    config.gateways.get gatewayName = some item →
    readConfig fs order (runCreateRoute fs order d gatewayName routeName route).2 =
      .ok (config.withRoute gatewayName item routeName route)
  unchanged : ∀ e, (runCreateRoute fs order d gatewayName routeName route).1 = .error e →
    ∀ l, (runCreateRoute fs order d gatewayName routeName route).2.get l = d.get l
  existing : ∀ item old, config.gateways.get gatewayName = some item →
    item.routes.get routeName = some old →
    ∀ l, (runCreateRoute fs order d gatewayName routeName route).2.get l = d.get l

/-- Writing a configuration into the directory. -/
def rewrite (d : Disk) (changed : Config G O) : Except FsError (Config G O) × Disk :=
  (modifyCached fs (Call.updateConfig changed).change).exec order d

/-- A configuration that is written into the directory is read back. -/
def WrittenBack (d : Disk) (changed : Config G O) : Prop :=
  ∃ read, (rewrite fs order d changed).1 = .ok read ∧
    readConfig fs order (rewrite fs order d changed).2 = .ok changed

/-- A configuration cannot be written, and the attempt leaves the directory as it was. -/
def RolledBack (d : Disk) (changed : Config G O) : Prop :=
  (∃ e, (rewrite fs order d changed).1 = .error e) ∧
    ∀ l, (rewrite fs order d changed).2.get l = d.get l

/-- When the call does what it should: the routes are asked for the name of the gateway, and
the answer has to be the same as for the name of the route. -/
def RouteCreatable (d : Disk) (config : Config G O)
    (gatewayName routeName : String) (route : SgRoute) : Prop :=
  ∀ item, config.gateways.get gatewayName = some item →
    if (item.routes.get gatewayName).isSome then (item.routes.get routeName).isSome
    else if (item.routes.get routeName).isSome then
      RolledBack fs order d (config.withRoute gatewayName item routeName route)
    else WrittenBack fs order d (config.withRoute gatewayName item routeName route)

/-! ## One call -/

variable {fs : Fs G O} {order : IterOrder} {d : Disk} {config changed : Config G O}
  {gatewayName routeName : String} {route : SgRoute} {item : ConfigItem G}

variable {change change' : Config G O → Except FsError (Config G O)}

theorem exec_modifyCached_congr (h : planned fs order change d = planned fs order change' d) :
    (modifyCached fs change).exec order d = (modifyCached fs change').exec order d := by
  rw [modifyCached, modifyCached, exec_bind, exec_bind, exec_prepare, exec_prepare, h]

variable (hc : readConfig fs order d = .ok config)
include hc

theorem planned_congr (h : change config = change' config) :
    planned fs order change d = planned fs order change' d := by
  obtain ⟨stored, hs⟩ := exists_readPlugins_of_readConfig hc
  simp [planned, hs, hc, h, bind, Except.bind]

theorem exec_of_refused {e : FsError}
    (h : change config = .error e) : (modifyCached fs change).exec order d = (.error e, d) := by
  apply exec_modifyCached_error
  obtain ⟨stored, hs⟩ := exists_readPlugins_of_readConfig hc
  simp [planned, hs, hc, h, bind, Except.bind]

theorem runCreateRoute_of_none (hi : config.gateways.get gatewayName = none) :
    runCreateRoute fs order d gatewayName routeName route =
      (.error (.refused "gateway not exists"), d) := by
  apply exec_of_refused hc
  simp [Call.change, Config.modifyItem, hi]

variable (hi : config.gateways.get gatewayName = some item)
include hi

theorem runCreateRoute_of_named (hn : (item.routes.get gatewayName).isSome = true) :
    runCreateRoute fs order d gatewayName routeName route =
      (.error (.refused "route existed"), d) := by
  apply exec_of_refused hc
  simp [Call.change, Config.modifyItem, hi, hn, Except.map]

theorem runCreateRoute_of_not_named (hn : (item.routes.get gatewayName).isSome = false) :
    runCreateRoute fs order d gatewayName routeName route =
      rewrite fs order d (config.withRoute gatewayName item routeName route) := by
  apply exec_modifyCached_congr
  apply planned_congr hc
  simp [Call.change, Config.modifyItem, hi, hn, Except.map, Config.withRoute]

omit hi

omit hc

/-! ## The condition -/

/-- A call that fails without touching the directory is right exactly when it should fail. -/
theorem createsRoute_iff_of_error {e : FsError}
    (hRun : runCreateRoute fs order d gatewayName routeName route = (.error e, d)) :
    CreatesRoute fs order d config gatewayName routeName route ↔
      ∀ item, config.gateways.get gatewayName = some item → (item.routes.get routeName).isSome := by
  constructor
  · intro h item hi
    by_contra hn
    have ha : item.routes.get routeName = none := by simpa using hn
    obtain ⟨read, hr⟩ := h.ok_iff.mpr ⟨item, hi, ha⟩
    rw [hRun] at hr
    cases hr
  · intro h
    refine ⟨⟨?_, ?_⟩, ?_, ?_, ?_⟩
    · rintro ⟨read, hr⟩
      rw [hRun] at hr
      cases hr
    · rintro ⟨item, hi, ha⟩
      have hs := h item hi
      rw [ha] at hs
      cases hs
    · intro read item hr
      rw [hRun] at hr
      cases hr
    · intro e' _ l
      rw [hRun]
    · intro item old _ _ l
      rw [hRun]

theorem createsRoute_iff_of_rewrite (hi : config.gateways.get gatewayName = some item)
    (hRun : runCreateRoute fs order d gatewayName routeName route =
      rewrite fs order d (config.withRoute gatewayName item routeName route)) :
    CreatesRoute fs order d config gatewayName routeName route ↔
      if (item.routes.get routeName).isSome then
        RolledBack fs order d (config.withRoute gatewayName item routeName route)
      else WrittenBack fs order d (config.withRoute gatewayName item routeName route) := by
  set changed := config.withRoute gatewayName item routeName route
  cases hOld : item.routes.get routeName with
  | some old =>
    constructor
    · intro h
      refine ⟨?_, ?_⟩
      · cases hResult : (rewrite fs order d changed).1 with
        | error e => exact ⟨e, rfl⟩
        | ok read =>
          obtain ⟨item', hi', hn⟩ := h.ok_iff.mp ⟨read, by rw [hRun, hResult]⟩
          rw [hi] at hi'
          cases hi'
          rw [hOld] at hn
          cases hn
      · intro l
        rw [← hRun]
        exact h.existing item old hi hOld l
    · rintro ⟨⟨e, he⟩, hs⟩
      rw [← hRun] at he hs
      refine ⟨⟨?_, ?_⟩, ?_, ?_, ?_⟩
      · rintro ⟨read, hr⟩
        rw [he] at hr
        cases hr
      · rintro ⟨item', hi', hn⟩
        rw [hi] at hi'
        cases hi'
        rw [hOld] at hn
        cases hn
      · intro read item' hr
        rw [he] at hr
        cases hr
      · exact fun _ _ => hs
      · exact fun _ _ _ _ => hs
  | none =>
    constructor
    · intro h
      obtain ⟨read, hr⟩ := h.ok_iff.mpr ⟨item, hi, hOld⟩
      have ha := h.added read item hr hi
      rw [hRun] at hr ha
      exact ⟨read, hr, ha⟩
    · rintro ⟨read, hr, ha⟩
      rw [← hRun] at hr ha
      refine ⟨⟨fun _ => ⟨item, hi, hOld⟩, fun _ => ⟨read, hr⟩⟩, ?_, ?_, ?_⟩
      · intro read' item' _ hi'
        rw [hi] at hi'
        cases hi'
        exact ha
      · intro e he
        rw [hr] at he
        cases he
      · intro item' old hi' ho'
        rw [hi] at hi'
        cases hi'
        rw [hOld] at ho'
        cases ho'

theorem createsRoute_iff_creatable (hc : readConfig fs order d = .ok config) :
    CreatesRoute fs order d config gatewayName routeName route ↔
      RouteCreatable fs order d config gatewayName routeName route := by
  unfold RouteCreatable
  cases hi : config.gateways.get gatewayName with
  | none =>
    rw [createsRoute_iff_of_error (runCreateRoute_of_none hc hi), hi]
    simp
  | some item =>
    cases hn : (item.routes.get gatewayName).isSome with
    | true =>
      rw [createsRoute_iff_of_error (runCreateRoute_of_named hc hi hn), hi]
      simp [hn]
    | false =>
      rw [createsRoute_iff_of_rewrite hi (runCreateRoute_of_not_named hc hi hn)]
      simp [hn]

/-! ## Configurations that can be stored -/

variable (hc : readConfig fs order d = .ok config)
include hc

variable (h : Savable fs changed)
include h

theorem exec_rewrite :
    ∃ stored d', rewrite fs order d changed = (.ok config, d') ∧
      Saved fs changed (writtenPlugins fs stored changed) d' := by
  obtain ⟨stored, hs⟩ := exists_readPlugins_of_readConfig hc
  have hChange : (Call.updateConfig changed).change config = .ok changed := rfl
  obtain ⟨d', he, hSaved⟩ := exec_modifyCached_ok hs hc hChange h
  exact ⟨stored, d', he, hSaved⟩

theorem writtenBack_iff_stableNames : WrittenBack fs order d changed ↔ StableNames changed := by
  obtain ⟨stored, d', he, hs⟩ := exec_rewrite hc h
  have hr : readConfig fs order d' = .ok changed ↔ StableNames changed :=
    readConfig_of_commit_iff h hs
  rw [WrittenBack, he, ← hr]
  constructor
  · rintro ⟨read, -, hb⟩
    exact hb
  · intro hb
    exact ⟨config, rfl, hb⟩

theorem not_rolledBack : ¬ RolledBack fs order d changed := by
  obtain ⟨stored, d', hExec, -⟩ := exec_rewrite hc h
  rintro ⟨⟨e, he⟩, -⟩
  rw [hExec] at he
  cases he

omit h

omit hc

/-- **Creating a route.**  In every stored configuration, `create_config_item_route` does what
it should exactly when there is no such gateway, or when the gateway has a route with its own
name and one with the name of the new route, or when it has neither and the configuration with
the new route is written and read back.  For a configuration whose names lead to their own
places and whose values the format carries, the last means that all is found under its name. -/
theorem createsRoute_iff_routeCreatable (fs : Fs G O) (order : IterOrder) (d : Disk)
    (config : Config G O) (hConfig : readConfig fs order d = .ok config)
    (gatewayName routeName : String) (route : SgRoute) :
    (CreatesRoute fs order d config gatewayName routeName route ↔
      RouteCreatable fs order d config gatewayName routeName route) ∧
    ∀ item, config.gateways.get gatewayName = some item →
      Savable fs (config.withRoute gatewayName item routeName route) →
      (CreatesRoute fs order d config gatewayName routeName route ↔
        ((item.routes.get gatewayName).isSome ↔ (item.routes.get routeName).isSome) ∧
          (item.routes.get routeName = none →
            StableNames (config.withRoute gatewayName item routeName route))) := by
  refine ⟨createsRoute_iff_creatable hConfig, ?_⟩
  intro item hi hs
  rw [createsRoute_iff_creatable hConfig, RouteCreatable, hi]
  simp only [Option.some.injEq, forall_eq']
  cases hn : (item.routes.get gatewayName).isSome with
  | true => cases item.routes.get routeName <;> simp
  | false =>
    cases item.routes.get routeName with
    | some old => simp [not_rolledBack hConfig hs]
    | none => simp [writtenBack_iff_stableNames hConfig hs]

end Creating

/-! ## One gateway -/

/-- A route without rules. -/
def bareRoute (priority : Int16) : SgRoute :=
  .http
    { routeName := ""
      hostnames := none
      plugins := []
      rules := []
      priority := priority }

/-- The format of braces, with routes of the priorities 1 and 2. -/
def routeFs : Fs Unit Unit where
  format :=
    { bracesFormat with
      serRoute := fun route =>
        match route with
        | .http route => .ok [if route.priority = 1 then 49 else 50]
        | .mcp _ => .error "unsupported"
      deRoute := fun bytes => .ok (bareRoute (if bytes = [49] then 1 else 2)) }
  hashOrder := .unchanged

/-- The gateway `edge` with a route of priority 1. -/
def edgeRouteDir (routeName : String) : Disk :=
  dirOf
    [(["config.json"], braces), (["gateway", "edge", "config.json"], braces),
      (["gateway", "edge", "route", routeName ++ ".json"], [49])]

def edgeConfig (routes : SortedMap String SgRoute) : Config Unit Unit where
  gateways := (∅ : SortedMap String (ConfigItem Unit)).insert "edge"
    { gateway := (), routes := routes }
  plugins := ∅
  apiPort := none
  observability := ()

theorem edge_createsRoute :
    CreatesRoute routeFs .unchanged edgeDir (edgeConfig ∅) "edge" "api" (bareRoute 2) := by
  refine (createsRoute_iff_routeCreatable routeFs .unchanged edgeDir (edgeConfig ∅) rfl "edge"
    "api" (bareRoute 2)).1.mpr ?_
  intro item hi
  cases hi
  exact ⟨_, rfl, rfl⟩

/-- A route that is there is overwritten, and a gateway with a route of its own name gets no
other routes. -/
theorem edge_not_createsRoute :
    (runCreateRoute routeFs .unchanged (edgeRouteDir "api") "edge" "api" (bareRoute 2)).1.toOption =
        some (edgeConfig ((∅ : SortedMap String SgRoute).insert "api" (bareRoute 1))) ∧
      readConfig routeFs .unchanged
          (runCreateRoute routeFs .unchanged (edgeRouteDir "api") "edge" "api" (bareRoute 2)).2 =
        .ok (edgeConfig ((∅ : SortedMap String SgRoute).insert "api" (bareRoute 2))) ∧
      runCreateRoute routeFs .unchanged (edgeRouteDir "edge") "edge" "api" (bareRoute 2) =
        (.error (.refused "route existed"), edgeRouteDir "edge") ∧
      ¬ CreatesRoute routeFs .unchanged (edgeRouteDir "api")
        (edgeConfig ((∅ : SortedMap String SgRoute).insert "api" (bareRoute 1))) "edge" "api"
        (bareRoute 2) := by
  refine ⟨rfl, rfl, rfl, ?_⟩
  intro h
  obtain ⟨item, hi, hn⟩ := h.ok_iff.mp ⟨_, rfl⟩
  cases hi
  cases hn

end Fs
end Spacegate.Config
