import Spacegate.Config.K8sGatewayWatch
import Spacegate.Foundation.Trace

/-!
# The route watchers

Three tasks follow the HTTPSpaceroute, HTTPRoute and MCPRoute objects and send a route
report for what has changed.  They remember objects by their uids, as the gateway
watcher does, but only those that carry a name of the first configuration.

A report names one gateway, that of the first parent reference in the watched
namespace.  A route is attached to the gateways that the retrieval of the configuration
finds for it, which may be several or others.
-/

namespace Spacegate.Config.Watch

open Foundation.Trace AList List Function

/-- The fields of a parent reference that are read. -/
structure ParentReference where
  ns : Option String
  name : String
  deriving DecidableEq, Repr

/-- What the watchers and the retrieval read of an object of one of the three kinds. -/
structure Route where
  metadata : ObjectMeta
  ns : Option String
  parentRefs : Option (List ParentReference)
  deriving DecidableEq, Repr

def defaultNamespace : String := "default"

namespace Route

variable (route : Route)

/-- `get_gateway_name`, the same for all three kinds. -/
def getGatewayName (ns : String) : String :=
  let isHere := fun parentRef : ParentReference =>
    parentRef.ns == some ns || (ns == defaultNamespace && parentRef.ns.isNone)
  ((route.parentRefs.map fun parentRefs =>
    ((parentRefs.filter isHere).map (·.name)).head?).getD none).getD ""

/-- The test by which `retrieve_config_item_route_names` finds the routes of a gateway. -/
def attachedTo (gateway : String) : Bool :=
  (route.parentRefs.map fun parentRefs =>
    parentRefs.any fun parentRef =>
      parentRef.ns == route.ns && parentRef.name == gateway).getD false

end Route

inductive RouteKind where
  | httpSpaceroute
  | httpRoute
  | mcpRoute
  deriving DecidableEq, Repr

/-- What the three route tasks are started with. -/
structure RouteWatcher where
  routeNames : List String
  ns : String
  order : IterationOrder

namespace RouteWatcher

variable (w : RouteWatcher)

/-- The report that a route has changed. -/
def report (route : Route) : ConfigEvent :=
  (.route (route.getGatewayName w.ns) route.metadata.name, .delete)

/-- The test for objects that the first configuration already has. -/
def ignores (versions : VersionMap) (route : Route) : Bool :=
  w.routeNames.contains route.metadata.name && (versions.lookup route.metadata.uid).isNone

/-- `apply_event`.  A reported object is not remembered. -/
def applyEvent (route : Route) (versions : VersionMap) : VersionMap × List ConfigEvent :=
  if w.ignores versions route then
    -- ignore existing obj
    (versions.insert route.metadata.uid route.metadata, [])
  else if versions.lookup route.metadata.uid = some route.metadata then
    -- ignore same version obj
    (versions, [])
  else
    (versions, [w.report route])

def applyAll : List Route → VersionMap → VersionMap × List ConfigEvent
  | [], versions => (versions, [])
  | route :: routes, versions =>
    let applied := w.applyEvent route versions
    let rest := applyAll routes applied.1
    (rest.1, applied.2 ++ rest.2)

/-- The copy of the old map without the objects of the list. -/
def forgetAll (routes : List Route) (old : VersionMap) : VersionMap :=
  routes.foldl (fun old route => old.erase route.metadata.uid) old

/-- `process_http_spaceroute_event`.  What a restart no longer lists is reported as a
gateway. -/
def processHttpSpacerouteEvent (versions : VersionMap) :
    Event Route → VersionMap × List ConfigEvent
  | .applied route => w.applyEvent route versions
  | .deleted route => (versions.erase route.metadata.uid, [w.report route])
  | .restarted routes =>
    let applied := w.applyAll routes ∅
    (applied.1, applied.2 ++
      (w.order.iter ((forgetAll routes versions).entries.map (·.2))).map fun m =>
        (.gateway m.name, .delete))

/-- `process_mcp_route_event`.  A restart does not look for what is no longer listed. -/
def processMcpRouteEvent (versions : VersionMap) : Event Route → VersionMap × List ConfigEvent
  | .applied route => w.applyEvent route versions
  | .deleted route => (versions.erase route.metadata.uid, [w.report route])
  | .restarted routes => w.applyAll routes versions

/-- What the loop of each kind calls; the HTTPRoute loop turns its objects into
HTTPSpaceroutes first, which keeps all that is read here. -/
def processEvent : RouteKind → VersionMap → Event Route → VersionMap × List ConfigEvent
  | .httpSpaceroute => w.processHttpSpacerouteEvent
  | .httpRoute => w.processHttpSpacerouteEvent
  | .mcpRoute => w.processMcpRouteEvent

end RouteWatcher

/-! ## What a task does with one item -/

/-- The map that a restart starts from. -/
def RouteKind.restartMap : RouteKind → VersionMap → VersionMap
  | .mcpRoute, versions => versions
  | _, _ => ∅

namespace RouteWatcher

variable {w : RouteWatcher} {versions : VersionMap} {route : Route} {routes : List Route}

/-- The object leads to a report. -/
def Reports (w : RouteWatcher) (versions : VersionMap) (route : Route) : Prop :=
  w.ignores versions route = false ∧ versions.lookup route.metadata.uid ≠ some route.metadata

theorem mem_applyEvent {e : ConfigEvent} :
    e ∈ (w.applyEvent route versions).2 ↔ w.Reports versions route ∧ e = w.report route := by
  unfold applyEvent Reports
  split_ifs with hi hs
  · simp [hi]
  · simp [hs]
  · simp [hi, hs]

variable {uid name : String} {m : ObjectMeta}

theorem lookup_applyEvent_ne (h : uid ≠ route.metadata.uid) :
    (w.applyEvent route versions).1.lookup uid = versions.lookup uid := by
  unfold applyEvent
  split_ifs with hi hs
  · exact lookup_insert_ne h
  · rfl
  · rfl

theorem lookup_applyEvent (h : (w.applyEvent route versions).1.lookup uid = some m) :
    versions.lookup uid = some m ∨ m = route.metadata := by
  unfold applyEvent at h
  split_ifs at h with hi hs
  · by_cases hUid : uid = route.metadata.uid
    · subst hUid
      rw [lookup_insert] at h
      exact .inr (Option.some.inj h).symm
    · rw [lookup_insert_ne hUid] at h
      exact .inl h
  · exact .inl h
  · exact .inl h

theorem lookup_applyAll (h : (w.applyAll routes versions).1.lookup uid = some m) :
    versions.lookup uid = some m ∨ m ∈ routes.map (·.metadata) := by
  induction routes generalizing versions with
  | nil => exact .inl h
  | cons route routes ih =>
    rcases ih h with ha | hr
    · rcases lookup_applyEvent ha with hOld | hNew
      · exact .inl hOld
      · exact .inr (mem_cons.mpr (.inl hNew))
    · exact .inr (mem_cons_of_mem _ hr)

theorem reports_congr {versions' : VersionMap}
    (h : versions'.lookup route.metadata.uid = versions.lookup route.metadata.uid) :
    w.Reports versions' route ↔ w.Reports versions route := by
  unfold Reports ignores
  rw [h]

theorem mem_applyAll {e : ConfigEvent} (hu : (routes.map (·.metadata.uid)).Nodup) :
    e ∈ (w.applyAll routes versions).2 ↔
      ∃ route ∈ routes, w.Reports versions route ∧ e = w.report route := by
  induction routes generalizing versions with
  | nil => simp [applyAll]
  | cons route routes ih =>
    obtain ⟨hUid, hu⟩ := nodup_cons.mp hu
    -- the later objects have other uids, so the first one does not touch their entries
    have hs : ∀ other ∈ routes,
        (w.Reports (w.applyEvent route versions).1 other ↔ w.Reports versions other) := by
      intro other ho
      apply reports_congr
      apply lookup_applyEvent_ne
      intro hEq
      exact hUid (mem_map.mpr ⟨other, ho, hEq⟩)
    simp only [applyAll, mem_append, mem_applyEvent, ih hu, mem_cons, exists_eq_or_imp]
    apply or_congr_right
    constructor
    · rintro ⟨other, ho, hr, rfl⟩
      exact ⟨other, ho, (hs other ho).mp hr, rfl⟩
    · rintro ⟨other, ho, hr, rfl⟩
      exact ⟨other, ho, (hs other ho).mpr hr, rfl⟩

theorem lookup_forgetAll : (forgetAll routes versions).lookup uid = some m ↔
      versions.lookup uid = some m ∧ uid ∉ routes.map (·.metadata.uid) := by
  induction routes generalizing versions with
  | nil => simp [forgetAll]
  | cons route routes ih =>
    have hs : forgetAll (route :: routes) versions =
        forgetAll routes (versions.erase route.metadata.uid) := rfl
    rw [hs, ih]
    by_cases hUid : uid = route.metadata.uid
    · subst hUid
      simp
    · simp [lookup_erase_ne hUid, hUid]

theorem mem_entries_iff :
    m ∈ w.order.iter (versions.entries.map (·.2)) ↔ ∃ uid, versions.lookup uid = some m := by
  rw [(w.order.perm _).mem_iff, mem_map]
  constructor
  · rintro ⟨⟨uid, _⟩, he, rfl⟩
    exact ⟨uid, mem_lookup_iff.mpr he⟩
  · rintro ⟨uid, hl⟩
    exact ⟨⟨uid, m⟩, mem_lookup_iff.mp hl, rfl⟩

theorem route_mem_restarted (kind : RouteKind) {gateway : String} {type : ConfigEventType}
    (hu : (routes.map (·.metadata.uid)).Nodup) :
    (.route gateway name, type) ∈ (w.processEvent kind versions (.restarted routes)).2 ↔
      ∃ route ∈ routes, w.Reports (kind.restartMap versions) route ∧
        (.route gateway name, type) = w.report route := by
  cases kind with
  | httpSpaceroute | httpRoute =>
    simp [processEvent, processHttpSpacerouteEvent, mem_applyAll hu, RouteKind.restartMap]
  | mcpRoute => exact mem_applyAll hu

theorem gateway_mem_restarted (kind : RouteKind) {type : ConfigEventType}
    (hu : (routes.map (·.metadata.uid)).Nodup) :
    (.gateway name, type) ∈ (w.processEvent kind versions (.restarted routes)).2 ↔
      kind ≠ .mcpRoute ∧ type = .delete ∧ ∃ uid m, versions.lookup uid = some m ∧
        uid ∉ routes.map (·.metadata.uid) ∧ m.name = name := by
  have hna : ∀ versions', (.gateway name, type) ∉ (w.applyAll routes versions').2 := by
    intro versions' hMem
    obtain ⟨route, -, -, hEq⟩ := (mem_applyAll hu).mp hMem
    cases hEq
  -- the two HTTP kinds send what is left of the old map
  have hh : (.gateway name, type) ∈
      (w.processHttpSpacerouteEvent versions (.restarted routes)).2 ↔
      type = .delete ∧ ∃ uid m, versions.lookup uid = some m ∧
        uid ∉ routes.map (·.metadata.uid) ∧ m.name = name := by
    simp only [processHttpSpacerouteEvent, mem_append, hna, false_or,
      mem_map, mem_entries_iff, lookup_forgetAll, Prod.mk.injEq,
      ConfigType.gateway.injEq]
    constructor
    · rintro ⟨m, ⟨uid, hl, hUid⟩, hn, rfl⟩
      exact ⟨rfl, uid, m, hl, hUid, hn⟩
    · rintro ⟨rfl, uid, m, hl, hUid, hn⟩
      exact ⟨m, ⟨uid, hl, hUid⟩, hn, rfl⟩
  cases kind with
  | httpSpaceroute | httpRoute =>
    rw [and_iff_right (by decide)]
    exact hh
  | mcpRoute =>
    constructor
    · intro hMem
      exact absurd hMem (hna versions)
    · rintro ⟨hk, -⟩
      exact absurd rfl hk

end RouteWatcher

/-! ## Runs of the three tasks -/

/-- The objects of one kind by name. -/
abbrev Routes := String → Option Route

/-- The objects as they are known after an item of the stream. -/
def Event.observe (seen : Routes) : Event Route → Routes
  | .applied route => update seen route.metadata.name (some route)
  | .deleted route => update seen route.metadata.name none
  | .restarted routes => fun name => routes.find? (·.metadata.name == name)

def Event.objects : Event Route → List Route
  | .applied route | .deleted route => [route]
  | .restarted routes => routes

/-- A task together with what its stream has shown so far. -/
structure RouteTask where
  seen : Routes
  /-- The metadata of every object that was ever shown. -/
  shown : List ObjectMeta
  versions : VersionMap

/-- The stream of one kind shows that the route `name` has been created, modified or
removed, and the route is attached to `gateway` before or after that. -/
def Concerns (seen : Routes) (event : Event Route) (name gateway : String) : Prop :=
  seen name ≠ event.observe seen name ∧
    ((seen name).any (·.attachedTo gateway) = true ∨
      (event.observe seen name).any (·.attachedTo gateway) = true)

/-- What the API server guarantees: every change gives an object a new version, and the
objects of a list have their own names and uids. -/
def ValidItem (task : RouteTask) : Event Route → Prop
  | .applied route => task.seen route.metadata.name = some route ∨ route.metadata ∉ task.shown
  | .deleted _ => True
  | .restarted routes =>
    (routes.map (·.metadata.name)).Nodup ∧ (routes.map (·.metadata.uid)).Nodup ∧
      ∀ route ∈ routes, task.seen route.metadata.name = some route ∨ route.metadata ∉ task.shown

namespace RouteWatcher

variable (w : RouteWatcher)

def stepTask (kind : RouteKind) (task : RouteTask) (event : Event Route) : RouteTask where
  seen := event.observe task.seen
  shown := event.objects.map (·.metadata) ++ task.shown
  versions := (w.processEvent kind task.versions event).1

/-- One of the tasks takes an item of its stream. -/
def step (tasks : RouteKind → RouteTask) (item : RouteKind × Event Route) : RouteKind → RouteTask :=
  update tasks item.1 (w.stepTask item.1 (tasks item.1) item.2)

/-- Every change that the item shows is told to all gateways it concerns, and nothing is
said about a gateway itself. -/
structure Informs (kind : RouteKind) (task : RouteTask) (event : Event Route) : Prop where
  told : ∀ name gateway, Concerns task.seen event name gateway →
    ∃ type, (.route gateway name, type) ∈ (w.processEvent kind task.versions event).2
  noGateway : ∀ name type,
    (.gateway name, type) ∉ (w.processEvent kind task.versions event).2

/-- The items that the tasks handle: a changed route is attached to no other gateway than
that of its first parent reference, before and after the change, and it is not taken
for one of the first configuration; a restart lists all that was there. -/
def Calm (kind : RouteKind) (task : RouteTask) : Event Route → Prop
  | .applied route => ∀ gateway,
      Concerns task.seen (.applied route) route.metadata.name gateway →
        gateway = route.getGatewayName w.ns ∧ w.ignores task.versions route = false
  | .deleted route => ∀ gateway,
      Concerns task.seen (.deleted route) route.metadata.name gateway →
        gateway = route.getGatewayName w.ns
  | .restarted routes =>
    (∀ name gateway, Concerns task.seen (.restarted routes) name gateway →
      ∃ route ∈ routes, route.metadata.name = name ∧ gateway = route.getGatewayName w.ns ∧
        w.ignores (kind.restartMap task.versions) route = false) ∧
    (kind ≠ .mcpRoute → ∀ uid m, task.versions.lookup uid = some m →
      uid ∈ routes.map (·.metadata.uid))

end RouteWatcher

/-- Only objects that were shown are remembered. -/
def RouteTask.Sound (task : RouteTask) : Prop :=
  ∀ uid m, task.versions.lookup uid = some m → m ∈ task.shown

namespace RouteWatcher

variable {w : RouteWatcher} {kind : RouteKind} {task : RouteTask}

theorem processEvent_applied (route : Route) (versions : VersionMap) :
    w.processEvent kind versions (.applied route) = w.applyEvent route versions := by
  cases kind <;> rfl

theorem processEvent_deleted (route : Route) (versions : VersionMap) :
    w.processEvent kind versions (.deleted route) =
      (versions.erase route.metadata.uid, [w.report route]) := by
  cases kind <;> rfl

theorem processEvent_restarted_fst (routes : List Route) (versions : VersionMap) :
    (w.processEvent kind versions (.restarted routes)).1 =
      (w.applyAll routes (kind.restartMap versions)).1 := by
  cases kind <;> rfl

theorem lookup_restartMap {versions : VersionMap} {uid : String} {m : ObjectMeta}
    (h : (kind.restartMap versions).lookup uid = some m) : versions.lookup uid = some m := by
  cases kind with
  | httpSpaceroute | httpRoute => simp [RouteKind.restartMap] at h
  | mcpRoute => exact h

theorem sound_stepTask (h : task.Sound) (event : Event Route) :
    (w.stepTask kind task event).Sound := by
  intro uid m hl
  simp only [stepTask] at hl ⊢
  rw [mem_append]
  cases event with
  | applied route =>
    rw [processEvent_applied] at hl
    rcases lookup_applyEvent hl with hOld | rfl
    · exact .inr (h uid m hOld)
    · exact .inl (mem_singleton_self _)
  | deleted route =>
    rw [processEvent_deleted] at hl
    by_cases hUid : uid = route.metadata.uid
    · subst hUid
      simp at hl
    · rw [lookup_erase_ne hUid] at hl
      exact .inr (h uid m hl)
  | restarted routes =>
    rw [processEvent_restarted_fst] at hl
    rcases lookup_applyAll hl with hOld | hNew
    · exact .inr (h uid m (lookup_restartMap hOld))
    · exact .inl hNew

variable {route : Route}

theorem reports_iff_of_changed {versions : VersionMap} (hs : task.Sound)
    (hv : ∀ uid m, versions.lookup uid = some m → task.versions.lookup uid = some m)
    (hValid : task.seen route.metadata.name = some route ∨ route.metadata ∉ task.shown)
    (hc : task.seen route.metadata.name ≠ some route) :
    w.Reports versions route ↔ w.ignores versions route = false := by
  have hNew := hValid.resolve_left hc
  apply and_iff_left
  intro hSame
  exact hNew (hs _ _ (hv _ _ hSame))

theorem eq_report_iff {gateway name : String} {type : ConfigEventType} :
    (.route gateway name, type) = w.report route ↔
      gateway = route.getGatewayName w.ns ∧ name = route.metadata.name ∧ type = .delete := by
  simp [report, and_assoc]

theorem informs_applied_iff (hs : task.Sound) (hv : ValidItem task (.applied route)) :
    w.Informs kind task (.applied route) ↔ w.Calm kind task (.applied route) := by
  have hr : ∀ gateway, Concerns task.seen (.applied route) route.metadata.name gateway →
      (w.Reports task.versions route ↔ w.ignores task.versions route = false) := by
    intro gateway hc
    apply reports_iff_of_changed hs (fun _ _ h => h) hv
    simpa [Event.observe] using hc.1
  constructor
  · intro h gateway hc
    obtain ⟨type, hMem⟩ := h.told _ _ hc
    rw [processEvent_applied, mem_applyEvent, eq_report_iff] at hMem
    exact ⟨hMem.2.1, hMem.1.1⟩
  · intro h
    constructor
    · intro name gateway hc
      have hn : name = route.metadata.name := by
        by_contra hn
        exact hc.1 (update_of_ne hn _ _).symm
      subst hn
      obtain ⟨hg, hi⟩ := h gateway hc
      refine ⟨.delete, ?_⟩
      rw [processEvent_applied, mem_applyEvent, eq_report_iff]
      exact ⟨(hr gateway hc).mpr hi, hg, rfl, rfl⟩
    · intro name type hMem
      rw [processEvent_applied, mem_applyEvent] at hMem
      cases hMem.2

theorem informs_deleted_iff :
    w.Informs kind task (.deleted route) ↔ w.Calm kind task (.deleted route) := by
  constructor
  · intro h gateway hc
    obtain ⟨type, hMem⟩ := h.told _ _ hc
    rw [processEvent_deleted, mem_singleton, eq_report_iff] at hMem
    exact hMem.1
  · intro h
    constructor
    · intro name gateway hc
      have hn : name = route.metadata.name := by
        by_contra hn
        exact hc.1 (update_of_ne hn _ _).symm
      subst hn
      refine ⟨.delete, ?_⟩
      rw [processEvent_deleted, mem_singleton, eq_report_iff]
      exact ⟨h gateway hc, rfl, rfl⟩
    · intro name type hMem
      rw [processEvent_deleted, mem_singleton] at hMem
      cases hMem

theorem informs_restarted_iff {routes : List Route} (hSound : task.Sound)
    (hv : ValidItem task (.restarted routes)) :
    w.Informs kind task (.restarted routes) ↔ w.Calm kind task (.restarted routes) := by
  obtain ⟨hn, hu, hf⟩ := hv
  constructor
  · intro h
    constructor
    · intro name gateway hc
      obtain ⟨type, hMem⟩ := h.told _ _ hc
      obtain ⟨route, hr, hReports, hEq⟩ := (route_mem_restarted kind hu).mp hMem
      obtain ⟨hg, hName, -⟩ := eq_report_iff.mp hEq
      exact ⟨route, hr, hName.symm, hg, hReports.1⟩
    · intro hk uid m hl
      by_contra hUid
      exact h.noGateway m.name .delete
        ((gateway_mem_restarted kind hu).mpr ⟨hk, rfl, uid, m, hl, hUid, rfl⟩)
  · rintro ⟨ht, hListed⟩
    constructor
    · intro name gateway hc
      obtain ⟨route, hr, rfl, hg, hi⟩ := ht name gateway hc
      have hChanged : task.seen route.metadata.name ≠ some route := by
        have hs := hc.1
        simp only [Event.observe] at hs
        rwa [Foundation.find?_key_eq_some hn hr] at hs
      have hReports : w.Reports (kind.restartMap task.versions) route :=
        (reports_iff_of_changed hSound (fun _ _ => lookup_restartMap) (hf route hr) hChanged).mpr hi
      exact ⟨.delete, (route_mem_restarted kind hu).mpr
        ⟨route, hr, hReports, eq_report_iff.mpr ⟨hg, rfl, rfl⟩⟩⟩
    · intro name type hMem
      obtain ⟨hk, -, uid, m, hl, hUid, -⟩ := (gateway_mem_restarted kind hu).mp hMem
      exact hUid (hListed hk uid m hl)

theorem informs_iff (hs : task.Sound) {event : Event Route}
    (hv : ValidItem task event) : w.Informs kind task event ↔ w.Calm kind task event := by
  cases event with
  | applied route => exact informs_applied_iff hs hv
  | deleted route => exact informs_deleted_iff
  | restarted routes => exact informs_restarted_iff hs hv

theorem sound_step {tasks : RouteKind → RouteTask} (h : ∀ kind, (tasks kind).Sound)
    (item : RouteKind × Event Route) (kind : RouteKind) : (w.step tasks item kind).Sound := by
  unfold step
  by_cases hk : kind = item.1
  · subst hk
    rw [update_self]
    exact sound_stepTask (h item.1) item.2
  · rw [update_of_ne hk]
    exact h kind

end RouteWatcher

/-- The items of the three streams, in the order in which the tasks take them. -/
abbrev RouteRun := List (RouteKind × Event Route)

namespace RouteWatcher

variable (w : RouteWatcher) (tasks : RouteKind → RouteTask) (run : RouteRun)

/-- The streams follow the API server. -/
def ValidRun : Prop :=
  Along w.step (fun tasks item => ValidItem (tasks item.1) item.2) tasks run

def InformsAlong : Prop :=
  Along w.step (fun tasks item => w.Informs item.1 (tasks item.1) item.2) tasks run

def CalmAlong : Prop :=
  Along w.step (fun tasks item => w.Calm item.1 (tasks item.1) item.2) tasks run

variable {w}

/-- The tasks tell every gateway of every change of its routes, and speak of routes only,
exactly in the runs whose items are all calm. -/
theorem informsAlong_iff_calmAlong {tasks : RouteKind → RouteTask} {run : RouteRun}
    (hStart : ∀ kind, (tasks kind).versions = ∅) (hValid : w.ValidRun tasks run) :
    w.InformsAlong tasks run ↔ w.CalmAlong tasks run := by
  have hs : ∀ kind, (tasks kind).Sound := by
    intro kind uid m hl
    rw [hStart kind] at hl
    simp at hl
  apply along_iff_of_inv (fun tasks => ∀ kind, (tasks kind).Sound) _ _ hs hValid
  · intro tasks item h _
    exact sound_step h item
  · intro tasks item h hi
    exact informs_iff (h item.1) hi

end RouteWatcher

/-! ## Runs with one configured route -/

def routeObject (name uid resourceVersion : String) (gateways : List String) : Route where
  metadata := { name := name, uid := uid, resourceVersion := resourceVersion }
  ns := some "default"
  parentRefs := some (gateways.map fun gateway => { ns := some "default", name := gateway })

/-- The configured route `api` of the gateway `gw`. -/
def apiRoute (resourceVersion : String) : Route :=
  routeObject "api" "u1" resourceVersion ["gw"]

def routeWatcher : RouteWatcher where
  routeNames := ["api"]
  ns := "default"
  order := { iter := id, perm := fun xs => List.Perm.refl xs }

/-- The configuration was read, with `api` as its only route. -/
def routeStart : RouteKind → RouteTask
  | .httpSpaceroute =>
    { seen := fun name => if name = "api" then some (apiRoute "1") else none
      shown := [(apiRoute "1").metadata]
      versions := ∅ }
  | _ => { seen := fun _ => none, shown := [], versions := ∅ }

theorem routeStart_versions (kind : RouteKind) : (routeStart kind).versions = ∅ := by
  cases kind <;> rfl

/-- The route is listed, modified and deleted. -/
def apiModified : RouteRun :=
  [(.httpSpaceroute, .restarted [apiRoute "1"]), (.httpSpaceroute, .applied (apiRoute "2")),
    (.httpSpaceroute, .deleted (apiRoute "2"))]

theorem apiModified_valid : routeWatcher.ValidRun routeStart apiModified := by
  refine ⟨⟨by decide, by decide, ?_⟩, .inr (by decide), trivial, trivial⟩
  intro route hr
  rw [mem_singleton] at hr
  subst hr
  exact .inl rfl

theorem apiRoute_attachedTo {resourceVersion gateway : String}
    (h : (apiRoute resourceVersion).attachedTo gateway = true) : gateway = "gw" := by
  have hg : "gw" = gateway := by
    simpa [apiRoute, routeObject, Route.attachedTo] using h
  exact hg.symm

theorem apiModified_calm : routeWatcher.CalmAlong routeStart apiModified := by
  refine ⟨⟨?_, ?_⟩, ?_, ?_, trivial⟩
  · -- the first list shows what the configuration has
    intro name gateway hc
    refine absurd ?_ hc.1
    by_cases hn : name = "api"
    · subst hn
      rfl
    · have hNe : "api" ≠ name := fun h => hn h.symm
      simp [routeStart, Event.observe, apiRoute, routeObject, hn, hNe]
  · intro _ uid m hl
    simp [routeStart] at hl
  · rintro gateway ⟨-, hb | ha⟩
    · exact ⟨apiRoute_attachedTo hb, by decide⟩
    · exact ⟨apiRoute_attachedTo ha, by decide⟩
  · rintro gateway ⟨-, hb | ha⟩
    · exact apiRoute_attachedTo hb
    · cases ha

theorem apiModified_informs :
    routeWatcher.ValidRun routeStart apiModified ∧
      routeWatcher.InformsAlong routeStart apiModified :=
  ⟨apiModified_valid,
    (RouteWatcher.informsAlong_iff_calmAlong routeStart_versions apiModified_valid).mpr
      apiModified_calm⟩

/-- The route is listed, and a restart lists it no longer. -/
def apiVanished : RouteRun :=
  [(.httpSpaceroute, .restarted [apiRoute "1"]), (.httpSpaceroute, .restarted [])]

/-- An MCPRoute with two gateways is created. -/
def mcpTwoGateways : RouteRun :=
  [(.mcpRoute, .restarted []), (.mcpRoute, .applied (routeObject "mcp" "u2" "2" ["gw", "gw2"]))]

theorem apiVanished_mcpTwoGateways_not_informs :
    (routeWatcher.ValidRun routeStart apiVanished ∧
      ¬ routeWatcher.InformsAlong routeStart apiVanished) ∧
    (routeWatcher.ValidRun routeStart mcpTwoGateways ∧
      ¬ routeWatcher.InformsAlong routeStart mcpTwoGateways) := by
  refine ⟨⟨⟨⟨by decide, by decide, ?_⟩, ⟨by decide, by decide, ?_⟩, trivial⟩, ?_⟩,
    ⟨⟨⟨by decide, by decide, ?_⟩, .inr (by decide), trivial⟩, ?_⟩⟩
  · intro route hr
    rw [mem_singleton] at hr
    subst hr
    exact .inl rfl
  · intro route hr
    cases hr
  · -- the route is reported as a gateway
    intro h
    exact h.2.1.noGateway "api" .delete (by decide)
  · intro route hr
    cases hr
  · -- only the first gateway is told
    intro h
    obtain ⟨type, hMem⟩ := h.2.1.told "mcp" "gw2" ⟨by decide, .inr (by decide)⟩
    revert hMem
    cases type <;> decide

end Spacegate.Config.Watch
