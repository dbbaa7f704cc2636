import Spacegate.Config.HigressPlugins
import Spacegate.Config.K8sRouteWatch

/-!
# The SgFilter and WasmPlugin watchers

An SgFilter object holds plugin instances and the gateways and routes they are bound to.
Its task reports the plugins of a touched object and, if the targets have changed, the
targets that were added or removed.  The targets are compared by a digest of them.

A WasmPlugin object can be bound anywhere, so its task asks for a reload of everything.
-/

namespace Spacegate.Config.Watch

open Model

/-! ## SgFilter -/

/-- `K8sSgFilterSpecFilter` without its configuration. -/
structure SgFilterSpecFilter where
  code : String
  name : Option String
  enable : Bool
  deriving DecidableEq, Repr

/-- `K8sSgFilterSpecTargetRef`. -/
structure TargetRef where
  kind : String
  name : String
  ns : Option String
  priority : Int32
  deriving DecidableEq, Repr

/-- What the equality and the hash of the source look at; the priority is not part
of it. -/
def TargetRef.key (target : TargetRef) : String × String × String :=
  (target.kind, target.name, target.ns.getD "")

structure SgFilter where
  metadata : ObjectMeta
  filters : List SgFilterSpecFilter
  targetRefs : List TargetRef
  deriving DecidableEq, Repr

/-- `PluginInstanceName: From<Option<String>>`. -/
def pluginInstanceNameOf : Option String → PluginInstanceName
  | some name => .named name
  | none => .mono

def extractFromFilter (filter : SgFilterSpecFilter) (defaultName : String) : PluginInstanceId where
  code := filter.code
  name := .named (filter.name.getD defaultName)

/-- What the API server answers for a route name while an object is handled; `none` also
stands for a failed request. -/
structure RouteAnswers where
  httpSpaceroute : String → Option Route
  httpRoute : String → Option Route

/-- A touched object and the answers that are given while it is handled. -/
structure TouchedFilter where
  filter : SgFilter
  answers : RouteAnswers

/-- The order in which a set of target references is iterated. -/
structure TargetOrder where
  iter : List TargetRef → List TargetRef
  perm : ∀ targets, (iter targets).Perm targets

/-- The three maps of the task, by the name of the object. -/
structure FilterState where
  versions : AList fun _ : String => String
  digests : AList fun _ : String => UInt64
  targets : AList fun _ : String => List TargetRef

/-- What the SgFilter task is started with; the digest is that of the standard library's
hasher over the references' keys. -/
structure FilterWatcher where
  filterCodesNames : List (String × PluginInstanceName)
  ns : String
  digest : List (String × String × String) → UInt64
  order : TargetOrder

namespace FilterWatcher

variable (w : FilterWatcher)

/-- A `HashSet` of the references: the first one of each key stays. -/
def targetSet (targets : List TargetRef) : List TargetRef :=
  targets.eraseDupsBy fun target kept => target.key == kept.key

/-- `HashSet::difference`. -/
def difference (targets others : List TargetRef) : List TargetRef :=
  w.order.iter (targets.filter fun target => !(others.map (·.key)).contains target.key)

/-- The report for one added or removed target. -/
def targetReports (answers : RouteAnswers) (target : TargetRef) : List ConfigEvent :=
  if target.kind = "Gateway" then [(.gateway target.name, .update)]
  else if target.kind = "HTTPRoute" ∨ target.kind = "HTTPSpaceroute" then
    match (answers.httpSpaceroute target.name).or (answers.httpRoute target.name) with
    | some route => [(.route (route.getGatewayName w.ns) target.name, .update)]
    | none => []
  else []

/-- One round of the loop. -/
def process (s : FilterState) (touched : TouchedFilter) : FilterState × List ConfigEvent :=
  let filter := touched.filter
  let name := filter.metadata.name
  if (filter.filters.any fun inner =>
        w.filterCodesNames.contains (inner.code, pluginInstanceNameOf inner.name)) ∧
      s.versions.lookup name = none then
    ({ s with versions := s.versions.insert name filter.metadata.resourceVersion }, [])
  else if s.versions.lookup name = some filter.metadata.resourceVersion then (s, [])
  else
    let plugins := (filter.filters.filter (·.enable)).map fun inner =>
      (.plugin (extractFromFilter inner name), .update)
    let digest := w.digest (filter.targetRefs.map (·.key))
    if s.digests.lookup name = some digest then (s, plugins)
    -- skip empty target_refs
    else if filter.targetRefs = [] ∧ s.targets.lookup name = none then (s, plugins)
    else
      let updateSet := targetSet filter.targetRefs
      let oldSet := targetSet ((s.targets.lookup name).getD [])
      let updated := w.difference updateSet oldSet ++ w.difference oldSet updateSet
      ({ s with
          digests := s.digests.insert name digest
          targets := if filter.targetRefs = [] then s.targets.erase name
            else s.targets.insert name filter.targetRefs },
        plugins ++ updated.flatMap (w.targetReports touched.answers))

end FilterWatcher

/-! ## WasmPlugin -/

/-- A WasmPlugin object with the metadata that its task compares. -/
structure WasmPlugin extends Higress.WasmPlugin where
  uid : String
  resourceVersion : String
  deriving DecidableEq, Repr

def WasmPlugin.metadata (plugin : WasmPlugin) : ObjectMeta where
  name := plugin.name
  uid := plugin.uid
  resourceVersion := plugin.resourceVersion

/-- What a watch task does to the outside: it sends a report, or it writes the status of
a WasmPlugin object. -/
inductive Effect where
  | report (event : ConfigEvent)
  | reconcileStatus (plugin : WasmPlugin)
  deriving DecidableEq, Repr

/-- One round of the WasmPlugin loop. -/
def processWasmPlugin (versions : VersionMap) : Event WasmPlugin → VersionMap × List Effect
  | .applied plugin =>
    if versions.lookup plugin.metadata.uid = some plugin.metadata then
      (versions, [.reconcileStatus plugin])
    else
      (versions.insert plugin.metadata.uid plugin.metadata,
        [.reconcileStatus plugin,
          .report (.plugin (Higress.toSpacegatePluginId plugin.toWasmPlugin), .update),
          .report (.global, .update)])
  | .deleted plugin =>
    (versions.erase plugin.metadata.uid,
      [.report (.plugin (Higress.toSpacegatePluginId plugin.toWasmPlugin), .delete),
        .report (.global, .update)])
  | .restarted plugins =>
    (plugins.foldl (fun versions plugin =>
        versions.insert plugin.metadata.uid plugin.metadata) ∅,
      plugins.map .reconcileStatus ++ [.report (.global, .update)])

end Spacegate.Config.Watch
