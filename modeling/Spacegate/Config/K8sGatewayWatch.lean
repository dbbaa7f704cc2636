import Mathlib.Data.List.AList
import Spacegate.Config.ConfigEvent
import Spacegate.Foundation.WriteHistory

/-!
# The gateway watcher

A task follows the Gateway objects of a cluster and reports what has changed.  It is
fed by the watcher of the `kube` crate: `Applied` and `Deleted` for single changes,
and `Restarted` with the full list at the start and after every interruption.

The task remembers the objects it has seen by their uids, and it is told the names of
the gateways that were configured before it started.  An object of such a name whose
uid is not known is taken for one that the configuration already has, and nothing is
reported for it.
-/

namespace Spacegate.Config.Watch

open Foundation.WriteHistory

/-- The fields of an object's metadata that a watcher looks at; the API server sets
all of them. -/
structure ObjectMeta where
  name : String
  uid : String
  resourceVersion : String
  deriving DecidableEq, Repr

/-- `watcher::Event`. -/
inductive Event (K : Type) where
  | applied (object : K)
  | deleted (object : K)
  | restarted (objects : List K)

/-- `HashMap<uid, ObjectMeta>`. -/
abbrev VersionMap := AList fun _ : String => ObjectMeta

/-- The order in which a hash map is iterated. -/
structure IterationOrder where
  iter : List ObjectMeta → List ObjectMeta
  perm : ∀ metas, (iter metas).Perm metas

structure Gateway where
  metadata : ObjectMeta
  gatewayClassName : String
  deriving DecidableEq, Repr

/-- What the gateway task is started with. -/
structure GatewayWatcher where
  gatewayNames : List String
  gatewayClassName : String
  order : IterationOrder

namespace GatewayWatcher

variable (w : GatewayWatcher)

/-- `gateway_uses_class`. -/
def usesClass (gateway : Gateway) : Bool :=
  gateway.gatewayClassName == w.gatewayClassName

/-- `apply_event`. -/
def applyEvent (gateway : Gateway) (versions : VersionMap) : VersionMap × List ConfigEvent :=
  if !w.usesClass gateway then (versions, [])
  else if w.gatewayNames.contains gateway.metadata.name ∧
      versions.lookup gateway.metadata.uid = none then
    -- ignore existing obj
    (versions.insert gateway.metadata.uid gateway.metadata, [])
  else if (versions.lookup gateway.metadata.uid).map (·.resourceVersion) =
      some gateway.metadata.resourceVersion then
    -- ignore same version obj
    (versions, [])
  else
    (versions.insert gateway.metadata.uid gateway.metadata,
      [(.gateway gateway.metadata.name, .update)])

/-- The loop over the list of a restart: the new map, what is left of the old one, and
what was sent. -/
def restartLoop : List Gateway → VersionMap → VersionMap → List ConfigEvent →
    VersionMap × VersionMap × List ConfigEvent
  | [], versions, old, sent => (versions, old, sent)
  | gateway :: gateways, versions, old, sent =>
    let applied := w.applyEvent gateway versions
    restartLoop gateways applied.1 (old.erase gateway.metadata.uid) (sent ++ applied.2)

def processEvent (versions : VersionMap) : Event Gateway → VersionMap × List ConfigEvent
  | .applied gateway => w.applyEvent gateway versions
  | .deleted gateway =>
    if !w.usesClass gateway then (versions, [])
    else (versions.erase gateway.metadata.uid, [(.gateway gateway.metadata.name, .delete)])
  | .restarted gateways =>
    let result := w.restartLoop gateways ∅ versions []
    (result.1, result.2.2 ++
      (w.order.iter (result.2.1.entries.map (·.2))).map fun m => (.gateway m.name, .delete))

end GatewayWatcher

end Spacegate.Config.Watch
