import Spacegate.Config.K8sFilterWatch
import Spacegate.Foundation.TryStream

/-!
# The watch tasks of the listener

The listener starts six tasks.  Each of them is a loop over the stream of a `kube`
watcher, which goes on after an error: it lists the objects again and resumes.  The
loops do not, since they cannot tell an error from the end of the stream.
-/

namespace Spacegate.Config.Watch

open Foundation.TryStream

inductive WatchTask where
  | gateway
  | httpSpaceroute
  | httpRoute
  | mcpRoute
  | sgFilter
  | wasmPlugin
  deriving DecidableEq, Repr

/-- What the stream of a task is made of; that of the SgFilter task is reduced to the
touched objects. -/
def WatchTask.Item : WatchTask → Type
  | .gateway => Event Gateway
  | .httpSpaceroute | .httpRoute | .mcpRoute => Event Route
  | .sgFilter => TouchedFilter
  | .wasmPlugin => Event WasmPlugin

def WatchTask.State : WatchTask → Type
  | .sgFilter => FilterState
  | _ => VersionMap

/-- All maps are empty. -/
def WatchTask.start : (task : WatchTask) → task.State
  | .sgFilter => ({ versions := ∅, digests := ∅, targets := ∅ } : FilterState)
  | .gateway | .httpSpaceroute | .httpRoute | .mcpRoute | .wasmPlugin => (∅ : VersionMap)

/-- What `create_listener` starts the tasks with. -/
structure Listener where
  gateways : GatewayWatcher
  routes : RouteWatcher
  filters : FilterWatcher

/-- A round of a task that only sends reports. -/
def reporting {σ : Type} (processed : σ × List ConfigEvent) : σ × List Effect :=
  (processed.1, processed.2.map .report)

namespace Listener

variable (l : Listener) {ε : Type}

/-- The bodies of the six loops. -/
def body : (task : WatchTask) → task.State → task.Item → task.State × List Effect
  | .gateway => fun versions event => reporting (l.gateways.processEvent versions event)
  | .httpSpaceroute => fun versions event =>
    reporting (l.routes.processEvent .httpSpaceroute versions event)
  | .httpRoute => fun versions event =>
    reporting (l.routes.processEvent .httpRoute versions event)
  | .mcpRoute => fun versions event =>
    reporting (l.routes.processEvent .mcpRoute versions event)
  | .sgFilter => fun s touched => reporting (l.filters.process s touched)
  | .wasmPlugin => processWasmPlugin

/-- A task on the items of its stream: the maps at the end, and every handled item with
what was done for it. -/
def watch (task : WatchTask) (items : List (Except ε task.Item)) :
    task.State × List (task.Item × List Effect) :=
  tryLoop (l.body task) task.start items

/-- Every task handles a stream as if the errors were not there, exactly if nothing but
errors follows the first error. -/
theorem watch_eq_withoutErrors_iff (task : WatchTask) (items : List (Except ε task.Item)) :
    l.watch task items = l.watch task (withoutErrors items) ↔ ErrorsLast items :=
  tryLoop_eq_withoutErrors_iff task.start items

end Listener

/-- A listener for an empty first configuration. -/
def emptyListener : Listener where
  gateways :=
    { gatewayNames := []
      gatewayClassName := "spacegate"
      order := { iter := id, perm := fun xs => List.Perm.refl xs } }
  routes :=
    { routeNames := []
      ns := "default"
      order := { iter := id, perm := fun xs => List.Perm.refl xs } }
  filters :=
    { filterCodesNames := []
      ns := "default"
      digest := fun _ => 0
      order := { iter := id, perm := fun xs => List.Perm.refl xs } }

/-- The first list is empty, the watch fails once, and the next list has a gateway. -/
def failedOnce : List (Except String (Event Gateway)) :=
  [.ok (.restarted []), .error "connection reset",
    .ok (.restarted [{ metadata := { name := "gw", uid := "u1", resourceVersion := "1" },
                       gatewayClassName := "spacegate" }])]

theorem failedOnce_not_handled :
    ((emptyListener.watch .gateway failedOnce).2.flatMap (·.2) = [] ∧
      (emptyListener.watch .gateway (withoutErrors failedOnce)).2.flatMap (·.2) =
        [.report (.gateway "gw", .update)]) ∧
    emptyListener.watch .gateway failedOnce ≠
      emptyListener.watch .gateway (withoutErrors failedOnce) := by
  have hl : (emptyListener.watch .gateway failedOnce).2.flatMap (·.2) = [] := by decide
  have hs : (emptyListener.watch .gateway (withoutErrors failedOnce)).2.flatMap (·.2) =
      [.report (.gateway "gw", .update)] := by
    decide
  refine ⟨⟨hl, hs⟩, ?_⟩
  intro h
  rw [← h] at hs
  cases hs

end Spacegate.Config.Watch
