import Spacegate.Foundation.Trace
import Spacegate.Model.PluginId

/-!
# Plugin instances and what they run

An instance has the configuration it was created with and a pointer to a cell with the plugin's
function.  The layers that are made of the instance have the same pointer, so an update that
exchanges the function in the cell takes effect in all of them.  But the update does not touch
the configuration, and a snapshot goes on reporting the old one.
-/

namespace Spacegate.Plugin

open Foundation
open Model (PluginConfig PluginInstanceId)

variable {F : Type}

/-- `make_pf`: a plugin is built from a configuration. -/
abbrev PluginDefinition (F : Type) := PluginConfig → Except String F

structure PluginInstance where
  config : PluginConfig
  /-- The cell that `plugin_function` points to. -/
  pluginFunction : ℕ

structure PluginRepository (F : Type) where
  plugins : String → Option (PluginDefinition F)
  instances : PluginInstanceId → Option PluginInstance
  /-- What is in the cells, as far as they are in use. -/
  cells : ℕ → Option F
  /-- The next cell that was never used. -/
  unused : ℕ
  /-- The layers that were mounted, by the cells they point to. -/
  layers : List ℕ

namespace PluginRepository

variable (r : PluginRepository F) (id : PluginInstanceId)

def setInstance (inst : Option PluginInstance) : PluginRepository F :=
  { r with instances := Function.update r.instances id inst }

def setCell (cell : ℕ) (f : F) : PluginRepository F :=
  { r with cells := Function.update r.cells cell (some f) }

/-- `create_or_update_instance`.  A new instance has no hooks, so `after_create` succeeds. -/
def createOrUpdateInstance (config : PluginConfig) : Except String Unit × PluginRepository F :=
  match r.plugins config.id.code with
  | none => (.error ("[Sg.Plugin] unregistered sg plugin type " ++ config.id.code), r)
  | some makePf =>
    match makePf config with
    | .error e => (.error e, r)
    | .ok f =>
      match r.instances config.id with
      | some inst => (.ok (), r.setCell inst.pluginFunction f)
      | none =>
        (.ok (), { (r.setCell r.unused f).setInstance config.id
            (some { config := config, pluginFunction := r.unused }) with
          unused := r.unused + 1 })

/-- `remove_instance`: what is left, also where the instance's hook then fails. -/
def removeInstance : PluginRepository F :=
  r.setInstance id none

/-- `mount`: the new layer has the pointer of the instance it is made of. -/
def mount : PluginRepository F :=
  match r.plugins id.code, r.instances id with
  | some _, some inst => { r with layers := r.layers ++ [inst.pluginFunction] }
  | _, _ => r

/-- `instance_snapshot`, without the mount points. -/
def instanceSnapshot : Option PluginConfig :=
  (r.instances id).map PluginInstance.config

/-- The functions that handle the requests through the mounts of an instance. -/
def handlers : List (Option F) :=
  match r.instances id with
  | none => []
  | some inst => (r.layers.filter (· = inst.pluginFunction)).map r.cells

/-- What is done with a repository. -/
inductive Call where
  | createOrUpdate (config : PluginConfig)
  | remove (id : PluginInstanceId)
  | mount (id : PluginInstanceId)

def step : Call → PluginRepository F
  | .createOrUpdate config => (r.createOrUpdateInstance config).2
  | .remove id => r.removeInstance id
  | .mount id => r.mount id

/-- A call that succeeds leaves the instance with this configuration and the plugin that is
built from it, and one that fails leaves the instance as it was. -/
def Takes : Call → Prop
  | .createOrUpdate config =>
    match r.createOrUpdateInstance config with
    | (.ok _, r') =>
      r'.instanceSnapshot config.id = some config ∧
        ∃ makePf f, r.plugins config.id.code = some makePf ∧ makePf config = .ok f ∧
          ∀ handler ∈ r'.handlers config.id, handler = some f
    | (.error _, r') =>
      r'.instanceSnapshot config.id = r.instanceSnapshot config.id ∧
        r'.handlers config.id = r.handlers config.id
  | _ => True

/-- An instance that is there is only updated with the configuration it has, unless no plugin can
be built from the new one. -/
def KeepsConfig : Call → Prop
  | .createOrUpdate config =>
    ∀ inst makePf f, r.instances config.id = some inst →
      r.plugins config.id.code = some makePf → makePf config = .ok f → inst.config = config
  | _ => True

theorem takes_iff (call : Call) : r.Takes call ↔ r.KeepsConfig call := by
  cases call with
  | createOrUpdate config =>
    simp only [Takes, KeepsConfig, createOrUpdateInstance]
    cases hc : r.plugins config.id.code with
    | none => simp
    | some makePf =>
      cases hm : makePf config with
      | error e =>
        refine iff_of_true (by simp [hm]) ?_
        rintro inst makePf f - ⟨⟩ hf
        rw [hm] at hf
        cases hf
      | ok f =>
        cases hi : r.instances config.id with
        | none => simp [hm, instanceSnapshot, handlers, setInstance, setCell]
        | some inst =>
          -- The function is exchanged in every layer, the configuration nowhere.
          have hTakes : (∀ inst' makePf' f', some inst = some inst' →
              some makePf = some makePf' → makePf' config = .ok f' → inst'.config = config) ↔
                inst.config = config :=
            ⟨fun h => h inst makePf f rfl rfl hm, by rintro h _ _ _ ⟨⟩ - -; exact h⟩
          rw [hTakes]
          simp [hm, instanceSnapshot, handlers, setCell, hi]
  | remove id => exact Iff.rfl
  | mount id => exact Iff.rfl

theorem takesEach_iff_keepsConfig (calls : List Call) :
    Trace.Along step Takes r calls ↔ Trace.Along step KeepsConfig r calls := by
  have hs : (Takes : PluginRepository F → Call → Prop) = KeepsConfig := by
    funext r call
    exact propext (r.takes_iff call)
  rw [hs]

/-- A repository where the plugin `limit` is its own specification, with no instances. -/
def limitOnly : PluginRepository Json where
  plugins := fun code => if code = "limit" then some (fun config => .ok config.spec) else none
  instances := fun _ => none
  cells := fun _ => none
  unused := 0
  layers := []

def limitOf (value : Bool) : PluginConfig where
  id := { code := "limit", name := .named "a" }
  displayName := none
  spec := .bool value

/-- After the update the snapshot still has the configuration of the creation. -/
theorem updated_not_taken :
    ¬ Trace.Along step Takes limitOnly
      [.createOrUpdate (limitOf true), .mount (limitOf true).id,
        .createOrUpdate (limitOf false)] := by
  rintro ⟨-, -, ⟨hs, -⟩, -⟩
  simp [createOrUpdateInstance, limitOnly, limitOf, step, mount, instanceSnapshot, setInstance,
    setCell] at hs

end PluginRepository
end Spacegate.Plugin
