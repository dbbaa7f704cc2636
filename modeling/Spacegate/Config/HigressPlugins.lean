import Mathlib.Data.List.Sort
import Mathlib.Data.Prod.Lex
import Mathlib.Data.String.Basic
import Spacegate.Model.Route

/-!
# Plugins from Higress WasmPlugin objects

A WasmPlugin object binds its default instance to gateways, and an instance for each of its match
rules to the routes and backends that the rule selects.  The objects are sorted by phase, falling
priority and name.
-/

namespace Spacegate.Config.Higress

open Foundation.Text
open Model

/-- `HigressWasmPluginMatchRule` without its configuration. -/
structure MatchRule where
  ingress : List String
  domain : List String
  service : List String
  configDisable : Bool
  deriving DecidableEq, Repr

/-- A WasmPlugin object, as far as it says where its instances are bound. -/
structure WasmPlugin where
  name : String
  phase : Option String
  priority : Option Int32
  defaultConfigDisable : Bool
  matchRules : List MatchRule
  deriving DecidableEq, Repr

/-! ## The order of the objects -/

/-- `str::to_ascii_uppercase`. -/
def toAsciiUppercase (s : String) : String :=
  s.map Char.toUpper

/-- `phase_rank`. -/
def phaseRank (phase : Option String) : ℕ :=
  let phase := toAsciiUppercase (trim (phase.getD ""))
  if phase = "AUTHN" then 10
  else if phase = "AUTHZ" then 20
  else if phase = "STATS" then 90
  else 50

namespace WasmPlugin

def phaseOrder (plugin : WasmPlugin) : ℕ :=
  phaseRank plugin.phase

def priorityOrder (plugin : WasmPlugin) : Int32 :=
  plugin.priority.getD 0

/-- The comparison of `sort_higress_wasm_plugins`: by phase, then by falling priority, then by
name. -/
def ComesBefore (a b : WasmPlugin) : Prop :=
  a.phaseOrder < b.phaseOrder ∨
    a.phaseOrder = b.phaseOrder ∧
      (b.priorityOrder < a.priorityOrder ∨ b.priorityOrder = a.priorityOrder ∧ a.name < b.name)

instance (a b : WasmPlugin) : Decidable (ComesBefore a b) :=
  inferInstanceAs (Decidable (_ ∨ _ ∧ (_ ∨ _ ∧ _)))

end WasmPlugin

/-- `sort_higress_wasm_plugins`. -/
def sortHigressWasmPlugins (plugins : List WasmPlugin) : List WasmPlugin :=
  plugins.insertionSort fun a b => ¬ b.ComesBefore a

/-! ## What the objects bind -/

def toSpacegatePluginId (plugin : WasmPlugin) : PluginInstanceId where
  code := "wasm"
  name := .named ("higress-" ++ plugin.name)

def toSpacegateRulePluginId (plugin : WasmPlugin) (ruleIndex : ℕ) : PluginInstanceId where
  code := "wasm"
  name := .named ("higress-" ++ plugin.name ++ "-rule-" ++ toString ruleIndex)

end Spacegate.Config.Higress
