import Mathlib.Data.List.Basic
import Spacegate.Foundation.Text

/-!
# Configuration and errors of the Wasm host
-/

namespace Spacegate.PluginWasm

open Foundation

abbrev Bytes := List UInt8

/-- Errors of other libraries are their texts. -/
inductive WasmHostError where
  | fetch (message : String)
  | wasmtime (message : String)
  | instantiate (message : String)
  | abiViolation (message : String)
  | memoryOob (ptr len : Nat)
  | guestTrap (hook message : String)
  | dispatch (message : String)
  | bodyTooLarge (actual limit : Nat)
  | resourceLimit (message : String)
  | config (message : String)
  deriving DecidableEq, Repr

def WasmHostError.requiresVmRebuild : WasmHostError → Bool
  | .guestTrap _ _ | .wasmtime _ | .dispatch _ | .resourceLimit _ => true
  | _ => false

/-- The limits that the host itself looks at. -/
structure WasmLimits where
  maxBodyBytes : Option Nat
  maxPendingCalls : Option Nat

structure WasmPluginShellConfig where
  url : String
  sha256 : Option String
  moduleCacheKey : Option String
  useCache : Bool
  clusters : List (String × String)
  limits : WasmLimits

/-- `outbound|<port>||<host>`, unless the cluster is configured. -/
def WasmPluginShellConfig.resolveCluster (cfg : WasmPluginShellConfig) (cluster : String) :
    Option String :=
  match cfg.clusters.lookup cluster with
  | some base => some base
  | none => do
      let rest ← Text.stripStart "outbound|" cluster
      let (port, host) ← Text.splitOnceAt "||" rest
      let port := Text.trim port
      let host := Text.trim host
      if host = "" ∨ port = "" then none else some ("http://" ++ host ++ ":" ++ port)

end Spacegate.PluginWasm
