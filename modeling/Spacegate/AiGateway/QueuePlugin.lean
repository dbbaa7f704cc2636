import Spacegate.Foundation.Utf8
import Spacegate.PluginWasm.Vm

/-!
# The queue plugin

The guest that asks the service whether a request is within its limit, and hands it to the queue
of the service.  What it tells the service about the request is in the headers of its calls,
together with those of the client.
-/

namespace Spacegate.AiGateway.QueuePlugin

open Foundation List Text
open Kernel (strBytes)
open PluginWasm (Bytes RequestContext HostState HostCall HttpCall LocalResponse
  WasmPluginShellConfig rootContextId)
open PluginWasm.Vm (Hook StreamHook HookRun HookOutcome)

structure AiGatewayConfig where
  serviceCluster : String
  serviceAuthority : String
  rateLimitPath : String
  enqueuePath : String
  waitPath : String
  policyHeader : String
  tenantHeader : String
  modelHeader : String
  priorityHeader : String
  defaultPolicy : Option String
  priorityEnabled : Bool
  defaultPriority : String
  highPriorityModels : List String
  lowPriorityModels : List String
  highPriorityTenants : List String
  lowPriorityTenants : List String

inductive Policy where
  | abandon
  | queue
  | wait
  deriving DecidableEq, Repr

/-! ## Texts -/

def normalizePolicy (value : String) : Option String :=
  match toAsciiLowercase (trim value) with
  | "abandon" => some "abandon"
  | "queue" => some "queue"
  | "wait" => some "wait"
  | _ => none

def normalizePriority (value : String) : Option String :=
  match toAsciiLowercase (trim value) with
  | "high" => some "high"
  | "normal" | "default" | "medium" => some "normal"
  | "low" => some "low"
  | _ => none

def shouldForwardToService (name : String) : Bool :=
  let lower := toAsciiLowercase name
  !startsWith ':' lower &&
    !(["host", "connection", "content-length", "transfer-encoding", "x-original-method",
      "x-original-path", "x-ratelimit-policy", "x-tenant-id", "x-model",
      "x-queue-priority"].contains lower)

def policyName : Policy → String
  | .abandon => "abandon"
  | .queue => "queue"
  | .wait => "wait"

def containsValue (values : List String) (needle : String) : Bool :=
  values.any fun value => eqIgnoreAsciiCase value needle

/-! ## The request -/

section Request

variable (cfg : AiGatewayConfig) (c : RequestContext)

def requestPolicy : Option Policy := do
  let value ← (c.requestHeader cfg.policyHeader).or cfg.defaultPolicy
  match normalizePolicy value with
  | some "abandon" => some .abandon
  | some "queue" => some .queue
  | some "wait" => some .wait
  | _ => none

def tenantId : Option String :=
  (c.requestHeader cfg.tenantHeader).filter fun value => !isBlank value

def model : Option String :=
  (c.requestHeader cfg.modelHeader).filter fun value => !isBlank value

def queuePriority (tenantId model : String) : Option String :=
  if !cfg.priorityEnabled then none
  else
    match (c.requestHeader cfg.priorityHeader).bind normalizePriority with
    | some priority => some priority
    | none =>
      if containsValue cfg.highPriorityTenants tenantId ||
          containsValue cfg.highPriorityModels model then some "high"
      else if containsValue cfg.lowPriorityTenants tenantId ||
          containsValue cfg.lowPriorityModels model then some "low"
      else normalizePriority cfg.defaultPriority

/-- `get_http_request_headers`, where the SDK panics for a value that is no text. -/
def requestHeaders : Option (List (String × String)) :=
  c.requestPairs.mapM fun p => (String.fromUTF8? ⟨p.2.toArray⟩).map fun value => (p.1, value)

/-- The headers that the plugin adds. -/
def ownHeaders (path : String) : List (String × String) :=
  let tenant := (tenantId cfg c).getD ""
  let modelName := (model cfg c).getD "default"
  [(":method", "POST"), (":path", path), (":authority", cfg.serviceAuthority),
      ("x-original-method", (c.requestHeader ":method").getD "POST"),
      ("x-original-path", (c.requestHeader ":path").getD "/"),
      ("x-ratelimit-policy", ((requestPolicy cfg c).map policyName).getD "abandon"),
      ("x-tenant-id", tenant), ("x-model", modelName)] ++
    ((queuePriority cfg c tenant modelName).map fun priority =>
      ("x-queue-priority", priority)).toList

def serviceHeaders (path : String) : Option (List (String × String)) :=
  (requestHeaders c).map fun headers =>
    ownHeaders cfg c path ++ headers.filter (shouldForwardToService ·.1)

/-- The names by which the service is told what the plugin has found out. -/
def trustedNames : List String :=
  ["x-original-method", "x-original-path", "x-ratelimit-policy", "x-tenant-id", "x-model",
    "x-queue-priority"]

/-- Whatever its case. -/
def isTrusted (name : String) : Bool :=
  trustedNames.contains (toAsciiLowercase name)

theorem shouldForwardToService_of_isTrusted {name : String} (h : isTrusted name = true) :
    shouldForwardToService name = false := by
  have hMem : toAsciiLowercase name ∈ trustedNames := by simpa [isTrusted] using h
  simp only [trustedNames, mem_cons, not_mem_nil, or_false] at hMem
  rw [shouldForwardToService]
  rcases hMem with h | h | h | h | h | h <;> rw [h] <;> decide +kernel

/-- Under the trusted names the service gets what the plugin has computed, each once, and nothing
that the client has sent. -/
theorem serviceHeaders_trusted (path : String) :
    (serviceHeaders cfg c path).map (·.filter fun header => isTrusted header.1) =
      (requestHeaders c).map fun _ =>
        let tenant := (tenantId cfg c).getD ""
        let modelName := (model cfg c).getD "default"
        [("x-original-method", (c.requestHeader ":method").getD "POST"),
            ("x-original-path", (c.requestHeader ":path").getD "/"),
            ("x-ratelimit-policy", ((requestPolicy cfg c).map policyName).getD "abandon"),
            ("x-tenant-id", tenant), ("x-model", modelName)] ++
          ((queuePriority cfg c tenant modelName).map fun priority =>
            ("x-queue-priority", priority)).toList := by
  rw [serviceHeaders, Option.map_map]
  congr 1
  funext headers
  have hClient : (headers.filter (shouldForwardToService ·.1)).filter
      (fun header => isTrusted header.1) = [] := by
    rw [filter_filter, filter_eq_nil_iff]
    intro header _ h
    obtain ⟨ht, hf⟩ := Bool.and_eq_true_iff.mp h
    rw [shouldForwardToService_of_isTrusted ht] at hf
    cases hf
  have hNames : [":method", ":path", ":authority"].map isTrusted = [false, false, false] ∧
      trustedNames.map isTrusted = [true, true, true, true, true, true] := by
    decide +kernel
  simp only [trustedNames, map_cons, map_nil, cons.injEq, and_true] at hNames
  obtain ⟨⟨hm, hp, ha⟩, h1, h2, h3, h4, h5, h6⟩ := hNames
  rw [Function.comp, filter_append, hClient, append_nil, ownHeaders, filter_append]
  dsimp only
  cases queuePriority cfg c ((tenantId cfg c).getD "") ((model cfg c).getD "default") with
  | none => simp [hm, hp, ha, h1, h2, h3, h4, h5]
  | some priority => simp [hm, hp, ha, h1, h2, h3, h4, h5, h6]

end Request

end Spacegate.AiGateway.QueuePlugin
