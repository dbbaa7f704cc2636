import Spacegate.Config.ConfigEvent

/-!
# The Redis backend

Every operation writes one field of a hash and then publishes an event that says which part
of the configuration has changed.  Listeners read the event from its text.
-/

namespace Spacegate.Config.Redis

open Foundation
open Foundation.Text
open Model

def confGatewayKey : String := "sg:conf:gateway"

def confHttpRouteKey : String := "sg:conf:route:http:"

def confPluginKey : String := "sg:conf:plugin"

def confEventChannel : String := "sg:conf:event"

/-- What is sent to the server. -/
inductive Command where
  | hset (key field : String) (value : List UInt8)
  | hdel (key field : String)
  | publish (channel payload : String)
  deriving DecidableEq, Repr

/-- The format of the values, as far as it is used to write them. -/
structure ConfigFormat (G : Type) where
  serGateway : G → Except String (List UInt8)
  serRoute : SgRoute → Except String (List UInt8)
  serValue : Json → Except String (List UInt8)

/-! ## Events -/

namespace RedisConfEvent

/-- `ToRedisArgs for RedisConfEvent`. -/
def text (event : ConfigEvent) : String :=
  event.2.text ++ "/" ++ event.1.text

/-- `FromStr for RedisConfEvent`. -/
def fromStr (s : String) : Except String ConfigEvent :=
  match splitOnce '/' s with
  | none => .error "Invalid format"
  | some (method, object) => do
      let object ← ConfigType.fromStr object
      let kind ← ConfigEventType.fromStr method
      .ok (object, kind)

theorem fromStr_text (event : ConfigEvent) :
    fromStr (text event) =
      (ConfigType.fromStr event.1.text).map fun object => (object, event.2) := by
  have hs : splitOnce '/' (text event) = some (event.2.text, event.1.text) :=
    splitOnce_eq_some_iff.mpr ⟨by simp [text], event.2.slash_notMem_text⟩
  unfold fromStr
  rw [hs]
  simp only [ConfigEventType.fromStr_text]
  cases ConfigType.fromStr event.1.text <;> rfl

theorem fromStr_text_iff (event : ConfigEvent) :
    fromStr (text event) = .ok event ↔ event.1.HasText := by
  rw [fromStr_text, ← ConfigType.fromStr_text_iff]
  constructor
  · intro h
    obtain ⟨object, ho, he⟩ := exists_of_map_eq_ok h
    have hf : event.1 = object := congrArg Prod.fst he
    rw [ho, hf]
  · intro h
    rw [h]
    rfl

end RedisConfEvent

/-! ## Operations -/

inductive Call (G : Type) where
  | createConfigItemGateway (gatewayName : String) (gateway : G)
  | createConfigItemRoute (gatewayName routeName : String) (route : SgRoute)
  | createPlugin (config : PluginConfig)
  | updateConfigItemGateway (gatewayName : String) (gateway : G)
  | updateConfigItemRoute (gatewayName routeName : String) (route : SgRoute)
  | updatePlugin (config : PluginConfig)
  | deleteConfigItemGateway (gatewayName : String)
  | deleteConfigItemRoute (gatewayName routeName : String)
  | deletePlugin (id : PluginInstanceId)

namespace Call

variable {G : Type} (format : ConfigFormat G)

/-- The change of the stored hashes. -/
def write : Call G → Except String Command
  | .createConfigItemGateway gatewayName gateway
  | .updateConfigItemGateway gatewayName gateway =>
    (format.serGateway gateway).map (.hset confGatewayKey gatewayName)
  | .createConfigItemRoute gatewayName routeName route
  | .updateConfigItemRoute gatewayName routeName route =>
    (format.serRoute route).map (.hset (confHttpRouteKey ++ gatewayName) routeName)
  | .createPlugin config | .updatePlugin config =>
    (format.serValue (encodeStoredPluginConfig config)).map (.hset confPluginKey config.id.text)
  | .deleteConfigItemGateway gatewayName => .ok (.hdel confGatewayKey gatewayName)
  | .deleteConfigItemRoute gatewayName routeName =>
    .ok (.hdel (confHttpRouteKey ++ gatewayName) routeName)
  | .deletePlugin id => .ok (.hdel confPluginKey id.text)

def event : Call G → ConfigEvent
  | .createConfigItemGateway gatewayName _ => (.gateway gatewayName, .create)
  | .createConfigItemRoute gatewayName routeName _ => (.route gatewayName routeName, .create)
  | .createPlugin config => (.plugin config.id, .create)
  | .updateConfigItemGateway gatewayName _ => (.gateway gatewayName, .update)
  | .updateConfigItemRoute gatewayName routeName _ => (.route gatewayName routeName, .update)
  | .updatePlugin config => (.plugin config.id, .update)
  | .deleteConfigItemGateway gatewayName => (.gateway gatewayName, .delete)
  | .deleteConfigItemRoute gatewayName routeName => (.route gatewayName routeName, .delete)
  | .deletePlugin id => (.plugin id, .delete)

/-- The operation, if the value can be written in the format. -/
def commands (call : Call G) : Except String (List Command) := do
  let write ← call.write format
  .ok [write, .publish confEventChannel (RedisConfEvent.text call.event)]

variable {format} {call : Call G} {commands : List Command}

theorem write_ne_publish {write : Command} (h : call.write format = .ok write)
    (channel payload : String) : write ≠ .publish channel payload := by
  rintro rfl
  cases call <;> simp only [Call.write] at h
  case deleteConfigItemGateway | deleteConfigItemRoute | deletePlugin => cases h
  all_goals
    obtain ⟨value, -, hv⟩ := exists_of_map_eq_ok h
    cases hv

theorem eq_text_of_publish {channel payload : String} (h : call.commands format = .ok commands)
    (hp : .publish channel payload ∈ commands) : payload = RedisConfEvent.text call.event := by
  obtain ⟨write, hw, hc⟩ := exists_of_bind_eq_ok h
  cases hc
  rcases List.mem_pair.mp hp with hEq | hEq
  · exact absurd hEq.symm (write_ne_publish hw channel payload)
  · cases hEq
    rfl

/-- A listener reads the published event exactly when its object can be read back from its
text. -/
theorem decoded_iff_hasText (format : ConfigFormat G) (call : Call G) {channel payload : String}
    (h : call.commands format = .ok commands) (hPublish : .publish channel payload ∈ commands) :
    RedisConfEvent.fromStr payload = .ok call.event ↔ call.event.1.HasText := by
  rw [eq_text_of_publish h hPublish]
  exact RedisConfEvent.fromStr_text_iff call.event

/-- A format that writes nothing. -/
def emptyFormat : ConfigFormat Unit where
  serGateway := fun _ => .ok []
  serRoute := fun _ => .ok []
  serValue := fun _ => .ok []

def limitEdge : PluginConfig where
  id := { code := "limit", name := .named "edge" }
  displayName := none
  spec := .null

theorem limitEdge_decoded :
    (createPlugin limitEdge).commands emptyFormat =
        .ok [.hset "sg:conf:plugin" "limit-n-edge" [],
          .publish "sg:conf:event" "create/plugin/limit/n-edge"] ∧
      RedisConfEvent.fromStr "create/plugin/limit/n-edge" =
        .ok (.plugin { code := "limit", name := .named "edge" }, .create) :=
  ⟨rfl, (decoded_iff_hasText emptyFormat (createPlugin limitEdge) rfl
    (List.mem_pair.mpr (.inr rfl))).mpr (by decide)⟩

/-- The event about a plugin without a name, and the one about a gateway with a slash in its
name, are not read. -/
theorem mono_and_slash_not_decoded :
    (deletePlugin { code := "limit", name := .mono }).commands emptyFormat =
        .ok [.hdel "sg:conf:plugin" "limit-m", .publish "sg:conf:event" "delete/plugin/limit/m"] ∧
      RedisConfEvent.fromStr "delete/plugin/limit/m" = .error "invalid prefix" ∧
      (deleteConfigItemGateway "edge/v2").commands emptyFormat =
        .ok [.hdel "sg:conf:gateway" "edge/v2", .publish "sg:conf:event" "delete/gateway/edge/v2"] ∧
      RedisConfEvent.fromStr "delete/gateway/edge/v2" =
        .error "unknown ConfigType: gateway/edge/v2" := by
  refine ⟨?_, ?_, ?_, ?_⟩ <;> rfl

end Call
end Spacegate.Config.Redis
