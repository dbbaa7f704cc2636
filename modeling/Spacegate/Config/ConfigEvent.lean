import Spacegate.Model.PluginId

/-!
# Configuration events

What a configuration backend reports: which part of the configuration has changed,
and how.  Both are also written as text, and read from it.
-/

namespace Spacegate.Config

open Foundation
open Foundation.Text
open Model

inductive ConfigEventType where
  | create
  | update
  | delete
  deriving DecidableEq, Repr

inductive ConfigType where
  | gateway (name : String)
  | route (gatewayName name : String)
  | plugin (id : PluginInstanceId)
  /-- The shell reloads everything. -/
  | global
  deriving DecidableEq, Repr

/-- What a watch task sends to the listener. -/
abbrev ConfigEvent := ConfigType × ConfigEventType

/-! ## Text -/

namespace ConfigEventType

/-- `Display for ConfigEventType`. -/
def text : ConfigEventType → String
  | .create => "create"
  | .update => "update"
  | .delete => "delete"

def fromStr (s : String) : Except String ConfigEventType :=
  if s = "create" then .ok .create
  else if s = "update" then .ok .update
  else if s = "delete" then .ok .delete
  else .error ("unknown ConfigEventType: " ++ s)

variable (kind : ConfigEventType)

theorem fromStr_text : fromStr kind.text = .ok kind := by
  cases kind <;> rfl

theorem slash_notMem_text : '/' ∉ kind.text.toList := by
  cases kind <;> decide

end ConfigEventType

namespace ConfigType

/-- `Display for ConfigType`. -/
def text : ConfigType → String
  | .gateway name => "gateway/" ++ name
  | .route gatewayName name => "httproute/" ++ gatewayName ++ "/" ++ name
  | .plugin id => "plugin/" ++ id.code ++ "/" ++ id.name.text
  | .global => "global"

def fromStr (s : String) : Except String ConfigType :=
  match split '/' s with
  | ["gateway", name] => .ok (.gateway name)
  | ["httproute", gatewayName, name] => .ok (.route gatewayName name)
  | ["plugin", code, name] =>
    (PluginInstanceName.fromStr name).map fun name => .plugin { code := code, name := name }
  | _ => .error ("unknown ConfigType: " ++ s)

/-- What can be read back from its text: no part has a slash, and the name of a plugin can
be read back. -/
def HasText : ConfigType → Prop
  | .gateway name => '/' ∉ name.toList
  | .route gatewayName name => '/' ∉ gatewayName.toList ∧ '/' ∉ name.toList
  | .plugin id => '/' ∉ id.code.toList ∧ '/' ∉ id.name.text.toList ∧ id.name.HasText
  | .global => False

instance : DecidablePred HasText := fun object =>
  match object with
  | .gateway name => inferInstanceAs (Decidable ('/' ∉ name.toList))
  | .route gatewayName name =>
    inferInstanceAs (Decidable ('/' ∉ gatewayName.toList ∧ '/' ∉ name.toList))
  | .plugin id =>
    inferInstanceAs
      (Decidable ('/' ∉ id.code.toList ∧ '/' ∉ id.name.text.toList ∧ id.name.HasText))
  | .global => .isFalse id

theorem split_three {s kind first second : String}
    (ht : s.toList = kind.toList ++ '/' :: (first.toList ++ '/' :: second.toList))
    (hk : '/' ∉ kind.toList) (hf : '/' ∉ first.toList) :
    split '/' s = kind :: first :: split '/' second := by
  have hr : (first ++ "/" ++ second).toList = first.toList ++ '/' :: second.toList := by simp
  rw [← hr] at ht
  rw [split_eq_cons ht hk, split_eq_cons hr hf]

theorem split_text_route {gatewayName : String} (h : '/' ∉ gatewayName.toList) (name : String) :
    split '/' (text (.route gatewayName name)) = "httproute" :: gatewayName :: split '/' name :=
  split_three (by simp [text]) (by decide) h

theorem split_text_plugin {id : PluginInstanceId} (h : '/' ∉ id.code.toList) :
    split '/' (text (.plugin id)) = "plugin" :: id.code :: split '/' id.name.text :=
  split_three (by simp [text]) (by decide) h

/-- The parts that are read have no slashes. -/
theorem split_of_fromStr {s : String} {object : ConfigType} (h : fromStr s = .ok object) :
    match object with
    | .gateway name => split '/' s = ["gateway", name]
    | .route gatewayName name => split '/' s = ["httproute", gatewayName, name]
    | .plugin id => ∃ name, split '/' s = ["plugin", id.code, name] ∧
        PluginInstanceName.fromStr name = .ok id.name
    | .global => False := by
  unfold fromStr at h
  split at h
  · rename_i name hs
    cases h
    exact hs
  · rename_i gatewayName name hs
    cases h
    exact hs
  · rename_i code name hs
    obtain ⟨name', hn, ho⟩ := exists_of_map_eq_ok h
    subst ho
    exact ⟨name, hs, hn⟩
  · cases h

theorem fromStr_text_iff (object : ConfigType) :
    fromStr object.text = .ok object ↔ object.HasText := by
  cases object with
  | gateway name =>
    constructor
    · intro h
      have hs := split_of_fromStr h
      exact notMem_of_mem_split (s := text (.gateway name)) (by rw [hs]; simp)
    · intro hn
      have hs : split '/' (text (.gateway name)) = "gateway" :: split '/' name :=
        split_eq_cons (by simp [text]) (by decide)
      rw [split_of_notMem hn] at hs
      simp [fromStr, hs]
  | route gatewayName name =>
    constructor
    · intro h
      have hs := split_of_fromStr h
      have hp : ∀ piece ∈ ["httproute", gatewayName, name], '/' ∉ piece.toList := by
        rw [← hs]
        exact fun piece => notMem_of_mem_split
      exact ⟨hp gatewayName (by simp), hp name (by simp)⟩
    · rintro ⟨hg, hn⟩
      have hs := split_text_route hg name
      rw [split_of_notMem hn] at hs
      simp [fromStr, hs]
  | plugin id =>
    constructor
    · intro h
      obtain ⟨name, hs, hn⟩ := split_of_fromStr h
      have hc : '/' ∉ id.code.toList :=
        notMem_of_mem_split (s := text (.plugin id)) (by rw [hs]; simp)
      rw [split_text_plugin hc] at hs
      obtain ⟨rfl, hSlash⟩ := split_eq_singleton_iff.mp (List.cons.inj (List.cons.inj hs).2).2
      exact ⟨hc, hSlash, (PluginInstanceName.fromStr_text_iff id.name).mp hn⟩
    · rintro ⟨hc, hSlash, hn⟩
      have hs := split_text_plugin hc
      rw [split_of_notMem hSlash] at hs
      have hr := (PluginInstanceName.fromStr_text_iff id.name).mpr hn
      simp [fromStr, hs, hr, Except.map]
  | global =>
    constructor
    · exact fun h => split_of_fromStr h
    · exact fun h => absurd h id

end ConfigType

end Spacegate.Config
