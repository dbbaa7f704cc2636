import Mathlib.Data.Prod.Lex
import Mathlib.Data.String.Basic
import Spacegate.Foundation.FileStem
import Spacegate.Foundation.Json
import Spacegate.Foundation.Traverse
import Spacegate.Model.Route

/-!
# Plugin instances and how they are stored

A plugin instance is named by the code of the plugin and a name, of which there are
three kinds.  The file backend makes a file stem of this id and reads it back; a file
holds either the bare specification or an envelope that also has the display name.
-/

namespace Spacegate.Model

open Foundation PluginInstanceId
open Foundation.Text

/-! ## Ids -/

/-- Ids are told apart by code, kind and text. -/
def PluginInstanceId.key (id : PluginInstanceId) : String ×ₗ ℕ ×ₗ String :=
  match id.name with
  | .anon uid => toLex (id.code, toLex (0, uid))
  | .named name => toLex (id.code, toLex (1, name))
  | .mono => toLex (id.code, toLex (2, ""))

theorem PluginInstanceId.key_injective : Function.Injective PluginInstanceId.key := by
  rintro ⟨code, name⟩ ⟨code', name'⟩ h
  cases name <;> cases name' <;> simp_all [key]

/-- Any order serves for a map that is never read in order. -/
instance : LinearOrder PluginInstanceId :=
  { LinearOrder.lift' key key_injective with
    toDecidableEq := inferInstance
    compare_eq_compareOfLessAndEq := by
      intro a b
      convert (LinearOrder.lift' key
        key_injective).compare_eq_compareOfLessAndEq a b }

def PluginInstanceId.asFileStem (id : PluginInstanceId) : String :=
  match id.name with
  | .anon uid => id.code ++ "." ++ uid
  | .named name => id.code ++ "." ++ name
  | .mono => id.code

/-- The first two parts of the stem; further parts are dropped. -/
def PluginInstanceId.fromFileStem (stem : String) : PluginInstanceId :=
  match split '.' stem with
  | [] => { code := "", name := .mono }
  | [code] => { code := code, name := .mono }
  | code :: name :: _ => { code := code, name := .named name }

/-- The ids that can be read back from their file stems. -/
def PluginInstanceId.HasStem (id : PluginInstanceId) : Prop :=
  '.' ∉ id.code.toList ∧
    match id.name with
    | .anon _ => False
    | .named name => '.' ∉ name.toList
    | .mono => True

theorem PluginInstanceId.fromFileStem_asFileStem {id : PluginInstanceId} (h : id.HasStem) :
    fromFileStem id.asFileStem = id := by
  obtain ⟨code, name⟩ := id
  obtain ⟨hc, hn⟩ := h
  cases name with
  | anon uid => exact absurd hn id
  | named name =>
    have ht : (code ++ "." ++ name).toList = code.toList ++ '.' :: name.toList := by simp
    rw [asFileStem, fromFileStem, split_eq_cons ht hc, split_of_notMem hn]
  | mono => rw [asFileStem, fromFileStem, split_of_notMem hc]

theorem PluginInstanceId.hasStem_fromFileStem (stem : String) : (fromFileStem stem).HasStem := by
  have hp : ∀ piece ∈ split '.' stem, '.' ∉ piece.toList :=
    fun piece hPiece => notMem_of_mem_split hPiece
  unfold fromFileStem
  split
  · exact ⟨by simp, trivial⟩
  · rename_i code hs
    exact ⟨hp code (by simp [hs]), trivial⟩
  · rename_i code name rest hs
    exact ⟨hp code (by simp [hs]), hp name (by simp [hs])⟩

theorem PluginInstanceId.fromFileStem_mono_empty {stem : String}
    (h : fromFileStem stem = { code := "", name := .mono }) : stem = "" := by
  unfold fromFileStem at h
  split at h
  · rename_i hs
    exact absurd (List.map_eq_nil_iff.mp hs) (List.splitOn_ne_nil _ _)
  · rename_i code hs
    have hc : code = "" := congrArg PluginInstanceId.code h
    rw [← (split_eq_singleton_iff.mp hs).1, hc]
  · cases h

/-! ## Ids as text -/

/-- `Display for PluginInstanceName`. -/
def PluginInstanceName.text : PluginInstanceName → String
  | .anon uid => "a-" ++ uid
  | .named name => "n-" ++ name
  | .mono => "m"

/-- `FromStr for PluginInstanceName`. -/
def PluginInstanceName.fromStr (s : String) : Except String PluginInstanceName :=
  if s = "" then .error "empty string"
  else
    let parts := splitTwo '-' s
    if parts.1 = "a" then
      match parts.2 with
      | some uid => .ok (.anon uid)
      | none => .error "missing uid"
    else if parts.1 = "n" then
      match parts.2 with
      | some name => if name = "" then .error "empty name" else .ok (.named name)
      | none => .error "missing name"
    -- the text of `Mono` is `m`
    else if parts.1 = "g" then .ok .mono
    else .error "invalid prefix"

/-- `Display for PluginInstanceId`. -/
def PluginInstanceId.text (id : PluginInstanceId) : String :=
  id.code ++ "-" ++ id.name.text

/-- The names that can be read back from their text. -/
def PluginInstanceName.HasText : PluginInstanceName → Prop
  | .anon _ => True
  | .named name => name ≠ ""
  | .mono => False

instance : DecidablePred PluginInstanceName.HasText := fun name =>
  match name with
  | .anon _ => .isTrue trivial
  | .named name => inferInstanceAs (Decidable (name ≠ ""))
  | .mono => .isFalse id

theorem PluginInstanceName.fromStr_text_iff (name : PluginInstanceName) :
    fromStr name.text = .ok name ↔ name.HasText := by
  cases name with
  | anon uid =>
    have hs : splitOnce '-' ("a-" ++ uid) = some ("a", uid) :=
      splitOnce_eq_some_iff.mpr ⟨by simp, by simp⟩
    simp [fromStr, text, HasText, splitTwo, hs]
  | named name =>
    have hs : splitOnce '-' ("n-" ++ name) = some ("n", name) :=
      splitOnce_eq_some_iff.mpr ⟨by simp, by simp⟩
    simp [fromStr, text, HasText, splitTwo, hs]
  | mono => simp [fromStr, text, HasText, splitTwo, splitOnce, splitOnceList]

/-! ## Stored configurations -/

structure PluginConfig where
  id : PluginInstanceId
  displayName : Option String
  spec : Json

/-- `normalize_plugin_display_name`. -/
def normalizePluginDisplayName (displayName : Option String) : Option String :=
  displayName.bind fun name => if trim name = "" then none else some (trim name)

def pluginConfigFormat : String := "plugin_config_v1"

/-- The fields of an id, as `serde` flattens them. -/
def PluginInstanceId.fields (id : PluginInstanceId) : List (String × Json) :=
  ("code", .string id.code) ::
    match id.name with
    | .anon uid => [("kind", .string "anon"), ("uid", .string uid)]
    | .named name => [("kind", .string "named"), ("name", .string name)]
    | .mono => [("kind", .string "mono")]

/-- `encode_stored_plugin_config`. -/
def encodeStoredPluginConfig (config : PluginConfig) : Json :=
  .object (("_spacegate_format", .string pluginConfigFormat) :: config.id.fields ++
    (normalizePluginDisplayName config.displayName).toList.map (fun name =>
      ("display_name", .string name)) ++
    [("spec", config.spec)])

def textField (value : Json) (name : String) : Except String String :=
  match (value.get name).bind Json.asStr with
  | some text => .ok text
  | none => .error ("missing field " ++ name)

def readPluginInstanceName (value : Json) : Except String PluginInstanceName := do
  let kind ← textField value "kind"
  if kind = "anon" then (textField value "uid").map .anon
  else if kind = "named" then (textField value "name").map .named
  else if kind = "mono" then .ok .mono
  else .error ("unknown variant " ++ kind)

def readDisplayName (value : Json) : Except String (Option String) :=
  match value.get "display_name" with
  | none | some .null => .ok none
  | some (.string name) => .ok (some name)
  | some _ => .error "invalid type for display_name"

def readSpec (value : Json) : Except String Json :=
  match value.get "spec" with
  | some spec => .ok spec
  | none => .error "missing field spec"

/-- `StoredPluginConfig` as it is read from a value: its display name and its
specification.  The id has to be there, too. -/
def readStoredPluginConfig (value : Json) : Except String (Option String × Json) := do
  let _ ← textField value "code"
  let _ ← readPluginInstanceName value
  let displayName ← readDisplayName value
  let spec ← readSpec value
  .ok (displayName, spec)

/-- The value carries the mark of the envelope. -/
def isEnvelope (value : Json) : Bool :=
  (value.get "_spacegate_format").bind Json.asStr == some pluginConfigFormat

/-- `decode_stored_plugin_config` without the older full form, which the file backend does
not accept. -/
def decodeStoredPluginConfig (id : PluginInstanceId) (value : Json) : Except String PluginConfig :=
  if isEnvelope value then do
    let stored ← readStoredPluginConfig value
    .ok { id := id, displayName := normalizePluginDisplayName stored.1, spec := stored.2 }
  else .ok { id := id, displayName := none, spec := value }

theorem decodeStoredPluginConfig_bare {id : PluginInstanceId} {value : Json}
    (h : isEnvelope value = false) :
    decodeStoredPluginConfig id value = .ok { id := id, displayName := none, spec := value } := by
  simp [decodeStoredPluginConfig, h]

theorem decodeStoredPluginConfig_id {id : PluginInstanceId} {value : Json} {config : PluginConfig}
    (h : decodeStoredPluginConfig id value = .ok config) : config.id = id := by
  unfold decodeStoredPluginConfig at h
  split_ifs at h with he
  · obtain ⟨stored, -, hc⟩ := exists_of_bind_eq_ok h
    cases hc
    rfl
  · cases h
    rfl

theorem get_spec_of_readStoredPluginConfig {value : Json} {stored : Option String × Json}
    (h : readStoredPluginConfig value = .ok stored) : value.get "spec" = some stored.2 := by
  obtain ⟨code, -, h⟩ := exists_of_bind_eq_ok h
  obtain ⟨name, -, h⟩ := exists_of_bind_eq_ok h
  obtain ⟨displayName, -, h⟩ := exists_of_bind_eq_ok h
  obtain ⟨spec, hs, h⟩ := exists_of_bind_eq_ok h
  cases h
  unfold readSpec at hs
  split at hs
  · rename_i spec' hGet
    cases hs
    exact hGet
  · cases hs

theorem spec_ne_of_isEnvelope {id : PluginInstanceId} {value : Json} {config : PluginConfig}
    (he : isEnvelope value = true) (h : decodeStoredPluginConfig id value = .ok config) :
    config.spec ≠ value := by
  unfold decodeStoredPluginConfig at h
  rw [if_pos he] at h
  obtain ⟨stored, hs, hc⟩ := exists_of_bind_eq_ok h
  cases hc
  intro hEq
  have hSpec := get_spec_of_readStoredPluginConfig hs
  simp only at hEq
  rw [hEq] at hSpec
  exact Json.get_ne_self value "spec" hSpec

theorem normalizePluginDisplayName_idem (displayName : Option String) :
    normalizePluginDisplayName (normalizePluginDisplayName displayName) =
      normalizePluginDisplayName displayName := by
  cases displayName with
  | none => rfl
  | some name =>
    by_cases he : trim name = ""
    · simp [normalizePluginDisplayName, he]
    · simp [normalizePluginDisplayName, he, trim_trim]

theorem displayName_of_decodeStoredPluginConfig {id : PluginInstanceId} {value : Json}
    {config : PluginConfig} (h : decodeStoredPluginConfig id value = .ok config) :
    normalizePluginDisplayName config.displayName = config.displayName := by
  unfold decodeStoredPluginConfig at h
  split_ifs at h with he
  · obtain ⟨stored, -, hc⟩ := exists_of_bind_eq_ok h
    cases hc
    exact normalizePluginDisplayName_idem stored.1
  · cases h
    rfl

variable (config : PluginConfig)

theorem isEnvelope_encodeStoredPluginConfig :
    isEnvelope (encodeStoredPluginConfig config) = true := by
  simp [isEnvelope, encodeStoredPluginConfig, Json.get, Json.getField, Json.asStr]

theorem readStoredPluginConfig_encodeStoredPluginConfig :
    readStoredPluginConfig (encodeStoredPluginConfig config) =
      .ok (normalizePluginDisplayName config.displayName, config.spec) := by
  obtain ⟨⟨code, name⟩, displayName, spec⟩ := config
  cases hn : normalizePluginDisplayName displayName <;> cases name <;>
    simp [encodeStoredPluginConfig, hn, fields, readStoredPluginConfig,
      textField, readPluginInstanceName, readDisplayName, readSpec, Json.get, Json.getField,
      Json.asStr, bind, Except.bind, Except.map]

theorem decodeStoredPluginConfig_encodeStoredPluginConfig :
    decodeStoredPluginConfig config.id (encodeStoredPluginConfig config) =
      .ok { config with displayName := normalizePluginDisplayName config.displayName } := by
  rw [decodeStoredPluginConfig, if_pos (isEnvelope_encodeStoredPluginConfig config),
    readStoredPluginConfig_encodeStoredPluginConfig]
  simp [bind, Except.bind, normalizePluginDisplayName_idem]

end Spacegate.Model
