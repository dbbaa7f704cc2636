import Spacegate.Config.RedisStore
import Spacegate.Foundation.Utf8

/-!
# The fields of plugins in Redis

A plugin is stored under the text of its id.  A value that does not carry its id, as older
versions wrote it, is given the one that `parse_plugin_config_key` reads from the field.  The
marks `-m`, `-a-` and `-n-` are looked for in this order and may also stand inside codes and
names; `HasKey` says for which ids they do no harm.
-/

namespace Spacegate.Config.Redis

open Foundation Option String
open Foundation.Text
open Model

/-- The separator stands between the two parts, and nowhere further to the left. -/
def FirstAt (separator before after s : String) : Prop :=
  s = before ++ separator ++ after ∧
    ¬ separator.toList <:+: before.toList ++ separator.toList.dropLast

theorem splitKey_eq_some_iff {separator key : String} (hs : separator ≠ "")
    {name : String → PluginInstanceName} {id : PluginInstanceId} :
    splitKey separator key name = some id ↔
      ∃ code rest, FirstAt separator code rest key ∧ code ≠ "" ∧ rest ≠ "" ∧
        id = { code := code, name := name rest } := by
  unfold splitKey
  constructor
  · intro h
    split at h
    next code rest hSplit =>
        split_ifs at h with hn
        exact ⟨code, rest, (splitOnceAt_eq_some_iff hs).mp hSplit, hn.1,
          hn.2, (some.inj h).symm⟩
    next => cases h
  · rintro ⟨code, rest, hf, hc, hr, rfl⟩
    rw [(splitOnceAt_eq_some_iff hs).mpr hf]
    simp [hc, hr]

/-! ## The three kinds of names -/

theorem parsePluginConfigKey_mono (code : String) :
    parsePluginConfigKey (code ++ "-m") = some { code := code, name := .mono } := by
  rw [parsePluginConfigKey, stripEnd_eq_some_iff.mpr rfl]

variable {key : String}

theorem parsePluginConfigKey_of_not_suffix (h : ¬ "-m".toList <:+ key.toList) :
    parsePluginConfigKey key = (splitKey "-a-" key .anon).or (splitKey "-n-" key .named) := by
  have hs : stripEnd "-m" key = none := by
    by_contra hSome
    obtain ⟨code, hc⟩ := ne_none_iff_exists'.mp hSome
    rw [stripEnd_eq_some_iff.mp hc, toList_append] at h
    exact h (List.suffix_append _ _)
  rw [parsePluginConfigKey, hs]

theorem not_suffix_of_parsed {id : PluginInstanceId}
    (hp : parsePluginConfigKey key = some id) (hn : id.name ≠ .mono) :
    ¬ "-m".toList <:+ key.toList := by
  rintro ⟨rest, hr⟩
  have hKey : key = ofList rest ++ "-m" := by
    rw [← toList_inj, toList_append, toList_ofList, hr]
  rw [hKey, parsePluginConfigKey_mono] at hp
  exact hn (congrArg PluginInstanceId.name (some.inj hp)).symm

/-- The ids that are read back from their text. -/
def HasKey (id : PluginInstanceId) : Prop :=
  match id.name with
  | .mono => True
  | .anon uid =>
    id.code ≠ "" ∧ uid ≠ "" ∧ ¬ "-m".toList <:+ id.text.toList ∧
      ¬ "-a-".toList <:+: id.code.toList ++ "-a".toList
  | .named name =>
    id.code ≠ "" ∧ name ≠ "" ∧ ¬ "-m".toList <:+ id.text.toList ∧
      ¬ "-n-".toList <:+: id.code.toList ++ "-n".toList ∧
      ∀ before after, FirstAt "-a-" before after id.text → before = "" ∨ after = ""

theorem parsed_anon_iff (code uid : String) :
    parsePluginConfigKey (PluginInstanceId.text { code := code, name := .anon uid }) =
        some { code := code, name := .anon uid } ↔
      HasKey { code := code, name := .anon uid } := by
  have ht : PluginInstanceId.text { code := code, name := .anon uid } = code ++ "-a-" ++ uid := by
    simp [PluginInstanceId.text, PluginInstanceName.text, ← toList_inj]
  constructor
  · intro hp
    have hm := not_suffix_of_parsed hp (by simp)
    rw [parsePluginConfigKey_of_not_suffix hm, or_eq_some_iff] at hp
    obtain ha | ⟨-, hn⟩ := hp
    · obtain ⟨code', uid', hf, hc, hUid, hId⟩ := (splitKey_eq_some_iff (by decide)).mp ha
      cases hId
      exact ⟨hc, hUid, hm, hf.2⟩
    · obtain ⟨code', name', -, -, -, hId⟩ := (splitKey_eq_some_iff (by decide)).mp hn
      cases hId
  · rintro ⟨hc, hUid, hm, hf⟩
    rw [parsePluginConfigKey_of_not_suffix hm, or_eq_some_iff]
    left
    rw [splitKey_eq_some_iff (by decide)]
    exact ⟨code, uid, ⟨ht, hf⟩, hc, hUid, rfl⟩

theorem parsed_named_iff (code name : String) :
    parsePluginConfigKey (PluginInstanceId.text { code := code, name := .named name }) =
        some { code := code, name := .named name } ↔
      HasKey { code := code, name := .named name } := by
  have ht : PluginInstanceId.text { code := code, name := .named name } =
      code ++ "-n-" ++ name := by
    simp [PluginInstanceId.text, PluginInstanceName.text, ← toList_inj]
  constructor
  · intro hp
    have hm := not_suffix_of_parsed hp (by simp)
    rw [parsePluginConfigKey_of_not_suffix hm, or_eq_some_iff] at hp
    obtain hAnon | ⟨hNone, hNamed⟩ := hp
    · obtain ⟨code', uid', -, -, -, hId⟩ := (splitKey_eq_some_iff (by decide)).mp hAnon
      cases hId
    · obtain ⟨code', name', hf, hc, hn, hId⟩ := (splitKey_eq_some_iff (by decide)).mp hNamed
      cases hId
      refine ⟨hc, hn, hm, hf.2, ?_⟩
      -- an earlier mark with two proper sides would have been taken
      intro before after he
      by_contra hs
      rw [not_or] at hs
      rw [(splitKey_eq_some_iff (by decide)).mpr ⟨before, after, he, hs.1, hs.2, rfl⟩] at hNone
      cases hNone
  · rintro ⟨hc, hn, hm, hf, he⟩
    rw [parsePluginConfigKey_of_not_suffix hm, or_eq_some_iff]
    right
    constructor
    · by_contra hSome
      obtain ⟨id, hId⟩ := ne_none_iff_exists'.mp hSome
      obtain ⟨before, after, hfa, hb, ha, -⟩ := (splitKey_eq_some_iff (by decide)).mp hId
      exact (he before after hfa).elim hb ha
    · rw [splitKey_eq_some_iff (by decide)]
      exact ⟨code, name, ⟨ht, hf⟩, hc, hn, rfl⟩

theorem parsed_iff_hasKey (id : PluginInstanceId) :
    parsePluginConfigKey id.text = some id ↔ HasKey id := by
  obtain ⟨code, name⟩ := id
  cases name with
  | anon uid => exact parsed_anon_iff code uid
  | named name => exact parsed_named_iff code name
  | mono =>
    have ht : PluginInstanceId.text { code := code, name := .mono } = code ++ "-m" := by
      simp [PluginInstanceId.text, PluginInstanceName.text, ← toList_inj]
    rw [ht, parsePluginConfigKey_mono]
    exact ⟨fun _ => trivial, fun _ => rfl⟩

/-! ## Bare specifications -/

/-- A value as it was stored before values carried their ids. -/
structure IsBareSpec (value : Json) : Prop where
  format : value.get "_spacegate_format" = none
  config : ∀ config, PluginConfig.fromJson value ≠ .ok config

theorem decodePluginConfigEntry_bare {value : Json} (h : IsBareSpec value) :
    decodePluginConfigEntry key value =
      match parsePluginConfigKey key with
      | some id => .ok { id := id, displayName := none, spec := value }
      | none => .error ("[SG.Config] Plugin Config id parse error: " ++ key) := by
  have he : isEnvelope value = false := by simp [isEnvelope, h.format]
  obtain ⟨e, hError⟩ : ∃ e, PluginConfig.fromJson value = .error e := by
    cases hr : PluginConfig.fromJson value with
    | error e => exact ⟨e, rfl⟩
    | ok config => exact absurd hr (h.config config)
  have hv : ∀ id, decodePluginConfigValue id value =
      .ok { id := id, displayName := none, spec := value } := by
    intro id
    simp [decodePluginConfigValue, he, hError, decodeStoredPluginConfig_bare he]
  simp only [decodePluginConfigEntry, h.format, isSome_none, Bool.false_eq_true, if_false,
    hError, Except.toOption, map_none, none_or]
  cases parsePluginConfigKey key with
  | none => rfl
  | some id => exact hv id

/-- The field of an id leads back to it, and a bare specification found there is the one of
this id. -/
structure KeyIdentifies (id : PluginInstanceId) : Prop where
  parsed : parsePluginConfigKey id.text = some id
  bare : ∀ value, IsBareSpec value →
    decodePluginConfigEntry id.text value = .ok { id := id, displayName := none, spec := value }

/-- **Plugin ids in fields.**  The field of a plugin leads back to its id exactly for ids
without a name, and for those others whose code and name are not empty, whose text does not
end with `-m`, whose own mark is the first of its kind, and, for a named one, where no earlier
mark of the other kind has something on both sides. -/
theorem keyIdentifies_iff_hasKey (id : PluginInstanceId) : KeyIdentifies id ↔ HasKey id := by
  rw [← parsed_iff_hasKey]
  constructor
  · exact KeyIdentifies.parsed
  · intro hp
    refine ⟨hp, ?_⟩
    intro value hb
    rw [decodePluginConfigEntry_bare hb, hp]

example : HasKey { code := "rate-limit", name := .named "edge-2" } :=
  (parsed_iff_hasKey _).mp (by decide +kernel)

/-- The instance `m` of `limit` is taken for the only instance of `limit-n`, and the instance
`x` of `limit-a-b` for the anonymous instance `b-n-x` of `limit`. -/
theorem marks_misread :
    PluginInstanceId.text { code := "limit", name := .named "m" } = "limit-n-m" ∧
      parsePluginConfigKey "limit-n-m" = some { code := "limit-n", name := .mono } ∧
      decodePluginConfigEntry "limit-n-m" (.object []) =
        .ok { id := { code := "limit-n", name := .mono }, displayName := none,
              spec := .object [] } ∧
      PluginInstanceId.text { code := "limit-a-b", name := .named "x" } = "limit-a-b-n-x" ∧
      parsePluginConfigKey "limit-a-b-n-x" = some { code := "limit", name := .anon "b-n-x" } ∧
      ¬ KeyIdentifies { code := "limit", name := .named "m" } := by
  refine ⟨by decide +kernel, by decide +kernel, by rfl, by decide +kernel, by decide +kernel, ?_⟩
  intro h
  have hp : some { code := "limit-n", name := .mono } =
      some ({ code := "limit", name := .named "m" } : PluginInstanceId) := h.parsed
  exact absurd hp (by decide)

end Spacegate.Config.Redis
