import Spacegate.Foundation.DiskProgram
import Spacegate.Foundation.SortedMap
import Spacegate.Model.PluginId

/-!
# The map of plugin instances

`PluginInstanceMap` is written as an object whose keys are the texts of the ids.  It is
read back by cutting the code, which the value repeats, off the key.  Entries whose key
cannot be cut in this way are dropped.
-/

namespace Spacegate.Model

open Foundation PluginInstanceName PluginInstanceId SortedMap WriteHistory List
open Foundation.Text

/-! ## Keys -/

/-- `PluginInstanceId::parse_by_code`. -/
def PluginInstanceId.parseByCode (code id : String) : Except String PluginInstanceId :=
  match stripStart code id with
  | none => .error "unmatched code"
  | some rest =>
    (PluginInstanceName.fromStr (trimMatches '-' rest)).map fun name =>
      { code := code, name := name }

/-- The names that survive the trimming of hyphens. -/
def PluginInstanceName.HasKey : PluginInstanceName → Prop
  | .anon uid => uid ≠ "" ∧ endsWith '-' uid = false
  | .named name => name ≠ "" ∧ endsWith '-' name = false
  | .mono => False

instance : DecidablePred PluginInstanceName.HasKey := fun name =>
  match name with
  | .anon uid => inferInstanceAs (Decidable (uid ≠ "" ∧ endsWith '-' uid = false))
  | .named name => inferInstanceAs (Decidable (name ≠ "" ∧ endsWith '-' name = false))
  | .mono => .isFalse id

theorem PluginInstanceName.hasKey_iff (name : PluginInstanceName) :
    name.HasKey ↔ name ≠ .mono ∧ endsWith '-' name.text = false := by
  have hEnd : ∀ (c : Char) (s t : String), t.toList = c :: '-' :: s.toList →
      (endsWith '-' t = false ↔ s ≠ "" ∧ endsWith '-' s = false) := by
    intro c s t ht
    rw [endsWith, endsWith, ht, Ne, ← String.toList_inj]
    cases s.toList with
    | nil => simp
    | cons x xs => simp [getLast?_cons_cons]
  cases name with
  | anon uid => simpa [HasKey, text] using (hEnd 'a' uid ("a-" ++ uid) (by simp)).symm
  | named name => simpa [HasKey, text] using (hEnd 'n' name ("n-" ++ name) (by simp)).symm
  | mono => simp [HasKey]

variable {name : PluginInstanceName}

theorem PluginInstanceName.HasKey.hasText (h : name.HasKey) : name.HasText := by
  cases name with
  | anon uid => trivial
  | named name => exact h.1
  | mono => exact h

theorem PluginInstanceName.head?_text (name : PluginInstanceName) :
    ∃ c, name.text.toList.head? = some c ∧ c ≠ '-' ∧ c ≠ 'g' := by
  cases name with
  | anon uid => exact ⟨'a', by simp [text], by decide, by decide⟩
  | named name => exact ⟨'n', by simp [text], by decide, by decide⟩
  | mono => exact ⟨'m', rfl, by decide, by decide⟩

theorem PluginInstanceName.text_injective : Function.Injective text := by
  intro a b h
  rw [← String.toList_inj] at h
  cases a <;> cases b <;> simp [text, String.toList_inj] at h ⊢ <;> exact h

/-- What is read as a name is its text, unless it is read as `Mono`. -/
theorem PluginInstanceName.text_of_fromStr {s : String}
    (h : fromStr s = .ok name) (hh : s.toList.head? ≠ some 'g') : name ≠ .mono ∧ s = name.text := by
  cases hs : splitOnce '-' s with
  | none =>
    simp only [fromStr, splitTwo, hs] at h
    split_ifs at h with he ha hn hm
    exact absurd (by rw [hm]; rfl) hh
  | some parts =>
    obtain ⟨letter, rest⟩ := parts
    have ht : s.toList = letter.toList ++ '-' :: rest.toList := (splitOnce_eq_some_iff.mp hs).1
    simp only [fromStr, splitTwo, hs] at h
    split_ifs at h with he ha hn hName hm
    · cases h
      exact ⟨by simp, by rw [← String.toList_inj, ht, ha]; simp [text]⟩
    · cases h
      exact ⟨by simp, by rw [← String.toList_inj, ht, hn]; simp [text]⟩
    · exact absurd (by rw [ht, hm]; rfl) hh

theorem PluginInstanceId.parseByCode_text (id : PluginInstanceId) : parseByCode id.code id.text =
      (fromStr (trimMatches '-' ("-" ++ id.name.text))).map fun name =>
        { code := id.code, name := name } := by
  have hs : stripStart id.code id.text = some ("-" ++ id.name.text) := by
    rw [stripStart_eq_some_iff, text, String.append_assoc]
  rw [parseByCode, hs]

theorem PluginInstanceId.parseByCode_text_of_hasKey {id : PluginInstanceId}
    (h : id.name.HasKey) : parseByCode id.code id.text = .ok id := by
  obtain ⟨c, hHead, hh, -⟩ := id.name.head?_text
  have ht : trimMatches '-' ("-" ++ id.name.text) = id.name.text :=
    trimMatches_eq (by simp) (by simp [startsWith, hHead, hh])
      ((hasKey_iff _).mp h).2
  rw [parseByCode_text, ht, (fromStr_text_iff _).mpr h.hasText]
  rfl

theorem PluginInstanceId.hasKey_of_parseByCode {id read : PluginInstanceId}
    (h : parseByCode id.code id.text = .ok read) : read.name.HasKey := by
  rw [parseByCode_text] at h
  obtain ⟨name, hn, rfl⟩ := exists_of_map_eq_ok h
  obtain ⟨c, hHead, hh, hm⟩ := id.name.head?_text
  have ht : (trimMatches '-' ("-" ++ id.name.text)).toList.head? = some c :=
    head?_trimMatches (by simp) hHead hh
  obtain ⟨hNe, hText⟩ := text_of_fromStr hn (by simp [ht, hm])
  refine (hasKey_iff _).mpr ⟨hNe, ?_⟩
  rw [← hText]
  exact endsWith_trimMatches _ _

theorem PluginInstanceId.parseByCode_text_iff (id : PluginInstanceId) :
    parseByCode id.code id.text = .ok id ↔ id.name.HasKey :=
  ⟨hasKey_of_parseByCode, parseByCode_text_of_hasKey⟩

/-- The code of `b` goes on, after a hyphen, into the name of `a`, and what is left of that
is the name of `b`. -/
def PluginInstanceId.RunsInto (a b : PluginInstanceId) : Prop :=
  ∃ start ∈ stripStart (a.code ++ "-") b.code, a.name.text = start ++ "-" ++ b.name.text

instance (a b : PluginInstanceId) : Decidable (a.RunsInto b) :=
  inferInstanceAs (Decidable (∃ start ∈ stripStart (a.code ++ "-") b.code,
    a.name.text = start ++ "-" ++ b.name.text))

theorem PluginInstanceId.runsInto_iff (a b : PluginInstanceId) : a.RunsInto b ↔
      ∃ start, b.code = a.code ++ "-" ++ start ∧ a.name.text = start ++ "-" ++ b.name.text := by
  simp [RunsInto, stripStart_eq_some_iff]

/-- Ids with one text are equal or run into each other. -/
theorem PluginInstanceId.text_eq_text_iff (a b : PluginInstanceId) :
    a.text = b.text ↔ a = b ∨ a.RunsInto b ∨ b.RunsInto a := by
  have hOf : ∀ a b : PluginInstanceId, a.RunsInto b → a.text = b.text := by
    intro a b hi
    obtain ⟨start, hc, hn⟩ := (runsInto_iff a b).mp hi
    rw [text, text, hc, hn]
    simp [String.append_assoc]
  -- the longer code has all of the shorter one and something of its name
  have hCut : ∀ (a b : PluginInstanceId) (rest : List Char),
      b.code.toList = a.code.toList ++ rest →
      '-' :: a.name.text.toList = rest ++ '-' :: b.name.text.toList → a = b ∨ a.RunsInto b := by
    intro a b rest hc hn
    cases rest with
    | nil =>
      have hec : a.code = b.code := by simpa [String.toList_inj] using hc.symm
      have hen : a.name.text = b.name.text := by simpa [String.toList_inj] using hn
      refine .inl ?_
      rw [mk.injEq]
      exact ⟨hec, text_injective hen⟩
    | cons c start =>
      rw [cons_append, cons.injEq] at hn
      refine .inr ((runsInto_iff a b).mpr ⟨String.ofList start, ?_, ?_⟩)
      · rw [← String.toList_inj, hc, ← hn.1]
        simp
      · rw [← String.toList_inj, hn.2]
        simp
  constructor
  · intro h
    have hChars : a.code.toList ++ '-' :: a.name.text.toList =
        b.code.toList ++ '-' :: b.name.text.toList := by
      have ht := String.toList_inj.mpr h
      simpa [text] using ht
    rcases append_eq_append_iff.mp hChars with ⟨rest, hc, hn⟩ | ⟨rest, hc, hn⟩
    · exact (hCut a b rest hc hn).imp id .inl
    · exact (hCut b a rest hc hn).imp Eq.symm .inr
  · rintro (rfl | hi | hi)
    · rfl
    · exact hOf a b hi
    · exact (hOf b a hi).symm

theorem PluginInstanceId.not_runsInto_self (a : PluginInstanceId) : ¬ a.RunsInto a := by
  rw [runsInto_iff]
  rintro ⟨start, hc, -⟩
  have hl := congrArg (fun s : String => s.toList.length) hc
  simp at hl

/-! ## Values -/

variable (config : PluginConfig)

/-- `Serialize for PluginConfig`. -/
def PluginConfig.toJson : Json :=
  .object (config.id.fields ++
    config.displayName.toList.map (fun name => ("display_name", .string name)) ++
    [("spec", config.spec)])

/-- `Deserialize for PluginConfig`. -/
def PluginConfig.fromJson (value : Json) : Except String PluginConfig := do
  let code ← textField value "code"
  let name ← readPluginInstanceName value
  let displayName ← readDisplayName value
  let spec ← readSpec value
  .ok { id := { code := code, name := name }, displayName := displayName, spec := spec }

theorem PluginConfig.fromJson_toJson : fromJson config.toJson = .ok config := by
  obtain ⟨⟨code, name⟩, displayName, spec⟩ := config
  cases displayName <;> cases name <;>
    simp [toJson, fromJson, fields, textField, readPluginInstanceName,
      readDisplayName, readSpec, Json.get, Json.getField, Json.asStr, bind, Except.bind, Except.map]

/-! ## The map -/

/-- `PluginInstanceMap`. -/
abbrev PluginInstanceMap := SortedMap PluginInstanceId Json

namespace PluginInstanceMap

variable (order : IterOrder)

/-- The configurations under the texts of their ids.  Of ids with one text, the last one
stays. -/
def byText (m : PluginInstanceMap) : SortedMap String PluginConfig :=
  insertAll ∅ ((order.iter m.entries).map fun entry =>
    (entry.1.text, { id := entry.1, displayName := none, spec := entry.2 }))

/-- `Serialize for PluginInstanceMap`. -/
def serialize (m : PluginInstanceMap) : Json :=
  .object ((order.iter (m.byText order).entries).map fun entry => (entry.1, entry.2.toJson))

/-- One entry that is read.  Its key is parsed anew, and an error drops the entry. -/
def parseEntry (entry : String × PluginConfig) : Option (PluginInstanceId × Json) :=
  match PluginInstanceId.parseByCode entry.2.id.code entry.1 with
  | .ok id => some (id, entry.2.spec)
  | .error _ => none

/-- `Deserialize for PluginInstanceMap`. -/
def deserialize (value : Json) : Except String PluginInstanceMap :=
  match value with
  | .object fields => do
      let configs ← fields.mapM fun field => (PluginConfig.fromJson field.2).map (Prod.mk field.1)
      let map : SortedMap String PluginConfig := insertAll ∅ configs
      .ok (insertAll ∅ ((order.iter map.entries).filterMap parseEntry))
  | _ => .error "invalid type, expected a map"

variable (order order' : IterOrder) (m : PluginInstanceMap)

theorem deserialize_serialize : deserialize order' (serialize order m) =
      .ok (insertAll ∅ ((order'.iter (m.byText order).entries).filterMap parseEntry)) := by
  have hr : ((order.iter (m.byText order).entries).map fun entry =>
      (entry.1, entry.2.toJson)).mapM
        (fun field => (PluginConfig.fromJson field.2).map (Prod.mk field.1)) =
      .ok (order.iter (m.byText order).entries) := by
    refine mapM_map_eq_ok ?_ _
    intro entry
    rw [PluginConfig.fromJson_toJson]
    rfl
  have hMap : (∅ : SortedMap String PluginConfig).insertAll
      (order.iter (m.byText order).entries) = m.byText order :=
    insertAll_of_mem_iff fun _ => (order.perm _).mem_iff
  simp [serialize, deserialize, hr, bind, Except.bind, hMap]

theorem of_mem_byText {key : String} {config : PluginConfig}
    (h : (key, config) ∈ (m.byText order).entries) :
    key = config.id.text ∧ (config.id, config.spec) ∈ m.entries := by
  rw [← get_eq_some_iff, byText, get_insertAll_empty] at h
  obtain ⟨entry, he, hp⟩ := mem_map.mp (mem_of_latest h)
  cases hp
  exact ⟨rfl, (order.perm _).mem_iff.mp he⟩

variable {entry : PluginInstanceId × Json}

theorem mem_parsed : entry ∈ (order'.iter (m.byText order).entries).filterMap parseEntry ↔
      ∃ config : PluginConfig, (config.id.text, config) ∈ (m.byText order).entries ∧
        parseByCode config.id.code config.id.text = .ok entry.1 ∧
        config.spec = entry.2 := by
  obtain ⟨id, spec⟩ := entry
  rw [mem_filterMap]
  constructor
  · rintro ⟨⟨key, config⟩, hMem, hp⟩
    have he := (order'.perm _).mem_iff.mp hMem
    obtain ⟨rfl, -⟩ := of_mem_byText order m he
    refine ⟨config, he, ?_⟩
    unfold parseEntry at hp
    split at hp
    · rename_i id' hId
      cases hp
      exact ⟨hId, rfl⟩
    · cases hp
  · rintro ⟨config, hMem, hp, hs⟩
    refine ⟨_, (order'.perm _).mem_iff.mpr hMem, ?_⟩
    simp [parseEntry, hp, hs]

/-- The maps all of whose keys lead back to their ids. -/
structure HasKeys : Prop where
  hasKey : ∀ entry ∈ m.entries, entry.1.name.HasKey
  not_runsInto : ∀ a ∈ m.entries, ∀ b ∈ m.entries, ¬ a.1.RunsInto b.1

variable {m}

theorem HasKeys.text_injective (h : HasKeys m) {a b : PluginInstanceId × Json}
    (ha : a ∈ m.entries) (hb : b ∈ m.entries) (ht : a.1.text = b.1.text) : a.1 = b.1 := by
  rcases (text_eq_text_iff a.1 b.1).mp ht with hEq | hi | hi
  · exact hEq
  · exact absurd hi (h.not_runsInto a ha b hb)
  · exact absurd hi (h.not_runsInto b hb a ha)

/-- No configuration is lost under such keys. -/
theorem HasKeys.mem_byText (h : HasKeys m) (hMem : entry ∈ m.entries) :
    (entry.1.text, { id := entry.1, displayName := none, spec := entry.2 }) ∈
      (m.byText order).entries := by
  rw [← get_eq_some_iff, byText, get_insertAll_empty, latest_eq_some_iff_of_unique]
  · exact mem_map.mpr ⟨entry, (order.perm _).mem_iff.mpr hMem, rfl⟩
  · intro config config' hc hc'
    obtain ⟨a, ha, hp⟩ := mem_map.mp hc
    obtain ⟨b, hb, hp'⟩ := mem_map.mp hc'
    rw [(order.perm _).mem_iff] at ha hb
    rw [Prod.mk.injEq] at hp hp'
    have hId : a.1 = b.1 := h.text_injective ha hb (hp.1.trans hp'.1.symm)
    have hs : a.2 = b.2 := by
      have hGet : m.get a.1 = some a.2 := get_eq_some_iff.mpr ha
      rw [hId, get_eq_some_iff.mpr hb] at hGet
      exact (Option.some.inj hGet).symm
    rw [← hp.2, ← hp'.2, hId, hs]

theorem HasKeys.deserialize_serialize_eq (h : HasKeys m) :
    deserialize order' (serialize order m) = .ok m := by
  rw [deserialize_serialize]
  refine congrArg _ (insertAll_of_mem_iff ?_)
  intro entry
  rw [mem_parsed]
  constructor
  · rintro ⟨config, hMem, hp, hs⟩
    obtain ⟨-, he⟩ := of_mem_byText order m hMem
    rw [parseByCode_text_of_hasKey (h.hasKey _ he)] at hp
    have hId : config.id = entry.1 := Except.ok.inj hp
    rw [hId, hs] at he
    exact he
  · intro he
    refine ⟨{ id := entry.1, displayName := none, spec := entry.2 }, h.mem_byText order he, ?_⟩
    exact ⟨parseByCode_text_of_hasKey (h.hasKey _ he), rfl⟩

variable (m)

theorem hasKeys_of_deserialize_serialize
    (h : deserialize order' (serialize order m) = .ok m) : HasKeys m := by
  rw [deserialize_serialize] at h
  have hMap := Except.ok.inj h
  -- every entry comes from a configuration under the text of its id
  have hf : ∀ entry ∈ m.entries, ∃ config : PluginConfig,
      (config.id.text, config) ∈ (m.byText order).entries ∧
        parseByCode config.id.code config.id.text = .ok entry.1 := by
    intro entry he
    have hGet : m.get entry.1 = some entry.2 := get_eq_some_iff.mpr he
    rw [← hMap, get_insertAll_empty] at hGet
    obtain ⟨config, hc, hp, -⟩ := (mem_parsed order order' m).mp (mem_of_latest hGet)
    exact ⟨config, hc, hp⟩
  have hKey : ∀ entry ∈ m.entries, entry.1.name.HasKey := by
    intro entry he
    obtain ⟨config, -, hp⟩ := hf entry he
    exact hasKey_of_parseByCode hp
  -- which is then the configuration of this id
  have hOwn : ∀ entry ∈ m.entries, ∃ config : PluginConfig,
      (m.byText order).get entry.1.text = some config ∧ config.id = entry.1 := by
    intro entry he
    obtain ⟨config, hc, hp⟩ := hf entry he
    have hMem := (of_mem_byText order m hc).2
    rw [parseByCode_text_of_hasKey (hKey _ hMem)] at hp
    have hId : config.id = entry.1 := Except.ok.inj hp
    refine ⟨config, ?_, hId⟩
    rw [← hId]
    exact get_eq_some_iff.mpr hc
  refine ⟨hKey, ?_⟩
  intro a ha b hb hi
  have ht : a.1.text = b.1.text := (text_eq_text_iff a.1 b.1).mpr (.inr (.inl hi))
  obtain ⟨config, hc, hId⟩ := hOwn a ha
  obtain ⟨config', hc', hId'⟩ := hOwn b hb
  rw [ht, hc'] at hc
  have hs : a.1 = b.1 := by
    rw [← hId, ← hId', Option.some.inj hc]
  rw [hs] at hi
  exact not_runsInto_self b.1 hi

theorem parsed_and_distinct_iff : ((∀ entry ∈ m.entries,
        parseByCode entry.1.code entry.1.text = .ok entry.1) ∧
      ∀ a ∈ m.entries, ∀ b ∈ m.entries, a.1.text = b.1.text → a.1 = b.1) ↔ HasKeys m := by
  constructor
  · rintro ⟨hp, hd⟩
    refine ⟨fun entry he => ?_, ?_⟩
    · exact (parseByCode_text_iff entry.1).mp (hp entry he)
    · intro a ha b hb hi
      have ht : a.1.text = b.1.text :=
        (text_eq_text_iff a.1 b.1).mpr (.inr (.inl hi))
      rw [hd a ha b hb ht] at hi
      exact not_runsInto_self b.1 hi
  · intro h
    refine ⟨fun entry he => ?_, fun a ha b hb => h.text_injective ha hb⟩
    exact (parseByCode_text_iff entry.1).mpr (h.hasKey entry he)

/-- A map survives being written and read, in whatever order it is iterated, exactly when
no name is `Mono`, is empty or ends with a hyphen and no code runs into the name of
another id; and these are the maps whose keys are parsed back and differ. -/
theorem deserialize_serialize_iff :
    (deserialize order' (serialize order m) = .ok m ↔ HasKeys m) ∧
    (((∀ entry ∈ m.entries,
        PluginInstanceId.parseByCode entry.1.code entry.1.text = .ok entry.1) ∧
      ∀ a ∈ m.entries, ∀ b ∈ m.entries, a.1.text = b.1.text → a.1 = b.1) ↔ HasKeys m) :=
  ⟨⟨hasKeys_of_deserialize_serialize order order' m,
    HasKeys.deserialize_serialize_eq order order'⟩, parsed_and_distinct_iff m⟩

/-- Two instances of one plugin under an id each. -/
example : HasKeys (insertAll ∅
    [({ code := "header-modifier", name := .anon "0" }, .null),
      ({ code := "header-modifier", name := .named "my-plugin" }, .null)]) :=
  ⟨by decide +kernel, by decide +kernel⟩

/-- The only instance of a plugin. -/
def redirect : PluginInstanceMap :=
  insert ∅ { code := "redirect", name := .mono } .null

/-- An instance whose name ends with a hyphen. -/
def redirectHome : PluginInstanceMap :=
  insert ∅ { code := "redirect", name := .named "home-" } .null

/-- Instances of two plugins, the code of one of which goes on into the name of the other. -/
def limits : PluginInstanceMap :=
  insertAll ∅
    [({ code := "limit", name := .named "per-ip-n-day" }, .null),
      ({ code := "limit-n-per-ip", name := .named "day" }, .null)]

/-- The first map is read as the empty one, in the second a hyphen is lost, and in the third
one of the two instances. -/
theorem redirect_and_limits_not_restored :
    (deserialize .unchanged (serialize .unchanged redirect) = .ok ∅ ∧ redirect ≠ ∅) ∧
    (deserialize .unchanged (serialize .unchanged redirectHome) =
        .ok (insert ∅ { code := "redirect", name := .named "home" } .null) ∧
      redirectHome ≠ insert ∅ { code := "redirect", name := .named "home" } .null) ∧
    (deserialize .unchanged (serialize .unchanged limits) =
        .ok (insert ∅ { code := "limit-n-per-ip", name := .named "day" } .null) ∧
      limits ≠ insert ∅ { code := "limit-n-per-ip", name := .named "day" } .null) := by
  have he : ∀ a b : PluginInstanceMap, a.entries.map (·.1) ≠ b.entries.map (·.1) → a ≠ b := by
    rintro a b hNe rfl
    exact hNe rfl
  refine ⟨⟨by rfl, he _ _ (by decide +kernel)⟩, ⟨by rfl, he _ _ (by decide +kernel)⟩,
    ⟨by rfl, he _ _ (by decide +kernel)⟩⟩

end PluginInstanceMap
end Spacegate.Model
