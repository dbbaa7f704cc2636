import Mathlib.Data.String.Basic
import Spacegate.Foundation.SortedMap
import Spacegate.Foundation.Text

/-!
# Bearer challenges of registries

The parameters of a `WWW-Authenticate` header are separated by the commas that are not quoted.
-/

namespace Spacegate.PluginWasm.BearerChallenge

open Foundation Text List

/-- The loop of `split_quoted_commas`: the part that was begun and the characters that follow. -/
def splitParts : Bool → List Char → List Char → List String
  | _, part, [] => [trim (String.ofList part)]
  | inQuotes, part, c :: rest =>
    if c = '"' then splitParts (!inQuotes) (part ++ [c]) rest
    else if c = ',' ∧ inQuotes = false then
      trim (String.ofList part) :: splitParts inQuotes [] rest
    else splitParts inQuotes (part ++ [c]) rest

def splitQuotedCommas (value : String) : List String :=
  splitParts false [] value.toList

/-- A part without `=` is passed over. -/
def insertPart (params : SortedMap String String) (part : String) : SortedMap String String :=
  match splitOnce '=' part with
  | none => params
  | some (key, value) =>
    params.insert (toAsciiLowercase (trim key)) (trimMatches '"' (trim value))

def parseBearerChallenge (header : String) : Option (SortedMap String String) :=
  (stripStart "Bearer " (trim header)).map fun rest =>
    (splitQuotedCommas rest).foldl insertPart ∅

/-! ## Challenges -/

def delimiters : List Char :=
  "\"(),/:;<=>?@[\\]\x7b\x7d".toList

/-- Visible characters that are no delimiters. -/
def IsToken (s : String) : Prop :=
  s ≠ "" ∧ ∀ c ∈ s.toList, (33 ≤ c.toNat ∧ c.toNat ≤ 126) ∧ c ∉ delimiters

def IsBlanks (s : String) : Prop :=
  ∀ c ∈ s.toList, c = ' ' ∨ c = '\t'

instance (s : String) : Decidable (IsToken s) :=
  inferInstanceAs (Decidable (_ ∧ _))

instance (s : String) : Decidable (IsBlanks s) :=
  inferInstanceAs (Decidable (∀ _ ∈ s.toList, _))

structure Param where
  name : String
  value : String
  name_isToken : IsToken name
  value_unquoted : '"' ∉ value.toList ∧ '\\' ∉ value.toList

def Param.text (p : Param) : String :=
  p.name ++ "=" ++ ("\"" ++ p.value ++ "\"")

/-- A comma and a parameter, with blanks before and after the comma. -/
structure Next where
  before : String
  after : String
  param : Param
  before_isBlanks : IsBlanks before
  after_isBlanks : IsBlanks after

def Next.text (next : Next) : String :=
  next.before ++ "," ++ (next.after ++ next.param.text)

def nextText : List Next → String
  | [] => ""
  | next :: others => next.text ++ nextText others

def header (first : Param) (others : List Next) : String :=
  "Bearer " ++ (first.text ++ nextText others)

def params (first : Param) (others : List Next) : List Param :=
  first :: others.map Next.param

variable {c d : Char} {xs part rest : List Char} {s before after : String} {first p : Param}
  {others : List Next} {inQuotes : Bool}

/-! ## Blanks around a part -/

theorem trim_append (hb : IsBlanks before) (ha : IsBlanks after)
    (hs : s.toList = c :: (xs ++ [d])) (hc : isWhitespace c = false)
    (hd : isWhitespace d = false) : trim (before ++ s ++ after) = s := by
  have hBlank : ∀ {t : String}, IsBlanks t → ∀ e ∈ t.toList, isWhitespace e = true := by
    intro t ht e he
    rcases ht e he with rfl | rfl
    · decide
    · decide
  have hFront : (before ++ s ++ after).toList.dropWhile isWhitespace = (s ++ after).toList := by
    rw [String.append_assoc, String.toList_append, dropWhile_append_of_pos (hBlank hb),
      String.toList_append, hs]
    exact dropWhile_cons_of_neg (by simp [hc])
  have hEnd : (s ++ after).toList.reverse.dropWhile isWhitespace = s.toList.reverse := by
    rw [String.toList_append, reverse_append, dropWhile_append_of_pos
      fun e he => hBlank ha e (mem_reverse.mp he), hs, reverse_cons, reverse_concat]
    exact dropWhile_cons_of_neg (by simp [hd])
  rw [trim, hFront, hEnd, reverse_reverse, String.ofList_toList]

theorem isBlanks_empty : IsBlanks "" := by
  simp [IsBlanks]

theorem trim_eq_of_edges (hs : s.toList = c :: (xs ++ [d])) (hc : isWhitespace c = false)
    (hd : isWhitespace d = false) : trim s = s := by
  simpa using trim_append isBlanks_empty isBlanks_empty hs hc hd

/-! ## One parameter -/

theorem IsToken.notMem (h : IsToken s) (hc : c ∈ delimiters) : c ∉ s.toList :=
  fun hm => (h.2 c hm).2 hc

theorem IsToken.visible (h : IsToken s) : ∀ c ∈ s.toList, isWhitespace c = false :=
  fun c hc => isWhitespace_of_visible (h.2 c hc).1.1 (h.2 c hc).1.2

variable (p : Param)

theorem trim_text (hb : IsBlanks before) (ha : IsBlanks after) :
    trim (before ++ p.text ++ after) = p.text := by
  cases hn : p.name.toList with
  | nil => exact absurd (String.toList_eq_nil_iff.mp hn) p.name_isToken.1
  | cons c rest =>
    have ht : p.text.toList = c :: (rest ++ '=' :: '"' :: p.value.toList ++ ['"']) := by
      simp [Param.text, hn]
    exact trim_append hb ha ht (p.name_isToken.visible c (by simp [hn])) (by decide)

theorem trimMatches_quoted (h : '"' ∉ s.toList) : trimMatches '"' ("\"" ++ s ++ "\"") = s := by
  rw [← String.toList_inj, toList_trimMatches]
  cases hs : s.toList with
  | nil => simp [hs]
  | cons x xs =>
    rw [hs] at h
    have hx : ¬ x = '"' := fun he => h (by simp [he])
    have hFront : ("\"" ++ s ++ "\"").toList.dropWhile (· == '"') = x :: xs ++ ['"'] := by
      simp [hs, hx]
    rw [hFront, rdropWhile_concat_pos _ _ _ (by decide), rdropWhile_eq_self_iff]
    intro hne
    simp only [beq_iff_eq]
    exact fun he => h (he ▸ getLast_mem hne)

theorem insertPart_text (m : SortedMap String String) (p : Param) :
    insertPart m p.text = m.insert (toAsciiLowercase p.name) p.value := by
  have hCut : splitOnce '=' p.text = some (p.name, "\"" ++ p.value ++ "\"") :=
    splitOnce_eq_some_iff.mpr ⟨by simp [Param.text], p.name_isToken.notMem (by decide)⟩
  have hEdges : ("\"" ++ p.value ++ "\"").toList = '"' :: (p.value.toList ++ ['"']) := by
    simp
  have hTrim := trim_eq_of_edges hEdges (by decide) (by decide)
  simp [insertPart, hCut, hTrim, trim_eq_self p.name_isToken.visible,
    trimMatches_quoted p.value_unquoted.1]

/-! ## The parts of a header -/

/-- Nothing is cut where there is no quote, and no comma or only quoted ones. -/
theorem splitParts_append (hq : '"' ∉ xs) (hc : inQuotes = true ∨ ',' ∉ xs) :
    splitParts inQuotes part (xs ++ rest) = splitParts inQuotes (part ++ xs) rest := by
  induction xs generalizing part with
  | nil => simp
  | cons x xs ih =>
    simp only [mem_cons, not_or] at hq hc
    have hx : ¬ (x = ',' ∧ inQuotes = false) := by
      rintro ⟨rfl, rfl⟩
      simp at hc
    rw [cons_append, splitParts, if_neg (Ne.symm hq.1), if_neg hx, ih hq.2 (hc.imp_right And.right)]
    simp

theorem splitParts_quote :
    splitParts inQuotes part ('"' :: rest) = splitParts (!inQuotes) (part ++ ['"']) rest := by
  rw [splitParts, if_pos rfl]

theorem splitParts_blanks (hb : IsBlanks s) :
    splitParts false part (s.toList ++ rest) = splitParts false (part ++ s.toList) rest := by
  refine splitParts_append (fun hm => ?_) (Or.inr fun hm => ?_)
  · simpa using hb _ hm
  · simpa using hb _ hm

/-- The quotes of a parameter are closed again. -/
theorem splitParts_text : splitParts false part (p.text.toList ++ rest) =
      splitParts false (part ++ p.text.toList) rest := by
  have hText : p.text.toList = p.name.toList ++ (['='] ++ '"' :: (p.value.toList ++ ['"'])) := by
    simp [Param.text]
  calc splitParts false part (p.text.toList ++ rest)
      = splitParts false part (p.name.toList ++ (['='] ++ '"' :: (p.value.toList ++
          '"' :: rest))) := by simp [hText]
    _ = splitParts false (part ++ p.name.toList ++ ['=']) ('"' :: (p.value.toList ++
          '"' :: rest)) := by
        rw [splitParts_append (p.name_isToken.notMem (by decide))
          (Or.inr (p.name_isToken.notMem (by decide))),
          splitParts_append (by decide) (Or.inr (by decide))]
    _ = splitParts true (part ++ p.name.toList ++ ['='] ++ ['"'] ++ p.value.toList)
          ('"' :: rest) := by
        rw [splitParts_quote]
        exact splitParts_append p.value_unquoted.1 (Or.inl rfl)
    _ = splitParts false (part ++ p.text.toList) rest := by
        rw [splitParts_quote]
        simp [hText]

theorem splitParts_nextText (hb : IsBlanks before) (others : List Next) :
    splitParts false (before ++ p.text).toList (nextText others).toList =
      (params p others).map Param.text := by
  induction others generalizing before p with
  | nil => simpa [nextText, splitParts, params] using trim_text p hb isBlanks_empty
  | cons next others ih =>
    have hTrim := trim_text p hb next.before_isBlanks
    calc splitParts false (before ++ p.text).toList (nextText (next :: others)).toList
        = splitParts false (before ++ p.text).toList (next.before.toList ++ ',' ::
            (next.after.toList ++ (next.param.text.toList ++ (nextText others).toList))) := by
          simp [nextText, Next.text]
      _ = p.text :: splitParts false [] (next.after.toList ++
            (next.param.text.toList ++ (nextText others).toList)) := by
          rw [splitParts_blanks next.before_isBlanks, splitParts, if_neg (by decide),
            if_pos ⟨rfl, rfl⟩, ← String.toList_append, String.ofList_toList, hTrim]
      _ = p.text :: (params next.param others).map Param.text := by
          rw [splitParts_blanks next.after_isBlanks, splitParts_text, nil_append,
            ← String.toList_append, ih next.param next.after_isBlanks]
      _ = (params p (next :: others)).map Param.text := rfl

variable (first : Param) (others : List Next)

theorem exists_header_ends : ∃ xs, (first.text ++ nextText others).toList = xs ++ ['"'] := by
  induction others generalizing first with
  | nil => exact ⟨first.name.toList ++ '=' :: '"' :: first.value.toList, by
      simp [nextText, Param.text]⟩
  | cons next others ih =>
    obtain ⟨xs, hx⟩ := ih next.param
    refine ⟨(first.text ++ next.before ++ "," ++ next.after).toList ++ xs, ?_⟩
    rw [append_assoc, ← hx]
    simp [nextText, Next.text]

theorem parseBearerChallenge_eq :
    parseBearerChallenge (header first others) = some ((∅ : SortedMap String String).insertAll
      ((params first others).map fun p => (toAsciiLowercase p.name, p.value))) := by
  obtain ⟨xs, hx⟩ := exists_header_ends first others
  have hEdges : (header first others).toList = 'B' :: ("earer ".toList ++ xs ++ ['"']) := by
    rw [header, String.toList_append, hx]
    rfl
  have hTrim := trim_eq_of_edges hEdges (by decide) (by decide)
  have hParts : splitQuotedCommas (first.text ++ nextText others) =
      (params first others).map Param.text := by
    rw [splitQuotedCommas, String.toList_append, splitParts_text, nil_append]
    simpa using splitParts_nextText first isBlanks_empty others
  rw [parseBearerChallenge, hTrim, header, stripStart_eq_some_iff.mpr rfl, Option.map_some, hParts,
    SortedMap.insertAll, foldl_map, foldl_map]
  simp [insertPart_text]

/-- Exactly the parameters are in the map. -/
theorem parseBearerChallenge_header
    (hd : ((params first others).map fun p => toAsciiLowercase p.name).Nodup) :
    ∃ m, parseBearerChallenge (header first others) = some m ∧
      ∀ key value, m.get key = some value ↔
        ∃ p ∈ params first others, toAsciiLowercase p.name = key ∧ p.value = value := by
  refine ⟨_, parseBearerChallenge_eq first others, fun key value => ?_⟩
  rw [SortedMap.get_insertAll_empty, WriteHistory.latest_eq_some_iff_of_unique]
  · simp
  · intro value value' hv hv'
    simp only [mem_map, Prod.mk.injEq] at hv hv'
    obtain ⟨p, hp, hKey, rfl⟩ := hv
    obtain ⟨q, hq, hKey', rfl⟩ := hv'
    rw [inj_on_of_nodup_map hd hp hq (hKey.trans hKey'.symm)]

def realm : Param where
  name := "Realm"
  value := "https://auth.example.com/token"
  name_isToken := by decide
  value_unquoted := by decide

def scope : Next where
  before := ""
  after := " "
  param := {
    name := "scope"
    value := " a,b = c"
    name_isToken := by decide
    value_unquoted := by decide }
  before_isBlanks := by decide
  after_isBlanks := by decide

theorem realm_scope_parsed :
    ∃ m, parseBearerChallenge (header realm [scope]) = some m ∧
      ∀ key value, m.get key = some value ↔
        ∃ p ∈ params realm [scope], toAsciiLowercase p.name = key ∧ p.value = value :=
  parseBearerChallenge_header realm [scope] (by decide)

end Spacegate.PluginWasm.BearerChallenge
