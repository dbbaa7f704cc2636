import Mathlib.Data.List.DropRight
import Mathlib.Tactic

/-!
# Text operations of the Rust standard library

The gateway decides almost everything by cutting request text at separators and
comparing the pieces, so the `str` methods it calls are collected here once.
Each operation is stated on `String` and computed on its list of characters,
which keeps the definitions executable and lets every lemma be proved by list
induction.

`Char.toLower` of the core library changes exactly `'A'..'Z'`, which is the
behaviour of `to_ascii_lowercase`; no Unicode case mapping is involved.
-/

namespace Spacegate.Foundation.Text

open List Nat

/-- `str::to_ascii_lowercase`. -/
def toAsciiLowercase (s : String) : String :=
  String.ofList (s.toList.map Char.toLower)

/-- `str::eq_ignore_ascii_case`. -/
def eqIgnoreAsciiCase (s t : String) : Bool :=
  toAsciiLowercase s == toAsciiLowercase t

/-- `str::split` at one separator character.  The empty text has one piece,
the empty one. -/
def split (separator : Char) (s : String) : List String :=
  (s.toList.splitOn separator).map String.ofList

/-- `str::split_once` at the first separator, on characters. -/
def splitOnceList (separator : Char) : List Char → Option (List Char × List Char)
  | [] => none
  | c :: rest =>
    if c = separator then
      some ([], rest)
    else
      (splitOnceList separator rest).map fun pieces => (c :: pieces.1, pieces.2)

/-- `str::split_once` at the first separator. -/
def splitOnce (separator : Char) (s : String) : Option (String × String) :=
  (splitOnceList separator s.toList).map fun pieces =>
    (String.ofList pieces.1, String.ofList pieces.2)

/-- `str::split_once` at the first occurrence of a text, on characters. -/
def splitOnceAtList (pattern : List Char) : List Char → Option (List Char × List Char)
  | [] => if pattern = [] then some ([], []) else none
  | c :: rest =>
    match pattern.isPrefixOf? (c :: rest) with
    | some after => some ([], after)
    | none =>
      (splitOnceAtList pattern rest).map fun pieces => (c :: pieces.1, pieces.2)

/-- `str::split_once` at the first occurrence of a text. -/
def splitOnceAt (pattern s : String) : Option (String × String) :=
  (splitOnceAtList pattern.toList s.toList).map fun pieces =>
    (String.ofList pieces.1, String.ofList pieces.2)

/-- `str::splitn(2, separator)`: the text before the first separator, and the rest if there
is one. -/
def splitTwo (separator : Char) (s : String) : String × Option String :=
  match splitOnce separator s with
  | some (before, after) => (before, some after)
  | none => (s, none)

/-- `str::rsplit_once` at the last separator: the first cut of the reversed
text, with both pieces turned back. -/
def rsplitOnce (separator : Char) (s : String) : Option (String × String) :=
  (splitOnceList separator s.toList.reverse).map fun pieces =>
    (String.ofList pieces.2.reverse, String.ofList pieces.1.reverse)

/-- `str::trim_start_matches` with one character. -/
def trimStartMatches (c : Char) (s : String) : String :=
  String.ofList (s.toList.dropWhile (· == c))

/-- `str::trim_matches` with one character. -/
def trimMatches (c : Char) (s : String) : String :=
  String.ofList (((s.toList.dropWhile (· == c)).reverse.dropWhile (· == c)).reverse)

/-- `str::strip_prefix`: what follows the given beginning. -/
def stripStart (start s : String) : Option String :=
  (start.toList.isPrefixOf? s.toList).map String.ofList

/-- `str::strip_suffix`: what precedes the given ending. -/
def stripEnd (ending s : String) : Option String :=
  (ending.toList.reverse.isPrefixOf? s.toList.reverse).map fun rest =>
    String.ofList rest.reverse

/-- `str::starts_with` with one character. -/
def startsWith (c : Char) (s : String) : Bool :=
  s.toList.head? == some c

/-- `str::ends_with` with one character. -/
def endsWith (c : Char) (s : String) : Bool :=
  s.toList.getLast? == some c

/-- `char::is_whitespace`: the characters of the Unicode property `White_Space`. -/
def isWhitespace (c : Char) : Bool :=
  let n := c.toNat
  (9 ≤ n && n ≤ 13) || n == 0x20 || n == 0x85 || n == 0xa0 || n == 0x1680 ||
    (0x2000 ≤ n && n ≤ 0x200a) || n == 0x2028 || n == 0x2029 || n == 0x202f ||
    n == 0x205f || n == 0x3000

/-- `str::trim`. -/
def trim (s : String) : String :=
  String.ofList (((s.toList.dropWhile isWhitespace).reverse.dropWhile isWhitespace).reverse)

/-- `from_str` of an unsigned integer type of the given width. -/
def parseUnsigned (width : Nat) (s : String) : Option Nat :=
  let digits :=
    match s.toList with
    | '+' :: rest => rest
    | chars => chars
  if digits = [] then none
  else
    digits.foldlM (fun value c =>
      if c.isDigit ∧ value * 10 + (c.toNat - '0'.toNat) < 2 ^ width then
        some (value * 10 + (c.toNat - '0'.toNat))
      else none) 0

/-- `trim().is_empty()`. -/
def isBlank (s : String) : Bool :=
  (trim s).isEmpty

/-- The pieces between separators, with the empty ones dropped:
`split(c).filter(|s| !s.is_empty())`. -/
def segments (separator : Char) (s : String) : List String :=
  (split separator s).filter fun piece => !piece.isEmpty

variable {c d separator : Char} {s t before after : String} {xs piece digits : List Char}
  {width value n : Nat}

theorem isWhitespace_of_visible (hf : 33 ≤ c.toNat) (hTo : c.toNat ≤ 126) :
    isWhitespace c = false := by
  simp only [isWhitespace, Bool.or_eq_false_iff, Bool.and_eq_false_iff, decide_eq_false_iff_not,
    beq_eq_false_iff_ne]
  omega

theorem trim_eq_self (h : ∀ c ∈ s.toList, isWhitespace c = false) : trim s = s := by
  have hd : ∀ xs : List Char, (∀ c ∈ xs, isWhitespace c = false) →
      xs.dropWhile isWhitespace = xs := by
    intro xs hAll
    cases xs with
    | nil => rfl
    | cons c rest => exact dropWhile_cons_of_neg (by simp [hAll c mem_cons_self])
  rw [trim, hd s.toList h, hd s.toList.reverse fun c hc => h c (mem_reverse.mp hc),
    reverse_reverse, String.ofList_toList]

theorem trim_trim (s : String) : trim (trim s) = trim s := by
  -- what is left begins, like the text without leading space, with a character that stays
  have hs : ∀ xs : List Char,
      ((xs.dropWhile isWhitespace).rdropWhile isWhitespace).dropWhile isWhitespace =
        (xs.dropWhile isWhitespace).rdropWhile isWhitespace := by
    intro xs
    cases ht : (xs.dropWhile isWhitespace).rdropWhile isWhitespace with
    | nil => rfl
    | cons c rest =>
      have hp : c :: rest <+: xs.dropWhile isWhitespace := by
        rw [← ht]
        exact rdropWhile_prefix isWhitespace _
      obtain ⟨after, ha⟩ := hp
      have hh : (xs.dropWhile isWhitespace).head? = some c := by
        rw [← ha]
        rfl
      have hNot := head?_dropWhile_not isWhitespace xs
      rw [hh] at hNot
      simp [hNot]
  have hTrim : ∀ t : String, trim t =
      String.ofList ((t.toList.dropWhile isWhitespace).rdropWhile isWhitespace) := fun _ => rfl
  rw [hTrim (trim s), hTrim s, String.toList_ofList, hs, rdropWhile_idempotent]

theorem mem_of_mem_trim (h : c ∈ (trim s).toList) : c ∈ s.toList := by
  rw [trim, String.toList_ofList, mem_reverse] at h
  have hEnd := (dropWhile_suffix isWhitespace).subset h
  rw [mem_reverse] at hEnd
  exact (dropWhile_suffix isWhitespace).subset hEnd

/-! ## Beginnings and ends -/

theorem stripStart_eq_some_iff {start rest : String} :
    stripStart start s = some rest ↔ s = start ++ rest := by
  rw [stripStart, Option.map_eq_some_iff, ← String.toList_inj, String.toList_append]
  constructor
  · rintro ⟨chars, hc, rfl⟩
    rw [← isPrefixOf?_eq_some_iff_append_eq.mp hc, String.toList_ofList]
  · intro h
    exact ⟨rest.toList, isPrefixOf?_eq_some_iff_append_eq.mpr h.symm, String.ofList_toList⟩

theorem endsWith_eq_false_iff :
    endsWith c s = false ↔ ∀ h : s.toList ≠ [], s.toList.getLast h ≠ c := by
  unfold endsWith
  cases hc : s.toList with
  | nil => simp
  | cons x xs => simp [getLast?_eq_some_getLast (cons_ne_nil x xs)]

theorem toList_trimMatches (c : Char) (s : String) :
    (trimMatches c s).toList = (s.toList.dropWhile (· == c)).rdropWhile (· == c) := by
  simp [trimMatches, rdropWhile]

theorem endsWith_trimMatches (c : Char) (s : String) : endsWith c (trimMatches c s) = false := by
  rw [endsWith_eq_false_iff, toList_trimMatches]
  intro h
  simpa using rdropWhile_last_not (· == c) _ h

theorem trimMatches_eq (hCons : t.toList = c :: s.toList) (hs : startsWith c s = false)
    (hEnd : endsWith c s = false) : trimMatches c t = s := by
  rw [← String.toList_inj, toList_trimMatches, hCons]
  have hd : (c :: s.toList).dropWhile (· == c) = s.toList := by
    cases hc : s.toList with
    | nil => simp
    | cons x xs =>
      have hNe : ¬ x = c := by simpa [startsWith, hc] using hs
      simp [hNe]
  rw [hd, rdropWhile_eq_self_iff]
  intro h
  simpa using endsWith_eq_false_iff.mp hEnd h

/-- Trimming keeps the first character of a text that begins with another one. -/
theorem head?_trimMatches (hCons : t.toList = c :: s.toList) (hh : s.toList.head? = some d)
    (hNe : d ≠ c) : (trimMatches c t).toList.head? = some d := by
  obtain ⟨rest, hc⟩ : ∃ rest, s.toList = d :: rest := by
    cases hc : s.toList with
    | nil => simp [hc] at hh
    | cons x xs => exact ⟨xs, by simpa [hc] using hh⟩
  rw [toList_trimMatches, hCons, hc]
  have hd : (c :: d :: rest).dropWhile (· == c) = d :: rest := by simp [hNe]
  rw [hd]
  -- the first character stays, so what is left is a non-empty beginning of the text
  have hn : (d :: rest).rdropWhile (· == c) ≠ [] := by
    rw [Ne, rdropWhile_eq_nil_iff]
    intro hAll
    simpa [hNe] using hAll d mem_cons_self
  obtain ⟨after, ha⟩ := rdropWhile_prefix (· == c) (d :: rest)
  rw [← head?_append_of_ne_nil _ hn, ha]
  rfl

/-! ## Case folding -/

@[simp] theorem toList_toAsciiLowercase (s : String) :
    (toAsciiLowercase s).toList = s.toList.map Char.toLower := by
  simp [toAsciiLowercase]

@[simp] theorem eqIgnoreAsciiCase_iff (s t : String) :
    eqIgnoreAsciiCase s t = true ↔ toAsciiLowercase s = toAsciiLowercase t := by
  simp [eqIgnoreAsciiCase]

/-- Lowering shifts the code points of `'A'..'Z'` by 32 and fixes all others. -/
theorem toNat_toLower (c : Char) :
    c.toLower.toNat = if 65 ≤ c.toNat ∧ c.toNat ≤ 90 then c.toNat + 32 else c.toNat := by
  have hIff : 'A'.val ≤ c.val ∧ c.val ≤ 'Z'.val ↔ 65 ≤ c.toNat ∧ c.toNat ≤ 90 := .rfl
  unfold Char.toLower
  by_cases h : 65 ≤ c.toNat ∧ c.toNat ≤ 90
  · rw [dif_pos (hIff.mpr h), if_pos h]
    change (c.toNat + 32) % 2 ^ 32 = c.toNat + 32
    omega
  · rw [dif_neg (mt hIff.mp h), if_neg h]

theorem toLower_eq_iff (hu : ¬ (65 ≤ d.toNat ∧ d.toNat ≤ 90))
    (hl : ¬ (97 ≤ d.toNat ∧ d.toNat ≤ 122)) : c.toLower = d ↔ c = d := by
  rw [← Char.toNat_inj, ← Char.toNat_inj, toNat_toLower]
  split <;> omega

theorem toLower_eq_dot_iff (c : Char) : c.toLower = '.' ↔ c = '.' :=
  toLower_eq_iff (by decide) (by decide)

/-! ## Splitting -/

/-- A map that neither creates nor destroys separators commutes with cutting a
list at them. -/
theorem splitOn_map {α : Type*} [BEq α] [LawfulBEq α] (f : α → α) (separator : α)
    (hs : ∀ x, f x = separator ↔ x = separator) (xs : List α) :
    (xs.map f).splitOn separator = (xs.splitOn separator).map (map f) := by
  induction xs with
  | nil => simp
  | cons x xs ih =>
    rw [map_cons, splitOn_cons_eq_if_modifyHead, splitOn_cons_eq_if_modifyHead, ih]
    by_cases hx : x = separator
    · have hfx : f x = separator := (hs x).mpr hx
      simp [hx, hs]
    · have hfx : f x ≠ separator := fun h => hx ((hs x).mp h)
      simp only [beq_eq_false_iff_ne.mpr hx, beq_eq_false_iff_ne.mpr hfx,
        Bool.false_eq_true, if_false]
      cases h : xs.splitOn separator with
      | nil => exact absurd h (splitOn_ne_nil separator xs)
      | cons piece pieces => simp

/-- The cut is at the first separator. -/
theorem splitOnceList_eq_some_iff {before after : List Char} :
    splitOnceList separator xs = some (before, after) ↔
      xs = before ++ separator :: after ∧ separator ∉ before := by
  induction xs generalizing before with
  | nil => simp [splitOnceList]
  | cons x xs ih =>
    unfold splitOnceList
    split_ifs with hx
    · subst hx
      cases before with
      | nil => simp [eq_comm]
      | cons b before =>
        simp only [Option.some.injEq, Prod.mk.injEq, nil_eq, reduceCtorEq, false_and,
          cons_append, cons.injEq, mem_cons, not_or, false_iff]
        rintro ⟨⟨rfl, -⟩, hNe, -⟩
        exact hNe rfl
    · cases before with
      | nil => simp [hx]
      | cons b before =>
        simp only [Option.map_eq_some_iff, Prod.exists, Prod.mk.injEq, cons.injEq,
          cons_append, mem_cons, not_or]
        constructor
        · rintro ⟨before', after', hs, ⟨rfl, rfl⟩, rfl⟩
          obtain ⟨hEq, hNot⟩ := ih.mp hs
          exact ⟨⟨rfl, hEq⟩, Ne.symm hx, hNot⟩
        · rintro ⟨⟨rfl, hEq⟩, -, hNot⟩
          exact ⟨before, after, ih.mpr ⟨hEq, hNot⟩, ⟨rfl, rfl⟩, rfl⟩

theorem splitOnceList_eq_none_iff : splitOnceList separator xs = none ↔ separator ∉ xs := by
  induction xs with
  | nil => simp [splitOnceList]
  | cons x xs ih =>
    unfold splitOnceList
    split_ifs with hx
    · simp [hx]
    · simp [ih, Ne.symm hx]

theorem splitOnce_eq_some_iff : splitOnce separator s = some (before, after) ↔
      s.toList = before.toList ++ separator :: after.toList ∧ separator ∉ before.toList := by
  simp only [splitOnce, Option.map_eq_some_iff, Prod.exists, Prod.mk.injEq]
  constructor
  · rintro ⟨xs, ys, hs, rfl, rfl⟩
    simpa using splitOnceList_eq_some_iff.mp hs
  · rintro h
    exact ⟨before.toList, after.toList, splitOnceList_eq_some_iff.mpr h, by simp, by simp⟩

theorem rsplitOnce_eq_some_iff : rsplitOnce separator s = some (before, after) ↔
      s.toList = before.toList ++ separator :: after.toList ∧ separator ∉ after.toList := by
  simp only [rsplitOnce, Option.map_eq_some_iff, Prod.exists, Prod.mk.injEq]
  constructor
  · rintro ⟨xs, ys, hs, rfl, rfl⟩
    obtain ⟨hEq, hNot⟩ := splitOnceList_eq_some_iff.mp hs
    refine ⟨?_, by simpa using hNot⟩
    rw [← reverse_reverse s.toList, hEq]
    simp
  · rintro ⟨hEq, hNot⟩
    refine ⟨after.toList.reverse, before.toList.reverse, ?_, by simp, by simp⟩
    rw [splitOnceList_eq_some_iff]
    exact ⟨by rw [hEq]; simp, by simpa using hNot⟩

theorem split_of_notMem (h : separator ∉ s.toList) : split separator s = [s] := by
  simp [split, splitOn_eq_singleton h]

theorem split_eq_cons (ht : s.toList = before.toList ++ separator :: after.toList)
    (hb : separator ∉ before.toList) : split separator s = before :: split separator after := by
  simp [split, ht, splitOn_append_cons_self, splitOn_eq_singleton hb]

theorem split_dot_toAsciiLowercase (s : String) :
    split '.' (toAsciiLowercase s) = (split '.' s).map toAsciiLowercase := by
  simp only [split, toList_toAsciiLowercase]
  rw [splitOn_map Char.toLower '.' toLower_eq_dot_iff]
  simp only [map_map]
  apply map_congr_left
  intro piece _
  rw [← String.toList_inj]
  simp

/-! ## Segments -/

variable (separator : Char)

/-- The segments of a text as lists of characters. -/
def pieces (xs : List Char) : List (List Char) :=
  (xs.splitOn separator).filter fun piece => !piece.isEmpty

theorem segments_eq_pieces (s : String) :
    segments separator s = (pieces separator s.toList).map String.ofList := by
  unfold segments split pieces
  rw [filter_map]
  congr 1
  apply filter_congr
  intro piece _
  cases piece <;> simp

theorem pieces_append_cons (xs ys : List Char) :
    pieces separator (xs ++ separator :: ys) = pieces separator xs ++ pieces separator ys := by
  rw [pieces, splitOn_append_cons_self, filter_append]
  rfl

@[simp] theorem pieces_nil : pieces separator [] = [] := by
  simp [pieces]

theorem pieces_cons_self (xs : List Char) :
    pieces separator (separator :: xs) = pieces separator xs := by
  simpa using pieces_append_cons separator [] xs

theorem pieces_concat_self (xs : List Char) :
    pieces separator (xs ++ [separator]) = pieces separator xs := by
  simpa using pieces_append_cons separator xs []

variable {separator}

theorem pieces_of_notMem (h : separator ∉ xs) (hne : xs ≠ []) : pieces separator xs = [xs] := by
  rw [pieces, splitOn_eq_singleton h]
  cases xs with
  | nil => exact absurd rfl hne
  | cons x xs => rfl

theorem pieces_dropWhile (separator : Char) (xs : List Char) :
    pieces separator (xs.dropWhile (· == separator)) = pieces separator xs := by
  induction xs with
  | nil => rfl
  | cons x xs ih =>
    by_cases hx : x = separator
    · subst hx
      rw [dropWhile_cons_of_pos (by simp), ih, pieces_cons_self]
    · rw [dropWhile_cons_of_neg (by simpa using hx)]

theorem pieces_trimEnd (separator : Char) (xs : List Char) :
    pieces separator (xs.reverse.dropWhile (· == separator)).reverse = pieces separator xs := by
  induction xs using reverseRecOn with
  | nil => rfl
  | append_singleton xs x ih =>
    rw [reverse_append, reverse_singleton, singleton_append]
    by_cases hx : x = separator
    · subst hx
      rw [dropWhile_cons_of_pos (by simp), ih, pieces_concat_self]
    · rw [dropWhile_cons_of_neg (by simpa using hx)]
      simp

/-- The characters of the pieces are those of the text, the separator apart. -/
theorem exists_mem_splitOn_iff (separator : Char) (xs : List Char) (c : Char) :
    (∃ piece ∈ xs.splitOn separator, c ∈ piece) ↔ c ∈ xs ∧ c ≠ separator := by
  induction xs with
  | nil => simp
  | cons x xs ih =>
    rw [splitOn_cons_eq_if_modifyHead]
    obtain ⟨first, others, hs⟩ := exists_cons_of_ne_nil (splitOn_ne_nil separator xs)
    rw [hs] at ih ⊢
    by_cases hx : x = separator
    · subst hx
      simp only [beq_self_eq_true, if_true, mem_cons, exists_eq_or_imp, not_mem_nil,
        false_or] at ih ⊢
      rw [ih]
      tauto
    · simp only [beq_eq_false_iff_ne.mpr hx, Bool.false_eq_true, if_false, modifyHead_cons,
        mem_cons, exists_eq_or_imp] at ih ⊢
      have hc : c = x → c ≠ separator := fun h => h ▸ hx
      rw [or_assoc, ih, or_and_right, and_iff_left_of_imp hc]

theorem notMem_of_mem_splitOn (h : piece ∈ xs.splitOn separator) : separator ∉ piece := by
  intro hMem
  exact ((exists_mem_splitOn_iff separator xs separator).mp ⟨piece, h, hMem⟩).2 rfl

/-- The pieces have no separators. -/
theorem notMem_of_mem_split {piece : String} (h : piece ∈ split separator s) :
    separator ∉ piece.toList := by
  obtain ⟨chars, hc, rfl⟩ := mem_map.mp h
  simpa using notMem_of_mem_splitOn hc

theorem split_eq_singleton_iff {piece : String} :
    split separator s = [piece] ↔ piece = s ∧ separator ∉ s.toList := by
  constructor
  · intro h
    obtain ⟨chars, hc, rfl⟩ := map_eq_singleton_iff.mp h
    have hj : [separator].intercalate (s.toList.splitOn separator) = s.toList :=
      intercalate_splitOn separator
    have hw : chars = s.toList := by simpa [hc] using hj
    subst hw
    exact ⟨by simp, notMem_of_mem_splitOn (by rw [hc]; exact mem_singleton_self _)⟩
  · rintro ⟨rfl, hNot⟩
    exact split_of_notMem hNot

theorem mem_pieces_iff :
    piece ∈ pieces separator xs ↔ piece ∈ xs.splitOn separator ∧ piece ≠ [] := by
  simp [pieces]

/-! ## Texts cut at slashes -/

variable (s : String)

theorem segments_slash_append : segments '/' ("/" ++ s) = segments '/' s := by
  rw [segments_eq_pieces, segments_eq_pieces]
  congr 1
  rw [String.toList_append]
  exact pieces_cons_self '/' s.toList

theorem segments_append_slash : segments '/' (s ++ "/") = segments '/' s := by
  rw [segments_eq_pieces, segments_eq_pieces]
  congr 1
  rw [String.toList_append]
  exact pieces_concat_self '/' s.toList

theorem segments_append_slash_append (s t : String) :
    segments '/' (s ++ "/" ++ t) = segments '/' s ++ segments '/' t := by
  simp only [segments_eq_pieces, ← map_append]
  rw [← pieces_append_cons]
  simp

theorem segments_trimStartMatches : segments '/' (trimStartMatches '/' s) = segments '/' s := by
  rw [segments_eq_pieces, segments_eq_pieces, trimStartMatches, String.toList_ofList,
    pieces_dropWhile]

theorem segments_trimMatches : segments '/' (trimMatches '/' s) = segments '/' s := by
  rw [segments_eq_pieces, segments_eq_pieces, trimMatches, String.toList_ofList,
    pieces_trimEnd, pieces_dropWhile]

/-- A text that is one segment. -/
def IsSegment : Prop :=
  s ≠ "" ∧ '/' ∉ s.toList

instance (s : String) : Decidable (IsSegment s) :=
  inferInstanceAs (Decidable (_ ∧ _))

-- not by going through all characters there are
instance (priority := 2000) decidableAllChars (P : Char → Prop) [DecidablePred P] :
    Decidable (∀ c ∈ s.toList, P c) :=
  decidableBAll P s.toList

variable {s}

theorem segments_of_isSegment (h : IsSegment s) : segments '/' s = [s] := by
  have hl : s.toList ≠ [] := fun hNil => h.1 (String.toList_eq_nil_iff.mp hNil)
  rw [segments_eq_pieces, pieces_of_notMem h.2 hl]
  simp

theorem isSegment_of_mem_segments {seg : String} (h : seg ∈ segments '/' s) : IsSegment seg := by
  rw [segments_eq_pieces, mem_map] at h
  obtain ⟨piece, hp, rfl⟩ := h
  rw [mem_pieces_iff] at hp
  refine ⟨?_, ?_⟩
  · intro he
    rw [← String.toList_inj, String.toList_ofList] at he
    exact hp.2 he
  · rw [String.toList_ofList]
    exact notMem_of_mem_splitOn hp.1

theorem exists_mem_segments_iff (s : String) (c : Char) :
    (∃ seg ∈ segments '/' s, c ∈ seg.toList) ↔ c ∈ s.toList ∧ c ≠ '/' := by
  rw [← exists_mem_splitOn_iff]
  simp only [segments_eq_pieces, mem_map, mem_pieces_iff]
  constructor
  · rintro ⟨_, ⟨piece, ⟨hp, -⟩, rfl⟩, hc⟩
    rw [String.toList_ofList] at hc
    exact ⟨piece, hp, hc⟩
  · rintro ⟨piece, hp, hc⟩
    refine ⟨String.ofList piece, ⟨piece, ⟨hp, ?_⟩, rfl⟩, by rwa [String.toList_ofList]⟩
    rintro rfl
    simp at hc

theorem append_foldl_segments (path acc : String) (segs : List String) :
    path ++ segs.foldl (fun path seg => path ++ "/" ++ seg) acc =
      segs.foldl (fun path seg => path ++ "/" ++ seg) (path ++ acc) := by
  induction segs generalizing acc with
  | nil => rfl
  | cons seg segs ih =>
    rw [foldl_cons, foldl_cons, ih]
    simp [String.append_assoc]

theorem segments_foldl (path : String) {segs : List String} (hs : ∀ seg ∈ segs, IsSegment seg) :
    segments '/' (segs.foldl (fun path seg => path ++ "/" ++ seg) path) =
      segments '/' path ++ segs := by
  induction segs generalizing path with
  | nil => simp
  | cons seg segs ih =>
    have hSeg : segments '/' seg = [seg] := segments_of_isSegment (hs seg (by simp))
    rw [foldl_cons, ih _ fun seg' h => hs seg' (by simp [h]), segments_append_slash_append, hSeg]
    simp

/-! ## Decimal texts -/

theorem le_ofDigitChars (digits : List Char) (value : Nat) :
    value ≤ Nat.ofDigitChars 10 digits value := by
  rw [Nat.ofDigitChars_eq_ofDigitChars_zero]
  have hPos : 0 < 10 ^ digits.length := Nat.pow_pos (by decide)
  have hLe : value ≤ 10 ^ digits.length * value := Nat.le_mul_of_pos_left _ hPos
  omega

theorem foldlM_digits (hDigits : ∀ c ∈ digits, c.isDigit = true)
    (h : ofDigitChars 10 digits value < 2 ^ width) : digits.foldlM (fun value c =>
      if c.isDigit ∧ value * 10 + (c.toNat - '0'.toNat) < 2 ^ width then
        some (value * 10 + (c.toNat - '0'.toNat))
      else none) value = some (ofDigitChars 10 digits value) := by
  induction digits generalizing value with
  | nil => rfl
  | cons c digits ih =>
    rw [ofDigitChars_cons, mul_comm] at h ⊢
    have hs := lt_of_le_of_lt (le_ofDigitChars digits _) h
    rw [foldlM_cons, if_pos ⟨hDigits c mem_cons_self, hs⟩]
    exact ih (fun d hd => hDigits d (mem_cons_of_mem c hd)) h

theorem parseUnsigned_toString (h : n < 2 ^ width) : parseUnsigned width (toString n) = some n := by
  have hd : ∀ c ∈ toDigits 10 n, c.isDigit = true := fun c hc =>
    isDigit_of_mem_toDigits (by decide) (by decide) hc
  unfold parseUnsigned
  rw [toString_eq_ofList_toDigits, String.toList_ofList]
  split
  next digits rest hr =>
    have hs := hd '+' (hr ▸ mem_cons_self)
    exact absurd hs (by decide)
  next =>
    rw [if_neg toDigits_ne_nil, foldlM_digits hd (by rwa [ofDigitChars_ten_toDigits]),
      ofDigitChars_ten_toDigits]

/-! ## Hexadecimal texts -/

/-- The last so many hexadecimal digits of a number, in lower case. -/
def lowerHex : (width : Nat) → Nat → List Char
  | 0, _ => []
  | width + 1, n => lowerHex width (n / 16) ++ [digitChar (n % 16)]

theorem digitChar_inj {m n : Nat} (hm : m < 16) (hn : n < 16)
    (h : Nat.digitChar m = Nat.digitChar n) : m = n := by
  have hAll : ∀ m < 16, ∀ n < 16, digitChar m = digitChar n → m = n := by decide
  exact hAll m hm n hn h

theorem lowerHex_inj {m n width : Nat} (hm : m < 16 ^ width) (hn : n < 16 ^ width)
    (h : lowerHex width m = lowerHex width n) : m = n := by
  induction width generalizing m n with
  | zero => omega
  | succ width ih =>
    obtain ⟨hu, hl⟩ := append_inj' h rfl
    have hd : m % 16 = n % 16 :=
      digitChar_inj (mod_lt _ (by omega)) (mod_lt _ (by omega)) (singleton_inj.mp hl)
    have hr : m / 16 = n / 16 := ih (by omega) (by omega) hu
    omega

/-! ## Separators -/

section Separator

variable {α : Type*} {a : α} {rest before before' after after' overlap : List α}

/-- A separator whose first item does not come again does not overlap with itself. -/
theorem eq_nil_of_separator (ha : a ∉ rest) (hb : ¬ (a :: rest) <:+: before ++ overlap)
    (h : a :: rest ++ after = overlap ++ (a :: rest ++ after')) : overlap = [] := by
  cases overlap with
  | nil => rfl
  | cons first overlap =>
    exfalso
    obtain rfl : a = first := (cons.inj h).1
    have hr : rest ++ after = overlap ++ (a :: rest ++ after') := (cons.inj h).2
    rcases append_eq_append_iff.mp hr with ⟨more, rfl, -⟩ | ⟨more, rfl, hm⟩
    · exact hb ⟨before, more, by simp⟩
    · cases more with
      | nil => exact hb ⟨before, [], by simp⟩
      | cons next more =>
        -- the separator would begin within itself
        obtain ⟨rfl, -⟩ := cons.inj hm
        simp at ha

theorem append_separator_inj (ha : a ∉ rest) (hb : ¬ (a :: rest) <:+: before)
    (hb' : ¬ (a :: rest) <:+: before')
    (h : before ++ (a :: rest) ++ after = before' ++ (a :: rest) ++ after') :
    before = before' ∧ after = after' := by
  rw [append_assoc, append_assoc] at h
  rcases append_eq_append_iff.mp h with ⟨overlap, rfl, ho⟩ | ⟨overlap, rfl, ho⟩
  · obtain rfl := eq_nil_of_separator ha hb' ho
    exact ⟨by simp, by simpa using ho⟩
  · obtain rfl := eq_nil_of_separator ha hb ho
    exact ⟨by simp, by simpa using ho.symm⟩

end Separator

end Spacegate.Foundation.Text
