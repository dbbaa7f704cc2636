import Spacegate.Foundation.Text

/-!
# Texts from bytes

`String::from_utf8_lossy` reads as many characters as it can.  Where no character begins, the
longest part that could have begun one is replaced by `U+FFFD`.
-/

namespace Spacegate.Foundation.Text

open List Option

def isTail (b : UInt8) : Bool :=
  0x80 ≤ b && b ≤ 0xBF

/-- The second bytes that may follow a first one. -/
def isSecond (first second : UInt8) : Bool :=
  if first = 0xE0 then 0xA0 ≤ second && second ≤ 0xBF
  else if first = 0xED then 0x80 ≤ second && second ≤ 0x9F
  else if first = 0xF0 then 0x90 ≤ second && second ≤ 0xBF
  else if first = 0xF4 then 0x80 ≤ second && second ≤ 0x8F
  else isTail second

/-- How many bytes follow a first one. -/
def tails (first : UInt8) : Option Nat :=
  if first < 0x80 then some 0
  else if 0xC2 ≤ first ∧ first ≤ 0xDF then some 1
  else if 0xE0 ≤ first ∧ first ≤ 0xEF then some 2
  else if 0xF0 ≤ first ∧ first ≤ 0xF4 then some 3
  else none

/-- The bits of a first byte, of which the given number of bytes follows. -/
def firstBits (count : Nat) (first : UInt8) : Nat :=
  if count = 0 then first.toNat else first.toNat % 2 ^ (6 - count)

/-- The rest of a character, after the bits that were read. -/
def decodeTails : Nat → Nat → List UInt8 → Option Nat × List UInt8
  | 0, bits, bytes => (some bits, bytes)
  | _ + 1, _, [] => (none, [])
  | count + 1, bits, b :: rest =>
    if isTail b then decodeTails count (bits * 64 + b.toNat % 64) rest else (none, b :: rest)

/-- The character that begins with a byte, if there is one, and the bytes that follow. -/
def decodeChar (first : UInt8) (rest : List UInt8) : Option Nat × List UInt8 :=
  match tails first, rest with
  | none, _ => (none, rest)
  | some 0, _ => (some first.toNat, rest)
  | some _, [] => (none, [])
  | some count, second :: _ =>
    if isSecond first second then decodeTails count (firstBits count first) rest
    else (none, rest)

/-- At most so many characters. -/
def decodeChars : Nat → List UInt8 → List Char
  | 0, _ | _, [] => []
  | fuel + 1, first :: rest =>
    let (code, rest) := decodeChar first rest
    (code.map Char.ofNat).getD (Char.ofNat 0xFFFD) :: decodeChars fuel rest

/-- `String::from_utf8_lossy`.  Each character takes a byte at least. -/
def fromUtf8Lossy (bytes : List UInt8) : String :=
  String.ofList (decodeChars bytes.length bytes)

/-- `str::contains` with a text. -/
def contains (pattern s : String) : Bool :=
  (splitOnceAt pattern s).isSome

/-- A text is split where it contains the pattern for the first time, also if the occurrences
overlap. -/
theorem splitOnceAtList_eq_some_iff {pattern s before after : List Char} (hp : pattern ≠ []) :
    splitOnceAtList pattern s = some (before, after) ↔
      s = before ++ pattern ++ after ∧ ¬ pattern <:+: before ++ pattern.dropLast := by
  have hShort : pattern.dropLast.length < pattern.length := by
    rw [length_dropLast]
    have := length_pos_of_ne_nil hp
    omega
  have hDrop := dropLast_prefix pattern
  -- an occurrence at the front is cut short by the pattern's own beginning only if nothing
  -- stands before it
  have hFront : ∀ {before after : List Char}, pattern <+: before ++ pattern ++ after →
      before ≠ [] → pattern <:+: before ++ pattern.dropLast := by
    intro before after hFront hb
    have hl : pattern.length ≤ (before ++ pattern.dropLast).length := by
      have := length_pos_of_ne_nil hb
      rw [length_append, length_dropLast]
      omega
    have ho : before ++ pattern.dropLast <+: before ++ pattern ++ after := by
      rw [append_assoc, prefix_append_right_inj]
      exact hDrop.trans (prefix_append pattern after)
    exact (prefix_of_prefix_length_le hFront ho hl).isInfix
  induction s generalizing before with
  | nil =>
    rw [splitOnceAtList, if_neg hp]
    simp [hp]
  | cons c rest ih =>
    rw [splitOnceAtList]
    cases hPrefix : pattern.isPrefixOf? (c :: rest) with
    | some rest' =>
      have hr := isPrefixOf?_eq_some_iff_append_eq.mp hPrefix
      simp only [some.injEq, Prod.mk.injEq]
      constructor
      · rintro ⟨rfl, rfl⟩
        refine ⟨hr.symm, ?_⟩
        intro hi
        exact absurd hi.length_le (by simpa using hShort)
      · rintro ⟨hs, hf⟩
        obtain rfl : before = [] := by
          by_contra hb
          refine hf (@hFront before after ?_ hb)
          rw [← hs]
          exact ⟨rest', hr⟩
        rw [nil_append, ← hr, append_cancel_left_eq] at hs
        exact ⟨rfl, hs⟩
    | none =>
      have hNot : ¬ pattern <+: c :: rest := by
        rintro ⟨rest', hr⟩
        rw [isPrefixOf?_eq_some_iff_append_eq.mpr hr] at hPrefix
        cases hPrefix
      cases before with
      | nil =>
        simp only [map_eq_some_iff, Prod.mk.injEq, nil_append]
        constructor
        · rintro ⟨pieces, -, hPieces, -⟩
          cases hPieces
        · rintro ⟨hs, -⟩
          exact absurd ⟨after, hs.symm⟩ hNot
      | cons first before =>
        have ht := @ih before
        simp only [map_eq_some_iff, Prod.mk.injEq, List.cons.injEq, cons_append]
        constructor
        · rintro ⟨⟨before', after'⟩, hPieces, ⟨rfl, rfl⟩, rfl⟩
          obtain ⟨rfl, hf⟩ := ht.mp hPieces
          refine ⟨⟨rfl, rfl⟩, ?_⟩
          intro hi
          rcases infix_cons_iff.mp hi with hPre | hi
          · refine hNot (hPre.trans ?_)
            rw [cons_prefix_cons, append_assoc, prefix_append_right_inj]
            exact ⟨rfl, hDrop.trans (prefix_append pattern after')⟩
          · exact hf hi
        · rintro ⟨⟨rfl, rfl⟩, hf⟩
          refine ⟨(before, after), ht.mpr ⟨rfl, ?_⟩, ⟨rfl, rfl⟩, rfl⟩
          exact fun hi => hf (infix_cons hi)

variable {pattern s before after : String}

theorem splitOnceAt_eq_some_iff (hp : pattern ≠ "") : splitOnceAt pattern s = some (before, after) ↔
      s = before ++ pattern ++ after ∧
        ¬ pattern.toList <:+: before.toList ++ pattern.toList.dropLast := by
  have hNil : pattern.toList ≠ [] := by simpa using hp
  rw [splitOnceAt, map_eq_some_iff, ← String.toList_inj]
  simp only [String.toList_append]
  rw [← splitOnceAtList_eq_some_iff hNil]
  constructor
  · rintro ⟨⟨xs, ys⟩, hs, hPieces⟩
    cases hPieces
    simpa using hs
  · intro hs
    exact ⟨_, hs, by simp⟩

theorem stripEnd_eq_some_iff {ending s rest : String} :
    stripEnd ending s = some rest ↔ s = rest ++ ending := by
  rw [stripEnd, map_eq_some_iff, ← String.toList_inj, String.toList_append]
  constructor
  · rintro ⟨xs, hXs, rfl⟩
    have hEq := isPrefixOf?_eq_some_iff_append_eq.mp hXs
    have hr := congrArg List.reverse hEq
    simpa using hr.symm
  · intro hEq
    refine ⟨rest.toList.reverse, ?_, by simp⟩
    rw [isPrefixOf?_eq_some_iff_append_eq, hEq, reverse_append]

example : fromUtf8Lossy [0x61, 0xC3, 0xA9, 0xE2, 0x82, 0x28, 0xFF, 0xF0, 0x9F, 0x98, 0x80] =
    "aé�(�😀" := by
  decide +kernel

/-- `str::rsplit_once` at the last occurrence of a text. -/
def rsplitOnceAt (pattern s : String) : Option (String × String) :=
  (splitOnceAtList pattern.toList.reverse s.toList.reverse).map fun pieces =>
    (String.ofList pieces.2.reverse, String.ofList pieces.1.reverse)

theorem rsplitOnceAt_eq_some_iff (hp : pattern ≠ "") :
    rsplitOnceAt pattern s = some (before, after) ↔
      s = before ++ pattern ++ after ∧
        ¬ pattern.toList.reverse <:+: after.toList.reverse ++ pattern.toList.reverse.dropLast := by
  have hr : pattern.toList.reverse ≠ [] := by simpa using hp
  have ht : s = before ++ pattern ++ after ↔
      s.toList.reverse =
        after.toList.reverse ++ pattern.toList.reverse ++ before.toList.reverse := by
    rw [← String.toList_inj]
    simp
  rw [ht, ← splitOnceAtList_eq_some_iff hr, rsplitOnceAt, map_eq_some_iff]
  constructor
  · rintro ⟨pieces, hPieces, h⟩
    obtain ⟨rfl, rfl⟩ := Prod.mk.inj h
    simpa using hPieces
  · intro h
    exact ⟨_, h, by simp⟩

end Spacegate.Foundation.Text
