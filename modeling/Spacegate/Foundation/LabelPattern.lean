import Mathlib.Tactic

/-!
# Wildcard patterns over label sequences

A pattern is a list of labels, each a literal or a wildcard, read in the same
direction as the sequences it is matched against.  A wildcard stands for exactly
one label, except that a wildcard in the last position stands for one or more.
Reading a dotted name from its end, these are the usual host patterns: `*` in
the leftmost label absorbs everything that is left.

Patterns that match a common sequence are compared label by label from the
front, a literal being preferred to a wildcard; where one pattern ends inside
another the longer one is preferred.  `bestMatch` searches a partial map from
patterns to values in that order, and `bestMatch_eq_some` with
`bestMatch_eq_none_iff` say that the search is complete and returns the value of
the most specific matching pattern.
-/

namespace Spacegate.Foundation.LabelPattern

variable {κ ν : Type*}

/-- One pattern position: `none` is the wildcard. -/
abbrev Pattern (κ : Type*) := List (Option κ)

/-- `Matches p labels`: the pattern describes the whole sequence. -/
def Matches : Pattern κ → List κ → Prop
  | [], [] => True
  | [], _ :: _ => False
  | _ :: _, [] => False
  | some l :: p, label :: labels => l = label ∧ Matches p labels
  | none :: p, _ :: labels => p = [] ∨ Matches p labels

instance decidableMatches [DecidableEq κ] :
    ∀ (p : Pattern κ) (labels : List κ), Decidable (Matches p labels)
  | [], [] => isTrue trivial
  | [], _ :: _ => isFalse id
  | some _ :: _, [] => isFalse id
  | none :: _, [] => isFalse id
  | some _ :: p, _ :: labels =>
    have := decidableMatches p labels
    inferInstanceAs (Decidable (_ ∧ _))
  | none :: p, _ :: labels =>
    have := decidableMatches p labels
    inferInstanceAs (Decidable (_ ∨ _))

/-- `AtLeastAsSpecific p q`: reading from the front, `p` has a literal where `q`
has a wildcard at the first position where their kinds differ, or `q` ends
first.  The labels themselves are not compared: the relation is used between
patterns that match one sequence, whose literals agree position by position. -/
def AtLeastAsSpecific : Pattern κ → Pattern κ → Prop
  | _, [] => True
  | [], _ :: _ => False
  | some _ :: _, none :: _ => True
  | none :: _, some _ :: _ => False
  | some _ :: p, some _ :: q => AtLeastAsSpecific p q
  | none :: p, none :: q => AtLeastAsSpecific p q

/-- Search the patterns of a partial map against a sequence: a literal first,
then a wildcard that is continued, then a wildcard that ends the pattern. -/
def bestMatch (f : Pattern κ → Option ν) : List κ → Option ν
  | [] => f []
  | label :: labels =>
    (bestMatch (fun p => f (some label :: p)) labels).or
      ((bestMatch (fun p => f (none :: p)) labels).or (f [none]))

/-! ## Matching and specificity -/

@[simp] theorem matches_nil_iff (labels : List κ) :
    Matches ([] : Pattern κ) labels ↔ labels = [] := by
  cases labels <;> simp [Matches]

@[simp] theorem matches_nil_right_iff (p : Pattern κ) : Matches p ([] : List κ) ↔ p = [] := by
  cases p <;> simp [Matches]

theorem atLeastAsSpecific_nil (p : Pattern κ) : AtLeastAsSpecific p [] := by
  cases p <;> simp [AtLeastAsSpecific]

/-- Two matching patterns of equal specificity are one pattern. -/
theorem eq_of_atLeastAsSpecific {p q : Pattern κ} {labels : List κ}
    (hp : Matches p labels) (hq : Matches q labels)
    (hpq : AtLeastAsSpecific p q) (hqp : AtLeastAsSpecific q p) : p = q := by
  induction labels generalizing p q with
  | nil =>
    rw [matches_nil_right_iff] at hp hq
    rw [hp, hq]
  | cons label labels ih =>
    cases p with
    | nil => simp at hp
    | cons a p =>
      cases q with
      | nil => simp at hq
      | cons b q =>
        cases a with
        | some l =>
          cases b with
          | none => exact hqp.elim
          | some m =>
            rw [hp.1, hq.1, ih hp.2 hq.2 hpq hqp]
        | none =>
          cases b with
          | some m => exact hpq.elim
          | none =>
            -- A final wildcard is matched by any rest, so the tails
            -- are compared by length before the induction applies.
            rcases hp with rfl | hp
            · cases q with
              | nil => rfl
              | cons c q => cases c <;> exact hpq.elim
            · rcases hq with rfl | hq
              · cases p with
                | nil => rfl
                | cons c p => cases c <;> exact hqp.elim
              · rw [ih hp hq hpq hqp]

/-! ## Completeness and priority of the search -/

/-- The search fails exactly when no stored pattern matches. -/
theorem bestMatch_eq_none_iff (f : Pattern κ → Option ν) (labels : List κ) :
    bestMatch f labels = none ↔ ∀ p, Matches p labels → f p = none := by
  induction labels generalizing f with
  | nil => simp [bestMatch]
  | cons label labels ih =>
    simp only [bestMatch, Option.or_eq_none_iff, ih]
    constructor
    · rintro ⟨hl, hw, hLast⟩ p hp
      match p, hp with
      | some l :: p, hp =>
        obtain ⟨rfl, ht⟩ := hp
        exact hl p ht
      | none :: p, hp =>
        rcases hp with rfl | hp
        · exact hLast
        · exact hw p hp
    · intro h
      refine ⟨fun p hp => h _ ⟨rfl, hp⟩, fun p hp => h _ (Or.inr hp), h _ (Or.inl rfl)⟩

/-- The search returns the value of a matching pattern that is at least as
specific as every other stored pattern that matches. -/
theorem bestMatch_eq_some {f : Pattern κ → Option ν} {labels : List κ} {v : ν}
    (h : bestMatch f labels = some v) : ∃ p, f p = some v ∧ Matches p labels ∧
      ∀ q, f q ≠ none → Matches q labels → AtLeastAsSpecific p q := by
  induction labels generalizing f with
  | nil =>
    refine ⟨[], h, trivial, ?_⟩
    intro q _ hq
    rw [matches_nil_right_iff] at hq
    rw [hq]
    exact atLeastAsSpecific_nil []
  | cons label labels ih =>
    simp only [bestMatch, Option.or_eq_some_iff, bestMatch_eq_none_iff] at h
    rcases h with hl | ⟨hnl, hw | ⟨hnw, hLast⟩⟩
    · obtain ⟨p, hf, hp, hb⟩ := ih hl
      refine ⟨some label :: p, hf, ⟨rfl, hp⟩, ?_⟩
      intro q hfq hq
      match q, hq with
      | some l :: q, hq =>
        obtain ⟨rfl, ht⟩ := hq
        exact hb q hfq ht
      | none :: q, _ => trivial
    · -- a literal rival would have been found before
      obtain ⟨p, hf, hp, hb⟩ := ih hw
      refine ⟨none :: p, hf, Or.inr hp, ?_⟩
      intro q hfq hq
      match q, hq with
      | some l :: q, hq =>
        obtain ⟨rfl, ht⟩ := hq
        exact absurd (hnl q ht) hfq
      | none :: q, hq =>
        rcases hq with rfl | hq
        · exact atLeastAsSpecific_nil p
        · exact hb q hfq hq
    · refine ⟨[none], hLast, Or.inl rfl, ?_⟩
      intro q hfq hq
      match q, hq with
      | some l :: q, hq =>
        obtain ⟨rfl, ht⟩ := hq
        exact absurd (hnl q ht) hfq
      | none :: q, hq =>
        rcases hq with rfl | hq
        · exact trivial
        · exact absurd (hnw q hq) hfq

end Spacegate.Foundation.LabelPattern
