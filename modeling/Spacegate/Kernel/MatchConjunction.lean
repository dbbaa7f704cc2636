import Spacegate.Kernel.MatchRequest

/-!
# Conjunctive and disjunctive conditions

The fields of a match are meant to be conjoined, the header and query lists too,
while the methods are alternatives.  All three lists go through the one `Vec`
instance, which asks for a single satisfied element.  `Satisfies` is the meaning
the fields are documented to have; `matchRequest_iff_satisfies_iff` says for
which matches and requests the code agrees with it.
-/

namespace Spacegate.Kernel

section Lists

variable {M : Type} (holds : M → Bool) (ms : Option (List M))

/-- Every element of a given list holds. -/
def AllHold : Prop :=
  ∀ l, ms = some l → ∀ m ∈ l, holds m = true

/-- Some element of a given list holds. -/
def AnyHolds : Prop :=
  ∀ l, ms = some l → ∃ m ∈ l, holds m = true

/-- A list is given and has no elements. -/
def GivenEmpty : Prop :=
  ms = some []

/-- A list is given, it has elements, and none of them holds. -/
def NoneHolds : Prop :=
  ∃ l, ms = some l ∧ l ≠ [] ∧ ∀ m ∈ l, holds m = false

/-- A list is given of which some elements hold and some do not. -/
def PartlyHolds : Prop :=
  ∃ l, ms = some l ∧ (∃ m ∈ l, holds m = true) ∧ ∃ m ∈ l, holds m = false

variable {holds}

theorem allHold_some {l : List M} : AllHold holds (some l) ↔ ¬ ∃ m ∈ l, holds m = false := by
  simp [AllHold]

theorem anyHolds_some {l : List M} : AnyHolds holds (some l) ↔ ∃ m ∈ l, holds m = true := by
  simp [AnyHolds]

theorem noneHolds_some {l : List M} :
    NoneHolds holds (some l) ↔ l ≠ [] ∧ ¬ ∃ m ∈ l, holds m = true := by
  simp [NoneHolds]

theorem partlyHolds_some {l : List M} : PartlyHolds holds (some l) ↔
    (∃ m ∈ l, holds m = true) ∧ ∃ m ∈ l, holds m = false := by
  simp [PartlyHolds]

variable (holds)

/-- The four states of a list of conditions. -/
theorem list_cases :
    (AllHold holds ms ∧ AnyHolds holds ms ∧ ¬ GivenEmpty ms ∧
      ¬ PartlyHolds holds ms ∧ ¬ NoneHolds holds ms) ∨
    (AllHold holds ms ∧ ¬ AnyHolds holds ms ∧ GivenEmpty ms ∧
      ¬ PartlyHolds holds ms ∧ ¬ NoneHolds holds ms) ∨
    (¬ AllHold holds ms ∧ AnyHolds holds ms ∧ ¬ GivenEmpty ms ∧
      PartlyHolds holds ms ∧ ¬ NoneHolds holds ms) ∨
    (¬ AllHold holds ms ∧ ¬ AnyHolds holds ms ∧ ¬ GivenEmpty ms ∧
      ¬ PartlyHolds holds ms ∧ NoneHolds holds ms) := by
  cases ms with
  | none =>
    -- nothing given: there is nothing to hold and nothing to test
    left
    simp [AllHold, AnyHolds, GivenEmpty, PartlyHolds, NoneHolds]
  | some l =>
    have hGiven : GivenEmpty (some l) ↔ l = [] := by simp [GivenEmpty]
    simp only [allHold_some, anyHolds_some, noneHolds_some, partlyHolds_some, hGiven]
    by_cases hl : l = []
    · -- an empty list: all hold, but the test for one fails
      simp [hl]
    · obtain ⟨m, hm⟩ := List.exists_mem_of_ne_nil l hl
      by_cases hAny : ∃ x ∈ l, holds x = true
      · by_cases hNot : ∃ x ∈ l, holds x = false
        · simp only [hl, hAny, hNot]
          simp
        · simp only [hl, hAny, hNot]
          simp
      · have hNot : ∃ x ∈ l, holds x = false :=
          ⟨m, hm, Bool.eq_false_of_not_eq_true fun ht => hAny ⟨m, hm, ht⟩⟩
        simp only [hl, hAny, hNot]
        simp [hl]

end Lists

variable {Regex ext : Type}

theorem matchOption_matchVec_iff {M : Type} (matchRequest : M → Request ext → Bool)
    (ms : Option (List M)) (req : Request ext) : matchOption (matchVec matchRequest) ms req = true ↔
      AnyHolds (fun m => matchRequest m req) ms := by
  cases ms with
  | none => simp [matchOption, AnyHolds]
  | some l => simp [matchOption, matchVec, AnyHolds]

theorem matchOption_iff {M : Type} (matchRequest : M → Request ext → Bool)
    (m : Option M) (req : Request ext) :
    matchOption matchRequest m req = true ↔ ∀ x, m = some x → matchRequest x req = true := by
  cases m <;> simp [matchOption]

namespace HttpRouteMatch

variable (m : HttpRouteMatch Regex)

/-- One of the lists is given and empty. -/
def HasEmptyList : Prop :=
  GivenEmpty m.header ∨ GivenEmpty m.query ∨ GivenEmpty m.method

variable [RegexEngine Regex] (req : Request ext)

/-- The path matcher, if any, matches. -/
def PathHolds : Prop :=
  ∀ path, m.path = some path → path.matchRequest req = true

/-- The documented meaning of a match: path, all headers, all query parameters,
and one of the methods when methods are listed. -/
def Satisfies : Prop :=
  m.PathHolds req ∧ AllHold (·.matchRequest req) m.header ∧ AllHold (·.matchRequest req) m.query ∧
    (GivenEmpty m.method ∨ AnyHolds (·.matchRequest req) m.method)

/-- Some condition of the match fails altogether: the path, or every element of
a list that has elements. -/
def Fails : Prop :=
  ¬ m.PathHolds req ∨ NoneHolds (·.matchRequest req) m.header ∨
    NoneHolds (·.matchRequest req) m.query ∨ NoneHolds (·.matchRequest req) m.method

/-- The header list or the query list holds in part only. -/
def HasPartlyHeldList : Prop :=
  PartlyHolds (·.matchRequest req) m.header ∨ PartlyHolds (·.matchRequest req) m.query

theorem matchRequest_iff :
    m.matchRequest req = true ↔
      m.PathHolds req ∧ AnyHolds (·.matchRequest req) m.header ∧
        AnyHolds (·.matchRequest req) m.query ∧ AnyHolds (·.matchRequest req) m.method := by
  rw [matchRequest, Bool.and_eq_true, Bool.and_eq_true, Bool.and_eq_true,
    matchOption_matchVec_iff, matchOption_matchVec_iff, matchOption_matchVec_iff,
    matchOption_iff, and_assoc, and_assoc]
  rfl

/-- The code decides the documented meaning exactly when some condition fails
altogether, or when an empty list is given if and only if a header or query list
holds in part. -/
theorem matchRequest_iff_satisfies_iff :
    (m.matchRequest req = true ↔ m.Satisfies req) ↔
      (m.Fails req ∨ (m.HasEmptyList ↔ m.HasPartlyHeldList req)) := by
  rw [matchRequest_iff, Satisfies, Fails, HasEmptyList, HasPartlyHeldList]
  have hh := list_cases (fun h => SgHttpHeaderMatchRewrite.matchRequest h req) m.header
  have hq := list_cases (fun q => HttpQueryMatch.matchRequest q req) m.query
  have hm := list_cases (fun x => HttpMethodMatch.matchRequest x req) m.method
  by_cases hp : m.PathHolds req
  · -- With the path settled, the verdict is a function of the states of the lists.
    rcases hh with h | h | h | h <;> rcases hq with q | q | q | q <;>
      rcases hm with x | x | x | x <;>
      simp [hp, h, q, x]
  · simp [hp]

/-- A match that asks for two headers. -/
def twoHeaders : HttpRouteMatch LiteralRegex where
  path := none
  header := some
    [⟨"x-tenant", .exact ⟨strBytes "a"⟩ none⟩, ⟨"x-stage", .exact ⟨strBytes "prod"⟩ none⟩]
  query := none
  method := none

/-- A request that carries the first of the two headers only. -/
def oneHeaderRequest : Request Unit where
  method := "GET"
  uri := .origin (cutPathAndQuery "/")
  version := .http11
  headers := [("x-tenant", ⟨strBytes "a"⟩)]
  extensions := ()

/-- One of two required headers is enough for the code. -/
theorem twoHeaders_accepted :
    ¬ (twoHeaders.matchRequest oneHeaderRequest = true ↔
      twoHeaders.Satisfies oneHeaderRequest) := by
  have hm : twoHeaders.matchRequest oneHeaderRequest = true := by decide
  intro h
  have hAll := (h.mp hm).2.1
  have hs := hAll _ rfl ⟨"x-stage", .exact ⟨strBytes "prod"⟩ none⟩ (by simp)
  exact absurd hs (by decide)

end HttpRouteMatch

end Spacegate.Kernel
