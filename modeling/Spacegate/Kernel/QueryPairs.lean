import Spacegate.Kernel.MatchRequest

/-!
# The pairs of a query

`queryPairs` cuts a query at every `&` and each piece at its first `=`.  `QueryKvIter` is a
cursor over the query that has a branch of its own for the last piece: it does not cut this piece,
and passes over it when it is empty (`queryKvIter_eq`).  So the cursor yields the pairs of the
query exactly when its last piece is not empty and has no `=`, and a matcher finds a parameter only
before the last piece (`queryKvIter_agrees_iff`).
-/

namespace Spacegate.Kernel

open Foundation.Text List

/-- The pair that a piece of a query stands for. -/
def pieceKv (piece : String) : String × Option String :=
  match splitOnce '=' piece with
  | some (key, value) => (key, some value)
  | none => (piece, none)

/-- The pairs of a query. -/
def queryPairs (query : String) : List (String × Option String) :=
  (split '&' query).map pieceKv

/-- The pairs that the cursor makes of the pieces. -/
def cursorPairs : List String → List (String × Option String)
  | [] => []
  | [last] => if last = "" then [] else [(last, none)]
  | piece :: rest => pieceKv piece :: cursorPairs rest

theorem cursorPairs_cons (piece : String) {rest : List String} (h : rest ≠ []) :
    cursorPairs (piece :: rest) = pieceKv piece :: cursorPairs rest := by
  cases rest with
  | nil => exact absurd rfl h
  | cons next rest => rfl

theorem split_ne_nil (separator : Char) (s : String) : split separator s ≠ [] := by
  simp [split, splitOn_ne_nil]

theorem queryKvNext_of_splitOnce {inner piece rest : String}
    (h : splitOnce '&' inner = some (piece, rest)) :
    queryKvNext inner = some (pieceKv piece, rest) := by
  have hNe : inner ≠ "" := by
    rintro rfl
    simp [splitOnce, splitOnceList] at h
  rw [queryKvNext, if_neg hNe, h]
  simp only [pieceKv]
  cases splitOnce '=' piece <;> rfl

theorem queryKvCollect_eq {fuel : Nat} {query : String} (h : query.toList.length ≤ fuel) :
    queryKvCollect fuel query = cursorPairs (split '&' query) := by
  induction fuel generalizing query with
  | zero =>
    obtain rfl : query = "" := by
      rw [← String.toList_inj]
      exact length_eq_zero_iff.mp (by omega)
    rfl
  | succ fuel ih =>
    rw [queryKvCollect]
    cases hs : splitOnce '&' query with
    | some pieces =>
      obtain ⟨piece, rest⟩ := pieces
      obtain ⟨ht, hp⟩ := splitOnce_eq_some_iff.mp hs
      have hShorter : rest.toList.length ≤ fuel := by
        rw [ht, length_append, length_cons] at h
        omega
      rw [queryKvNext_of_splitOnce hs, split_eq_cons ht hp,
        cursorPairs_cons _ (split_ne_nil _ _), ← ih hShorter]
    | none =>
      have hnm : '&' ∉ query.toList := by
        rw [splitOnce, Option.map_eq_none_iff] at hs
        exact splitOnceList_eq_none_iff.mp hs
      rw [queryKvNext, hs, split_of_notMem hnm]
      by_cases he : query = ""
      · simp [he, cursorPairs]
      · have hEnd : queryKvCollect fuel "" = [] := by
          cases fuel <;> rfl
        simp [he, cursorPairs, hEnd]

theorem queryKvIter_eq (query : String) : queryKvIter query = cursorPairs (split '&' query) :=
  queryKvCollect_eq le_rfl

/-- The last piece is not empty and has nothing to cut. -/
def LastPlain (pieces : List String) : Prop :=
  ∃ last, pieces.getLast? = some last ∧ last ≠ "" ∧ '=' ∉ last.toList

theorem pieceKv_of_notMem {piece : String} (h : '=' ∉ piece.toList) :
    pieceKv piece = (piece, none) := by
  have hn : splitOnce '=' piece = none := by
    rw [splitOnce, splitOnceList_eq_none_iff.mpr h, Option.map_none]
  rw [pieceKv, hn]

theorem pieceKv_eq_iff (piece name value : String) :
    pieceKv piece = (name, some value) ↔ '=' ∉ name.toList ∧ piece = name ++ "=" ++ value := by
  have ht : piece = name ++ "=" ++ value ↔ piece.toList = name.toList ++ '=' :: value.toList := by
    rw [← String.toList_inj]
    simp
  rw [ht, and_comm, ← splitOnce_eq_some_iff]
  unfold pieceKv
  split
  · rename_i key other hs
    simp [hs]
  · rename_i hs
    simp [hs]

theorem cursorPairs_eq_map_iff {pieces : List String} (h : pieces ≠ []) :
    cursorPairs pieces = pieces.map pieceKv ↔ LastPlain pieces := by
  induction pieces with
  | nil => exact absurd rfl h
  | cons piece rest ih =>
    cases rest with
    | nil =>
      simp only [cursorPairs, LastPlain, getLast?_singleton, Option.some.injEq,
        exists_eq_left', map_cons, map_nil]
      by_cases he : piece = ""
      · simp [he]
      · rw [if_neg he]
        constructor
        · intro hp
          refine ⟨he, ?_⟩
          intro hMem
          -- a piece with `=` stands for a pair with a value
          obtain ⟨before, after, hCut⟩ : ∃ before after,
              splitOnce '=' piece = some (before, after) := by
            cases hCut : splitOnce '=' piece with
            | none =>
              rw [splitOnce, Option.map_eq_none_iff, splitOnceList_eq_none_iff] at hCut
              exact absurd hMem hCut
            | some cut => exact ⟨cut.1, cut.2, rfl⟩
          simp [pieceKv, hCut] at hp
        · rintro ⟨-, hnm⟩
          rw [pieceKv_of_notMem hnm]
    | cons next rest =>
      rw [cursorPairs_cons _ (by simp), map_cons, List.cons.injEq, ih (by simp)]
      simp [LastPlain]

theorem mem_cursorPairs_iff (pieces : List String) (name value : String) :
    (name, some value) ∈ cursorPairs pieces ↔
      '=' ∉ name.toList ∧ name ++ "=" ++ value ∈ pieces.dropLast := by
  induction pieces with
  | nil => simp [cursorPairs]
  | cons piece rest ih =>
    cases rest with
    | nil =>
      simp only [cursorPairs, dropLast_singleton, not_mem_nil, and_false, iff_false]
      split <;> simp
    | cons next rest =>
      have hd : (piece :: next :: rest).dropLast = piece :: (next :: rest).dropLast := rfl
      rw [cursorPairs_cons _ (by simp), hd, mem_cons, mem_cons, ih, eq_comm,
        pieceKv_eq_iff, ← and_or_left, eq_comm (a := piece)]

variable {Regex ext : Type} [RegexEngine Regex]

/-- The matcher for one parameter and one value of it. -/
def exactQuery (name value : String) : HttpQueryMatch Regex where
  name := name
  policy := .exact value

variable (req : Request ext)

/-- Some piece of the query of the request is the parameter with the value. -/
def HasPiece (name value : String) : Prop :=
  ∃ query, req.uri.query = some query ∧ name ++ "=" ++ value ∈ split '&' query

/-- Such a piece stands before the last one, and the name has no `=`. -/
def HasEarlyPiece (name value : String) : Prop :=
  '=' ∉ name.toList ∧
    ∃ query, req.uri.query = some query ∧ name ++ "=" ++ value ∈ (split '&' query).dropLast

theorem exactQuery_matchRequest_iff (name value : String) :
    (exactQuery name value : HttpQueryMatch Regex).matchRequest req = true ↔
      HasEarlyPiece req name value := by
  unfold HttpQueryMatch.matchRequest HasEarlyPiece exactQuery
  cases hq : req.uri.query with
  | none => simp
  | some query =>
    have hMem := mem_cursorPairs_iff (split '&' query) name value
    rw [← queryKvIter_eq] at hMem
    simp only [Option.some.injEq, exists_eq_left', ← hMem, any_eq_true, Bool.and_eq_true,
      beq_iff_eq]
    constructor
    · rintro ⟨⟨key, value'⟩, hp, rfl, rfl⟩
      exact hp
    · intro hp
      exact ⟨_, hp, rfl, rfl⟩

/-- The cursor yields the pairs of a query exactly when the last piece has nothing to cut.  A
matcher for a parameter and a value agrees with the pieces of a request exactly when the parameter
is not found in them, or is found before the last one and has a name without `=`. -/
theorem queryKvIter_agrees_iff :
    (∀ query : String, queryKvIter query = queryPairs query ↔ LastPlain (split '&' query)) ∧
      ∀ (req : Request ext) (name value : String),
        ((exactQuery name value : HttpQueryMatch Regex).matchRequest req = true ↔
            HasPiece req name value) ↔
          (HasPiece req name value → HasEarlyPiece req name value) := by
  constructor
  · intro query
    rw [queryKvIter_eq, queryPairs]
    exact cursorPairs_eq_map_iff (split_ne_nil _ _)
  · intro req name value
    have he : HasEarlyPiece req name value → HasPiece req name value := by
      rintro ⟨-, query, hq, hMem⟩
      exact ⟨query, hq, mem_of_mem_dropLast hMem⟩
    rw [exactQuery_matchRequest_iff]
    exact ⟨fun h => h.mpr, fun h => ⟨he, h⟩⟩

/-- The only parameter of `a=1` is not cut, and not found. -/
theorem lastParameter_not_found :
    queryKvIter "a=1" = [("a=1", none)] ∧ queryPairs "a=1" = [("a", some "1")] ∧
      ∃ req : Request Unit, HasPiece req "a" "1" ∧
        (exactQuery "a" "1" : HttpQueryMatch LiteralRegex).matchRequest req = false := by
  refine ⟨rfl, rfl, ⟨"GET", .origin (cutPathAndQuery "/?a=1"), .http11, [], ()⟩, ?_, rfl⟩
  exact ⟨"a=1", rfl, by decide⟩

end Spacegate.Kernel
