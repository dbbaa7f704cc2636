import Spacegate.Foundation.Text

/-!
# File paths

`std::path::Path` on a Unix system, as far as joining and comparing paths goes.
A path is a text; its components are what `Path::components` yields, which drops
repeated slashes and all but a leading dot.  An operating system walks a path by
its steps, where a trailing slash asks for a directory and is kept as a dot.

A location is the list of names from the root to a file, and `locationPath` its
text.
-/

namespace Spacegate.Foundation.FilePath

open Text List

/-- `std::path::Component`. -/
inductive Component where
  | rootDir
  | curDir
  | parentDir
  | normal (name : String)
  deriving DecidableEq, Repr

abbrev Location := List String

/-- The component of a segment that is no dot. -/
def component (segment : String) : Component :=
  if segment = ".." then .parentDir else .normal segment

/-- `Path::components`. -/
def components (path : String) : List Component :=
  let inner := ((segments '/' path).filter (· ≠ ".")).map component
  if startsWith '/' path then .rootDir :: inner
  else if (segments '/' path).head? = some "." then .curDir :: inner
  else inner

/-- `Path::join`. -/
def join (path rel : String) : String :=
  if startsWith '/' rel then rel
  else if path = "" ∨ endsWith '/' path then path ++ rel
  else path ++ "/" ++ rel

/-- `Path::starts_with`, component by component. -/
def pathStartsWith (path base : String) : Bool :=
  (components base).isPrefixOf (components path)

/-- The steps in which a path is walked. -/
def pathSteps (path : String) : List String :=
  segments '/' path ++ if endsWith '/' path then ["."] else []

/-- The absolute path of a location. -/
def locationPath (location : Location) : String :=
  if location = [] then "/"
  else location.foldl (fun path name => path ++ "/" ++ name) ""

/-- The names a file can have. -/
def IsName (name : String) : Prop :=
  IsSegment name ∧ name ≠ "." ∧ name ≠ ".."

instance (name : String) : Decidable (IsName name) :=
  inferInstanceAs (Decidable (_ ∧ _))

/-! ## Joining -/

variable {rel path : String} {location : Location} (hRel : startsWith '/' rel = false)
include hRel

theorem join_empty : join "" rel = rel := by
  rw [join, if_neg (by simp [hRel]), if_pos (Or.inl rfl), String.empty_append]

theorem segments_join : segments '/' (join path rel) = segments '/' path ++ segments '/' rel := by
  by_cases he : path = ""
  · rw [he, join_empty hRel]
    rfl
  · unfold join
    rw [if_neg (by simp [hRel])]
    by_cases hs : endsWith '/' path = true
    · rw [if_pos (Or.inr hs)]
      obtain ⟨init, hi⟩ : ∃ init, path = init ++ "/" := by
        unfold endsWith at hs
        rw [beq_iff_eq] at hs
        obtain ⟨chars, hc⟩ := getLast?_eq_some_iff.mp hs
        refine ⟨String.ofList chars, ?_⟩
        rw [← String.toList_inj, hc]
        simp
      rw [hi, segments_append_slash_append, segments_append_slash]
    · rw [if_neg (by simp [he, hs]), segments_append_slash_append]

/-- A text that does not start with a slash is empty or has a segment. -/
theorem segments_ne_nil (hne : rel ≠ "") : segments '/' rel ≠ [] := by
  obtain ⟨c, chars, hChars⟩ :=
    exists_cons_of_ne_nil fun hNil => hne (String.toList_eq_nil_iff.mp hNil)
  have hc : c ≠ '/' := by
    intro hs
    rw [startsWith, hChars, hs] at hRel
    exact absurd hRel (by simp)
  intro hn
  obtain ⟨seg, hSeg, -⟩ := (exists_mem_segments_iff rel c).mpr ⟨by rw [hChars]; simp, hc⟩
  rw [hn] at hSeg
  exact absurd hSeg not_mem_nil

/-- Joining adds at least one step to those of a non-empty path. -/
theorem pathSteps_join (hp : path ≠ "") :
    ∃ rest, rest ≠ [] ∧ pathSteps (join path rel) = segments '/' path ++ rest := by
  by_cases he : rel = ""
  · have hEnds : endsWith '/' (join path rel) = true := by
      subst he
      unfold join
      rw [if_neg (by simp [hRel])]
      by_cases hs : endsWith '/' path = true
      · rw [if_pos (Or.inr hs), String.append_empty]
        exact hs
      · rw [if_neg (by simp [hp, hs])]
        simp [endsWith]
    refine ⟨["."], by simp, ?_⟩
    rw [pathSteps, segments_join hRel, if_pos hEnds, he]
    rw [show segments '/' "" = [] from rfl, append_nil]
  · refine ⟨segments '/' rel ++ if endsWith '/' (join path rel) then ["."] else [], ?_, ?_⟩
    · intro hNil
      exact segments_ne_nil hRel he (append_eq_nil_iff.mp hNil).1
    · rw [pathSteps, segments_join hRel, append_assoc]

theorem startsWith_join (hp : path ≠ "") :
    startsWith '/' (join path rel) = startsWith '/' path := by
  obtain ⟨c, chars, hc⟩ :=
    exists_cons_of_ne_nil fun hNil => hp (String.toList_eq_nil_iff.mp hNil)
  unfold join
  rw [if_neg (by simp [hRel])]
  split <;> simp [startsWith, hc]

theorem join_ne_empty (hp : path ≠ "") : join path rel ≠ "" := by
  obtain ⟨rest, hr, hs⟩ := pathSteps_join hRel hp
  intro he
  rw [he] at hs
  have hNil : segments '/' path ++ rest = [] := hs.symm
  exact hr (append_eq_nil_iff.mp hNil).2

omit hRel

/-! ## Locations -/

theorem segments_locationPath (h : ∀ name ∈ location, IsName name) :
    segments '/' (locationPath location) = location := by
  unfold locationPath
  split
  · rename_i hNil
    rw [hNil]
    decide
  · rw [segments_foldl "" fun name hn => (h name hn).1]
    rfl

theorem startsWith_locationPath (location : Location) :
    startsWith '/' (locationPath location) = true := by
  unfold locationPath
  split
  · decide
  · rename_i hne
    obtain ⟨name, names, rfl⟩ := exists_cons_of_ne_nil hne
    have hf := append_foldl_segments ("" ++ "/" ++ name) "" names
    rw [String.append_empty] at hf
    rw [foldl_cons, ← hf]
    simp [startsWith]

theorem endsWith_locationPath (hne : location ≠ []) (h : ∀ name ∈ location, IsName name) :
    endsWith '/' (locationPath location) = false := by
  rw [locationPath, if_neg hne]
  obtain ⟨init, name, rfl⟩ := (eq_nil_or_concat location).resolve_left hne
  obtain ⟨⟨he, hs⟩, -⟩ := h name (by simp)
  have hl : name.toList ≠ [] := fun hNil => he (String.toList_eq_nil_iff.mp hNil)
  rw [concat_eq_append, foldl_append, foldl_cons, foldl_nil, endsWith_eq_false_iff]
  intro hc
  simp only [String.toList_append]
  rw [getLast_append_of_right_ne_nil _ _ hl]
  intro hEq
  exact hs (hEq ▸ getLast_mem hl)

theorem filter_dot_of_names (h : ∀ name ∈ location, IsName name) :
    location.filter (· ≠ ".") = location := by
  rw [filter_eq_self]
  intro name hn
  simpa using (h name hn).2.1

theorem map_component (h : ∀ name ∈ location, IsName name) :
    location.map component = location.map .normal := by
  apply map_congr_left
  intro name hn
  rw [component, if_neg (h name hn).2.2]

theorem components_locationPath (h : ∀ name ∈ location, IsName name) :
    components (locationPath location) = .rootDir :: location.map .normal := by
  simp only [components, startsWith_locationPath, if_true, segments_locationPath h,
    filter_dot_of_names h, map_component h]

/-- A component that is a start of names is the name itself, never `..`. -/
theorem prefix_of_map_component {names : List String}
    (h : names.map component <+: location.map .normal) : names <+: location := by
  obtain ⟨start, hStart, hMap⟩ := prefix_map_iff.mp h
  have hEq : List.Forall₂ Eq names start := by
    rw [← forall₂_eq_eq_eq, forall₂_map_left_iff, forall₂_map_right_iff] at hMap
    refine hMap.imp fun name name' hName => ?_
    unfold component at hName
    split at hName
    · cases hName
    · exact Component.normal.inj hName
  rw [forall₂_eq_eq_eq] at hEq
  rw [hEq]
  exact hStart

/-- A path that is a component-wise start of a canonical one is empty, or it is
absolute and its segments, the dots apart, are a start of the location. -/
theorem pathStartsWith_locationPath {base : String} (hn : ∀ name ∈ location, IsName name)
    (h : pathStartsWith (locationPath location) base = true) :
    base = "" ∨ startsWith '/' base = true ∧ (segments '/' base).filter (· ≠ ".") <+: location := by
  rw [pathStartsWith, isPrefixOf_iff_prefix, components_locationPath hn] at h
  by_cases hAbs : startsWith '/' base = true
  · right
    simp only [components, hAbs, if_true, cons_prefix_cons, true_and] at h
    exact ⟨hAbs, prefix_of_map_component h⟩
  · left
    by_contra hne
    have hRel : startsWith '/' base = false := by simpa using hAbs
    have hs := segments_ne_nil hRel hne
    obtain ⟨seg, segs, hSegs⟩ := exists_cons_of_ne_nil hs
    by_cases hDot : seg = "."
    · simp [components, hRel, hSegs, hDot] at h
    · simp only [components, hRel, Bool.false_eq_true, if_false, hSegs, head?_cons,
        Option.some.injEq, hDot, filter_cons] at h
      have hk : decide (seg ≠ ".") = true := by simpa using hDot
      rw [if_pos hk, map_cons, cons_prefix_cons] at h
      have hr := h.1
      unfold component at hr
      split at hr <;> exact absurd hr (by simp)

end Spacegate.Foundation.FilePath
