import Mathlib.Data.Finset.Lattice.Fold
import Spacegate.Foundation.Text

/-!
# File stems and extensions

`Path::file_stem`, `Path::extension` and `Path::with_extension` on the last name of a
path.  The extension is what follows the last dot, unless the dot is the first
character.
-/

namespace Spacegate.Foundation.FileStem

open Text List

/-- `rsplit_file_at_dot`. -/
def splitFileName (name : String) : String × Option String :=
  if name = ".." then (name, none)
  else
    match rsplitOnce '.' name with
    | none => (name, none)
    | some (before, after) => if before = "" then (name, none) else (before, some after)

/-- `Path::file_stem`. -/
def fileStem (name : String) : String :=
  (splitFileName name).1

/-- `Path::extension`. -/
def extension (name : String) : Option String :=
  (splitFileName name).2

/-- An extension as the configuration formats have it. -/
structure IsExtension (ext : String) : Prop where
  ne_empty : ext ≠ ""
  no_dot : '.' ∉ ext.toList
  no_slash : '/' ∉ ext.toList

variable {stem ext name : String}

theorem splitFileName_of_extension (hExt : IsExtension ext) (hs : stem ≠ "") :
    splitFileName (stem ++ "." ++ ext) = (stem, some ext) := by
  have hSplit : rsplitOnce '.' (stem ++ "." ++ ext) = some (stem, ext) := by
    rw [rsplitOnce_eq_some_iff]
    exact ⟨by simp, hExt.no_dot⟩
  have hNe : stem ++ "." ++ ext ≠ ".." := by
    intro hEq
    have hList : stem.toList ++ '.' :: ext.toList = ['.', '.'] := by
      simpa using congrArg String.toList hEq
    obtain ⟨c, rest, hc⟩ := exists_cons_of_ne_nil
      (fun h => hExt.ne_empty (String.toList_eq_nil_iff.mp h))
    obtain ⟨c', rest', hc'⟩ := exists_cons_of_ne_nil
      (fun h => hs (String.toList_eq_nil_iff.mp h))
    have hl := congrArg length hList
    rw [hc, hc'] at hl
    simp only [length_append, length_cons, length_nil] at hl
    omega
  rw [splitFileName, if_neg hNe, hSplit]
  simp [hs]

theorem fileStem_of_extension (hExt : IsExtension ext) (hs : stem ≠ "") :
    fileStem (stem ++ "." ++ ext) = stem := by
  rw [fileStem, splitFileName_of_extension hExt hs]

theorem extension_of_extension (hExt : IsExtension ext) (hs : stem ≠ "") :
    extension (stem ++ "." ++ ext) = some ext := by
  rw [extension, splitFileName_of_extension hExt hs]

theorem fileStem_prefix (name : String) : (fileStem name).toList <+: name.toList := by
  unfold fileStem splitFileName
  split_ifs with hUp
  · exact prefix_rfl
  · cases hs : rsplitOnce '.' name with
    | none => exact prefix_rfl
    | some pieces =>
      simp only
      split_ifs with he
      · exact prefix_rfl
      · exact ⟨_, (rsplitOnce_eq_some_iff.mp hs).1.symm⟩

theorem fileStem_eq_or_length_lt (name : String) :
    fileStem name = name ∨ (fileStem name).length < name.length := by
  have hStem := fileStem_prefix name
  rcases hStem.length_le.eq_or_lt with hEq | hLt
  · left
    exact String.toList_inj.mp (hStem.eq_of_length hEq)
  · right
    rwa [String.length_toList, String.length_toList] at hLt

/-- If every name is a stem of one of the names then all are their own stems: the longest
one that is not would be the stem of a longer one. -/
theorem fileStem_eq_of_onto {names : List String}
    (h : ∀ name ∈ names, ∃ name' ∈ names, fileStem name' = name) :
    ∀ name ∈ names, fileStem name = name := by
  by_contra hBad
  push Not at hBad
  obtain ⟨bad, hBad, hNe⟩ := hBad
  -- a longest name that is not its own stem is the stem of a longer one
  obtain ⟨name, hMem, hLongest⟩ := (names.toFinset.filter fun name => fileStem name ≠ name)
    |>.exists_max_image String.length ⟨bad, by simp [hBad, hNe]⟩
  obtain ⟨hn, hNot⟩ : name ∈ names ∧ fileStem name ≠ name := by simpa using hMem
  obtain ⟨name', hn', rfl⟩ := h name hn
  rcases fileStem_eq_or_length_lt name' with hEq | hLt
  · rw [hEq] at hNot
    exact hNot hEq
  · have hNot' : fileStem name' ≠ name' := fun hEq => by simp [hEq] at hLt
    have hLe := hLongest name' (by simp [hn', hNot'])
    omega

theorem fileStem_ne_empty (h : name ≠ "") : fileStem name ≠ "" := by
  unfold fileStem splitFileName
  split_ifs with hUp
  · exact h
  · cases rsplitOnce '.' name with
    | none => exact h
    | some pieces =>
      simp only
      split_ifs with he
      · exact h
      · exact he

/-- With an extension there is a stem that is not empty. -/
theorem eq_of_extension_eq_some (h : extension name = some ext) :
    name = fileStem name ++ "." ++ ext ∧ fileStem name ≠ "" := by
  unfold extension fileStem splitFileName at *
  split_ifs at h ⊢ with hUp
  cases hs : rsplitOnce '.' name with
  | none =>
    rw [hs] at h
    cases h
  | some pieces =>
    rw [hs] at h
    simp only at h ⊢
    split_ifs at h ⊢ with he
    cases h
    refine ⟨?_, he⟩
    apply String.toList_inj.mp
    simpa using (rsplitOnce_eq_some_iff.mp hs).1

end Spacegate.Foundation.FileStem
