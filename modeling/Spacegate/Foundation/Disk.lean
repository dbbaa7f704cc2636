import Mathlib.Data.List.AList
import Mathlib.Data.List.Infix
import Mathlib.Tactic

/-!
# Directory trees

A directory and all that lies below it.  Locations are lists of names from that
directory, which is always there.  The operations are those of `std::fs` on files and
directories, without links; an operation that fails changes nothing.
-/

namespace Spacegate.Foundation

open List

inductive IoError where
  | notFound
  | isADirectory
  | notADirectory
  /-- A failure that has nothing to do with what is on the disk. -/
  | fault
  deriving DecidableEq, Repr

namespace Disk

abbrev Location := List String

inductive Node where
  | dir
  | file (content : List UInt8)
  deriving DecidableEq, Repr

abbrev Nodes := AList fun _ : Location => Node

/-- What is at a location. -/
def getNode (nodes : Nodes) (l : Location) : Option Node :=
  if l = [] then some .dir else nodes.lookup l

end Disk

open Disk

/-- Whatever is in the tree lies in a directory. -/
structure Disk where
  nodes : Nodes
  parent : ∀ l name, getNode nodes (l ++ [name]) ≠ none → getNode nodes l = some .dir

namespace Disk

variable (d : Disk)

def get (l : Location) : Option Node :=
  getNode d.nodes l

variable {l l' : Location}

@[simp] theorem get_root : d.get [] = some .dir := by
  simp [get, getNode]

theorem get_parent {name : String} (h : d.get (l ++ [name]) ≠ none) : d.get l = some .dir :=
  d.parent l name h

theorem get_of_below {rest : Location} (hr : rest ≠ []) (h : d.get (l ++ rest) ≠ none) :
    d.get l = some .dir := by
  induction rest using reverseRecOn with
  | nil => exact absurd rfl hr
  | append_singleton rest name ih =>
    rw [← append_assoc] at h
    have hp := d.get_parent h
    by_cases he : rest = []
    · rw [he, append_nil] at hp
      exact hp
    · exact ih he (by simp [hp])

/-- The tree with nothing in it. -/
def empty : Disk where
  nodes := ∅
  parent := fun l name h => absurd (by simp [getNode]) h

@[simp] theorem get_empty (h : l ≠ []) : empty.get l = none := by
  simp [get, getNode, empty, h]

/-! ## Reading -/

def read (l : Location) : Except IoError (List UInt8) :=
  match d.get l with
  | some (.file content) => .ok content
  | some .dir => .error .isADirectory
  | none => .error .notFound

/-- The content of the file at a location, if there is one. -/
def fileAt (l : Location) : Option (List UInt8) :=
  match d.get l with
  | some (.file content) => some content
  | _ => none

variable {content : List UInt8}

theorem fileAt_eq_some_iff : d.fileAt l = some content ↔ d.get l = some (.file content) := by
  unfold fileAt
  split <;> simp_all

theorem read_of_fileAt (h : d.fileAt l = some content) : d.read l = .ok content := by
  rw [read, (fileAt_eq_some_iff d).mp h]

/-- The names in a directory, in no particular order. -/
def children (l : Location) : List String :=
  d.nodes.keys.filterMap fun key =>
    if key ≠ [] ∧ key.dropLast = l then key.getLast? else none

theorem mem_keys_iff (hl : l ≠ []) : l ∈ d.nodes.keys ↔ d.get l ≠ none := by
  rw [← AList.mem_keys, ← AList.lookup_isSome, get, getNode, if_neg hl, Option.isSome_iff_ne_none]

theorem mem_children {name : String} : name ∈ d.children l ↔ d.get (l ++ [name]) ≠ none := by
  rw [← mem_keys_iff d (by simp), children, mem_filterMap]
  constructor
  · rintro ⟨key, hKey, hn⟩
    split_ifs at hn with hp
    obtain ⟨hNe, rfl⟩ := hp
    obtain ⟨last, hl⟩ := getLast?_eq_some_iff.mp hn
    rw [hl, dropLast_concat, ← hl]
    exact hKey
  · intro hKey
    exact ⟨l ++ [name], hKey, by simp⟩

theorem nodup_children (l : Location) : (d.children l).Nodup := by
  refine List.Nodup.filterMap ?_ d.nodes.nodupKeys
  intro key key' name hn hn'
  simp only [Option.mem_def] at hn hn'
  split_ifs at hn hn' with h h'
  obtain ⟨init, hi⟩ := getLast?_eq_some_iff.mp hn
  obtain ⟨init', hi'⟩ := getLast?_eq_some_iff.mp hn'
  rw [hi, dropLast_concat] at h
  rw [hi', dropLast_concat] at h'
  rw [hi, hi', h.2, h'.2]

/-! ## Writing -/

variable (nodes : Nodes)

theorem getNode_insert (hl : l ≠ []) (node : Node) (l' : Location) :
    getNode (nodes.insert l node) l' = if l' = l then some node else getNode nodes l' := by
  unfold getNode
  by_cases hEq : l' = l
  · subst hEq
    rw [if_neg hl, if_pos rfl, AList.lookup_insert]
  · rw [if_neg hEq, AList.lookup_insert_ne hEq]

/-- `std::fs::write`. -/
def write (l : Location) (content : List UInt8) : Except IoError Disk :=
  if h : l ≠ [] ∧ d.get l.dropLast = some .dir ∧ d.get l ≠ some .dir then
    .ok
      { nodes := d.nodes.insert l (.file content)
        parent := by
          obtain ⟨hl, hParent, hNode⟩ := h
          intro q name hq
          rw [getNode_insert _ hl] at hq ⊢
          have hOld : d.get q = some .dir := by
            split_ifs at hq with hEq
            · rw [← hEq, dropLast_concat] at hParent
              exact hParent
            · exact d.parent q name hq
          have hNe : q ≠ l := by
            rintro rfl
            exact hNode hOld
          rw [if_neg hNe]
          exact hOld }
  else if d.get l = some .dir then .error .isADirectory
  else .error .notFound

theorem write_eq_ok (content : List UInt8) (hl : l ≠ []) (hp : d.get l.dropLast = some .dir)
    (hn : d.get l ≠ some .dir) : ∃ d', d.write l content = .ok d' ∧
      ∀ l', d'.get l' = if l' = l then some (.file content) else d.get l' := by
  refine ⟨_, dif_pos ⟨hl, hp, hn⟩, ?_⟩
  intro l'
  exact getNode_insert d.nodes hl (.file content) l'

/-- The location and all directories above it. -/
def ancestors (l : Location) : List Location :=
  l.inits.filter (· ≠ [])

theorem mem_ancestors : l' ∈ ancestors l ↔ l' ≠ [] ∧ l' <+: l := by
  simp [ancestors, mem_inits, and_comm]

variable {ls : List Location}

theorem getNode_makeDirs (hls : [] ∉ ls) (l' : Location) :
    getNode (ls.foldl (fun nodes l => nodes.insert l .dir) nodes) l' =
      if l' ∈ ls then some .dir else getNode nodes l' := by
  induction ls generalizing nodes with
  | nil => simp
  | cons l ls ih =>
    rw [mem_cons, not_or] at hls
    rw [foldl_cons, ih _ hls.2, getNode_insert _ (Ne.symm hls.1)]
    by_cases hMem : l' ∈ ls
    · simp [hMem]
    · simp [hMem]

def isFileNode : Option Node → Bool
  | some (.file _) => true
  | _ => false

theorem isFileNode_get (l : Location) : isFileNode (d.get l) = (d.fileAt l).isSome := by
  unfold isFileNode fileAt
  split <;> simp_all

/-- `std::fs::create_dir_all`. -/
def createDirAll (l : Location) : Except IoError Disk :=
  if l.inits.any fun p => isFileNode (d.get p) then .error .notADirectory
  else
    .ok
      { nodes := (ancestors l).foldl (fun nodes p => nodes.insert p .dir) d.nodes
        parent := by
          have hRoot : [] ∉ ancestors l := by simp [mem_ancestors]
          intro q name hq
          rw [getNode_makeDirs _ hRoot] at hq ⊢
          by_cases hAncestor : q ∈ ancestors l
          · rw [if_pos hAncestor]
          · rw [if_neg hAncestor]
            split_ifs at hq with hBelow
            · by_cases hEmpty : q = []
              · rw [getNode, if_pos hEmpty]
              · have hPrefix := (mem_ancestors.mp hBelow).2
                exact absurd
                  (mem_ancestors.mpr ⟨hEmpty, (prefix_append q [name]).trans hPrefix⟩)
                  hAncestor
            · exact d.parent q name hq }

theorem createDirAll_eq_ok (h : ∀ p, p <+: l → isFileNode (d.get p) = false) :
    ∃ d', d.createDirAll l = .ok d' ∧
      ∀ l', d'.get l' = if l' ∈ ancestors l then some .dir else d.get l' := by
  have hn : ¬ (l.inits.any fun p => isFileNode (d.get p)) = true := by
    rw [any_eq_true]
    rintro ⟨p, hp, hf⟩
    rw [h p ((mem_inits p l).mp hp)] at hf
    cases hf
  refine ⟨_, if_neg hn, ?_⟩
  intro l'
  exact getNode_makeDirs d.nodes (by simp [mem_ancestors]) l'

/-! ## Removing -/

theorem getNode_eraseAll (l' : Location) :
    getNode (ls.foldl (fun nodes l => nodes.erase l) nodes) l' =
      if l' ≠ [] ∧ l' ∈ ls then none else getNode nodes l' := by
  by_cases hr : l' = []
  · simp [getNode, hr]
  · induction ls generalizing nodes with
    | nil => simp
    | cons l ls ih =>
      rw [foldl_cons, ih]
      by_cases hEq : l' = l
      · subst hEq
        simp [getNode, hr]
      · simp [getNode, hr, hEq, AList.lookup_erase_ne hEq]

theorem parent_eraseAll (hc : ∀ q name, q ∈ ls → d.get (q ++ [name]) ≠ none → q ++ [name] ∈ ls)
    (q : Location) (name : String)
    (hq : getNode (ls.foldl (fun nodes l => nodes.erase l) d.nodes) (q ++ [name]) ≠ none) :
    getNode (ls.foldl (fun nodes l => nodes.erase l) d.nodes) q = some .dir := by
  rw [getNode_eraseAll] at hq ⊢
  have hk : q ++ [name] ∉ ls := by
    intro hMem
    simp [hMem] at hq
  rw [if_neg fun h => hk h.2] at hq
  rw [if_neg fun h => hk (hc q name h.2 hq)]
  exact d.parent q name hq

/-- `std::fs::remove_file`. -/
def removeFile (l : Location) : Except IoError Disk :=
  match h : d.get l with
  | some (.file _) =>
    .ok
      { nodes := [l].foldl (fun nodes l => nodes.erase l) d.nodes
        parent := by
          apply parent_eraseAll
          intro q name hq hChild
          -- nothing lies in a file
          have hDir := d.get_parent hChild
          rw [mem_singleton.mp hq, h] at hDir
          cases hDir }
  | some .dir => .error .isADirectory
  | none => .error .notFound

theorem removeFile_eq_ok (h : d.get l = some (.file content)) : ∃ d', d.removeFile l = .ok d' ∧
      ∀ l', d'.get l' = if l' = l then none else d.get l' := by
  have hl : l ≠ [] := by
    rintro rfl
    simp at h
  have hGet : ∀ l', getNode ([l].foldl (fun nodes l => nodes.erase l) d.nodes) l' =
      if l' = l then none else d.get l' := by
    intro l'
    rw [getNode_eraseAll]
    by_cases hEq : l' = l
    · subst hEq
      simp [hl]
    · simp [hEq, get]
  unfold removeFile
  split
  · exact ⟨_, rfl, hGet⟩
  · rename_i hDir
    rw [h] at hDir
    cases hDir
  · rename_i hn
    rw [h] at hn
    cases hn

/-- All that lies at or below a location. -/
def below (l : Location) : List Location :=
  d.nodes.keys.filter (l.isPrefixOf ·)

theorem mem_below (hl' : l' ≠ []) : l' ∈ d.below l ↔ d.get l' ≠ none ∧ l <+: l' := by
  rw [below, mem_filter, isPrefixOf_iff_prefix, mem_keys_iff d hl']

/-- `std::fs::remove_dir_all`. -/
def removeDirAll (l : Location) : Except IoError Disk :=
  match d.get l with
  | some .dir =>
    .ok
      { nodes := (d.below l).foldl (fun nodes l => nodes.erase l) d.nodes
        parent := by
          apply parent_eraseAll
          intro q name hq hChild
          have hPrefix : l <+: q := isPrefixOf_iff_prefix.mp (mem_filter.mp hq).2
          exact (mem_below d (by simp)).mpr ⟨hChild, hPrefix.trans (prefix_append q [name])⟩ }
  | some (.file _) => .error .notADirectory
  | none => .error .notFound

theorem removeDirAll_eq_ok (h : d.get l = some .dir) : ∃ d', d.removeDirAll l = .ok d' ∧
      ∀ l', d'.get l' = if l' ≠ [] ∧ l <+: l' then none else d.get l' := by
  refine ⟨_, by rw [removeDirAll, h], ?_⟩
  intro l'
  rw [get, getNode_eraseAll]
  by_cases hr : l' = []
  · simp [hr, get]
  · by_cases hn : d.get l' = none
    · simp [hn, show getNode d.nodes l' = none from hn]
    · have hb : l' ∈ d.below l ↔ l <+: l' := by
        rw [mem_below d hr]
        exact and_iff_right hn
      simp [hr, hb, get]

end Disk
end Spacegate.Foundation
