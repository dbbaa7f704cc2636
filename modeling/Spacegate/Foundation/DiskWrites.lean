import Spacegate.Foundation.DiskProgram
import Spacegate.Foundation.WriteHistory

/-!
# Programs that only add

What a program leaves that only writes files and makes directories is told by the list of
its puts: a location holds what was put there last, or else what it held before.

A layout says which locations are for directories and which for files.  As long as it is
followed no directory stands in the way of a file or the other way round, and the puts
succeed.
-/

namespace Spacegate.Foundation

open WriteHistory List

namespace Disk

/-- `d'` is `d` with the puts added in this order. -/
def Puts (d : Disk) (puts : List (Location × Node)) (d' : Disk) : Prop :=
  ∀ l, d'.get l = (latest puts l).or (d.get l)

theorem Puts.refl (d : Disk) : Puts d [] d := by
  intro l
  simp

theorem Puts.trans {d d' d'' : Disk} {puts puts' : List (Location × Node)}
    (h : Puts d puts d') (h' : Puts d' puts' d'') : Puts d (puts ++ puts') d'' := by
  intro l
  rw [h' l, h l, latest_append, Option.or_assoc]

/-- The puts of `create_dir_all`. -/
def makeDirs (l : Location) : List (Location × Node) :=
  (ancestors l).map fun p => (p, .dir)

theorem latest_makeDirs (l l' : Location) :
    latest (makeDirs l) l' = if l' ≠ [] ∧ l' <+: l then some .dir else none := by
  rw [makeDirs, latest_map_const (fun p : Location => p), map_id']
  simp [mem_ancestors]

structure Layout where
  IsDir : Location → Prop
  IsFile : Location → Prop
  disjoint : ∀ l, IsDir l → ¬ IsFile l
  root : IsDir []
  above : ∀ l p, p <+: l → IsDir l → IsDir p

namespace Layout

variable (layout : Layout)

def Fits (l : Location) : Node → Prop
  | .dir => layout.IsDir l
  | .file _ => layout.IsFile l

def Follows (d : Disk) : Prop :=
  ∀ l node, d.get l = some node → layout.Fits l node

variable {layout} {d d' : Disk} {l : Location}

theorem follows_empty : layout.Follows empty := by
  intro l node hn
  by_cases hl : l = []
  · subst hl
    cases hn
    exact layout.root
  · rw [get_empty hl] at hn
    cases hn

theorem Follows.puts (hd : layout.Follows d) {puts : List (Location × Node)}
    (hf : ∀ put ∈ puts, layout.Fits put.1 put.2) (h : Puts d puts d') : layout.Follows d' := by
  intro l node hn
  rw [h l, Option.or_eq_some_iff] at hn
  rcases hn with hNew | ⟨-, hOld⟩
  · exact hf (l, node) (mem_of_latest hNew)
  · exact hd l node hOld

theorem Follows.dir_stays (hd' : layout.Follows d') {puts : List (Location × Node)}
    (h : Puts d puts d') (hid : layout.IsDir l) (hDir : d.get l = some .dir) :
    d'.get l = some .dir := by
  cases hn : d'.get l with
  | none =>
    rw [h l, hDir, Option.or_eq_none_iff] at hn
    cases hn.2
  | some node =>
    cases node with
    | dir => rfl
    | file content => exact absurd (hd' l _ hn) (layout.disjoint l hid)

end Layout
end Disk

namespace DiskM

open Disk (Location Layout Puts makeDirs)

variable {α ε : Type} {order : IterOrder} {layout : Layout} {d : Disk} {l : Location}

/-- From `d` the program succeeds and adds the puts, within the layout. -/
def Adds (order : IterOrder) (layout : Layout) (p : DiskM ε Unit) (d : Disk)
    (puts : List (Location × Disk.Node)) : Prop :=
  ∃ d', p.exec order d = (.ok (), d') ∧ Puts d puts d' ∧ layout.Follows d'

theorem adds_pure (hd : layout.Follows d) : Adds order layout (pure () : DiskM ε Unit) d [] :=
  ⟨d, exec_pure () d, Puts.refl d, hd⟩

theorem Adds.bind {p : DiskM ε Unit} {q : Unit → DiskM ε Unit}
    {puts puts' : List (Location × Disk.Node)} (hp : Adds order layout p d puts)
    (hq : ∀ d', Puts d puts d' → layout.Follows d' → Adds order layout (q ()) d' puts') :
    Adds order layout (p >>= q) d (puts ++ puts') := by
  obtain ⟨d', he, hPuts, hd'⟩ := hp
  obtain ⟨d'', he', hp', hd''⟩ := hq d' hPuts hd'
  exact ⟨d'', by rw [exec_bind_ok he, he'], hPuts.trans hp', hd''⟩

variable (wrap : IoError → ε)

theorem adds_createDirAll (hd : layout.Follows d) (hl : layout.IsDir l) :
    Adds order layout (createDirAll wrap l) d (makeDirs l) := by
  have hc : ∀ p, p <+: l → Disk.isFileNode (d.get p) = false := by
    intro p hp
    cases hn : d.get p with
    | none => rfl
    | some node =>
      cases node with
      | dir => rfl
      | file content =>
        exact absurd (hd p _ hn) (layout.disjoint p (layout.above l p hp hl))
  obtain ⟨d', hOk, hGet⟩ := d.createDirAll_eq_ok hc
  have hPuts : Puts d (makeDirs l) d' := by
    intro l'
    rw [hGet l', Disk.latest_makeDirs]
    simp only [Disk.mem_ancestors]
    split_ifs <;> simp
  refine ⟨d', exec_createDirAll_ok hOk, hPuts, hd.puts ?_ hPuts⟩
  rintro ⟨p, node⟩ hPut
  obtain ⟨p', hp', hEq⟩ := mem_map.mp hPut
  cases hEq
  exact layout.above l p (Disk.mem_ancestors.mp hp').2 hl

theorem adds_write (content : List UInt8) (hd : layout.Follows d)
    (hl : layout.IsFile l) (hp : d.get l.dropLast = some .dir) :
    Adds order layout (write wrap l content) d [(l, .file content)] := by
  have hr : l ≠ [] := by
    rintro rfl
    exact layout.disjoint [] layout.root hl
  have hn : d.get l ≠ some .dir := fun hDir => layout.disjoint l (hd l _ hDir) hl
  obtain ⟨d', hOk, hGet⟩ := d.write_eq_ok content hr hp hn
  have hPuts : Puts d [(l, .file content)] d' := by
    intro l'
    rw [hGet l', latest_cons]
    by_cases hEq : l' = l
    · simp [hEq]
    · simp [hEq, Ne.symm hEq]
  refine ⟨d', exec_write_ok hOk, hPuts, hd.puts ?_ hPuts⟩
  intro put hPut
  cases mem_singleton.mp hPut
  exact hl

theorem adds_forM {xs : List α} {f : α → DiskM ε Unit} {puts : α → List (Location × Disk.Node)}
    {Needs : Disk → Prop} (hn : ∀ d d' new, Puts d new d' → layout.Follows d' → Needs d → Needs d')
    (hb : ∀ x ∈ xs, ∀ d, Needs d → layout.Follows d → Adds order layout (f x) d (puts x))
    (hd : layout.Follows d) (hs : Needs d) : Adds order layout (xs.forM f) d (xs.flatMap puts) := by
  induction xs generalizing d with
  | nil => exact adds_pure hd
  | cons x xs ih =>
    rw [flatMap_cons]
    refine (hb x mem_cons_self d hs hd).bind ?_
    intro d' hp hd'
    exact ih (fun y hy => hb y (mem_cons_of_mem x hy)) hd' (hn d d' _ hp hd' hs)

end DiskM
end Spacegate.Foundation
