import Spacegate.Kernel.MatchHostname

/-!
# What the host name trie answers

A trie node denotes a partial map from label patterns to values: `stored`
follows a pattern from the node.  Inserting a pattern updates that map in one
place, and the recursive search with its fall back from a failed literal branch
to the `*` branch is the abstract search `bestMatch` over the map.  From the two
facts, after any sequence of `set` calls a lookup answers with the last value of
the most specific pattern that matches the host.
-/

namespace Spacegate.Kernel

open Foundation HostnameMatcherNode List
open Foundation.LabelPattern
open Foundation.Text
open Foundation.WriteHistory

/-- One label of a host pattern, with the letter case folded away. -/
def patternLabel (segment : String) : Option String :=
  if segment = "*" then none else some (toAsciiLowercase segment)

/-- A host pattern as a label pattern, top level domain first. -/
def hostPattern (pattern : String) : Pattern String :=
  (HostnameMatcherNode.labels pattern).map patternLabel

/-- The labels a host is matched by, top level domain first. -/
def hostLabels (host : String) : List String :=
  (HostnameMatcherNode.labels host).map toAsciiLowercase

/-- A host pattern describes a host. -/
def HostMatches (pattern host : String) : Prop :=
  Matches (hostPattern pattern) (hostLabels host)

instance (pattern host : String) : Decidable (HostMatches pattern host) :=
  inferInstanceAs (Decidable (Matches _ _))

theorem labels_toAsciiLowercase (host : String) :
    labels (toAsciiLowercase host) = hostLabels host := by
  rw [labels, split_dot_toAsciiLowercase, hostLabels, labels, map_reverse]

namespace HostnameMatcherNode

variable {T : Type}

/-- The value stored at the end of a pattern. -/
def stored (node : HostnameMatcherNode T) : Pattern String → Option T
  | [] => node.data
  | some segment :: pattern => (OrderedMap.get node.children segment).bind (·.stored pattern)
  | none :: pattern => node.elseNode.bind (·.stored pattern)

@[simp] theorem stored_new (pattern : Pattern String) :
    (new : HostnameMatcherNode T).stored pattern = none := by
  match pattern with
  | [] => rfl
  | some _ :: _ => rfl
  | none :: _ => rfl

theorem stored_getD_new (node : Option (HostnameMatcherNode T)) (pattern : Pattern String) :
    (node.getD new).stored pattern = node.bind (·.stored pattern) := by
  cases node <;> simp

variable (node : HostnameMatcherNode T) (host : List String)

/-- Insertion changes the stored map at the inserted pattern only. -/
theorem stored_appendByIter (data : T) (pattern : Pattern String) :
    (node.appendByIter host data).stored pattern =
      if host.map patternLabel = pattern then some data else node.stored pattern := by
  induction host generalizing node pattern with
  | nil =>
    match pattern with
    | [] => simp [appendByIter, stored]
    | some _ :: _ => simp [appendByIter, stored]
    | none :: _ => simp [appendByIter, stored]
  | cons segment host ih =>
    by_cases hs : segment = "*"
    · match pattern with
      | [] => simp [appendByIter, stored, hs]
      | some _ :: _ => simp [appendByIter, stored, hs, patternLabel]
      | none :: pattern =>
        simp [appendByIter, stored, hs, patternLabel, ih, stored_getD_new]
    · match pattern with
      | [] => simp [appendByIter, stored, hs]
      | none :: _ => simp [appendByIter, stored, hs, patternLabel]
      | some label :: pattern =>
        by_cases hl : toAsciiLowercase segment = label
        · subst hl
          simp [appendByIter, stored, hs, patternLabel, ih, stored_getD_new]
        · simp [appendByIter, stored, hs, patternLabel, hl, OrderedMap.get_upsert_of_ne hl]

theorem stored_set (host : String) (data : T) (pattern : Pattern String) :
    (node.set host data).stored pattern =
      if hostPattern host = pattern then some data else node.stored pattern :=
  stored_appendByIter node (labels host) data pattern

theorem bestMatch_none : bestMatch (fun _ : Pattern String => (none : Option T)) host = none := by
  rw [bestMatch_eq_none_iff]
  intros
  rfl

/-- The recursive search is the abstract one over the stored map. -/
theorem getByIter_eq_bestMatch : node.getByIter host = bestMatch node.stored host := by
  induction host generalizing node with
  | nil => rfl
  | cons segment host ih =>
    have hl :
        (OrderedMap.get node.children segment).bind (·.getByIter host) =
          bestMatch (fun pattern => node.stored (some segment :: pattern)) host := by
      cases hc : OrderedMap.get node.children segment with
      | none => simp [stored, hc, bestMatch_none]
      | some child => simp [stored, hc, ih]
    rw [getByIter, bestMatch, hl]
    cases bestMatch (fun pattern => node.stored (some segment :: pattern)) host with
    | some data => rfl
    | none =>
      cases he : node.elseNode with
      | none => simp [stored, he, bestMatch_none]
      | some elseNode => simp [stored, he, ih]

theorem get_eq_bestMatch (host : String) :
    node.get host = bestMatch node.stored (hostLabels host) := by
  rw [get, getByIter_eq_bestMatch, labels_toAsciiLowercase]

/-- The node after a sequence of `set` calls on an empty node. -/
def setAll (sets : List (String × T)) : HostnameMatcherNode T :=
  sets.foldl (fun node entry => node.set entry.1 entry.2) new

variable (sets : List (String × T)) (pattern : Pattern String)

theorem stored_setAll :
    (setAll sets).stored pattern =
      latest (sets.map fun entry => (hostPattern entry.1, entry.2)) pattern := by
  have hw : ∀ (node : HostnameMatcherNode T) (entry : String × T) (k : Pattern String),
      (node.set entry.1 entry.2).stored k =
        if hostPattern entry.1 = k then some entry.2 else node.stored k :=
    fun node entry k => stored_set node entry.1 entry.2 k
  rw [setAll, foldl_write_eq_latest _ _ stored _ hw, stored_new, Option.or_none]

theorem stored_setAll_ne_none_iff :
    (setAll sets).stored pattern ≠ none ↔ ∃ entry ∈ sets, hostPattern entry.1 = pattern := by
  rw [stored_setAll, latest_ne_none_iff]
  constructor
  · rintro ⟨_, hMem, hKey⟩
    obtain ⟨entry, he, rfl⟩ := mem_map.mp hMem
    exact ⟨entry, he, hKey⟩
  · rintro ⟨entry, he, hKey⟩
    exact ⟨_, mem_map_of_mem he, hKey⟩

theorem stored_setAll_eq_some {sets : List (String × T)} {pattern : Pattern String} {data : T}
    (h : (setAll sets).stored pattern = some data) :
    ∃ earlier host later, sets = earlier ++ (host, data) :: later ∧
      hostPattern host = pattern ∧ ∀ entry ∈ later, hostPattern entry.1 ≠ pattern := by
  rw [stored_setAll] at h
  obtain ⟨earlier, later, hs, hLast⟩ := latest_eq_some h
  obtain ⟨earlier', rest, rfl, -, hr⟩ := map_eq_append_iff.mp hs
  obtain ⟨entry, later', rfl, he, rfl⟩ := map_eq_cons_iff.mp hr
  obtain ⟨host, data'⟩ := entry
  simp only [Prod.mk.injEq] at he
  obtain ⟨hh, rfl⟩ := he
  have hl : ∀ entry ∈ later', hostPattern entry.1 ≠ pattern := by
    intro entry hMem
    exact hLast _ (mem_map_of_mem hMem)
  exact ⟨earlier', host, later', rfl, hh, hl⟩

theorem stored_setAll_of_last (earlier : List (String × T)) {later : List (String × T)}
    {host : String} (data : T) (hLast : ∀ entry ∈ later, hostPattern entry.1 ≠ hostPattern host) :
    (setAll (earlier ++ (host, data) :: later)).stored (hostPattern host) = some data := by
  have hl : latest (later.map fun entry => (hostPattern entry.1, entry.2))
      (hostPattern host) = none := by
    rw [← stored_setAll]
    by_contra hs
    obtain ⟨entry, hMem, hKey⟩ := (stored_setAll_ne_none_iff later _).mp hs
    exact hLast entry hMem hKey
  rw [stored_setAll, map_append]
  induction earlier with
  | nil => simp [latest_cons, hl]
  | cons entry earlier ih =>
    rw [map_cons, cons_append, latest_cons, ih, Option.some_or]

/-- A lookup succeeds exactly when some registered pattern matches the host, and
then answers with the last value registered for the most specific of them. -/
theorem get_setAll (host : String) :
    ((setAll sets).get host ≠ none ↔ ∃ entry ∈ sets, HostMatches entry.1 host) ∧
    ∀ data, (setAll sets).get host = some data ↔
      ∃ earlier pattern later, sets = earlier ++ (pattern, data) :: later ∧
        HostMatches pattern host ∧
        (∀ entry ∈ sets, HostMatches entry.1 host →
          AtLeastAsSpecific (hostPattern pattern) (hostPattern entry.1)) ∧
        ∀ entry ∈ later, hostPattern entry.1 ≠ hostPattern pattern := by
  have hStored : ∀ entry ∈ sets, (setAll sets).stored (hostPattern entry.1) ≠ none := by
    intro entry he
    exact (stored_setAll_ne_none_iff sets _).mpr ⟨entry, he, rfl⟩
  constructor
  · rw [get_eq_bestMatch, Ne, bestMatch_eq_none_iff]
    constructor
    · intro h
      push Not at h
      obtain ⟨pattern, hm, hs⟩ := h
      obtain ⟨entry, hMem, rfl⟩ := (stored_setAll_ne_none_iff sets pattern).mp hs
      exact ⟨entry, hMem, hm⟩
    · rintro ⟨entry, hMem, hm⟩ hn
      exact hStored entry hMem (hn _ hm)
  · intro data
    rw [get_eq_bestMatch]
    constructor
    · intro h
      obtain ⟨pattern, hs, hm, hb⟩ := bestMatch_eq_some h
      obtain ⟨earlier, host', later, hSets, rfl, hl⟩ := stored_setAll_eq_some hs
      have hMost : ∀ entry ∈ sets, HostMatches entry.1 host →
          AtLeastAsSpecific (hostPattern host') (hostPattern entry.1) := by
        intro entry hMem he
        exact hb _ (hStored entry hMem) he
      exact ⟨earlier, host', later, hSets, hm, hMost, hl⟩
    · rintro ⟨earlier, pattern, later, rfl, hm, hb, hl⟩
      have hp := stored_setAll_of_last earlier data hl
      cases hGet : bestMatch (setAll (earlier ++ (pattern, data) :: later)).stored
          (hostLabels host) with
      | none =>
        rw [bestMatch_eq_none_iff] at hGet
        rw [hGet _ hm] at hp
        exact absurd hp (by simp)
      | some data' =>
        -- Both values belong to a most specific matching pattern, and there is
        -- only one of those.
        obtain ⟨pattern', hs, hm', hb'⟩ := bestMatch_eq_some hGet
        obtain ⟨_, host', _, hSets, rfl, _⟩ := stored_setAll_eq_some hs
        have hMem : (host', data') ∈ earlier ++ (pattern, data) :: later := by
          rw [hSets]
          simp
        have hLe : AtLeastAsSpecific (hostPattern host') (hostPattern pattern) :=
          hb' (hostPattern pattern) (by rw [hp]; simp) hm
        have hGe : AtLeastAsSpecific (hostPattern pattern) (hostPattern host') :=
          hb (host', data') hMem hm'
        have hEq : hostPattern pattern = hostPattern host' := eq_of_atLeastAsSpecific hm hm' hGe hLe
        rw [← hEq, hp] at hs
        exact hs.symm

end HostnameMatcherNode

end Spacegate.Kernel
