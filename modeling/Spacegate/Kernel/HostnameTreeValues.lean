import Spacegate.Kernel.HostnamePrecedence

/-!
# The values of a host name tree

A lookup ends at a malformed bracketed host before it comes to the fallback.  For every other
host a tree with a fallback has a value (`found_iff_wellBracketed`).

`iter` and `iter_mut` walk the address maps, the trie and the fallback.  In the trie the walk
asks every child of a node for its first value only, and goes on in the `*` branch: it visits one
value for each start of a pattern that runs through wildcards up to the first literal label (its
`stem`), and no other (`exists_nextSlots`).  So the walk is complete exactly when no two patterns
of the tree have one stem.

A tree that was built by `set` has a value below each of its nodes (`Grown`).  This is why the
walk does not end early: a child is never without an answer.
-/

namespace Spacegate.Kernel

open Foundation HostnameMatcherNode List OrderedMap
open Foundation.LabelPattern
open Foundation.Text
open Foundation.IpAddr (parseIpv4 parseIpv6)

/-- The wildcards a pattern starts with and the label after them. -/
def stem {κ : Type} : Pattern κ → Pattern κ
  | [] => []
  | some label :: _ => [some label]
  | none :: pattern => none :: stem pattern

namespace HostnameMatcherNode

variable {T : Type} (node : HostnameMatcherNode T)

/-- Something is stored at the node or below it. -/
def Holds : Prop :=
  ∃ pattern, node.stored pattern ≠ none

/-- A trie as `set` builds it: the labels of the children differ, and all branches lead to
values. -/
inductive Grown : HostnameMatcherNode T → Prop
  | node {data : Option T} {children : List (String × HostnameMatcherNode T)}
      {elseNode : Option (HostnameMatcherNode T)}
      (nodup : (children.map Prod.fst).Nodup)
      (grown : ∀ entry ∈ children, Grown entry.2)
      (holds : ∀ entry ∈ children, entry.2.Holds)
      (elseGrown : ∀ branch, elseNode = some branch → Grown branch)
      (elseHolds : ∀ branch, elseNode = some branch → branch.Holds) :
      Grown ⟨data, children, elseNode⟩

theorem grown_new : (new : HostnameMatcherNode T).Grown :=
  .node (by simp) (by simp) (by simp) (by simp) (by simp)

theorem holds_appendByIter (host : List String) (data : T) :
    (node.appendByIter host data).Holds := by
  refine ⟨host.map patternLabel, ?_⟩
  rw [stored_appendByIter, if_pos rfl]
  simp

theorem grown_getD_new {branch : Option (HostnameMatcherNode T)}
    (h : ∀ node, branch = some node → node.Grown) : (branch.getD new).Grown := by
  cases branch with
  | none => exact grown_new
  | some node => exact h node rfl

variable {node : HostnameMatcherNode T}

theorem grown_appendByIter (h : node.Grown) (host : List String) (data : T) :
    (node.appendByIter host data).Grown := by
  induction host generalizing node with
  | nil =>
    obtain ⟨nodup, grown, holds, elseGrown, elseHolds⟩ := h
    exact .node nodup grown holds elseGrown elseHolds
  | cons segment host ih =>
    obtain ⟨nodup, grown, holds, elseGrown, elseHolds⟩ := h
    unfold appendByIter
    split
    · refine .node nodup grown holds ?_ ?_
      · rintro branch hb
        rw [← Option.some.inj hb]
        exact ih (grown_getD_new elseGrown)
      · rintro branch hb
        rw [← Option.some.inj hb]
        exact holds_appendByIter _ _ _
    · refine .node (nodup_keys_upsert _ _ nodup) ?_ ?_ elseGrown elseHolds
      · intro entry he
        rcases mem_upsert he with rfl | hOld
        · exact ih (grown_getD_new fun child hc => grown _ (mem_of_get hc))
        · exact grown entry hOld
      · intro entry he
        rcases mem_upsert he with rfl | hOld
        · exact holds_appendByIter _ _ _
        · exact holds entry hOld

/-! ## The walk through a trie -/

/-- A node with a value below it answers the first `next` with a value. -/
theorem Grown.exists_firstSlot (h : node.Grown) (hh : node.Holds) :
    ∃ path, node.firstSlot = some path ∧ node.stored path ≠ none := by
  induction h with
  | @node data children elseNode nodup grown holds elseGrown elseHolds ih ihElse =>
    cases data with
    | some value => exact ⟨[], rfl, by simp [stored]⟩
    | none =>
      cases children with
      | cons entry rest =>
        obtain ⟨segment, child⟩ := entry
        obtain ⟨path, hf, hs⟩ := ih _ mem_cons_self (holds _ mem_cons_self)
        refine ⟨some segment :: path, by simp [firstSlot, hf], ?_⟩
        simpa [stored, get_cons] using hs
      | nil =>
        cases elseNode with
        | some branch =>
          obtain ⟨path, hf, hs⟩ := ihElse branch rfl (elseHolds branch rfl)
          exact ⟨none :: path, by simp [firstSlot, hf], by simpa [stored] using hs⟩
        | none =>
          obtain ⟨pattern, hp⟩ := hh
          rcases pattern with _ | ⟨_ | segment, pattern⟩
          · exact absurd rfl hp
          · exact absurd rfl hp
          · exact absurd rfl hp

/-- The answers of a walk: one stored pattern for each stem of a stored pattern. -/
structure VisitsStems (node : HostnameMatcherNode T) (paths : List (Pattern String)) : Prop where
  nodup : paths.Nodup
  stored : ∀ path ∈ paths, node.stored path ≠ none
  stems : ∀ path ∈ paths, ∀ path' ∈ paths, stem path = stem path' → path = path'
  covers : ∀ pattern, node.stored pattern ≠ none → ∃ path ∈ paths, stem path = stem pattern

/-- The answers of a node whose `*` branch is walked along the given paths. -/
def walked (data : Option T) (children : List (String × HostnameMatcherNode T))
    (elsePaths : List (Pattern String)) : List (Pattern String) :=
  (data.map fun _ => []).toList ++
    children.map (fun child => some child.1 :: child.2.firstSlot.getD []) ++
    elsePaths.map (none :: ·)

section Walked

variable {data : Option T} {children : List (String × HostnameMatcherNode T)}
  {elsePaths : List (Pattern String)}

theorem nil_mem_walked : [] ∈ walked data children elsePaths ↔ data ≠ none := by
  cases data <;> simp [walked]

theorem literal_mem_walked {segment : String} {path : Pattern String} :
    some segment :: path ∈ walked data children elsePaths ↔
      ∃ child, (segment, child) ∈ children ∧ child.firstSlot.getD [] = path := by
  cases data <;> simp [walked]

theorem wildcard_mem_walked {path : Pattern String} :
    none :: path ∈ walked data children elsePaths ↔ path ∈ elsePaths := by
  cases data <;> simp [walked]

theorem nodup_walked (hc : (children.map Prod.fst).Nodup) (he : elsePaths.Nodup) :
    (walked data children elsePaths).Nodup := by
  have hl : (children.map fun child => some child.1 :: child.2.firstSlot.getD []).Nodup := by
    refine List.Nodup.of_map (fun path => path.headD none) ?_
    have hk := hc.map (Option.some_injective String)
    rw [map_map] at hk ⊢
    exact hk
  have hw : (elsePaths.map fun path => none :: path).Nodup :=
    he.map fun _ _ h => (cons.inj h).2
  -- the three parts start with nothing, with a label and with a wildcard
  refine nodup_append.mpr ⟨nodup_append.mpr ⟨?_, hl, ?_⟩, hw, ?_⟩
  · cases data <;> simp
  · intro path hp path' hp'
    obtain ⟨child, -, rfl⟩ := mem_map.mp hp'
    cases data <;> simp_all
  · intro path hp path' hp'
    obtain ⟨tail, -, rfl⟩ := mem_map.mp hp'
    rcases mem_append.mp hp with hOwn | hChild
    · cases data <;> simp_all
    · obtain ⟨child, -, rfl⟩ := mem_map.mp hChild
      simp

end Walked

/-- One node: what its children answer and what the walk of the `*` branch visits. -/
theorem visitsStems_walked {data : Option T} {children : List (String × HostnameMatcherNode T)}
    {elseNode : Option (HostnameMatcherNode T)} {elsePaths : List (Pattern String)}
    (hn : (children.map Prod.fst).Nodup)
    (hChildren : ∀ entry ∈ children, entry.2.stored (entry.2.firstSlot.getD []) ≠ none)
    (he : ∀ branch, elseNode = some branch → branch.VisitsStems elsePaths)
    (hNone : elseNode = none → elsePaths = []) :
    (⟨data, children, elseNode⟩ : HostnameMatcherNode T).VisitsStems
      (walked data children elsePaths) := by
  have hen : elsePaths.Nodup := by
    cases elseNode with
    | none => rw [hNone rfl]; exact nodup_nil
    | some branch => exact (he branch rfl).nodup
  refine ⟨nodup_walked hn hen, ?_, ?_, ?_⟩
  · intro path hPath
    rcases path with _ | ⟨_ | segment, path⟩
    · exact nil_mem_walked.mp hPath
    · have hMem := wildcard_mem_walked.mp hPath
      cases elseNode with
      | none => exact absurd hMem (by simp [hNone rfl])
      | some branch => simpa [stored] using (he branch rfl).stored path hMem
    · obtain ⟨child, hc, rfl⟩ := literal_mem_walked.mp hPath
      simpa [stored, get_of_mem hn hc] using hChildren _ hc
  · intro path hPath path' hp' hs
    -- Patterns that begin differently have different stems.
    rcases path with _ | ⟨_ | segment, path⟩ <;> rcases path' with _ | ⟨_ | segment', path'⟩ <;>
      simp only [stem, reduceCtorEq, cons.injEq, and_true, true_and, false_and,
        Option.some.injEq] at hs
    · rfl
    · have hMem := wildcard_mem_walked.mp hPath
      cases elseNode with
      | none => exact absurd hMem (by simp [hNone rfl])
      | some branch =>
        rw [(he branch rfl).stems path hMem path' (wildcard_mem_walked.mp hp') hs]
    · subst hs
      obtain ⟨child, hc, rfl⟩ := literal_mem_walked.mp hPath
      obtain ⟨child', hc', rfl⟩ := literal_mem_walked.mp hp'
      have hSame := get_of_mem hn hc'
      rw [get_of_mem hn hc] at hSame
      rw [Option.some.inj hSame]
  · intro pattern hp
    rcases pattern with _ | ⟨_ | segment, pattern⟩
    · exact ⟨[], nil_mem_walked.mpr hp, rfl⟩
    · cases elseNode with
      | none => exact absurd hp (by simp [stored])
      | some branch =>
        obtain ⟨path, hPath, hs⟩ := (he branch rfl).covers pattern (by simpa [stored] using hp)
        exact ⟨none :: path, wildcard_mem_walked.mpr hPath, by rw [stem, stem, hs]⟩
    · cases hGet : OrderedMap.get children segment with
      | none => exact absurd hp (by simp [stored, hGet])
      | some child =>
        exact ⟨_, literal_mem_walked.mpr ⟨child, OrderedMap.mem_of_get hGet, rfl⟩, rfl⟩

/-- The walk through a trie never answers with nothing before its end, and visits one value for
each stem. -/
theorem Grown.exists_nextSlots (h : node.Grown) :
    ∃ paths, node.nextSlots = paths.map some ∧ node.VisitsStems paths := by
  induction h with
  | @node data children elseNode nodup grown holds elseGrown elseHolds ih ihElse =>
    have hc : ∀ entry ∈ children,
        entry.2.firstSlot = some (entry.2.firstSlot.getD []) ∧
          entry.2.stored (entry.2.firstSlot.getD []) ≠ none := by
      intro entry he
      obtain ⟨path, hf, hs⟩ := (grown entry he).exists_firstSlot (holds entry he)
      rw [hf]
      exact ⟨rfl, hs⟩
    have ha : (children.map fun child => child.2.firstSlot.map (some child.1 :: ·)) =
        children.map fun child => some (some child.1 :: child.2.firstSlot.getD []) := by
      refine map_congr_left fun entry he => ?_
      rw [(hc entry he).1]
      rfl
    obtain ⟨elsePaths, hSlots, hElse, hn⟩ : ∃ elsePaths : List (Pattern String),
        (∀ branch, elseNode = some branch → branch.nextSlots = elsePaths.map some) ∧
          (∀ branch, elseNode = some branch → branch.VisitsStems elsePaths) ∧
          (elseNode = none → elsePaths = []) := by
      cases elseNode with
      | none => exact ⟨[], by simp, by simp, fun _ => rfl⟩
      | some branch =>
        obtain ⟨paths, hp, hv⟩ := ihElse branch rfl
        exact ⟨paths, by simpa using hp, by simpa using hv, by simp⟩
    refine ⟨walked data children elsePaths, ?_,
      visitsStems_walked nodup (fun entry he => (hc entry he).2) hElse hn⟩
    cases elseNode with
    | none =>
      rw [nextSlots, ha, hn rfl]
      cases data <;> simp [walked, Function.comp_def]
    | some branch =>
      rw [nextSlots, ha, hSlots branch rfl]
      cases data <;> simp [walked, Function.comp_def]

/-- A write to one place of the trie. -/
theorem stored_modifySlot (f : T → T) (node : HostnameMatcherNode T)
    (path pattern : Pattern String) :
    (node.modifySlot f path).stored pattern =
      if path = pattern then (node.stored pattern).map f else node.stored pattern := by
  induction path generalizing node pattern with
  | nil =>
    rcases pattern with _ | ⟨_ | segment, pattern⟩
    · rfl
    · rfl
    · rfl
  | cons label path ih =>
    cases label with
    | none =>
      rcases pattern with _ | ⟨_ | segment, pattern⟩
      · rfl
      · cases he : node.elseNode with
        | none => simp [modifySlot, stored, he]
        | some branch => simp [modifySlot, stored, he, ih]
      · rfl
    | some segment =>
      simp only [modifySlot]
      cases hGet : OrderedMap.get node.children segment with
      | none =>
        by_cases hp : some segment :: path = pattern
        · subst hp
          simp [stored, hGet]
        · simp [hp]
      | some child =>
        rcases pattern with _ | ⟨_ | other, pattern⟩
        · rfl
        · rfl
        · by_cases hl : segment = other
          · subst hl
            simp [stored, hGet, ih]
          · simp [stored, hl, OrderedMap.get_upsert_of_ne hl]

end HostnameMatcherNode

/-! ## Trees -/

namespace HostnameTree

variable {T : Type}

/-- The value at a place of a tree. -/
def valueAt (tree : HostnameTree T) : HostnameSlot → Option T
  | .ipv4 address => OrderedMap.get tree.ipv4 address
  | .ipv6 address => OrderedMap.get tree.ipv6 address
  | .host path => tree.host.stored path
  | .fallback => tree.fallback

/-- The tree after a sequence of `set` calls. -/
def setAll (sets : List (String × T)) : HostnameTree T :=
  sets.foldl (fun tree entry => tree.set entry.1 entry.2) new

/-- The iterators visit every value of a tree once: no place is visited twice, and those that are
visited are those that hold a value; every value that a lookup returns is among them; and a write
to all that `iter_mut` yields is made to every value, once. -/
structure EnumeratesOnce (tree : HostnameTree T) : Prop where
  nodup : tree.iterSlots.Nodup
  visited : ∀ slot, slot ∈ tree.iterSlots ↔ tree.valueAt slot ≠ none
  found : ∀ host value, tree.get host = some value →
    ∃ slot ∈ tree.iterSlots, tree.valueAt slot = some value
  written : ∀ f slot, (tree.iterMutForEach f).valueAt slot = (tree.valueAt slot).map f

/-- A tree as `set` builds it. -/
structure Grown (tree : HostnameTree T) : Prop where
  ipv4 : (tree.ipv4.map Prod.fst).Nodup
  ipv6 : (tree.ipv6.map Prod.fst).Nodup
  host : tree.host.Grown

variable {tree : HostnameTree T}

theorem grown_set (h : tree.Grown) (host : String) (data : T) : (tree.set host data).Grown := by
  unfold set
  split_ifs
  · exact ⟨h.ipv4, h.ipv6, h.host⟩
  · split
    · exact ⟨h.ipv4, nodup_keys_upsert _ _ h.ipv6, h.host⟩
    · exact h
  · exact h
  · split
    · exact ⟨nodup_keys_upsert _ _ h.ipv4, h.ipv6, h.host⟩
    · exact ⟨h.ipv4, h.ipv6, grown_appendByIter h.host _ _⟩

variable (sets : List (String × T))

theorem setAll_append_singleton (entry : String × T) :
    setAll (sets ++ [entry]) = (setAll sets).set entry.1 entry.2 := by
  simp [setAll, foldl_append]

theorem grown_setAll : (setAll sets).Grown := by
  have hNew : (new : HostnameTree T).Grown :=
    ⟨nodup_nil, nodup_nil, grown_new⟩
  induction sets using reverseRecOn with
  | nil => exact hNew
  | append_singleton sets entry ih =>
    rw [setAll_append_singleton]
    exact grown_set ih entry.1 entry.2

/-! ### The fallback -/

variable (host : String)

/-- A bracketed host is an IPv6 address up to the first closing bracket. -/
def WellBracketed : Prop :=
  startsWith '[' host = true → ∃ inner rest,
    splitOnce ']' (String.ofList host.toList.tail) = some (inner, rest) ∧
      (parseIpv6 inner).isSome = true

theorem hostKey_ne_malformed_iff : hostKey host ≠ .malformed ↔ WellBracketed host := by
  unfold hostKey WellBracketed
  by_cases hb : startsWith '[' host = true
  · simp only [hb, if_true, forall_const]
    cases hs : splitOnce ']' (String.ofList host.toList.tail) with
    | none => simp
    | some pieces =>
      obtain ⟨inner, rest⟩ := pieces
      cases hp : parseIpv6 inner <;> simp [hp]
  · simp only [hb, Bool.false_eq_true, if_false, false_implies, iff_true]
    split <;> simp

theorem fallback_set_ne_none (data : T) (h : host = "*" ∨ tree.fallback ≠ none) :
    (tree.set host data).fallback ≠ none := by
  unfold set
  split_ifs with hs
  · simp
  · have hOld := h.resolve_left hs
    split <;> exact hOld
  · exact h.resolve_left hs
  · have hOld := h.resolve_left hs
    split <;> exact hOld

theorem fallback_setAll_ne_none {sets : List (String × T)} (h : ∃ value, ("*", value) ∈ sets) :
    (setAll sets).fallback ≠ none := by
  obtain ⟨value, hMem⟩ := h
  induction sets using reverseRecOn with
  | nil => exact absurd hMem (by simp)
  | append_singleton sets entry ih =>
    rw [setAll_append_singleton]
    apply fallback_set_ne_none
    rcases mem_append.mp hMem with hOld | hl
    · exact Or.inr (ih hOld)
    · left
      rw [← mem_singleton.mp hl]

/-- With a fallback a lookup, for reading or for writing, has a value. -/
theorem found_of_fallback (h : tree.fallback ≠ none) {host : String}
    (hKey : hostKey host ≠ .malformed) : tree.get host ≠ none ∧ ∀ f, tree.getMut f host ≠ none := by
  obtain ⟨value, hf⟩ := Option.ne_none_iff_exists'.mp h
  have hw : ∀ f, tree.writeFallback f ≠ none := by
    simp [writeFallback, hf]
  constructor
  · unfold get
    split
    · contradiction
    · simp [hf]
    · simp [hf]
    · simp [hf]
  · intro f
    unfold getMut
    split
    · contradiction
    all_goals
      split
      · simp
      · exact hw f

variable (sets : List (String × T))

/-- After the fallback was set, all hosts find a value but those that open a bracket and are no
IPv6 address in it. -/
theorem found_iff_wellBracketed (hFallback : ∃ value, ("*", value) ∈ sets) (host : String) :
    ((setAll sets).get host ≠ none ∧ ∀ f, (setAll sets).getMut f host ≠ none) ↔
      WellBracketed host := by
  rw [← hostKey_ne_malformed_iff]
  constructor
  · rintro ⟨hGet, -⟩ hKey
    apply hGet
    rw [get, hKey]
  · exact found_of_fallback (fallback_setAll_ne_none hFallback)

/-- A name, an address and the empty host all find the fallback. -/
theorem fallback_found :
    (∃ value, ("*", value) ∈ [("*", 0)]) ∧
      ∀ host ∈ ["b.com:80", "10.0.0.1", "[::1]:443", ""], (setAll [("*", 0)]).get host ≠ none := by
  have hSet : ∃ value, ("*", value) ∈ [("*", 0)] := ⟨0, by simp⟩
  refine ⟨hSet, ?_⟩
  intro host hh
  refine ((found_iff_wellBracketed [("*", 0)] hSet host).mpr ?_).1
  rw [← hostKey_ne_malformed_iff]
  revert host
  decide

/-- An opened bracket alone finds nothing. -/
theorem openBracket_not_found : (setAll [("*", 0)]).get "[" = none := by
  rfl

/-! ### The places that are visited -/

theorem walkSlots_map_some (paths : List (Pattern String)) (fallback : Bool) :
    walkSlots (paths.map some) fallback =
      paths.map .host ++ if fallback then [.fallback] else [] := by
  induction paths with
  | nil => cases fallback <;> rfl
  | cons path paths ih => simp [walkSlots, ih]

variable (h : tree.Grown)
include h

theorem Grown.exists_iterSlots : ∃ paths, tree.host.VisitsStems paths ∧
      tree.iterSlots = (tree.ipv4.map Prod.fst).map .ipv4 ++ (tree.ipv6.map Prod.fst).map .ipv6 ++
        (paths.map .host ++ if tree.fallback.isSome then [.fallback] else []) := by
  obtain ⟨paths, hs, hv⟩ := h.host.exists_nextSlots
  refine ⟨paths, hv, ?_⟩
  rw [iterSlots, hs, walkSlots_map_some, map_map, map_map]
  rfl

theorem Grown.nodup_iterSlots : tree.iterSlots.Nodup := by
  obtain ⟨paths, hv, hs⟩ := h.exists_iterSlots
  have hi4 := h.ipv4.map (f := HostnameSlot.ipv4) fun _ _ hEq => HostnameSlot.ipv4.inj hEq
  have hi6 := h.ipv6.map (f := HostnameSlot.ipv6) fun _ _ hEq => HostnameSlot.ipv6.inj hEq
  have hh := hv.nodup.map (f := HostnameSlot.host) fun _ _ hEq => HostnameSlot.host.inj hEq
  rw [hs]
  simp only [nodup_append, hi4, hi6, hh]
  split_ifs <;> simp <;> grind

/-- The visited places outside the trie are those that hold a value. -/
theorem Grown.mem_iterSlots {slot : HostnameSlot}
    (hSlot : ∀ path, slot ≠ .host path) : slot ∈ tree.iterSlots ↔ tree.valueAt slot ≠ none := by
  obtain ⟨paths, -, hs⟩ := h.exists_iterSlots
  rw [hs]
  cases slot with
  | ipv4 address =>
    rw [valueAt, ← Option.isSome_iff_ne_none, OrderedMap.isSome_get_iff]
    split_ifs <;> simp
  | ipv6 address =>
    rw [valueAt, ← Option.isSome_iff_ne_none, isSome_get_iff]
    split_ifs <;> simp
  | host path => exact absurd rfl (hSlot path)
  | fallback =>
    rw [valueAt, ← Option.isSome_iff_ne_none]
    split_ifs with hf <;> simp [hf]

/-- In the trie the walk reaches every stored value exactly when stored patterns differ in their
stems. -/
theorem Grown.host_mem_iterSlots_iff :
    (∀ path, .host path ∈ tree.iterSlots ↔ tree.host.stored path ≠ none) ↔
      ∀ pattern pattern', tree.host.stored pattern ≠ none → tree.host.stored pattern' ≠ none →
        stem pattern = stem pattern' → pattern = pattern' := by
  obtain ⟨paths, hv, hSlots⟩ := h.exists_iterSlots
  have hMem : ∀ path, .host path ∈ tree.iterSlots ↔ path ∈ paths := by
    intro path
    rw [hSlots]
    split_ifs <;> simp
  simp only [hMem]
  constructor
  · intro hAll pattern pattern' hs hs' hStem
    exact hv.stems pattern ((hAll pattern).mpr hs) pattern' ((hAll pattern').mpr hs') hStem
  · intro hStems path
    refine ⟨hv.stored path, fun hs => ?_⟩
    obtain ⟨path', hp', hStem⟩ := hv.covers path hs
    rwa [← hStems path' path (hv.stored path' hp') hs hStem]

omit h

/-! ### Lookups and writes -/

/-- A lookup returns a value that the tree holds somewhere. -/
theorem exists_valueAt_of_get {host : String} {value : T} (h : tree.get host = some value) :
    ∃ slot, tree.valueAt slot = some value := by
  unfold get at h
  split at h
  · exact absurd h (by simp)
  · rcases Option.or_eq_some_iff.mp h with hFound | ⟨-, hf⟩
    · exact ⟨.ipv6 _, hFound⟩
    · exact ⟨.fallback, hf⟩
  · rcases Option.or_eq_some_iff.mp h with hFound | ⟨-, hf⟩
    · exact ⟨.ipv4 _, hFound⟩
    · exact ⟨.fallback, hf⟩
  · rcases Option.or_eq_some_iff.mp h with hFound | ⟨-, hf⟩
    · rw [get_eq_bestMatch] at hFound
      obtain ⟨pattern, hp, -⟩ := bestMatch_eq_some hFound
      exact ⟨.host pattern, hp⟩
    · exact ⟨.fallback, hf⟩

deriving instance DecidableEq for HostnameSlot

theorem valueAt_modifySlot (f : T → T) (tree : HostnameTree T) (slot slot' : HostnameSlot) :
    (tree.modifySlot f slot).valueAt slot' =
      if slot = slot' then (tree.valueAt slot').map f else tree.valueAt slot' := by
  cases slot <;> cases slot' <;>
    simp [modifySlot, valueAt, OrderedMap.get_map_update, stored_modifySlot]

/-- Writes to places that differ. -/
theorem valueAt_foldl_modifySlot (f : T → T) {slots : List HostnameSlot} (hn : slots.Nodup)
    (tree : HostnameTree T) (slot : HostnameSlot) : (slots.foldl (modifySlot f) tree).valueAt slot =
      if slot ∈ slots then (tree.valueAt slot).map f else tree.valueAt slot := by
  induction slots generalizing tree with
  | nil => rfl
  | cons first slots ih =>
    obtain ⟨hf, hr⟩ := nodup_cons.mp hn
    rw [foldl_cons, ih hr, valueAt_modifySlot]
    by_cases hs : first = slot
    · subst hs
      simp [hf]
    · simp [hs, Ne.symm hs]

/-! ### Trees that were built by `set` -/

/-- The pattern is put into the trie. -/
def IsName (host : String) : Prop :=
  host ≠ "*" ∧ startsWith '[' host = false ∧ parseIpv4 host = none

theorem stored_host_set (tree : HostnameTree T) (host : String) (data : T)
    (pattern : Pattern String) : (tree.set host data).host.stored pattern ≠ none ↔
      IsName host ∧ hostPattern host = pattern ∨ tree.host.stored pattern ≠ none := by
  unfold set
  split_ifs with hs hb hEnd
  · simp [IsName, hs]
  · split <;> simp [IsName, hb]
  · simp [IsName, hb]
  · split
    · rename_i hi4
      simp [IsName, hi4]
    · rename_i hi4
      rw [stored_set]
      have hn : IsName host := ⟨hs, by simpa using hb, hi4⟩
      split_ifs with hp
      · simp [hn, hp]
      · simp [hp]

theorem stored_host_setAll (pattern : Pattern String) : (setAll sets).host.stored pattern ≠ none ↔
      ∃ entry ∈ sets, IsName entry.1 ∧ hostPattern entry.1 = pattern := by
  induction sets using reverseRecOn with
  | nil => simp [setAll, new]
  | append_singleton sets entry ih =>
    rw [setAll_append_singleton, stored_host_set, ih]
    simp only [mem_append, mem_singleton, or_and_right, exists_or, exists_eq_left]
    exact or_comm

/-- No two names have one stem, unless they are the same pattern. -/
def OnePerStem : Prop :=
  ∀ entry ∈ sets, ∀ entry' ∈ sets, IsName entry.1 → IsName entry'.1 →
    stem (hostPattern entry.1) = stem (hostPattern entry'.1) →
    hostPattern entry.1 = hostPattern entry'.1

/-- After any sequence of `set` calls the iterators visit every value once exactly when no two
names differ only behind their first literal label. -/
theorem enumeratesOnce_iff : EnumeratesOnce (setAll sets) ↔ OnePerStem sets := by
  have hg := grown_setAll sets
  have hStems : (∀ path, .host path ∈ (setAll sets).iterSlots ↔
      (setAll sets).host.stored path ≠ none) ↔ OnePerStem sets := by
    rw [hg.host_mem_iterSlots_iff]
    constructor
    · intro h entry he entry' he' hn hn' hStem
      exact h _ _ ((stored_host_setAll sets _).mpr ⟨entry, he, hn, rfl⟩)
        ((stored_host_setAll sets _).mpr ⟨entry', he', hn', rfl⟩) hStem
    · intro h pattern pattern' hStored hs' hStem
      obtain ⟨entry, he, hn, rfl⟩ := (stored_host_setAll sets _).mp hStored
      obtain ⟨entry', he', hn', rfl⟩ := (stored_host_setAll sets _).mp hs'
      exact h entry he entry' he' hn hn' hStem
  rw [← hStems]
  constructor
  · intro h path
    exact h.visited (.host path)
  · intro h
    have hv : ∀ slot, slot ∈ (setAll sets).iterSlots ↔ (setAll sets).valueAt slot ≠ none := by
      intro slot
      cases slot with
      | host path => exact h path
      | _ => exact hg.mem_iterSlots (by simp)
    refine ⟨hg.nodup_iterSlots, hv, ?_, ?_⟩
    · intro host value hGet
      obtain ⟨slot, hs⟩ := exists_valueAt_of_get hGet
      exact ⟨slot, (hv slot).mpr (by simp [hs]), hs⟩
    · intro f slot
      rw [iterMutForEach, valueAt_foldl_modifySlot f hg.nodup_iterSlots]
      split_ifs with hs
      · rfl
      · have hNone : (setAll sets).valueAt slot = none := by
          simpa [hv slot] using hs
        rw [hNone, Option.map_none]

/-- Of the values for `a.com` and `b.com` only the first one is visited. -/
theorem siblings_not_enumerated : ¬ EnumeratesOnce (setAll [("a.com", 1), ("b.com", 2)]) := by
  intro h
  have hs : (setAll [("a.com", 1), ("b.com", 2)]).iterSlots =
      [.host [some "com", some "a"]] := by rfl
  have hv := (h.visited (.host [some "com", some "b"])).mpr (by
    rw [show (setAll [("a.com", 1), ("b.com", 2)]).valueAt (.host [some "com", some "b"]) =
      some 2 by rfl]
    simp)
  rw [hs] at hv
  simp at hv

end HostnameTree

end Spacegate.Kernel
