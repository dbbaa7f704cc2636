import Spacegate.Foundation.FilePath

/-!
# A file system that does not change

A file system maps locations to nodes; every node but the root lies in a
directory.  A path is resolved step by step from the root or the working
directory.  A symbolic link is followed by walking its target from the directory
that holds the link, at most `maxLinks` times for one path.

The main facts are about resolved locations.  They are never links
(`walk_isReal`), the way to them through a start of the path can be told apart
(`walk_append`), and a walk along names that are no links ends where the names
say (`walk_eq_of_isReal`), so that a canonical path resolves to itself.
-/

namespace Spacegate.Foundation

open Text List Except
open FilePath

/-- The kinds of `std::io::Error` that callers tell apart. -/
inductive ErrorKind where
  | notFound
  | permissionDenied
  | other
  deriving DecidableEq, Repr

inductive Node where
  | dir
  | file (content : List UInt8)
  | link (target : String)
  deriving DecidableEq, Repr

structure FileSystem where
  /-- What is at a location, or why it cannot be looked up. -/
  node : Location → Except ErrorKind Node
  /-- The directory may be searched. -/
  search : Location → Bool
  /-- Why a file cannot be opened for reading. -/
  openError : Location → Option ErrorKind
  /-- `Metadata::modified` of an open file; the metadata itself may be missing. -/
  modified : Location → Option (Option Int)
  /-- Reading fails after so many bytes. -/
  readLimit : Location → Option Nat
  maxLinks : Nat
  cwd : Location
  root_dir : node [] = .ok .dir
  cwd_dir : node cwd = .ok .dir
  parent_dir : ∀ location name n, node (location ++ [name]) = .ok n → node location = .ok .dir
  name_valid : ∀ location name n, node (location ++ [name]) = .ok n → IsName name

namespace FileSystem

variable (fs : FileSystem)

/-! ## Resolving paths -/

/-- Walk the steps from a location; `follow` continues behind a link. -/
def walkWith (follow : Location → List String → Except ErrorKind Location) :
    Location → List String → Except ErrorKind Location
  | location, [] => .ok location
  | location, step :: steps =>
    match fs.node location with
    | .ok .dir =>
      if fs.search location = false then .error .permissionDenied
      else if step = "." then walkWith follow location steps
      else if step = ".." then walkWith follow location.dropLast steps
      else
        match fs.node (location ++ [step]) with
        | .error e => .error e
        | .ok (.link target) =>
          if target = "" then .error .notFound
          else
            follow (if startsWith '/' target then [] else location)
              (pathSteps target ++ steps)
        | .ok _ => walkWith follow (location ++ [step]) steps
    | _ => .error .other

/-- Walk the steps and follow at most so many links. -/
def walk : (links : Nat) → Location → List String → Except ErrorKind Location
  | 0 => fs.walkWith fun _ _ => .error .other
  | links + 1 => fs.walkWith (walk links)

/-- The location that a path leads to, all links followed. -/
def resolve (path : String) : Except ErrorKind Location :=
  if path = "" then .error .notFound
  else fs.walk fs.maxLinks (if startsWith '/' path then [] else fs.cwd) (pathSteps path)

/-- `Path::canonicalize`. -/
def canonicalize (path : String) : Except ErrorKind String :=
  (fs.resolve path).map locationPath

/-- An open file. -/
structure OpenFile where
  location : Location
  node : Node
  deriving DecidableEq

/-- `File::open` for reading. -/
def openFile (path : String) : Except ErrorKind OpenFile := do
  let location ← fs.resolve path
  match fs.openError location with
  | some e => .error e
  | none => do
      let node ← fs.node location
      .ok { location := location, node := node }

/-- `read_to_end`, with what was read before an error.  A directory cannot be
read. -/
def readToEnd (file : OpenFile) : List UInt8 :=
  match file.node with
  | .file content =>
    match fs.readLimit file.location with
    | some limit => content.take limit
    | none => content
  | _ => []

/-! ## Locations without links -/

/-- There is something other than a link at the location. -/
def IsReal (location : Location) : Prop :=
  ∃ n, fs.node location = .ok n ∧ ∀ target, n ≠ .link target

variable {fs} {location location' : Location} {rest steps : List String} {name path base : String}
  {links : Nat}

theorem isReal_of_dir (h : fs.node location = .ok .dir) : fs.IsReal location := ⟨.dir, h, by simp⟩

theorem dropLast_dir (h : fs.node location = .ok .dir) : fs.node location.dropLast = .ok .dir := by
  rcases eq_nil_or_concat location with rfl | ⟨init, name, rfl⟩
  · exact h
  · rw [concat_eq_append] at h ⊢
    rw [dropLast_concat]
    exact fs.parent_dir init name .dir h

theorem dir_of_isReal_append (h : fs.IsReal (location ++ name :: rest)) :
    fs.node location = .ok .dir := by
  induction rest using List.reverseRecOn with
  | nil =>
    obtain ⟨n, hn, -⟩ := h
    exact fs.parent_dir location name n hn
  | append_singleton rest last ih =>
    obtain ⟨n, hn, -⟩ := h
    apply ih
    apply isReal_of_dir
    apply fs.parent_dir _ last n
    rw [append_assoc]
    exact hn

theorem isReal_of_isReal_append {location : List String} (h : fs.IsReal (location ++ rest)) :
    fs.IsReal location := by
  cases rest with
  | nil => rwa [append_nil] at h
  | cons name rest => exact isReal_of_dir (dir_of_isReal_append h)

theorem names_of_isReal (h : fs.IsReal location) : ∀ name ∈ location, IsName name := by
  induction location using List.reverseRecOn with
  | nil => simp
  | append_singleton location last ih =>
    obtain ⟨n, hn, -⟩ := h
    intro name hName
    rcases mem_append.mp hName with hName | hName
    · exact ih (isReal_of_dir (fs.parent_dir location last n hn)) name hName
    · rw [mem_singleton.mp hName]
      exact fs.name_valid location last n hn

/-! ## One step -/

theorem walk_nil (links : Nat) (location : Location) :
    fs.walk links location [] = .ok location := by
  cases links <;> rfl

section Step

variable {location : Location} {step : String} {steps : List String} (links : Nat)
  (hDir : fs.node location = .ok .dir)
  (hs : fs.search location = true)
include hDir hs

theorem walk_dot : fs.walk links location ("." :: steps) = fs.walk links location steps := by
  cases links <;> simp [walk, walkWith, hDir, hs]

theorem walk_up :
    fs.walk links location (".." :: steps) = fs.walk links location.dropLast steps := by
  cases links <;> simp [walk, walkWith, hDir, hs]

theorem walk_link (hn : step ≠ "." ∧ step ≠ "..") {target : String}
    (hl : fs.node (location ++ [step]) = .ok (.link target)) (ht : target ≠ "") :
    fs.walk (links + 1) location (step :: steps) =
      fs.walk links (if startsWith '/' target then [] else location)
        (pathSteps target ++ steps) := by
  simp [walk, walkWith, hDir, hs, hn, hl, ht]

theorem walk_real (hName : step ≠ "." ∧ step ≠ "..") (hr : fs.IsReal (location ++ [step])) :
    fs.walk links location (step :: steps) = fs.walk links (location ++ [step]) steps := by
  obtain ⟨n, hn, hr⟩ := hr
  cases n with
  | dir => cases links <;> simp [walk, walkWith, hDir, hs, hName, hn]
  | file content => cases links <;> simp [walk, walkWith, hDir, hs, hName, hn]
  | link target => exact absurd rfl (hr target)

omit hDir hs

/-- What the first step of a successful walk does. -/
theorem walk_cons_ok {links : Nat} {location' : Location}
    (h : fs.walk links location (step :: steps) = .ok location') :
    fs.node location = .ok .dir ∧ fs.search location = true ∧
      ((step = "." ∧ fs.walk links location steps = .ok location') ∨
        (step = ".." ∧ fs.walk links location.dropLast steps = .ok location') ∨
        (∃ links' target, links = links' + 1 ∧ (step ≠ "." ∧ step ≠ "..") ∧
          fs.node (location ++ [step]) = .ok (.link target) ∧ target ≠ "" ∧
          fs.walk links' (if startsWith '/' target then [] else location)
            (pathSteps target ++ steps) = .ok location') ∨
        ((step ≠ "." ∧ step ≠ "..") ∧ fs.IsReal (location ++ [step]) ∧
          fs.walk links (location ++ [step]) steps = .ok location')) := by
  have hDir : fs.node location = .ok .dir := by
    cases links <;> rw [walk, walkWith] at h <;> split at h <;> simp_all
  have hs : fs.search location = true := by
    by_contra hNot
    have hf : fs.search location = false := by simpa using hNot
    cases links <;> simp [walk, walkWith, hDir, hf] at h
  refine ⟨hDir, hs, ?_⟩
  by_cases hDot : step = "."
  · left
    subst hDot
    rw [walk_dot links hDir hs] at h
    exact ⟨rfl, h⟩
  · by_cases hUp : step = ".."
    · right; left
      subst hUp
      rw [walk_up links hDir hs] at h
      exact ⟨rfl, h⟩
    · right; right
      cases hn : fs.node (location ++ [step]) with
      | error e => cases links <;> simp [walk, walkWith, hDir, hs, hDot, hUp, hn] at h
      | ok n =>
        by_cases hl : ∃ target, n = .link target
        · left
          obtain ⟨target, rfl⟩ := hl
          have ht : target ≠ "" := by
            intro he
            cases links <;> simp [walk, walkWith, hDir, hs, hDot, hUp, hn, he] at h
          cases links with
          | zero => simp [walk, walkWith, hDir, hs, hDot, hUp, hn, ht] at h
          | succ links =>
            rw [walk_link links hDir hs ⟨hDot, hUp⟩ hn ht] at h
            exact ⟨links, target, rfl, ⟨hDot, hUp⟩, rfl, ht, h⟩
        · right
          have hr : fs.IsReal (location ++ [step]) := ⟨n, hn, fun target ht => hl ⟨target, ht⟩⟩
          rw [walk_real links hDir hs ⟨hDot, hUp⟩ hr] at h
          exact ⟨⟨hDot, hUp⟩, hr, h⟩

end Step

/-! ## Whole walks -/

/-- What every step to a parent and to a name keeps is kept by a walk. -/
theorem walk_keeps {P : Location → Prop} (hRoot : P [])
    (hUp : ∀ location, fs.node location = .ok .dir → P location → P location.dropLast)
    (hn : ∀ location name, fs.search location = true → fs.IsReal (location ++ [name]) →
      P location → P (location ++ [name])) (hs : P location)
    (h : fs.walk links location steps = .ok location') : P location' := by
  -- Following a link uses up one of `links`; every other step shortens the list.
  induction links using Nat.strong_induction_on generalizing location steps with
  | _ links ihLinks =>
    induction steps generalizing location with
    | nil =>
      rw [walk_nil] at h
      rw [← ok.inj h]
      exact hs
    | cons step steps ihSteps =>
      obtain ⟨hDir, hSearch, hStep⟩ := walk_cons_ok h
      rcases hStep with ⟨-, hr⟩ | ⟨-, hr⟩ | ⟨links', target, rfl, -, -, -, hr⟩ | ⟨-, hReal, hr⟩
      · exact ihSteps hs hr
      · exact ihSteps (hUp location hDir hs) hr
      · refine ihLinks links' (by omega) ?_ hr
        split
        · exact hRoot
        · exact hs
      · exact ihSteps (hn location step hSearch hReal hs) hr

theorem walk_isReal (hs : fs.IsReal location) (h : fs.walk links location steps = .ok location') :
    fs.IsReal location' := by
  refine walk_keeps (isReal_of_dir fs.root_dir) ?_ ?_ hs h
  · exact fun location hDir _ => isReal_of_dir (dropLast_dir hDir)
  · exact fun location name _ hr _ => hr

/-- A walk passes through the end of every start of its steps. -/
theorem walk_append (h : fs.walk links location (steps ++ rest) = .ok location') :
    ∃ links' middle, fs.walk links location steps = .ok middle ∧
      ∀ rest, fs.walk links location (steps ++ rest) = fs.walk links' middle rest := by
  induction links using Nat.strong_induction_on generalizing location steps with
  | _ links ihLinks =>
    induction steps generalizing location with
    | nil => exact ⟨links, location, walk_nil links location, fun _ => rfl⟩
    | cons step steps ihSteps =>
      rw [cons_append] at h
      obtain ⟨hDir, hs, hStep⟩ := walk_cons_ok h
      rcases hStep with ⟨rfl, hr⟩ | ⟨rfl, hr⟩ |
        ⟨links', target, rfl, hn, hl, ht, hr⟩ | ⟨hn, hReal, hr⟩
      · simp only [cons_append, walk_dot links hDir hs]
        exact ihSteps hr
      · simp only [cons_append, walk_up links hDir hs]
        exact ihSteps hr
      · simp only [cons_append, walk_link links' hDir hs hn hl ht]
        simp only [← append_assoc] at hr ⊢
        exact ihLinks links' (by omega) hr
      · simp only [cons_append, walk_real links hDir hs hn hReal]
        exact ihSteps hr

/-- A final dot asks for a directory and changes nothing. -/
theorem walk_append_dot (h : fs.walk links location steps = .ok location')
    (hd' : fs.node location' = .ok .dir) (hs' : fs.search location' = true) :
    fs.walk links location (steps ++ ["."]) = .ok location' := by
  obtain ⟨links', middle, hMiddle, hRest⟩ := walk_append (by rwa [append_nil] : fs.walk links
    location (steps ++ []) = _)
  rw [h] at hMiddle
  cases hMiddle
  rw [hRest, walk_dot links' hd' hs', walk_nil]

/-- A walk along names without links, with dots in between, ends where the names
say. -/
theorem walk_eq_of_isReal (hNames : ".." ∉ steps)
    (hr : fs.IsReal (location ++ steps.filter (· ≠ ".")))
    (h : fs.walk links location steps = .ok location') :
    location' = location ++ steps.filter (· ≠ ".") := by
  induction steps generalizing location with
  | nil =>
    rw [walk_nil] at h
    simpa using (ok.inj h).symm
  | cons step steps ih =>
    have ht : ".." ∉ steps := fun hMem => hNames (mem_cons_of_mem _ hMem)
    obtain ⟨-, -, hs⟩ := walk_cons_ok h
    rcases hs with ⟨rfl, hRest⟩ | ⟨rfl, -⟩ | ⟨_, target, -, hName, hl, -, -⟩ | ⟨hName, -, hRest⟩
    · exact ih ht (by simpa using hr) hRest
    · exact absurd mem_cons_self hNames
    · -- A link on the way contradicts the real location behind it.
      have hk : (step :: steps).filter (· ≠ ".") = step :: steps.filter (· ≠ ".") := by
        simp [hName.1]
      rw [hk, ← singleton_append, ← append_assoc] at hr
      obtain ⟨n, hn, hnl⟩ := isReal_of_isReal_append hr
      rw [hl] at hn
      exact absurd (ok.inj hn).symm (hnl target)
    · have hk : (step :: steps).filter (· ≠ ".") = step :: steps.filter (· ≠ ".") := by
        simp [hName.1]
      rw [hk] at hr ⊢
      rw [← singleton_append, ← append_assoc] at hr ⊢
      exact ih ht hr hRest

/-! ## Resolved paths -/

theorem resolve_ne_empty (h : fs.resolve path = .ok location) : path ≠ "" := by
  intro he
  rw [resolve, if_pos he] at h
  exact absurd h (by simp)

theorem resolve_isReal (h : fs.resolve path = .ok location) : fs.IsReal location := by
  rw [resolve, if_neg (resolve_ne_empty h)] at h
  refine walk_isReal ?_ h
  split
  · exact isReal_of_dir fs.root_dir
  · exact isReal_of_dir fs.cwd_dir

theorem openFile_eq_ok_iff {file : OpenFile} : fs.openFile path = .ok file ↔
      fs.resolve path = .ok file.location ∧ fs.openError file.location = none ∧
        fs.node file.location = .ok file.node := by
  obtain ⟨location', n'⟩ := file
  unfold openFile
  cases hr : fs.resolve path with
  | error e => simp [bind, Except.bind]
  | ok location =>
    by_cases hl : location = location'
    · subst hl
      cases ho : fs.openError location with
      | some e => simp [bind, Except.bind, ho]
      | none => cases hn : fs.node location <;> simp [bind, Except.bind, ho, hn]
    · simp only [bind, Except.bind, Except.ok.injEq, hl, false_and, iff_false]
      split
      · simp
      · cases hn : fs.node location <;> simp [hl]

theorem up_notMem_segments (hn : ∀ name ∈ (segments '/' path).filter (· ≠ "."), IsName name) :
    ".." ∉ segments '/' path := by
  intro hMem
  exact (hn _ (mem_filter.mpr ⟨hMem, by decide⟩)).2.2 rfl

/-- An absolute path of names without links leads where the names say. -/
theorem resolve_eq_of_isReal (hAbs : startsWith '/' path = true)
    (hr : fs.IsReal ((segments '/' path).filter (· ≠ "."))) (h : fs.resolve path = .ok location) :
    location = (segments '/' path).filter (· ≠ ".") := by
  rw [resolve, if_neg (resolve_ne_empty h), if_pos hAbs] at h
  have hf : (pathSteps path).filter (· ≠ ".") = (segments '/' path).filter (· ≠ ".") := by
    rw [pathSteps]
    split <;> simp
  have hUp : ".." ∉ pathSteps path := by
    rw [pathSteps, mem_append, not_or]
    exact ⟨up_notMem_segments (names_of_isReal hr), by split <;> simp⟩
  rw [walk_eq_of_isReal hUp (by rwa [hf]) h, hf, nil_append]

theorem resolve_locationPath (hr : fs.IsReal location)
    (h : fs.resolve (locationPath location) = .ok location') : location' = location := by
  have hn := names_of_isReal hr
  have hf : (segments '/' (locationPath location)).filter (· ≠ ".") = location := by
    rw [segments_locationPath hn, filter_dot_of_names hn]
  have hl := resolve_eq_of_isReal (startsWith_locationPath location) (by rwa [hf]) h
  rwa [hf] at hl

/-- When a joined path leads to a location whose canonical path starts with the
base, the base itself leads to a directory above it. -/
theorem resolve_of_pathStartsWith {rel : String} (hb : base ≠ "")
    (hRel : startsWith '/' rel = false) (h : fs.resolve (join base rel) = .ok location)
    (hs : pathStartsWith (locationPath location) base = true) :
    ∃ root, fs.resolve base = .ok root ∧ root <+: location := by
  have hr := resolve_isReal h
  have hn := names_of_isReal hr
  obtain he | ⟨hAbs, hp⟩ := pathStartsWith_locationPath hn hs
  · exact absurd he hb
  · refine ⟨(segments '/' base).filter (· ≠ "."), ?_, hp⟩
    have haj : startsWith '/' (join base rel) = true := by
      rw [startsWith_join hRel hb]
      exact hAbs
    obtain ⟨rest, hRest, hSteps⟩ := pathSteps_join hRel hb
    rw [resolve, if_neg (join_ne_empty hRel hb), if_pos haj, hSteps] at h
    obtain ⟨links', root, hRoot, hBehind⟩ := walk_append h
    rw [hBehind] at h
    -- The walk goes on behind the base, so the base is a directory.
    obtain ⟨step, steps, rfl⟩ := exists_cons_of_ne_nil hRest
    obtain ⟨hDir, hSearch, -⟩ := walk_cons_ok h
    have hrr : fs.IsReal ((segments '/' base).filter (· ≠ ".")) := by
      obtain ⟨below, rfl⟩ := hp
      exact isReal_of_isReal_append hr
    have hre : root = (segments '/' base).filter (· ≠ ".") :=
      walk_eq_of_isReal (up_notMem_segments (names_of_isReal hrr)) hrr hRoot
    rw [← hre, resolve, if_neg hb, if_pos hAbs, pathSteps]
    split
    · exact walk_append_dot hRoot hDir hSearch
    · rw [append_nil]
      exact hRoot

/-- A path that is a component-wise start of a canonical one is itself written as
the canonical path of what it leads to. -/
theorem components_of_pathStartsWith {root : Location} (hr : fs.IsReal location)
    (hRoot : fs.resolve base = .ok root) (hs : pathStartsWith (locationPath location) base = true) :
    components base = components (locationPath root) := by
  have hn := names_of_isReal hr
  have hb := resolve_ne_empty hRoot
  obtain he | ⟨hAbs, hp⟩ := pathStartsWith_locationPath hn hs
  · exact absurd he hb
  · have hbr : fs.IsReal ((segments '/' base).filter (· ≠ ".")) := by
      obtain ⟨below, rfl⟩ := hp
      exact isReal_of_isReal_append hr
    have hbn := names_of_isReal hbr
    have hEq := resolve_eq_of_isReal hAbs hbr hRoot
    rw [hEq, components_locationPath hbn, components]
    simp only [hAbs, if_true, map_component hbn]

/-! ## Locations that can be walked to -/

/-- Every directory above the location may be searched. -/
def Reachable (fs : FileSystem) (location : Location) : Prop :=
  ∀ above, above <+: location → above ≠ location → fs.search above = true

theorem reachable_nil : fs.Reachable [] := by
  intro above hp hne
  exact absurd (prefix_nil.mp hp) hne

theorem reachable_dropLast (h : fs.Reachable location) : fs.Reachable location.dropLast := by
  intro above hp hne
  refine h above (hp.trans <| dropLast_prefix location) ?_
  rintro rfl
  exact hne (hp.eq_of_length_le (by simp))

theorem reachable_concat (h : fs.Reachable location) (hs : fs.search location = true) :
    fs.Reachable (location ++ [name]) := by
  intro above hp hne
  rcases prefix_concat_iff.mp hp with hAll | hp
  · exact absurd hAll hne
  · by_cases hEq : above = location
    · rw [hEq]
      exact hs
    · exact h above hp hEq

theorem walk_reachable (hStart : fs.Reachable location)
    (h : fs.walk links location steps = .ok location') : fs.Reachable location' := by
  refine walk_keeps reachable_nil ?_ ?_ hStart h
  · exact fun location _ hr => reachable_dropLast hr
  · exact fun location name hs _ hr => reachable_concat hr hs

theorem reachable_of_resolve (hAbs : startsWith '/' path = true)
    (h : fs.resolve path = .ok location) : fs.Reachable location := by
  rw [resolve, if_neg (resolve_ne_empty h), if_pos hAbs] at h
  exact walk_reachable reachable_nil h

theorem walk_names {location names : List String} (hr : fs.IsReal (location ++ names))
    (hReach : fs.Reachable (location ++ names)) :
    fs.walk links location names = .ok (location ++ names) := by
  induction names generalizing location with
  | nil => rw [walk_nil, append_nil]
  | cons name names ih =>
    have hDir := dir_of_isReal_append hr
    have hs : fs.search location = true := hReach location (prefix_append _ _) (by simp)
    have hn := names_of_isReal hr name (by simp)
    rw [← singleton_append, ← append_assoc] at hr hReach
    rw [walk_real links hDir hs hn.2 (isReal_of_isReal_append hr), ih hr hReach,
      append_assoc, singleton_append]

theorem resolve_of_reachable (hne : location ≠ []) (hr : fs.IsReal location)
    (hReach : fs.Reachable location) : fs.resolve (locationPath location) = .ok location := by
  have hn := names_of_isReal hr
  have hSteps : pathSteps (locationPath location) = location := by
    rw [pathSteps, segments_locationPath hn, endsWith_locationPath hne hn]
    simp
  have hp : locationPath location ≠ "" := by
    intro he
    have hs := startsWith_locationPath location
    rw [he] at hs
    exact absurd hs (by decide)
  rw [resolve, if_neg hp, if_pos (startsWith_locationPath location), hSteps]
  exact walk_names hr hReach

/-! ## File systems given by a table -/

variable (table : List (Location × Node))

/-- Every entry is the root, or has a proper name and lies in a directory of the
table. -/
def TableValid : Prop :=
  ∀ entry ∈ table,
    (entry.1 = [] ∨ table.lookup entry.1.dropLast = some .dir) ∧
      entry.1.getLast?.all (fun name => decide (IsName name)) = true

instance (table : List (Location × Node)) : Decidable (TableValid table) :=
  inferInstanceAs (Decidable (∀ entry ∈ table, _))

theorem tableValid_concat {table : List (Location × Node)} (h : TableValid table) {n : Node}
    (hl : table.lookup (location ++ [name]) = some n) :
    table.lookup location = some .dir ∧ IsName name := by
  obtain ⟨before, after, hs, -⟩ := lookup_eq_some_iff.mp hl
  have hMem : (location ++ [name], n) ∈ table := by
    rw [hs]
    simp
  obtain ⟨hp, hn⟩ := h _ hMem
  refine ⟨?_, by simpa using hn⟩
  rcases hp with hNil | hp
  · exact absurd hNil (by simp)
  · simpa using hp

/-- A file system in which everything may be searched and read. -/
def ofTable (cwd : Location) (hTable : TableValid table)
    (hRoot : table.lookup [] = some .dir) (hCwd : table.lookup cwd = some .dir) : FileSystem where
  node := fun location =>
    match table.lookup location with
    | some n => .ok n
    | none => .error .notFound
  search := fun _ => true
  openError := fun _ => none
  modified := fun _ => some none
  readLimit := fun _ => none
  maxLinks := 40
  cwd := cwd
  root_dir := by rw [hRoot]
  cwd_dir := by rw [hCwd]
  parent_dir := by
    intro location name n h
    split at h
    · rename_i n' hLookup
      rw [(tableValid_concat hTable hLookup).1]
    · exact absurd h (by simp)
  name_valid := by
    intro location name n h
    split at h
    · rename_i n' hLookup
      exact (tableValid_concat hTable hLookup).2
    · exact absurd h (by simp)

end FileSystem
end Spacegate.Foundation
