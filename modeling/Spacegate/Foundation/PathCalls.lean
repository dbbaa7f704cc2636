import Spacegate.Foundation.FilePath
import Spacegate.Foundation.FileStem

/-!
# Calls that make files and directories

A program hands absolute paths to the operating system, with the dots that stand in them.
`Makes` says where a call may make something: `create_dir_all` makes every missing directory on
its way, in the order of the path, and a write makes the file at its end.  A directory `base`
is there all the time, with those above it; nothing is known of the rest, which others may
change between the calls.  So a run is any way in which the calls may go, up to the first one
that fails, and calls are confined to `base` if no run makes anything outside.
-/

namespace Spacegate.Foundation.PathCalls

open List

open FilePath (IsName Location)
open FileStem
open Text

/-- The segments of an absolute path. -/
abbrev RawPath := List String

/-- `Path::join`. -/
def join (path : RawPath) (rel : String) : RawPath :=
  if startsWith '/' rel then segments '/' rel else path ++ segments '/' rel

/-- `Path::with_extension`.  Dots at the end are passed over, and a path that ends with two dots
has no file name. -/
def withExtension (ext : String) (path : RawPath) : RawPath :=
  match path.reverse.dropWhile (· == ".") with
  | [] => path
  | last :: before =>
    if last = ".." then path else before.reverse ++ [fileStem last ++ "." ++ ext]

/-- One step of a path. -/
def step (l : Location) (segment : String) : Location :=
  if segment = "." then l else if segment = ".." then l.dropLast else l ++ [segment]

/-- Where a path leads. -/
def resolve (path : RawPath) : Location :=
  path.foldl step []

/-- The path ends with a name. -/
def endsInName (path : RawPath) : Bool :=
  match path.getLast? with
  | some last => last != "." && last != ".."
  | none => false

inductive PathCall where
  | createDirAll (path : RawPath)
  | write (path : RawPath)
  deriving DecidableEq

namespace PathCall

def path : PathCall → RawPath
  | .createDirAll path | .write path => path

/-- A path with a zero character is refused. -/
def hasZero (call : PathCall) : Bool :=
  call.path.any fun segment => segment.toList.contains '\x00'

/-- The call may make something at this place. -/
def Makes (base : Location) (call : PathCall) (l : Location) : Prop :=
  call.hasZero = false ∧ ¬ l <+: base ∧
    match call with
    | .createDirAll path => ∃ start, start <+: path ∧ endsInName start = true ∧ resolve start = l
    | .write path => endsInName path = true ∧ resolve path = l

/-- The call may succeed.  Nothing can be written to a directory. -/
def canSucceed (base : Location) (call : PathCall) : Bool :=
  !call.hasZero &&
    match call with
    | .createDirAll _ => true
    | .write path => endsInName path && !(resolve path).isPrefixOf base

/-- The path does not leave the directory, except to those above it. -/
def StaysInside (base : Location) : PathCall → Prop
  | .createDirAll path => ∀ start, start <+: path → endsInName start = true →
      base <+: resolve start ∨ resolve start <+: base
  | .write path => base <+: resolve path

end PathCall

/-- The places where something is made before the calls end or the first one fails. -/
inductive Runs (base : Location) : List PathCall → List Location → Prop
  | done : Runs base [] []
  | fail {call : PathCall} {calls : List PathCall} {made : List Location}
      (hMade : ∀ l ∈ made, call.Makes base l) : Runs base (call :: calls) made
  | next {call : PathCall} {calls : List PathCall} {made later : List Location}
      (hMade : ∀ l ∈ made, call.Makes base l) (hCan : call.canSucceed base = true)
      (hLater : Runs base calls later) : Runs base (call :: calls) (made ++ later)

/-- Nothing is made outside of the directory. -/
def Confined (base : Location) (calls : List PathCall) : Prop :=
  ∀ made, Runs base calls made → ∀ l ∈ made, base <+: l

/-! ## Confinement -/

section Confinement

variable {base : Location} {call : PathCall} {calls : List PathCall}

theorem not_makes_of_canSucceed (h : call.canSucceed base = false) (l : Location) :
    ¬ call.Makes base l := by
  rintro ⟨hz, ha, hm⟩
  cases call with
  | createDirAll path => simp [PathCall.canSucceed, hz] at h
  | write path =>
    obtain ⟨hn, rfl⟩ := hm
    have hp : (resolve path).isPrefixOf base = false := by
      simpa [← isPrefixOf_iff_prefix] using ha
    simp [PathCall.canSucceed, hz, hn, hp] at h

theorem staysInside_iff (h : call.canSucceed base = true) :
    call.StaysInside base ↔ ∀ l, call.Makes base l → base <+: l := by
  cases call with
  | createDirAll path =>
    have hz : (PathCall.createDirAll path).hasZero = false := by
      simpa [PathCall.canSucceed] using h
    constructor
    · rintro hs l ⟨-, ha, start, hStart, hn, rfl⟩
      exact (hs start hStart hn).resolve_right ha
    · intro hm start hStart hn
      by_cases ha : resolve start <+: base
      · exact .inr ha
      · exact .inl (hm _ ⟨hz, ha, start, hStart, hn, rfl⟩)
  | write path =>
    simp only [PathCall.canSucceed, Bool.and_eq_true, Bool.not_eq_true',
      ← Bool.not_eq_true, isPrefixOf_iff_prefix] at h
    obtain ⟨hz, hn, ha⟩ := h
    constructor
    · rintro hs l ⟨-, -, -, rfl⟩
      exact hs
    · intro hm
      exact hm _ ⟨by simpa using hz, ha, hn, rfl⟩

/-- Whatever a run makes is made by a call before which all may succeed. -/
theorem Runs.exists_call {made : List Location} (h : Runs base calls made) {l : Location}
    (hl : l ∈ made) : ∃ call ∈ calls.takeWhile (·.canSucceed base), call.Makes base l := by
  have hh : ∀ {call : PathCall} {calls : List PathCall}, call.Makes base l →
      call ∈ (call :: calls).takeWhile (·.canSucceed base) := by
    intro call calls hMakes
    have hCan : call.canSucceed base = true := by
      by_contra hNot
      exact not_makes_of_canSucceed (by simpa using hNot) l hMakes
    rw [takeWhile_cons, if_pos hCan]
    exact mem_cons_self
  induction h with
  | done => cases hl
  | fail hm => exact ⟨_, hh (hm l hl), hm l hl⟩
  | next hm hCan _ ih =>
    rcases mem_append.mp hl with hNow | hLater
    · exact ⟨_, hh (hm l hNow), hm l hNow⟩
    · obtain ⟨call, hc, hMakes⟩ := ih hLater
      refine ⟨call, ?_, hMakes⟩
      rw [takeWhile_cons, if_pos hCan]
      exact mem_cons_of_mem _ hc

theorem exists_runs (hc : call ∈ calls.takeWhile (·.canSucceed base)) {l : Location}
    (hm : call.Makes base l) : Runs base calls [l] := by
  induction calls with
  | nil => cases hc
  | cons first calls ih =>
    rw [takeWhile_cons] at hc
    split_ifs at hc with hCan
    · rcases mem_cons.mp hc with rfl | hc
      · refine .fail ?_
        intro l' hl'
        rw [mem_singleton.mp hl']
        exact hm
      · exact @Runs.next base first calls [] [l] (by simp) hCan (ih hc)
    · cases hc

theorem confined_iff :
    Confined base calls ↔ ∀ call ∈ calls.takeWhile (·.canSucceed base), call.StaysInside base := by
  constructor
  · intro hConfined call hc
    rw [staysInside_iff (mem_takeWhile_imp hc)]
    intro l hm
    exact hConfined [l] (exists_runs hc hm) l (mem_singleton_self l)
  · intro hs made hr l hl
    obtain ⟨call, hc, hm⟩ := hr.exists_call hl
    exact (staysInside_iff (mem_takeWhile_imp hc)).mp (hs call hc) l hm

end Confinement

/-! ## Extensions -/

theorem withExtension_concat {last : String} (hDot : last ≠ ".") (hUp : last ≠ "..")
    (ext : String) (path : RawPath) :
    withExtension ext (path ++ [last]) = path ++ [fileStem last ++ "." ++ ext] := by
  simp [withExtension, hDot, hUp]

/-! ## Where paths lead -/

section Resolving

variable {base l : Location}

theorem resolve_append (path path' : RawPath) :
    resolve (path ++ path') = path'.foldl step (resolve path) := by
  rw [resolve, foldl_append, ← resolve]

theorem step_of_isName {name : String} (h : IsName name) : step l name = l ++ [name] := by
  rw [step, if_neg h.2.1, if_neg h.2.2]

theorem foldl_step_of_names {names : List String} (h : ∀ name ∈ names, IsName name) :
    names.foldl step l = l ++ names := by
  induction names generalizing l with
  | nil => simp
  | cons name names ih =>
    rw [foldl_cons, step_of_isName (h name mem_cons_self),
      ih fun name' hn' => h name' (mem_cons_of_mem _ hn')]
    simp

theorem resolve_of_names (h : ∀ name ∈ base, IsName name) : resolve base = base := by
  rw [resolve, foldl_step_of_names h, nil_append]

theorem prefix_step {segment : String} (h : base <+: l) (hUp : segment = ".." → l ≠ base) :
    base <+: step l segment := by
  unfold step
  split_ifs with hDot hd
  · exact h
  · obtain ⟨rest, rfl⟩ := h
    have hr : rest ≠ [] := by
      rintro rfl
      exact hUp hd (append_nil base)
    rw [dropLast_append_of_ne_nil hr]
    exact prefix_append _ _
  · exact h.trans (prefix_append _ _)

/-- A path below the directory does not leave it at any step. -/
def StepsInside (base : Location) (below : List String) : Prop :=
  ∀ start, start <+: below → base <+: start.foldl step base

theorem StepsInside.nil : StepsInside base [] := by
  intro start hs
  rw [prefix_nil.mp hs]
  exact prefix_rfl

variable {below : List String} (h : StepsInside base below)
include h

theorem StepsInside.concat {segment : String}
    (hUp : segment = ".." → below.foldl step base ≠ base) :
    StepsInside base (below ++ [segment]) := by
  intro start hs
  rcases prefix_concat_iff.mp hs with rfl | hb
  · rw [foldl_append]
    exact prefix_step (h below prefix_rfl) hUp
  · exact h start hb

/-- The extension goes to the last segment that is no dot, unless that is two dots. -/
theorem StepsInside.withExtension {ext : String}
    (hb : ∃ segment ∈ below, segment ≠ ".") (hExt : ∀ stem, stem ++ "." ++ ext ≠ "..") :
    ∃ below', PathCalls.withExtension ext (base ++ below) = base ++ below' ∧
      StepsInside base below' := by
  have hd : below.reverse.dropWhile (· == ".") ≠ [] := by
    rw [ne_eq, dropWhile_eq_nil_iff]
    simpa using hb
  obtain ⟨last, before, hl⟩ := exists_cons_of_ne_nil hd
  have hBefore : before.reverse <+: below := by
    rw [← reverse_suffix, reverse_reverse]
    exact (suffix_cons last before).trans (hl ▸ dropWhile_suffix _)
  have hPath : (base ++ below).reverse.dropWhile (· == ".") = last :: (before ++ base.reverse) := by
    rw [reverse_append, dropWhile_append, hl]
    simp
  rw [PathCalls.withExtension, hPath]
  by_cases hUp : last = ".."
  · exact ⟨below, if_pos hUp, h⟩
  · refine ⟨before.reverse ++ [fileStem last ++ "." ++ ext], ?_, ?_⟩
    · simp [hUp]
    · exact StepsInside.concat (fun start hs => h start (hs.trans hBefore))
        fun hUp => absurd hUp (hExt _)

theorem StepsInside.ne_base {name : String} (hn : IsName name) :
    (below ++ [name]).foldl step base ≠ base := by
  rw [foldl_append, foldl_cons, foldl_nil, step_of_isName hn]
  intro hEq
  have hl := (h below prefix_rfl).length_le
  have he := congrArg List.length hEq
  rw [length_append, length_singleton] at he
  omega

omit h

variable (hNames : ∀ name ∈ base, IsName name)

include hNames

theorem StepsInside.resolve (h : StepsInside base below) :
    base <+: PathCalls.resolve (base ++ below) := by
  rw [resolve_append, resolve_of_names hNames]
  exact h below prefix_rfl

theorem StepsInside.createDirAll (h : StepsInside base below) :
    (PathCall.createDirAll (base ++ below)).StaysInside base := by
  intro start hs _
  obtain ⟨tail, ht⟩ := hs
  rcases append_eq_append_iff.mp ht with ⟨rest, hBase, -⟩ | ⟨rest, rfl, hb⟩
  · right
    have ha : start <+: base := ⟨rest, hBase.symm⟩
    rw [resolve_of_names fun name hn => hNames name (ha.subset hn)]
    exact ha
  · left
    rw [resolve_append, resolve_of_names hNames]
    exact h rest ⟨tail, hb.symm⟩

end Resolving

end Spacegate.Foundation.PathCalls
