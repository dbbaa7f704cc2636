import Spacegate.Foundation.FileSystem
import Spacegate.Kernel.HttpRoute

/-!
# The static file service

The service joins the request's path to the configured directory, makes the
result canonical and compares it, component by component, with the directory as
it was configured.  A body remembers the open file its bytes were read from, so
that one can say which file was disclosed.

A canonical path that starts with a non-empty directory lies below what that
directory denotes, whatever links are around (`resolve_of_pathStartsWith`).  The
empty directory, which stands for the working directory, has no components and is
a start of every path.
-/

namespace Spacegate.Kernel

open Foundation FileSystem
open Foundation.FilePath
open Foundation.Text

/-- What the file service takes from the crates it uses. -/
structure FileServiceEnv where
  /-- `DateTime::parse_from_rfc3339`, as a point in time. -/
  parseRfc3339 : String → Option Int
  /-- The `mime_guess` types of a path. -/
  mimeGuess : String → List String

inductive FileBody where
  | empty
  | text (message : String)
  | contents (file : FileSystem.OpenFile)

structure FileResponse where
  status : Nat
  headers : HeaderMap
  body : FileBody
  reflect : Option Reflect

/-- The bytes of a body. -/
def FileBody.bytes (fs : FileSystem) : FileBody → List UInt8
  | .empty => []
  | .text message => strBytes message
  | .contents file => fs.readToEnd file

variable (env : FileServiceEnv)

/-- `header_value_to_rfc3339`. -/
def headerValueToRfc3339 (header : HeaderValue) : Option Int :=
  header.toStr.bind env.parseRfc3339

/-- The point in time that a conditional header names. -/
def conditionalTime (headers : HeaderMap) (name : String) : Option Int :=
  (HeaderMap.get headers name).bind (headerValueToRfc3339 env)

/-- `predict`: the status that the conditional headers ask for. -/
def predict (headers : HeaderMap) (lastModified : Option Int) : Option Nat :=
  let unmodifiedSince := conditionalTime env headers "if-unmodified-since"
  let modifiedSince := conditionalTime env headers "if-modified-since"
  match lastModified with
  | none => none
  | some lastModified =>
    if unmodifiedSince.any (· < lastModified) then some 412
    else if modifiedSince.any (lastModified ≤ ·) then some 304
    else none

section Service

variable {Regex X : Type}

/-- The path that the service opens: the canonical one of the request, or the
directory itself when there is none. -/
def staticFilePath (fs : FileSystem) (dir : String) (req : SgRequest Regex X) : String :=
  (fs.canonicalize (join dir (trimStartMatches '/' req.uri.path))).toOption.getD dir

variable (env : FileServiceEnv) (fs : FileSystem)

/-- The answer for an open file. -/
def respondFile (req : SgRequest Regex X) (path : String)
    (file : FileSystem.OpenFile) : FileResponse :=
  let reflect := req.extensions.reflect
  let mimes := (env.mimeGuess path).filterMap fun mime =>
    (HeaderValue.fromStr mime).map fun value => ("content-type", value)
  let ok : FileResponse := ⟨200, mimes, .contents file, reflect⟩
  match fs.modified file.location with
  | none => ok
  | some lastModified =>
    match predict env req.headers lastModified with
    | some code => ⟨code, [], .empty, reflect⟩
    | none =>
      if file.node = .dir then
        ⟨303, [("location", ⟨strBytes "/index.html"⟩)], .empty, reflect⟩
      else ok

/-- `static_file_service`. -/
def staticFileService (dir : String) (req : SgRequest Regex X) : FileResponse :=
  let reflect := req.extensions.reflect
  let path := staticFilePath fs dir req
  if pathStartsWith path dir = false then
    ⟨404, [], .text "file is not under the path", reflect⟩
  else
    match fs.openFile path with
    | .ok file => respondFile env fs req path file
    | .error .notFound => ⟨404, [], .empty, reflect⟩
    | .error .permissionDenied => ⟨403, [], .text "access permission denied", reflect⟩
    | .error .other => ⟨500, [], .empty, reflect⟩

/-! ## Confinement -/

/-- The location that a configured directory denotes; the empty one stands for
the working directory. -/
def denotedDir (dir : String) : Except ErrorKind Location :=
  if dir = "" then .ok fs.cwd else fs.resolve dir

/-- Whatever the service discloses lies below the directory. -/
def DisclosesOnlyBelow (dir : String) (req : SgRequest Regex X) : Prop :=
  ∀ file, (staticFileService env fs dir req).body = .contents file →
    ∃ root, denotedDir fs dir = .ok root ∧ root <+: file.location

/-- A file at the location would be read: it can be looked up and opened, the
conditional headers do not answer for it, and it is not known to be a directory. -/
def Readable (req : SgRequest Regex X) (location : Location) : Prop :=
  ∃ n, fs.openFile (locationPath location) = .ok ⟨location, n⟩ ∧
    ∀ lastModified, fs.modified location = some lastModified →
      predict env req.headers lastModified = none ∧ n ≠ .dir

/-- The directory is not empty, or the request's path does not lead from the
working directory to a readable file outside it. -/
def StaysBelow (dir : String) (req : SgRequest Regex X) : Prop :=
  dir ≠ "" ∨ ∀ location, fs.resolve (trimStartMatches '/' req.uri.path) = .ok location →
    Readable env fs req location → fs.cwd <+: location

theorem startsWith_trimStartMatches (s : String) :
    startsWith '/' (trimStartMatches '/' s) = false := by
  rw [startsWith, trimStartMatches, String.toList_ofList]
  cases hh : (s.toList.dropWhile (· == '/')).head? with
  | none => rfl
  | some c =>
    have hc := List.head?_dropWhile_not (· == '/') s.toList
    rw [hh] at hc
    simpa using hc

variable (env : FileServiceEnv) (fs : FileSystem)

theorem respondFile_contents_iff (req : SgRequest Regex X)
    (path : String) (file file' : FileSystem.OpenFile) :
    (respondFile env fs req path file').body = .contents file ↔
      file' = file ∧ ∀ lastModified, fs.modified file'.location = some lastModified →
        predict env req.headers lastModified = none ∧ file'.node ≠ .dir := by
  unfold respondFile
  cases hm : fs.modified file'.location with
  | none => simp
  | some lastModified =>
    cases hp : predict env req.headers lastModified with
    | some code => simp [hp]
    | none =>
      by_cases hDir : file'.node = .dir
      · simp [hp, hDir]
      · simp [hp, hDir]

theorem staticFileService_contents_iff (dir : String)
    (req : SgRequest Regex X) (file : FileSystem.OpenFile) :
    (staticFileService env fs dir req).body = .contents file ↔
      pathStartsWith (staticFilePath fs dir req) dir = true ∧
        fs.openFile (staticFilePath fs dir req) = .ok file ∧
        ∀ lastModified, fs.modified file.location = some lastModified →
          predict env req.headers lastModified = none ∧ file.node ≠ .dir := by
  unfold staticFileService
  by_cases hs : pathStartsWith (staticFilePath fs dir req) dir = true
  · simp only [hs, Bool.true_eq_false, if_false, true_and]
    cases ho : fs.openFile (staticFilePath fs dir req) with
    | error e => cases e <;> simp
    | ok file' =>
      rw [respondFile_contents_iff]
      constructor
      · rintro ⟨rfl, hr⟩
        exact ⟨rfl, hr⟩
      · rintro ⟨hf, hr⟩
        obtain rfl := Except.ok.inj hf
        exact ⟨rfl, hr⟩
  · simp [hs]

section Path

variable {fs : FileSystem} {dir : String} {req : SgRequest Regex X}

theorem staticFilePath_of_resolve {location : Location}
    (h : fs.resolve (join dir (trimStartMatches '/' req.uri.path)) = .ok location) :
    staticFilePath fs dir req = locationPath location := by
  rw [staticFilePath, canonicalize, h]
  rfl

theorem staticFilePath_of_error {e : ErrorKind}
    (h : fs.resolve (join dir (trimStartMatches '/' req.uri.path)) = .error e) :
    staticFilePath fs dir req = dir := by
  rw [staticFilePath, canonicalize, h]
  rfl

end Path

/-- The service discloses nothing outside the configured directory, unless that
directory is empty and the path leads out of the working directory. -/
theorem disclosesOnlyBelow_iff (dir : String) (req : SgRequest Regex X) :
    DisclosesOnlyBelow env fs dir req ↔ StaysBelow env fs dir req := by
  have hRel := startsWith_trimStartMatches req.uri.path
  constructor
  · intro h
    by_cases hDir : dir = ""
    · right
      subst hDir
      rintro location hr ⟨n, ho, hPass⟩
      have hb : (staticFileService env fs "" req).body = .contents ⟨location, n⟩ := by
        rw [staticFileService_contents_iff,
          staticFilePath_of_resolve (by rwa [join_empty hRel])]
        exact ⟨rfl, ho, hPass⟩
      obtain ⟨root, hRoot, hp⟩ := h _ hb
      rw [Except.ok.inj hRoot]
      exact hp
    · exact Or.inl hDir
  · intro h file hb
    obtain ⟨hs, ho, hPass⟩ := (staticFileService_contents_iff env fs dir req file).mp hb
    cases hr : fs.resolve (join dir (trimStartMatches '/' req.uri.path)) with
    | error e =>
      -- The directory itself was opened.
      rw [staticFilePath_of_error hr] at ho
      obtain ⟨hr, -⟩ := openFile_eq_ok_iff.mp ho
      refine ⟨file.location, ?_, List.prefix_rfl⟩
      rw [denotedDir, if_neg (resolve_ne_empty hr)]
      exact hr
    | ok location =>
      rw [staticFilePath_of_resolve hr] at hs ho
      have hl : file.location = location :=
        resolve_locationPath (resolve_isReal hr)
          (openFile_eq_ok_iff.mp ho).1
      by_cases hDir : dir = ""
      · subst hDir
        refine ⟨fs.cwd, rfl, ?_⟩
        rw [join_empty hRel] at hr
        rw [hl]
        rcases h with hNot | hBelow
        · exact absurd rfl hNot
        · refine hBelow location hr ⟨file.node, ?_, ?_⟩
          · rw [ho, ← hl]
          · rw [← hl]
            exact hPass
      · obtain ⟨root, hRoot, hp⟩ := resolve_of_pathStartsWith hDir hRel hr hs
        rw [denotedDir, if_neg hDir, hl]
        exact ⟨root, hRoot, hp⟩

end Service

/-- A working directory `/srv` beside `/etc/passwd`. -/
def srvFileSystem : FileSystem :=
  .ofTable
    [([], .dir), (["srv"], .dir), (["etc"], .dir), (["etc", "passwd"], .file (strBytes "root"))]
    ["srv"] (by decide +kernel) rfl rfl

/-- With the empty directory configured, `/../etc/passwd` is answered with a file
outside the working directory. -/
theorem srvFileSystem_discloses_passwd :
    ¬ DisclosesOnlyBelow ⟨fun _ => none, fun _ => []⟩ srvFileSystem ""
      (plainRequest (.origin (cutPathAndQuery "/../etc/passwd"))) := by
  intro h
  obtain ⟨root, hr, hp⟩ := h ⟨["etc", "passwd"], .file (strBytes "root")⟩ rfl
  have hSrv : ["srv"] = root := Except.ok.inj hr
  rw [← hSrv] at hp
  exact absurd hp (by decide)

end Spacegate.Kernel
