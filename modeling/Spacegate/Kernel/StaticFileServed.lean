import Spacegate.Kernel.StaticFileService

/-!
# Which files the static file service serves

A request asks for a relative path in percent encoding.  The service looks the
path up as it was sent, and compares the canonical path of what it finds with the
directory as it was configured: a directory that is not written the way its
canonical path is has none of its files served, and neither has a file whose name
needs an encoding.  `served_iff` says that nothing else stands in the way of a
readable file.
-/

namespace Spacegate.Kernel

open Foundation FileSystem List
open Foundation.FilePath
open Foundation.Text

/-! ## What a request asks for -/

/-- The value of a hexadecimal digit. -/
def hexValue (b : UInt8) : Option UInt8 :=
  if 48 ≤ b ∧ b ≤ 57 then some (b - 48)
  else if 65 ≤ b ∧ b ≤ 70 then some (b - 55)
  else if 97 ≤ b ∧ b ≤ 102 then some (b - 87)
  else none

/-- The bytes that a percent-encoded text stands for; an incomplete encoding
stands for itself. -/
def percentDecode : List UInt8 → List UInt8
  | [] => []
  | [b] => [b]
  | [b, c] => [b, c]
  | b :: hi :: lo :: rest =>
    if b = 37 then
      match hexValue hi, hexValue lo with
      | some h, some l => (h * 16 + l) :: percentDecode rest
      | _, _ => b :: percentDecode (hi :: lo :: rest)
    else b :: percentDecode (hi :: lo :: rest)

theorem percentDecode_of_notMem {bytes : List UInt8} (h : 37 ∉ bytes) :
    percentDecode bytes = bytes := by
  fun_induction percentDecode bytes with
  | case1 => rfl
  | case2 b => rfl
  | case3 b c => rfl
  | case4 hi lo rest => exact absurd mem_cons_self h
  | case5 hi lo rest => exact absurd mem_cons_self h
  | case6 b hi lo rest hb ih => rw [ih fun hMem => h (mem_cons_of_mem _ hMem)]

section Service

variable {Regex X : Type}

structure UnconditionalGet (req : SgRequest Regex X) : Prop where
  get : req.method = "GET"
  noUnmodifiedSince : HeaderMap.get req.headers "if-unmodified-since" = none
  noModifiedSince : HeaderMap.get req.headers "if-modified-since" = none

/-- The request's path stands for the relative one. -/
structure AsksFor (req : SgRequest Regex X) (rel : String) : Prop where
  relative : startsWith '/' rel = false
  decoded : percentDecode (strBytes req.uri.path) = strBytes ("/" ++ rel)

/-- The relative path leads from a directory to a regular file below it, which
can be opened there and read to its end. -/
structure ReadableBelow (fs : FileSystem) (dir rel : String) (root location : Location)
    (content : List UInt8) : Prop where
  denoted : denotedDir fs dir = .ok root
  isDir : fs.node root = .ok .dir
  opened : fs.openFile (join dir rel) = .ok ⟨location, .file content⟩
  below : root <+: location
  whole : fs.readLimit location = none

/-- The answer is the file at the location, with all its content. -/
structure Served (env : FileServiceEnv) (fs : FileSystem) (dir : String) (req : SgRequest Regex X)
    (location : Location) (content : List UInt8) : Prop where
  status : (staticFileService env fs dir req).status = 200
  file : (staticFileService env fs dir req).body = .contents ⟨location, .file content⟩
  bytes : (staticFileService env fs dir req).body.bytes fs = content

/-- The directory is written like its canonical path, or it is empty and the file
can be looked up from the root; and a path with percent signs leads to the file
as it was sent. -/
structure FoundAsWritten (fs : FileSystem) (dir : String) (req : SgRequest Regex X)
    (root location : Location) : Prop where
  dirWritten : components dir = components (locationPath root) ∨ dir = "" ∧ fs.Reachable location
  pathSent : 37 ∈ strBytes req.uri.path →
    fs.resolve (join dir (trimStartMatches '/' req.uri.path)) = .ok location

variable {req : SgRequest Regex X}

/-- Without a percent sign the path is sent as it is meant. -/
theorem AsksFor.trimStartMatches_eq {rel : String} (h : AsksFor req rel)
    (hp : 37 ∉ strBytes req.uri.path) : trimStartMatches '/' req.uri.path = rel := by
  have hd := h.decoded
  rw [percentDecode_of_notMem hp, strBytes_inj] at hd
  have hRel := h.relative
  rw [hd, trimStartMatches, String.toList_append]
  have hs : "/".toList = ['/'] := rfl
  rw [hs, singleton_append, dropWhile_cons_of_pos (by simp)]
  unfold startsWith at hRel
  cases hChars : rel.toList with
  | nil =>
    rw [← String.toList_inj, hChars]
    rfl
  | cons c chars =>
    rw [hChars] at hRel
    have hc : ¬ (c == '/') = true := by simpa using hRel
    rw [dropWhile_cons, if_neg hc, ← hChars, String.ofList_toList]

theorem UnconditionalGet.predict_eq_none (h : UnconditionalGet req) (env : FileServiceEnv)
    (lastModified : Option Int) : predict env req.headers lastModified = none := by
  cases lastModified with
  | none => rfl
  | some lastModified =>
    simp [predict, conditionalTime, h.noUnmodifiedSince, h.noModifiedSince]

variable {location : Location}

/-- Which requests are answered with a regular file. -/
theorem served_iff_opened (env : FileServiceEnv) (fs : FileSystem) (dir : String)
    {content : List UInt8} (hGet : UnconditionalGet req)
    (hw : fs.readLimit location = none) : Served env fs dir req location content ↔
      pathStartsWith (staticFilePath fs dir req) dir = true ∧
        fs.openFile (staticFilePath fs dir req) = .ok ⟨location, .file content⟩ := by
  constructor
  · intro h
    obtain ⟨hs, ho, -⟩ := (staticFileService_contents_iff env fs dir req _).mp h.file
    exact ⟨hs, ho⟩
  · rintro ⟨hs, ho⟩
    have hb : (staticFileService env fs dir req).body = .contents ⟨location, .file content⟩ := by
      rw [staticFileService_contents_iff]
      refine ⟨hs, ho, fun lastModified _ => ⟨hGet.predict_eq_none env lastModified, ?_⟩⟩
      simp
    refine ⟨?_, hb, ?_⟩
    · simp only [staticFileService, hs, Bool.true_eq_false, if_false, ho, respondFile]
      cases fs.modified location with
      | none => rfl
      | some lastModified => simp [hGet.predict_eq_none env lastModified]
    · rw [hb, FileBody.bytes, readToEnd, hw]

theorem startsWith_of_components {dir : String} (hn : ∀ name ∈ location, IsName name)
    (h : components dir = components (locationPath location)) : startsWith '/' dir = true := by
  have hs : pathStartsWith (locationPath location) dir = true := by
    rw [pathStartsWith, isPrefixOf_iff_prefix, h]
  rcases pathStartsWith_locationPath hn hs with he | ⟨hAbs, -⟩
  · rw [he, components_locationPath hn] at h
    exact absurd h (cons_ne_nil _ _).symm
  · exact hAbs

/-- A readable file below the configured directory is served exactly when the
directory and the path are written as the service compares them. -/
theorem served_iff (env : FileServiceEnv) (fs : FileSystem) (dir : String)
    {req : SgRequest Regex X} {rel : String} {root location : Location} {content : List UInt8}
    (hGet : UnconditionalGet req) (hAsks : AsksFor req rel)
    (hFile : ReadableBelow fs dir rel root location content) :
    Served env fs dir req location content ↔ FoundAsWritten fs dir req root location := by
  have ht := startsWith_trimStartMatches req.uri.path
  obtain ⟨hf, hoe, hn⟩ := openFile_eq_ok_iff.mp hFile.opened
  have hReal := resolve_isReal hf
  rw [served_iff_opened env fs dir hGet hFile.whole]
  constructor
  · rintro ⟨hStarts, ho⟩
    obtain ⟨hr, -⟩ := openFile_eq_ok_iff.mp ho
    cases hs : fs.resolve (join dir (trimStartMatches '/' req.uri.path)) with
    | error e =>
      -- What was opened instead is the directory, which is no regular file.
      rw [staticFilePath_of_error hs] at hr
      have hRoot := hFile.denoted
      rw [denotedDir, if_neg (resolve_ne_empty hr), hr] at hRoot
      have hDir := hFile.isDir
      rw [← Except.ok.inj hRoot, hn] at hDir
      exact absurd (Except.ok.inj hDir) (by simp)
    | ok location' =>
      rw [staticFilePath_of_resolve hs] at hStarts hr
      obtain rfl : location = location' :=
        resolve_locationPath (resolve_isReal hs) hr
      refine ⟨?_, fun _ => hs⟩
      by_cases he : dir = ""
      · right
        exact ⟨he, reachable_of_resolve (startsWith_locationPath location) hr⟩
      · left
        have hRoot := hFile.denoted
        rw [denotedDir, if_neg he] at hRoot
        exact components_of_pathStartsWith hReal hRoot hStarts
  · rintro ⟨hw, hp⟩
    have hs : fs.resolve (join dir (trimStartMatches '/' req.uri.path)) = .ok location := by
      by_cases hPlain : 37 ∈ strBytes req.uri.path
      · exact hp hPlain
      · rw [hAsks.trimStartMatches_eq hPlain]
        exact hf
    rw [staticFilePath_of_resolve hs, openFile_eq_ok_iff]
    have hNonempty : location ≠ [] := by
      rintro rfl
      rw [fs.root_dir] at hn
      exact absurd (Except.ok.inj hn) (by simp)
    have hNames := names_of_isReal hReal
    have hrn : ∀ name ∈ root, IsName name :=
      fun name hName => hNames name (hFile.below.subset hName)
    have hReach : fs.Reachable location := by
      rcases hw with hw | ⟨-, hReach⟩
      · have hAbs := startsWith_of_components hrn hw
        have hDir : dir ≠ "" := by
          rintro rfl
          exact absurd hAbs (by decide)
        refine reachable_of_resolve ?_ hs
        rw [startsWith_join ht hDir]
        exact hAbs
      · exact hReach
    refine ⟨?_, resolve_of_reachable hNonempty hReal hReach, hoe, hn⟩
    rw [pathStartsWith, isPrefixOf_iff_prefix]
    rcases hw with hw | ⟨rfl, -⟩
    · rw [hw, components_locationPath hrn, components_locationPath hNames, cons_prefix_cons]
      exact ⟨rfl, hFile.below.map _⟩
    · exact nil_prefix

end Service

/-- A file `/srv/www/index.html`; the working directory is `/srv`. -/
def siteFileSystem : FileSystem :=
  .ofTable
    [([], .dir), (["srv"], .dir), (["srv", "www"], .dir),
      (["srv", "www", "index.html"], .file (strBytes "hello"))]
    ["srv"] (by decide +kernel) rfl rfl

def indexRequest : SgRequest LiteralRegex Unit :=
  plainRequest (.origin (cutPathAndQuery "/index.html"))

theorem indexRequest_asksFor : AsksFor indexRequest "index.html" :=
  ⟨by decide +kernel, by decide +kernel⟩

/-- With the directory written as `/srv/./www/` the file is served. -/
theorem index_served :
    Served ⟨fun _ => none, fun _ => []⟩ siteFileSystem "/srv/./www/" indexRequest
      ["srv", "www", "index.html"] (strBytes "hello") := by
  have hf : ReadableBelow siteFileSystem "/srv/./www/" "index.html" ["srv", "www"]
      ["srv", "www", "index.html"] (strBytes "hello") :=
    ⟨by decide +kernel, rfl, by decide +kernel, by decide, rfl⟩
  refine (served_iff _ _ _ ⟨rfl, rfl, rfl⟩ indexRequest_asksFor hf).mpr
    ⟨Or.inl (by decide +kernel), fun hp => ?_⟩
  exact absurd hp (by decide +kernel)

/-- With the directory written as `www` the file can be read there, and is not
served. -/
theorem index_not_served :
    UnconditionalGet indexRequest ∧ AsksFor indexRequest "index.html" ∧
      ReadableBelow siteFileSystem "www" "index.html" ["srv", "www"]
        ["srv", "www", "index.html"] (strBytes "hello") ∧
      ¬ Served ⟨fun _ => none, fun _ => []⟩ siteFileSystem "www" indexRequest
        ["srv", "www", "index.html"] (strBytes "hello") := by
  refine ⟨⟨rfl, rfl, rfl⟩, indexRequest_asksFor,
    ⟨by decide +kernel, rfl, by decide +kernel, by decide, rfl⟩, fun hs => ?_⟩
  exact absurd hs.status (by decide +kernel)

end Spacegate.Kernel
