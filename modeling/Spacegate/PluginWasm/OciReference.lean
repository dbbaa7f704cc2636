import Spacegate.PluginWasm.Config

/-!
# References of OCI images

The URL of a module names a file, a resource of the web or an OCI image.  The name of an image is
cut at the first slash, which ends the registry, and then at the last `@` or else at the last
colon of its last component.
-/

namespace Spacegate.PluginWasm

open Foundation Text Option List

/-- `starts_with` with a text. -/
def startsWithText (start s : String) : Bool :=
  (stripStart start s).isSome

/-- The beginnings of the URLs of images, in the order in which they are tried. -/
def ociSchemes : List String :=
  ["oci://", "docker://", "image://", "oci+http://"]

def isOciUrl (url : String) : Bool :=
  ociSchemes.any fun start => startsWithText start (toAsciiLowercase url)

/-- From where `fetch_wasm_bytes_sync_with_auth` takes a module. -/
inductive FetchTarget where
  | file (path : String)
  | http (url : String)
  | oci (url : String)
  deriving DecidableEq, Repr

def fetchTarget (urlOrPath : String) : FetchTarget :=
  let trimmed := trim urlOrPath
  match stripStart "file://" trimmed with
  | some rest => .file rest
  | none =>
    if startsWithText "http://" trimmed || startsWithText "https://" trimmed then .http trimmed
    else if isOciUrl trimmed then .oci trimmed
    else .file trimmed

structure OciReference where
  scheme : String
  registry : String
  repository : String
  reference : String
  deriving DecidableEq, Repr

def defaultOciScheme (rest : String) : String :=
  let registry := (split '/' rest).headD ""
  if startsWithText "localhost" registry || startsWithText "127.0.0.1" registry ||
      startsWithText "[::1]" registry || startsWithText "host.docker.internal" registry then
    "http"
  else "https"

/-- The last colon after the last slash. -/
def splitTag (image : String) : Option (String × String) :=
  match rsplitOnce '/' image with
  | some (path, last) => (rsplitOnce ':' last).map fun (name, tag) => (path ++ "/" ++ name, tag)
  | none => rsplitOnce ':' image

namespace OciReference

/-- The scheme that the registry is asked with, and what follows the scheme of the URL. -/
def cutScheme (trimmed : String) : Option (String × String) :=
  match stripStart "oci+http://" trimmed with
  | some rest => some ("http", rest)
  | none =>
    (["oci://", "docker://", "image://"].findSome? fun start => stripStart start trimmed).map
      fun rest => (defaultOciScheme rest, rest)

/-- The repository and the reference in it. -/
def cutImage (image : String) : String × String :=
  match rsplitOnce '@' image with
  | some cut => cut
  | none => (splitTag image).getD (image, "latest")

def parse (url : String) : Except WasmHostError OciReference :=
  let trimmed := trim url
  match cutScheme trimmed with
  | none => .error (.fetch ("unsupported OCI URL scheme: " ++ trimmed))
  | some (scheme, rest) =>
    match splitOnce '/' rest with
    | none => .error (.fetch ("OCI URL must include registry and repository: " ++ trimmed))
    | some (registry, image) =>
      if isBlank registry || isBlank image then
        .error (.fetch ("OCI URL must include registry and repository: " ++ trimmed))
      else
        let (repository, reference) := cutImage image
        if isBlank repository || isBlank reference then
          .error (.fetch ("OCI URL must include repository and tag/digest: " ++ trimmed))
        else
          .ok {
            scheme := scheme
            registry := registry
            repository := repository
            reference := reference }

def manifestUrl (r : OciReference) (reference : String) : String :=
  r.scheme ++ "://" ++ r.registry ++ "/v2/" ++ r.repository ++ "/manifests/" ++ reference

def blobUrl (r : OciReference) (digest : String) : String :=
  r.scheme ++ "://" ++ r.registry ++ "/v2/" ++ r.repository ++ "/blobs/" ++ digest

end OciReference

/-! ## The schemes -/

section Cuts

variable {start rest registry image before tag s t : String} {separator : Char}

theorem startsWithText_iff : startsWithText start s = true ↔ ∃ rest, s = start ++ rest := by
  simp [startsWithText, isSome_iff_exists, stripStart_eq_some_iff]

theorem mem_ociSchemes_iff : start ∈ ociSchemes ↔
    start = "oci://" ∨ start = "docker://" ∨ start = "image://" ∨ start = "oci+http://" := by
  simp [ociSchemes]

theorem findSome?_ociSchemes (hs : start ∈ ociSchemes) (rest : String) :
    (ociSchemes.findSome? fun other => stripStart other (start ++ rest)) = some rest := by
  rcases mem_ociSchemes_iff.mp hs with rfl | rfl | rfl | rfl <;>
    simp [ociSchemes, stripStart, isPrefixOf?]

theorem cutScheme_append (hs : start ∈ ociSchemes) (rest : String) :
    ∃ scheme, OciReference.cutScheme (start ++ rest) = some (scheme, rest) := by
  rcases mem_ociSchemes_iff.mp hs with rfl | rfl | rfl | rfl <;>
    simp [OciReference.cutScheme, stripStart, isPrefixOf?]

theorem exists_of_cutScheme {scheme : String} (h : OciReference.cutScheme s = some (scheme, rest)) :
    ∃ start ∈ ociSchemes, s = start ++ rest := by
  unfold OciReference.cutScheme at h
  split at h
  next rest' hr =>
    cases h
    exact ⟨"oci+http://", by decide, stripStart_eq_some_iff.mp hr⟩
  next =>
    obtain ⟨rest', hr, hEq⟩ := map_eq_some_iff.mp h
    cases hEq
    obtain ⟨start, hs, hStart⟩ := exists_of_findSome?_eq_some hr
    exact ⟨start, mem_append_left ["oci+http://"] hs, stripStart_eq_some_iff.mp hStart⟩

/-! ## The cuts of an image -/

theorem rsplitOnce_eq_none_iff : rsplitOnce separator s = none ↔ separator ∉ s.toList := by
  rw [rsplitOnce, map_eq_none_iff, splitOnceList_eq_none_iff, mem_reverse]

theorem splitTag_eq_some (hi : image.toList = before.toList ++ ':' :: tag.toList)
    (hColon : ':' ∉ tag.toList) (hSlash : '/' ∉ tag.toList) :
    splitTag image = some (before, tag) := by
  unfold splitTag
  split
  next path last hp =>
    obtain ⟨hp, hLast⟩ := rsplitOnce_eq_some_iff.mp hp
    -- the last slash is in front of the colon, as the tag has none
    rw [hi] at hp
    rcases append_eq_append_iff.mp hp with ⟨more, hm, hTag⟩ | ⟨more, hm, hl⟩
    · exfalso
      cases more with
      | nil => simp at hTag
      | cons first more =>
        obtain ⟨-, hTag⟩ := cons.inj hTag
        exact hSlash (by simp [hTag])
    · cases more with
      | nil => simp at hl
      | cons first more =>
        obtain ⟨rfl, hl⟩ := cons.inj hl
        have hCut : rsplitOnce ':' last = some (String.ofList more, tag) :=
          rsplitOnce_eq_some_iff.mpr ⟨by simpa using hl, hColon⟩
        have hb : path ++ "/" ++ String.ofList more = before := by
          rw [← String.toList_inj, hm]
          simp
        rw [hCut, ← hb]
        rfl
  next => exact rsplitOnce_eq_some_iff.mpr ⟨hi, hColon⟩

theorem splitTag_eq_none (h : ':' ∉ image.toList) : splitTag image = none := by
  unfold splitTag
  split
  next path last hp =>
    rw [map_eq_none_iff, rsplitOnce_eq_none_iff]
    intro hc
    apply h
    rw [(rsplitOnce_eq_some_iff.mp hp).1]
    simp [hc]
  next => exact rsplitOnce_eq_none_iff.mpr h

/-- Whether the parts of an image are given is all that is left to check once the registry is
found. -/
theorem OciReference.parse_of_cut {url : String} (hs : start ∈ ociSchemes)
    (hUrl : trim url = start ++ (registry ++ "/" ++ image)) (hr : '/' ∉ registry.toList)
    (hRegistry : isBlank registry = false) (hImage : isBlank image = false) :
    ∃ scheme, OciReference.parse url =
      if isBlank (cutImage image).1 || isBlank (cutImage image).2 then
        .error (.fetch ("OCI URL must include repository and tag/digest: " ++ trim url))
      else .ok ⟨scheme, registry, (cutImage image).1, (cutImage image).2⟩ := by
  obtain ⟨scheme, hCut⟩ := cutScheme_append hs (registry ++ "/" ++ image)
  have hSplit : splitOnce '/' (registry ++ "/" ++ image) = some (registry, image) :=
    splitOnce_eq_some_iff.mpr ⟨by simp, hr⟩
  refine ⟨scheme, ?_⟩
  unfold OciReference.parse
  simp [hUrl, hCut, hSplit, hRegistry, hImage]

end Cuts

/-! ## References of the grammar -/

/-- A part of a reference: no blanks, and none of the given separators.  The grammar of OCI
references restricts the parts further, which the cuts do not depend on. -/
def IsPart (separators : List Char) (s : String) : Prop :=
  s ≠ "" ∧ ∀ c ∈ s.toList, isWhitespace c = false ∧ c ∉ separators

instance (separators : List Char) (s : String) : Decidable (IsPart separators s) :=
  inferInstanceAs (Decidable (_ ∧ _))

/-- A reference `registry/repository[:tag][@digest]`.  The port, if there is one, is part of the
registry. -/
structure ImageName where
  registry : String
  component : String
  components : List String
  tag : Option String
  digest : Option String
  registry_isPart : IsPart ['/'] registry
  component_isPart : IsPart ['/', ':', '@'] component
  components_isPart : ∀ component ∈ components, IsPart ['/', ':', '@'] component
  tag_isPart : ∀ tag' ∈ tag, IsPart ['/', ':', '@'] tag'
  digest_isPart : ∀ digest' ∈ digest, IsPart ['@'] digest'

namespace ImageName

def repository (n : ImageName) : String :=
  n.components.foldl (fun path component => path ++ "/" ++ component) n.component

def tagText (n : ImageName) : String :=
  n.tag.elim "" (":" ++ ·)

def digestText (n : ImageName) : String :=
  n.digest.elim "" ("@" ++ ·)

def url (start : String) (n : ImageName) : String :=
  start ++ (n.registry ++ "/" ++ (n.repository ++ n.tagText ++ n.digestText))

/-- The digest is preferred to the tag. -/
def reference (n : ImageName) : String :=
  (n.digest <|> n.tag).getD "latest"

end ImageName

namespace IsPart

variable {separators separators' : List Char} {s t path : String} {components : List String}

theorem notMem {c : Char} (h : IsPart separators s) (hc : c ∈ separators) : c ∉ s.toList :=
  fun hm => (h.2 c hm).2 hc

theorem mono (hs : separators' ⊆ separators) (h : IsPart separators s) : IsPart separators' s :=
  ⟨h.1, fun c hc => ⟨(h.2 c hc).1, fun hm => (h.2 c hc).2 (hs hm)⟩⟩

theorem append (h : IsPart separators s)
    (ht : ∀ c ∈ t.toList, isWhitespace c = false ∧ c ∉ separators) :
    IsPart separators (s ++ t) := by
  refine ⟨?_, ?_⟩
  · rw [Ne, String.append_eq_empty_iff]
    exact fun he => h.1 he.1
  · intro c hc
    rw [String.toList_append, mem_append] at hc
    exact hc.elim (h.2 c) (ht c)

/-- A part that may be missing is written behind its sign. -/
theorem append_option {part : Option String} {sign : String} (h : IsPart separators s)
    (hSign : ∀ c ∈ sign.toList, isWhitespace c = false ∧ c ∉ separators)
    (hPart : ∀ part' ∈ part, IsPart separators part') :
    IsPart separators (s ++ part.elim "" (sign ++ ·)) := by
  cases part with
  | none => simpa using h
  | some part =>
    rw [elim_some, ← String.append_assoc]
    exact (h.append hSign).append (hPart part rfl).2

theorem foldl (h : IsPart separators path) (hSlash : '/' ∉ separators)
    (hc : ∀ component ∈ components, IsPart separators component) :
    IsPart separators (components.foldl (fun path component => path ++ "/" ++ component) path) := by
  induction components generalizing path with
  | nil => exact h
  | cons component components ih =>
    have hSign : ∀ c ∈ "/".toList, isWhitespace c = false ∧ c ∉ separators := by
      simpa using ⟨by decide, hSlash⟩
    exact ih ((h.append hSign).append (hc component mem_cons_self).2)
      fun component' h' => hc component' (mem_cons_of_mem component h')

theorem isBlank (h : IsPart separators s) : isBlank s = false := by
  rw [Text.isBlank, trim_eq_self fun c hc => (h.2 c hc).1]
  exact Bool.eq_false_iff.mpr fun he => h.1 (String.isEmpty_iff.mp he)

end IsPart

namespace ImageName

variable {start : String} {n : ImageName} (n : ImageName)

theorem isPart_repository : IsPart [':', '@'] n.repository :=
  (n.component_isPart.mono (by decide)).foldl (by decide) fun component hc =>
    (n.components_isPart component hc).mono (by decide)

theorem isPart_tagged : IsPart ['@'] (n.repository ++ n.tagText) :=
  (n.isPart_repository.mono (by decide)).append_option (by decide) fun tag ht =>
    (n.tag_isPart tag ht).mono (by decide)

theorem isPart_image : IsPart [] (n.repository ++ n.tagText ++ n.digestText) :=
  (n.isPart_tagged.mono (by decide)).append_option (by decide) fun digest hd =>
    (n.digest_isPart digest hd).mono (by decide)

theorem isPart_reference : IsPart [] n.reference := by
  unfold reference
  cases hd : n.digest with
  | some digest => exact (n.digest_isPart digest hd).mono (by decide)
  | none =>
    cases ht : n.tag with
    | some tag => exact (n.tag_isPart tag ht).mono (by decide)
    | none => decide

theorem cutImage_image :
    OciReference.cutImage (n.repository ++ n.tagText ++ n.digestText) =
      (if n.digest.isSome then n.repository ++ n.tagText else n.repository, n.reference) := by
  unfold OciReference.cutImage digestText reference
  cases hd : n.digest with
  | some digest =>
    have hCut : rsplitOnce '@' (n.repository ++ n.tagText ++ ("@" ++ digest)) =
        some (n.repository ++ n.tagText, digest) :=
      rsplitOnce_eq_some_iff.mpr ⟨by simp, (n.digest_isPart digest hd).notMem (by decide)⟩
    simp [hCut]
  | none =>
    have hAt := rsplitOnce_eq_none_iff.mpr (n.isPart_tagged.notMem (mem_singleton_self '@'))
    simp only [elim_none, String.append_empty, hAt]
    cases ht : n.tag with
    | some tag =>
      have hTag := n.tag_isPart tag ht
      have hCut : splitTag (n.repository ++ n.tagText) = some (n.repository, tag) :=
        splitTag_eq_some (by simp [tagText, ht]) (hTag.notMem (by decide))
          (hTag.notMem (by decide))
      simp [hCut]
    | none =>
      have hColon : ':' ∉ n.repository.toList := n.isPart_repository.notMem (by decide)
      simp [splitTag_eq_none hColon, tagText, ht]

theorem isPart_start : ∀ start ∈ ociSchemes, IsPart [] start := by decide

theorem trim_url (hs : start ∈ ociSchemes) (n : ImageName) : trim (n.url start) = n.url start := by
  have hUrl : IsPart [] (n.url start) :=
    (isPart_start start hs).append (((n.registry_isPart.mono (by decide)).append (by decide)).append
      n.isPart_image.2).2
  exact trim_eq_self fun c hc => (hUrl.2 c hc).1

/-- What a reference is parsed to: before a digest the tag stays part of the repository. -/
theorem parse_url (hs : start ∈ ociSchemes) (n : ImageName) :
    ∃ scheme, OciReference.parse (n.url start) = .ok ⟨scheme, n.registry,
      if n.digest.isSome then n.repository ++ n.tagText else n.repository, n.reference⟩ := by
  obtain ⟨scheme, hParse⟩ := OciReference.parse_of_cut hs (n.trim_url hs)
    (n.registry_isPart.notMem (by decide)) n.registry_isPart.isBlank n.isPart_image.isBlank
  have hRepository : isBlank (if n.digest.isSome then n.repository ++ n.tagText
      else n.repository) = false := by
    split
    · exact n.isPart_tagged.isBlank
    · exact n.isPart_repository.isBlank
  refine ⟨scheme, ?_⟩
  rw [hParse, cutImage_image]
  simp only [hRepository, n.isPart_reference.isBlank]
  rfl

/-- The reference is read back, so that the registry is asked for that repository. -/
def ReadBack (start : String) (n : ImageName) : Prop :=
  ∃ r, OciReference.parse (n.url start) = .ok r ∧
    r.registry = n.registry ∧ r.repository = n.repository ∧ r.reference = n.reference ∧
    (∀ reference, r.manifestUrl reference =
      r.scheme ++ "://" ++ n.registry ++ "/v2/" ++ n.repository ++ "/manifests/" ++ reference) ∧
    ∀ digest, r.blobUrl digest =
      r.scheme ++ "://" ++ n.registry ++ "/v2/" ++ n.repository ++ "/blobs/" ++ digest

variable {n}

theorem not_readBack (hs : start ∈ ociSchemes) (ht : n.tag ≠ none) (hd : n.digest ≠ none) :
    ¬ ReadBack start n := by
  rintro ⟨r, hr, -, hRepository, -⟩
  obtain ⟨scheme, hParse⟩ := parse_url hs n
  rw [hParse] at hr
  cases hr
  obtain ⟨tag, ht⟩ := ne_none_iff_exists'.mp ht
  have hl := congrArg String.length hRepository
  simp [isSome_iff_ne_none.mpr hd, tagText, ht] at hl

theorem readBack_iff (hs : start ∈ ociSchemes) (n : ImageName) :
    ReadBack start n ↔ n.tag = none ∨ n.digest = none := by
  constructor
  · intro h
    by_contra hNot
    obtain ⟨ht, hd⟩ := not_or.mp hNot
    exact not_readBack hs ht hd h
  · intro h
    obtain ⟨scheme, hParse⟩ := parse_url hs n
    have hRepository : (if n.digest.isSome then n.repository ++ n.tagText else n.repository) =
        n.repository := by
      rcases h with ht | hd
      · simp [tagText, ht]
      · simp [hd]
    rw [hRepository] at hParse
    exact ⟨_, hParse, rfl, rfl, rfl, fun _ => rfl, fun _ => rfl⟩

def tagged : ImageName where
  registry := "registry.example.com:5000"
  component := "ns"
  components := ["plugin"]
  tag := some "v1"
  digest := none
  registry_isPart := by decide
  component_isPart := by decide
  components_isPart := by decide
  tag_isPart := by simp; decide
  digest_isPart := by simp

theorem tagged_readBack : ReadBack "oci://" tagged :=
  (readBack_iff (by decide) tagged).mpr (Or.inr rfl)

/-- `oci://registry.example.com:5000/ns/plugin:v1@sha256:6b86b273`. -/
def pinned : ImageName :=
  { tagged with
    digest := some "sha256:6b86b273"
    digest_isPart := by simp; decide }

theorem pinned_not_readBack : ¬ ReadBack "oci://" pinned :=
  not_readBack (by decide) (some_ne_none _) (some_ne_none _)

end ImageName

end Spacegate.PluginWasm
