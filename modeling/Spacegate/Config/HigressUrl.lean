import Spacegate.PluginWasm.OciReference

/-!
# URLs of Higress WasmPlugin objects

The conversion validates the URL of a module before the host ever fetches it, with functions of
its own that look for an OCI registry.
-/

namespace Spacegate.Config.Higress

open Foundation.Text List
open PluginWasm (startsWithText ociSchemes fetchTarget OciReference)
open PluginWasm.OciReference (cutImage)

def isOciUrl (url : String) : Bool :=
  ociSchemes.any fun start => startsWithText start (toAsciiLowercase url)

def parseOciRegistry (url : String) : Option String := do
  let rest ← ociSchemes.findSome? fun start => stripStart start (trim url)
  let (registry, repository) ← splitOnce '/' rest
  if !isBlank registry && !isBlank repository then some registry else none

/-- `validate_for_spacegate` of an object with the given `spec.url`. -/
def validateForSpacegate (url : String) : Except String Unit :=
  let url := trim url
  if url.isEmpty then .error "spec.url is empty"
  else if isOciUrl url && (parseOciRegistry url).isNone then
    .error "spec.url must include OCI registry and repository"
  else .ok ()

variable {url start registry image rest : String}

/-! ## URLs with a registry -/

/-- A registry and an image are given behind one of the schemes. -/
structure HasRegistry (url registry image : String) : Prop where
  starts : ∃ start ∈ ociSchemes, trim url = start ++ (registry ++ "/" ++ image)
  notMem : '/' ∉ registry.toList
  registry_given : isBlank registry = false
  image_given : isBlank image = false

theorem eq_append_of_splitOnce (h : splitOnce '/' rest = some (registry, image)) :
    rest = registry ++ "/" ++ image ∧ '/' ∉ registry.toList := by
  obtain ⟨hRest, hNot⟩ := splitOnce_eq_some_iff.mp h
  refine ⟨?_, hNot⟩
  rw [← String.toList_inj, hRest]
  simp

theorem parseOciRegistry_eq_some_iff :
    parseOciRegistry url = some registry ↔ ∃ image, HasRegistry url registry image := by
  constructor
  · intro h
    simp only [parseOciRegistry, Option.bind_eq_bind, Option.bind_eq_some_iff] at h
    obtain ⟨rest, hRest, ⟨registry', image⟩, hSplit, hGiven⟩ := h
    obtain ⟨start, hs, hStart⟩ := exists_of_findSome?_eq_some hRest
    obtain ⟨rfl, hNot⟩ := eq_append_of_splitOnce hSplit
    split at hGiven
    next hBlank =>
      cases hGiven
      simp only [Bool.and_eq_true, Bool.not_eq_true'] at hBlank
      exact ⟨image, ⟨start, hs, stripStart_eq_some_iff.mp hStart⟩, hNot, hBlank.1, hBlank.2⟩
    next => cases hGiven
  · rintro ⟨image, ⟨start, hs, hUrl⟩, hNot, hRegistry, hImage⟩
    have hSplit : splitOnce '/' (registry ++ "/" ++ image) = some (registry, image) :=
      splitOnce_eq_some_iff.mpr ⟨by simp, hNot⟩
    simp [parseOciRegistry, hUrl, hSplit, hRegistry, hImage, PluginWasm.findSome?_ociSchemes hs]

variable (h : HasRegistry url registry image)
include h

/-- The host takes the URL for that of an image, and of the image only its parts are left to
check. -/
theorem HasRegistry.parse : ∃ scheme, OciReference.parse url =
      if isBlank (cutImage image).1 || isBlank (cutImage image).2 then
        .error (.fetch ("OCI URL must include repository and tag/digest: " ++ trim url))
      else .ok ⟨scheme, registry, (cutImage image).1, (cutImage image).2⟩ := by
  obtain ⟨start, hs, hUrl⟩ := h.starts
  exact OciReference.parse_of_cut hs hUrl h.notMem h.registry_given h.image_given

omit h in
theorem toAsciiLowercase_append (s t : String) :
    toAsciiLowercase (s ++ t) = toAsciiLowercase s ++ toAsciiLowercase t := by
  rw [← String.toList_inj]
  simp

theorem HasRegistry.isOciUrl : PluginWasm.isOciUrl (trim url) = true := by
  obtain ⟨start, hs, hUrl⟩ := h.starts
  have hLower : ∀ start ∈ ociSchemes, toAsciiLowercase start = start := by decide
  refine any_eq_true.mpr ⟨start, hs, PluginWasm.startsWithText_iff.mpr
    ⟨toAsciiLowercase (registry ++ "/" ++ image), ?_⟩⟩
  rw [hUrl, toAsciiLowercase_append, hLower start hs]

theorem HasRegistry.fetchTarget : fetchTarget url = .oci (trim url) := by
  obtain ⟨start, hs, hUrl⟩ := h.starts
  have hOci := h.isOciUrl
  rw [hUrl] at hOci
  rcases PluginWasm.mem_ociSchemes_iff.mp hs with rfl | rfl | rfl | rfl <;>
    simp [PluginWasm.fetchTarget, hUrl, startsWithText, stripStart, List.isPrefixOf?, hOci]

omit h

/-! ## Blanks around a URL -/

theorem exists_trim_eq_append {s : String} {a b : List Char} (hs : s.toList = a ++ b) (ha : a ≠ [])
    (hw : ∀ c ∈ a, isWhitespace c = false) : ∃ b', (trim s).toList = a ++ b' := by
  have hFront : s.toList.dropWhile isWhitespace = a ++ b := by
    rw [hs]
    cases a with
    | nil => exact absurd rfl ha
    | cons c a =>
      exact dropWhile_cons_of_neg (by simp [hw c mem_cons_self])
  have hTrim : (trim s).toList = (a ++ b).rdropWhile isWhitespace := by
    rw [trim, hFront, String.toList_ofList]
    rfl
  rw [hTrim]
  clear hs hFront hTrim
  induction b using List.reverseRecOn with
  | nil =>
    refine ⟨[], ?_⟩
    rw [append_nil, rdropWhile_eq_self_iff]
    intro hne
    simp [hw _ (getLast_mem hne)]
  | append_singleton b c ih =>
    rw [← append_assoc, rdropWhile_concat]
    split
    · exact ih
    · exact ⟨b ++ [c], append_assoc a b [c]⟩

theorem isWhitespace_toLower {c : Char} (h : isWhitespace c = true) : c.toLower = c := by
  rw [← Char.toNat_inj, toNat_toLower, if_neg]
  intro hc
  rw [isWhitespace_of_visible (by omega) (by omega)] at h
  cases h

theorem isOciUrl_trim (h : isOciUrl url = true) : isOciUrl (trim url) = true := by
  obtain ⟨start, hs, hStart⟩ := any_eq_true.mp h
  have hPart := PluginWasm.ImageName.isPart_start start hs
  obtain ⟨rest, hr⟩ := PluginWasm.startsWithText_iff.mp hStart
  have hl := congrArg String.toList hr
  rw [toList_toAsciiLowercase, String.toList_append] at hl
  obtain ⟨a, b, hUrl, ha, -⟩ := map_eq_append_iff.mp hl
  have hne : a ≠ [] := by
    rintro rfl
    exact hPart.1 (by simpa using ha.symm)
  have hw : ∀ c ∈ a, isWhitespace c = false := by
    intro c hc
    rw [← Bool.not_eq_true]
    intro hBlank
    have hm : c ∈ start.toList := by
      rw [← ha, ← isWhitespace_toLower hBlank]
      exact mem_map_of_mem hc
    rw [(hPart.2 c hm).1] at hBlank
    cases hBlank
  obtain ⟨b', ht⟩ := exists_trim_eq_append hUrl hne hw
  refine any_eq_true.mpr ⟨start, hs, PluginWasm.startsWithText_iff.mpr
    ⟨String.ofList (b'.map Char.toLower), ?_⟩⟩
  rw [← String.toList_inj]
  simp [ht, ha]

/-! ## Agreement -/

/-- The validator, the dispatcher and the parser agree on a URL. -/
structure Agree (url : String) : Prop where
  parsed : validateForSpacegate url = .ok () →
    PluginWasm.isOciUrl url = true ∨ isOciUrl url = true ∨ isOciUrl (trim url) = true →
    fetchTarget url = .oci (trim url) ∧
      ∃ r, OciReference.parse url = .ok r ∧ parseOciRegistry url = some r.registry
  valid : ∀ r, OciReference.parse url = .ok r → validateForSpacegate url = .ok () ∧
    fetchTarget url = .oci (trim url) ∧ parseOciRegistry url = some r.registry

theorem HasRegistry.validate (h : HasRegistry url registry image) :
    validateForSpacegate url = .ok () := by
  obtain ⟨start, hs, hUrl⟩ := h.starts
  have hGiven : (trim url).isEmpty = false := by
    rw [Bool.eq_false_iff, Ne, String.isEmpty_iff, hUrl]
    simp
  have hTrim : HasRegistry (trim url) registry image :=
    { h with starts := ⟨start, hs, by rw [trim_trim, hUrl]⟩ }
  simp [validateForSpacegate, hGiven, parseOciRegistry_eq_some_iff.mpr ⟨image, hTrim⟩]

theorem hasRegistry_of_validate (hv : validateForSpacegate url = .ok ())
    (hOci : isOciUrl (trim url) = true) : ∃ registry image, HasRegistry url registry image := by
  simp only [validateForSpacegate, hOci, Bool.true_and] at hv
  split at hv
  next => cases hv
  next =>
    cases hRegistry : parseOciRegistry (trim url) with
    | none => simp [hRegistry] at hv
    | some registry =>
      obtain ⟨image, h⟩ := parseOciRegistry_eq_some_iff.mp hRegistry
      obtain ⟨start, hs, hUrl⟩ := h.starts
      exact ⟨registry, image, { h with starts := ⟨start, hs, by rw [← hUrl, trim_trim]⟩ }⟩

theorem hasRegistry_of_parse {r : OciReference} (h : OciReference.parse url = .ok r) :
    ∃ image, HasRegistry url r.registry image := by
  unfold OciReference.parse at h
  simp only at h
  split at h
  next => cases h
  next scheme rest hScheme =>
    obtain ⟨start, hs, hUrl⟩ := PluginWasm.exists_of_cutScheme hScheme
    split at h
    next => cases h
    next registry image hSplit =>
      obtain ⟨rfl, hNot⟩ := eq_append_of_splitOnce hSplit
      split at h
      next => cases h
      next hGiven =>
        split at h
        next => cases h
        next =>
          cases h
          simp only [Bool.or_eq_true, not_or, Bool.not_eq_true] at hGiven
          exact ⟨image, ⟨start, hs, hUrl⟩, hNot, hGiven.1, hGiven.2⟩

/-- The parts of the image that the validator does not look at. -/
def PartsGiven (url : String) : Prop :=
  ∀ registry image, HasRegistry url registry image →
    isBlank (cutImage image).1 = false ∧ isBlank (cutImage image).2 = false

theorem agree_iff (url : String) : Agree url ↔ PartsGiven url := by
  constructor
  · intro h registry image hHas
    obtain ⟨-, r, hr, -⟩ := h.parsed hHas.validate (Or.inr (Or.inr hHas.isOciUrl))
    obtain ⟨scheme, hParse⟩ := hHas.parse
    rw [hParse] at hr
    split at hr
    next => cases hr
    next hBlank => simpa using hBlank
  · intro h
    refine ⟨fun hv hOci => ?_, fun r hr => ?_⟩
    · have hTrim : isOciUrl (trim url) = true := by
        rcases hOci with hOci | hOci | hOci
        · exact isOciUrl_trim hOci
        · exact isOciUrl_trim hOci
        · exact hOci
      obtain ⟨registry, image, hHas⟩ := hasRegistry_of_validate hv hTrim
      obtain ⟨hRepository, hReference⟩ := h registry image hHas
      obtain ⟨scheme, hParse⟩ := hHas.parse
      rw [hRepository, hReference] at hParse
      exact ⟨hHas.fetchTarget, _, hParse, parseOciRegistry_eq_some_iff.mpr ⟨image, hHas⟩⟩
    · obtain ⟨image, hHas⟩ := hasRegistry_of_parse hr
      exact ⟨hHas.validate, hHas.fetchTarget, parseOciRegistry_eq_some_iff.mpr ⟨image, hHas⟩⟩

/-- A tag that was left empty. -/
theorem emptyTag_not_agree : ¬ Agree "oci://registry.example.com/plugin:" := by
  intro h
  obtain ⟨-, r, hr, -⟩ := h.parsed (by decide +kernel) (Or.inl (by decide +kernel))
  have hFails : (OciReference.parse "oci://registry.example.com/plugin:").isOk = false := by
    decide +kernel
  rw [hr] at hFails
  cases hFails

end Spacegate.Config.Higress
