import Spacegate.AiGateway.BodyRoundTrip

/-!
# How multipart uploads end

An upload that was begun is to be completed or aborted, once.  The task that goes on with an
upload aborts it after every error, also where the loop over the stream has already aborted it,
and where the request to complete it has failed.
-/

namespace Spacegate.AiGateway.BodyStore

open Foundation Effects List Nat

/-- A request after which the upload is not to be used any more. -/
def ObjectRequest.isEnd : ObjectRequest → Bool
  | .complete _ _ _ | .abort _ _ => true
  | _ => false

def ends {α : Type} (x : Upload α) : List ObjectRequest :=
  x.performed.filter ObjectRequest.isEnd

/-- The upload is completed where the body was accepted, and aborted otherwise. -/
def EndsWith {α : Type} (x : Upload α) (objectRef uploadId : String) : Prop :=
  match x.result with
  | .ok _ => ∃ parts, ends x = [.complete objectRef uploadId parts]
  | .error _ => ends x = [.abort objectRef uploadId]

/-- An upload that was begun for the object is ended once, also one whose answer was lost. -/
def EndedOnce {α : Type} (store : ObjectStore) (lost : Bool) (objectRef : String) (x : Upload α) :
    Prop :=
  .initiate objectRef ∈ x.performed →
    match store.initiate with
    | .ok uploadId => EndsWith x objectRef uploadId
    | .error _ => lost = true → ∃ uploadId, EndsWith x objectRef uploadId

/-- After so many bytes, the stream exceeds the maximal size, and no request fails before. -/
def Exceeds (store : ObjectStore) (cfg : Config) : Nat → List Chunk → Prop
  | _, [] | _, .error _ :: _ => False
  | n, .ok chunk :: rest =>
    n + chunk.length < 2 ^ 64 ∧ (cfg.maxBodyBytes < n + chunk.length ∨
      store.TakesParts (n / cfg.partSize) ((n + chunk.length) / cfg.partSize) ∧
        Exceeds store cfg (n + chunk.length) rest)

/-- The rest of a body is not too large, and if all parts are uploaded, the upload can be
completed. -/
def EndsCleanly (store : ObjectStore) (cfg : Config) (n : Nat) (rest : List Chunk) : Prop :=
  ¬ (store.TakesParts 0 (n / cfg.partSize) ∧ Exceeds store cfg n rest) ∧
    (PartsTaken store cfg n rest → store.complete = .ok ())

variable {α β : Type} {store : ObjectStore} {cfg : Config} {objectRef uploadId : String}
  {n : Nat} {cut : List CompletedPart × Bytes} {rest : List Chunk}

theorem ends_bind_of_ok {x : Upload α} {a : α} (h : x.result = .ok a) (f : α → Upload β) :
    ends (x >>= f) = ends x ++ ends (f a) := by
  rw [ends, bind_of_ok h, filter_append]
  rfl

variable {e : ServiceError}

theorem ends_bind_of_error {x : Upload α} (h : x.result = .error e)
    (f : α → Upload β) : ends (x >>= f) = ends x := by
  rw [ends, bind_of_error h]
  rfl

/-- The computation aborts the upload exactly in one case, in which it fails, and does not end
it otherwise. -/
def AbortsIf (P : Prop) (objectRef uploadId : String) (x : Upload α) : Prop :=
  P ∧ ends x = [.abort objectRef uploadId] ∧ (∃ e, x.result = .error e) ∨ ¬ P ∧ ends x = []

variable {P : Prop} {x : Upload α} {f : α → Upload β}

theorem AbortsIf.bind (h : AbortsIf P objectRef uploadId x) (hf : ∀ a, ends (f a) = []) :
    AbortsIf P objectRef uploadId (x >>= f) := by
  rcases h with ⟨hP, he, e, hx⟩ | ⟨hP, he⟩
  · exact .inl ⟨hP, by rw [ends_bind_of_error hx, he], e, by rw [result_bind, hx]; rfl⟩
  · refine .inr ⟨hP, ?_⟩
    cases hx : x.result with
    | error e => rw [ends_bind_of_error hx, he]
    | ok a => rw [ends_bind_of_ok hx, he, hf, nil_append]

theorem abortsIf_bind_of_ok {a : α} (hx : x.result = .ok a) (he : ends x = []) :
    AbortsIf P objectRef uploadId (x >>= f) ↔ AbortsIf P objectRef uploadId (f a) := by
  rw [AbortsIf, ends_bind_of_ok hx, he, nil_append, result_bind, hx]
  rfl

theorem abortsIf_bind_of_error (hx : x.result = .error e) (he : ends x = [])
    (hP : ¬ P) : AbortsIf P objectRef uploadId (x >>= f) :=
  .inr ⟨hP, by rw [ends_bind_of_error hx, he]⟩

theorem ends_uploadFullParts (fuel : Nat) (parts : List CompletedPart) (pending : Bytes) :
    ends (uploadFullParts store cfg objectRef uploadId fuel parts pending) = [] := by
  induction fuel generalizing parts pending with
  | zero => rfl
  | succ fuel ih =>
    unfold uploadFullParts
    split_ifs
    · cases hp : (uploadMultipartPart store objectRef uploadId (parts.length + 1)
        (pending.take cfg.partSize)).result with
      | error e => rw [ends_bind_of_error hp]; rfl
      | ok part => rw [ends_bind_of_ok hp, ih]; rfl
    · rfl

theorem ends_uploadLastPart (parts : List CompletedPart) (pending : Bytes) :
    ends (uploadLastPart store objectRef uploadId parts pending) = [] := by
  unfold uploadLastPart
  split_ifs
  · rw [ends, performed_bind_pure]
    rfl
  · rfl

/-- Full parts are uploaded exactly if the object store takes them, and what follows is done
only then. -/
theorem abortsIf_uploadFullParts (hCut : Cut cfg n cut) (chunk : Bytes)
    {f : List CompletedPart × Bytes → Upload α}
    (hf : ∀ next, Cut cfg (n + chunk.length) next → AbortsIf P objectRef uploadId (f next)) :
    AbortsIf (store.TakesParts (n / cfg.partSize) ((n + chunk.length) / cfg.partSize) ∧ P)
      objectRef uploadId (uploadFullParts store cfg objectRef uploadId (cut.2 ++ chunk).length
        cut.1 (cut.2 ++ chunk) >>= f) := by
  rcases succeedsIf_uploadChunk hCut chunk with ⟨ht, next, hn, hcn⟩ | ⟨ht, e, hn⟩
  · rw [abortsIf_bind_of_ok hn (ends_uploadFullParts _ _ _), and_iff_right ht]
    exact hf next hcn
  · exact abortsIf_bind_of_error hn (ends_uploadFullParts _ _ _) fun h => ht h.1

theorem abortsIf_uploadRest (hCut : Cut cfg n cut) :
    AbortsIf (Exceeds store cfg n rest) objectRef uploadId
      (uploadRest store cfg objectRef uploadId cut.1 cut.2 n rest) := by
  induction rest generalizing n cut with
  | nil => exact .inr ⟨id, rfl⟩
  | cons chunk rest ih =>
    cases chunk with
    | error e => exact .inr ⟨id, rfl⟩
    | ok chunk =>
      simp only [Exceeds, uploadRest]
      split_ifs with ho hMax
      · exact .inr ⟨fun h => absurd h.1 (not_lt.mpr ho), rfl⟩
      · exact .inl ⟨⟨not_le.mp ho, .inl hMax⟩, rfl, _, rfl⟩
      · rw [and_iff_right (not_le.mp ho), or_iff_right hMax]
        exact abortsIf_uploadFullParts hCut chunk fun next hn => ih hn

variable {upload : PendingUpload}

/-- The bytes that were read first are uploaded, and then the rest of the stream. -/
theorem abortsIf_uploadParts (hs : upload.totalSize = upload.pending.length) :
    AbortsIf (store.TakesParts 0 (upload.pending.length / cfg.partSize) ∧
        Exceeds store cfg upload.pending.length upload.rest)
      upload.objectRef upload.uploadId (uploadParts store cfg upload) := by
  have hNone : Cut cfg 0 ([], []) := ⟨by simp, by simp⟩
  have hNext : ∀ next, Cut cfg (0 + upload.pending.length) next →
      AbortsIf (Exceeds store cfg upload.pending.length upload.rest) upload.objectRef
        upload.uploadId (uploadRest store cfg upload.objectRef upload.uploadId next.1 next.2
          upload.totalSize upload.rest >>= fun last =>
            uploadLastPart store upload.objectRef upload.uploadId last.1 last.2) := by
    intro next hn
    rw [zero_add] at hn
    rw [hs]
    exact (abortsIf_uploadRest hn).bind fun _ => ends_uploadLastPart _ _
  have h := @abortsIf_uploadFullParts _ store _ _ _ _ _ _ hNone upload.pending _ hNext
  rw [Nat.zero_div, Nat.zero_add, nil_append] at h
  exact h

theorem endsWith_onError_of_error (hx : x.result = .error e) :
    EndsWith (x.onError (.abort objectRef uploadId)) objectRef uploadId ↔ ends x = [] := by
  have he : ends (x.onError (.abort objectRef uploadId)) =
      ends x ++ [.abort objectRef uploadId] := by
    unfold onError ends
    rw [hx]
    exact filter_append _ _
  rw [EndsWith, result_onError, hx]
  simp [he]

theorem endsWith_onError_of_ok {a : α} (hx : x.result = .ok a) (request : ObjectRequest) :
    EndsWith (x.onError request) objectRef uploadId ↔
      ∃ parts, ends x = [.complete objectRef uploadId parts] := by
  rw [EndsWith, result_onError, hx, ends, performed_onError_of_ok hx]
  rfl

theorem endsWith_finishOffloadUpload_iff (hs : upload.totalSize = upload.pending.length)
    (hf : cfg.Fits upload.pending.length) :
    EndsWith (finishOffloadUpload store cfg upload) upload.objectRef upload.uploadId ↔
      EndsCleanly store cfg upload.pending.length upload.rest := by
  have hp := @succeeds_uploadParts_iff store cfg upload hs hf
  have hResult := result_bind (uploadParts store cfg upload)
    (completeMultipartUpload store upload.objectRef upload.uploadId)
  rw [finishOffloadUpload_eq, EndsCleanly]
  cases hr : (uploadParts store cfg upload).result with
  | error e =>
    rw [hr] at hResult
    have hNot : ¬ PartsTaken store cfg upload.pending.length upload.rest := by
      rw [← hp, Succeeds, hr]
      simp
    rw [endsWith_onError_of_error hResult, ends_bind_of_error hr]
    rcases @abortsIf_uploadParts store cfg upload hs with ⟨hE, he, -⟩ | ⟨hE, he⟩
    · simp [he, hE]
    · simp [he, hE, hNot]
  | ok parts =>
    rw [hr] at hResult
    have hTaken := hp.mp ⟨parts, hr⟩
    rcases @abortsIf_uploadParts store cfg upload hs with ⟨-, -, e, hr'⟩ | ⟨hE, he⟩
    · rw [hr] at hr'
      cases hr'
    · have hEnds : ends (uploadParts store cfg upload >>= completeMultipartUpload store
          upload.objectRef upload.uploadId) =
            [.complete upload.objectRef upload.uploadId parts] := by
        rw [ends_bind_of_ok hr, he]
        rfl
      cases hc : store.complete with
      | error e =>
        rw [endsWith_onError_of_error (hResult.trans hc), hEnds]
        simp [hTaken]
      | ok _ =>
        rw [endsWith_onError_of_ok (hResult.trans hc), hEnds]
        simp [hE]

/-! ## Whole bodies -/

variable {base64 : Bytes → String} {jobId : String} {body : List Chunk}

theorem endsWith_bind_of_ok {a : α} (hx : x.result = .ok a) (he : ends x = []) :
    EndsWith (x >>= f) objectRef uploadId ↔ EndsWith (f a) objectRef uploadId := by
  rw [EndsWith, result_bind, hx, ends_bind_of_ok hx, he, nil_append]
  rfl

theorem endsWith_bind_pure (objectRef uploadId : String) (x : Upload α) (g : α → β) :
    EndsWith (x >>= fun a => pure (g a)) objectRef uploadId ↔ EndsWith x objectRef uploadId := by
  rw [EndsWith, EndsWith, ends, performed_bind_pure, result_bind]
  cases x.result <;> rfl

theorem endedOnce_iff_of_offloaded {large : Bytes} (ho : Offloaded cfg body large rest)
    (he : cfg.objectStoreEndpoint.isSome) (lost : Bool) :
    EndedOnce store lost (cfg.objectRef jobId) (storeWhole store cfg base64 jobId body) ↔
      (∀ uploadId, store.initiate = .ok uploadId → EndsCleanly store cfg large.length rest) ∧
        (lost = true → ∃ uploadId, store.initiate = .ok uploadId) := by
  obtain ⟨hp, hr⟩ := @offload_of_isSome store cfg large rest (cfg.objectRef jobId) he
  rw [← storeBody_of_offloaded store base64 jobId ho] at hp hr
  have hEnds : ends (storeBody store cfg base64 jobId body) = [] := by
    rw [ends, hp]
    rfl
  have hMem : .initiate (cfg.objectRef jobId) ∈
      (storeWhole store cfg base64 jobId body).performed := by
    refine mem_performed_bind ?_ _
    rw [hp]
    exact mem_singleton_self _
  unfold EndedOnce
  cases hi : store.initiate with
  | error e =>
    rw [hi] at hr
    have hFailed : ∀ uploadId, ¬ EndsWith (storeWhole store cfg base64 jobId body)
        (cfg.objectRef jobId) uploadId := by
      intro uploadId h
      rw [EndsWith, storeWhole, result_bind, hr, ends_bind_of_error hr, hEnds] at h
      cases h
    simp [hMem, hFailed]
  | ok uploadId =>
    rw [hi] at hr
    have hWhole : EndsWith (storeWhole store cfg base64 jobId body) (cfg.objectRef jobId)
        uploadId ↔ EndsCleanly store cfg large.length rest := by
      rw [storeWhole, endsWith_bind_of_ok hr hEnds, endsWith_bind_pure]
      exact endsWith_finishOffloadUpload_iff rfl ho.fits
    simp [hMem, hWhole]

/-- Every upload is ended once exactly if, where the body exceeds the inline threshold and there is
an object store, the upload ends cleanly that is begun then, and no answer to the request that
begins it is lost. -/
theorem endedOnce_iff_endsCleanly (store : ObjectStore) (cfg : Config) (base64 : Bytes → String)
    (jobId : String) (body : List Chunk) (lost : Bool) :
    EndedOnce store lost (cfg.objectRef jobId) (storeWhole store cfg base64 jobId body) ↔
      ∀ large rest, Offloaded cfg body large rest → cfg.objectStoreEndpoint.isSome →
        (∀ uploadId, store.initiate = .ok uploadId → EndsCleanly store cfg large.length rest) ∧
          (lost = true → ∃ uploadId, store.initiate = .ok uploadId) := by
  constructor
  · intro h large rest ho he
    exact (endedOnce_iff_of_offloaded ho he lost).mp h
  · intro h
    rcases storeBody_cases store base64 jobId cfg body with
      ⟨whole, rfl, hLe, hf⟩ | ⟨large, rest, ho⟩ | ⟨e, he⟩
    · intro hMem
      rw [storeWhole, storeBody_of_inlined _ _ _ hLe hf] at hMem
      cases hMem
    · cases he : cfg.objectStoreEndpoint with
      | none =>
        intro hMem
        rw [storeWhole, storeBody_of_offloaded _ _ _ ho, offload, if_pos (by simp [he])] at hMem
        cases hMem
      | some endpoint =>
        have hSome : cfg.objectStoreEndpoint.isSome := by simp [he]
        exact (endedOnce_iff_of_offloaded ho hSome lost).mpr (h large rest ho hSome)
    · intro hMem
      rw [storeWhole, he] at hMem
      cases hMem

/-- A body of at most one byte, and an object store that takes everything. -/
def oneByte : Config where
  objectStorePrefix := "bodies"
  objectStoreEndpoint := some "http://objects"
  objectMultipartPartSize := 0
  maxBodyBytes := 1
  inlineThreshold := 0

def secondByte : Upload BodyLocation :=
  storeWhole ⟨.ok "u1", fun _ => .ok "e1", .ok ()⟩ oneByte (fun _ => "") "j1" [.ok [1], .ok [2]]

/-- The second byte is too much, and the upload is aborted twice. -/
theorem secondByte_not_endedOnce :
    ¬ EndedOnce ⟨.ok "u1", fun _ => .ok "e1", .ok ()⟩ false (oneByte.objectRef "j1")
        secondByte := by
  intro h
  have he : EndsWith secondByte (oneByte.objectRef "j1") "u1" := h (by decide +kernel)
  have hr : secondByte.result = .error oneByte.exceedsMaxSize := rfl
  rw [EndsWith, hr] at he
  exact absurd he (by decide +kernel)

end Spacegate.AiGateway.BodyStore
