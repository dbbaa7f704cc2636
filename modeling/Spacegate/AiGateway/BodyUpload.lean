import Spacegate.AiGateway.BodyStore

/-!
# When a body is stored

Whether `store_body` and `finish_offload_upload` succeed, by what the body stream yields and
how the object store answers.  The parts are cut at multiples of the part size: after `n`
bytes there are `n / part_size` of them, and `n % part_size` bytes are left.
-/

namespace Spacegate.AiGateway.BodyStore

open Foundation Effects List Nat Except
open ServiceError

variable {store : ObjectStore} {cfg : Config}

/-! ## Parts -/

theorem partSize_pos (cfg : Config) : 0 < cfg.partSize := by
  have h : 5 * 1024 * 1024 ≤ cfg.partSize := le_max_right _ _
  omega

/-- The parts after the first `n`, up to number `m`, are taken. -/
def ObjectStore.TakesParts (store : ObjectStore) (n m : Nat) : Prop :=
  ∀ number, n < number → number ≤ m → ∃ etag, store.part number = .ok etag

theorem takesParts_self (n : Nat) : store.TakesParts n n := by
  intro number hn hm
  omega

variable {n m fuel : Nat} {cut : List CompletedPart × Bytes} {pending large chunk : Bytes}
  {parts : List CompletedPart} {body rest later : List Chunk}

theorem takesParts_split {k : Nat} (hm : n ≤ m) (hk : m ≤ k) :
    store.TakesParts n k ↔ store.TakesParts n m ∧ store.TakesParts m k := by
  constructor
  · intro h
    exact ⟨fun number hn hm => h number hn (by omega), fun number hm hk => h number (by omega) hk⟩
  · rintro ⟨hb, ha⟩ number hn hk
    by_cases hNumber : number ≤ m
    · exact hb number hn hNumber
    · exact ha number (by omega) hk

theorem takesParts_succ : store.TakesParts n (n + 1) ↔ ∃ etag, store.part (n + 1) = .ok etag := by
  constructor
  · intro h
    exact h (n + 1) (by omega) (by omega)
  · intro h number hn hm
    obtain rfl : number = n + 1 := by omega
    exact h

section Part

variable (objectRef uploadId : String) (body : Bytes)

theorem result_uploadMultipartPart (number : Nat) :
    (uploadMultipartPart store objectRef uploadId number body).result =
      (store.part number).map (CompletedPart.mk number) :=
  rfl

theorem succeeds_uploadMultipartPart_iff :
    (uploadMultipartPart store objectRef uploadId (n + 1) body).Succeeds ↔
      store.TakesParts n (n + 1) := by
  rw [takesParts_succ, Succeeds, result_uploadMultipartPart]
  cases store.part (n + 1) with
  | error e => simp [Except.map]
  | ok etag => simp [Except.map]

end Part

/-- The parts and the bytes that are left after `n` bytes. -/
structure Cut (cfg : Config) (n : Nat) (cut : List CompletedPart × Bytes) : Prop where
  parts : cut.1.length = n / cfg.partSize
  pending : cut.2.length = n % cfg.partSize

theorem Cut.length_add (h : Cut cfg n cut) (chunk : Bytes) :
    cfg.partSize * cut.1.length + (cut.2 ++ chunk).length = n + chunk.length := by
  have hDiv := div_add_mod n cfg.partSize
  rw [length_append, h.parts, h.pending]
  omega

theorem length_drop_part {part : CompletedPart} (h : cfg.partSize ≤ pending.length) :
    cfg.partSize * (parts ++ [part]).length + (pending.drop cfg.partSize).length =
      cfg.partSize * parts.length + pending.length := by
  rw [length_drop, length_append, length_singleton, mul_add]
  omega

theorem succ_le_div {pending : Nat} (h : cfg.partSize ≤ pending) :
    n + 1 ≤ (cfg.partSize * n + pending) / cfg.partSize := by
  rw [le_div_iff_mul_le (partSize_pos cfg), mul_comm, mul_add]
  omega

variable {objectRef uploadId : String}

theorem succeedsIf_uploadFullParts (hFuel : pending.length ≤ fuel) :
    let size := cfg.partSize * parts.length + pending.length
    SucceedsIf (store.TakesParts parts.length (size / cfg.partSize)) (Cut cfg size)
      (uploadFullParts store cfg objectRef uploadId fuel parts pending) := by
  have hPos := partSize_pos cfg
  induction fuel generalizing parts pending with
  | zero =>
    obtain rfl := eq_nil_of_length_eq_zero (Nat.le_zero.mp hFuel)
    have hDiv : cfg.partSize * parts.length / cfg.partSize = parts.length :=
      Nat.mul_div_cancel_left _ hPos
    exact .inl ⟨by simp [hDiv, takesParts_self], _, rfl, by simp [hDiv], by simp⟩
  | succ fuel ih =>
    unfold uploadFullParts SucceedsIf
    by_cases hf : cfg.partSize ≤ pending.length
    · -- one part is uploaded, and the rest is shorter
      have hf' : (pending.drop cfg.partSize).length ≤ fuel := by
        rw [length_drop]
        omega
      simp only [if_pos hf, result_bind, result_uploadMultipartPart,
        takesParts_split (le_succ _) (succ_le_div hf), takesParts_succ]
      cases hp : store.part (parts.length + 1) with
      | error e => exact .inr ⟨by simp, e, rfl⟩
      | ok etag =>
        have h := @ih _ (parts ++ [⟨parts.length + 1, etag⟩]) hf'
        rw [length_drop_part hf, length_append] at h
        simpa [SucceedsIf, Except.map, bind, Except.bind] using h
    · have hDiv : (cfg.partSize * parts.length + pending.length) / cfg.partSize =
          parts.length := by
        rw [mul_add_div hPos, div_eq_of_lt (by omega), add_zero]
      simp only [if_neg hf]
      refine .inl ⟨by rw [hDiv]; exact takesParts_self _, _, rfl, hDiv.symm, ?_⟩
      rw [mul_add_mod, mod_eq_of_lt (by omega)]

/-- Full parts are uploaded exactly if the object store takes them. -/
theorem succeedsIf_uploadChunk (hCut : Cut cfg n cut) (chunk : Bytes) :
    SucceedsIf (store.TakesParts (n / cfg.partSize) ((n + chunk.length) / cfg.partSize))
      (Cut cfg (n + chunk.length))
      (uploadFullParts store cfg objectRef uploadId (cut.2 ++ chunk).length cut.1
        (cut.2 ++ chunk)) := by
  rw [← hCut.length_add, ← hCut.parts]
  exact succeedsIf_uploadFullParts (le_refl _)

/-! ## The rest of the stream -/

def Config.Fits (cfg : Config) (size : Nat) : Prop :=
  size ≤ cfg.maxBodyBytes ∧ size < 2 ^ 64

theorem Config.Fits.mono (h : cfg.Fits m) (hLe : n ≤ m) : cfg.Fits n :=
  ⟨le_trans hLe h.1, lt_of_le_of_lt hLe h.2⟩

theorem exists_cons_eq_map_ok {Q : List Bytes → Prop} :
    (∃ whole : List Bytes, Except.ok chunk :: rest = whole.map .ok ∧ Q whole) ↔
      ∃ whole : List Bytes, rest = whole.map .ok ∧ Q (chunk :: whole) := by
  constructor
  · rintro ⟨_ | ⟨first, whole⟩, hw, hQ⟩
    · cases hw
    · cases hw
      exact ⟨whole, rfl, hQ⟩
  · rintro ⟨whole, rfl, hQ⟩
    exact ⟨chunk :: whole, rfl, hQ⟩

theorem takesParts_div_split (n k j : Nat) :
    store.TakesParts (n / cfg.partSize) ((n + k + j) / cfg.partSize) ↔
      store.TakesParts (n / cfg.partSize) ((n + k) / cfg.partSize) ∧
        store.TakesParts ((n + k) / cfg.partSize) ((n + k + j) / cfg.partSize) :=
  takesParts_split (Nat.div_le_div_right (le_add_right _ _))
    (Nat.div_le_div_right (le_add_right _ _))

/-- The loop reaches its end exactly if the stream yields the rest of a body that is not too
large and the object store takes its full parts. -/
theorem succeeds_uploadRest_bind {α : Type} {f : List CompletedPart × Bytes → Upload α}
    {P : Nat → Prop} (hf : ∀ size last, Cut cfg size last → ((f last).Succeeds ↔ P size))
    (hCut : Cut cfg n cut) (hFits : cfg.Fits n) :
    (uploadRest store cfg objectRef uploadId cut.1 cut.2 n rest >>= f).Succeeds ↔
      ∃ whole : List Bytes, rest = whole.map .ok ∧ cfg.Fits (n + whole.flatten.length) ∧
        store.TakesParts (n / cfg.partSize) ((n + whole.flatten.length) / cfg.partSize) ∧
          P (n + whole.flatten.length) := by
  induction rest generalizing n cut with
  | nil =>
    have hLast : (uploadRest store cfg objectRef uploadId cut.1 cut.2 n [] >>= f).Succeeds ↔
      P n := hf n cut hCut
    rw [hLast]
    constructor
    · intro hP
      exact ⟨[], rfl, hFits, takesParts_self _, hP⟩
    · rintro ⟨whole, hw, -, -, hP⟩
      obtain rfl := map_eq_nil_iff.mp hw.symm
      exact hP
  | cons chunk rest ih =>
    cases chunk with
    | error e =>
      refine iff_of_false (by rintro ⟨_, h⟩; cases h) ?_
      rintro ⟨_ | _, hw, -⟩ <;> cases hw
    | ok chunk =>
      rw [exists_cons_eq_map_ok]
      by_cases hNext : cfg.Fits (n + chunk.length)
      · simp only [uploadRest]
        rw [if_neg (not_le.mpr hNext.2), if_neg (not_lt.mpr hNext.1), Effects.bind_assoc,
          (succeedsIf_uploadChunk hCut chunk).succeeds_bind_iff fun next hn => ih hn hNext,
          ← exists_and_left]
        refine exists_congr fun whole => ?_
        rw [flatten_cons, length_append, ← add_assoc, takesParts_div_split]
        tauto
      · refine iff_of_false ?_ ?_
        · rintro ⟨_, h⟩
          simp only [uploadRest] at h
          split_ifs at h with ho hMax
          · cases h
          · cases h
          · exact hNext ⟨not_lt.mp hMax, not_le.mp ho⟩
        · rintro ⟨whole, -, hw, -⟩
          exact hNext (hw.mono (by simp))

/-! ## The whole upload -/

/-- How many parts a body has. -/
def Config.partCount (cfg : Config) (size : Nat) : Nat :=
  size / cfg.partSize + if size % cfg.partSize ≠ 0 ∨ size / cfg.partSize = 0 then 1 else 0

theorem takesParts_partCount : store.TakesParts 0 (cfg.partCount n) ↔
    store.TakesParts 0 (n / cfg.partSize) ∧
      store.TakesParts (n / cfg.partSize) (cfg.partCount n) :=
  takesParts_split (Nat.zero_le _) (le_add_right _ _)

theorem succeeds_uploadLastPart_iff (hCut : Cut cfg n cut) :
    (uploadLastPart store objectRef uploadId cut.1 cut.2).Succeeds ↔
      store.TakesParts (n / cfg.partSize) (cfg.partCount n) := by
  have hl : (!cut.2.isEmpty || cut.1.isEmpty) = true ↔
      n % cfg.partSize ≠ 0 ∨ n / cfg.partSize = 0 := by
    rw [← hCut.parts, ← hCut.pending]
    simp
  unfold uploadLastPart Config.partCount
  by_cases hm : n % cfg.partSize ≠ 0 ∨ n / cfg.partSize = 0
  · rw [if_pos (hl.mpr hm), if_pos hm, ← hCut.parts, ← succeeds_uploadMultipartPart_iff,
      succeeds_bind_iff_and fun _ => iff_true_intro (succeeds_pure _), and_true]
  · rw [if_neg fun h => hm (hl.mp h), if_neg hm]
    exact iff_of_true (succeeds_pure _) (takesParts_self _)

/-- The parts of an upload, before it is completed. -/
def uploadParts (store : ObjectStore) (cfg : Config) (upload : PendingUpload) :
    Upload (List CompletedPart) := do
  let (parts, pending) ← uploadFullParts store cfg upload.objectRef upload.uploadId
    upload.pending.length [] upload.pending
  let (parts, pending) ← uploadRest store cfg upload.objectRef upload.uploadId parts pending
    upload.totalSize upload.rest
  uploadLastPart store upload.objectRef upload.uploadId parts pending

theorem finishOffloadUpload_eq (store : ObjectStore) (cfg : Config) (upload : PendingUpload) :
    finishOffloadUpload store cfg upload = .onError (.abort upload.objectRef upload.uploadId)
      (uploadParts store cfg upload >>=
        completeMultipartUpload store upload.objectRef upload.uploadId) := by
  simp [finishOffloadUpload, uploadParts, Effects.bind_assoc]

/-- The stream yields the rest of a body that is not too large, and the object store takes all
its parts. -/
def PartsTaken (store : ObjectStore) (cfg : Config) (size : Nat) (rest : List Chunk) : Prop :=
  ∃ whole : List Bytes, rest = whole.map .ok ∧ cfg.Fits (size + whole.flatten.length) ∧
    store.TakesParts 0 (cfg.partCount (size + whole.flatten.length))

theorem succeeds_uploadParts_iff {upload : PendingUpload}
    (hs : upload.totalSize = upload.pending.length) (hFits : cfg.Fits upload.pending.length) :
    (uploadParts store cfg upload).Succeeds ↔
      PartsTaken store cfg upload.pending.length upload.rest := by
  have hNone : Cut cfg 0 ([], []) := ⟨by simp, by simp⟩
  rw [uploadParts, hs]
  refine ((succeedsIf_uploadChunk hNone upload.pending).succeeds_bind_iff (R := ?_)
    fun next hn => ?_).trans ?_
  rotate_left
  · rw [Nat.zero_add] at hn
    exact succeeds_uploadRest_bind (fun size last hl => succeeds_uploadLastPart_iff hl) hn hFits
  · rw [PartsTaken, ← exists_and_left]
    refine exists_congr fun whole => ?_
    have hSplit := @takesParts_div_split store cfg 0 upload.pending.length whole.flatten.length
    rw [Nat.zero_div, Nat.zero_add] at *
    rw [takesParts_partCount, hSplit]
    tauto

/-- What `finish_offload_upload` needs: the stream yields the rest of a body that is not too
large, and the object store takes all its parts and completes the upload. -/
def UploadSucceeds (store : ObjectStore) (cfg : Config) (size : Nat) (rest : List Chunk) : Prop :=
  PartsTaken store cfg size rest ∧ store.complete = .ok ()

theorem succeeds_finishOffloadUpload_iff {upload : PendingUpload}
    (hs : upload.totalSize = upload.pending.length) (hFits : cfg.Fits upload.pending.length) :
    (finishOffloadUpload store cfg upload).Succeeds ↔
      UploadSucceeds store cfg upload.pending.length upload.rest := by
  have hp := @succeeds_uploadParts_iff store cfg upload hs hFits
  have hComplete : ∀ parts, (completeMultipartUpload store upload.objectRef upload.uploadId
      parts).Succeeds ↔ store.complete = .ok () := fun parts =>
    ⟨fun ⟨_, h⟩ => h, fun h => ⟨(), h⟩⟩
  rw [finishOffloadUpload_eq, Succeeds, result_onError, ← Succeeds,
    succeeds_bind_iff_and hComplete, hp, UploadSucceeds]

/-! ## The beginning of the stream -/

/-- After the given bytes, the stream ends within the inline threshold. -/
def InlinedAfter (cfg : Config) (pending : Bytes) (body : List Chunk) : Prop :=
  ∃ whole : List Bytes, body = whole.map .ok ∧
    (pending ++ whole.flatten).length ≤ cfg.inlineThreshold ∧
      cfg.Fits (pending ++ whole.flatten).length

/-- After the given bytes, the stream exceeds the inline threshold with the last chunk of
`large`, and `rest` follows. -/
def OffloadedAfter (cfg : Config) (pending : Bytes) (body : List Chunk) (large : Bytes)
    (rest : List Chunk) : Prop :=
  ∃ (whole : List Bytes) (last : Bytes), body = whole.map .ok ++ .ok last :: rest ∧
    large = pending ++ whole.flatten ++ last ∧
      (pending ++ whole.flatten).length ≤ cfg.inlineThreshold ∧
        cfg.inlineThreshold < large.length ∧ cfg.Fits large.length

def Inlined (cfg : Config) (body : List Chunk) : Prop :=
  InlinedAfter cfg [] body

def Offloaded (cfg : Config) (body : List Chunk) (large : Bytes) (rest : List Chunk) : Prop :=
  OffloadedAfter cfg [] body large rest

theorem OffloadedAfter.fits (h : OffloadedAfter cfg pending body large rest) :
    cfg.Fits large.length := by
  obtain ⟨_, _, _, _, _, _, hf⟩ := h
  exact hf

/-- What is recorded of a body that stays in the entry of its job. -/
def inlineOutcome (base64 : Bytes → String) (whole : Bytes) : BodyStoreOutcome where
  location := {
    bodyBase64 := base64 whole
    objectRef := ""
    size := whole.length
    storage := "inline" }
  pendingUpload := none

/-- What is recorded of a body that goes to the object store. -/
def objectOutcome (objectRef : String) (large : Bytes) (rest : List Chunk) (uploadId : String) :
    BodyStoreOutcome where
  location := {
    bodyBase64 := ""
    objectRef := objectRef
    size := large.length
    storage := "object" }
  pendingUpload := some {
    objectRef := objectRef
    uploadId := uploadId
    pending := large
    rest := rest
    totalSize := large.length }

def offload (store : ObjectStore) (cfg : Config) (objectRef : String) (large : Bytes)
    (rest : List Chunk) : Upload BodyStoreOutcome :=
  if cfg.objectStoreEndpoint.isNone then .fail cfg.exceedsInlineThreshold
  else do
    let uploadId ← initiateMultipartUpload store objectRef
    pure (objectOutcome objectRef large rest uploadId)

variable {outcome : BodyStoreOutcome}

theorem offload_ok (h : (offload store cfg objectRef large rest).result = .ok outcome) :
    cfg.objectStoreEndpoint.isSome ∧ ∃ uploadId, store.initiate = .ok uploadId ∧
      outcome = objectOutcome objectRef large rest uploadId := by
  unfold offload at h
  split_ifs at h with he
  · cases h
  · rw [result_bind] at h
    obtain ⟨uploadId, hi, h⟩ := exists_of_bind_eq_ok h
    exact ⟨by simpa [Option.isSome_iff_ne_none] using he, uploadId, hi, (ok.inj h).symm⟩

theorem offload_of_isSome (he : cfg.objectStoreEndpoint.isSome) :
    (offload store cfg objectRef large rest).performed = [.initiate objectRef] ∧
      (offload store cfg objectRef large rest).result =
        store.initiate.map (objectOutcome objectRef large rest) := by
  rw [offload, if_neg (by simpa using Option.isSome_iff_ne_none.mp he), performed_bind_pure,
    result_bind]
  refine ⟨rfl, ?_⟩
  show (store.initiate >>= fun uploadId => .ok (objectOutcome objectRef large rest uploadId)) = _
  cases store.initiate <;> rfl

variable {base64 : Bytes → String}

/-- A chunk that is not too large is put to the pending bytes, or it exceeds the threshold. -/
theorem readBody_cons (hf : cfg.Fits (pending ++ chunk).length) :
    readBody store cfg base64 objectRef pending pending.length (.ok chunk :: rest) =
      if cfg.inlineThreshold < (pending ++ chunk).length then
        offload store cfg objectRef (pending ++ chunk) rest
      else
        readBody store cfg base64 objectRef (pending ++ chunk) (pending ++ chunk).length rest := by
  simp only [readBody, ← length_append]
  rw [if_neg (not_le.mpr hf.2), if_neg (not_lt.mpr hf.1)]
  rfl

theorem readBody_of_inlined {whole : List Bytes}
    (hLe : (pending ++ whole.flatten).length ≤ cfg.inlineThreshold)
    (hf : cfg.Fits (pending ++ whole.flatten).length) :
    readBody store cfg base64 objectRef pending pending.length (whole.map .ok) =
      pure (inlineOutcome base64 (pending ++ whole.flatten)) := by
  induction whole generalizing pending with
  | nil =>
    rw [flatten_nil, append_nil]
    rfl
  | cons chunk whole ih =>
    rw [flatten_cons, ← append_assoc] at *
    have hShort : (pending ++ chunk).length ≤ (pending ++ chunk ++ whole.flatten).length := by simp
    rw [map_cons, readBody_cons (hf.mono hShort), if_neg (not_lt.mpr (hShort.trans hLe))]
    exact ih hLe hf

theorem readBody_of_offloaded (h : OffloadedAfter cfg pending body large rest) :
    readBody store cfg base64 objectRef pending pending.length body =
      offload store cfg objectRef large rest := by
  obtain ⟨whole, last, rfl, rfl, hLe, ho, hf⟩ := h
  induction whole generalizing pending with
  | nil =>
    rw [flatten_nil, append_nil] at *
    rw [map_nil, nil_append, readBody_cons hf, if_pos ho]
  | cons chunk whole ih =>
    rw [flatten_cons, ← append_assoc] at *
    have hShort : (pending ++ chunk).length ≤ (pending ++ chunk ++ whole.flatten).length := by simp
    have hLast : (pending ++ chunk).length ≤ (pending ++ chunk ++ whole.flatten ++ last).length :=
      hShort.trans (by simp)
    rw [map_cons, cons_append, readBody_cons (hf.mono hLast),
      if_neg (not_lt.mpr (hShort.trans hLe))]
    exact ih hLe ho hf

theorem readBody_cases (store : ObjectStore) (base64 : Bytes → String) (objectRef : String)
    (body : List Chunk) (hp : pending.length ≤ cfg.inlineThreshold)
    (hf : cfg.Fits pending.length) :
    InlinedAfter cfg pending body ∨ (∃ large rest, OffloadedAfter cfg pending body large rest) ∨
      ∃ e, readBody store cfg base64 objectRef pending pending.length body = .fail e := by
  induction body generalizing pending with
  | nil => exact .inl ⟨[], rfl, by simpa using hp, by simpa using hf⟩
  | cons chunk rest ih =>
    cases chunk with
    | error e => exact .inr (.inr ⟨_, rfl⟩)
    | ok chunk =>
      by_cases hFits : cfg.Fits (pending ++ chunk).length
      · by_cases ho : cfg.inlineThreshold < (pending ++ chunk).length
        · exact .inr (.inl ⟨_, rest, [], chunk, rfl, by simp, by simpa using hp, ho, hFits⟩)
        · rw [readBody_cons hFits, if_neg ho]
          rcases ih (not_lt.mp ho) hFits with
            ⟨whole, rfl, h⟩ | ⟨large, later, whole, last, rfl, h⟩ | h
          · exact .inl ⟨chunk :: whole, rfl, by simpa [append_assoc] using h⟩
          · exact .inr (.inl ⟨large, later, chunk :: whole, last, rfl,
              by simpa [append_assoc] using h⟩)
          · exact .inr (.inr h)
      · refine .inr (.inr ?_)
        simp only [readBody, ← length_append]
        by_cases ho : 2 ^ 64 ≤ (pending ++ chunk).length
        · exact ⟨_, if_pos ho⟩
        · have hMax : cfg.maxBodyBytes < (pending ++ chunk).length := by
            by_contra hMax
            exact hFits ⟨not_lt.mp hMax, not_le.mp ho⟩
          exact ⟨_, by rw [if_neg ho, if_pos hMax]⟩

/-! ## `store_body` -/

section StoreBody

variable (store base64) (jobId : String)

theorem storeBody_of_inlined {whole : List Bytes} (hLe : whole.flatten.length ≤ cfg.inlineThreshold)
    (hf : cfg.Fits whole.flatten.length) :
    storeBody store cfg base64 jobId (whole.map .ok) =
      pure (inlineOutcome base64 whole.flatten) :=
  @readBody_of_inlined _ _ [] _ _ _ hLe hf

theorem storeBody_of_offloaded (h : Offloaded cfg body large rest) :
    storeBody store cfg base64 jobId body =
      offload store cfg (cfg.objectRef jobId) large rest :=
  readBody_of_offloaded h

theorem storeBody_cases (cfg : Config) (body : List Chunk) :
    Inlined cfg body ∨ (∃ large rest, Offloaded cfg body large rest) ∨
      ∃ e, storeBody store cfg base64 jobId body = .fail e :=
  readBody_cases store base64 (cfg.objectRef jobId) body (zero_le _) ⟨zero_le _, Nat.two_pow_pos 64⟩

end StoreBody

end Spacegate.AiGateway.BodyStore
