import Mathlib
import Spacegate.AiGateway.Enqueue

/-!
# Bodies that are read back

`load_body` reads the body of a job where the fields of its entry say that it is.  An object is
what the object store has put together from the parts of a completed upload, in the order of
their numbers.

The bytes come back whatever the chunks were.  The recorded size does not: it is taken when the
upload begins, so what the spawned task reads afterwards is not counted.
-/

namespace Spacegate.AiGateway.BodyStore

open Foundation Effects Enqueue List Nat Except
open Foundation.WriteHistory
open ServiceError
open Queue (fieldString)

/-! ## `load_body` -/

/-- The base64 decoder, and the bytes of a field that is no text. -/
structure BodyReader where
  decode : String → Except String Bytes
  rawBytes : Queue.Value → Option Bytes

def loadBody (reader : BodyReader) (getObject : String → Except ServiceError Bytes)
    (fields : Queue.Fields) : Except ServiceError Bytes :=
  let storage := (fieldString fields "storage").getD "inline"
  if storage = "object" then
    match fieldString fields "ref" with
    | some objectRef => getObject objectRef
    | none => .error (badRequest "job body is missing object ref")
  else
    match fieldString fields "body" with
    | some bodyBase64 =>
      (reader.decode bodyBase64).mapError fun e => badRequest ("decode job body: " ++ e)
    | none => .ok (((fields.lookup "body").bind reader.rawBytes).getD [])

/-! ## The object store -/

/-- The parts that were uploaded, by object, upload and number, and the objects. -/
structure ObjectStoreState where
  parts : List ((String × String × Nat) × Bytes)
  objects : String → Option Bytes

namespace ObjectStoreState

variable (s : ObjectStoreState)

/-- The object of a completed upload. -/
def assemble (objectRef uploadId : String) (parts : List CompletedPart) : Bytes :=
  ((parts.map (·.partNumber)).mergeSort (· ≤ ·)).flatMap fun number =>
    (latest s.parts (objectRef, uploadId, number)).getD []

def serve : ObjectRequest → ObjectStoreState
  | .initiate _ => s
  | .part objectRef uploadId number body =>
    { s with parts := s.parts ++ [((objectRef, uploadId, number), body)] }
  | .complete objectRef uploadId parts =>
    { s with
      objects := Function.update s.objects objectRef (some (s.assemble objectRef uploadId parts)) }
  | .abort objectRef uploadId =>
    { s with parts := s.parts.filter fun part => ¬ (part.1.1 = objectRef ∧ part.1.2.1 = uploadId) }

def serveAll (requests : List ObjectRequest) : ObjectStoreState :=
  requests.foldl serve s

/-- `GET` of an object; `missing` is the error if there is none. -/
def getObject (missing : ServiceError) (objectRef : String) : Except ServiceError Bytes :=
  match s.objects objectRef with
  | some body => .ok body
  | none => .error missing

theorem serveAll_append (requests later : List ObjectRequest) :
    s.serveAll (requests ++ later) = (s.serveAll requests).serveAll later :=
  foldl_append

end ObjectStoreState

/-! ## Parts in order -/

section Parts

variable (objectRef uploadId : String)

/-- The requests for parts with the numbers after `n`. -/
def partRequests : Nat → List Bytes → List ObjectRequest
  | _, [] => []
  | n, body :: bodies => .part objectRef uploadId (n + 1) body :: partRequests (n + 1) bodies

def numbered : Nat → List Bytes → List ((String × String × Nat) × Bytes)
  | _, [] => []
  | n, body :: bodies => ((objectRef, uploadId, n + 1), body) :: numbered (n + 1) bodies

end Parts

variable {objectRef uploadId : String}

theorem partRequests_append (n : Nat) (bodies later : List Bytes) :
    partRequests objectRef uploadId n (bodies ++ later) =
      partRequests objectRef uploadId n bodies ++
        partRequests objectRef uploadId (n + bodies.length) later := by
  induction bodies generalizing n with
  | nil => rfl
  | cons body bodies ih =>
    have hs : n + 1 + bodies.length = n + (body :: bodies).length := by
      rw [length_cons]
      omega
    rw [cons_append, partRequests, partRequests, ih, hs, cons_append]

theorem serveAll_partRequests (s : ObjectStoreState) (n : Nat) (bodies : List Bytes) :
    s.serveAll (partRequests objectRef uploadId n bodies) =
      { s with parts := s.parts ++ numbered objectRef uploadId n bodies } := by
  induction bodies generalizing s n with
  | nil => simp [ObjectStoreState.serveAll, partRequests, numbered]
  | cons body bodies ih =>
    show (s.serve (.part objectRef uploadId (n + 1) body)).serveAll
      (partRequests objectRef uploadId (n + 1) bodies) = _
    rw [ih]
    simp [ObjectStoreState.serve, numbered]

theorem lt_of_mem_numbered {n : Nat} {bodies : List Bytes} {entry : (String × String × Nat) × Bytes}
    (h : entry ∈ numbered objectRef uploadId n bodies) : n < entry.1.2.2 := by
  induction bodies generalizing n with
  | nil => cases h
  | cons body bodies ih =>
    rcases mem_cons.mp h with rfl | h
    · exact lt_succ_self n
    · exact lt_of_succ_lt (ih h)

/-- Whatever was there before, the parts of the numbers are the ones that came last. -/
theorem flatMap_latest_numbered (earlier : List ((String × String × Nat) × Bytes)) (n : Nat)
    (bodies : List Bytes) : ((range' (n + 1) bodies.length).flatMap fun number =>
      (latest (earlier ++ numbered objectRef uploadId n bodies)
        (objectRef, uploadId, number)).getD []) = bodies.flatten := by
  induction bodies generalizing n earlier with
  | nil => rfl
  | cons body bodies ih =>
    have hl : latest (numbered objectRef uploadId (n + 1) bodies)
        (objectRef, uploadId, n + 1) = none := by
      apply latest_eq_none
      intro entry he hKey
      have hLt := lt_of_mem_numbered he
      rw [hKey] at hLt
      exact lt_irrefl _ hLt
    have hf : latest (earlier ++ numbered objectRef uploadId n (body :: bodies))
        (objectRef, uploadId, n + 1) = some body := by
      rw [latest_append, numbered, latest_cons, hl]
      simp
    have hr := ih (earlier ++ [((objectRef, uploadId, n + 1), body)]) (n + 1)
    rw [append_assoc] at hr
    rw [length_cons, range'_succ, flatMap_cons, hf]
    exact congrArg (body ++ ·) hr

/-! ## What an upload performs -/

variable {store : ObjectStore} {cfg : Config}

/-- The requests upload the bodies as the next parts, and these are the first of the bytes; the
other bytes are left. -/
structure Uploads (objectRef uploadId : String) (parts : List CompletedPart) (bytes : Bytes)
    (requests : List ObjectRequest) (cut : List CompletedPart × Bytes) (bodies : List Bytes) :
    Prop where
  requests : requests = partRequests objectRef uploadId parts.length bodies
  numbers : cut.1.map (·.partNumber) =
    parts.map (·.partNumber) ++ range' (parts.length + 1) bodies.length
  bytes : bodies.flatten ++ cut.2 = bytes

namespace Uploads

variable {parts : List CompletedPart} {bytes : Bytes} {requests requests' : List ObjectRequest}
  {cut cut' : List CompletedPart × Bytes} {bodies bodies' : List Bytes}

theorem nothing (parts : List CompletedPart) (pending : Bytes) :
    Uploads objectRef uploadId parts pending [] (parts, pending) [] where
  requests := rfl
  numbers := by simp
  bytes := rfl

variable (h : Uploads objectRef uploadId parts bytes requests cut bodies)
include h

theorem length : cut.1.length = parts.length + bodies.length := by
  have hl := congrArg List.length h.numbers
  simpa using hl

theorem trans {chunk : Bytes}
    (h' : Uploads objectRef uploadId cut.1 (cut.2 ++ chunk) requests' cut' bodies') :
    Uploads objectRef uploadId parts (bytes ++ chunk) (requests ++ requests') cut'
      (bodies ++ bodies') where
  requests := by
    rw [h.requests, h'.requests, h.length, partRequests_append]
  numbers := by
    rw [h'.numbers, h.numbers, h.length, append_assoc, length_append,
      add_right_comm, range'_append_1]
  bytes := by
    rw [← h.bytes, flatten_append, append_assoc, h'.bytes, append_assoc]

theorem andThen (h' : Uploads objectRef uploadId cut.1 cut.2 requests' cut' bodies') :
    Uploads objectRef uploadId parts bytes (requests ++ requests') cut' (bodies ++ bodies') := by
  rw [← append_nil cut.2] at h'
  have hb := h.trans h'
  rwa [append_nil] at hb

omit h

end Uploads

variable {parts : List CompletedPart} {pending : Bytes} {rest chunks : List Bytes}

theorem uploadMultipartPart_uploads {body : Bytes} {part : CompletedPart} (pending : Bytes)
    (h : (uploadMultipartPart store objectRef uploadId (parts.length + 1) body).result = .ok part) :
    Uploads objectRef uploadId parts (body ++ pending)
      (uploadMultipartPart store objectRef uploadId (parts.length + 1) body).performed
      (parts ++ [part], pending) [body] := by
  obtain ⟨etag, -, rfl⟩ := exists_of_map_eq_ok h
  refine ⟨rfl, ?_, ?_⟩
  · simp
  · simp

variable {cut : List CompletedPart × Bytes}

theorem uploadFullParts_uploads {fuel : Nat}
    (h : (uploadFullParts store cfg objectRef uploadId fuel parts pending).result = .ok cut) :
    ∃ bodies, Uploads objectRef uploadId parts pending
      (uploadFullParts store cfg objectRef uploadId fuel parts pending).performed cut bodies := by
  induction fuel generalizing parts pending with
  | zero =>
    cases ok.inj h
    exact ⟨[], .nothing parts pending⟩
  | succ fuel ih =>
    unfold uploadFullParts at h ⊢
    split_ifs at h ⊢ with hFull
    · rw [result_bind] at h
      obtain ⟨part, hp, h⟩ := exists_of_bind_eq_ok h
      obtain ⟨bodies, hb⟩ := ih h
      have hf := (uploadMultipartPart_uploads (pending.drop cfg.partSize) hp).andThen hb
      rw [take_append_drop] at hf
      rw [bind_of_ok hp]
      exact ⟨_, hf⟩
    · cases ok.inj h
      exact ⟨[], .nothing parts pending⟩

theorem uploadRest_uploads {n : Nat}
    (h : (uploadRest store cfg objectRef uploadId parts pending n (rest.map .ok)).result =
      .ok cut) : ∃ bodies, Uploads objectRef uploadId parts (pending ++ rest.flatten)
      (uploadRest store cfg objectRef uploadId parts pending n (rest.map .ok)).performed cut
      bodies := by
  induction rest generalizing parts pending n with
  | nil =>
    cases ok.inj h
    rw [flatten_nil, append_nil]
    exact ⟨[], .nothing parts pending⟩
  | cons chunk rest ih =>
    simp only [map_cons, uploadRest] at h ⊢
    split_ifs at h ⊢ with ho hMax
    · cases h
    · cases h
    · rw [result_bind] at h
      obtain ⟨next, hn, h⟩ := exists_of_bind_eq_ok h
      obtain ⟨bodies, hb⟩ := uploadFullParts_uploads hn
      obtain ⟨bodies', hb'⟩ := ih h
      rw [bind_of_ok hn, flatten_cons, ← append_assoc]
      exact ⟨_, hb.trans hb'⟩

theorem uploadLastPart_uploads {parts' : List CompletedPart}
    (h : (uploadLastPart store objectRef uploadId parts pending).result = .ok parts') :
    ∃ bodies, Uploads objectRef uploadId parts pending
      (uploadLastPart store objectRef uploadId parts pending).performed (parts', []) bodies := by
  unfold uploadLastPart at h ⊢
  split_ifs at h ⊢ with hm
  · rw [result_bind] at h
    obtain ⟨part, hp, h⟩ := exists_of_bind_eq_ok h
    cases ok.inj h
    have hl := uploadMultipartPart_uploads [] hp
    rw [append_nil] at hl
    rw [performed_bind_pure]
    exact ⟨_, hl⟩
  · -- every byte is in a full part
    cases ok.inj h
    obtain rfl : pending = [] := by
      cases pending with
      | nil => rfl
      | cons byte pending => exact absurd rfl hm
    exact ⟨[], .nothing parts []⟩

/-- The parts, and then the request that puts them together. -/
theorem finishOffloadUpload_ok {upload : PendingUpload} (hr : upload.rest = rest.map .ok)
    (h : (finishOffloadUpload store cfg upload).result = .ok ()) :
    ∃ bodies parts, (finishOffloadUpload store cfg upload).performed =
        partRequests upload.objectRef upload.uploadId 0 bodies ++
          [.complete upload.objectRef upload.uploadId parts] ∧
      parts.map (·.partNumber) = range' 1 bodies.length ∧
        bodies.flatten = upload.pending ++ rest.flatten := by
  unfold finishOffloadUpload at h ⊢
  rw [hr] at h ⊢
  rw [result_onError] at h
  rw [performed_onError_of_ok h]
  simp only [result_bind] at h
  obtain ⟨cut, hf, h⟩ := exists_of_bind_eq_ok h
  obtain ⟨cut', hl, h⟩ := exists_of_bind_eq_ok h
  obtain ⟨parts, hLast, -⟩ := exists_of_bind_eq_ok h
  obtain ⟨bodies, hb⟩ := uploadFullParts_uploads hf
  obtain ⟨bodies', hb'⟩ := uploadRest_uploads hl
  obtain ⟨last, hBody⟩ := uploadLastPart_uploads hLast
  have hAll := (hb.trans hb').andThen hBody
  refine ⟨_, parts, ?_, hAll.numbers, ?_⟩
  · rw [bind_of_ok hf, bind_of_ok hl, bind_of_ok hLast,
      ← append_assoc, ← append_assoc, hAll.requests]
    rfl
  · rw [← hAll.bytes, append_nil]

theorem objects_serveAll_finishOffloadUpload {upload : PendingUpload}
    (hr : upload.rest = rest.map .ok)
    (h : (finishOffloadUpload store cfg upload).result = .ok ()) (s : ObjectStoreState) :
    (s.serveAll (finishOffloadUpload store cfg upload).performed).objects upload.objectRef =
      some (upload.pending ++ rest.flatten) := by
  obtain ⟨bodies, parts, hp, hn, hb⟩ := finishOffloadUpload_ok hr h
  have hs : (range' 1 bodies.length).mergeSort (· ≤ ·) = range' 1 bodies.length := by
    apply mergeSort_of_pairwise
    simpa using (pairwise_lt_range' (s := 1) (n := bodies.length)).imp le_of_lt
  rw [hp, ObjectStoreState.serveAll_append, serveAll_partRequests]
  show Function.update _ _ _ _ = _
  rw [Function.update_self, ObjectStoreState.assemble, hn, hs, flatMap_latest_numbered, hb]

variable {base64 : Bytes → String}

/-! ## The round trip -/

/-- The task that `store_body` has spawned, if it has. -/
def awaitUpload (store : ObjectStore) (cfg : Config) : Option PendingUpload → Upload Unit
  | some upload => finishOffloadUpload store cfg upload
  | none => pure ()

def storeWhole (store : ObjectStore) (cfg : Config) (base64 : Bytes → String) (jobId : String)
    (body : List Chunk) : Upload BodyLocation := do
  let outcome ← storeBody store cfg base64 jobId body
  awaitUpload store cfg outcome.pendingUpload
  return outcome.location

/-- What is recorded of the body in the entry of its job leads back to it. -/
structure RoundTrip (cfg : Config) (reader : BodyReader)
    (getObject : String → Except ServiceError Bytes) (fields : Queue.Fields)
    (location : BodyLocation) (whole : Bytes) : Prop where
  load : loadBody reader getObject fields = .ok whole
  size : fieldString fields "size" = some (toString whole.length)
  /-- Where the body is does not depend on its chunks. -/
  storage : location.storage = if whole.length ≤ cfg.inlineThreshold then "inline" else "object"

/-- Nothing follows the chunk with which the body exceeds the threshold, and the size is not
negative `as i64`. -/
structure KnownWhenOffloaded (cfg : Config) (chunks : List Bytes) : Prop where
  ends : ∀ before after, chunks = before ++ after →
    cfg.inlineThreshold < before.flatten.length → after.flatten = []
  small : chunks.flatten.length < 2 ^ 63

/-- Where a body that was stored is, by its length and, if it is an object, by the chunk with
which it exceeds the threshold. -/
inductive Kept (cfg : Config) (base64 : Bytes → String) (objectRef : String)
    (requests : List ObjectRequest) (chunks : List Bytes) : BodyLocation → Prop where
  | inlined (hLe : chunks.flatten.length ≤ cfg.inlineThreshold)
      (hFits : cfg.Fits chunks.flatten.length) :
      Kept cfg base64 objectRef requests chunks {
        bodyBase64 := base64 chunks.flatten
        objectRef := ""
        size := chunks.flatten.length
        storage := "inline" }
  | offloaded (whole : List Bytes) (last : Bytes) (rest : List Bytes)
      (hChunks : chunks = whole ++ last :: rest)
      (hWhole : whole.flatten.length ≤ cfg.inlineThreshold)
      (hOver : cfg.inlineThreshold < (whole.flatten ++ last).length)
      (hFits : cfg.Fits (whole.flatten ++ last).length)
      (hObject : ∀ s : ObjectStoreState,
        (s.serveAll requests).objects objectRef = some chunks.flatten) :
      Kept cfg base64 objectRef requests chunks {
        bodyBase64 := ""
        objectRef := objectRef
        size := (whole.flatten ++ last).length
        storage := "object" }

theorem storeWhole_kept {jobId : String} {location : BodyLocation}
    (h : (storeWhole store cfg base64 jobId (chunks.map .ok)).result = .ok location) :
    Kept cfg base64 (cfg.objectRef jobId)
      (storeWhole store cfg base64 jobId (chunks.map .ok)).performed chunks location := by
  unfold storeWhole at h ⊢
  rw [result_bind] at h
  obtain ⟨outcome, ho, ht⟩ := exists_of_bind_eq_ok h
  rw [result_bind] at ht
  obtain ⟨_, ha, hLocated⟩ := exists_of_bind_eq_ok ht
  cases ok.inj hLocated
  rw [bind_of_ok ho, performed_bind_pure]
  rcases storeBody_cases store base64 jobId cfg (chunks.map .ok) with
    ⟨whole, hw, hLe, hf⟩ | ⟨large, later, hb⟩ | ⟨e, he⟩
  · obtain rfl : chunks = whole := map_injective_iff.mpr (fun _ _ => ok.inj) hw
    rw [storeBody_of_inlined _ _ _ hLe hf] at ho
    cases ok.inj ho
    exact .inlined hLe hf
  · rw [storeBody_of_offloaded _ _ _ hb] at ho ⊢
    obtain ⟨he, uploadId, -, rfl⟩ := offload_ok ho
    obtain ⟨whole, last, hc, rfl, hw, hOver, hf⟩ := hb
    -- the stream yielded chunks only, also after the last one that was read here
    obtain ⟨whole', later', rfl, hw', hLater⟩ := map_eq_append_iff.mp hc
    obtain ⟨last', rest, rfl, hLast, rfl⟩ := map_eq_cons_iff.mp hLater
    obtain rfl : whole' = whole := map_injective_iff.mpr (fun _ _ => ok.inj) hw'
    cases ok.inj hLast
    refine .offloaded whole' last rest rfl hw hOver hf ?_
    intro s
    rw [(offload_of_isSome he).1, flatten_append, flatten_cons, ← append_assoc]
    exact objects_serveAll_finishOffloadUpload rfl ha s
  · rw [he] at ho
    cases ho

theorem toString_asI64_eq_iff {n m : Nat} (h : n < 2 ^ 64) :
    toString (asI64 n) = toString m ↔ n = m ∧ m < 2 ^ 63 := by
  have ht : toString (asI64 n) = toString m ↔ asI64 n = (m : Int) := by
    constructor
    · intro hEq
      exact Int.repr_injective hEq
    · intro hEq
      rw [hEq]
      rfl
  rw [ht, asI64]
  split_ifs with hs
  · omega
  · omega

/-- The chunk with which the threshold is exceeded is the only one. -/
theorem ends_iff {whole : List Bytes} {last : Bytes}
    (hw : whole.flatten.length ≤ cfg.inlineThreshold)
    (ho : cfg.inlineThreshold < (whole.flatten ++ last).length) :
    (∀ before after, whole ++ last :: rest = before ++ after →
      cfg.inlineThreshold < before.flatten.length → after.flatten = []) ↔ rest.flatten = [] := by
  constructor
  · intro h
    refine h (whole ++ [last]) rest (by simp) ?_
    simpa using ho
  · intro hr before after hs hb
    rcases append_eq_append_iff.mp hs with ⟨more, rfl, hm⟩ | ⟨more, rfl, rfl⟩
    · cases more with
      | nil =>
        rw [append_nil] at hb
        omega
      | cons first more =>
        -- what comes after is part of the rest
        have hr' : rest = more ++ after := (cons.inj hm).2
        rw [hr', flatten_append] at hr
        exact (append_eq_nil_iff.mp hr).2
    · rw [flatten_append, length_append] at hw
      omega

section RoundTrip

variable {env : Enqueue.Surroundings} {request : Enqueue.Request} {job : Enqueue.Job}
  {priority : Enqueue.QueuePriority} {reader : BodyReader} {s : ObjectStoreState}
  {missing : ServiceError} {chunks : List Bytes} {location : BodyLocation}

theorem fieldString_size_iff (h : location.size < 2 ^ 64) (n : Nat) :
    fieldString (entryFields env request job priority location) "size" =
      some (toString n) ↔ location.size = n ∧ n < 2 ^ 63 := by
  rw [← toString_asI64_eq_iff h]
  exact Option.some_inj

variable {requests : List ObjectRequest}

theorem Kept.loadBody (h : Kept cfg env.base64 (cfg.objectRef env.jobId) requests chunks location)
    (hd : reader.decode (env.base64 chunks.flatten) = .ok chunks.flatten) :
    loadBody reader ((s.serveAll requests).getObject missing)
      (entryFields env request job priority location) = .ok chunks.flatten := by
  cases h with
  | inlined hLe hf =>
    show (reader.decode (env.base64 chunks.flatten)).mapError _ = _
    rw [hd]
    rfl
  | offloaded whole last rest hc hw hOver hf ho =>
    show (s.serveAll requests).getObject missing (cfg.objectRef env.jobId) = _
    rw [ObjectStoreState.getObject, ho s]

variable (h : Kept cfg base64 objectRef requests chunks location)
include h

theorem Kept.storage : location.storage =
      if chunks.flatten.length ≤ cfg.inlineThreshold then "inline" else "object" := by
  cases h with
  | inlined hLe hf => exact (if_pos hLe).symm
  | offloaded whole last rest hc hw hOver hf ho =>
    have hm : cfg.inlineThreshold < chunks.flatten.length := by
      rw [hc, flatten_append, flatten_cons, ← append_assoc, length_append]
      omega
    exact (if_neg (not_le.mpr hm)).symm

/-- The size is the right one just if the whole body was known when it was recorded. -/
theorem Kept.size_iff :
    fieldString (entryFields env request job priority location) "size" =
      some (toString chunks.flatten.length) ↔ KnownWhenOffloaded cfg chunks := by
  cases h with
  | inlined hLe hf =>
    rw [fieldString_size_iff hf.2]
    constructor
    · rintro ⟨-, hs⟩
      refine ⟨?_, hs⟩
      rintro before after rfl hb
      rw [flatten_append, length_append] at hLe
      omega
    · intro hk
      exact ⟨rfl, hk.small⟩
  | offloaded whole last rest hc hw ho hf hObject =>
    have hl : chunks.flatten.length = (whole.flatten ++ last).length + rest.flatten.length := by
      rw [hc, flatten_append, flatten_cons, ← append_assoc, length_append]
    have he : (∀ before after, chunks = before ++ after →
        cfg.inlineThreshold < before.flatten.length → after.flatten = []) ↔ rest.flatten = [] := by
      rw [hc]
      exact ends_iff hw ho
    rw [fieldString_size_iff hf.2]
    constructor
    · rintro ⟨hSize, hs⟩
      refine ⟨he.mpr (eq_nil_of_length_eq_zero ?_), hs⟩
      simp only at hSize
      omega
    · intro hk
      have hr := congrArg length (he.mp hk.ends)
      refine ⟨?_, hk.small⟩
      rw [hl, hr, length_nil, add_zero]

omit h

/-- A body that was stored is read back, from a place that depends on its length only.  The
size that is recorded is not always its own. -/
theorem roundTrip_iff_knownWhenOffloaded (hBody : request.body = chunks.map .ok)
    (hStored : (storeWhole env.objectStore cfg env.base64 env.jobId request.body).result =
      .ok location)
    (hDecode : reader.decode (env.base64 chunks.flatten) = .ok chunks.flatten) :
    RoundTrip cfg reader
        ((s.serveAll (storeWhole env.objectStore cfg env.base64 env.jobId
          request.body).performed).getObject missing)
        (Enqueue.entryFields env request job priority location) location chunks.flatten ↔
      KnownWhenOffloaded cfg chunks := by
  rw [hBody] at hStored ⊢
  have hk := storeWhole_kept hStored
  constructor
  · intro h
    exact hk.size_iff.mp h.size
  · intro h
    exact ⟨hk.loadBody hDecode, hk.size_iff.mpr h, hk.storage⟩

end RoundTrip

/-! ### A body that goes to the object store -/

def oneByteInline : Config where
  objectStorePrefix := "jobs"
  objectStoreEndpoint := some "http://objects"
  objectMultipartPartSize := 0
  maxBodyBytes := 10
  inlineThreshold := 1

def takesAll : ObjectStore where
  initiate := .ok "upload"
  part _ := .ok "etag"
  complete := .ok ()

def alphabet : List Char :=
  "ABCDEFGHIJKLMNOPQRSTUVWXYZabcdefghijklmnopqrstuvwxyz0123456789+/".toList

/-- The first digits of a group of three bytes. -/
def digits (count : Nat) (a b c : UInt8) : List Char :=
  let group := (a.toNat * 256 + b.toNat) * 256 + c.toNat
  ([group / 64 ^ 3, group / 64 ^ 2 % 64, group / 64 % 64, group % 64].take count).map
    fun digit => alphabet.getD digit '='

/-- `STANDARD.encode`. -/
def encode : Bytes → List Char
  | [] => []
  | [a] => digits 2 a 0 0 ++ ['=', '=']
  | [a, b] => digits 3 a b 0 ++ ['=']
  | a :: b :: c :: rest => digits 4 a b c ++ encode rest

/-- The first bytes of a group of four digits. -/
def bytesOf (count : Nat) (a b c d : Char) : Bytes :=
  let group := [a, b, c, d].foldl (fun n digit => n * 64 + alphabet.idxOf digit) 0
  ([group / 256 ^ 2, group / 256 % 256, group % 256].take count).map UInt8.ofNat

/-- `STANDARD.decode`, of texts that were encoded. -/
def decode : List Char → Bytes
  | [a, b, '=', '='] => bytesOf 1 a b 'A' 'A'
  | [a, b, c, '='] => bytesOf 2 a b c 'A'
  | a :: b :: c :: d :: rest => bytesOf 3 a b c d ++ decode rest
  | _ => []

def plainSurroundings : Enqueue.Surroundings :=
  { withStore takesAll with base64 := fun body => String.ofList (encode body), order := [] }

def requestWith (chunks : List Bytes) : Enqueue.Request where
  policy := .wait
  headers := []
  path := "/"
  body := chunks.map .ok

def plainJob : Enqueue.Job where
  tenantId := "acme"
  model := "default"
  callbackUrl := ""
  method := "POST"
  path := "/"
  headers := ""

/-- What is recorded of a body that exceeds the threshold with its second byte. -/
def twoBytes : BodyLocation where
  bodyBase64 := ""
  objectRef := "jobs/job/body.bin"
  size := 2
  storage := "object"

def plainReader : BodyReader where
  decode text := .ok (decode text.toList)
  rawBytes _ := none

def emptyStore : ObjectStoreState where
  parts := []
  objects _ := none

def notFound : ServiceError where
  status := 404
  message := "not found"

/-- The theorem applies to a body in two chunks. -/
theorem twoChunks_roundTrip :
    RoundTrip oneByteInline plainReader
      ((emptyStore.serveAll (storeWhole plainSurroundings.objectStore oneByteInline
        plainSurroundings.base64 plainSurroundings.jobId
          (requestWith [[1], [2]]).body).performed).getObject notFound)
      (Enqueue.entryFields plainSurroundings (requestWith [[1], [2]]) plainJob .normal twoBytes)
      twoBytes [1, 2] := by
  have hk : KnownWhenOffloaded oneByteInline [[1], [2]] := by
    refine ⟨?_, by decide⟩
    rintro (_ | ⟨first, _ | ⟨second, before⟩⟩) after hs hb
    · cases hb
    · cases (cons.inj hs).1
      exact absurd hb (by decide)
    · have ha := (cons.inj (cons.inj hs).2).2
      rw [(append_eq_nil_iff.mp ha.symm).2]
      rfl
  exact (roundTrip_iff_knownWhenOffloaded rfl rfl rfl).mpr hk

/-- The third byte is stored and read back, but not counted. -/
theorem laterChunk_not_counted :
    (storeWhole takesAll oneByteInline plainSurroundings.base64 "job"
        [.ok [1, 2], .ok [3]]).result = .ok twoBytes ∧
      ¬ RoundTrip oneByteInline plainReader
        ((emptyStore.serveAll (storeWhole takesAll oneByteInline plainSurroundings.base64 "job"
          [.ok [1, 2], .ok [3]]).performed).getObject notFound)
        (Enqueue.entryFields plainSurroundings (requestWith [[1, 2], [3]]) plainJob .normal
          twoBytes)
        twoBytes [1, 2, 3] := by
  refine ⟨rfl, ?_⟩
  intro h
  have hs : some "2" = some "3" := h.size
  exact absurd hs (by decide)

end Spacegate.AiGateway.BodyStore
