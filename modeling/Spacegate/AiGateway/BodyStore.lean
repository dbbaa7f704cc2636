import Spacegate.AiGateway.Queue
import Spacegate.Foundation.Effects
import Spacegate.Foundation.Text

/-!
# Bodies of jobs

`store_body` reads the chunks of a request body.  A small body goes into the job's entry; as
soon as one is larger than the threshold, a multipart upload is begun, and the rest is read
and uploaded by a task of its own, `finish_offload_upload`.

Every request to the object store may fail.  The header that authorizes it is the same for
all of them, so that an invalid one shows as a failure of the first.
-/

namespace Spacegate.AiGateway

structure ServiceError where
  status : Nat
  message : String
  deriving DecidableEq, Repr

namespace ServiceError

variable (message : String)

def badRequest : ServiceError where
  status := 400
  message := message

def internal : ServiceError where
  status := 500
  message := message

def payloadTooLarge : ServiceError where
  status := 413
  message := message

end ServiceError

namespace BodyStore

open Foundation
open ServiceError

abbrev Bytes := List UInt8

/-- What the body stream yields. -/
abbrev Chunk := Except String Bytes

structure Config where
  objectStorePrefix : String
  objectStoreEndpoint : Option String
  objectMultipartPartSize : Nat
  maxBodyBytes : Nat
  inlineThreshold : Nat

def Config.partSize (cfg : Config) : Nat :=
  max cfg.objectMultipartPartSize (5 * 1024 * 1024)

structure CompletedPart where
  partNumber : Nat
  etag : String
  deriving DecidableEq, Repr

inductive ObjectRequest where
  | initiate (objectRef : String)
  | part (objectRef uploadId : String) (partNumber : Nat) (body : Bytes)
  | complete (objectRef uploadId : String) (parts : List CompletedPart)
  | abort (objectRef uploadId : String)
  deriving DecidableEq, Repr

/-- How the object store answers the requests for one object: with the id of the upload, and
with the tags of the parts.  Whether an upload could be aborted is only logged. -/
structure ObjectStore where
  initiate : Except ServiceError String
  part : Nat → Except ServiceError String
  complete : Except ServiceError Unit

abbrev Upload := Effects ObjectRequest ServiceError

structure BodyLocation where
  bodyBase64 : String
  objectRef : String
  size : Nat
  storage : String
  deriving DecidableEq, Repr

/-- What the spawned task works with. -/
structure PendingUpload where
  objectRef : String
  uploadId : String
  pending : Bytes
  rest : List Chunk
  totalSize : Nat

structure BodyStoreOutcome where
  location : BodyLocation
  pendingUpload : Option PendingUpload

/-! ## Requests -/

variable (store : ObjectStore)

def initiateMultipartUpload (objectRef : String) : Upload String :=
  .perform (.initiate objectRef) store.initiate

def uploadMultipartPart (objectRef uploadId : String) (partNumber : Nat) (body : Bytes) :
    Upload CompletedPart :=
  .perform (.part objectRef uploadId partNumber body) ((store.part partNumber).map fun etag =>
    { partNumber := partNumber, etag := etag })

def completeMultipartUpload (objectRef uploadId : String) (parts : List CompletedPart) :
    Upload Unit :=
  .perform (.complete objectRef uploadId parts) store.complete

def abortUpload (objectRef uploadId : String) : Upload Unit :=
  .perform (.abort objectRef uploadId) (.ok ())

/-! ## Reading the body -/

variable (cfg : Config)

def readError (error : String) : ServiceError :=
  badRequest ("read request body: " ++ error)

def sizeOverflow : ServiceError :=
  payloadTooLarge "request body is too large"

def Config.exceedsMaxSize (cfg : Config) : ServiceError :=
  payloadTooLarge ("request body exceeds max size " ++ toString cfg.maxBodyBytes)

def Config.exceedsInlineThreshold (cfg : Config) : ServiceError :=
  payloadTooLarge ("request body exceeds inline threshold " ++ toString cfg.inlineThreshold ++
    " and object store is not configured")

/-- The loop of `store_body`. -/
def readBody (base64 : Bytes → String) (objectRef : String) :
    Bytes → Nat → List Chunk → Upload BodyStoreOutcome
  | pending, totalSize, [] =>
    pure {
      location := {
        bodyBase64 := base64 pending
        objectRef := ""
        size := totalSize
        storage := "inline" }
      pendingUpload := none }
  | _, _, .error e :: _ => .fail (readError e)
  | pending, totalSize, .ok chunk :: rest =>
    let size := totalSize + chunk.length
    -- `checked_add`
    if 2 ^ 64 ≤ size then .fail sizeOverflow
    else if cfg.maxBodyBytes < size then .fail cfg.exceedsMaxSize
    else if cfg.inlineThreshold < pending.length + chunk.length then
      if cfg.objectStoreEndpoint.isNone then .fail cfg.exceedsInlineThreshold
      else do
        let uploadId ← initiateMultipartUpload store objectRef
        pure {
          location := {
            bodyBase64 := ""
            objectRef := objectRef
            size := size
            storage := "object" }
          pendingUpload := some {
            objectRef := objectRef
            uploadId := uploadId
            pending := pending ++ chunk
            rest := rest
            totalSize := size } }
    else readBody base64 objectRef (pending ++ chunk) size rest

def Config.objectRef (cfg : Config) (jobId : String) : String :=
  Text.trimMatches '/' cfg.objectStorePrefix ++ "/" ++ Queue.sanitizeKey jobId ++ "/body.bin"

def storeBody (base64 : Bytes → String) (jobId : String) (body : List Chunk) :
    Upload BodyStoreOutcome :=
  readBody store cfg base64 (cfg.objectRef jobId) [] 0 body

/-! ## Uploading the rest -/

/-- `while pending.len() >= part_size`, with a bound on the number of parts. -/
def uploadFullParts (objectRef uploadId : String) :
    Nat → List CompletedPart → Bytes → Upload (List CompletedPart × Bytes)
  | 0, parts, pending => pure (parts, pending)
  | fuel + 1, parts, pending =>
    if cfg.partSize ≤ pending.length then do
      let part ← uploadMultipartPart store objectRef uploadId (parts.length + 1)
        (pending.take cfg.partSize)
      uploadFullParts objectRef uploadId fuel (parts ++ [part]) (pending.drop cfg.partSize)
    else pure (parts, pending)

/-- The loop over the rest of the stream. -/
def uploadRest (objectRef uploadId : String) :
    List CompletedPart → Bytes → Nat → List Chunk → Upload (List CompletedPart × Bytes)
  | parts, pending, _, [] => pure (parts, pending)
  | _, _, _, .error e :: _ => .fail (readError e)
  | parts, pending, totalSize, .ok chunk :: rest =>
    let size := totalSize + chunk.length
    if 2 ^ 64 ≤ size then .fail sizeOverflow
    else if cfg.maxBodyBytes < size then do
      abortUpload objectRef uploadId
      .fail cfg.exceedsMaxSize
    else do
      let (parts, pending) ← uploadFullParts store cfg objectRef uploadId
        (pending ++ chunk).length parts (pending ++ chunk)
      uploadRest objectRef uploadId parts pending size rest

def uploadLastPart (objectRef uploadId : String) (parts : List CompletedPart) (pending : Bytes) :
    Upload (List CompletedPart) :=
  if !pending.isEmpty || parts.isEmpty then do
    let part ← uploadMultipartPart store objectRef uploadId (parts.length + 1) pending
    pure (parts ++ [part])
  else pure parts

def finishOffloadUpload (upload : PendingUpload) : Upload Unit :=
  .onError (.abort upload.objectRef upload.uploadId) do
    let (parts, pending) ← uploadFullParts store cfg upload.objectRef upload.uploadId
      upload.pending.length [] upload.pending
    let (parts, pending) ← uploadRest store cfg upload.objectRef upload.uploadId parts pending
      upload.totalSize upload.rest
    let parts ← uploadLastPart store upload.objectRef upload.uploadId parts pending
    completeMultipartUpload store upload.objectRef upload.uploadId parts

end BodyStore
end Spacegate.AiGateway
