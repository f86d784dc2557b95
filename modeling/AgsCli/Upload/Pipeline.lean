import AgsCli.Library.Chunks
import AgsCli.Library.Runs
import Mathlib.Algebra.Order.Ring.Int

/-! # Image upload

`run_upload_with_chunk_size` from `create_image` on. Part tasks, the loop that joins them and the
answers of the two services interleave freely; aborted tasks may still take steps. Every request
sent is logged. -/
namespace ImageUpload

inductive UploadError
  | apiCallFailed (operation reason : String)
  | partUploadFailed (partNumber : Nat) (reason : String)
  | missingETag (partNumber : Nat)
  | orphanedImage (imageName imageId : String) (source : UploadError)
  deriving DecidableEq

structure Upload where
  imageName : String
  archive : List UInt8
  chunkBytes : Nat
  partConcurrency : Nat
  archive_lt : archive.length < 2 ^ 64
  chunk_pos : 0 < chunkBytes

def partCount (archiveBytes chunkBytes : Nat) : Nat :=
  if archiveBytes ≤ chunkBytes then 1 else Chunks.count archiveBytes chunkBytes

structure FileRange where
  offset : Nat
  length : Nat
  deriving DecidableEq

/-- 64-bit products and differences, nothing when they leave the range. -/
def u64Mul? (a b : Nat) : Option Nat := if a * b < 2 ^ 64 then some (a * b) else none
def u64Sub? (a b : Nat) : Option Nat := if b ≤ a then some (a - b) else none

namespace Upload

variable (u : Upload)

def archiveBytes : Nat := u.archive.length

def parts : Nat := partCount u.archiveBytes u.chunkBytes

def wholeRange : FileRange := ⟨0, u.archiveBytes⟩

def partRange? (index : Nat) : Option FileRange := do
  let offset ← u64Mul? index u.chunkBytes
  let rest ← u64Sub? u.archiveBytes offset
  some ⟨offset, min u.chunkBytes rest⟩

def range? (index : Nat) : Option FileRange :=
  if 1 < u.parts then u.partRange? index else some u.wholeRange

/-- `upload_body`: the bytes a range is sent as. -/
def uploadBody (range : FileRange) : List UInt8 := (u.archive.drop range.offset).take range.length

def orphan (imageId : String) (error : UploadError) : UploadError :=
  .orphanedImage u.imageName imageId error

end Upload

/-- What one PUT comes to; an unreadable file is never sent. -/
inductive PutAnswer
  | unreadable (reason : String)
  | timedOut (reason : String)
  | failed (reason : String)
  | answered (status : Nat) (etag detail : Option String)
  deriving DecidableEq

inductive PutOutcome
  | retry
  | unauthorized (status : Nat)
  | failed (reason : String)
  | stored (etag : Option String)
  deriving DecidableEq

/-- Milliseconds. -/
def uploadMaxRetryElapsed : Nat := 120000
def uploadRetryBaseDelay : Nat := 500

def nextRetryDelay (attempt elapsed : Nat) : Option Nat :=
  if uploadMaxRetryElapsed ≤ elapsed then none
  else some (min (uploadRetryBaseDelay * 2 ^ min attempt 6) (uploadMaxRetryElapsed - elapsed))

def rejectedText (status : Nat) : String :=
  s!"The storage service rejected the upload (HTTP {status})"

def uploadStatusError (status : Nat) (detail : Option String) : String :=
  match detail with
  | some detail => s!"{rejectedText status}: {detail}"
  | none => rejectedText status

def isSuccess (status : Nat) : Bool := 200 ≤ status && status < 300
def isServerError (status : Nat) : Bool := 500 ≤ status && status < 600

def putOutcome (attempt elapsed : Nat) : PutAnswer → PutOutcome
  | .unreadable reason => .failed reason
  | .timedOut reason =>
    if (nextRetryDelay attempt elapsed).isSome then .retry else .failed reason
  | .failed reason => .failed reason
  | .answered status etag detail =>
    if isServerError status && (nextRetryDelay attempt elapsed).isSome then .retry
    else if status = 401 || status = 403 then .unauthorized status
    else if isSuccess status then .stored etag
    else .failed (uploadStatusError status detail)

/-- Where `upload_part`, or `upload_whole` as its only part, is. -/
inductive Transfer
  | presigning (resigned : Bool)
  | putting (resigned : Bool) (attempt : Nat)
  | done (result : Except UploadError String)

inductive Task
  | queued
  | running (transfer : Transfer)
  | joined

def Transfer.afterPresign (resigned : Bool) : Except UploadError Unit → Transfer
  | .error e => .done (.error e)
  | .ok () => .putting resigned 0

/-- A part needs an ETag; a whole archive does not. -/
def Transfer.afterPut (whole : Bool) (partNumber : Nat) (resigned : Bool) (attempt : Nat) :
    PutOutcome → Transfer
  | .retry => .putting resigned (attempt + 1)
  | .unauthorized status =>
    if resigned then .done (.error (.partUploadFailed partNumber (rejectedText status)))
    else .presigning true
  | .failed reason => .done (.error (.partUploadFailed partNumber reason))
  | .stored (some etag) => .done (.ok etag)
  | .stored none => if whole then .done (.ok "") else .done (.error (.missingETag partNumber))

inductive Sent
  | createImage (answer : Except UploadError String)
  | initiateMultipart
  | presign (index : Nat)
  | put (index : Nat) (body : List UInt8) (answer : PutAnswer)
  | finalizeMultipart (parts : List String)
  | complete

inductive Phase
  | creating
  | initiating (imageId : String)
  | joining (imageId : String)
  | single (imageId : String)
  | completing (imageId : String)
  | returned (result : Except UploadError String)
  | overflowed

structure State where
  phase : Phase
  tasks : List Task
  etags : List (Option String)
  log : List Sent

def State.init : State := ⟨.creating, [], [], []⟩

namespace State

variable (s : State)

def sends (sent : Sent) : State := { s with log := s.log ++ [sent] }

def goto (phase : Phase) : State := { s with phase }

def fails (u : Upload) (imageId : String) (error : UploadError) : State :=
  s.goto (.returned (.error (u.orphan imageId error)))

def setTask (i : Nat) (task : Task) : State := { s with tasks := s.tasks.set i task }

end State

def Task.holdsPermit : Task → Bool
  | .running (.done _) => false
  | .running _ => true
  | _ => false

def Task.isJoined : Task → Bool
  | .joined => true
  | _ => false

/-- The `etags` vector as a list, the first missing one named. -/
def orderedEtags : Nat → List (Option String) → Except UploadError (List String)
  | _, [] => .ok []
  | index, none :: _ => .error (.missingETag (index + 1))
  | index, some etag :: rest =>
    match orderedEtags (index + 1) rest with
    | .error e => .error e
    | .ok others => .ok (etag :: others)

inductive Event
  | created (answer : Except UploadError String)
  | initiated (answer : Except UploadError Unit)
  | acquired (i : Nat)
  | presigned (i : Nat) (answer : Except UploadError Unit)
  | put (i elapsed : Nat) (answer : PutAnswer)
  | crashed (i : Nat) (reason : String)
  | joins (i : Nat)
  | finalized (answer : Except UploadError Unit)
  | completed (answer : Except UploadError Unit)

variable (u : Upload)

/-- The image exists: one PUT, or a multipart upload. -/
def beginUpload (s : State) (imageId : String) : State :=
  if 1 < u.parts then s.goto (.initiating imageId)
  else { s with phase := .single imageId, tasks := [.running (.presigning false)] }

/-- Spawn a task for each part, its range computed first. -/
def spawnParts (s : State) (imageId : String) : State :=
  if (List.range u.parts).all fun i => (u.partRange? i).isSome then
    { s with
      phase := .joining imageId
      tasks := List.replicate u.parts .queued
      etags := List.replicate u.parts none }
  else s.goto .overflowed

/-- A PUT of one task: what is sent, and where the answer takes the task. -/
def putPart (s : State) (i : Nat) (resigned : Bool) (attempt elapsed : Nat) (answer : PutAnswer) :
    Option State := do
  let range ← u.range? i
  let transfer := Transfer.afterPut (u.parts ≤ 1) (i + 1) resigned attempt
    (putOutcome attempt elapsed answer)
  let sent := match answer with
    | .unreadable _ => s
    | _ => s.sends (.put i (u.uploadBody range) answer)
  some (sent.setTask i (.running transfer))

def joinTask (s : State) (i : Nat) (result : Except UploadError String) : Option State :=
  match s.phase, result with
  | .joining _, .ok etag =>
    some { s.setTask i .joined with etags := s.etags.set i (some etag) }
  | .joining imageId, .error e => some (s.fails u imageId e)
  | .single imageId, .ok _ => some ((s.setTask i .joined).goto (.completing imageId))
  | .single imageId, .error e => some (s.fails u imageId e)
  | _, _ => none

/-- Every task joined: finalize with the ETags in part order. -/
def finalizeParts (s : State) (imageId : String) (answer : Except UploadError Unit) : State :=
  match orderedEtags 0 s.etags with
  | .error e => s.fails u imageId e
  | .ok parts =>
    match answer with
    | .error e => (s.sends (.finalizeMultipart parts)).fails u imageId e
    | .ok () => (s.sends (.finalizeMultipart parts)).goto (.completing imageId)

def completeUpload (s : State) (imageId : String) : Except UploadError Unit → State
  | .error e => (s.sends .complete).fails u imageId e
  | .ok () => (s.sends .complete).goto (.returned (.ok imageId))

def next (s : State) : Event → Option State
  | .created answer =>
    match s.phase, answer with
    | .creating, .error e => some ((s.sends (.createImage answer)).goto (.returned (.error e)))
    | .creating, .ok imageId => some (beginUpload u (s.sends (.createImage answer)) imageId)
    | _, _ => none
  | .initiated answer =>
    match s.phase, answer with
    | .initiating imageId, .error e => some ((s.sends .initiateMultipart).fails u imageId e)
    | .initiating imageId, .ok () => some (spawnParts u (s.sends .initiateMultipart) imageId)
    | _, _ => none
  | .acquired i =>
    match s.tasks[i]? with
    | some .queued =>
      if s.tasks.countP Task.holdsPermit < max 1 u.partConcurrency then
        some (s.setTask i (.running (.presigning false)))
      else none
    | _ => none
  | .presigned i answer =>
    match s.tasks[i]? with
    | some (.running (.presigning resigned)) =>
      some ((s.sends (.presign i)).setTask i (.running (.afterPresign resigned answer)))
    | _ => none
  | .put i elapsed answer =>
    match s.tasks[i]? with
    | some (.running (.putting resigned attempt)) => putPart u s i resigned attempt elapsed answer
    | _ => none
  | .crashed i reason =>
    match s.phase, s.tasks[i]? with
    | .single _, _ => none
    | _, some (.running (.done _)) => none
    | _, some (.running _) =>
      some (s.setTask i (.running (.done (.error (.partUploadFailed 0 reason)))))
    | _, _ => none
  | .joins i =>
    match s.tasks[i]? with
    | some (.running (.done result)) => joinTask u s i result
    | _ => none
  | .finalized answer =>
    match s.phase with
    | .joining imageId =>
      if s.tasks.all Task.isJoined then some (finalizeParts u s imageId answer) else none
    | _ => none
  | .completed answer =>
    match s.phase with
    | .completing imageId => some (completeUpload u s imageId answer)
    | _ => none

def Step (s t : State) : Prop := ∃ event, next u s event = some t

def Reachable (s : State) : Prop := Runs.Reaches (Step u) .init s

end ImageUpload
