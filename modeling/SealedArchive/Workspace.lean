import SealedArchive.Session
import SealedArchive.Stream

/-!
# A workspace on an archive

A workspace is what the user of a session works on: a buffer, a header, a record, the bytes
written so far and a position to read them from.  A `Step` is one piece of work on it.  What
it asks of the session is an `Operation` on what is in the workspace, and the outcome is kept
there.  Between these steps the user may arrange the workspace in any way.

`Workspace.perform` does a step and answers it.  A step that fails leaves the workspace as it
was.
-/

namespace SealedArchive

/-- What is being worked on. -/
structure Workspace where
  buffer : Bytes
  header : Header
  record : Option SealedHeader
  disk : Bytes
  position : Nat

/-- One piece of work. -/
inductive Step where
  /-- Changes the workspace without the session. -/
  | arrange (change : Workspace → Workspace)
  /-- Encrypts or decrypts the buffer. -/
  | transform (salt : Salt) (action : Action)
  /-- Encrypts or decrypts the header. -/
  | transformHeader (salt : Salt) (action : Action)
  /-- Makes a record of the header. -/
  | sealHeader (salt : Salt)
  /-- Takes the header from the record. -/
  | revealHeader (action : Action)
  /-- Derives the keys of a salt. -/
  | derive (salt : Salt)
  /-- Encrypts or decrypts some other buffers. -/
  | batch (action : Action) (members : List (Bytes × Salt))
  /-- Replaces the record. -/
  | setRecord (bytes : Bytes)
  /-- Writes the record after the bytes written so far. -/
  | writeRecord
  /-- Reads a record from the written bytes. -/
  | readRecord

/-- The answer to a step. -/
inductive Reply where
  | done
  /-- There was no record to work on. -/
  | noRecord
  | outcome (outcome : Outcome)
  | buffers (buffers : List Bytes)

namespace Workspace

/-- The workspace before any step. -/
def empty : Workspace := ⟨[], .blank, none, [], 0⟩

/-- The workspace with the outcome of an operation in its place. -/
def keep (w : Workspace) : Outcome → Workspace
  | .buffer bytes => { w with buffer := bytes }
  | .header header => { w with header := header }
  | .record record => { w with record := some record }
  | .keys _ => w

/-- Some work, whose result goes into the workspace and is answered. -/
def commit {α : Type} (w : Workspace) (work : Traced α) (store : α → Workspace)
    (reply : α → Reply) : Traced Reply × Workspace :=
  match work.result with
  | .ok value => (⟨.ok (reply value), work.events⟩, store value)
  | .error error => (⟨.error error, work.events⟩, w)

/-- An operation that the session is asked for. -/
def ask (s : Session) (w : Workspace) (operation : Operation) : Traced Reply × Workspace :=
  w.commit (s.operate operation) w.keep .outcome

/-- Does one step. -/
def perform (s : Session) (w : Workspace) : Step → Traced Reply × Workspace
  | .arrange change => (pure .done, change w)
  | .transform salt action => w.ask s (.transform salt action w.buffer)
  | .transformHeader salt action => w.ask s (.transformHeader salt action w.header)
  | .sealHeader salt => w.ask s (.sealHeader salt w.header)
  | .revealHeader action =>
    match w.record with
    | none => (pure .noRecord, w)
    | some r => w.ask s (.revealHeader action r)
  | .derive salt => w.ask s (.derive salt)
  | .batch action members => w.commit (s.transformAll action members) (fun _ => w) .buffers
  | .setRecord bytes =>
    w.commit (.ofExcept (SealedHeader.ofBytes bytes)) ({ w with record := some · })
      fun r => .outcome (.record r)
  | .writeRecord =>
    match w.record with
    | none => (pure .noRecord, w)
    | some r => (pure .done, { w with disk := w.disk ++ r.toOctets.toList })
  | .readRecord =>
    let source := Source.ofDeliveries [.data (w.disk.drop w.position)]
    w.commit (.ofExcept source.readRecord.1)
      (fun r => { w with record := some r, position := w.position + Format.recordLength })
      fun r => .outcome (.record r)

/-- Does some steps in order, each answer standing with the workspace after
it. -/
def performAll (s : Session) : Workspace → List Step → List (Traced Reply × Workspace)
  | _, [] => []
  | w, step :: steps => w.perform s step :: performAll s (w.perform s step).2 steps

end Workspace

end SealedArchive
