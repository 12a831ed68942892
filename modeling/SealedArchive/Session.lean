import SealedArchive.Header
import SealedArchive.WorkFactor

/-!
# Sessions

A session works on one archive.  It holds the passphrase, with the salt of the
archive in front, and the hash of the stretched passphrase, so the passphrase is
stretched once and not for every block.

The members of a batch are buffers, each with the salt that it is worked on under.  They
stand in one list, and several workers go through it, so in which order the members are
transformed is not known beforehand.  `transformInOrder` takes the order as a list of indices
and works on one member after the other where it stands, until one fails; the members that
come later in the order are then left as they are.

A session is set up by a run of settings, a later one replacing an earlier one
of the same kind; a number of loops and a stored work factor are of one kind.
`Settings.build` then checks what came of them and stretches the passphrase.  Of
several faults it reports the first in this order: no passphrase, no loops, a
passphrase too long, too many loops.

An `Operation` is one piece of work that a session is asked for, with all that it works on,
and `Session.operate` does it.  The session stays the same, so the answer to an operation
does not depend on those before it.  A `Run` is all of this in a row: the settings, the
build and, if that succeeds, any number of operations.
-/

namespace SealedArchive

/-- The secrets of an archive and the work factor that they were stretched
with. -/
structure Session where
  secrets : Secrets
  loops : UInt64

namespace Session

/-- A session on a passphrase that has its salt in front. -/
def ofSalted (passphrase : SecretBytes) (loops : UInt64) : Traced Session := do
  let globalHash ← stretch passphrase loops
  return ⟨⟨globalHash, passphrase⟩, loops⟩

/-- The keys of the block of a salt. -/
def derive (s : Session) (salt : Salt) : Except Error BlockSecrets := s.secrets.derive salt

/-- A buffer encrypted or decrypted under the keys of a salt. -/
def transform (s : Session) (salt : Salt) (action : Action) (buffer : Bytes) : Traced Bytes :=
  s.secrets.transform salt action buffer

/-- A header encrypted or decrypted under the keys of a salt. -/
def transformHeader (s : Session) (salt : Salt) (action : Action) (header : Header) :
    Traced Header :=
  header.transform s.secrets salt action

/-- The record of a header under a salt. -/
def sealHeader (s : Session) (salt : Salt) (header : Header) : Traced SealedHeader :=
  SealedHeader.ofHeader header s.secrets salt

/-- The header in a record. -/
def revealHeader (s : Session) (action : Action) (record : SealedHeader) : Traced Header :=
  record.reveal s.secrets action

/-- Some buffers, each encrypted or decrypted under its own salt. -/
def transformAll (s : Session) (action : Action) : List (Bytes × Salt) → Traced (List Bytes)
  | [] => pure []
  | (buffer, salt) :: members => do
    let transformed ← s.transform salt action buffer
    let others ← s.transformAll action members
    return transformed :: others

/-- What is shown of a session: the lengths of its secrets, and its loops. -/
def shown (s : Session) : Shown :=
  .record "Session" [("passphrase", s.secrets.passphrase.shown),
    ("global_hash", s.secrets.globalHash.shown), ("loops", .number s.loops.toNat)]

/-! ### Batches that are worked on in place -/

/-- A member transformed where it stands: how it went, and the member that is left. -/
def transformMember (s : Session) (action : Action) (member : Bytes × Salt) :
    Traced Unit × (Bytes × Salt) :=
  let (work, after) :=
    s.secrets.transformHere member.2 action (⟨member.1, rfl⟩ : Octets member.1.length)
  (work, (after.toList, member.2))

/-- The member at an index transformed where it stands. -/
def transformAt (s : Session) (action : Action) (index : Nat) (batch : List (Bytes × Salt)) :
    Traced Unit × List (Bytes × Salt) :=
  match batch[index]? with
  | none => (.fail .outOfRange, batch)
  | some member =>
    let (work, after) := s.transformMember action member
    (work, batch.set index after)

/-- The members at some indices transformed one at a time, in this order and up to the first
that fails. -/
def transformInOrder (s : Session) (action : Action) :
    List Nat → List (Bytes × Salt) → Traced Unit × List (Bytes × Salt)
  | [], batch => (pure (), batch)
  | index :: order, batch =>
    let (work, after) := s.transformAt action index batch
    match work.result with
    | .error error => (⟨.error error, work.events⟩, after)
    | .ok () =>
      let (others, final) := s.transformInOrder action order after
      (⟨others.result, work.events ++ others.events⟩, final)

end Session

/-! ## Settings -/

/-- What a session is built from. -/
structure Settings where
  loops : UInt64
  archiveSalt : Bytes
  passphrase : Option SecretBytes

/-- One setting. -/
inductive Setting where
  | passphrase (bytes : Bytes)
  | archiveSalt (bytes : Bytes)
  | loops (loops : UInt64)
  | workFactor (factor : WorkFactor)

/-- What happens when a setting is made: a passphrase is copied into memory of its own. -/
def Setting.events : Setting → List Event
  | passphrase bytes => [.pinning bytes.length]
  | archiveSalt _ | loops _ | workFactor _ => []

namespace Settings

/-- The settings before any was made. -/
def fresh : Settings := ⟨Format.defaultLoops, [], none⟩

/-- The settings with one more made. -/
def apply (s : Settings) : Setting → Settings
  | .passphrase bytes => { s with passphrase := some ⟨bytes⟩ }
  | .archiveSalt bytes => { s with archiveSalt := bytes }
  | .loops loops => { s with loops := loops }
  | .workFactor factor => { s with loops := factor.loops }

/-- The settings after some were made in order. -/
def ofList (settings : List Setting) : Settings := settings.foldl apply fresh

/-- The session of the settings. -/
def build (s : Settings) : Traced Session :=
  match s.passphrase with
  | none => .fail .passphraseMissing
  | some passphrase =>
    if s.loops = 0 then .fail .noLoops
    else do
      let salted := SecretBytes.salted s.archiveSalt passphrase
      Traced.emit (.pinning salted.length)
      if Format.passphraseLimit < salted.length then
        .fail (.saltedPassphraseLength salted.length)
      else Session.ofSalted salted s.loops

/-- What is shown of the settings: all but the bytes of the passphrase. -/
def shown (s : Settings) : Shown :=
  .record "SessionBuilder" [("loops", .number s.loops.toNat),
    ("archive_salt", .ofBytes s.archiveSalt),
    ("passphrase", match s.passphrase with
      | none => .word "None"
      | some passphrase => .wrapped "Some" passphrase.shown)]

end Settings

/-- The session of a passphrase without a salt in front.  Its events are those of the build;
the memory of the passphrase is taken before. -/
def Session.ofPassphrase (passphrase : Bytes) (loops : UInt64) : Traced Session :=
  (Settings.ofList [.passphrase passphrase, .loops loops]).build

/-! ## Operations -/

/-- A piece of work that a session is asked for. -/
inductive Operation where
  /-- Encrypts or decrypts a buffer. -/
  | transform (salt : Salt) (action : Action) (buffer : Bytes)
  /-- Encrypts or decrypts a header. -/
  | transformHeader (salt : Salt) (action : Action) (header : Header)
  /-- Makes a record of a header. -/
  | sealHeader (salt : Salt) (header : Header)
  /-- Takes the header from a record. -/
  | revealHeader (action : Action) (record : SealedHeader)
  /-- Derives the keys of a salt. -/
  | derive (salt : Salt)

/-- What comes of an operation. -/
inductive Outcome where
  | buffer (bytes : Bytes)
  | header (header : Header)
  | record (record : SealedHeader)
  | keys (keys : BlockSecrets)

/-- Does one operation. -/
def Session.operate (s : Session) : Operation → Traced Outcome
  | .transform salt action buffer => return .buffer (← s.transform salt action buffer)
  | .transformHeader salt action header => return .header (← s.transformHeader salt action header)
  | .sealHeader salt header => return .record (← s.sealHeader salt header)
  | .revealHeader action r => return .header (← s.revealHeader action r)
  | .derive salt => return .keys (← s.secrets.deriveTraced salt)

/-- Settings that are made, the session that is built from them, and the answers to some
operations on it. -/
structure Run where
  /-- What happens while the settings are made. -/
  made : List Event
  session : Traced Session
  answers : List (Traced Outcome)

namespace Run

/-- Makes some settings, builds a session and, unless that fails, does some operations on it
in order. -/
def ofSettings (settings : List Setting) (operations : List Operation) : Run where
  made := settings.flatMap Setting.events
  session := (Settings.ofList settings).build
  answers :=
    match (Settings.ofList settings).build.result with
    | .ok session => operations.map session.operate
    | .error _ => []

/-- The events of each piece of work in a run: the settings, the build, and the operations
one by one. -/
def pieces (run : Run) : List (List Event) :=
  run.made :: run.session.events :: run.answers.map Traced.events

/-- The events of a run. -/
def events (run : Run) : List Event := run.pieces.flatten

end Run

end SealedArchive
