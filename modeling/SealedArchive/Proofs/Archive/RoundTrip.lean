import Mathlib.Data.List.Forall2
import SealedArchive.Proofs.Header.Sealing
import SealedArchive.Proofs.Session.Build
import SealedArchive.Proofs.Stream.Reading
import SealedArchive.Proofs.Stream.Filling

/-!
# An archive is read back as it was written

A writer fills up each payload, encrypts it, seals its header under the same salt
and puts the records into one stream.  A reader that stretches the same joined
passphrase as often gets the records back from any delivery of that stream, and
from each record its header and its payload (`archive_round_trip`).
-/

namespace SealedArchive

/-- A block as its writer has it. -/
structure Entry where
  header : Header
  salt : Salt
  payload : Bytes

/-- A block as it is stored, and the payload as it was encrypted. -/
structure StoredEntry where
  record : SealedHeader
  padded : Bytes
  hidden : Bytes

namespace Session

/-- Stores a block whose payload was filled up. -/
def store (s : Session) (entry : Entry) (padded : Bytes) : Traced StoredEntry := do
  let hidden ← s.transform entry.salt .encrypt padded
  let record ← s.sealHeader entry.salt entry.header
  return ⟨record, padded, hidden⟩

/-- Fills up and stores some blocks. -/
def storeEach (s : Session) : RandomSource → List Entry → Traced (List StoredEntry)
  | _, [] => pure []
  | source, entry :: entries => do
    let stored ← s.store entry (Payload.pad source entry.payload).1
    let others ← s.storeEach (Payload.pad source entry.payload).2 entries
    return stored :: others

/-- What a session finds in a stored block. -/
structure Recovers (s : Session) (entry : Entry) (stored : StoredEntry) : Prop where
  salt : stored.record.salt = entry.salt
  header : ∀ action : Action, action ≠ .encrypt →
    (s.revealHeader action stored.record).result = .ok entry.header
  padded : ∀ action : Action, action ≠ .encrypt →
    (s.transform stored.record.salt action stored.hidden).result = .ok stored.padded
  filled : ∃ filler : Bytes, stored.padded = entry.payload ++ filler ∧
    filler.length = Format.payloadMinimum - entry.payload.length

end Session

theorem Payload.exists_filler (source : RandomSource) (payload : Bytes) :
    ∃ filler : Bytes, (pad source payload).1 = payload ++ filler ∧
      filler.length = Format.payloadMinimum - payload.length :=
  ⟨_, rfl, Octets.length_toList _⟩

namespace Session

variable {s : Session}

theorem exists_store (hlength : s.secrets.passphrase.length ≤ Format.passphraseLimit)
    (source : RandomSource) (entry : Entry) :
    ∃ stored, (s.store entry (Payload.pad source entry.payload).1).result = .ok stored ∧
      s.Recovers entry stored := by
  obtain ⟨hidden, hencrypt, -, hdecrypt⟩ :=
    Secrets.exists_encrypted entry.salt hlength (Payload.pad source entry.payload).1
  obtain ⟨record, hseal, hsalt⟩ := SealedHeader.exists_ofHeader entry.header entry.salt hlength
  refine ⟨⟨record, (Payload.pad source entry.payload).1, hidden⟩, ?_, hsalt, ?_, ?_,
    Payload.exists_filler source entry.payload⟩
  · rw [store, transform, Traced.bind_of_ok _ hencrypt, sealHeader, Traced.bind_of_ok _ hseal]
    rfl
  · intro action haction
    exact SealedHeader.reveal_ofHeader hlength haction hseal
  · intro action haction
    rw [hsalt]
    exact hdecrypt action haction

theorem exists_storeEach (hlength : s.secrets.passphrase.length ≤ Format.passphraseLimit)
    (source : RandomSource) (entries : List Entry) :
    ∃ stored, (s.storeEach source entries).result = .ok stored ∧
      List.Forall₂ s.Recovers entries stored := by
  induction entries generalizing source with
  | nil => exact ⟨[], rfl, .nil⟩
  | cons entry entries ih =>
    obtain ⟨stored, hstored, hrecovers⟩ := exists_store hlength source entry
    obtain ⟨others, hothers, hrest⟩ := ih (Payload.pad source entry.payload).2
    refine ⟨stored :: others, ?_, .cons hrecovers hrest⟩
    rw [storeEach, Traced.bind_of_ok _ hstored, Traced.bind_of_ok _ hothers]
    rfl

end Session

/-! ## Writing the records -/

namespace Sink

/-- Writes some records, up to the first that cannot be written. -/
def writeEach : List SealedHeader → Sink → Except Error Unit × Sink
  | [], s => (.ok (), s)
  | r :: records, s =>
    match s.writeSealed r with
    | (.ok (), later) => writeEach records later
    | (.error error, later) => (.error error, later)

theorem writeEach_of_room (records : List SealedHeader) {s : Sink}
    (hpace : ∀ request, 0 < s.pace request)
    (hroom : s.written.length + Format.recordLength * records.length ≤ s.room) :
    ∃ full : Sink, s.writeEach records = (.ok (), full) ∧
      full.written = s.written ++ SealedHeader.stream records := by
  induction records generalizing s with
  | nil => exact ⟨s, rfl, by simp [SealedHeader.stream]⟩
  | cons r records ih =>
    have hwidth : r.toOctets.toList.length = Format.recordLength := r.toOctets.length_toList
    rw [List.length_cons, Nat.mul_succ] at hroom
    have hfits : s.written.length + r.toOctets.toList.length ≤ s.room := by omega
    obtain ⟨requests, hwrite⟩ := writeAll_of_room hpace hfits
    let next : Sink :=
      { s with requests := requests, written := s.written ++ r.toOctets.toList }
    have hlater : next.written.length + Format.recordLength * records.length ≤ next.room := by
      simp only [next, List.length_append]
      omega
    obtain ⟨full, hrest, hwritten⟩ := ih (s := next) hpace hlater
    refine ⟨full, ?_, ?_⟩
    · rw [writeEach, writeSealed, hwrite]
      exact hrest
    · rw [hwritten, List.append_assoc]
      rfl

end Sink

/-! ## The archive as a whole -/

/-- The settings of the session on an archive. -/
def Settings.ofArchive (archiveSalt passphrase : Bytes) (factor : WorkFactor) : Settings :=
  Settings.ofList [.archiveSalt archiveSalt, .passphrase passphrase, .workFactor factor]

/-- Whatever its writer puts into an archive, a reader with the same joined
passphrase and the stored work factor gets out of it, and nothing is left over. -/
theorem archive_round_trip (archiveSalt passphrase : Bytes) (factor : WorkFactor)
    (writer : Session)
    (hwriter : (Settings.ofArchive archiveSalt passphrase factor).build.result = .ok writer)
    (source : RandomSource) (entries : List Entry) :
    ∃ stored : List StoredEntry, (writer.storeEach source entries).result = .ok stored ∧
      (∀ sink : Sink, sink.written = [] → (∀ request, 0 < sink.pace request) →
        Format.recordLength * entries.length ≤ sink.room →
        ∃ full : Sink, sink.writeEach (stored.map StoredEntry.record) = (.ok (), full) ∧
          full.written = SealedHeader.stream (stored.map StoredEntry.record)) ∧
      ∃ reloaded : WorkFactor, WorkFactor.ofBytes factor.toBytes = .ok reloaded ∧
        ∀ otherSalt otherPassphrase : Bytes,
          otherSalt ++ otherPassphrase = archiveSalt ++ passphrase →
          ∃ reader : Session,
            (Settings.ofArchive otherSalt otherPassphrase reloaded).build.result = .ok reader ∧
            (∀ deliveries : List Delivery,
              Delivers deliveries (SealedHeader.stream (stored.map StoredEntry.record)) →
              ((Source.ofDeliveries deliveries).readRecords (entries.length + 1)).map
                  (fun answer => (answer.1, answer.2.consumed)) =
                (stored.map StoredEntry.record).mapIdx
                    (fun index r => (.ok r, Format.recordLength * (index + 1))) ++
                  [(.error .streamEnded, Format.recordLength * entries.length)]) ∧
            List.Forall₂ reader.Recovers entries stored := by
  have hlength := Settings.length_of_build hwriter
  obtain ⟨stored, hstored, hrecovers⟩ := Session.exists_storeEach hlength source entries
  have hcount : (stored.map StoredEntry.record).length = entries.length := by
    rw [List.length_map, hrecovers.length_eq]
  refine ⟨stored, hstored, ?_, factor, WorkFactor.ofBytes_toBytes factor, ?_⟩
  · intro sink hempty hpace hroom
    have hfits : sink.written.length +
        Format.recordLength * (stored.map StoredEntry.record).length ≤ sink.room := by
      rw [hempty, List.length_nil, Nat.zero_add, hcount]
      exact hroom
    obtain ⟨full, hwrite, hwritten⟩ := Sink.writeEach_of_room _ hpace hfits
    exact ⟨full, hwrite, by rw [hwritten, hempty, List.nil_append]⟩
  · intro otherSalt otherPassphrase hjoined
    have hsame : Settings.build (.ofArchive otherSalt otherPassphrase factor) =
        Settings.build (.ofArchive archiveSalt passphrase factor) :=
      Settings.build_congr rfl rfl hjoined rfl
    refine ⟨writer, by rw [hsame]; exact hwriter, ?_, hrecovers⟩
    intro deliveries hdelivers
    obtain ⟨hahead, hbehind⟩ := hdelivers.ahead_behind
    have hread := Source.readRecords_of_ahead (stored.map StoredEntry.record)
      (s := Source.ofDeliveries deliveries) hahead hbehind
    simpa only [hcount, Source.ofDeliveries, Nat.zero_add] using hread

/-- A block of three bytes, read by a session that splits the joined passphrase
elsewhere. -/
theorem archive_round_trip_single :
    ∃ writer : Session,
      (Settings.ofArchive [7] [1, 2] (WorkFactor.ofLoops 1)).build.result = .ok writer ∧
      ∃ stored : List StoredEntry,
        (writer.storeEach ⟨fun _ => Octets.zero 64, 0⟩
          [⟨Header.blank, Octets.zero 16, [3, 4, 5]⟩]).result = .ok stored ∧
        ∃ (reloaded : WorkFactor) (reader : Session),
          (Settings.ofArchive [7, 1] [2] reloaded).build.result = .ok reader ∧
          List.Forall₂ reader.Recovers [⟨Header.blank, Octets.zero 16, [3, 4, 5]⟩] stored := by
  have hwriter :
      (Settings.ofArchive [7] [1, 2] (WorkFactor.ofLoops 1)).build.result = .ok _ := rfl
  obtain ⟨stored, hstored, -, reloaded, -, hread⟩ :=
    archive_round_trip [7] [1, 2] (WorkFactor.ofLoops 1) _ hwriter ⟨fun _ => Octets.zero 64, 0⟩
      [⟨Header.blank, Octets.zero 16, [3, 4, 5]⟩]
  obtain ⟨reader, hreader, -, hrecovers⟩ := hread [7, 1] [2] rfl
  exact ⟨_, hwriter, stored, hstored, reloaded, reader, hreader, hrecovers⟩

end SealedArchive
