import SealedArchive.Header
import SealedArchive.Proofs.Header.Sealing
import SealedArchive.Proofs.Payload.Atomic
import SealedArchive.Workspace

/-!
# A protected header is its packed bytes transformed

A header goes through the cipher as four numbers: it is packed, transformed, unpacked, and
packed once more for a record.  Packing loses nothing on any 25 bytes, so what comes out is
what a transform of the packed bytes gives (`Header.protect_of_length`), also in the body of
a record, and a refusal leaves the four numbers as they were (`Header.protect_of_long`).

Sealing and opening are protection with a copy (`SealedHeader.ofHeader_eq_protect`,
`SealedHeader.reveal_eq_protect`).
-/

namespace SealedArchive

namespace Header

variable {secrets : Secrets} {salt : Salt} {action : Action}

/-- The header that comes out of the scratch buffer is the header in place. -/
theorem protectHere_eq (h : Header) (secrets : Secrets) (salt : Salt) (action : Action) :
    h.protectHere secrets salt action = h.protect secrets salt action := by
  have hscratch : secrets.transformHere salt action (h.packInto (Octets.zero 25)) =
      (secrets.transformInPlace salt action h.pack).replace h.pack :=
    Secrets.transformHere_eq secrets salt action h.pack
  rw [protectHere, protect, transform, Traced.bind_return, Traced.emit_bind, hscratch]
  cases hwork : (secrets.transformInPlace salt action h.pack).result <;>
    simp [Traced.replace, Traced.emit_bind, hwork, Except.map]

theorem protect_of_length (h : Header) (salt : Salt) (action : Action)
    (hlength : secrets.passphrase.length ≤ Format.passphraseLimit) :
    ∃ after : Octets 25,
      secrets.transform salt action h.pack.toList =
        ⟨.ok after.toList, action.events Format.headerLength⟩ ∧
      h.protect secrets salt action = (⟨.ok (), action.headerEvents⟩, unpack after) := by
  obtain ⟨keys, hderive⟩ := Secrets.exists_derive salt hlength
  have hbytes := Secrets.transform_of_derive hderive action h.pack.toList
  rw [h.pack.length_toList] at hbytes
  refine ⟨(h.under keys action).pack, ?_, ?_⟩
  · rw [hbytes, toList_pack_under]
  · rw [protect, transform_of_derive hderive, unpack_pack]
    rfl

theorem protect_of_long (h : Header) (salt : Salt) (action : Action)
    (hlong : Format.passphraseLimit < secrets.passphrase.length) :
    secrets.transform salt action h.pack.toList =
        ⟨.error (.passphraseLength secrets.passphrase.length),
          [.pinning Format.scratchLength]⟩ ∧
      h.protect secrets salt action =
        (⟨.error (.passphraseLength secrets.passphrase.length),
          [.pinning Format.headerLength, .pinning Format.scratchLength]⟩, h) := by
  have hrefused := Secrets.derive_of_long salt hlong
  exact ⟨Secrets.transform_of_refused hrefused action _, protect_of_refused hrefused action h⟩

end Header

namespace SealedHeader

/-- The record of a header is a copy of it, protected and packed. -/
theorem ofHeader_eq_protect (header : Header) (secrets : Secrets) (salt : Salt) :
    ofHeader header secrets salt =
      ⟨(header.protect secrets salt .encrypt).1.result.map fun _ =>
          ⟨salt, (header.protect secrets salt .encrypt).2.pack⟩,
        (header.protect secrets salt .encrypt).1.events⟩ :=
  Traced.bind_return_eq_replace (header.transform secrets salt .encrypt) header _

/-- The header in a record is what its body spells, protected the other way. -/
theorem reveal_eq_protect {action : Action} (r : SealedHeader) (secrets : Secrets)
    (haction : action ≠ .encrypt) :
    r.reveal secrets action =
      ⟨((Header.unpack r.body).protect secrets r.salt action).1.result.map fun _ =>
          ((Header.unpack r.body).protect secrets r.salt action).2,
        ((Header.unpack r.body).protect secrets r.salt action).1.events⟩ := by
  rw [reveal, if_neg haction]
  exact Traced.eq_replace _ _

end SealedHeader

/-- Whatever comes of opening the record, only the header is replaced. -/
theorem Workspace.record_of_revealHeader (s : Session) (w : Workspace) (action : Action) :
    (w.perform s (.revealHeader action)).2.record = w.record := by
  unfold perform
  cases hrecord : w.record with
  | none => exact hrecord
  | some r =>
    have hanswer : (s.operate (.revealHeader action r)).result =
        (s.revealHeader action r).result.map .header :=
      congrArg Traced.result (Traced.bind_return _ _)
    cases hwork : (s.revealHeader action r).result with
    | ok header =>
      rw [hwork] at hanswer
      simp only [ask, commit, hanswer, Except.map, keep, hrecord]
    | error error =>
      rw [hwork] at hanswer
      simp only [ask, commit, hanswer, Except.map, hrecord]

/-- A header is protected exactly when a transform of its packed bytes goes well.  Then its
fields are those that the transformed bytes spell, it packs to these bytes, and they are the
body of its record.  Otherwise the error is that of the transform and the header stays as it
was.  What happens is what happens in the transform, after memory was taken for the bytes.
No record is opened by encrypting it, whatever the passphrase; the other ways of opening one do
to the header in it what protection does, and the record stays. -/
theorem protection_transforms_packed :
    (∀ (secrets : Secrets) (salt : Salt) (action : Action) (h : Header),
      h.protectHere secrets salt action = h.protect secrets salt action ∧
      (secrets.passphrase.length ≤ Format.passphraseLimit →
        ∃ (after : Octets 25) (events : List Event),
          secrets.transform salt action h.pack.toList = ⟨.ok after.toList, events⟩ ∧
          h.protect secrets salt action =
            (⟨.ok (), .pinning Format.headerLength :: events⟩, .unpack after) ∧
          (Header.unpack after).pack = after) ∧
      (Format.passphraseLimit < secrets.passphrase.length →
        ∃ error : Error, error.kind = .keySetup ∧
          secrets.transform salt action h.pack.toList =
            ⟨.error error, [.pinning Format.scratchLength]⟩ ∧
          h.protect secrets salt action =
            (⟨.error error, [.pinning Format.headerLength, .pinning Format.scratchLength]⟩,
              h))) ∧
    (∀ (secrets : Secrets) (salt : Salt) (h : Header),
      (secrets.passphrase.length ≤ Format.passphraseLimit →
        ∃ (body : Octets 25) (events : List Event),
          secrets.transform salt .encrypt h.pack.toList = ⟨.ok body.toList, events⟩ ∧
          SealedHeader.ofHeader h secrets salt =
            ⟨.ok ⟨salt, body⟩, .pinning Format.headerLength :: events⟩) ∧
      (Format.passphraseLimit < secrets.passphrase.length →
        ∃ error : Error, error.kind = .keySetup ∧
          secrets.transform salt .encrypt h.pack.toList =
            ⟨.error error, [.pinning Format.scratchLength]⟩ ∧
          SealedHeader.ofHeader h secrets salt =
            ⟨.error error, [.pinning Format.headerLength, .pinning Format.scratchLength]⟩)) ∧
    (∀ (secrets : Secrets) (r : SealedHeader),
      r.reveal secrets .encrypt = .fail .openedForEncryption ∧
      Error.kind .openedForEncryption = .header ∧
      ∀ action : Action, action ≠ .encrypt →
        let protection := (Header.unpack r.body).protect secrets r.salt action
        r.reveal secrets action =
          ⟨protection.1.result.map fun _ => protection.2, protection.1.events⟩) ∧
    (∀ (s : Session) (w : Workspace) (action : Action),
      (w.perform s (.revealHeader action)).2.record = w.record) := by
  refine ⟨?_, ?_, ?_, Workspace.record_of_revealHeader⟩
  · intro secrets salt action h
    refine ⟨h.protectHere_eq secrets salt action, ?_, ?_⟩
    · intro hlength
      obtain ⟨after, hbytes, hprotect⟩ := h.protect_of_length salt action hlength
      exact ⟨after, _, hbytes, hprotect, Header.pack_unpack after⟩
    · intro hlong
      obtain ⟨hbytes, hprotect⟩ := h.protect_of_long salt action hlong
      exact ⟨_, rfl, hbytes, hprotect⟩
  · intro secrets salt h
    rw [SealedHeader.ofHeader_eq_protect]
    refine ⟨?_, ?_⟩
    · intro hlength
      obtain ⟨after, hbytes, hprotect⟩ := h.protect_of_length salt .encrypt hlength
      refine ⟨after, _, hbytes, ?_⟩
      rw [hprotect, Header.pack_unpack]
      rfl
    · intro hlong
      obtain ⟨hbytes, hprotect⟩ := h.protect_of_long salt .encrypt hlong
      refine ⟨_, rfl, hbytes, ?_⟩
      rw [hprotect]
      rfl
  · intro secrets r
    exact ⟨if_pos rfl, rfl, fun action haction => r.reveal_eq_protect secrets haction⟩

/-- The blank header is sealed with a passphrase of 512 bytes and stays blank with one of
513. -/
theorem protection_transforms_packed_blank :
    (∃ (body : Octets 25) (events : List Event),
      Secrets.transform ⟨SecretBuffer.zeroed 64, ⟨List.replicate 512 121⟩⟩ (Octets.zero 16)
        .encrypt Header.blank.pack.toList = ⟨.ok body.toList, events⟩ ∧
      SealedHeader.ofHeader .blank ⟨SecretBuffer.zeroed 64, ⟨List.replicate 512 121⟩⟩
        (Octets.zero 16) = ⟨.ok ⟨Octets.zero 16, body⟩, .pinning Format.headerLength :: events⟩) ∧
    (Header.protect .blank ⟨SecretBuffer.zeroed 64, ⟨List.replicate 513 121⟩⟩
      (Octets.zero 16) .encrypt).2 = .blank := by
  have hlongest : (⟨List.replicate 512 121⟩ : SecretBytes).length ≤ Format.passphraseLimit :=
    Nat.le_of_eq List.length_replicate
  have hlength : (⟨List.replicate 513 121⟩ : SecretBytes).length = 513 := List.length_replicate
  have hlong : Format.passphraseLimit < (⟨List.replicate 513 121⟩ : SecretBytes).length := by
    rw [hlength]
    decide
  constructor
  · exact (protection_transforms_packed.2.1 ⟨SecretBuffer.zeroed 64, ⟨List.replicate 512 121⟩⟩
      (Octets.zero 16) .blank).1 hlongest
  · obtain ⟨error, -, -, hprotect⟩ := (protection_transforms_packed.1
      ⟨SecretBuffer.zeroed 64, ⟨List.replicate 513 121⟩⟩ (Octets.zero 16) .encrypt .blank).2.2
        hlong
    rw [hprotect]

end SealedArchive
