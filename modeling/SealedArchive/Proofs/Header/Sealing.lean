import Mathlib.Logic.Equiv.Defs
import Mathlib.Tactic.Choose
import SealedArchive.Proofs.Header.Packing
import SealedArchive.Proofs.Payload.Permutation

/-!
# Sealing and opening records

Under fixed secrets a record and the header and salt that it was made from
determine each other.  Every header can be sealed under every salt and is found
again in the record, and every string of 41 bytes is the record of the header
that it opens to (`ofHeader_reveal_bijection`).

A header goes through the cipher as its 25 packed bytes.  `Header.under` is what
comes of it under the keys of one salt, and the inverse laws of the cipher carry
over to it because packing loses nothing.
-/

namespace SealedArchive

/-- What happens while a header is transformed. -/
def Action.headerEvents (action : Action) : List Event :=
  .pinning Format.headerLength :: action.events Format.headerLength

namespace Header

variable {secrets : Secrets} {salt : Salt} {keys : BlockSecrets} {action : Action}

/-- The header that an action makes of a header under the keys of a block. -/
def under (keys : BlockSecrets) (action : Action) (h : Header) : Header :=
  unpack ⟨action.bytes (Aes.cipher keys.cipherKey) keys.startBlock h.pack.toList, by simp⟩

theorem toList_pack_under (keys : BlockSecrets) (action : Action) (h : Header) :
    (h.under keys action).pack.toList =
      action.bytes (Aes.cipher keys.cipherKey) keys.startBlock h.pack.toList := by
  rw [under, pack_unpack]

theorem pack_injective {h other : Header} (hsame : h.pack = other.pack) : h = other := by
  rw [← unpack_pack h, hsame, unpack_pack]

theorem under_encrypt_under (haction : action ≠ .encrypt) (h : Header) :
    (h.under keys .encrypt).under keys action = h := by
  apply pack_injective
  apply Octets.ext
  rw [toList_pack_under, toList_pack_under]
  exact Action.bytes_encrypt_bytes _ _ haction _

theorem encrypt_under_under (haction : action ≠ .encrypt) (h : Header) :
    (h.under keys action).under keys .encrypt = h := by
  apply pack_injective
  apply Octets.ext
  rw [toList_pack_under, toList_pack_under]
  exact Action.encrypt_bytes_bytes _ _ haction _

theorem transform_of_derive (hderive : secrets.derive salt = .ok keys) (action : Action)
    (h : Header) :
    h.transform secrets salt action =
      ⟨.ok (h.under keys action), action.headerEvents⟩ := by
  have hwork := Secrets.transformInPlace_of_derive hderive action h.pack
  rw [transform, Traced.emit_bind, Traced.bind_of_ok _ (congrArg Traced.result hwork), hwork]
  simp only [Traced.result_pure, Traced.events_pure, List.append_nil]
  rfl

theorem protect_of_refused {error : Error} (hrefused : secrets.derive salt = .error error)
    (action : Action) (h : Header) :
    h.protect secrets salt action =
      (⟨.error error, [.pinning Format.headerLength, .pinning Format.scratchLength]⟩, h) := by
  rw [protect, transform, Secrets.transformInPlace_of_refused hrefused]
  rfl

end Header

namespace SealedHeader

variable {secrets : Secrets} {keys : BlockSecrets} {action : Action}

theorem ofHeader_of_derive {salt : Salt} (hderive : secrets.derive salt = .ok keys)
    (header : Header) :
    ofHeader header secrets salt =
      ⟨.ok ⟨salt, (header.under keys .encrypt).pack⟩,
        Action.headerEvents .encrypt⟩ := by
  have hwork := Header.transform_of_derive hderive .encrypt header
  rw [ofHeader, Traced.bind_of_ok _ (congrArg Traced.result hwork), hwork]
  rfl

theorem reveal_of_derive {r : SealedHeader} (hderive : secrets.derive r.salt = .ok keys)
    (haction : action ≠ .encrypt) :
    r.reveal secrets action =
      ⟨.ok ((Header.unpack r.body).under keys action),
        action.headerEvents⟩ := by
  rw [reveal, if_neg haction]
  exact Header.transform_of_derive hderive action _

/-! ## The two directions -/

theorem reveal_ofHeader {header : Header} {salt : Salt} {r : SealedHeader}
    (hlength : secrets.passphrase.length ≤ Format.passphraseLimit) (haction : action ≠ .encrypt)
    (hseal : (ofHeader header secrets salt).result = .ok r) :
    (r.reveal secrets action).result = .ok header := by
  obtain ⟨keys, hderive⟩ := Secrets.exists_derive salt hlength
  have hrecord : ⟨salt, (header.under keys .encrypt).pack⟩ = r := by
    rw [ofHeader_of_derive hderive] at hseal
    exact Except.ok.inj hseal
  have hsalt : r.salt = salt := by rw [← hrecord]
  have hbody : Header.unpack r.body = header.under keys .encrypt := by
    rw [← hrecord, Header.unpack_pack]
  rw [← hsalt] at hderive
  rw [reveal_of_derive hderive haction, hbody, Header.under_encrypt_under haction]

theorem ofHeader_reveal {header : Header} {r : SealedHeader}
    (hlength : secrets.passphrase.length ≤ Format.passphraseLimit) (haction : action ≠ .encrypt)
    (hreveal : (r.reveal secrets action).result = .ok header) :
    (ofHeader header secrets r.salt).result = .ok r := by
  obtain ⟨keys, hderive⟩ := Secrets.exists_derive r.salt hlength
  have hheader : (Header.unpack r.body).under keys action = header := by
    rw [reveal_of_derive hderive haction] at hreveal
    exact Except.ok.inj hreveal
  have hbody : (header.under keys .encrypt).pack = r.body := by
    rw [← hheader, Header.encrypt_under_under haction, Header.pack_unpack]
  rw [ofHeader_of_derive hderive, hbody]

theorem exists_ofHeader (header : Header) (salt : Salt)
    (hlength : secrets.passphrase.length ≤ Format.passphraseLimit) :
    ∃ r : SealedHeader, (ofHeader header secrets salt).result = .ok r ∧ r.salt = salt := by
  obtain ⟨keys, hderive⟩ := Secrets.exists_derive salt hlength
  exact ⟨_, congrArg Traced.result (ofHeader_of_derive hderive header), rfl⟩

theorem exists_reveal (r : SealedHeader)
    (hlength : secrets.passphrase.length ≤ Format.passphraseLimit) (haction : action ≠ .encrypt) :
    ∃ header : Header, (r.reveal secrets action).result = .ok header := by
  obtain ⟨keys, hderive⟩ := Secrets.exists_derive r.salt hlength
  exact ⟨_, congrArg Traced.result (reveal_of_derive hderive haction)⟩

theorem eq_of_reveal_eq {one other : SealedHeader}
    (hlength : secrets.passphrase.length ≤ Format.passphraseLimit) (haction : action ≠ .encrypt)
    (hsalt : one.salt = other.salt)
    (hsame : (one.reveal secrets action).result = (other.reveal secrets action).result) :
    one = other := by
  obtain ⟨header, hone⟩ := exists_reveal one hlength haction
  have hother := ofHeader_reveal hlength haction (hsame ▸ hone)
  rw [← hsalt, ofHeader_reveal hlength haction hone] at hother
  exact Except.ok.inj hother

/-! ## Headers with salts, and strings of 41 bytes -/

/-- Records and their bytes. -/
def layout : SealedHeader ≃ Octets 41 where
  toFun := toOctets
  invFun := ofOctets
  left_inv := ofOctets_toOctets
  right_inv := toOctets_ofOctets

/-- Headers with their salts, and the records made of them under the keys of each
salt. -/
def sealing (keys : Salt → BlockSecrets) : Header × Salt ≃ SealedHeader where
  toFun pair := ⟨pair.2, (pair.1.under (keys pair.2) .encrypt).pack⟩
  invFun r := ((Header.unpack r.body).under (keys r.salt) .decrypt, r.salt)
  left_inv pair := by
    have haction : Action.decrypt ≠ .encrypt := by decide
    simp only [Header.unpack_pack, Header.under_encrypt_under haction]
  right_inv r := by
    have haction : Action.decrypt ≠ .encrypt := by decide
    simp only [Header.encrypt_under_under haction, Header.pack_unpack]

theorem exists_correspondence
    (hlength : secrets.passphrase.length ≤ Format.passphraseLimit) :
    ∃ records : Header × Salt ≃ Octets 41,
      (∀ (header : Header) (salt : Salt),
        (ofHeader header secrets salt).result.map toOctets = .ok (records (header, salt))) ∧
      ∀ bytes : Octets 41,
        ((ofOctets bytes).reveal secrets .decrypt).result = .ok (records.symm bytes).1 ∧
        (ofOctets bytes).salt = (records.symm bytes).2 := by
  choose keys hderive using fun salt => @Secrets.exists_derive secrets salt hlength
  refine ⟨(sealing keys).trans layout, ?_, ?_⟩
  · intro header salt
    rw [ofHeader_of_derive (hderive salt)]
    rfl
  · intro bytes
    refine ⟨?_, rfl⟩
    rw [reveal_of_derive (hderive _) (by decide)]
    rfl

/-- Sealing and opening are inverse over the whole format: every header is found
again in its record, every 41 bytes are the record of what they open to, and no
change of the encrypted part goes unnoticed. -/
theorem ofHeader_reveal_bijection (secrets : Secrets)
    (hlength : secrets.passphrase.length ≤ Format.passphraseLimit) :
    (∀ (header : Header) (salt : Salt), ∃ r : SealedHeader,
      (ofHeader header secrets salt).result = .ok r ∧
      ofBytes r.toOctets.toList = .ok r ∧
      r.toOctets.toList.take Format.saltLength = salt.toList ∧
      ∀ action : Action, action ≠ .encrypt → (r.reveal secrets action).result = .ok header) ∧
    (∀ bytes : Bytes,
      ((∃ r, ofBytes bytes = .ok r) ↔ bytes.length = Format.recordLength) ∧
      ∀ r, ofBytes bytes = .ok r →
        r.salt.toList = bytes.take Format.saltLength ∧
        ∃ header again, (r.reveal secrets .decrypt).result = .ok header ∧
          (ofHeader header secrets r.salt).result = .ok again ∧
          again.toOctets.toList = bytes) ∧
    (∃ records : Header × Salt ≃ Octets 41,
      (∀ (header : Header) (salt : Salt),
        (ofHeader header secrets salt).result.map toOctets = .ok (records (header, salt))) ∧
      ∀ bytes : Octets 41,
        ((ofOctets bytes).reveal secrets .decrypt).result = .ok (records.symm bytes).1 ∧
        (ofOctets bytes).salt = (records.symm bytes).2) ∧
    (∀ one other : SealedHeader, one.salt = other.salt → one.body ≠ other.body →
      ∀ action : Action, action ≠ .encrypt →
        (one.reveal secrets action).result ≠ (other.reveal secrets action).result) := by
  refine ⟨?_, ?_, exists_correspondence hlength, ?_⟩
  · intro header salt
    obtain ⟨r, hseal, hsalt⟩ := exists_ofHeader header salt hlength
    refine ⟨r, hseal, ofBytes_toOctets r, ?_, ?_⟩
    · rw [take_toOctets, hsalt]
    · intro action haction
      exact reveal_ofHeader hlength haction hseal
  · intro bytes
    refine ⟨exists_ofBytes_iff, ?_⟩
    intro r hrecord
    obtain rfl := ofBytes_eq_ok_iff.1 hrecord
    have hdecrypt : Action.decrypt ≠ .encrypt := by decide
    obtain ⟨header, hreveal⟩ := exists_reveal r hlength hdecrypt
    have hagain := ofHeader_reveal hlength hdecrypt hreveal
    exact ⟨(take_toOctets r).symm, header, r, hreveal, hagain, rfl⟩
  · intro one other hsalt hbody action haction hsame
    exact hbody (congrArg body (eq_of_reveal_eq hlength haction hsalt hsame))

/-- The blank header under a salt of zeros and an empty passphrase is found again
in its record. -/
theorem ofHeader_reveal_bijection_blank :
    0 ≤ Format.passphraseLimit ∧
    ∃ r : SealedHeader,
      (ofHeader Header.blank ⟨SecretBuffer.zeroed 64, ⟨[]⟩⟩ (Octets.zero 16)).result = .ok r ∧
      ofBytes r.toOctets.toList = .ok r ∧
      r.toOctets.toList.take Format.saltLength = (Octets.zero 16).toList ∧
      ∀ action : Action, action ≠ .encrypt →
        (r.reveal ⟨SecretBuffer.zeroed 64, ⟨[]⟩⟩ action).result = .ok Header.blank :=
  ⟨by decide, (ofHeader_reveal_bijection ⟨SecretBuffer.zeroed 64, ⟨[]⟩⟩ (by decide)).1
    Header.blank (Octets.zero 16)⟩

end SealedHeader

end SealedArchive
