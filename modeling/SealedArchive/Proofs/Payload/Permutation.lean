import SealedArchive.Proofs.Payload.Transform
import SealedArchive.Proofs.Stealing.Inverse

/-!
# A transform permutes the payloads of each length

Under fixed secrets and a fixed salt, encrypting and decrypting undo each other
in both orders and keep the length.  So two different ciphertexts never have one
plaintext, and a ciphertext with a single bit turned over is decrypted to other
bytes than before (`transform_permutes`).
-/

namespace SealedArchive

/-! ## A bit turned over -/

/-- A byte string with one bit turned over, counted from the lowest bit of the first byte. -/
def flipBit (bytes : Bytes) (bit : Nat) : Bytes :=
  bytes.modify (bit / 8) fun byte => byte ^^^ (1 <<< UInt8.ofNat (bit % 8))

theorem xor_single_bit_ne (byte : UInt8) {bit : Nat} (hbit : bit < 8) :
    byte ^^^ (1 <<< UInt8.ofNat bit) ≠ byte := by
  have hsingle : ∀ index : Fin 8, (1 : UInt8) <<< UInt8.ofNat index.val ≠ 0 := by decide
  intro hsame
  apply hsingle ⟨bit, hbit⟩
  have hmask := congrArg (byte ^^^ ·) hsame
  simpa only [← UInt8.xor_assoc, UInt8.xor_self, UInt8.zero_xor] using hmask

theorem flipBit_ne {bytes : Bytes} {bit : Nat} (hbit : bit < 8 * bytes.length) :
    flipBit bytes bit ≠ bytes := by
  intro hsame
  have hindex : bit / 8 < bytes.length := by omega
  have hbyte := congrArg (·[bit / 8]?) hsame
  simp only [flipBit, List.getElem?_modify_eq, List.getElem?_eq_getElem hindex,
    Option.map_eq_map, Option.map_some, Option.some.injEq] at hbyte
  exact xor_single_bit_ne _ (Nat.mod_lt bit (by decide)) hbyte

/-! ## Both directions -/

namespace Action

variable (cipher : BlockCipher) (start : Block)

theorem bytes_encrypt_bytes {action : Action} (haction : action ≠ .encrypt) (text : Bytes) :
    action.bytes cipher start (Action.encrypt.bytes cipher start text) = text := by
  cases action with
  | encrypt => exact absurd rfl haction
  | decrypt | validate => exact Stealing.decipher_encipher cipher start text

theorem encrypt_bytes_bytes {action : Action} (haction : action ≠ .encrypt) (text : Bytes) :
    Action.encrypt.bytes cipher start (action.bytes cipher start text) = text := by
  cases action with
  | encrypt => exact absurd rfl haction
  | decrypt | validate => exact Stealing.encipher_decipher cipher start text

theorem bytes_injective {action : Action} (haction : action ≠ .encrypt) {one other : Bytes}
    (hsame : action.bytes cipher start one = action.bytes cipher start other) : one = other := by
  rw [← encrypt_bytes_bytes cipher start haction one, hsame,
    encrypt_bytes_bytes cipher start haction other]

end Action

namespace Secrets

variable {secrets : Secrets}

theorem exists_encrypted (salt : Salt)
    (hlength : secrets.passphrase.length ≤ Format.passphraseLimit) (plain : Bytes) :
    ∃ hidden : Bytes, (secrets.transform salt .encrypt plain).result = .ok hidden ∧
      hidden.length = plain.length ∧
      ∀ action : Action, action ≠ .encrypt →
        (secrets.transform salt action hidden).result = .ok plain := by
  obtain ⟨keys, hderive⟩ := exists_derive salt hlength
  refine ⟨_, congrArg Traced.result (transform_of_derive hderive .encrypt plain), by simp, ?_⟩
  intro action haction
  simp only [transform_of_derive hderive, Action.bytes_encrypt_bytes _ _ haction]

theorem exists_decrypted (salt : Salt)
    (hlength : secrets.passphrase.length ≤ Format.passphraseLimit) {action : Action}
    (haction : action ≠ .encrypt) (hidden : Bytes) :
    ∃ plain : Bytes, (secrets.transform salt action hidden).result = .ok plain ∧
      plain.length = hidden.length ∧
      (secrets.transform salt .encrypt plain).result = .ok hidden := by
  obtain ⟨keys, hderive⟩ := exists_derive salt hlength
  refine ⟨_, congrArg Traced.result (transform_of_derive hderive action hidden), by simp, ?_⟩
  simp only [transform_of_derive hderive, Action.encrypt_bytes_bytes _ _ haction]

theorem eq_of_transform_eq (salt : Salt)
    (hlength : secrets.passphrase.length ≤ Format.passphraseLimit) {action : Action}
    (haction : action ≠ .encrypt) {one other : Bytes}
    (hsame : (secrets.transform salt action one).result =
      (secrets.transform salt action other).result) : one = other := by
  obtain ⟨keys, hderive⟩ := exists_derive salt hlength
  simp only [transform_of_derive hderive, Except.ok.injEq] at hsame
  exact Action.bytes_injective _ _ haction hsame

/-- Encryption and either kind of decryption are two-sided inverses on the
payloads of every length, and no change of a ciphertext goes unnoticed. -/
theorem transform_permutes (secrets : Secrets) (salt : Salt) (action : Action)
    (hlength : secrets.passphrase.length ≤ Format.passphraseLimit)
    (haction : action ≠ .encrypt) :
    (∀ plain : Bytes, ∃ hidden : Bytes,
      (secrets.transform salt .encrypt plain).result = .ok hidden ∧
      hidden.length = plain.length ∧
      (secrets.transform salt action hidden).result = .ok plain) ∧
    (∀ hidden : Bytes, ∃ plain : Bytes,
      (secrets.transform salt action hidden).result = .ok plain ∧
      plain.length = hidden.length ∧
      (secrets.transform salt .encrypt plain).result = .ok hidden) ∧
    (∀ one other : Bytes, one ≠ other →
      (secrets.transform salt action one).result ≠
        (secrets.transform salt action other).result) ∧
    (∀ (hidden : Bytes) (bit : Nat), bit < 8 * hidden.length →
      (secrets.transform salt action (flipBit hidden bit)).result ≠
        (secrets.transform salt action hidden).result) := by
  have hdifferent : ∀ one other : Bytes, one ≠ other →
      (secrets.transform salt action one).result ≠
        (secrets.transform salt action other).result := by
    intro one other hne hsame
    exact hne (eq_of_transform_eq salt hlength haction hsame)
  refine ⟨?_, ?_, hdifferent, ?_⟩
  · intro plain
    obtain ⟨hidden, hencrypt, hcount, hdecrypt⟩ := exists_encrypted salt hlength plain
    exact ⟨hidden, hencrypt, hcount, hdecrypt action haction⟩
  · intro hidden
    exact exists_decrypted salt hlength haction hidden
  · intro hidden bit hbit
    exact hdifferent _ _ (flipBit_ne hbit)

/-- Seventeen bytes under an empty passphrase are encrypted with a tail of one
byte, and validated again. -/
theorem transform_permutes_tail :
    (0 ≤ Format.passphraseLimit ∧ Action.validate ≠ .encrypt) ∧
    ∃ hidden : Bytes,
      ((⟨SecretBuffer.zeroed 64, ⟨[]⟩⟩ : Secrets).transform (Octets.zero 16) .encrypt
        (List.replicate 17 1)).result = .ok hidden ∧
      hidden.length = (List.replicate 17 (1 : UInt8)).length ∧
      ((⟨SecretBuffer.zeroed 64, ⟨[]⟩⟩ : Secrets).transform (Octets.zero 16) .validate
        hidden).result = .ok (List.replicate 17 1) :=
  ⟨⟨by decide, by decide⟩,
    (transform_permutes ⟨SecretBuffer.zeroed 64, ⟨[]⟩⟩ (Octets.zero 16) .validate (by decide)
      (by decide)).1 (List.replicate 17 1)⟩

end Secrets

end SealedArchive
