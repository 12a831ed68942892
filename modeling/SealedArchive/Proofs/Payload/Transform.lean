import SealedArchive.Payload
import SealedArchive.Proofs.Key.Passes
import SealedArchive.Proofs.Stealing.InPlace

/-!
# What a transform does to a payload

A transform derives the keys of the salt, keys the cipher, tells what it is about to do
and works in place; some of these steps can fail.  When the keys can be
derived none of the later ones does (`transform_of_derive`), and the keys can be
derived as soon as the passphrase keeps to its limit (`exists_derive`).
-/

namespace SealedArchive

/-- What happens while the keys of a block are derived. -/
def BlockSecrets.events : List Event :=
  [.pinning Format.scratchLength, .pinning Format.digestLength, .pinning Format.digestLength]

namespace Action

/-- What happens while a buffer of some length is transformed. -/
def events (length : Nat) (action : Action) : List Event :=
  BlockSecrets.events ++ (action.event? length).toList

/-- The bytes that come of a text. -/
def bytes (cipher : BlockCipher) (start : Block) (text : Bytes) : Action → Bytes
  | encrypt => Stealing.encipher cipher start text
  | decrypt | validate => Stealing.decipher cipher start text

@[simp] theorem length_bytes (cipher : BlockCipher) (start : Block) (text : Bytes)
    (action : Action) : (action.bytes cipher start text).length = text.length := by
  cases action <;> simp [bytes]

theorem run_toList {n : Nat} (cipher : BlockCipher) (start : Block) (buffer : Octets n)
    (action : Action) :
    action.run cipher start.toList buffer =
      .ok ⟨action.bytes cipher start buffer.toList, by simp⟩ := by
  cases action with
  | encrypt => exact Stealing.encrypt_toList cipher start buffer
  | decrypt | validate => exact Stealing.decrypt_toList cipher start buffer

end Action

namespace Secrets

variable {secrets : Secrets} {salt : Salt} {keys : BlockSecrets}

/-- The keys of a salt are derived from every passphrase that keeps to its
limit. -/
theorem exists_derive (salt : Salt)
    (hlength : secrets.passphrase.length ≤ Format.passphraseLimit) :
    ∃ keys, secrets.derive salt = .ok keys :=
  ⟨_, derive_of_length salt hlength⟩

theorem deriveTraced_of_derive (hderive : secrets.derive salt = .ok keys) :
    secrets.deriveTraced salt = ⟨.ok keys, BlockSecrets.events⟩ := by
  rw [deriveTraced, hderive]
  rfl

/-- A passphrase is refused when there is a scratch buffer already. -/
theorem deriveTraced_of_refused {error : Error} (hrefused : secrets.derive salt = .error error) :
    secrets.deriveTraced salt = ⟨.error error, [.pinning Format.scratchLength]⟩ := by
  rw [deriveTraced, hrefused]
  rfl

theorem keyed_cipherKey (keys : BlockSecrets) :
    Stealing.keyed keys.cipherKey.toList = .ok (Aes.cipher keys.cipherKey) := by
  simp [Stealing.keyed]

theorem transformInPlace_of_derive {n : Nat} (hderive : secrets.derive salt = .ok keys)
    (action : Action) (buffer : Octets n) :
    secrets.transformInPlace salt action buffer =
      ⟨.ok ⟨action.bytes (Aes.cipher keys.cipherKey) keys.startBlock buffer.toList, by simp⟩,
        action.events n⟩ := by
  have hkeys := deriveTraced_of_derive hderive
  rw [transformInPlace, Traced.bind_of_ok _ (congrArg Traced.result hkeys), hkeys,
    keyed_cipherKey, Traced.ofExcept_ok_bind, Traced.emitAll_bind, Action.run_toList]
  simp only [Traced.ofExcept, List.append_nil, Action.events]

theorem transform_of_derive (hderive : secrets.derive salt = .ok keys) (action : Action)
    (buffer : Bytes) :
    secrets.transform salt action buffer =
      ⟨.ok (action.bytes (Aes.cipher keys.cipherKey) keys.startBlock buffer),
        action.events buffer.length⟩ := by
  have hwork := transformInPlace_of_derive hderive action (⟨buffer, rfl⟩ : Octets buffer.length)
  rw [transform, Traced.bind_of_ok _ (congrArg Traced.result hwork), hwork]
  simp only [Traced.result_pure, Traced.events_pure, List.append_nil]

/-- Without keys nothing is done, and nothing happens after the scratch buffer. -/
theorem transformInPlace_of_refused {n : Nat} {error : Error}
    (hrefused : secrets.derive salt = .error error) (action : Action) (buffer : Octets n) :
    secrets.transformInPlace salt action buffer =
      ⟨.error error, [.pinning Format.scratchLength]⟩ := by
  have hkeys := deriveTraced_of_refused hrefused
  rw [transformInPlace, Traced.bind_of_error _ (congrArg Traced.result hkeys), hkeys]

theorem transform_of_refused {error : Error} (hrefused : secrets.derive salt = .error error)
    (action : Action) (buffer : Bytes) :
    secrets.transform salt action buffer =
      ⟨.error error, [.pinning Format.scratchLength]⟩ := by
  rw [transform, transformInPlace_of_refused hrefused]
  rfl

end Secrets

end SealedArchive
