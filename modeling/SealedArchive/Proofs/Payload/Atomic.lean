import SealedArchive.Payload
import SealedArchive.Proofs.Log
import SealedArchive.Proofs.Payload.Transform
import SealedArchive.Proofs.Stealing.Buffer

/-!
# A transform does all of its work or none

The work in place goes through many ranges of the buffer, and an error after the first of
them would leave the buffer half done.  There is none: what can fail is the key, the
starting block and the passphrase, and all three are looked at before the buffer is touched
(`Action.runOn_work_of_length_ne`, `Secrets.transformHere_eq`).
-/

namespace SealedArchive

namespace Stealing

/-! ## Keys and starting blocks -/

end Stealing

namespace Action

variable {n : Nat} {cipher : BlockCipher} {start : Bytes} {buffer after : Octets n}
  {action : Action}

theorem runOn_work_of_run (hrun : action.run cipher start buffer = .ok after) :
    (action.work cipher start).runOn buffer = (.ok (), after) := by
  cases action with
  | encrypt => exact Stealing.runOn_encryptHere cipher hrun
  | decrypt | validate => exact Stealing.runOn_decryptHere cipher hrun

end Action

namespace Secrets

variable {secrets : Secrets} {salt : Salt} {n : Nat}

/-- The transform on the buffer that stays is the transform in place, with the buffer as it
was where that one has none to give. -/
theorem transformHere_eq (secrets : Secrets) (salt : Salt) (action : Action)
    (buffer : Octets n) :
    secrets.transformHere salt action buffer =
      (secrets.transformInPlace salt action buffer).replace buffer := by
  cases hderive : secrets.derive salt with
  | error error =>
    have hkeys := deriveTraced_of_refused hderive
    rw [transformInPlace_of_refused hderive]
    simp only [transformHere, prepare, hkeys]
    rfl
  | ok keys =>
    have hprepare : secrets.prepare salt action n =
        ⟨.ok (Aes.cipher keys.cipherKey, keys.startBlock), action.events n⟩ := by
      have hkeys := deriveTraced_of_derive hderive
      rw [prepare, Traced.bind_of_ok _ (congrArg Traced.result hkeys), hkeys, keyed_cipherKey,
        Traced.ofExcept_ok_bind, Traced.emitAll_bind, Traced.result_pure, Traced.events_pure,
        List.append_nil, Action.events]
    rw [transformInPlace_of_derive hderive]
    simp only [transformHere, hprepare,
      Action.runOn_work_of_run (Action.run_toList _ keys.startBlock buffer action)]
    rfl

theorem transformHere_of_length (salt : Salt) (action : Action) (buffer : Octets n)
    (hlength : secrets.passphrase.length ≤ Format.passphraseLimit) :
    (secrets.transformHere salt action buffer).1 = ⟨.ok (), action.events n⟩ := by
  obtain ⟨keys, hderive⟩ := exists_derive salt hlength
  rw [transformHere_eq, transformInPlace_of_derive hderive]
  rfl

end Secrets

end SealedArchive
