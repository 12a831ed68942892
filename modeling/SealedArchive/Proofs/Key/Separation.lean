import SealedArchive.Proofs.Key.Passes

/-!
# Keys of different blocks

Equal keys or equal starting blocks of two blocks that differ in a salt or a secret
come down to two different messages with one digest, and these can be named: they
are the messages of the first pass, or those of the second (`derive_separates`).
-/

namespace SealedArchive.Secrets

variable {secrets others : Secrets} {salt otherSalt : Salt}

theorem keyMessage_inj (hsame : secrets.keyMessage salt = others.keyMessage otherSalt) :
    secrets.globalHash = others.globalHash ∧ salt = otherSalt ∧
      secrets.passphrase = others.passphrase := by
  obtain ⟨hhash, hrest⟩ := passMessage_inj hsame
  exact ⟨congrArg SecretBuffer.mk hhash, hrest⟩

/-- The digests of the first pass are in the messages of the second. -/
theorem collision_of_startMessage (hne : secrets.keyMessage salt ≠ others.keyMessage otherSalt)
    (hdigest : Sha512.digest (secrets.startMessage salt) =
      Sha512.digest (others.startMessage otherSalt)) :
    Sha512.Collision (secrets.keyMessage salt) (others.keyMessage otherSalt) ∨
      Sha512.Collision (secrets.startMessage salt) (others.startMessage otherSalt) := by
  by_cases hsame : secrets.startMessage salt = others.startMessage otherSalt
  · obtain ⟨hkey, -, -⟩ := passMessage_inj hsame
    exact .inl ⟨hne, hkey⟩
  · exact .inr ⟨hsame, hdigest⟩

/-- Two blocks that differ in their salt, in the passphrase or in its hash have
different keys and different starting blocks, unless two different messages of one
pass have the same digest. -/
theorem derive_separates (hlength : secrets.passphrase.length ≤ Format.passphraseLimit)
    (hotherLength : others.passphrase.length ≤ Format.passphraseLimit)
    (hdifferent : secrets.globalHash ≠ others.globalHash ∨ salt ≠ otherSalt ∨
      secrets.passphrase ≠ others.passphrase) :
    ∃ keys otherKeys : BlockSecrets,
      secrets.derive salt = .ok keys ∧ others.derive otherSalt = .ok otherKeys ∧
      (keys.key = otherKeys.key →
        Sha512.Collision (secrets.keyMessage salt) (others.keyMessage otherSalt)) ∧
      (keys.start = otherKeys.start →
        Sha512.Collision (secrets.keyMessage salt) (others.keyMessage otherSalt) ∨
          Sha512.Collision (secrets.startMessage salt) (others.startMessage otherSalt)) ∧
      (¬ Sha512.Collision (secrets.keyMessage salt) (others.keyMessage otherSalt) →
        ¬ Sha512.Collision (secrets.startMessage salt) (others.startMessage otherSalt) →
        keys.key ≠ otherKeys.key ∧ keys.start ≠ otherKeys.start) := by
  have hne : secrets.keyMessage salt ≠ others.keyMessage otherSalt := by
    intro hsame
    obtain ⟨hhash, hsalt, hpassphrase⟩ := keyMessage_inj hsame
    rcases hdifferent with hother | hother | hother
    · exact hother hhash
    · exact hother hsalt
    · exact hother hpassphrase
  refine ⟨_, _, derive_of_length salt hlength, derive_of_length otherSalt hotherLength, ?_⟩
  have hkey (hsame : (⟨Sha512.digest (secrets.keyMessage salt)⟩ : SecretBuffer 64) =
      ⟨Sha512.digest (others.keyMessage otherSalt)⟩) :
      Sha512.Collision (secrets.keyMessage salt) (others.keyMessage otherSalt) :=
    ⟨hne, congrArg SecretBuffer.contents hsame⟩
  have hstart (hsame : (⟨Sha512.digest (secrets.startMessage salt)⟩ : SecretBuffer 64) =
      ⟨Sha512.digest (others.startMessage otherSalt)⟩) :
      Sha512.Collision (secrets.keyMessage salt) (others.keyMessage otherSalt) ∨
        Sha512.Collision (secrets.startMessage salt) (others.startMessage otherSalt) :=
    collision_of_startMessage hne (congrArg SecretBuffer.contents hsame)
  refine ⟨hkey, hstart, ?_⟩
  intro hnoKey hnoStart
  constructor
  · intro hsame
    exact hnoKey (hkey hsame)
  · intro hsame
    rcases hstart hsame with hcollision | hcollision
    · exact hnoKey hcollision
    · exact hnoStart hcollision

/-- A passphrase and the same one with a zero behind it, under one hash and one
salt. -/
theorem derive_separates_zero :
    ((⟨[1]⟩ : SecretBytes).length ≤ Format.passphraseLimit ∧
      (⟨[1, 0]⟩ : SecretBytes).length ≤ Format.passphraseLimit ∧
      (⟨[1]⟩ : SecretBytes) ≠ ⟨[1, 0]⟩) ∧
    ∃ keys otherKeys : BlockSecrets,
      derive ⟨SecretBuffer.zeroed 64, ⟨[1]⟩⟩ (Octets.zero 16) = .ok keys ∧
      derive ⟨SecretBuffer.zeroed 64, ⟨[1, 0]⟩⟩ (Octets.zero 16) = .ok otherKeys ∧
      (keys.key = otherKeys.key →
        Sha512.Collision (keyMessage ⟨SecretBuffer.zeroed 64, ⟨[1]⟩⟩ (Octets.zero 16))
          (keyMessage ⟨SecretBuffer.zeroed 64, ⟨[1, 0]⟩⟩ (Octets.zero 16))) := by
  refine ⟨⟨by decide, by decide, by decide⟩, ?_⟩
  obtain ⟨keys, otherKeys, hkeys, hotherKeys, hkey, -⟩ :=
    @derive_separates ⟨SecretBuffer.zeroed 64, ⟨[1]⟩⟩ ⟨SecretBuffer.zeroed 64, ⟨[1, 0]⟩⟩
      (Octets.zero 16) (Octets.zero 16) (by decide) (by decide) (.inr (.inr (by decide)))
  exact ⟨keys, otherKeys, hkeys, hotherKeys, hkey⟩

end SealedArchive.Secrets
