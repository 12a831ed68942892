import SealedArchive.Proofs.Key.Passes

/-!
# Key derivation with a scratch buffer that was used before

The scratch buffer belongs to the caller and may hold anything.  Derivation writes over the
front of it twice and hashes no byte but those that it has written, and it gives the buffer
back wiped, also when the passphrase is refused.  So what it answers comes from the secrets
and the salt alone (`deriveUnder_eq`), and derivations that share one buffer answer as
they would with a buffer each (`deriveEach_eq`).

Nothing here depends on which hash it is.  `derive` is the case of the hash of the format
and a buffer of zeros.
-/

namespace SealedArchive.Secrets

variable (hash : Bytes → Digest)

/-- The keys of the block of a salt, unless the passphrase is too long. -/
def answerUnder (secrets : Secrets) (salt : Salt) : Except Error BlockSecrets :=
  if secrets.passphrase.length ≤ Format.passphraseLimit then
    .ok (secrets.twoPasses hash salt)
  else .error (.passphraseLength secrets.passphrase.length)

theorem deriveUnder_eq (secrets : Secrets) (salt : Salt) (scratch : Scratch) :
    secrets.deriveUnder hash salt scratch =
      (secrets.answerUnder hash salt, SecretBuffer.zeroed _) := by
  unfold answerUnder
  split
  · next hlength => exact deriveUnder_of_length hash salt scratch hlength
  · next hlong => exact deriveUnder_of_long hash salt scratch (Nat.lt_of_not_le hlong)

/-- What the buffer held is of no account. -/
theorem derive_eq_fst_deriveUnder (secrets : Secrets) (salt : Salt) (scratch : Scratch) :
    secrets.derive salt = (secrets.deriveUnder Sha512.digest salt scratch).1 := by
  rw [deriveUnder_eq]
  exact congrArg Prod.fst (deriveUnder_eq Sha512.digest secrets salt _)

section

variable {hash} {secrets : Secrets} {salt : Salt}

theorem answerUnder_eq_ok_iff {keys : BlockSecrets} :
    secrets.answerUnder hash salt = .ok keys ↔
      secrets.passphrase.length ≤ Format.passphraseLimit ∧
        keys = secrets.twoPasses hash salt := by
  unfold answerUnder
  split
  · next hlength =>
    constructor
    · intro hkeys
      exact ⟨hlength, (Except.ok.inj hkeys).symm⟩
    · rintro ⟨-, rfl⟩
      rfl
  · next hlong =>
    constructor
    · intro hkeys
      cases hkeys
    · rintro ⟨hlength, -⟩
      exact absurd hlength hlong

theorem answerUnder_eq_error_iff {error : Error} :
    secrets.answerUnder hash salt = .error error ↔
      Format.passphraseLimit < secrets.passphrase.length ∧
        error = .passphraseLength secrets.passphrase.length := by
  unfold answerUnder
  split
  · next hlength =>
    constructor
    · intro hrefused
      cases hrefused
    · rintro ⟨hlong, -⟩
      exact absurd hlength (Nat.not_le.2 hlong)
  · next hlong =>
    constructor
    · intro hrefused
      exact ⟨Nat.lt_of_not_le hlong, (Except.error.inj hrefused).symm⟩
    · rintro ⟨-, rfl⟩
      rfl

end

/-! ## Derivations that share a buffer -/

/-- Some derivations one after the other, each with the buffer that the one before it gave
back. -/
def deriveEach : List (Secrets × Salt) → Scratch → List (Except Error BlockSecrets) × Scratch
  | [], scratch => ([], scratch)
  | (secrets, salt) :: calls, scratch =>
    let (answer, left) := secrets.deriveUnder hash salt scratch
    let (answers, last) := deriveEach calls left
    (answer :: answers, last)

theorem deriveEach_eq (calls : List (Secrets × Salt)) (scratch : Scratch) :
    deriveEach hash calls scratch =
      (calls.map fun call => call.1.answerUnder hash call.2,
        if calls = [] then scratch else SecretBuffer.zeroed _) := by
  induction calls generalizing scratch with
  | nil => rfl
  | cons call calls ih =>
    -- the buffer is as good as new after the first call, and stays so
    have hlast : (if calls = [] then SecretBuffer.zeroed Format.scratchLength else
        SecretBuffer.zeroed _) = SecretBuffer.zeroed _ := ite_self _
    simp only [deriveEach, deriveUnder_eq, ih, hlast, List.map_cons,
      if_neg (List.cons_ne_nil call calls)]

/-- A derivation goes well exactly when the passphrase keeps to its limit, and says so
otherwise.  Its key is the hash of the global hash, the salt and the passphrase, its other
digest that of the key, the salt and the passphrase, and the cipher gets the front of each.
None of it depends on what the scratch buffer held, and the buffer is left as zeros in every
case; so derivations that share one buffer depend on their own secrets and salts only. -/
theorem deriveUnder_two_passes :
    (∀ (hash : Bytes → Digest) (secrets : Secrets) (salt : Salt) (scratch : Scratch),
      let derivation := secrets.deriveUnder hash salt scratch
      ((∃ keys, derivation.1 = .ok keys) ↔
        secrets.passphrase.length ≤ Format.passphraseLimit) ∧
      (∀ error, derivation.1 = .error error ↔
        Format.passphraseLimit < secrets.passphrase.length ∧
          error = .passphraseLength secrets.passphrase.length) ∧
      (∀ error, derivation.1 = .error error → error.kind = .keySetup) ∧
      (∀ keys, derivation.1 = .ok keys →
        keys.key.contents = hash (secrets.globalHash.contents.toList ++
          (salt.toList ++ secrets.passphrase.bytes)) ∧
        keys.start.contents = hash (keys.key.contents.toList ++
          (salt.toList ++ secrets.passphrase.bytes)) ∧
        keys.cipherKey.toList = keys.key.contents.toList.take Format.cipherKeyLength ∧
        keys.startBlock.toList = keys.start.contents.toList.take Format.blockLength) ∧
      derivation.2.contents.toList = List.replicate Format.scratchLength 0) ∧
    (∀ (secrets : Secrets) (salt : Salt) (scratch : Scratch),
      (secrets.deriveUnder Sha512.digest salt scratch).1 = secrets.derive salt) ∧
    (∀ (hash : Bytes → Digest) (calls : List (Secrets × Salt)) (scratch : Scratch),
      (deriveEach hash calls scratch).1 = calls.map fun call =>
        (call.1.deriveUnder hash call.2 (SecretBuffer.zeroed _)).1) := by
  refine ⟨?_, fun secrets salt scratch => (derive_eq_fst_deriveUnder secrets salt scratch).symm, ?_⟩
  · intro hash secrets salt scratch
    simp only [deriveUnder_eq]
    refine ⟨?_, fun error => answerUnder_eq_error_iff, ?_, ?_, rfl⟩
    · simp only [answerUnder_eq_ok_iff, exists_and_left, exists_eq, and_true]
    · intro error hrefused
      obtain ⟨-, rfl⟩ := answerUnder_eq_error_iff.1 hrefused
      rfl
    · intro keys hkeys
      obtain ⟨-, rfl⟩ := answerUnder_eq_ok_iff.1 hkeys
      exact ⟨rfl, rfl, rfl, rfl⟩
  · intro hash calls scratch
    simp only [deriveEach_eq, deriveUnder_eq]

/-- The longest passphrase fills a buffer up to its end that was full of other bytes. -/
theorem deriveUnder_two_passes_longest :
    ∃ keys : BlockSecrets,
      (deriveUnder ⟨SecretBuffer.zeroed 64, ⟨List.replicate 512 121⟩⟩ Sha512.digest
        (Octets.zero 16) ⟨Octets.replicate _ 0xaa⟩).1 = .ok keys ∧
      keys.key.contents = Sha512.digest ((SecretBuffer.zeroed 64).contents.toList ++
        ((Octets.zero 16).toList ++ List.replicate 512 121)) ∧
      keys.start.contents = Sha512.digest (keys.key.contents.toList ++
        ((Octets.zero 16).toList ++ List.replicate 512 121)) := by
  obtain ⟨hgoesWell, -, -, hpasses, -⟩ :=
    deriveUnder_two_passes.1 Sha512.digest
      ⟨SecretBuffer.zeroed 64, ⟨List.replicate 512 121⟩⟩ (Octets.zero 16)
      ⟨Octets.replicate _ 0xaa⟩
  have hlongest : (⟨List.replicate 512 121⟩ : SecretBytes).length ≤ Format.passphraseLimit :=
    Nat.le_of_eq List.length_replicate
  obtain ⟨keys, hkeys⟩ := hgoesWell.2 hlongest
  obtain ⟨hkey, hstart, -⟩ := hpasses keys hkeys
  exact ⟨keys, hkeys, hkey, hstart⟩

end SealedArchive.Secrets
