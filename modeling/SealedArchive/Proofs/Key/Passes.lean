import SealedArchive.Key.Derivation

/-!
# The two passes of key derivation

Each pass hashes a digest, the salt and the passphrase, and nothing else, whatever
the scratch buffer held before (`deriveUnder_of_length`).  A digest and a salt have
a fixed width, so the message of a pass determines all three (`passMessage_inj`).
-/

namespace SealedArchive

/-- The message of one pass of key derivation. -/
def passMessage (hash : Digest) (salt : Salt) (passphrase : SecretBytes) : Bytes :=
  hash.toList ++ (salt.toList ++ passphrase.bytes)

theorem passMessage_inj {hash otherHash : Digest} {salt otherSalt : Salt}
    {passphrase other : SecretBytes}
    (hsame : passMessage hash salt passphrase = passMessage otherHash otherSalt other) :
    hash = otherHash ∧ salt = otherSalt ∧ passphrase = other := by
  obtain ⟨hhash, hlater⟩ := List.append_inj hsame (by simp)
  obtain ⟨hsalt, hpassphrase⟩ := List.append_inj hlater (by simp)
  cases passphrase
  cases other
  exact ⟨Octets.ext hhash, Octets.ext hsalt, congrArg SecretBytes.mk hpassphrase⟩

namespace Secrets

/-- The message of the first pass. -/
def keyMessage (secrets : Secrets) (salt : Salt) : Bytes :=
  passMessage secrets.globalHash.contents salt secrets.passphrase

/-- The message of the second pass, which has the key in place of the global
hash. -/
def startMessage (secrets : Secrets) (salt : Salt) : Bytes :=
  passMessage (Sha512.digest (secrets.keyMessage salt)) salt secrets.passphrase

variable {secrets : Secrets}

/-- What two passes under a hash come to: the hash of the message with the global hash, and
that of the message with the first one in its place. -/
def twoPasses (secrets : Secrets) (hash : Bytes → Digest) (salt : Salt) : BlockSecrets :=
  let key := hash (secrets.keyMessage salt)
  ⟨⟨key⟩, ⟨hash (passMessage key salt secrets.passphrase)⟩⟩

theorem deriveUnder_of_length (hash : Bytes → Digest) (salt : Salt) (scratch : Scratch)
    (hlength : secrets.passphrase.length ≤ Format.passphraseLimit) :
    secrets.deriveUnder hash salt scratch =
      (.ok (secrets.twoPasses hash salt), SecretBuffer.zeroed _) := by
  have hbytes : secrets.passphrase.bytes.length ≤ Format.passphraseLimit := hlength
  apply Prod.ext
  · rw [deriveUnder, SecretBuffer.fst_lend]
    simp only [dif_pos hbytes, Scratch.used_fill]
    rfl
  · rfl

theorem deriveUnder_of_long (hash : Bytes → Digest) (salt : Salt) (scratch : Scratch)
    (hlong : Format.passphraseLimit < secrets.passphrase.length) :
    secrets.deriveUnder hash salt scratch =
      (.error (.passphraseLength secrets.passphrase.length), SecretBuffer.zeroed _) := by
  have hbytes : ¬secrets.passphrase.bytes.length ≤ Format.passphraseLimit := Nat.not_le.2 hlong
  apply Prod.ext
  · rw [deriveUnder, SecretBuffer.fst_lend]
    simp only [dif_neg hbytes]
    rfl
  · rfl

theorem deriveWith_of_length (salt : Salt) (scratch : Scratch)
    (hlength : secrets.passphrase.length ≤ Format.passphraseLimit) :
    secrets.deriveWith salt scratch =
      (.ok ⟨⟨Sha512.digest (secrets.keyMessage salt)⟩,
        ⟨Sha512.digest (secrets.startMessage salt)⟩⟩, SecretBuffer.zeroed _) :=
  deriveUnder_of_length Sha512.digest salt scratch hlength

theorem deriveWith_of_long (salt : Salt) (scratch : Scratch)
    (hlong : Format.passphraseLimit < secrets.passphrase.length) :
    secrets.deriveWith salt scratch =
      (.error (.passphraseLength secrets.passphrase.length), SecretBuffer.zeroed _) :=
  deriveUnder_of_long Sha512.digest salt scratch hlong

theorem derive_of_long (salt : Salt)
    (hlong : Format.passphraseLimit < secrets.passphrase.length) :
    secrets.derive salt = .error (.passphraseLength secrets.passphrase.length) :=
  congrArg Prod.fst (deriveWith_of_long salt _ hlong)

theorem derive_of_length (salt : Salt)
    (hlength : secrets.passphrase.length ≤ Format.passphraseLimit) :
    secrets.derive salt =
      .ok ⟨⟨Sha512.digest (secrets.keyMessage salt)⟩,
        ⟨Sha512.digest (secrets.startMessage salt)⟩⟩ :=
  congrArg Prod.fst (deriveWith_of_length salt _ hlength)

end Secrets

end SealedArchive
