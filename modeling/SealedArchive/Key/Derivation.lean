import SealedArchive.Cipher
import SealedArchive.Format
import SealedArchive.Inspection
import SealedArchive.Key.Stretch

/-!
# Keys of a block

Every block has a salt, and a key and a starting block of its own.  The key is
the hash of the global hash, the salt and the passphrase; the starting block
comes from the hash of that key, the salt and the passphrase.

Both messages are put together in one scratch buffer, of which only the part in
use is hashed, and the scratch buffer is wiped before the keys are handed out.
-/

namespace SealedArchive

open Format (blockLength cipherKeyLength digestLength passphraseLimit saltLength scratchLength)

/-- The salt of a block. -/
abbrev Salt := Octets saltLength

/-- The secrets of an archive, from which the keys of its blocks come. -/
structure Secrets where
  globalHash : GlobalHash
  passphrase : SecretBytes

/-- The keys of one block, each a whole digest. -/
structure BlockSecrets where
  key : SecretBuffer digestLength
  start : SecretBuffer digestLength
  deriving DecidableEq

namespace BlockSecrets

/-- The part of the key that the cipher uses. -/
def cipherKey (s : BlockSecrets) : Octets cipherKeyLength :=
  s.key.contents.slice 0 cipherKeyLength (by decide)

/-- The part of the other digest that the chain starts from. -/
def startBlock (s : BlockSecrets) : Block :=
  s.start.contents.slice 0 blockLength (by decide)

/-- What is shown of the keys: how long they are. -/
def shown (s : BlockSecrets) : Shown :=
  .record "BlockKeys" [("key", s.key.shown), ("iv", s.start.shown)]

end BlockSecrets

/-- Room for the message of one pass: a digest, a salt and a passphrase. -/
abbrev Scratch := SecretBuffer scratchLength

/-- The scratch buffer with the message of one pass at its front. -/
def Scratch.fill (scratch : Scratch) (hash : Digest) (salt : Salt) (passphrase : Bytes)
    (hlength : passphrase.length ≤ passphraseLimit) : Scratch :=
  have hpassphrase : digestLength + saltLength + passphrase.length ≤ scratchLength :=
    Nat.add_le_add_left hlength _
  have hhash : 0 + hash.toList.length ≤ scratchLength := by simp; decide
  have hsalt : digestLength + salt.toList.length ≤ scratchLength := by simp; decide
  ((scratch.overwrite 0 hash.toList hhash).overwrite digestLength salt.toList hsalt).overwrite
    (digestLength + saltLength) passphrase hpassphrase

/-- The first bytes of the scratch buffer. -/
def Scratch.used (scratch : Scratch) (length : Nat) : Bytes :=
  scratch.contents.toList.take length

/-- The part in use is the message, whatever was in the buffer before. -/
theorem Scratch.used_fill (scratch : Scratch) (hash : Digest) (salt : Salt) (passphrase : Bytes)
    (hlength : passphrase.length ≤ passphraseLimit) :
    (Scratch.fill scratch hash salt passphrase hlength).used
        (digestLength + saltLength + passphrase.length) =
      hash.toList ++ (salt.toList ++ passphrase) := by
  have hfront (later : Bytes) :
      (hash.toList ++ (salt.toList ++ later)).take (digestLength + saltLength) =
        hash.toList ++ salt.toList := by
    rw [← List.append_assoc]
    exact List.take_left' (by simp)
  simp only [Scratch.used, Scratch.fill, SecretBuffer.overwrite, Octets.overwrite, List.take_zero,
    List.nil_append]
  rw [List.take_left' hash.length_toList, hfront,
    ← List.append_assoc (hash.toList ++ salt.toList), List.take_left' (by simp; omega),
    List.append_assoc]

namespace Secrets

/-- The keys of the block of a salt under some hash, with the scratch buffer that was
lent. -/
def deriveUnder (secrets : Secrets) (hash : Bytes → Digest) (salt : Salt) (scratch : Scratch) :
    Except Error BlockSecrets × Scratch :=
  scratch.lend fun lent =>
    let passphrase := secrets.passphrase.bytes
    if hlength : passphrase.length ≤ passphraseLimit then
      let first := Scratch.fill lent secrets.globalHash.contents salt passphrase hlength
      let key := hash (Scratch.used first (digestLength + saltLength + passphrase.length))
      let second := Scratch.fill first key salt passphrase hlength
      let start := hash (Scratch.used second (digestLength + saltLength + passphrase.length))
      (.ok ⟨⟨key⟩, ⟨start⟩⟩, second)
    else (.error (.passphraseLength passphrase.length), lent)

/-- The same under the hash of the format. -/
def deriveWith (secrets : Secrets) (salt : Salt) (scratch : Scratch) :
    Except Error BlockSecrets × Scratch :=
  secrets.deriveUnder Sha512.digest salt scratch

/-- The keys of the block of a salt. -/
def derive (secrets : Secrets) (salt : Salt) : Except Error BlockSecrets :=
  (secrets.deriveWith salt (SecretBuffer.zeroed _)).1

/-- The same with its events.  Memory is taken for the scratch buffer before the passphrase
is looked at, and for the two keys after it. -/
def deriveTraced (secrets : Secrets) (salt : Salt) : Traced BlockSecrets := do
  Traced.emit (.pinning scratchLength)
  let keys ← Traced.ofExcept (secrets.derive salt)
  Traced.emit (.pinning digestLength)
  Traced.emit (.pinning digestLength)
  return keys

end Secrets

end SealedArchive
