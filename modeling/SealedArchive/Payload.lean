import SealedArchive.Cipher.Stealing
import SealedArchive.Key.Derivation

/-!
# Payloads of blocks

A payload is encrypted and decrypted under the keys of its salt, and keeps its
length.  The log tells the direction and the length of each transform.  A reader that
only looks whether a block can be decrypted leaves no line there.

`transformHere` is the same transform with the buffer shown also when it fails.  The keys,
the cipher and the events come first, and only then is the buffer touched.

A writer first fills a short payload up to one cipher block with random bytes.  They come
from a source that hands out fresh bytes on each draw.  The source is a value: where it
stands is part of it, so a run with the same source draws the same bytes.  Nothing else in
the library depends on which bytes a source holds.
-/

namespace SealedArchive

/-- What is done to a payload. -/
inductive Action where
  | encrypt
  | decrypt
  /-- The same bytes as `decrypt`, without a line in the log. -/
  | validate
  deriving DecidableEq

namespace Action

/-- The event that the log tells of a buffer of some length. -/
def event? (length : Nat) : Action → Option Event
  | encrypt => some (.encrypting length)
  | decrypt => some (.decrypting length)
  | validate => none

/-- What the action makes of a buffer under a cipher. -/
def run {n : Nat} (cipher : BlockCipher) (start : Bytes) (buffer : Octets n) :
    Action → Except Error (Octets n)
  | encrypt => Stealing.encrypt cipher start buffer
  | decrypt | validate => Stealing.decrypt cipher start buffer

end Action

namespace Secrets

/-- A buffer encrypted or decrypted in place under the keys of a salt. -/
def transformInPlace {n : Nat} (secrets : Secrets) (salt : Salt) (action : Action)
    (buffer : Octets n) : Traced (Octets n) := do
  let keys ← secrets.deriveTraced salt
  let cipher ← Traced.ofExcept (Stealing.keyed keys.cipherKey.toList)
  Traced.emitAll (action.event? n).toList
  Traced.ofExcept (action.run cipher keys.startBlock.toList buffer)

/-- A buffer of any length encrypted or decrypted under the keys of a salt. -/
def transform (secrets : Secrets) (salt : Salt) (action : Action) (buffer : Bytes) :
    Traced Bytes := do
  let transformed ← secrets.transformInPlace salt action (⟨buffer, rfl⟩ : Octets buffer.length)
  return transformed.toList

end Secrets

/-! ## On a buffer that stays -/

/-- The action as work on the buffer under a cipher. -/
def Action.work {n : Nat} (cipher : BlockCipher) (start : Bytes) : Action → Work n Unit
  | encrypt => Stealing.encryptHere cipher start
  | decrypt | validate => Stealing.decryptHere cipher start

namespace Secrets

/-- The cipher and the starting block for a transform of a buffer of some length, with the
events of the transform. -/
def prepare (secrets : Secrets) (salt : Salt) (action : Action) (length : Nat) :
    Traced (BlockCipher × Block) := do
  let keys ← secrets.deriveTraced salt
  let cipher ← Traced.ofExcept (Stealing.keyed keys.cipherKey.toList)
  Traced.emitAll (action.event? length).toList
  return (cipher, keys.startBlock)

/-- The buffer encrypted or decrypted where it stands under the keys of a salt: how it went,
and what is left in the buffer. -/
def transformHere {n : Nat} (secrets : Secrets) (salt : Salt) (action : Action)
    (buffer : Octets n) : Traced Unit × Octets n :=
  let prepared := secrets.prepare salt action n
  match prepared.result with
  | .error error => (⟨.error error, prepared.events⟩, buffer)
  | .ok (cipher, start) =>
    let (result, after) := (action.work cipher start.toList).runOn buffer
    (⟨result, prepared.events⟩, after)

end Secrets

/-! ## Random bytes -/

/-- An endless supply of digests, and the number of those used up. -/
structure RandomSource where
  supply : Nat → Digest
  used : Nat

namespace RandomSource

/-- A supply that hashes a seed with a counter. -/
def ofSeed (seed : Bytes) : RandomSource :=
  ⟨fun index => Sha512.digest (seed ++ LittleEndian.digits 8 index), 0⟩

/-- The digests that a draw of some bytes needs. -/
def digestsFor (count : Nat) : Nat := (count + 63) / 64

/-- The next `count` bytes, and the source after them. -/
def draw (source : RandomSource) (count : Nat) : Octets count × RandomSource :=
  let drawn := (List.range (digestsFor count)).map fun index => source.supply (source.used + index)
  (⟨(join drawn).take count, by simp [drawn, digestsFor]; omega⟩,
    { source with used := source.used + digestsFor count })

end RandomSource

/-! ## Padding -/

namespace Payload

/-- The number of bytes that a payload lacks to make one cipher block. -/
def missing (payload : Bytes) : Nat := Format.payloadMinimum - payload.length

/-- The payload with random bytes after it, to make at least one cipher block. -/
def pad (source : RandomSource) (payload : Bytes) : Bytes × RandomSource :=
  let (filler, later) := source.draw (missing payload)
  (payload ++ filler.toList, later)

end Payload

end SealedArchive
