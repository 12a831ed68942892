import SealedArchive.Cipher
import SealedArchive.Octets.Work

/-!
# Chaining in place

The bytes of a range are worked on where they stand, one block after the other, and the chain
is held beside them.  Enciphering leaves in the buffer what the chain goes on from.
Deciphering overwrites it, so there the ciphertext block is saved before the block is touched.
A range that is not a whole number of blocks is refused before the first block.

A `Strand` is a piece that is the whole of its buffer, with the chain that one call hands on
to the next.
-/

namespace SealedArchive.Chaining

open Format (blockLength)

variable {n : Nat}

/-- Masks the block at a place with the chain and enciphers it there.  The chain goes on
from what then stands there. -/
def encryptBlock (cipher : BlockCipher) (place : Nat) (chain : Block) : Work n Block := do
  Work.mask chain.toList place (place + blockLength)
  Work.mapBlock cipher.encrypt place (place + blockLength)
  ofExcept (chain.setRange 0 blockLength (← Work.read place (place + blockLength)))

/-- Deciphers the block at a place and takes the chain out of it.  The chain goes on from
what stood there, which is saved first. -/
def decryptBlock (cipher : BlockCipher) (place : Nat) (chain : Block) : Work n Block := do
  let next ← ofExcept
    ((Octets.zero blockLength).setRange 0 blockLength (← Work.read place (place + blockLength)))
  Work.mapBlock cipher.decrypt place (place + blockLength)
  Work.mask chain.toList place (place + blockLength)
  ofExcept (chain.setRange 0 blockLength next.toList)

/-- The work on some blocks in turn, the first of them at a place. -/
def eachBlock (work : Nat → Block → Work n Block) :
    (count place : Nat) → (chain : Block) → Work n Block
  | 0, _, chain => return chain
  | count + 1, place, chain => do eachBlock work count (place + blockLength) (← work place chain)

/-- The work on every block of a range, which has to be a whole number of blocks. -/
def eachBlockOf (work : Nat → Block → Work n Block) (chain : Block) (start stop : Nat) :
    Work n Block := do
  let piece ← Work.read start stop
  if piece.length % blockLength = 0 then eachBlock work (piece.length / blockLength) start chain
  else throw (.unaligned piece.length)

/-! ## Pieces -/

/-- A piece of text in its buffer, with the chain that it is worked on with. -/
structure Strand where
  text : Bytes
  chain : Block

namespace Strand

/-- The work on every block of a piece: how it went, and what is left in the buffer, with the
chain that goes on unless the piece was refused. -/
def eachBlock (strand : Strand) (work : Nat → Block → Work strand.text.length Block) :
    Except Error Unit × Strand :=
  match (eachBlockOf work strand.chain 0 strand.text.length).runOn ⟨strand.text, rfl⟩ with
  | (.ok next, after) => (.ok (), ⟨after.toList, next⟩)
  | (.error error, after) => (.error error, ⟨after.toList, strand.chain⟩)

/-- Enciphers a piece in place. -/
def encrypt (cipher : BlockCipher) (strand : Strand) : Except Error Unit × Strand :=
  strand.eachBlock (encryptBlock cipher)

/-- Deciphers a piece in place. -/
def decrypt (cipher : BlockCipher) (strand : Strand) : Except Error Unit × Strand :=
  strand.eachBlock (decryptBlock cipher)

end Strand

end SealedArchive.Chaining
