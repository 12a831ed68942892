import SealedArchive.Error
import SealedArchive.Octets.Blocks

/-!
# Block ciphers and chaining

A block cipher under one key is a pair of maps on sixteen-byte blocks that
undo each other.  The modes of operation are defined for any `BlockCipher`, so
what is proved about them holds for every cipher of this shape.

In cipher block chaining each block is masked with the ciphertext block before it and then
enciphered; a starting block stands before the first.  `Chaining.encipher` and
`Chaining.decipher` do this to a list of blocks, and they undo each other from
the same starting block.

A long text can be sent in pieces: the last ciphertext block of a piece is the
starting block of the next one.  `encryptPiece` and `decryptPiece` work on the
bytes of one piece and hand on that block.  A piece that is not a whole number
of blocks is refused, and the chain stays where it was.
-/

namespace SealedArchive

open Format (blockLength)

/-- The sixteen bytes that a cipher works on at a time. -/
abbrev Block := Octets blockLength

theorem Block.length_toList (block : Block) : block.toList.length = 16 :=
  Octets.length_toList block

theorem Block.length_join (blocks : List Block) :
    (join blocks).length = 16 * blocks.length :=
  SealedArchive.length_join blocks

/-- A permutation of the blocks together with its inverse. -/
structure BlockCipher where
  encrypt : Block → Block
  decrypt : Block → Block
  decrypt_encrypt (block : Block) : decrypt (encrypt block) = block
  encrypt_decrypt (block : Block) : encrypt (decrypt block) = block

attribute [simp] BlockCipher.decrypt_encrypt BlockCipher.encrypt_decrypt

theorem BlockCipher.decrypt_inj (cipher : BlockCipher) {one other : Block} :
    cipher.decrypt one = cipher.decrypt other ↔ one = other := by
  constructor
  · intro hsame
    rw [← cipher.encrypt_decrypt one, hsame, cipher.encrypt_decrypt]
  · rintro rfl
    rfl

/-! ## Chaining -/

namespace Chaining

/-- The ciphertext blocks of some plaintext blocks, the chain going on from
`start`. -/
def encipher (cipher : BlockCipher) : (start : Block) → List Block → List Block
  | _, [] => []
  | start, plain :: plains =>
    let sealedBlock := cipher.encrypt (plain.xor start)
    sealedBlock :: encipher cipher sealedBlock plains

/-- The plaintext blocks of some ciphertext blocks, the chain going on from
`start`. -/
def decipher (cipher : BlockCipher) : (start : Block) → List Block → List Block
  | _, [] => []
  | start, sealedBlock :: sealedBlocks =>
    (cipher.decrypt sealedBlock).xor start :: decipher cipher sealedBlock sealedBlocks

@[simp] theorem length_encipher (cipher : BlockCipher) (start : Block) (plains : List Block) :
    (encipher cipher start plains).length = plains.length := by
  induction plains generalizing start with
  | nil => rfl
  | cons plain plains ih => simp [encipher, ih]

@[simp] theorem length_decipher (cipher : BlockCipher) (start : Block)
    (sealedBlocks : List Block) :
    (decipher cipher start sealedBlocks).length = sealedBlocks.length := by
  induction sealedBlocks generalizing start with
  | nil => rfl
  | cons sealedBlock sealedBlocks ih => simp [decipher, ih]

@[simp] theorem decipher_encipher (cipher : BlockCipher) (start : Block)
    (plains : List Block) : decipher cipher start (encipher cipher start plains) = plains := by
  induction plains generalizing start with
  | nil => rfl
  | cons plain plains ih => simp [encipher, decipher, ih]

@[simp] theorem encipher_decipher (cipher : BlockCipher) (start : Block)
    (sealedBlocks : List Block) :
    encipher cipher start (decipher cipher start sealedBlocks) = sealedBlocks := by
  induction sealedBlocks generalizing start with
  | nil => rfl
  | cons sealedBlock sealedBlocks ih => simp [encipher, decipher, ih]

/-- The second of two runs starts from the last ciphertext block of the first. -/
theorem encipher_append (cipher : BlockCipher) (start : Block) (left right : List Block) :
    encipher cipher start (left ++ right) =
      encipher cipher start left ++
        encipher cipher ((encipher cipher start left).getLastD start) right := by
  induction left generalizing start with
  | nil => rfl
  | cons plain left ih => simp only [List.cons_append, encipher, ih, List.getLastD_cons]

theorem decipher_append (cipher : BlockCipher) (start : Block) (left right : List Block) :
    decipher cipher start (left ++ right) =
      decipher cipher start left ++ decipher cipher (left.getLastD start) right := by
  induction left generalizing start with
  | nil => rfl
  | cons sealedBlock left ih => simp only [List.cons_append, decipher, ih, List.getLastD_cons]

/-! ### Pieces of a text -/

/-- The ciphertext of one piece, and the starting block of the next. -/
def encryptPiece (cipher : BlockCipher) (start : Block) (piece : Bytes) :
    Except Error Bytes × Block :=
  if piece.length % blockLength = 0 then
    let sealedBlocks := encipher cipher start (blocks blockLength piece)
    (.ok (join sealedBlocks), sealedBlocks.getLastD start)
  else (.error (.unaligned piece.length), start)

/-- The plaintext of one piece, and the starting block of the next. -/
def decryptPiece (cipher : BlockCipher) (start : Block) (piece : Bytes) :
    Except Error Bytes × Block :=
  if piece.length % blockLength = 0 then
    let sealedBlocks := blocks blockLength piece
    (.ok (join (decipher cipher start sealedBlocks)), sealedBlocks.getLastD start)
  else (.error (.unaligned piece.length), start)

theorem encryptPiece_join (cipher : BlockCipher) (start : Block) (plains : List Block) :
    encryptPiece cipher start (join plains) =
      (.ok (join (encipher cipher start plains)),
        (encipher cipher start plains).getLastD start) := by
  rw [encryptPiece, if_pos (by simp), blocks_join (by decide)]

theorem decryptPiece_join (cipher : BlockCipher) (start : Block) (sealedBlocks : List Block) :
    decryptPiece cipher start (join sealedBlocks) =
      (.ok (join (decipher cipher start sealedBlocks)), sealedBlocks.getLastD start) := by
  rw [decryptPiece, if_pos (by simp), blocks_join (by decide)]

theorem encryptPiece_of_unaligned (cipher : BlockCipher) (start : Block) {piece : Bytes}
    (hunaligned : piece.length % 16 ≠ 0) :
    encryptPiece cipher start piece = (.error (.unaligned piece.length), start) :=
  if_neg hunaligned

theorem decryptPiece_of_unaligned (cipher : BlockCipher) (start : Block) {piece : Bytes}
    (hunaligned : piece.length % 16 ≠ 0) :
    decryptPiece cipher start piece = (.error (.unaligned piece.length), start) :=
  if_neg hunaligned

end Chaining

end SealedArchive
