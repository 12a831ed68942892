import SealedArchive.Cipher.Aes
import SealedArchive.Cipher.Chaining.InPlace

/-!
# Chaining with a stolen tail

A buffer of any length is enciphered to the same length.

* A whole number of blocks is chained as it is.
* Otherwise the bytes after the last whole block, the tail, are filled up with
  zeros and chained as one more block.  The two last ciphertext blocks then
  change places, and the second of them is cut to the length of the tail: the
  block of the tail stands in front, and what is cut off comes back when it is
  deciphered, since the tail was filled up with zeros there.
* A buffer of less than a block has no block to take bytes from.  It is masked
  with the leading bytes of the enciphered starting block, in both directions.

`encipher` and `decipher` say this of byte strings.  `encrypt` and `decrypt` do it in a buffer,
range by range, with every range checked.  `encryptHere` and `decryptHere` are the same work one
step after the other on one buffer, the blocks beside it being buffers of their own, so what a
step that fails leaves in the buffer can be seen.
-/

namespace SealedArchive.Stealing

open Format (blockLength)

/-- A buffer of less than a block, masked. -/
def maskShort (cipher : BlockCipher) (start : Block) (buffer : Bytes) : Bytes :=
  xorBytes buffer (cipher.encrypt start).toList

/-- The ciphertext of a buffer. -/
def encipher (cipher : BlockCipher) (start : Block) (buffer : Bytes) : Bytes :=
  if buffer.length < blockLength then maskShort cipher start buffer
  else
    let sealedBlocks := Chaining.encipher cipher start (blocks blockLength buffer)
    let tail := rest blockLength buffer
    if tail = [] then join sealedBlocks
    else
      let last := sealedBlocks.getLastD start
      let tailBlock := cipher.encrypt ((Octets.padded blockLength tail).xor last)
      join (sealedBlocks.dropLast ++ [tailBlock]) ++ last.toList.take tail.length

/-- The plaintext of a buffer. -/
def decipher (cipher : BlockCipher) (start : Block) (buffer : Bytes) : Bytes :=
  if buffer.length < blockLength then maskShort cipher start buffer
  else
    let sealedBlocks := blocks blockLength buffer
    let stolen := rest blockLength buffer
    if stolen = [] then join (Chaining.decipher cipher start sealedBlocks)
    else
      let masked := cipher.decrypt (sealedBlocks.getLastD start)
      let last := Octets.padded blockLength (stolen ++ masked.toList.drop stolen.length)
      join (Chaining.decipher cipher start (sealedBlocks.dropLast ++ [last])) ++
        (masked.xor last).toList.take stolen.length

/-! ## The length is kept -/

theorem length_maskShort (cipher : BlockCipher) (start : Block) (buffer : Bytes)
    (hshort : buffer.length < 16) : (maskShort cipher start buffer).length = buffer.length := by
  simp [maskShort]
  omega

@[simp] theorem length_encipher (cipher : BlockCipher) (start : Block) (buffer : Bytes) :
    (encipher cipher start buffer).length = buffer.length := by
  have hrest := @length_rest 16 buffer
  simp only [encipher, blockLength]
  split
  · next hshort => exact length_maskShort cipher start buffer hshort
  · next hlong =>
    split
    · next htail =>
      rw [htail, List.length_nil] at hrest
      simp only [length_join, Chaining.length_encipher, length_blocks]
      omega
    · simp only [List.length_append, length_join, List.length_dropLast, List.length_singleton,
        Chaining.length_encipher, length_blocks, List.length_take, Octets.length_toList]
      omega

@[simp] theorem length_decipher (cipher : BlockCipher) (start : Block) (buffer : Bytes) :
    (decipher cipher start buffer).length = buffer.length := by
  have hrest := @length_rest 16 buffer
  simp only [decipher, blockLength]
  split
  · next hshort => exact length_maskShort cipher start buffer hshort
  · next hlong =>
    split
    · next htail =>
      rw [htail, List.length_nil] at hrest
      simp only [length_join, Chaining.length_decipher, length_blocks]
      omega
    · simp only [List.length_append, length_join, List.length_dropLast, List.length_singleton,
        Chaining.length_decipher, length_blocks, List.length_take, Octets.length_toList]
      omega

/-! ## Keys and starting blocks of any length -/

/-- The cipher under a key, if the key has the right length. -/
def keyed (key : Bytes) : Except Error BlockCipher :=
  match Octets.ofList? Format.cipherKeyLength key with
  | some key => .ok (Aes.cipher key)
  | none => .error (.cipherKeyLength key.length)

/-- The starting block that some bytes spell, if they have the right length. -/
def startBlock (start : Bytes) : Except Error Block :=
  match Octets.ofList? blockLength start with
  | some start => .ok start
  | none => .error (.startLength start.length)

/-! ## The work in place -/

variable {n : Nat}

/-- Chains a range of a buffer in place, in one direction or the other.  Gives
the buffer and the block that the chain goes on from. -/
def chainRange (chainPiece : Block → Bytes → Except Error Bytes × Block) (chain : Block)
    (buffer : Octets n) (start stop : Nat) : Except Error (Octets n × Block) := do
  let piece ← buffer.range start stop
  let (chained, next) := chainPiece chain piece
  return (← buffer.setRange start stop (← chained), next)

/-- Enciphers a buffer in place.  The chain that comes out of the whole blocks
goes on to the block of the tail, before the two last blocks change places. -/
def encrypt (cipher : BlockCipher) (start : Bytes) (buffer : Octets n) :
    Except Error (Octets n) := do
  let chain ← startBlock start
  let full := alignedLength blockLength n
  let tail := restLength blockLength n
  if full = 0 then return buffer.maskFront (cipher.encrypt chain).toList
  let (buffer, chain) ← chainRange (Chaining.encryptPiece cipher) chain buffer 0 full
  if tail = 0 then return buffer
  let filled ← (Octets.zero blockLength).setRange 0 tail (← buffer.range full n)
  let (tailBlock, _) ← chainRange (Chaining.encryptPiece cipher) chain filled 0 blockLength
  let last ← Octets.indexBefore full blockLength
  let buffer ← buffer.copyRange last (last + tail) full
  buffer.setRange last full tailBlock.toList

/-- Deciphers a buffer in place.  The last whole block of plaintext is chained
at the end only, when its ciphertext has been put together from the stolen bytes
and from what the zeros behind the tail have kept. -/
def decrypt (cipher : BlockCipher) (start : Bytes) (buffer : Octets n) :
    Except Error (Octets n) := do
  let chain ← startBlock start
  let full := alignedLength blockLength n
  let tail := restLength blockLength n
  if full = 0 then return buffer.maskFront (cipher.encrypt chain).toList
  if tail = 0 then
    let (buffer, _) ← chainRange (Chaining.decryptPiece cipher) chain buffer 0 n
    return buffer
  let last ← Octets.indexBefore full blockLength
  let (buffer, chain) ← chainRange (Chaining.decryptPiece cipher) chain buffer 0 last
  let tailBlock ← (Octets.zero blockLength).setRange 0 blockLength (← buffer.range last full)
  let stolen ← (Octets.zero blockLength).setRange 0 tail (← buffer.range full n)
  let recovered := (cipher.decrypt tailBlock).xor stolen
  let buffer ← buffer.setRange full n (← recovered.range 0 tail)
  let rebuilt ← stolen.setRange tail blockLength (← recovered.range tail blockLength)
  let (plain, _) ← chainRange (Chaining.decryptPiece cipher) chain rebuilt 0 blockLength
  buffer.setRange last full plain.toList

/-! ## On a buffer that stays -/

/-- Masks a buffer of less than a block with the enciphered starting block.  An empty one
needs none. -/
def maskHere (cipher : BlockCipher) (start : Block) : Work n Unit := do
  if n = 0 then return
  else
    let (_, mask) ← Work.beside (Work.mapBlock cipher.encrypt 0 blockLength) start
    modify fun buffer => buffer.maskFront mask.toList

/-- Enciphers the buffer. -/
def encryptHere (cipher : BlockCipher) (start : Bytes) : Work n Unit := do
  let chain ← ofExcept (startBlock start)
  let tail := restLength blockLength n
  let full ← ofExcept (Octets.indexBefore n tail)
  if full = 0 then maskHere cipher chain
  else
    let chain ← Chaining.eachBlockOf (Chaining.encryptBlock cipher) chain 0 full
    if tail = 0 then return
    else
      let filled ← ofExcept ((Octets.zero blockLength).setRange 0 tail (← Work.read full n))
      let (_, tailBlock) ←
        Work.beside (Chaining.eachBlockOf (Chaining.encryptBlock cipher) chain 0 blockLength) filled
      let last ← ofExcept (Octets.indexBefore full blockLength)
      Work.copy last (last + tail) full
      Work.write last full tailBlock.toList

/-- Deciphers the buffer. -/
def decryptHere (cipher : BlockCipher) (start : Bytes) : Work n Unit := do
  let chain ← ofExcept (startBlock start)
  let tail := restLength blockLength n
  let full ← ofExcept (Octets.indexBefore n tail)
  if full = 0 then maskHere cipher chain
  else if tail = 0 then
    let _ ← Chaining.eachBlockOf (Chaining.decryptBlock cipher) chain 0 n
  else
    let last ← ofExcept (Octets.indexBefore full blockLength)
    let chain ← Chaining.eachBlockOf (Chaining.decryptBlock cipher) chain 0 last
    let sealedTail ← ofExcept
      ((Octets.zero blockLength).setRange 0 blockLength (← Work.read last full))
    let (_, masked) ← Work.beside (Work.mapBlock cipher.decrypt 0 blockLength) sealedTail
    let stolen ← ofExcept ((Octets.zero blockLength).setRange 0 tail (← Work.read full n))
    let (_, recovered) ← Work.beside (Work.mask stolen.toList 0 blockLength) masked
    Work.write full n (← ofExcept (recovered.range 0 tail))
    let rebuilt ← ofExcept
      (stolen.setRange tail blockLength (← ofExcept (recovered.range tail blockLength)))
    let (_, plain) ←
      Work.beside (Chaining.eachBlockOf (Chaining.decryptBlock cipher) chain 0 blockLength) rebuilt
    Work.write last full plain.toList

end SealedArchive.Stealing
