import SealedArchive.Cipher.Stealing

/-!
# The parts of a buffer

A buffer is shorter than a block, or a number of whole blocks, or whole blocks
with a tail behind them.  `cut` gives the parts, and the lemmas below say what
becomes of them: the whole blocks are chained as they are, and with a tail the
last two ciphertext blocks come from the last whole block and the tail.
-/

namespace SealedArchive.Stealing

/-- The parts of a buffer. -/
inductive Cut : Bytes → Prop
  /-- Less than a block. -/
  | short (buffer : Bytes) (hshort : buffer.length < 16) : Cut buffer
  /-- Whole blocks. -/
  | aligned (parts : List Block) (hlong : 16 ≤ (join parts).length) : Cut (join parts)
  /-- Whole blocks, the last one apart, and a tail. -/
  | tailed (front : List Block) (final : Block) (tail : Bytes) (hnonempty : tail ≠ [])
      (htail : tail.length < 16) : Cut (join (front ++ [final]) ++ tail)

/-- The number of whole blocks whose ciphertext stays in its place: with a tail, the last
one makes way for the block of the tail. -/
def stayingBlocks (length : Nat) : Nat :=
  if length % 16 = 0 then length / 16 else length / 16 - 1

theorem cut (buffer : Bytes) : Cut buffer := by
  by_cases hshort : buffer.length < 16
  · exact .short buffer hshort
  have hwhole := @join_blocks_append_rest 16 buffer
  have htail : (rest 16 buffer).length < 16 := by
    rw [length_rest]
    exact Nat.mod_lt _ (by decide)
  by_cases hempty : rest 16 buffer = []
  · rw [hempty, List.append_nil] at hwhole
    have haligned := Cut.aligned (blocks 16 buffer) (by rw [hwhole]; omega)
    rwa [hwhole] at haligned
  have hblocks : blocks 16 buffer ≠ [] := by
    apply List.ne_nil_of_length_pos
    rw [length_blocks]
    omega
  rw [← hwhole, ← List.dropLast_concat_getLast hblocks]
  exact .tailed _ _ _ hempty htail

variable (cipher : BlockCipher) (start : Block)

theorem encipher_short {buffer : Bytes} (hshort : buffer.length < 16) :
    encipher cipher start buffer = maskShort cipher start buffer := by
  rw [encipher, if_pos hshort]

theorem decipher_short {buffer : Bytes} (hshort : buffer.length < 16) :
    decipher cipher start buffer = maskShort cipher start buffer := by
  rw [decipher, if_pos hshort]

/-! ## Whole blocks -/

theorem encipher_join {parts : List Block} (hlong : 16 ≤ (join parts).length) :
    encipher cipher start (join parts) = join (Chaining.encipher cipher start parts) := by
  simp only [encipher, blocks_join (show 0 < 16 by decide),
    rest_join (show 0 < 16 by decide), if_neg (Nat.not_lt.2 hlong), if_true]

theorem decipher_join {parts : List Block} (hlong : 16 ≤ (join parts).length) :
    decipher cipher start (join parts) = join (Chaining.decipher cipher start parts) := by
  simp only [decipher, blocks_join (show 0 < 16 by decide),
    rest_join (show 0 < 16 by decide), if_neg (Nat.not_lt.2 hlong), if_true]

/-! ## Whole blocks and a tail -/

theorem length_join_concat (front : List Block) (final : Block) :
    (join (front ++ [final])).length = 16 * front.length + 16 := by
  rw [Block.length_join, List.length_append, List.length_singleton, Nat.mul_add]

/-- The ciphertext of the last whole block, before it changes its place. -/
def lastBlock (front : List Block) (final : Block) : Block :=
  cipher.encrypt (final.xor ((Chaining.encipher cipher start front).getLastD start))

/-- The block of the tail: filled up with zeros, and chained after the last whole
block. -/
def tailBlock (last : Block) (tail : Bytes) : Block :=
  cipher.encrypt ((Octets.padded 16 tail).xor last)

/-- The ciphertext of the last whole block again, from the stolen bytes and the
block of the tail. -/
def rebuiltBlock (sealedTail : Block) (stolen : Bytes) : Block :=
  Octets.padded 16 (stolen ++ (cipher.decrypt sealedTail).toList.drop stolen.length)

theorem toList_rebuiltBlock (sealedTail : Block) {stolen : Bytes} (hstolen : stolen.length < 16) :
    (rebuiltBlock cipher sealedTail stolen).toList =
      stolen ++ (cipher.decrypt sealedTail).toList.drop stolen.length := by
  apply Octets.toList_padded_of_length_eq
  rw [List.length_append, List.length_drop, Block.length_toList, Format.blockLength]
  omega

theorem take_rebuiltBlock (sealedTail : Block) {stolen : Bytes} (hstolen : stolen.length < 16) :
    (rebuiltBlock cipher sealedTail stolen).toList.take stolen.length = stolen := by
  rw [toList_rebuiltBlock cipher sealedTail hstolen, List.take_left]

theorem drop_rebuiltBlock (sealedTail : Block) {stolen : Bytes} (hstolen : stolen.length < 16) :
    (rebuiltBlock cipher sealedTail stolen).toList.drop stolen.length =
      (cipher.decrypt sealedTail).toList.drop stolen.length := by
  rw [toList_rebuiltBlock cipher sealedTail hstolen, List.drop_left]

/-- The tail again, from the stolen bytes and the block of the tail. -/
def plainTail (sealedTail : Block) (stolen : Bytes) : Bytes :=
  ((cipher.decrypt sealedTail).xor (rebuiltBlock cipher sealedTail stolen)).toList.take
    stolen.length

theorem length_plainTail (sealedTail : Block) {stolen : Bytes} (hstolen : stolen.length < 16) :
    (plainTail cipher sealedTail stolen).length = stolen.length := by
  rw [plainTail, List.length_take, Block.length_toList]
  omega

theorem chained_concat (front : List Block) (final : Block) :
    Chaining.encipher cipher start (front ++ [final]) =
      Chaining.encipher cipher start front ++ [lastBlock cipher start front final] := by
  rw [Chaining.encipher_append]
  rfl

theorem encipher_tailed (front : List Block) (final : Block) {tail : Bytes}
    (hnonempty : tail ≠ []) (htail : tail.length < 16) :
    encipher cipher start (join (front ++ [final]) ++ tail) =
      join (Chaining.encipher cipher start front ++
        [tailBlock cipher (lastBlock cipher start front final) tail]) ++
          (lastBlock cipher start front final).toList.take tail.length := by
  have hlong : ¬(join (front ++ [final]) ++ tail).length < 16 := by
    rw [List.length_append, length_join_concat]
    omega
  simp only [encipher, if_neg hlong, blocks_join_append _ _ htail, rest_join_append _ _ htail,
    if_neg hnonempty, chained_concat, List.getLastD_concat, List.dropLast_concat, tailBlock]

theorem decipher_tailed (front : List Block) (sealedTail : Block) {stolen : Bytes}
    (hnonempty : stolen ≠ []) (hstolen : stolen.length < 16) :
    decipher cipher start (join (front ++ [sealedTail]) ++ stolen) =
      join (Chaining.decipher cipher start (front ++ [rebuiltBlock cipher sealedTail stolen])) ++
        plainTail cipher sealedTail stolen := by
  have hlong : ¬(join (front ++ [sealedTail]) ++ stolen).length < 16 := by
    rw [List.length_append, length_join_concat]
    omega
  simp only [decipher, if_neg hlong, blocks_join_append _ _ hstolen,
    rest_join_append _ _ hstolen, if_neg hnonempty, List.getLastD_concat, List.dropLast_concat,
    plainTail, rebuiltBlock]

end SealedArchive.Stealing
