import SealedArchive.Proofs.Stealing.Parts

/-!
# The two directions undo each other

`decipher_encipher` and `encipher_decipher` hold for buffers of every length, and
the second one for bytes that no encryption has produced.

With a tail, the two last blocks are the whole argument.  The tail is filled up
with zeros, so behind the tail its block shows the bytes of the last whole
block that were cut off (`rebuiltBlock_tailBlock`).  The other way round, the
rebuilt block agrees with the deciphered block of the tail in those bytes,
so their sum is zero there, as if it had been filled up (`tailBlock_rebuiltBlock`).
-/

namespace SealedArchive.Stealing

variable (cipher : BlockCipher) (start : Block)

/-! ## The two last blocks -/

theorem rebuiltBlock_tailBlock (last : Block) {tail : Bytes} (htail : tail.length < 16) :
    rebuiltBlock cipher (tailBlock cipher last tail) (last.toList.take tail.length) = last := by
  have hstolen : (last.toList.take tail.length).length = tail.length := by
    rw [List.length_take, last.length_toList]
    omega
  have hkept := Octets.drop_padded_xor tail last (Nat.le_of_lt htail)
  rw [rebuiltBlock, hstolen, tailBlock, BlockCipher.decrypt_encrypt, hkept,
    List.take_append_drop, Octets.padded_toList]

theorem tailBlock_rebuiltBlock (sealedTail : Block) {stolen : Bytes}
    (hstolen : stolen.length < 16) :
    tailBlock cipher (rebuiltBlock cipher sealedTail stolen)
      (plainTail cipher sealedTail stolen) = sealedTail := by
  have hagree := (drop_rebuiltBlock cipher sealedTail hstolen).symm
  rw [tailBlock, plainTail, Octets.padded_take_xor hagree, Octets.xor_xor,
    BlockCipher.encrypt_decrypt]

theorem plainTail_tailBlock (last : Block) {tail : Bytes} (htail : tail.length < 16) :
    plainTail cipher (tailBlock cipher last tail) (last.toList.take tail.length) = tail := by
  have hstolen : (last.toList.take tail.length).length = tail.length := by
    rw [List.length_take, last.length_toList]
    omega
  rw [plainTail, rebuiltBlock_tailBlock cipher last htail, hstolen, tailBlock,
    BlockCipher.decrypt_encrypt, Octets.xor_xor, Octets.toList_padded tail (Nat.le_of_lt htail),
    List.take_left]

/-- The last whole block comes back in front of the tail, whichever block it is. -/
theorem lastBlock_decipher (front : List Block) (last : Block) :
    lastBlock cipher start (Chaining.decipher cipher start front)
      ((cipher.decrypt last).xor (front.getLastD start)) = last := by
  rw [lastBlock, Chaining.encipher_decipher, Octets.xor_xor, BlockCipher.encrypt_decrypt]

/-! ## Buffers of every length -/

theorem maskShort_maskShort {buffer : Bytes} (hshort : buffer.length < 16) :
    maskShort cipher start (maskShort cipher start buffer) = buffer := by
  apply xorBytes_xorBytes
  rw [Octets.length_toList]
  exact Nat.le_of_lt hshort

@[simp] theorem decipher_encipher (buffer : Bytes) :
    decipher cipher start (encipher cipher start buffer) = buffer := by
  cases cut buffer with
  | short _ hshort =>
    have hmasked := length_maskShort cipher start buffer hshort
    rw [encipher_short cipher start hshort, decipher_short cipher start (by omega)]
    exact maskShort_maskShort cipher start hshort
  | aligned parts hlong =>
    have hchained : 16 ≤ (join (Chaining.encipher cipher start parts)).length := by
      rw [length_join] at hlong ⊢
      rwa [Chaining.length_encipher]
    rw [encipher_join cipher start hlong, decipher_join cipher start hchained,
      Chaining.decipher_encipher]
  | tailed front final tail hnonempty htail =>
    have hpositive := List.length_pos_iff.2 hnonempty
    have hstolen :
        ((lastBlock cipher start front final).toList.take tail.length).length = tail.length := by
      rw [List.length_take, Block.length_toList]
      omega
    have hstolenNonempty : (lastBlock cipher start front final).toList.take tail.length ≠ [] :=
      List.ne_nil_of_length_pos (by omega)
    rw [encipher_tailed cipher start front final hnonempty htail,
      decipher_tailed cipher start _ _ hstolenNonempty (by omega),
      rebuiltBlock_tailBlock cipher _ htail, plainTail_tailBlock cipher _ htail,
      ← chained_concat, Chaining.decipher_encipher]

@[simp] theorem encipher_decipher (buffer : Bytes) :
    encipher cipher start (decipher cipher start buffer) = buffer := by
  cases cut buffer with
  | short _ hshort =>
    have hmasked := length_maskShort cipher start buffer hshort
    rw [decipher_short cipher start hshort, encipher_short cipher start (by omega)]
    exact maskShort_maskShort cipher start hshort
  | aligned parts hlong =>
    have hchained : 16 ≤ (join (Chaining.decipher cipher start parts)).length := by
      rw [length_join] at hlong ⊢
      rwa [Chaining.length_decipher]
    rw [decipher_join cipher start hlong, encipher_join cipher start hchained,
      Chaining.encipher_decipher]
  | tailed front sealedTail stolen hnonempty hstolen =>
    have hpositive := List.length_pos_iff.2 hnonempty
    have hlength := length_plainTail cipher sealedTail hstolen
    have htailNonempty : plainTail cipher sealedTail stolen ≠ [] :=
      List.ne_nil_of_length_pos (by omega)
    rw [decipher_tailed cipher start front sealedTail hnonempty hstolen,
      Chaining.decipher_append, Chaining.decipher, Chaining.decipher,
      encipher_tailed cipher start _ _ htailNonempty (by omega), lastBlock_decipher,
      tailBlock_rebuiltBlock cipher sealedTail hstolen, Chaining.encipher_decipher, hlength,
      take_rebuiltBlock cipher sealedTail hstolen]

end SealedArchive.Stealing
