import SealedArchive.Cipher.Stealing
import SealedArchive.Proofs.Chaining.InPlace
import SealedArchive.Proofs.Stealing.InPlace

/-!
# The work on a buffer that stays comes to the same bytes

`encryptHere` and `decryptHere` go through the buffer block by block, and every access may
end them.  Where `encrypt` and `decrypt` give a buffer, none does, and the buffer that they
leave is that one (`runOn_encryptHere`, `runOn_decryptHere`).  With `encrypt_toList` and
`decrypt_toList` that is the case from every starting block.

A range that is chained as bytes is chained block by block too, in both directions
(`runOn_eachBlockOf`).
-/

namespace SealedArchive.Stealing

variable {n : Nat} (cipher : BlockCipher)

/-! ## Ranges of whole blocks -/

variable {work : Nat → Block → Work n Block} {turn : Block → Block → Block × Block}

/-- A range of a buffer that is done with the chained bytes is done block by block too. -/
theorem runOn_eachBlockOf {chainPiece : Block → Bytes → Except Error Bytes × Block}
    {buffer after : Octets n} {chain next : Block} {first stop : Nat}
    (hwork : Chaining.Turns work turn)
    (hpiece : ∀ (chain : Block) (parts : List Block), chainPiece chain (join parts) =
      (.ok (join (Chaining.turnEach turn chain parts).1), (Chaining.turnEach turn chain parts).2))
    (hlength : ∀ (chain : Block) (parts : List Block),
      (Chaining.turnEach turn chain parts).1.length = parts.length)
    (hrefuses : ∀ piece : Bytes, piece.length % 16 ≠ 0 →
      chainPiece chain piece = (.error (.unaligned piece.length), chain))
    (hchained : chainRange chainPiece chain buffer first stop = .ok (after, next)) :
    (Chaining.eachBlockOf work chain first stop).runOn buffer = (.ok next, after) := by
  have haligned := aligned_of_chainRange hrefuses hchained
  obtain ⟨piece, hread, -⟩ := exists_of_bind_eq_ok hchained
  obtain ⟨left, right, hbuffer, hleft, hstop⟩ := Octets.exists_parts_of_range hread
  have hcount : piece.length = 16 * (piece.length / 16) := by omega
  obtain ⟨parts, -, rfl⟩ := exists_join_of_length (by decide) hcount
  -- both ways the same bytes come to stand between the same ends
  obtain ⟨here, hrange, hhere⟩ :=
    exists_chainRange first stop hbuffer hleft hstop (hpiece chain parts)
      (by rw [length_join, length_join, hlength])
  rw [hchained, Except.ok.injEq, Prod.mk.injEq] at hrange
  obtain ⟨rfl, rfl⟩ := hrange
  obtain ⟨done, hdone, hafter⟩ :=
    Chaining.exists_eachBlockOf hwork chain parts hbuffer hleft hstop
  have hsame : done = after := Octets.ext (hafter.trans hhere.symm)
  rw [hdone, hsame]

theorem runOn_encryptRange {buffer after : Octets n} {chain next : Block} {first stop : Nat}
    (hchained : chainRange (Chaining.encryptPiece cipher) chain buffer first stop =
      .ok (after, next)) :
    (Chaining.eachBlockOf (Chaining.encryptBlock cipher) chain first stop).runOn buffer =
      (.ok next, after) := by
  refine runOn_eachBlockOf (Chaining.turns_encryptBlock cipher) ?_ ?_
    (fun piece => Chaining.encryptPiece_of_unaligned cipher chain) hchained
  · intro chain parts
    rw [Chaining.turnEach_encryptTurn, Chaining.encryptPiece_join]
  · intro chain parts
    rw [Chaining.turnEach_encryptTurn, Chaining.length_encipher]

theorem runOn_decryptRange {buffer after : Octets n} {chain next : Block} {first stop : Nat}
    (hchained : chainRange (Chaining.decryptPiece cipher) chain buffer first stop =
      .ok (after, next)) :
    (Chaining.eachBlockOf (Chaining.decryptBlock cipher) chain first stop).runOn buffer =
      (.ok next, after) := by
  refine runOn_eachBlockOf (Chaining.turns_decryptBlock cipher) ?_ ?_
    (fun piece => Chaining.decryptPiece_of_unaligned cipher chain) hchained
  · intro chain parts
    rw [Chaining.turnEach_decryptTurn, Chaining.decryptPiece_join]
  · intro chain parts
    rw [Chaining.turnEach_decryptTurn, Chaining.length_decipher]

/-! ## Whole buffers -/

theorem indexBefore_restLength :
    Octets.indexBefore n (restLength 16 n) = .ok (alignedLength 16 n) :=
  if_pos (Nat.mod_le n 16)

theorem runOn_maskHere (start : Block) (buffer : Octets n) :
    (maskHere cipher start).runOn buffer =
      (.ok (), buffer.maskFront (cipher.encrypt start).toList) := by
  unfold maskHere
  split
  · next hempty =>
    subst hempty
    have hnothing : buffer.maskFront (cipher.encrypt start).toList = buffer := by
      apply Octets.ext
      rw [List.eq_nil_of_length_eq_zero buffer.length_toList,
        List.eq_nil_of_length_eq_zero (Octets.length_toList _)]
    rw [hnothing]
    rfl
  · next hnonempty =>
    simp only [Work.runOn_bind, Work.runOn_beside (Work.runOn_mapBlock_block _)]
    rfl

theorem runOn_encryptHere {start : Bytes} {buffer after : Octets n}
    (hencrypt : encrypt cipher start buffer = .ok after) :
    (encryptHere cipher start).runOn buffer = (.ok (), after) := by
  -- `encrypt` is taken apart, and what each of its steps gave runs one step of the work
  obtain ⟨chain, hstart, hencrypt⟩ := exists_of_bind_eq_ok hencrypt
  simp only [encryptHere, Work.runOn_bind, Work.runOn_ofExcept, hstart, indexBefore_restLength]
  by_cases hfull : alignedLength 16 n = 0
  · simp only [if_pos hfull] at hencrypt ⊢
    obtain rfl := Except.ok.inj hencrypt
    exact runOn_maskHere cipher chain buffer
  · simp only [if_neg hfull] at hencrypt ⊢
    obtain ⟨⟨chained, next⟩, hchain, hencrypt⟩ := exists_of_bind_eq_ok hencrypt
    simp only [Work.runOn_bind, runOn_encryptRange cipher hchain]
    by_cases htail : restLength 16 n = 0
    · simp only [if_pos htail] at hencrypt ⊢
      obtain rfl := Except.ok.inj hencrypt
      rfl
    · simp only [if_neg htail] at hencrypt ⊢
      obtain ⟨tail, hread, hencrypt⟩ := exists_of_bind_eq_ok hencrypt
      obtain ⟨filled, hfilled, hencrypt⟩ := exists_of_bind_eq_ok hencrypt
      obtain ⟨⟨tailBlock, final⟩, htailChain, hencrypt⟩ := exists_of_bind_eq_ok hencrypt
      obtain ⟨last, hlast, hencrypt⟩ := exists_of_bind_eq_ok hencrypt
      obtain ⟨copied, hcopy, hwrite⟩ := exists_of_bind_eq_ok hencrypt
      simp only [Work.runOn_bind, Work.runOn_read, hread, Work.runOn_ofExcept, hfilled,
        Work.runOn_beside (runOn_encryptRange cipher htailChain), hlast, Work.runOn_copy hcopy,
        Work.runOn_write hwrite]

theorem runOn_decryptHere {start : Bytes} {buffer after : Octets n}
    (hdecrypt : decrypt cipher start buffer = .ok after) :
    (decryptHere cipher start).runOn buffer = (.ok (), after) := by
  obtain ⟨chain, hstart, hdecrypt⟩ := exists_of_bind_eq_ok hdecrypt
  simp only [decryptHere, Work.runOn_bind, Work.runOn_ofExcept, hstart, indexBefore_restLength]
  by_cases hfull : alignedLength 16 n = 0
  · simp only [if_pos hfull] at hdecrypt ⊢
    obtain rfl := Except.ok.inj hdecrypt
    exact runOn_maskHere cipher chain buffer
  · simp only [if_neg hfull] at hdecrypt ⊢
    by_cases htail : restLength 16 n = 0
    · simp only [if_pos htail] at hdecrypt ⊢
      obtain ⟨⟨chained, next⟩, hchain, hdecrypt⟩ := exists_of_bind_eq_ok hdecrypt
      obtain rfl := Except.ok.inj hdecrypt
      simp only [Work.runOn_bind, runOn_decryptRange cipher hchain, Work.runOn_pure]
    · simp only [if_neg htail] at hdecrypt ⊢
      obtain ⟨last, hlast, hdecrypt⟩ := exists_of_bind_eq_ok hdecrypt
      obtain ⟨⟨chained, next⟩, hchain, hdecrypt⟩ := exists_of_bind_eq_ok hdecrypt
      -- the block of the tail and the stolen bytes, each in a block of its own
      obtain ⟨lastBytes, hreadLast, hdecrypt⟩ := exists_of_bind_eq_ok hdecrypt
      obtain ⟨sealedTail, hsealedTail, hdecrypt⟩ := exists_of_bind_eq_ok hdecrypt
      obtain ⟨stolenBytes, hreadStolen, hdecrypt⟩ := exists_of_bind_eq_ok hdecrypt
      obtain ⟨stolen, hstolen, hdecrypt⟩ := exists_of_bind_eq_ok hdecrypt
      -- the tail goes back at once, the last whole block when it has been chained
      obtain ⟨plainTail, hplainTail, hdecrypt⟩ := exists_of_bind_eq_ok hdecrypt
      obtain ⟨restored, hrestore, hdecrypt⟩ := exists_of_bind_eq_ok hdecrypt
      obtain ⟨kept, hkept, hdecrypt⟩ := exists_of_bind_eq_ok hdecrypt
      obtain ⟨rebuilt, hrebuilt, hdecrypt⟩ := exists_of_bind_eq_ok hdecrypt
      obtain ⟨⟨plain, final⟩, hplain, hwrite⟩ := exists_of_bind_eq_ok hdecrypt
      simp only [Work.runOn_bind, Work.runOn_read, Work.runOn_ofExcept, hlast,
        runOn_decryptRange cipher hchain, hreadLast, hsealedTail,
        Work.runOn_beside (Work.runOn_mapBlock_block _), hreadStolen, hstolen,
        Work.runOn_beside (Work.runOn_mask_block _), hplainTail, Work.runOn_write hrestore,
        hkept, hrebuilt, Work.runOn_beside (runOn_decryptRange cipher hplain),
        Work.runOn_write hwrite]

end SealedArchive.Stealing
