import SealedArchive.Proofs.Stealing.Inverse
import SealedArchive.Proofs.Stealing.Layout

/-!
# How far an altered ciphertext damages the text

Two ciphertexts of one length that differ in a single place are deciphered side by
side.

* A block that stays in its place spoils its own block of text, and the next one by
  exactly the bits that were altered: the chain goes on from the ciphertext, so it is
  the same again one block later (`spreads_of_differWithin`).  The tail never feels it.
* The block of the tail has the end of the last whole block in it, and the tail.  One of
  the two comes out wrong, and nothing before them (`differ_of_moved`).
* The stolen bytes are the mask of the tail and the front of the last whole block
  (`differ_of_stolen`).
* Less than a block is masked alike on both sides.
-/

namespace SealedArchive.Stealing

/-! ## Strings that differ in one place -/

/-- Two different strings that agree before index `start` and from index `stop` on. -/
structure DifferWithin (one other : Bytes) (start stop : Nat) : Prop where
  ne : one ≠ other
  before : one.take start = other.take start
  behind : one.drop stop = other.drop stop

theorem DifferWithin.exists_parts {one other : Bytes} {start stop : Nat}
    (hdiffer : DifferWithin one other start stop) (hlength : one.length = other.length)
    (hrange : start ≤ stop) (hstop : stop ≤ one.length) :
    ∃ front left right behind : Bytes,
      one = front ++ (left ++ behind) ∧ other = front ++ (right ++ behind) ∧
      front.length = start ∧ left.length = stop - start ∧ right.length = stop - start ∧
      left ≠ right := by
  have hone := eq_parts_of_range one hrange
  have hother := eq_parts_of_range other hrange
  rw [← hdiffer.before, ← hdiffer.behind] at hother
  refine ⟨_, _, _, _, hone, hother, ?_, ?_, ?_, ?_⟩
  · rw [List.length_take]
    omega
  · rw [List.length_take, List.length_drop]
    omega
  · rw [List.length_take, List.length_drop]
    omega
  · intro hsame
    apply hdiffer.ne
    rw [hone, hother, hsame]

/-- A whole block in which two strings differ, with the blocks before it. -/
theorem DifferWithin.exists_block {one other : Bytes} {index : Nat}
    (hdiffer : DifferWithin one other (16 * index) (16 * index + 16))
    (hlength : one.length = other.length) (hindex : 16 * index + 16 ≤ one.length) :
    ∃ (front : List Block) (left right : Block) (behind : Bytes), front.length = index ∧
      one = join front ++ (left.toList ++ behind) ∧
      other = join front ++ (right.toList ++ behind) ∧ left ≠ right := by
  obtain ⟨front, left, right, behind, hone, hother, hfront, hleft, hright, hne⟩ :=
    hdiffer.exists_parts hlength (Nat.le_add_right _ _) hindex
  rw [Nat.add_sub_cancel_left] at hleft hright
  obtain ⟨front, hcount, rfl⟩ := exists_join_of_length (show 0 < 16 by decide) hfront
  obtain ⟨left, rfl⟩ := Octets.exists_of_length hleft
  obtain ⟨right, rfl⟩ := Octets.exists_of_length hright
  exact ⟨front, left, right, behind, hcount, hone, hother, fun hsame => hne (by rw [hsame])⟩

/-- The ends in which two strings differ, with the whole blocks before them. -/
theorem DifferWithin.exists_tails {one other : Bytes} {index count : Nat}
    (hdiffer : DifferWithin one other (16 * index + 16) one.length)
    (hlength : one.length = other.length) (hcount : one.length = 16 * index + 16 + count) :
    ∃ (front : List Block) (last : Block) (left right : Bytes), front.length = index ∧
      one = join front ++ (last.toList ++ left) ∧
      other = join front ++ (last.toList ++ right) ∧
      left.length = count ∧ right.length = count ∧ left ≠ right := by
  have hone := List.take_append_drop (16 * index + 16) one
  have hother := List.take_append_drop (16 * index + 16) other
  rw [← hdiffer.before] at hother
  have hwhole : (one.take (16 * index + 16)).length = 16 * (index + 1) := by
    rw [List.length_take, hcount]
    omega
  obtain ⟨parts, hparts, hjoin⟩ := exists_join_of_length (show 0 < 16 by decide) hwhole
  obtain ⟨front, last, rfl⟩ : ∃ front last, parts = front ++ [last] :=
    ⟨_, _, (List.dropLast_concat_getLast
      (List.ne_nil_of_length_pos (by omega : 0 < parts.length))).symm⟩
  rw [hjoin, join_append, join_cons, join_nil, List.append_nil, List.append_assoc] at hone hother
  refine ⟨front, last, one.drop (16 * index + 16), other.drop (16 * index + 16),
    by simpa using hparts, hone.symm, hother.symm, ?_, ?_, ?_⟩
  · rw [List.length_drop]
    omega
  · rw [List.length_drop]
    omega
  · intro hsame
    apply hdiffer.ne
    rw [← hone, ← hother, hsame]

theorem blockAt_of_parts {front behind : Bytes} {block : Block} {index : Nat}
    (hfront : front.length = 16 * index) :
    blockAt (front ++ (block.toList ++ behind)) index = block := by
  rw [blockAt, List.drop_left' hfront]
  exact blockAt_zero block behind

theorem drop_of_parts {front behind : Bytes} {block : Block} {index : Nat}
    (hfront : front.length = 16 * index) :
    (front ++ (block.toList ++ behind)).drop (16 * index + 16) = behind := by
  rw [← List.append_assoc]
  exact List.drop_left' (by rw [List.length_append, hfront, block.length_toList])

variable (cipher : BlockCipher) (start : Block)

/-! ## A block that stays in its place -/

/-- What becomes of two ciphertexts that differ in one block that stays in its place. -/
structure SpreadsFrom (index : Nat) (sealedOne sealedOther one other : Bytes) : Prop where
  before : one.take (16 * index) = other.take (16 * index)
  /-- The block itself is spoilt. -/
  hit : blockAt one index ≠ blockAt other index
  /-- The next one, if it is a whole one, has the same bits altered as the ciphertext. -/
  next : index + 1 < one.length / 16 →
    (blockAt one (index + 1)).xor (blockAt other (index + 1)) =
      (blockAt sealedOne index).xor (blockAt sealedOther index)
  /-- All that is behind them, the tail too, is as before. -/
  behind : one.drop (16 * (index + 2)) = other.drop (16 * (index + 2))

section

variable {sealedOne sealedOther front behind : Bytes} {one other next following : Block}
  {index : Nat}

/-- Two texts that end with the blocks that differ. -/
theorem SpreadsFrom.of_last (hfront : front.length = 16 * index) (hne : one ≠ other) :
    SpreadsFrom index sealedOne sealedOther (front ++ one.toList) (front ++ other.toList) := by
  have hlength (block : Block) : (front ++ block.toList).length = 16 * index + 16 := by
    rw [List.length_append, hfront, block.length_toList]
  constructor
  case before => rw [List.take_left' hfront, List.take_left' hfront]
  case hit =>
    rw [← List.append_nil one.toList, ← List.append_nil other.toList, blockAt_of_parts hfront,
      blockAt_of_parts hfront]
    exact hne
  case next =>
    intro hnext
    rw [hlength] at hnext
    omega
  case behind =>
    rw [List.drop_of_length_le (by rw [hlength]; omega),
      List.drop_of_length_le (by rw [hlength]; omega)]

/-- Two texts that differ in two blocks, one after the other. -/
theorem SpreadsFrom.of_pair (hfront : front.length = 16 * index) (hne : one ≠ other)
    (hnext : next.xor following = (blockAt sealedOne index).xor (blockAt sealedOther index)) :
    SpreadsFrom index sealedOne sealedOther (front ++ (one.toList ++ (next.toList ++ behind)))
      (front ++ (other.toList ++ (following.toList ++ behind))) := by
  have hblock (block : Block) : (front ++ block.toList).length = 16 * (index + 1) := by
    rw [List.length_append, hfront, block.length_toList, Nat.mul_succ]
  have hpair (block second : Block) :
      (front ++ block.toList ++ second.toList).length = 16 * (index + 2) := by
    rw [List.length_append, hblock, second.length_toList]
    omega
  constructor
  case before => rw [List.take_left' hfront, List.take_left' hfront]
  case hit =>
    rw [blockAt_of_parts hfront, blockAt_of_parts hfront]
    exact hne
  case next =>
    intro _
    rw [← List.append_assoc front, ← List.append_assoc front, blockAt_of_parts (hblock one),
      blockAt_of_parts (hblock other)]
    exact hnext
  case behind =>
    rw [← List.append_assoc front, ← List.append_assoc front,
      ← List.append_assoc (front ++ one.toList), ← List.append_assoc (front ++ other.toList),
      List.drop_left' (hpair _ _), List.drop_left' (hpair _ _)]

end

/-- Behind the same mask, two blocks of ciphertext never have one block of text. -/
theorem decrypt_xor_inj {left right : Block} (chain : Block) :
    (cipher.decrypt left).xor chain = (cipher.decrypt right).xor chain ↔ left = right := by
  rw [Octets.xor_left_inj, cipher.decrypt_inj]

/-- In a chain of blocks, a block of ciphertext has to do with its own block of text and
the one after it alone. -/
theorem decipher_around (front later : List Block) (block : Block) :
    join (Chaining.decipher cipher start (front ++ block :: later)) =
      join (Chaining.decipher cipher start front) ++
        (((cipher.decrypt block).xor (front.getLastD start)).toList ++
          join (Chaining.decipher cipher block later)) := by
  rw [Chaining.decipher_append, join_append]
  rfl

theorem spreads_of_parts {sealedOne sealedOther : Bytes} {left right : Block}
    (front later : List Block) (tail : Bytes) (hne : left ≠ right)
    (hone : blockAt sealedOne front.length = left)
    (hother : blockAt sealedOther front.length = right) (hlater : later = [] → tail = []) :
    SpreadsFrom front.length sealedOne sealedOther
      (join (Chaining.decipher cipher start (front ++ left :: later)) ++ tail)
      (join (Chaining.decipher cipher start (front ++ right :: later)) ++ tail) := by
  have hfront : (join (Chaining.decipher cipher start front)).length = 16 * front.length := by
    rw [length_join, Chaining.length_decipher]
  have hspoilt : (cipher.decrypt left).xor (front.getLastD start) ≠
      (cipher.decrypt right).xor (front.getLastD start) :=
    mt (decrypt_xor_inj cipher _).1 hne
  rw [decipher_around, decipher_around]
  cases later with
  | nil =>
    obtain rfl := hlater rfl
    simp only [Chaining.decipher, join_nil, List.append_nil]
    exact .of_last hfront hspoilt
  | cons following later =>
    have hnext : ((cipher.decrypt following).xor left).xor ((cipher.decrypt following).xor right) =
        (blockAt sealedOne front.length).xor (blockAt sealedOther front.length) := by
      rw [Octets.xor_masked, hone, hother]
    simp only [Chaining.decipher, join_cons, List.append_assoc]
    exact .of_pair hfront hspoilt hnext

/-- What stands behind a block that stays in its place makes one more run of the chain and
a tail, whichever block it is: with a tail, the last block of the run is made anew, and
neither it nor the tail has to do with the block. -/
theorem exists_later (front : List Block) {behind : Bytes}
    (hstays : front.length < stayingBlocks (16 * front.length + 16 + behind.length)) :
    ∃ (later : List Block) (tail : Bytes), (later = [] → tail = []) ∧ ∀ block : Block,
      decipher cipher start (join front ++ (block.toList ++ behind)) =
        join (Chaining.decipher cipher start (front ++ block :: later)) ++ tail := by
  have hbehind := @join_blocks_append_rest 16 behind
  have hshort : (rest 16 behind).length < 16 := by
    rw [length_rest]
    exact Nat.mod_lt _ (by decide)
  by_cases hempty : rest 16 behind = []
  · -- whole blocks to the end: one chain
    refine ⟨blocks 16 behind, [], fun _ => rfl, ?_⟩
    intro block
    have hwhole : join front ++ (block.toList ++ behind) =
        join (front ++ block :: blocks 16 behind) := by
      rw [hempty, List.append_nil] at hbehind
      rw [join_append, join_cons, hbehind]
    have hlong : 16 ≤ (join (front ++ block :: blocks 16 behind)).length := by
      rw [Block.length_join, List.length_append, List.length_cons]
      omega
    rw [hwhole, decipher_join cipher start hlong, List.append_nil]
  · -- the block stays, so a later one has moved
    have hpositive := List.length_pos_iff.2 hempty
    have hsome : blocks 16 behind ≠ [] := by
      apply List.ne_nil_of_length_pos
      rw [length_rest] at hpositive
      rw [length_blocks]
      unfold stayingBlocks at hstays
      split at hstays <;> omega
    obtain ⟨middle, final, hlast⟩ : ∃ middle final, blocks 16 behind = middle ++ [final] :=
      ⟨_, _, (List.dropLast_concat_getLast hsome).symm⟩
    rw [hlast] at hbehind
    refine ⟨middle ++ [rebuiltBlock cipher final (rest 16 behind)],
      plainTail cipher final (rest 16 behind), fun hnone => absurd hnone (by simp), ?_⟩
    intro block
    have hwhole : join front ++ (block.toList ++ behind) =
        join (front ++ block :: middle ++ [final]) ++ rest 16 behind := by
      rw [List.append_assoc front, join_append, List.cons_append, join_cons, List.append_assoc,
        List.append_assoc, hbehind]
    rw [hwhole, decipher_tailed cipher start _ final hempty hshort, List.append_assoc front,
      List.cons_append]

/-- One altered block among those that stay in their place. -/
theorem spreads_of_differWithin {one other : Bytes} {index : Nat}
    (hlength : one.length = other.length) (hindex : index < stayingBlocks one.length)
    (hdiffer : DifferWithin one other (16 * index) (16 * index + 16)) :
    SpreadsFrom index one other (decipher cipher start one) (decipher cipher start other) := by
  have hinside : 16 * index + 16 ≤ one.length := by
    unfold stayingBlocks at hindex
    split at hindex <;> omega
  obtain ⟨front, left, right, behind, rfl, rfl, rfl, hne⟩ := hdiffer.exists_block hlength hinside
  have hstays : front.length < stayingBlocks (16 * front.length + 16 + behind.length) := by
    rwa [List.length_append, List.length_append, length_join, left.length_toList,
      ← Nat.add_assoc] at hindex
  obtain ⟨later, tail, hlater, hplain⟩ := exists_later cipher start front hstays
  rw [hplain, hplain]
  exact spreads_of_parts cipher start front later tail hne (blockAt_of_parts (length_join front))
    (blockAt_of_parts (length_join front)) hlater

/-! ## The block of the tail and the stolen bytes -/

/-- An altered block of the tail spoils the last whole block or the tail. -/
theorem ne_of_moved (chain : Block) {sealedTail moved : Block} {stolen : Bytes}
    (hstolen : stolen.length < 16) (hne : sealedTail ≠ moved) :
    ((cipher.decrypt (rebuiltBlock cipher sealedTail stolen)).xor chain).toList ++
        plainTail cipher sealedTail stolen ≠
      ((cipher.decrypt (rebuiltBlock cipher moved stolen)).xor chain).toList ++
        plainTail cipher moved stolen := by
  intro hsame
  obtain ⟨hlast, htail⟩ := List.append_inj hsame (by simp)
  rw [← Octets.ext_iff, decrypt_xor_inj] at hlast
  apply hne
  rw [← tailBlock_rebuiltBlock cipher sealedTail hstolen, hlast, htail,
    tailBlock_rebuiltBlock cipher moved hstolen]

/-- The stolen bytes are the mask of the tail. -/
theorem plainTail_eq_xorBytes (sealedTail : Block) {stolen : Bytes} (hstolen : stolen.length < 16) :
    plainTail cipher sealedTail stolen =
      xorBytes stolen ((cipher.decrypt sealedTail).toList.take stolen.length) := by
  rw [plainTail, Octets.toList_xor, take_xorBytes, take_rebuiltBlock cipher sealedTail hstolen,
    xorBytes_comm]

theorem xorBytes_plainTail (sealedTail : Block) {stolen altered : Bytes}
    (hstolen : stolen.length < 16) (hlength : altered.length = stolen.length) :
    xorBytes (plainTail cipher sealedTail stolen) (plainTail cipher sealedTail altered) =
      xorBytes stolen altered := by
  have hmask : ((cipher.decrypt sealedTail).toList.take stolen.length).length = stolen.length := by
    rw [List.length_take, Block.length_toList]
    omega
  rw [plainTail_eq_xorBytes cipher sealedTail hstolen,
    plainTail_eq_xorBytes cipher sealedTail (by omega), hlength]
  exact xorBytes_masked _ _ _ (Nat.le_of_eq hmask.symm) (Nat.le_of_eq (hlength.trans hmask.symm))

/-- Altered stolen bytes spoil the last whole block, which they are the front of. -/
theorem rebuiltBlock_ne (sealedTail : Block) {stolen altered : Bytes}
    (hstolen : stolen.length < 16) (hlength : altered.length = stolen.length)
    (hne : stolen ≠ altered) :
    rebuiltBlock cipher sealedTail stolen ≠ rebuiltBlock cipher sealedTail altered := by
  intro hsame
  apply hne
  rw [← take_rebuiltBlock cipher sealedTail hstolen, hsame, ← hlength,
    take_rebuiltBlock cipher sealedTail (by omega)]

/-- The text behind all whole blocks but the last. -/
theorem decipher_tailed_parts (front : List Block) (sealedTail : Block) {stolen : Bytes}
    (hnonempty : stolen ≠ []) (hstolen : stolen.length < 16) :
    decipher cipher start (join front ++ (sealedTail.toList ++ stolen)) =
      join (Chaining.decipher cipher start front) ++
        (((cipher.decrypt (rebuiltBlock cipher sealedTail stolen)).xor
          (front.getLastD start)).toList ++ plainTail cipher sealedTail stolen) := by
  have hwhole : join front ++ (sealedTail.toList ++ stolen) =
      join (front ++ [sealedTail]) ++ stolen := by
    rw [join_append, join_cons, join_nil, List.append_nil, List.append_assoc]
  rw [hwhole, decipher_tailed cipher start front sealedTail hnonempty hstolen, decipher_around]
  simp only [Chaining.decipher, join_nil, List.append_nil, List.append_assoc]

theorem exists_sizes {length : Nat} (hrest : length % 16 ≠ 0) (hlong : 16 ≤ length) :
    ∃ index tail, length = 16 * index + 16 + tail ∧ 0 < tail ∧ tail < 16 ∧
      alignedLength 16 length = 16 * index + 16 ∧ length / 16 - 1 = index := by
  refine ⟨length / 16 - 1, length % 16, by omega, by omega, by omega, ?_, rfl⟩
  rw [alignedLength]
  omega

theorem differ_of_moved {one other : Bytes} (hlength : one.length = other.length)
    (hrest : one.length % 16 ≠ 0) (hlong : 16 ≤ one.length)
    (hdiffer : DifferWithin one other (alignedLength 16 one.length - 16)
      (alignedLength 16 one.length)) :
    (decipher cipher start one).take (alignedLength 16 one.length - 16) =
        (decipher cipher start other).take (alignedLength 16 one.length - 16) ∧
      (decipher cipher start one).drop (alignedLength 16 one.length - 16) ≠
        (decipher cipher start other).drop (alignedLength 16 one.length - 16) := by
  obtain ⟨index, count, hcount, hpositive, hshort, hfull, -⟩ := exists_sizes hrest hlong
  rw [hfull, Nat.add_sub_cancel] at hdiffer ⊢
  obtain ⟨front, left, right, behind, rfl, rfl, rfl, hne⟩ :=
    hdiffer.exists_block hlength (by omega)
  have hbehind : behind.length = count := by
    rw [List.length_append, List.length_append, Block.length_join, left.length_toList] at hcount
    omega
  have hnonempty : behind ≠ [] := List.ne_nil_of_length_pos (by omega)
  have hfront : (join (Chaining.decipher cipher start front)).length = 16 * front.length := by
    rw [length_join, Chaining.length_decipher]
  rw [decipher_tailed_parts cipher start front left hnonempty (by omega),
    decipher_tailed_parts cipher start front right hnonempty (by omega)]
  constructor
  · rw [List.take_left' hfront, List.take_left' hfront]
  · rw [List.drop_left' hfront, List.drop_left' hfront]
    exact ne_of_moved cipher _ (by omega) hne

theorem differ_of_stolen {one other : Bytes} (hlength : one.length = other.length)
    (hrest : one.length % 16 ≠ 0) (hlong : 16 ≤ one.length)
    (hdiffer : DifferWithin one other (alignedLength 16 one.length) one.length) :
    (decipher cipher start one).take (alignedLength 16 one.length - 16) =
        (decipher cipher start other).take (alignedLength 16 one.length - 16) ∧
      blockAt (decipher cipher start one) (one.length / 16 - 1) ≠
        blockAt (decipher cipher start other) (one.length / 16 - 1) ∧
      xorBytes ((decipher cipher start one).drop (alignedLength 16 one.length))
          ((decipher cipher start other).drop (alignedLength 16 one.length)) =
        xorBytes (one.drop (alignedLength 16 one.length))
          (other.drop (alignedLength 16 one.length)) := by
  obtain ⟨index, count, hcount, hpositive, hshort, hfull, hlast⟩ := exists_sizes hrest hlong
  rw [hfull] at hdiffer
  rw [hfull, Nat.add_sub_cancel, hlast]
  obtain ⟨front, sealedTail, stolen, altered, rfl, rfl, rfl, hstolen, haltered, hne⟩ :=
    hdiffer.exists_tails hlength hcount
  have hfront : (join (Chaining.decipher cipher start front)).length = 16 * front.length := by
    rw [length_join, Chaining.length_decipher]
  have hspoilt : (cipher.decrypt (rebuiltBlock cipher sealedTail stolen)).xor
        (front.getLastD start) ≠
      (cipher.decrypt (rebuiltBlock cipher sealedTail altered)).xor (front.getLastD start) :=
    mt (decrypt_xor_inj cipher _).1
      (rebuiltBlock_ne cipher sealedTail (by omega) (by omega) hne)
  rw [decipher_tailed_parts cipher start front sealedTail
      (List.ne_nil_of_length_pos (by omega)) (by omega),
    decipher_tailed_parts cipher start front sealedTail
      (List.ne_nil_of_length_pos (by omega)) (by omega)]
  refine ⟨?_, ?_, ?_⟩
  · rw [List.take_left' hfront, List.take_left' hfront]
  · rwa [blockAt_of_parts hfront, blockAt_of_parts hfront]
  · rw [drop_of_parts hfront, drop_of_parts hfront, drop_of_parts (length_join front),
      drop_of_parts (length_join front)]
    exact xorBytes_plainTail cipher sealedTail (by omega) (haltered.trans hstolen.symm)

theorem xorBytes_decipher_short {one other : Bytes} (hone : one.length < 16)
    (hother : other.length < 16) :
    xorBytes (decipher cipher start one) (decipher cipher start other) = xorBytes one other := by
  rw [decipher_short cipher start hone, decipher_short cipher start hother]
  have hmask := (cipher.encrypt start).length_toList
  exact xorBytes_masked _ _ _ (by omega) (by omega)

/-! ## The work in place -/

/-- Two ciphertexts of one length are always deciphered.  If they differ in one block that
stays in its place, in the block of the tail, in the stolen bytes, or are shorter than a
block, this is how far their texts differ. -/
theorem decrypt_damage {n : Nat} (one other : Octets n) :
    ∃ plain spoilt : Octets n, decrypt cipher start.toList one = .ok plain ∧
      decrypt cipher start.toList other = .ok spoilt ∧
      (∀ index < stayingBlocks n,
        DifferWithin one.toList other.toList (16 * index) (16 * index + 16) →
        SpreadsFrom index one.toList other.toList plain.toList spoilt.toList) ∧
      (n % 16 ≠ 0 → 16 ≤ n →
        DifferWithin one.toList other.toList (alignedLength 16 n - 16) (alignedLength 16 n) →
        plain.toList.take (alignedLength 16 n - 16) =
            spoilt.toList.take (alignedLength 16 n - 16) ∧
          plain.toList.drop (alignedLength 16 n - 16) ≠
            spoilt.toList.drop (alignedLength 16 n - 16)) ∧
      (n % 16 ≠ 0 → 16 ≤ n →
        DifferWithin one.toList other.toList (alignedLength 16 n) n →
        plain.toList.take (alignedLength 16 n - 16) =
            spoilt.toList.take (alignedLength 16 n - 16) ∧
          blockAt plain.toList (n / 16 - 1) ≠ blockAt spoilt.toList (n / 16 - 1) ∧
          xorBytes (plain.toList.drop (alignedLength 16 n))
              (spoilt.toList.drop (alignedLength 16 n)) =
            xorBytes (one.toList.drop (alignedLength 16 n))
              (other.toList.drop (alignedLength 16 n))) ∧
      (n < 16 → xorBytes plain.toList spoilt.toList = xorBytes one.toList other.toList) := by
  have hone := one.length_toList
  have hlength : one.toList.length = other.toList.length := by
    rw [hone, other.length_toList]
  refine ⟨_, _, decrypt_toList cipher start one, decrypt_toList cipher start other, ?_, ?_, ?_, ?_⟩
  · intro index hindex hdiffer
    exact spreads_of_differWithin cipher start hlength (by rwa [hone]) hdiffer
  · intro hrest hlong hdiffer
    have hmoved := differ_of_moved cipher start hlength (by rwa [hone]) (by rwa [hone])
      (by rwa [hone])
    rwa [hone] at hmoved
  · intro hrest hlong hdiffer
    have hstolen := differ_of_stolen cipher start hlength (by rwa [hone]) (by rwa [hone])
      (by rwa [hone])
    rwa [hone] at hstolen
  · intro hshort
    exact xorBytes_decipher_short cipher start (by omega) (by omega)

/-- A bit of the first of three whole blocks with a tail of one byte: the two texts differ
in the first block, and by that bit in the second one. -/
theorem decrypt_damage_first :
    ∃ plain spoilt : Octets 49,
      decrypt (Aes.cipher (Octets.zero 16)) (Octets.zero 16).toList (Octets.zero 49) = .ok plain ∧
      decrypt (Aes.cipher (Octets.zero 16)) (Octets.zero 16).toList
        ⟨1 :: List.replicate 48 0, rfl⟩ = .ok spoilt ∧
      0 < stayingBlocks 49 ∧
      DifferWithin (Octets.zero 49).toList (1 :: List.replicate 48 0) (16 * 0) (16 * 0 + 16) ∧
      SpreadsFrom 0 (Octets.zero 49).toList (1 :: List.replicate 48 0) plain.toList
        spoilt.toList := by
  obtain ⟨plain, spoilt, hplain, hspoilt, hstays, -⟩ :=
    decrypt_damage (Aes.cipher (Octets.zero 16)) (Octets.zero 16) (Octets.zero 49)
      ⟨1 :: List.replicate 48 0, rfl⟩
  have hdiffer : DifferWithin (Octets.zero 49).toList (1 :: List.replicate 48 0) (16 * 0)
      (16 * 0 + 16) := ⟨by decide, by decide, by decide⟩
  exact ⟨plain, spoilt, hplain, hspoilt, by decide, hdiffer, hstays 0 (by decide) hdiffer⟩

end SealedArchive.Stealing
