import SealedArchive.Proofs.Stealing.Parts

/-!
# The work in place comes to the same bytes

`encrypt` and `decrypt` work on ranges of one buffer and may fail at each of
them.  `encrypt_toList` and `decrypt_toList` say that from a starting block of the right
length they never do, and that what stands in the buffer at the end is what
`encipher` and `decipher` make of it.

Each proof follows the buffer through the steps, always cut at the ends of the
range that the next step works on.
-/

namespace SealedArchive.Stealing

variable {n : Nat} (cipher : BlockCipher) (start : Block)

@[simp] theorem startBlock_toList : startBlock start.toList = .ok start := by
  simp [startBlock]

/-! ## Ranges that are chained -/

/-- A range of whole blocks is chained, and the rest of the buffer is kept. -/
theorem exists_chainRange {chainPiece : Block → Bytes → Except Error Bytes × Block}
    {chain next : Block} {buffer : Octets n} {left middle right chained : Bytes}
    (first stop : Nat) (hparts : buffer.toList = left ++ (middle ++ right))
    (hfirst : left.length = first) (hstop : first + middle.length = stop)
    (hpiece : chainPiece chain middle = (.ok chained, next))
    (hlength : chained.length = middle.length) :
    ∃ after : Octets n, chainRange chainPiece chain buffer first stop = .ok (after, next) ∧
      after.toList = left ++ (chained ++ right) := by
  have hread : buffer.range first stop = .ok middle := Octets.range_of_parts hparts hfirst hstop
  obtain ⟨after, hwrite, hview⟩ := Octets.exists_setRange _ _ chained hparts hfirst hstop hlength
  refine ⟨after, ?_, hview⟩
  simp only [chainRange, hread, bind, Except.bind, hpiece, hwrite, pure, Except.pure]

/-- A single block is a range of its own. -/
theorem chainRange_block {chainPiece : Block → Bytes → Except Error Bytes × Block}
    {chain next block chained : Block}
    (hpiece : chainPiece chain (join [block]) = (.ok (join [chained]), next)) :
    chainRange chainPiece chain block 0 16 = .ok (chained, next) := by
  have hparts : block.toList = [] ++ (join [block] ++ []) := by simp
  obtain ⟨after, hchained, hview⟩ :=
    exists_chainRange 0 16 hparts rfl (by simp) hpiece (by simp)
  have hafter : after = chained := by
    apply Octets.ext
    simpa using hview
  rw [hchained, hafter]

/-- A range that was chained is a whole number of blocks, if the chaining refuses
every other piece. -/
theorem aligned_of_chainRange {chainPiece : Block → Bytes → Except Error Bytes × Block}
    {chain : Block} {buffer : Octets n} {first stop : Nat} {after : Octets n × Block}
    (hrefuses : ∀ piece : Bytes, piece.length % 16 ≠ 0 →
      chainPiece chain piece = (.error (.unaligned piece.length), chain))
    (hchained : chainRange chainPiece chain buffer first stop = .ok after) :
    (stop - first) % 16 = 0 := by
  cases hread : buffer.range first stop with
  | error error =>
    rw [chainRange, hread] at hchained
    cases hchained
  | ok piece =>
    rw [← Octets.length_of_range hread]
    by_cases haligned : piece.length % 16 = 0
    · exact haligned
    · simp only [chainRange, hread, bind, Except.bind, hrefuses piece haligned] at hchained
      cases hchained

/-- Filling the front of an empty block is filling up with zeros. -/
theorem setRange_zero {bytes : Bytes} (hlength : bytes.length ≤ 16) :
    (Octets.zero 16).setRange 0 bytes.length bytes = .ok (Octets.padded 16 bytes) := by
  have hparts : (Octets.zero 16).toList =
      [] ++ (List.replicate bytes.length 0 ++ List.replicate (16 - bytes.length) 0) := by
    rw [List.nil_append, List.replicate_append_replicate, Octets.toList_zero]
    congr 1
    omega
  obtain ⟨after, hwrite, hview⟩ :=
    Octets.exists_setRange 0 bytes.length bytes hparts rfl (by simp) (by simp)
  have hafter : after = Octets.padded 16 bytes := by
    apply Octets.ext
    rw [hview, Octets.toList_padded bytes hlength, List.nil_append]
  rw [hwrite, hafter]

/-! ## The sizes of the parts -/

theorem alignedLength_short {length : Nat} (hshort : length < 16) :
    alignedLength 16 length = 0 := by
  rw [alignedLength, Nat.mod_eq_of_lt hshort, Nat.sub_self]

theorem sizes_aligned {buffer : Octets n} {parts : List Block}
    (hview : buffer.toList = join parts) :
    alignedLength 16 n = n ∧ restLength 16 n = 0 := by
  have hlength : n = 16 * parts.length := by
    rw [← buffer.length_toList, hview, length_join]
  rw [alignedLength, restLength]
  omega

theorem sizes_tailed {buffer : Octets n} {front : List Block} {final : Block} {tail : Bytes}
    (hview : buffer.toList = join (front ++ [final]) ++ tail) (htail : tail.length < 16) :
    n = 16 * front.length + 16 + tail.length ∧
      alignedLength 16 n = 16 * front.length + 16 ∧ restLength 16 n = tail.length := by
  have hlength : n = 16 * front.length + 16 + tail.length := by
    rw [← buffer.length_toList, hview, List.length_append, length_join_concat]
  rw [alignedLength, restLength]
  omega

/-- A buffer of less than a block is masked as a whole. -/
theorem maskFront_short (buffer : Octets n) (hshort : n < 16) :
    (buffer.maskFront (cipher.encrypt start).toList).toList =
      maskShort cipher start buffer.toList := by
  have hdrop : buffer.toList.drop (cipher.encrypt start).toList.length = [] := by
    apply List.drop_of_length_le
    rw [Octets.length_toList, Octets.length_toList]
    exact Nat.le_of_lt hshort
  rw [Octets.toList_maskFront, hdrop, List.append_nil, maskShort]

/-! ## Enciphering -/

theorem encrypt_short (buffer : Octets n) (hshort : n < 16) :
    ∃ after : Octets n, encrypt cipher start.toList buffer = .ok after ∧
      after.toList = maskShort cipher start buffer.toList := by
  refine ⟨_, ?_, maskFront_short cipher start buffer hshort⟩
  simp only [encrypt, startBlock_toList, alignedLength_short hshort, if_true, bind, Except.bind,
    pure, Except.pure]

theorem encrypt_aligned {parts : List Block} (buffer : Octets n)
    (hview : buffer.toList = join parts) (hlong : 16 ≤ n) :
    ∃ after : Octets n, encrypt cipher start.toList buffer = .ok after ∧
      after.toList = join (Chaining.encipher cipher start parts) := by
  obtain ⟨hfull, htail⟩ := sizes_aligned hview
  have hparts : buffer.toList = [] ++ (join parts ++ []) := by
    rw [hview, List.append_nil, List.nil_append]
  have hlength : (join parts).length = n := by rw [← hview, buffer.length_toList]
  obtain ⟨after, hchained, hafter⟩ :=
    exists_chainRange 0 n hparts rfl (by omega)
      (Chaining.encryptPiece_join cipher start parts) (by simp)
  refine ⟨after, ?_, by simpa using hafter⟩
  simp only [encrypt, startBlock_toList, hfull, htail, if_neg (show ¬n = 0 by omega), hchained,
    if_true, bind, Except.bind, pure, Except.pure]

/-- The leading bytes of the last whole block go to the end of the buffer before
another block is put over it. -/
theorem exists_exchange {buffer : Octets n} {front tail : Bytes} {last : Block} (moved : Block)
    (place : Nat) (hparts : buffer.toList = front ++ (last.toList ++ tail))
    (hplace : front.length = place) (htail : tail.length ≤ 16) :
    ∃ copied after : Octets n,
      buffer.copyRange place (place + tail.length) (place + 16) = .ok copied ∧
      copied.setRange place (place + 16) moved.toList = .ok after ∧
      after.toList = front ++ (moved.toList ++ last.toList.take tail.length) := by
  have hcut : buffer.toList = front ++
      (last.toList.take tail.length ++ (last.toList.drop tail.length ++ (tail ++ []))) := by
    rw [hparts, List.append_nil, ← List.append_assoc (last.toList.take tail.length),
      List.take_append_drop]
  obtain ⟨copied, hcopy, hcopied⟩ :=
    Octets.exists_copyRange place (place + tail.length) (place + 16) hcut hplace
      (by simp; omega) (by simp; omega) (by simp; omega)
  have hlast : copied.toList = front ++ (last.toList ++ last.toList.take tail.length) := by
    rw [hcopied, List.append_nil, ← List.append_assoc (last.toList.take tail.length),
      List.take_append_drop]
  obtain ⟨after, hwrite, hafter⟩ :=
    Octets.exists_setRange place (place + 16) moved.toList hlast hplace (by simp) (by simp)
  exact ⟨copied, after, hcopy, hwrite, hafter⟩

theorem encrypt_tailed {front : List Block} {final : Block} {tail : Bytes} (buffer : Octets n)
    (hview : buffer.toList = join (front ++ [final]) ++ tail) (hnonempty : tail ≠ [])
    (hshort : tail.length < 16) :
    ∃ after : Octets n, encrypt cipher start.toList buffer = .ok after ∧
      after.toList =
        join (Chaining.encipher cipher start front ++
          [tailBlock cipher (lastBlock cipher start front final) tail]) ++
            (lastBlock cipher start front final).toList.take tail.length := by
  obtain ⟨hlength, hfull, htail⟩ := sizes_tailed hview hshort
  have hpositive := List.length_pos_iff.2 hnonempty
  have hfront : (join (Chaining.encipher cipher start front)).length = 16 * front.length := by
    rw [length_join, Chaining.length_encipher]
  generalize hlast : lastBlock cipher start front final = last
  -- The whole blocks are chained where they stand.
  have hwhole : Chaining.encryptPiece cipher start (join (front ++ [final])) =
      (.ok (join (Chaining.encipher cipher start front ++ [last])), last) := by
    rw [Chaining.encryptPiece_join, chained_concat, hlast, List.getLastD_concat]
  have hbuffer : buffer.toList = [] ++ (join (front ++ [final]) ++ tail) := hview
  obtain ⟨chained, hchain, hchained⟩ :=
    exists_chainRange 0 (16 * front.length + 16) hbuffer rfl
      (by rw [length_join_concat]; omega) hwhole (by simp)
  -- The chain goes on to the block of the tail.
  have hread : chained.range (16 * front.length + 16) n = .ok tail := by
    have hparts : chained.toList =
        join (Chaining.encipher cipher start front ++ [last]) ++ (tail ++ []) := by
      rw [hchained, List.nil_append, List.append_nil]
    refine Octets.range_of_parts hparts ?_ (by omega)
    rw [length_join_concat, Chaining.length_encipher]
  have htailChain : chainRange (Chaining.encryptPiece cipher) last (Octets.padded 16 tail) 0 16 =
      .ok (tailBlock cipher last tail, tailBlock cipher last tail) :=
    chainRange_block (Chaining.encryptPiece_join cipher last [Octets.padded 16 tail])
  -- The two last blocks change places.
  have hcut : chained.toList = join (Chaining.encipher cipher start front) ++
      (last.toList ++ tail) := by
    rw [hchained, join_append]
    simp
  obtain ⟨copied, after, hcopy, hwrite, hafter⟩ :=
    exists_exchange (tailBlock cipher last tail) (16 * front.length) hcut hfront
      (Nat.le_of_lt hshort)
  refine ⟨after, ?_, ?_⟩
  · simp only [encrypt, startBlock_toList, hfull, htail, hchain, hread, htailChain, hcopy, hwrite,
      setRange_zero (Nat.le_of_lt hshort), Octets.indexBefore_add,
      if_neg (show ¬16 * front.length + 16 = 0 by omega),
      if_neg (show ¬tail.length = 0 by omega), bind, Except.bind, pure, Except.pure]
  · rw [hafter, join_append]
    simp

theorem encrypt_toList (buffer : Octets n) :
    encrypt cipher start.toList buffer = .ok ⟨encipher cipher start buffer.toList, by simp⟩ := by
  have hexists : ∃ after : Octets n, encrypt cipher start.toList buffer = .ok after ∧
      after.toList = encipher cipher start buffer.toList := by
    generalize hview : buffer.toList = bytes
    have hlength : bytes.length = n := by rw [← hview, buffer.length_toList]
    cases cut bytes with
    | short _ hshort =>
      rw [encipher_short cipher start hshort, ← hview]
      exact encrypt_short cipher start buffer (by omega)
    | aligned parts hlong =>
      rw [encipher_join cipher start hlong]
      exact encrypt_aligned cipher start buffer hview (by omega)
    | tailed front final tail hnonempty htail =>
      rw [encipher_tailed cipher start front final hnonempty htail]
      exact encrypt_tailed cipher start buffer hview hnonempty htail
  obtain ⟨after, hresult, hafter⟩ := hexists
  rw [hresult]
  exact congrArg Except.ok (Octets.ext hafter)

/-! ## Deciphering -/

theorem decrypt_short (buffer : Octets n) (hshort : n < 16) :
    ∃ after : Octets n, decrypt cipher start.toList buffer = .ok after ∧
      after.toList = maskShort cipher start buffer.toList := by
  refine ⟨_, ?_, maskFront_short cipher start buffer hshort⟩
  simp only [decrypt, startBlock_toList, alignedLength_short hshort, if_true, bind, Except.bind,
    pure, Except.pure]

theorem decrypt_aligned {parts : List Block} (buffer : Octets n)
    (hview : buffer.toList = join parts) (hlong : 16 ≤ n) :
    ∃ after : Octets n, decrypt cipher start.toList buffer = .ok after ∧
      after.toList = join (Chaining.decipher cipher start parts) := by
  obtain ⟨hfull, htail⟩ := sizes_aligned hview
  have hparts : buffer.toList = [] ++ (join parts ++ []) := by
    rw [hview, List.append_nil, List.nil_append]
  have hlength : (join parts).length = n := by rw [← hview, buffer.length_toList]
  obtain ⟨after, hchained, hafter⟩ :=
    exists_chainRange 0 n hparts rfl (by omega)
      (Chaining.decryptPiece_join cipher start parts) (by simp)
  refine ⟨after, ?_, by simpa using hafter⟩
  simp only [decrypt, startBlock_toList, hfull, htail, if_neg (show ¬n = 0 by omega), hchained,
    if_true, bind, Except.bind, pure, Except.pure]

/-- What is left of the deciphered block of the tail when the stolen bytes are
taken out of it: the tail in front, and behind it the bytes that the zeros have
kept. -/
theorem recovered_parts (sealedTail : Block) {stolen : Bytes} (hshort : stolen.length < 16) :
    ((cipher.decrypt sealedTail).xor (Octets.padded 16 stolen)).toList =
      plainTail cipher sealedTail stolen ++
        (cipher.decrypt sealedTail).toList.drop stolen.length := by
  have hfront : (Octets.padded 16 stolen).toList.take stolen.length =
      (rebuiltBlock cipher sealedTail stolen).toList.take stolen.length := by
    rw [take_rebuiltBlock cipher sealedTail hshort,
      Octets.toList_padded stolen (Nat.le_of_lt hshort), List.take_left]
  have hbehind := Octets.drop_padded_xor stolen (cipher.decrypt sealedTail) (Nat.le_of_lt hshort)
  rw [← List.take_append_drop stolen.length
    ((cipher.decrypt sealedTail).xor (Octets.padded 16 stolen)).toList]
  congr 1
  · rw [plainTail, Octets.toList_xor, Octets.toList_xor, take_xorBytes, take_xorBytes, hfront]
  · rw [Octets.xor_comm, hbehind]

theorem range_recovered (sealedTail : Block) {stolen : Bytes} (hshort : stolen.length < 16) :
    ((cipher.decrypt sealedTail).xor (Octets.padded 16 stolen)).range 0 stolen.length =
        .ok (plainTail cipher sealedTail stolen) ∧
      ((cipher.decrypt sealedTail).xor (Octets.padded 16 stolen)).range stolen.length 16 =
        .ok ((cipher.decrypt sealedTail).toList.drop stolen.length) := by
  have hplainTail := length_plainTail cipher sealedTail hshort
  have hparts : ((cipher.decrypt sealedTail).xor (Octets.padded 16 stolen)).toList =
      [] ++ (plainTail cipher sealedTail stolen ++
        ((cipher.decrypt sealedTail).toList.drop stolen.length ++ [])) := by
    rw [recovered_parts cipher sealedTail hshort, List.append_nil, List.nil_append]
  constructor
  · exact Octets.range_of_parts hparts rfl (by omega)
  · exact Octets.range_of_parts hparts hplainTail (by simp; omega)

theorem setRange_rebuilt (sealedTail : Block) {stolen : Bytes} (hshort : stolen.length < 16) :
    (Octets.padded 16 stolen).setRange stolen.length 16
      ((cipher.decrypt sealedTail).toList.drop stolen.length) =
        .ok (rebuiltBlock cipher sealedTail stolen) := by
  have hpadded : (Octets.padded 16 stolen).toList =
      stolen ++ (List.replicate (16 - stolen.length) 0 ++ []) := by
    rw [Octets.toList_padded stolen (Nat.le_of_lt hshort), List.append_nil]
  obtain ⟨block, hwrite, hblock⟩ :=
    Octets.exists_setRange stolen.length 16
      ((cipher.decrypt sealedTail).toList.drop stolen.length) hpadded rfl
      (by simp; omega) (by simp)
  rw [hwrite]
  congr 1
  apply Octets.ext
  rw [hblock, toList_rebuiltBlock cipher sealedTail hshort, List.append_nil]

theorem decrypt_tailed {front : List Block} {sealedTail : Block} {stolen : Bytes}
    (buffer : Octets n) (hview : buffer.toList = join (front ++ [sealedTail]) ++ stolen)
    (hnonempty : stolen ≠ []) (hshort : stolen.length < 16) :
    ∃ after : Octets n, decrypt cipher start.toList buffer = .ok after ∧
      after.toList =
        join (Chaining.decipher cipher start
          (front ++ [rebuiltBlock cipher sealedTail stolen])) ++
            plainTail cipher sealedTail stolen := by
  obtain ⟨hlength, hfull, htail⟩ := sizes_tailed hview hshort
  have hpositive := List.length_pos_iff.2 hnonempty
  have hplainTail := length_plainTail cipher sealedTail hshort
  have hplains : (join (Chaining.decipher cipher start front)).length = 16 * front.length := by
    rw [length_join, Chaining.length_decipher]
  -- All whole blocks but the last are chained where they stand.
  have hbuffer : buffer.toList = [] ++ (join front ++ (sealedTail.toList ++ stolen)) := by
    rw [hview, join_append, List.append_assoc]
    simp
  obtain ⟨chained, hchain, hchained⟩ :=
    exists_chainRange 0 (16 * front.length) hbuffer rfl (by rw [Block.length_join]; omega)
      (Chaining.decryptPiece_join cipher start front) (by simp)
  have hcut : chained.toList =
      join (Chaining.decipher cipher start front) ++ (sealedTail.toList ++ stolen) := hchained
  have hcutEnd : chained.toList =
      (join (Chaining.decipher cipher start front) ++ sealedTail.toList) ++ (stolen ++ []) := by
    rw [hcut, List.append_nil, List.append_assoc]
  have hend : (join (Chaining.decipher cipher start front) ++ sealedTail.toList).length =
      16 * front.length + 16 := by
    rw [List.length_append, hplains, sealedTail.length_toList]
  have hreadTail : chained.range (16 * front.length) (16 * front.length + 16) =
      .ok sealedTail.toList := Octets.range_of_parts hcut hplains (by simp)
  have hreadStolen : chained.range (16 * front.length + 16) n = .ok stolen :=
    Octets.range_of_parts hcutEnd hend (by omega)
  -- The block of the tail gives the tail and the end of the last whole block.
  obtain ⟨hreadPlain, hreadKept⟩ := range_recovered cipher sealedTail hshort
  obtain ⟨restored, hrestore, hrestored⟩ :=
    Octets.exists_setRange (16 * front.length + 16) n (plainTail cipher sealedTail stolen)
      hcutEnd hend (by omega) hplainTail
  -- Only then is the last whole block chained and written.
  have hplain : chainRange (Chaining.decryptPiece cipher) (front.getLastD start)
      (rebuiltBlock cipher sealedTail stolen) 0 16 =
        .ok ((cipher.decrypt (rebuiltBlock cipher sealedTail stolen)).xor (front.getLastD start),
          rebuiltBlock cipher sealedTail stolen) :=
    chainRange_block
      (Chaining.decryptPiece_join cipher (front.getLastD start)
        [rebuiltBlock cipher sealedTail stolen])
  have hcutLast : restored.toList = join (Chaining.decipher cipher start front) ++
      (sealedTail.toList ++ plainTail cipher sealedTail stolen) := by
    rw [hrestored, List.append_nil, List.append_assoc]
  obtain ⟨after, hwrite, hafter⟩ :=
    Octets.exists_setRange (16 * front.length) (16 * front.length + 16)
      ((cipher.decrypt (rebuiltBlock cipher sealedTail stolen)).xor
        (front.getLastD start)).toList hcutLast hplains (by simp) (by simp)
  have hkeep := setRange_zero (Nat.le_of_eq sealedTail.length_toList)
  rw [sealedTail.length_toList, Octets.padded_toList] at hkeep
  refine ⟨after, ?_, ?_⟩
  · simp only [decrypt, startBlock_toList, hfull, htail, hchain, hreadTail, hreadStolen, hkeep,
      setRange_zero (Nat.le_of_lt hshort), hreadPlain, hreadKept, hrestore,
      setRange_rebuilt cipher sealedTail hshort, hplain, hwrite,
      Octets.indexBefore_add, if_neg (show ¬16 * front.length + 16 = 0 by omega),
      if_neg (show ¬stolen.length = 0 by omega), bind, Except.bind, pure, Except.pure]
  · rw [hafter, Chaining.decipher_append, join_append]
    simp [Chaining.decipher]

theorem decrypt_toList (buffer : Octets n) :
    decrypt cipher start.toList buffer = .ok ⟨decipher cipher start buffer.toList, by simp⟩ := by
  have hexists : ∃ after : Octets n, decrypt cipher start.toList buffer = .ok after ∧
      after.toList = decipher cipher start buffer.toList := by
    generalize hview : buffer.toList = bytes
    have hlength : bytes.length = n := by rw [← hview, buffer.length_toList]
    cases cut bytes with
    | short _ hshort =>
      rw [decipher_short cipher start hshort, ← hview]
      exact decrypt_short cipher start buffer (by omega)
    | aligned parts hlong =>
      rw [decipher_join cipher start hlong]
      exact decrypt_aligned cipher start buffer hview (by omega)
    | tailed front sealedTail stolen hnonempty hstolen =>
      rw [decipher_tailed cipher start front sealedTail hnonempty hstolen]
      exact decrypt_tailed cipher start buffer hview hnonempty hstolen
  obtain ⟨after, hresult, hafter⟩ := hexists
  rw [hresult]
  exact congrArg Except.ok (Octets.ext hafter)

end SealedArchive.Stealing
