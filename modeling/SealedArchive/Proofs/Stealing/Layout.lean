import SealedArchive.Proofs.Stealing.InPlace

/-!
# The layout of the ciphertext

Other tools have written archives with the same layout, so it is fixed byte for
byte.  Here it is put in terms of the textbook recurrence of chaining: block
`i + 1` of the ciphertext is the enciphered sum of block `i + 1` of the text and
block `i` of the ciphertext, and the starting block is block 0.

`chainAt` is that recurrence by index, on the bytes of the text.  A buffer of
whole blocks becomes `cbc` of it.  With a tail, the text is filled up with
zeros and chained; then the two last blocks change places and the end is cut
off.  `encrypt_layout` states both for the work in place, with the same layout
told range by range.
-/

namespace SealedArchive.Stealing

variable (cipher : BlockCipher) (start : Block)

/-! ## The recurrence -/

/-- Block `index` of a text, counted from zero. -/
def blockAt (text : Bytes) (index : Nat) : Block := Octets.padded 16 (text.drop (16 * index))

/-- The ciphertext after a number of blocks of the text. -/
def chainAt (text : Bytes) : (count : Nat) → Block
  | 0 => start
  | count + 1 => cipher.encrypt ((blockAt text count).xor (chainAt text count))

/-- The ciphertext blocks of a text of whole blocks. -/
def cbcBlocks (text : Bytes) : List Block :=
  (List.range (text.length / 16)).map fun index => chainAt cipher start text (index + 1)

/-- The ciphertext of a text of whole blocks. -/
def cbc (text : Bytes) : Bytes := join (cbcBlocks cipher start text)

theorem blockAt_zero (block : Block) (text : Bytes) :
    blockAt (block.toList ++ text) 0 = block := by
  apply Octets.ext
  simp [blockAt, Octets.padded]

theorem blockAt_succ (block : Block) (text : Bytes) (index : Nat) :
    blockAt (block.toList ++ text) (index + 1) = blockAt text index := by
  rw [blockAt, Nat.mul_succ, Nat.add_comm, ← List.drop_drop, List.drop_left' block.length_toList,
    blockAt]

/-- The recurrence goes on behind the first block as from the start. -/
theorem chainAt_append (block : Block) (text : Bytes) (count : Nat) :
    chainAt cipher start (block.toList ++ text) (count + 1) =
      chainAt cipher (cipher.encrypt (block.xor start)) text count := by
  induction count with
  | zero => rw [chainAt, chainAt, chainAt, blockAt_zero]
  | succ count ih => rw [chainAt, ih, blockAt_succ, chainAt]

theorem cbcBlocks_join (parts : List Block) :
    cbcBlocks cipher start (join parts) = Chaining.encipher cipher start parts := by
  have hcount : (join parts).length / 16 = parts.length := by
    rw [length_join, Nat.mul_div_cancel_left _ (by decide)]
  rw [cbcBlocks, hcount]
  clear hcount
  induction parts generalizing start with
  | nil => rfl
  | cons part parts ih =>
    rw [List.length_cons, List.range_succ_eq_map, List.map_cons, List.map_map, join_cons,
      Chaining.encipher]
    have hfirst : chainAt cipher start (part.toList ++ join parts) (0 + 1) =
        cipher.encrypt (part.xor start) := by
      rw [chainAt_append, chainAt]
    rw [hfirst, ← ih]
    congr 1
    apply List.map_congr_left
    intro index _
    exact chainAt_append cipher start part (join parts) (index + 1)

theorem cbc_join (parts : List Block) :
    cbc cipher start (join parts) = join (Chaining.encipher cipher start parts) := by
  rw [cbc, cbcBlocks_join]

theorem cbc_join_concat (front : List Block) (final : Block) :
    cbc cipher start (join (front ++ [final])) =
      join (Chaining.encipher cipher start front) ++
        (lastBlock cipher start front final).toList := by
  rw [cbc_join, chained_concat, join_append]
  simp

/-- The last block of the recurrence on whole blocks. -/
theorem chainAt_join_concat (front : List Block) (final : Block) :
    chainAt cipher start (join (front ++ [final])) (front.length + 1) =
      lastBlock cipher start front final := by
  have hblocks := cbcBlocks_join cipher start (front ++ [final])
  rw [chained_concat, cbcBlocks, length_join_concat,
    show (16 * front.length + 16) / 16 = front.length + 1 by omega, List.range_succ,
    List.map_append] at hblocks
  have hlast := (List.append_inj_right' hblocks (by simp))
  simpa using hlast

/-! ## The text with a tail -/

/-- The text filled up with zeros behind its tail. -/
def filledUp (text : Bytes) : Bytes := text ++ List.replicate (16 - text.length % 16) 0

/-- The list with its two last entries exchanged. -/
def exchangeLast {α : Type} : List α → List α
  | [] => []
  | [a] => [a]
  | [a, b] => [b, a]
  | a :: b :: c :: later => a :: exchangeLast (b :: c :: later)

theorem exchangeLast_append {α : Type} (front : List α) (a b : α) :
    exchangeLast (front ++ [a, b]) = front ++ [b, a] := by
  induction front with
  | nil => rfl
  | cons c front ih =>
    cases front with
    | nil => rfl
    | cons d front =>
      cases front with
      | nil => simp [exchangeLast]
      | cons e front =>
        simp only [List.cons_append] at ih ⊢
        rw [exchangeLast, ih]

/-- What stands where in the ciphertext of a text with a tail. -/
structure TailedLayout (text sealedText : Bytes) : Prop where
  /-- The text is filled up and chained, the two last blocks are exchanged and
  the end is cut off. -/
  exchanged : sealedText =
    (join (exchangeLast (cbcBlocks cipher start (filledUp text)))).take text.length
  /-- In front of the last whole block there is plain chaining. -/
  front : sealedText.take (alignedLength 16 text.length - 16) =
    (cbc cipher start (text.take (alignedLength 16 text.length))).take
      (alignedLength 16 text.length - 16)
  /-- The block of the tail stands in the place of the last whole block. -/
  moved : (sealedText.drop (alignedLength 16 text.length - 16)).take 16 =
    (cipher.encrypt ((Octets.padded 16 (text.drop (alignedLength 16 text.length))).xor
      (chainAt cipher start (text.take (alignedLength 16 text.length))
        (alignedLength 16 text.length / 16)))).toList
  /-- Behind it are the leading bytes of the last whole block. -/
  stolen : sealedText.drop (alignedLength 16 text.length) =
    ((cbc cipher start (text.take (alignedLength 16 text.length))).drop
      (alignedLength 16 text.length - 16)).take (text.length % 16)

theorem filledUp_tailed (front : List Block) (final : Block) {tail : Bytes}
    (hnonempty : tail ≠ []) (htail : tail.length < 16) :
    filledUp (join (front ++ [final]) ++ tail) =
      join (front ++ [final] ++ [Octets.padded 16 tail]) := by
  have hpositive := List.length_pos_iff.2 hnonempty
  have hmod : (join (front ++ [final]) ++ tail).length % 16 = tail.length := by
    rw [List.length_append, length_join_concat]
    omega
  rw [filledUp, hmod, join_append _ [Octets.padded 16 tail], List.append_assoc]
  simp only [join_cons, join_nil, List.append_nil, Octets.toList_padded tail (Nat.le_of_lt htail)]

/-- Filled up, the tail is one more block of the text. -/
theorem lastBlock_concat (front : List Block) (final : Block) (tail : Bytes) :
    lastBlock cipher start (front ++ [final]) (Octets.padded 16 tail) =
      tailBlock cipher (lastBlock cipher start front final) tail := by
  rw [lastBlock, chained_concat, List.getLastD_concat, tailBlock]

theorem cbcBlocks_filledUp (front : List Block) (final : Block) {tail : Bytes}
    (hnonempty : tail ≠ []) (htail : tail.length < 16) :
    cbcBlocks cipher start (filledUp (join (front ++ [final]) ++ tail)) =
      Chaining.encipher cipher start front ++
        [lastBlock cipher start front final,
          tailBlock cipher (lastBlock cipher start front final) tail] := by
  rw [filledUp_tailed front final hnonempty htail, cbcBlocks_join, chained_concat,
    lastBlock_concat, chained_concat, List.append_assoc]
  rfl

theorem tailedLayout_encipher (front : List Block) (final : Block) {tail : Bytes}
    (hnonempty : tail ≠ []) (htail : tail.length < 16) :
    TailedLayout cipher start (join (front ++ [final]) ++ tail)
      (encipher cipher start (join (front ++ [final]) ++ tail)) := by
  have hpositive := List.length_pos_iff.2 hnonempty
  have hlength : (join (front ++ [final]) ++ tail).length =
      16 * front.length + 16 + tail.length := by
    rw [List.length_append, length_join_concat]
  have hfull : alignedLength 16 (16 * front.length + 16 + tail.length) =
      16 * front.length + 16 := by
    rw [alignedLength]
    omega
  have hmod : (16 * front.length + 16 + tail.length) % 16 = tail.length := by omega
  have hfront : (join (Chaining.encipher cipher start front)).length = 16 * front.length := by
    rw [length_join, Chaining.length_encipher]
  have hwhole : (join (front ++ [final]) ++ tail).take (16 * front.length + 16) =
      join (front ++ [final]) := List.take_left' (length_join_concat front final)
  have hcbc := cbc_join_concat cipher start front final
  have hsealed : encipher cipher start (join (front ++ [final]) ++ tail) =
      join (Chaining.encipher cipher start front) ++
        ((tailBlock cipher (lastBlock cipher start front final) tail).toList ++
          (lastBlock cipher start front final).toList.take tail.length) := by
    rw [encipher_tailed cipher start front final hnonempty htail, join_append]
    simp
  have hmoved : (join (Chaining.encipher cipher start front) ++
      (tailBlock cipher (lastBlock cipher start front final) tail).toList).length =
        16 * front.length + 16 := by
    rw [List.length_append, hfront, Octets.length_toList]
  constructor
  case exchanged =>
    have hblocks := cbcBlocks_filledUp cipher start front final hnonempty htail
    have hexchanged : join (Chaining.encipher cipher start front ++
          [tailBlock cipher (lastBlock cipher start front final) tail,
            lastBlock cipher start front final]) =
        (join (Chaining.encipher cipher start front) ++
          (tailBlock cipher (lastBlock cipher start front final) tail).toList) ++
            (lastBlock cipher start front final).toList := by
      rw [join_append]
      simp
    rw [hsealed, hblocks, exchangeLast_append, hexchanged, hlength, ← hmoved,
      List.take_length_add_append, List.append_assoc]
  case front =>
    rw [hlength, hfull, Nat.add_sub_cancel, hwhole, hcbc, hsealed, List.take_left' hfront,
      List.take_left' hfront]
  case moved =>
    rw [hlength, hfull, Nat.add_sub_cancel, hwhole, hsealed, List.drop_left' hfront,
      List.take_left' (Octets.length_toList _), List.drop_left' (length_join_concat front final),
      show (16 * front.length + 16) / 16 = front.length + 1 by omega, chainAt_join_concat,
      tailBlock]
  case stolen =>
    rw [hlength, hfull, hmod, Nat.add_sub_cancel, hwhole, hcbc, List.drop_left' hfront, hsealed,
      ← List.append_assoc, List.drop_left' hmoved]

/-! ## Texts by their length -/

theorem encipher_eq_cbc {text : Bytes} (haligned : text.length % 16 = 0) :
    encipher cipher start text = cbc cipher start text := by
  cases cut text with
  | short _ hshort =>
    have hempty : text = [] := by
      apply List.eq_nil_of_length_eq_zero
      omega
    subst hempty
    rfl
  | aligned parts hlong => rw [encipher_join cipher start hlong, cbc_join]
  | tailed front final tail hnonempty htail =>
    have hpositive := List.length_pos_iff.2 hnonempty
    rw [List.length_append, length_join_concat] at haligned
    omega

theorem tailedLayout_of_length {text : Bytes} (hrest : text.length % 16 ≠ 0)
    (hlong : 16 ≤ text.length) : TailedLayout cipher start text (encipher cipher start text) := by
  cases cut text with
  | short _ hshort => omega
  | aligned parts _ =>
    rw [Block.length_join] at hrest
    omega
  | tailed front final tail hnonempty htail =>
    exact tailedLayout_encipher cipher start front final hnonempty htail

theorem maskShort_eq (text : Bytes) :
    maskShort cipher start text =
      xorBytes text ((cipher.encrypt start).toList.take text.length) := by
  have hlength : (xorBytes text (cipher.encrypt start).toList).length ≤ text.length := by
    rw [length_xorBytes]
    exact Nat.min_le_left _ _
  have htake := take_xorBytes text.length text (cipher.encrypt start).toList
  rw [List.take_length, List.take_of_length_le hlength] at htake
  exact htake

/-! ## The work in place -/

/-- From a starting block of the right length, the work in place always gives
the layout: plain chaining of whole blocks, the layout of a text with a tail, and
for less than a block the same mask in both directions. -/
theorem encrypt_layout {n : Nat} (buffer : Octets n) :
    ∃ after : Octets n, encrypt cipher start.toList buffer = .ok after ∧
      (n % 16 = 0 → after.toList = cbc cipher start buffer.toList) ∧
      (n % 16 ≠ 0 → 16 ≤ n → TailedLayout cipher start buffer.toList after.toList) ∧
      (0 < n → n < 16 →
        after.toList = xorBytes buffer.toList ((cipher.encrypt start).toList.take n) ∧
        decrypt cipher start.toList buffer = .ok after) := by
  have hlength := buffer.length_toList
  refine ⟨_, encrypt_toList cipher start buffer, ?_, ?_, ?_⟩
  · intro haligned
    exact encipher_eq_cbc cipher start (by rw [hlength]; exact haligned)
  · intro hrest hlong
    exact tailedLayout_of_length cipher start (by rw [hlength]; exact hrest)
      (by rw [hlength]; exact hlong)
  · intro _ hshort
    have hview : buffer.toList.length < 16 := by rw [hlength]; exact hshort
    have hmask : maskShort cipher start buffer.toList =
        xorBytes buffer.toList ((cipher.encrypt start).toList.take n) := by
      rw [maskShort_eq, hlength]
    constructor
    · exact (encipher_short cipher start hview).trans hmask
    · rw [decrypt_toList]
      apply congrArg Except.ok
      apply Octets.ext
      exact (decipher_short cipher start hview).trans (encipher_short cipher start hview).symm

end SealedArchive.Stealing
