import SealedArchive.Cipher.Chaining.InPlace

/-!
# Chaining in place comes to the same bytes

A turn of the loop replaces one block and touches nothing else (`Turns`).  From it the loop over
a range is done once for both directions: between the same ends then stands what the turns make
of the blocks (`exists_eachBlockOf`), which is what `encipher` and `decipher` make of them
(`turnEach_encryptTurn`, `turnEach_decryptTurn`).

So the buffer of a piece holds what `encryptPiece` and `decryptPiece` make of the piece, and the
chain is the one that they hand on (`Strand.encrypt_eq_encryptPiece`,
`Strand.decrypt_eq_decryptPiece`).
-/

namespace SealedArchive.Chaining

variable {n : Nat} (cipher : BlockCipher)

/-! ## One block after the other -/

/-- One turn of some work: the block at a place is replaced, the chain goes on, and the rest
of the buffer stays as it is. -/
def Turns (work : Nat → Block → Work n Block) (turn : Block → Block → Block × Block) : Prop :=
  ∀ (buffer : Octets n) (front : Bytes) (here : Block) (later : Bytes) (chain : Block),
    buffer.toList = front ++ (here.toList ++ later) →
    ∃ after : Octets n,
      (work front.length chain).runOn buffer = (.ok (turn chain here).2, after) ∧
      after.toList = front ++ ((turn chain here).1.toList ++ later)

/-- What the turns make of some blocks, and the chain after the last of them. -/
def turnEach (turn : Block → Block → Block × Block) : Block → List Block → List Block × Block
  | chain, [] => ([], chain)
  | chain, here :: later =>
    let (made, next) := turn chain here
    let (others, last) := turnEach turn next later
    (made :: others, last)

/-- A block masked with the chain and enciphered, and the chain after it. -/
def encryptTurn (chain plain : Block) : Block × Block :=
  (cipher.encrypt (plain.xor chain), cipher.encrypt (plain.xor chain))

/-- A block deciphered without the chain, and the chain after it. -/
def decryptTurn (chain sealedBlock : Block) : Block × Block :=
  ((cipher.decrypt sealedBlock).xor chain, sealedBlock)

theorem range_block {buffer : Octets n} {front later : Bytes} {here : Block}
    (hbuffer : buffer.toList = front ++ (here.toList ++ later)) :
    buffer.range front.length (front.length + 16) = .ok here.toList :=
  Octets.range_of_parts hbuffer rfl (by simp)

theorem turns_encryptBlock :
    Turns (encryptBlock cipher : Nat → Block → Work n Block) (encryptTurn cipher) := by
  intro buffer front plain later chain hbuffer
  obtain ⟨masked, hmask, hmasked⟩ := Work.exists_mask chain hbuffer rfl
  obtain ⟨after, hmap, hafter⟩ := Work.exists_mapBlock cipher.encrypt hmasked rfl
  refine ⟨after, ?_, hafter⟩
  simp only [encryptBlock, Work.runOn_bind, hmask, hmap, Work.runOn_read, range_block hafter,
    Work.runOn_ofExcept, Octets.setRange_all, encryptTurn]

theorem turns_decryptBlock :
    Turns (decryptBlock cipher : Nat → Block → Work n Block) (decryptTurn cipher) := by
  intro buffer front sealedBlock later chain hbuffer
  obtain ⟨opened, hmap, hopened⟩ := Work.exists_mapBlock cipher.decrypt hbuffer rfl
  obtain ⟨after, hmask, hafter⟩ := Work.exists_mask chain hopened rfl
  refine ⟨after, ?_, hafter⟩
  simp only [decryptBlock, Work.runOn_bind, hmask, hmap, Work.runOn_read, range_block hbuffer,
    Work.runOn_ofExcept, Octets.setRange_all, decryptTurn]

/-! ## The blocks of a range -/

theorem turnEach_encryptTurn (chain : Block) (plains : List Block) :
    turnEach (encryptTurn cipher) chain plains =
      (encipher cipher chain plains,
        (encipher cipher chain plains).getLastD chain) := by
  induction plains generalizing chain with
  | nil => rfl
  | cons plain plains ih =>
    simp only [turnEach, encryptTurn, ih, encipher, List.getLastD_cons]

theorem turnEach_decryptTurn (chain : Block) (sealedBlocks : List Block) :
    turnEach (decryptTurn cipher) chain sealedBlocks =
      (decipher cipher chain sealedBlocks, sealedBlocks.getLastD chain) := by
  induction sealedBlocks generalizing chain with
  | nil => rfl
  | cons sealedBlock sealedBlocks ih =>
    simp only [turnEach, decryptTurn, ih, decipher, List.getLastD_cons]

variable {work : Nat → Block → Work n Block} {turn : Block → Block → Block × Block}

theorem exists_eachBlock (hwork : Turns work turn) (parts : List Block) (front later : Bytes)
    (chain : Block) (buffer : Octets n)
    (hbuffer : buffer.toList = front ++ (join parts ++ later)) :
    ∃ after : Octets n,
      (eachBlock work parts.length front.length chain).runOn buffer =
        (.ok (turnEach turn chain parts).2, after) ∧
      after.toList = front ++ (join (turnEach turn chain parts).1 ++ later) := by
  induction parts generalizing front chain buffer with
  | nil => exact ⟨buffer, rfl, hbuffer⟩
  | cons here parts ih =>
    rw [join_cons, List.append_assoc] at hbuffer
    obtain ⟨turned, hturn, hturned⟩ := hwork buffer front here (join parts ++ later) chain hbuffer
    -- the block just made joins the front of the later ones
    have hfront : (front ++ (turn chain here).1.toList).length = front.length + 16 := by
      rw [List.length_append, Octets.length_toList]
    obtain ⟨after, hlater, hafter⟩ :=
      ih (front ++ (turn chain here).1.toList) (turn chain here).2 turned
        (by rw [hturned, List.append_assoc])
    rw [hfront] at hlater
    refine ⟨after, ?_, ?_⟩
    · simp only [List.length_cons, eachBlock, Work.runOn_bind, hturn, hlater, turnEach]
    · rw [hafter]
      simp only [turnEach, join_cons, List.append_assoc]

/-- Between the ends of a range the turns are made, and the chain is the one after the last. -/
theorem exists_eachBlockOf (hwork : Turns work turn) {buffer : Octets n} {left right : Bytes}
    {first stop : Nat} (chain : Block) (parts : List Block)
    (hbuffer : buffer.toList = left ++ (join parts ++ right)) (hfirst : left.length = first)
    (hstop : first + (join parts).length = stop) :
    ∃ after : Octets n,
      (eachBlockOf work chain first stop).runOn buffer =
        (.ok (turnEach turn chain parts).2, after) ∧
      after.toList = left ++ (join (turnEach turn chain parts).1 ++ right) := by
  have hread := Octets.range_of_parts hbuffer hfirst hstop
  have hlength : (join parts).length = 16 * parts.length := length_join parts
  have haligned : (join parts).length % 16 = 0 := by omega
  have hcount : (join parts).length / 16 = parts.length := by omega
  obtain ⟨after, hdone, hafter⟩ := exists_eachBlock hwork parts left right chain buffer hbuffer
  rw [hfirst] at hdone
  refine ⟨after, ?_, hafter⟩
  simp only [eachBlockOf, Work.runOn_bind, Work.runOn_read, hread, if_pos haligned, hcount, hdone]

theorem runOn_eachBlockOf_of_unaligned (work : Nat → Block → Work n Block) {buffer : Octets n}
    {chain : Block} {first stop : Nat} {piece : Bytes} (hread : buffer.range first stop = .ok piece)
    (hunaligned : piece.length % 16 ≠ 0) :
    (eachBlockOf work chain first stop).runOn buffer =
      (.error (.unaligned piece.length), buffer) := by
  simp only [eachBlockOf, Work.runOn_bind, Work.runOn_read, hread, if_neg hunaligned]
  rfl

/-! ## A whole piece -/

namespace Strand

theorem toList_whole (text : Bytes) :
    (⟨text, rfl⟩ : Octets text.length).toList = [] ++ (text ++ []) := by
  rw [List.append_nil, List.nil_append]

theorem eachBlock_join {parts : List Block} {chain : Block}
    {work : Nat → Block → Work (join parts).length Block} {turn : Block → Block → Block × Block}
    (hwork : Turns work turn) :
    eachBlock ⟨join parts, chain⟩ work =
      (.ok (), ⟨join (turnEach turn chain parts).1, (turnEach turn chain parts).2⟩) := by
  have hfirst : ([] : Bytes).length = 0 := rfl
  obtain ⟨after, hdone, hafter⟩ :=
    exists_eachBlockOf hwork chain parts (toList_whole (join parts)) hfirst (Nat.zero_add _)
  rw [List.nil_append, List.append_nil] at hafter
  simp only [eachBlock, hdone, hafter]

theorem eachBlock_of_unaligned {piece : Bytes} (work : Nat → Block → Work piece.length Block)
    (chain : Block) (hunaligned : piece.length % 16 ≠ 0) :
    eachBlock ⟨piece, chain⟩ work = (.error (.unaligned piece.length), ⟨piece, chain⟩) := by
  have hfirst : ([] : Bytes).length = 0 := rfl
  have hread := Octets.range_of_parts (toList_whole piece) hfirst (Nat.zero_add _)
  simp only [eachBlock, runOn_eachBlockOf_of_unaligned work hread hunaligned]

theorem encrypt_join (plains : List Block) (chain : Block) :
    encrypt cipher ⟨join plains, chain⟩ =
      (.ok (), ⟨join (encipher cipher chain plains),
        (encipher cipher chain plains).getLastD chain⟩) := by
  rw [encrypt, eachBlock_join (turns_encryptBlock cipher), turnEach_encryptTurn]

theorem decrypt_join (sealedBlocks : List Block) (chain : Block) :
    decrypt cipher ⟨join sealedBlocks, chain⟩ =
      (.ok (), ⟨join (decipher cipher chain sealedBlocks), sealedBlocks.getLastD chain⟩) := by
  rw [decrypt, eachBlock_join (turns_decryptBlock cipher), turnEach_decryptTurn]

theorem encrypt_of_unaligned (chain : Block) {piece : Bytes}
    (hunaligned : piece.length % 16 ≠ 0) :
    encrypt cipher ⟨piece, chain⟩ = (.error (.unaligned piece.length), ⟨piece, chain⟩) :=
  eachBlock_of_unaligned _ chain hunaligned

theorem decrypt_of_unaligned (chain : Block) {piece : Bytes}
    (hunaligned : piece.length % 16 ≠ 0) :
    decrypt cipher ⟨piece, chain⟩ = (.error (.unaligned piece.length), ⟨piece, chain⟩) :=
  eachBlock_of_unaligned _ chain hunaligned

/-! ### The same as on the bytes of the piece -/

/-- The buffer of a piece after a call: what the call has given, or the piece as
it was if it was refused. -/
def ofPiece (piece : Bytes) : Except Error Bytes × Block → Except Error Unit × Strand
  | (.ok text, next) => (.ok (), ⟨text, next⟩)
  | (.error error, next) => (.error error, ⟨piece, next⟩)

theorem encrypt_eq_encryptPiece (piece : Bytes) (chain : Block) :
    encrypt cipher ⟨piece, chain⟩ = ofPiece piece (encryptPiece cipher chain piece) := by
  by_cases haligned : piece.length % 16 = 0
  · rw [← join_blocks_of_aligned haligned, encrypt_join, encryptPiece_join, ofPiece]
  · rw [encrypt_of_unaligned cipher chain haligned,
      encryptPiece_of_unaligned cipher chain haligned, ofPiece]

theorem decrypt_eq_decryptPiece (piece : Bytes) (chain : Block) :
    decrypt cipher ⟨piece, chain⟩ = ofPiece piece (decryptPiece cipher chain piece) := by
  by_cases haligned : piece.length % 16 = 0
  · rw [← join_blocks_of_aligned haligned, decrypt_join, decryptPiece_join, ofPiece]
  · rw [decrypt_of_unaligned cipher chain haligned,
      decryptPiece_of_unaligned cipher chain haligned, ofPiece]

end Strand

end SealedArchive.Chaining
