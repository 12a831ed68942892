import SealedArchive.Proofs.Chaining.InPlace
import SealedArchive.Proofs.Stealing.Layout

/-!
# Streams of pieces

A sender enciphers pieces one after the other in place and a receiver deciphers
what comes out, each with a chain of its own that one call hands on to the next.
`Link` is the state of the two between calls.

One piece adds its blocks to what a link has carried (`Link.send_join`), or is
refused and changes nothing (`Link.send_of_unaligned`).  So after every number of
pieces a link is the one that has carried the blocks of all pieces that were not
refused (`Link.after_eq`).  Its two chains are the same, and the pieces might as
well have been one (`Link.stays_in_step`).
-/

namespace SealedArchive.Chaining

/-! ## The two ends -/

/-- One end of a stream between two calls: its chain, and the text that its
calls have given so far. -/
structure Endpoint where
  chain : Block
  output : Bytes

namespace Endpoint

/-- One piece is worked on in place.  The chain is the one that the call leaves,
also where it refuses the piece. -/
def call (work : Strand → Except Error Unit × Strand) (endpoint : Endpoint) (piece : Bytes) :
    Endpoint :=
  match work ⟨piece, endpoint.chain⟩ with
  | (.ok (), strand) => ⟨strand.chain, endpoint.output ++ strand.text⟩
  | (.error _, strand) => ⟨strand.chain, endpoint.output⟩

/-- The end of a stream after some pieces. -/
def after (work : Strand → Except Error Unit × Strand) (start : Block) (pieces : List Bytes) :
    Endpoint :=
  pieces.foldl (call work) ⟨start, []⟩

end Endpoint

/-- A sender and a receiver. -/
structure Link where
  sender : Endpoint
  receiver : Endpoint

namespace Link

/-- One piece is enciphered, and what comes out is deciphered at the other end. -/
def send (cipher : BlockCipher) (link : Link) (piece : Bytes) : Link where
  sender := link.sender.call (Strand.encrypt cipher) piece
  receiver :=
    match Strand.encrypt cipher ⟨piece, link.sender.chain⟩ with
    | (.ok (), sent) => link.receiver.call (Strand.decrypt cipher) sent.text
    | (.error _, _) => link.receiver

/-- The link after some pieces, both chains going on from one block. -/
def after (cipher : BlockCipher) (start : Block) (pieces : List Bytes) : Link :=
  pieces.foldl (send cipher) ⟨⟨start, []⟩, ⟨start, []⟩⟩

end Link

/-- The pieces that are whole blocks. -/
def alignedPieces (pieces : List Bytes) : List Bytes :=
  pieces.filter fun piece => piece.length % 16 = 0

/-- The blocks of those pieces. -/
def alignedBlocks (pieces : List Bytes) : List Block :=
  (alignedPieces pieces).flatMap (blocks 16)

theorem alignedBlocks_nil : alignedBlocks [] = [] := rfl

theorem alignedPieces_cons_of_aligned {piece : Bytes} (pieces : List Bytes)
    (haligned : piece.length % 16 = 0) :
    alignedPieces (piece :: pieces) = piece :: alignedPieces pieces := by
  simp [alignedPieces, haligned]

theorem alignedPieces_cons_of_unaligned {piece : Bytes} (pieces : List Bytes)
    (hunaligned : piece.length % 16 ≠ 0) :
    alignedPieces (piece :: pieces) = alignedPieces pieces := by
  simp [alignedPieces, hunaligned]

theorem alignedBlocks_cons_of_aligned {piece : Bytes} (pieces : List Bytes)
    (haligned : piece.length % 16 = 0) :
    alignedBlocks (piece :: pieces) = blocks 16 piece ++ alignedBlocks pieces := by
  rw [alignedBlocks, alignedPieces_cons_of_aligned pieces haligned, List.flatMap_cons,
    alignedBlocks]

theorem alignedBlocks_cons_of_unaligned {piece : Bytes} (pieces : List Bytes)
    (hunaligned : piece.length % 16 ≠ 0) :
    alignedBlocks (piece :: pieces) = alignedBlocks pieces := by
  rw [alignedBlocks, alignedPieces_cons_of_unaligned pieces hunaligned, alignedBlocks]

theorem join_alignedBlocks (pieces : List Bytes) :
    join (alignedBlocks pieces) = (alignedPieces pieces).flatten := by
  induction pieces with
  | nil => rfl
  | cons piece pieces ih =>
    by_cases haligned : piece.length % 16 = 0
    · rw [alignedBlocks_cons_of_aligned pieces haligned, join_append,
        join_blocks_of_aligned haligned, ih, alignedPieces_cons_of_aligned pieces haligned,
        List.flatten_cons]
    · rw [alignedBlocks_cons_of_unaligned pieces haligned,
        alignedPieces_cons_of_unaligned pieces haligned, ih]

/-- If a piece of whole blocks adds its blocks to those that a state carries, and a
piece that is refused changes nothing, then some pieces in turn add the blocks of
all that were not refused. -/
theorem foldl_pieces {State : Type} {act : State → Bytes → State} {carrying : List Block → State}
    (hjoin : ∀ parts more, act (carrying parts) (join more) = carrying (parts ++ more))
    (hrefused : ∀ state (piece : Bytes), piece.length % 16 ≠ 0 → act state piece = state)
    (parts : List Block) (pieces : List Bytes) :
    pieces.foldl act (carrying parts) = carrying (parts ++ alignedBlocks pieces) := by
  induction pieces generalizing parts with
  | nil => rw [List.foldl_nil, alignedBlocks_nil, List.append_nil]
  | cons piece pieces ih =>
    rw [List.foldl_cons]
    by_cases haligned : piece.length % 16 = 0
    · have hpiece := hjoin parts (blocks 16 piece)
      rw [join_blocks_of_aligned haligned] at hpiece
      rw [hpiece, ih, alignedBlocks_cons_of_aligned pieces haligned, List.append_assoc]
    · rw [hrefused _ piece haligned, ih, alignedBlocks_cons_of_unaligned pieces haligned]

/-! ## One end -/

/-- What comes last of two lists one after the other. -/
theorem getLastD_append (start : Block) (left right : List Block) :
    (left ++ right).getLastD start = right.getLastD (left.getLastD start) := by
  induction left generalizing start with
  | nil => rfl
  | cons block left ih => rw [List.cons_append, List.getLastD_cons, List.getLastD_cons, ih]

namespace Endpoint

variable (cipher : BlockCipher) (start : Block)

/-- The end of a stream that has enciphered some blocks. -/
def enciphered (plains : List Block) : Endpoint :=
  ⟨(encipher cipher start plains).getLastD start, join (encipher cipher start plains)⟩

/-- The end of a stream that has deciphered some blocks. -/
def deciphered (sealedBlocks : List Block) : Endpoint :=
  ⟨sealedBlocks.getLastD start, join (decipher cipher start sealedBlocks)⟩

theorem call_encrypt_join (plains more : List Block) :
    (enciphered cipher start plains).call (Strand.encrypt cipher) (join more) =
      enciphered cipher start (plains ++ more) := by
  simp only [call, enciphered, Strand.encrypt_join, encipher_append, join_append, getLastD_append]

theorem call_decrypt_join (sealedBlocks more : List Block) :
    (deciphered cipher start sealedBlocks).call (Strand.decrypt cipher) (join more) =
      deciphered cipher start (sealedBlocks ++ more) := by
  simp only [call, deciphered, Strand.decrypt_join, decipher_append, join_append, getLastD_append]

theorem call_encrypt_of_unaligned (endpoint : Endpoint) {piece : Bytes}
    (hunaligned : piece.length % 16 ≠ 0) :
    endpoint.call (Strand.encrypt cipher) piece = endpoint := by
  rw [call, Strand.encrypt_of_unaligned cipher endpoint.chain hunaligned]

theorem call_decrypt_of_unaligned (endpoint : Endpoint) {piece : Bytes}
    (hunaligned : piece.length % 16 ≠ 0) :
    endpoint.call (Strand.decrypt cipher) piece = endpoint := by
  rw [call, Strand.decrypt_of_unaligned cipher endpoint.chain hunaligned]

/-- The pieces of a ciphertext that are whole blocks are deciphered as one text. -/
theorem after_decrypt (pieces : List Bytes) :
    after (Strand.decrypt cipher) start pieces = deciphered cipher start (alignedBlocks pieces) :=
  foldl_pieces (call_decrypt_join cipher start)
    (fun endpoint _ hunaligned => call_decrypt_of_unaligned cipher endpoint hunaligned) [] pieces

end Endpoint

/-! ## Both ends -/

namespace Link

variable (cipher : BlockCipher) (start : Block)

/-- The link that has carried some blocks. -/
def carrying (plains : List Block) : Link where
  sender := .enciphered cipher start plains
  receiver := .deciphered cipher start (encipher cipher start plains)

theorem send_join (plains more : List Block) :
    (carrying cipher start plains).send cipher (join more) =
      carrying cipher start (plains ++ more) := by
  have hsent := Endpoint.call_encrypt_join cipher start plains more
  have hreceived := Endpoint.call_decrypt_join cipher start (encipher cipher start plains)
    (encipher cipher ((encipher cipher start plains).getLastD start) more)
  rw [← encipher_append] at hreceived
  unfold send carrying
  simp only [hsent]
  simp only [Endpoint.enciphered, Strand.encrypt_join, hreceived]

theorem send_of_unaligned (link : Link) {piece : Bytes} (hunaligned : piece.length % 16 ≠ 0) :
    link.send cipher piece = link := by
  have hsender := Endpoint.call_encrypt_of_unaligned cipher link.sender hunaligned
  have hrefused := Strand.encrypt_of_unaligned cipher link.sender.chain hunaligned
  simp only [send, hsender, hrefused]

/-- A link has carried the blocks of the pieces that were not refused. -/
theorem after_eq (pieces : List Bytes) :
    after cipher start pieces = carrying cipher start (alignedBlocks pieces) :=
  foldl_pieces (send_join cipher start)
    (fun link _ hunaligned => send_of_unaligned cipher link hunaligned) [] pieces

/-! ## What the two ends agree on -/

/-- What holds between the two ends of a link after some pieces. -/
structure InStep (pieces : List Bytes) (link : Link) : Prop where
  /-- The two chains are the same, and go on from the last ciphertext block. -/
  chains : link.receiver.chain = link.sender.chain ∧
    link.sender.chain = (blocks 16 link.sender.output).getLastD start
  /-- Either end refuses a piece that is not whole blocks, and leaves it and the
  chain as they were. -/
  refused : ∀ piece : Bytes, piece.length % 16 ≠ 0 →
    Strand.encrypt cipher ⟨piece, link.sender.chain⟩ =
        (.error (.unaligned piece.length), ⟨piece, link.sender.chain⟩) ∧
      Strand.decrypt cipher ⟨piece, link.receiver.chain⟩ =
        (.error (.unaligned piece.length), ⟨piece, link.receiver.chain⟩) ∧
      link.send cipher piece = link
  /-- A piece of whole blocks is sent as many bytes and comes back as it was. -/
  recovered : ∀ piece : Bytes, piece.length % 16 = 0 →
    ∃ sent : Strand,
      Strand.encrypt cipher ⟨piece, link.sender.chain⟩ = (.ok (), sent) ∧
      sent.text.length = piece.length ∧
      Strand.decrypt cipher ⟨sent.text, link.receiver.chain⟩ = (.ok (), ⟨piece, sent.chain⟩) ∧
      link.send cipher piece =
        ⟨⟨sent.chain, link.sender.output ++ sent.text⟩,
          ⟨sent.chain, link.receiver.output ++ piece⟩⟩
  /-- The receiver has the pieces of whole blocks. -/
  received : link.receiver.output = (alignedPieces pieces).flatten
  /-- They might have been sent as one piece. -/
  joined : Strand.encrypt cipher ⟨(alignedPieces pieces).flatten, start⟩ =
    (.ok (), ⟨link.sender.output, link.sender.chain⟩)
  /-- They might have been enciphered as a buffer that needs no stealing. -/
  buffered : ∃ after : Octets (alignedPieces pieces).flatten.length,
    Stealing.encrypt cipher start.toList ⟨(alignedPieces pieces).flatten, rfl⟩ = .ok after ∧
      after.toList = link.sender.output

theorem recovered_of_carrying (plains : List Block) {piece : Bytes}
    (haligned : piece.length % 16 = 0) :
    ∃ sent : Strand,
      Strand.encrypt cipher ⟨piece, (carrying cipher start plains).sender.chain⟩ = (.ok (), sent) ∧
      sent.text.length = piece.length ∧
      Strand.decrypt cipher ⟨sent.text, (carrying cipher start plains).receiver.chain⟩ =
        (.ok (), ⟨piece, sent.chain⟩) ∧
      (carrying cipher start plains).send cipher piece =
        ⟨⟨sent.chain, (carrying cipher start plains).sender.output ++ sent.text⟩,
          ⟨sent.chain, (carrying cipher start plains).receiver.output ++ piece⟩⟩ := by
  have hpiece := join_blocks_of_aligned haligned
  generalize hmore : blocks 16 piece = more at hpiece
  subst hpiece
  generalize hchain : (carrying cipher start plains).sender.chain = chain
  have hsame : (carrying cipher start plains).receiver.chain = chain := hchain
  refine ⟨_, Strand.encrypt_join cipher more chain, ?_, ?_, ?_⟩
  · simp
  · rw [hsame, Strand.decrypt_join, decipher_encipher]
  · simp only [send, Endpoint.call, hchain, hsame, Strand.encrypt_join, Strand.decrypt_join,
      decipher_encipher]

theorem exists_encrypt_join (plains : List Block) {text : Bytes} (htext : text = join plains) :
    ∃ after : Octets text.length,
      Stealing.encrypt cipher start.toList ⟨text, rfl⟩ = .ok after ∧
        after.toList = join (encipher cipher start plains) := by
  have haligned : text.length % 16 = 0 := by
    rw [htext, Block.length_join]
    omega
  refine ⟨_, Stealing.encrypt_toList cipher start _, ?_⟩
  show Stealing.encipher cipher start text = join (encipher cipher start plains)
  rw [Stealing.encipher_eq_cbc cipher start haligned, htext, Stealing.cbc_join]

/-- After every number of pieces the two ends are in step, and what they have
done to the pieces they would have done to one text.  The same holds for a
receiver alone, into whatever pieces a ciphertext was cut. -/
theorem stays_in_step (pieces : List Bytes) :
    InStep cipher start pieces (after cipher start pieces) ∧
      Strand.decrypt cipher ⟨(alignedPieces pieces).flatten, start⟩ =
        (.ok (), ⟨(Endpoint.after (Strand.decrypt cipher) start pieces).output,
          (Endpoint.after (Strand.decrypt cipher) start pieces).chain⟩) := by
  have htext := join_alignedBlocks pieces
  rw [after_eq, Endpoint.after_decrypt]
  constructor
  · constructor
    case chains =>
      refine ⟨rfl, ?_⟩
      simp only [carrying, Endpoint.enciphered]
      rw [blocks_join (by decide)]
    case refused =>
      intro piece hunaligned
      exact ⟨Strand.encrypt_of_unaligned cipher _ hunaligned,
        Strand.decrypt_of_unaligned cipher _ hunaligned, send_of_unaligned cipher _ hunaligned⟩
    case recovered =>
      intro piece haligned
      exact recovered_of_carrying cipher start _ haligned
    case received =>
      rw [← htext]
      simp only [carrying, Endpoint.deciphered, decipher_encipher]
    case joined =>
      rw [← htext]
      exact Strand.encrypt_join cipher _ start
    case buffered => exact exists_encrypt_join cipher start _ htext.symm
  · rw [← htext]
    exact Strand.decrypt_join cipher _ start

end Link

end SealedArchive.Chaining
