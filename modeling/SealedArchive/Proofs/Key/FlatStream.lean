import SealedArchive.Proofs.Key.Rounds

/-!
# The rounds as one hash of a flat message

Each round feeds two pieces to the hash, a counter of eight bytes and a passphrase of any
length, so a block of the hash ends anywhere in a piece, or spans many of them.  After any
number of pieces the state is that of the bytes fed so far (`hasRead_pieces`): the whole
blocks among them are compressed, and those after the last whole block are kept.

`IsFlatStream` tells the message by what stands at each position, without any round being
run.  There is one such message (`IsFlatStream.unique`), and the hash of a stretched
passphrase is its digest (`stretch_hashes_flat_stream`).
-/

namespace SealedArchive

/-! ## The message by its positions -/

/-- The message of some rounds, told byte by byte. -/
structure IsFlatStream (passphrase : Bytes) (rounds : Nat) (stream : Bytes) : Prop where
  length_eq : stream.length = rounds * (passphrase.length + 8)
  /-- A round starts with its number as a word, the lowest byte first. -/
  counter : ∀ round < rounds, ∀ index < 8,
    stream[round * (passphrase.length + 8) + index]? =
      some (UInt64.ofNat round >>> UInt64.ofNat (8 * index)).toUInt8
  /-- The rest of the round is the passphrase. -/
  text : ∀ round < rounds, ∀ index, 8 ≤ index → index < passphrase.length + 8 →
    stream[round * (passphrase.length + 8) + index]? = passphrase[index - 8]?

/-- A byte of a word is what is left of the number after as many divisions by 256. -/
theorem LittleEndian.toUInt8_shiftRight {index : Nat} (number : Nat) (hindex : index < 8) :
    (UInt64.ofNat number >>> UInt64.ofNat (8 * index)).toUInt8 =
      UInt8.ofNat (number / 256 ^ index) := by
  have hword : 2 ^ 64 = 256 ^ index * 256 ^ (8 - index) := by
    rw [← Nat.pow_add, Nat.add_sub_cancel' (Nat.le_of_lt hindex)]
    rfl
  have hbyte : 256 ∣ 256 ^ (8 - index) := Nat.pow_dvd_pow 256 (by omega : 1 ≤ 8 - index)
  have hshift : 8 * index % 2 ^ 64 % 64 = 8 * index := by omega
  have hpow : 2 ^ (8 * index) = 256 ^ index := Nat.pow_mul 2 8 index
  apply UInt8.toNat_inj.1
  rw [UInt64.toNat_toUInt8, UInt64.toNat_shiftRight, UInt64.toNat_ofNat', UInt64.toNat_ofNat',
    UInt8.toNat_ofNat', hshift, Nat.shiftRight_eq_div_pow, hpow, hword,
    Nat.mod_mul_right_div_self, Nat.mod_mod_of_dvd _ hbyte]

variable {passphrase : Bytes} {rounds : Nat}

theorem isFlatStream_stretchStream (passphrase : Bytes) (rounds : Nat) :
    IsFlatStream passphrase rounds (stretchStream passphrase rounds) where
  length_eq := length_stretchStream passphrase rounds
  counter := by
    intro round hround index hindex
    have hwidth : index < roundWidth passphrase :=
      Nat.lt_of_lt_of_le hindex (counterLength_le_roundWidth passphrase)
    rw [LittleEndian.toUInt8_shiftRight round hindex]
    exact (getElem?_stretchStream hround hwidth).trans (getElem?_round_counter round hindex)
  text := by
    intro round hround index hcounter hindex
    exact (getElem?_stretchStream hround hindex).trans (getElem?_round_passphrase round hcounter)

theorem IsFlatStream.unique {one other : Bytes} (hone : IsFlatStream passphrase rounds one)
    (hother : IsFlatStream passphrase rounds other) : one = other := by
  apply List.ext_getElem?
  intro position
  -- a position inside lies in the round that it is divided into by the width
  rcases Nat.lt_or_ge position (rounds * (passphrase.length + 8)) with hinside | houtside
  · have hround : position / (passphrase.length + 8) < rounds :=
      (Nat.div_lt_iff_lt_mul (Nat.succ_pos _)).2 hinside
    have hindex := Nat.mod_lt position (Nat.succ_pos (passphrase.length + 7))
    rw [← Nat.div_add_mod' position (passphrase.length + 8)]
    rcases Nat.lt_or_ge (position % (passphrase.length + 8)) 8 with hcounter | htext
    · rw [hone.counter _ hround _ hcounter, hother.counter _ hround _ hcounter]
    · rw [hone.text _ hround _ htext hindex, hother.text _ hround _ htext hindex]
  · rw [List.getElem?_eq_none (by rw [hone.length_eq]; exact houtside),
      List.getElem?_eq_none (by rw [hother.length_eq]; exact houtside)]

/-! ## The pieces that are fed to the hash -/

namespace Sha512.Hasher

theorem HasRead.foldl_absorb {h : Hasher} {message : Bytes} (hread : h.HasRead message)
    (pieces : List Bytes) :
    (pieces.foldl Hasher.absorb h).HasRead (message ++ pieces.flatten) := by
  induction pieces generalizing h message with
  | nil => rwa [List.flatten_nil, List.append_nil]
  | cons piece pieces ih =>
    rw [List.foldl_cons, List.flatten_cons, ← List.append_assoc]
    exact ih (hread.absorb piece)

/-- Pieces of any lengths leave the state of all their bytes. -/
theorem hasRead_pieces (pieces : List Bytes) :
    (pieces.foldl absorb start).HasRead pieces.flatten :=
  hasRead_start.foldl_absorb pieces

end Sha512.Hasher

/-- What is fed to the hash in some rounds, piece by piece. -/
def stretchPieces (passphrase : Bytes) (rounds : Nat) : List Bytes :=
  (List.range rounds).flatMap fun round => [LittleEndian.digits 8 round, passphrase]

theorem stretchPieces_succ (passphrase : Bytes) (rounds : Nat) :
    stretchPieces passphrase (rounds + 1) =
      stretchPieces passphrase rounds ++ [LittleEndian.digits 8 rounds, passphrase] := by
  simp only [stretchPieces, List.range_succ, List.flatMap_append, List.flatMap_singleton]

theorem length_stretchPieces (passphrase : Bytes) (rounds : Nat) :
    (stretchPieces passphrase rounds).length = 2 * rounds := by
  induction rounds with
  | zero => rfl
  | succ rounds ih =>
    rw [stretchPieces_succ, List.length_append, ih]
    rfl

theorem flatten_stretchPieces (passphrase : Bytes) (rounds : Nat) :
    (stretchPieces passphrase rounds).flatten = stretchStream passphrase rounds := by
  induction rounds with
  | zero => rfl
  | succ rounds ih =>
    rw [stretchPieces_succ, List.flatten_append, ih, stretchStream_succ]
    simp only [List.flatten_cons, List.flatten_nil, List.append_nil]

/-- The rounds feed their pieces one after the other into a single state. -/
theorem hashRounds_eq_foldl (passphrase : Bytes) (rounds : Nat) :
    hashRounds passphrase rounds =
      (stretchPieces passphrase rounds).foldl Sha512.Hasher.absorb Sha512.Hasher.start := by
  induction rounds with
  | zero => rfl
  | succ rounds ih =>
    rw [stretchPieces_succ, List.foldl_append, ← ih, hashRounds, Nat.fold_succ]
    rfl

/-- Some of the pieces make up a front of the message. -/
theorem flatten_take_stretchPieces (passphrase : Bytes) (rounds fed : Nat) :
    ((stretchPieces passphrase rounds).take fed).flatten <+: stretchStream passphrase rounds := by
  refine ⟨((stretchPieces passphrase rounds).drop fed).flatten, ?_⟩
  rw [← List.flatten_append, List.take_append_drop, flatten_stretchPieces]

/-- A stretched passphrase has the digest of the flat message of its rounds, and is refused
where their number is.  The message goes into one running state in two pieces for each
round; whatever number of them is fed, the state is the one after that front of the message,
and after the last of them it is the one that the message leaves as a whole. -/
theorem stretch_hashes_flat_stream (passphrase : SecretBytes) (loops : UInt64) :
    (∀ error, stretchRounds passphrase.length loops = .error error →
      error.kind = .settings ∧ stretch passphrase loops = .fail error) ∧
    (∀ rounds, stretchRounds passphrase.length loops = .ok rounds →
      ∃ stream, IsFlatStream passphrase.bytes rounds stream ∧
        (∀ other, IsFlatStream passphrase.bytes rounds other → other = stream) ∧
        stretch passphrase loops =
          ⟨.ok ⟨Sha512.digest stream⟩,
            [.stretching loops.toNat rounds, .pinning Format.digestLength]⟩ ∧
        hashRounds passphrase.bytes rounds =
          (stretchPieces passphrase.bytes rounds).foldl Sha512.Hasher.absorb
            Sha512.Hasher.start ∧
        (stretchPieces passphrase.bytes rounds).length = 2 * rounds ∧
        (∀ fed, ∃ front, front <+: stream ∧
          front = ((stretchPieces passphrase.bytes rounds).take fed).flatten ∧
          (((stretchPieces passphrase.bytes rounds).take fed).foldl Sha512.Hasher.absorb
            Sha512.Hasher.start).HasRead front) ∧
        (hashRounds passphrase.bytes rounds).finish = Sha512.digest stream ∧
        (Sha512.Hasher.start.absorb stream).finish = Sha512.digest stream) := by
  constructor
  · intro error hrefused
    obtain ⟨-, rfl⟩ := stretchRounds_eq_error_iff.1 hrefused
    exact ⟨rfl, stretch_of_refused hrefused⟩
  · intro rounds hrounds
    have hflat := isFlatStream_stretchStream passphrase.bytes rounds
    refine ⟨_, hflat, fun other hother => hother.unique hflat, stretch_of_rounds hrounds,
      hashRounds_eq_foldl _ _, length_stretchPieces _ _, ?_, finish_hashRounds _ _,
      Sha512.Hasher.finish_absorb _⟩
    intro fed
    exact ⟨_, flatten_take_stretchPieces _ _ fed, rfl, Sha512.Hasher.hasRead_pieces _⟩

/-- One loop hashes a passphrase of ten bytes three times, and the largest number of loops is
too much for an empty passphrase. -/
theorem stretch_hashes_flat_stream_single :
    (stretchRounds 10 1 = .ok 3 ∧ ∃ stream, IsFlatStream (List.replicate 10 7) 3 stream ∧
      stretch ⟨List.replicate 10 7⟩ 1 =
        ⟨.ok ⟨Sha512.digest stream⟩, [.stretching 1 3, .pinning Format.digestLength]⟩) ∧
    (stretchRounds 0 18446744073709551615 = .error (.tooManyLoops 18446744073709551615) ∧
      stretch ⟨[]⟩ 18446744073709551615 = .fail (.tooManyLoops 18446744073709551615)) := by
  have hrounds : stretchRounds 10 1 = .ok 3 := rfl
  have hrefused : stretchRounds 0 18446744073709551615 =
      .error (.tooManyLoops 18446744073709551615) := rfl
  obtain ⟨stream, hflat, -, hstretch, -⟩ :=
    (stretch_hashes_flat_stream ⟨List.replicate 10 7⟩ 1).2 3 hrounds
  exact ⟨⟨hrounds, stream, hflat, hstretch⟩, hrefused,
    ((stretch_hashes_flat_stream ⟨[]⟩ 18446744073709551615).1 _ hrefused).2⟩

end SealedArchive
