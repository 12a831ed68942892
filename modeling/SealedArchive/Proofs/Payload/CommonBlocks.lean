import SealedArchive.Proofs.Payload.Transform

/-!
# What two ciphertexts under one salt tell of their texts

Buffers under one salt have one key and one starting block.  Each block of ciphertext that
stays in its place comes from the blocks of text up to it and from nothing behind them,
so whatever follows, it is the same (`take_encipher`).  The other way round the chain
can be undone, so as many leading blocks of ciphertext agree as leading blocks of text
do, and no more (`encrypt_reveals_common_blocks`).

With a tail the last whole block moves, so it is not among the blocks that are
compared.
-/

namespace SealedArchive

/-! ## Leading blocks -/

theorem join_inj {width : Nat} (hwidth : 0 < width) {one other : List (Octets width)} :
    join one = join other ↔ one = other := by
  constructor
  · intro hsame
    rw [← blocks_join hwidth one, hsame, blocks_join hwidth]
  · rintro rfl
    rfl

theorem take_join_append {width count : Nat} {parts : List (Octets width)} (behind : Bytes)
    (hcount : count ≤ parts.length) :
    (join parts ++ behind).take (width * count) = join (parts.take count) := by
  have hlength : (join (parts.take count)).length = width * count := by
    rw [length_join, List.length_take, Nat.min_eq_left hcount]
  rw [← List.take_append_drop count parts, join_append, List.append_assoc,
    List.take_left' hlength, List.take_append_drop]

namespace Chaining

variable (cipher : BlockCipher) (start : Block)

/-- What the chain gives first depends only on what it is given first. -/
theorem take_encipher (plains : List Block) (count : Nat) :
    (encipher cipher start plains).take count = encipher cipher start (plains.take count) := by
  induction plains generalizing start count with
  | nil => simp [encipher]
  | cons plain plains ih =>
    cases count with
    | zero => rfl
    | succ count => simp only [encipher, List.take_succ_cons, ih]

theorem encipher_inj {one other : List Block} :
    encipher cipher start one = encipher cipher start other ↔ one = other := by
  constructor
  · intro hsame
    rw [← decipher_encipher cipher start one, hsame, decipher_encipher]
  · rintro rfl
    rfl

end Chaining

namespace Stealing

variable (cipher : BlockCipher) (start : Block)

/-- The leading blocks of a buffer, as long as they stay in their place, are chained as
if nothing followed. -/
theorem take_encipher {buffer : Bytes} {count : Nat}
    (hcount : count ≤ stayingBlocks buffer.length) :
    ∃ parts : List Block, buffer.take (16 * count) = join parts ∧
      (encipher cipher start buffer).take (16 * count) =
        join (Chaining.encipher cipher start parts) := by
  unfold stayingBlocks at hcount
  cases cut buffer with
  | short _ hshort =>
    have hnone : count = 0 := by
      split at hcount <;> omega
    subst hnone
    exact ⟨[], rfl, rfl⟩
  | aligned parts hlong =>
    rw [Block.length_join, Nat.mul_mod_right, if_pos rfl,
      Nat.mul_div_cancel_left _ (by decide)] at hcount
    have hchained : count ≤ (Chaining.encipher cipher start parts).length := by
      rwa [Chaining.length_encipher]
    have hplain := take_join_append [] hcount
    have hsealed := take_join_append [] hchained
    rw [List.append_nil] at hplain hsealed
    refine ⟨parts.take count, hplain, ?_⟩
    rw [encipher_join cipher start hlong, hsealed, Chaining.take_encipher]
  | tailed front final tail hnonempty htail =>
    have hpositive := List.length_pos_iff.2 hnonempty
    rw [List.length_append, length_join_concat] at hcount
    have hfront : count ≤ front.length := by
      split at hcount <;> omega
    refine ⟨front.take count, ?_, ?_⟩
    · rw [join_append, List.append_assoc]
      exact take_join_append _ hfront
    · rw [encipher_tailed cipher start front final hnonempty htail, join_append,
        List.append_assoc, take_join_append _ (by rwa [Chaining.length_encipher]),
        Chaining.take_encipher]

theorem take_encipher_eq_iff {one other : Bytes} {count : Nat}
    (hone : count ≤ stayingBlocks one.length) (hother : count ≤ stayingBlocks other.length) :
    (encipher cipher start one).take (16 * count) =
        (encipher cipher start other).take (16 * count) ↔
      one.take (16 * count) = other.take (16 * count) := by
  obtain ⟨parts, hparts, hsealed⟩ := take_encipher cipher start hone
  obtain ⟨others, hothers, hsealedOthers⟩ := take_encipher cipher start hother
  rw [hparts, hothers, hsealed, hsealedOthers, join_inj (by decide), join_inj (by decide),
    Chaining.encipher_inj]

end Stealing

/-- Two buffers of any lengths, enciphered in place from one starting block, or as
payloads under one salt, agree in as many leading blocks that stay in their place as
their texts do. -/
theorem encrypt_reveals_common_blocks (one other : Bytes) :
    (∀ (cipher : BlockCipher) (start : Block),
      ∃ (hiddenOne : Octets one.length) (hiddenOther : Octets other.length),
        Stealing.encrypt cipher start.toList ⟨one, rfl⟩ = .ok hiddenOne ∧
        Stealing.encrypt cipher start.toList ⟨other, rfl⟩ = .ok hiddenOther ∧
        ∀ count ≤ min (Stealing.stayingBlocks one.length) (Stealing.stayingBlocks other.length),
          (hiddenOne.toList.take (16 * count) = hiddenOther.toList.take (16 * count) ↔
            one.take (16 * count) = other.take (16 * count))) ∧
    (∀ (secrets : Secrets) (salt : Salt),
      secrets.passphrase.length ≤ Format.passphraseLimit →
      ∃ hiddenOne hiddenOther : Bytes,
        (secrets.transform salt .encrypt one).result = .ok hiddenOne ∧
        (secrets.transform salt .encrypt other).result = .ok hiddenOther ∧
        ∀ count ≤ min (Stealing.stayingBlocks one.length) (Stealing.stayingBlocks other.length),
          (hiddenOne.take (16 * count) = hiddenOther.take (16 * count) ↔
            one.take (16 * count) = other.take (16 * count))) := by
  constructor
  · intro cipher start
    refine ⟨_, _, Stealing.encrypt_toList cipher start _, Stealing.encrypt_toList cipher start _,
      ?_⟩
    intro count hcount
    exact Stealing.take_encipher_eq_iff cipher start (Nat.le_trans hcount (Nat.min_le_left _ _))
      (Nat.le_trans hcount (Nat.min_le_right _ _))
  · intro secrets salt hlength
    obtain ⟨keys, hderive⟩ := Secrets.exists_derive salt hlength
    refine ⟨_, _, congrArg Traced.result (Secrets.transform_of_derive hderive .encrypt one),
      congrArg Traced.result (Secrets.transform_of_derive hderive .encrypt other), ?_⟩
    intro count hcount
    exact Stealing.take_encipher_eq_iff _ _ (Nat.le_trans hcount (Nat.min_le_left _ _))
      (Nat.le_trans hcount (Nat.min_le_right _ _))

/-- Three whole blocks, and two with a tail that begin with the same block: under one salt
the first blocks of their ciphertexts agree. -/
theorem encrypt_reveals_common_blocks_first :
    0 ≤ Format.passphraseLimit ∧
    1 ≤ min (Stealing.stayingBlocks 48) (Stealing.stayingBlocks 33) ∧
    ∃ hiddenOne hiddenOther : Bytes,
      ((⟨SecretBuffer.zeroed 64, ⟨[]⟩⟩ : Secrets).transform (Octets.zero 16) .encrypt
        (List.replicate 48 0)).result = .ok hiddenOne ∧
      ((⟨SecretBuffer.zeroed 64, ⟨[]⟩⟩ : Secrets).transform (Octets.zero 16) .encrypt
        (List.replicate 16 0 ++ List.replicate 17 1)).result = .ok hiddenOther ∧
      hiddenOne.take (16 * 1) = hiddenOther.take (16 * 1) := by
  obtain ⟨hiddenOne, hiddenOther, hone, hother, hcommon⟩ :=
    (encrypt_reveals_common_blocks (List.replicate 48 0)
      (List.replicate 16 0 ++ List.replicate 17 1)).2 ⟨SecretBuffer.zeroed 64, ⟨[]⟩⟩
      (Octets.zero 16) (by decide)
  exact ⟨by decide, by decide, hiddenOne, hiddenOther, hone, hother,
    (hcommon 1 (by decide)).2 (by decide)⟩

end SealedArchive
