import SealedArchive.Proofs.Session.Build

/-!
# How much of the passphrase a session has stretched

The number of rounds is rounded down, and a round is the longer the longer the
passphrase is.  So a build that succeeds has hashed a round exactly when the work factor
comes to the length of one round (`build_stretches_iff`).  Nine loops are enough for every
passphrase; below that a long passphrase is not hashed at all, and the hash
of the session is then that of nothing, whatever the passphrase
(`unstretched_passphrase`).
-/

namespace SealedArchive

variable {rounds length : Nat} {loops : UInt64}

/-- There is a round when all that the loops are to hash is as long as one. -/
theorem one_le_rounds_iff (hrounds : stretchRounds length loops = .ok rounds) :
    1 ≤ rounds ↔ length + 8 ≤ 64 * loops.toNat := by
  obtain ⟨rfl, -⟩ := stretchRounds_eq_ok_iff.1 hrounds
  rw [Nat.le_div_iff_mul_le (Nat.succ_pos _), Nat.one_mul, Nat.mul_comm loops.toNat]

/-- Each round has the whole passphrase in it. -/
theorem infix_stretchStream {passphrase : Bytes} (hrounds : 1 ≤ rounds) :
    passphrase <:+: stretchStream passphrase rounds := by
  rw [stretchStream_eq_spelled hrounds, spelledRounds]
  exact ⟨_, _, List.append_assoc _ _ _⟩

theorem stretchStream_ne_nil {passphrase : Bytes} (hrounds : 1 ≤ rounds) :
    stretchStream passphrase rounds ≠ [] := by
  apply List.ne_nil_of_length_pos
  rw [length_stretchStream]
  exact Nat.mul_pos hrounds (roundWidth_pos passphrase)

/-- A session whose work factor reaches the length of one round has hashed the whole
salted passphrase, and no other session has hashed any of it. -/
theorem build_stretches_iff (s : Settings) (passphrase : SecretBytes) (session : Session)
    (hpassphrase : s.passphrase = some passphrase) (hbuild : s.build.result = .ok session) :
    ∃ rounds, stretchRounds (s.archiveSalt ++ passphrase.bytes).length s.loops = .ok rounds ∧
      s.build.events =
        [.pinning (s.archiveSalt ++ passphrase.bytes).length,
          .stretching s.loops.toNat rounds, .pinning Format.digestLength] ∧
      session.secrets.globalHash.contents =
        Sha512.digest (stretchStream (s.archiveSalt ++ passphrase.bytes) rounds) ∧
      (1 ≤ rounds ↔ (s.archiveSalt ++ passphrase.bytes).length + 8 ≤ 64 * s.loops.toNat) ∧
      (1 ≤ rounds →
        stretchStream (s.archiveSalt ++ passphrase.bytes) rounds ≠ [] ∧
        s.archiveSalt ++ passphrase.bytes <:+:
          stretchStream (s.archiveSalt ++ passphrase.bytes) rounds) ∧
      (¬1 ≤ rounds → session.secrets.globalHash.contents = Sha512.digest []) ∧
      (9 ≤ s.loops → 1 ≤ rounds) := by
  have hbuilds := s.builds_build
  generalize s.build = built at hbuild hbuilds
  cases hbuilds with
  | passphraseMissing | noLoops | long | tooManyLoops => cases hbuild
  | @built held rounds hheld hloops hlength hrounds =>
    obtain rfl := Option.some.inj (hheld.symm.trans hpassphrase)
    obtain rfl := Except.ok.inj hbuild
    rw [SecretBytes.length, SecretBytes.bytes_salted] at hrounds hlength
    refine ⟨rounds, hrounds, ?_, ?_, one_le_rounds_iff hrounds, ?_, ?_, ?_⟩
    · rw [SecretBytes.length, SecretBytes.bytes_salted]
    · simp only [SecretBytes.bytes_salted]
    · intro hsome
      exact ⟨stretchStream_ne_nil hsome, infix_stretchStream hsome⟩
    · intro hnone
      obtain rfl : rounds = 0 := by omega
      rfl
    · intro hnine
      have hnine : 9 ≤ s.loops.toNat := UInt64.le_iff_toNat_le.1 hnine
      have hlimit : (s.archiveSalt ++ held.bytes).length ≤ 512 := hlength
      rw [one_le_rounds_iff hrounds]
      omega

/-- Fifty-six bytes with their salt are the longest that a single loop reaches. -/
theorem build_stretches_iff_single :
    ∃ session : Session,
      (⟨1, [7], some ⟨List.replicate 55 112⟩⟩ : Settings).build.result = .ok session ∧
      ∃ rounds, stretchRounds ([7] ++ List.replicate 55 112 : Bytes).length 1 = .ok rounds ∧
        (1 ≤ rounds ↔ ([7] ++ List.replicate 55 112 : Bytes).length + 8 ≤ 64) := by
  have hbuild : (⟨1, [7], some ⟨List.replicate 55 112⟩⟩ : Settings).build.result = .ok _ := rfl
  obtain ⟨rounds, hrounds, -, -, hone, -⟩ :=
    build_stretches_iff ⟨1, [7], some ⟨List.replicate 55 112⟩⟩ ⟨List.replicate 55 112⟩ _ rfl hbuild
  exact ⟨_, hbuild, rounds, hrounds, hone⟩

/-- A single loop does not reach a passphrase of fifty-seven bytes: its session is
built, and what it holds for the hash of the stretched passphrase is the hash of
nothing. -/
theorem unstretched_passphrase :
    ∃ session : Session,
      (Session.ofPassphrase (List.replicate 57 112) 1).result = .ok session ∧
      stretchRounds session.secrets.passphrase.length session.loops = .ok 0 ∧
      session.secrets.globalHash.contents = Sha512.digest [] := by
  have hrounds :
      stretchRounds (SecretBytes.salted [] ⟨List.replicate 57 112⟩).length 1 = .ok 0 := rfl
  have hbuild : Session.ofPassphrase (List.replicate 57 112) 1 = _ :=
    Settings.build_of_checked rfl (by decide) (by decide)
  rw [hbuild, Traced.emit_bind]
  exact ⟨_, congrArg Traced.result (Session.ofSalted_of_rounds hrounds), hrounds, rfl⟩

end SealedArchive
