import SealedArchive.Proofs.Key.Rounds
import SealedArchive.Session

/-!
# What a built session holds

`Settings.Builds` lists what can come of a build, each fault with the checks that went
well before it, and `builds_build` says that there is nothing else.

A session that was built holds the passphrase with the salt of the archive in
front, which keeps to the limit of key derivation.  Where the salt ends and the
passphrase begins is not part of it, so two settings that agree on the joined
bytes and on the loops build the same session (`build_congr`).

`Session.Built` says that a session came out of a build, of either kind.  All that
is known of such a session are its invariants: `Built.length_le` on the
passphrase, and `Built.contents_globalHash` on the hash that was stretched from it.
-/

namespace SealedArchive

namespace Session

variable {passphrase : SecretBytes} {loops : UInt64}

theorem ofSalted_of_refused {error : Error}
    (hrounds : stretchRounds passphrase.length loops = .error error) :
    ofSalted passphrase loops = .fail error := by
  have hstretch := stretch_of_refused hrounds
  rw [ofSalted, Traced.bind_of_error _ (congrArg Traced.result hstretch), hstretch]
  rfl

theorem ofSalted_of_rounds {rounds : Nat}
    (hrounds : stretchRounds passphrase.length loops = .ok rounds) :
    ofSalted passphrase loops =
      ⟨.ok ⟨⟨⟨Sha512.digest (stretchStream passphrase.bytes rounds)⟩, passphrase⟩, loops⟩,
        [.stretching loops.toNat rounds, .pinning Format.digestLength]⟩ := by
  have hstretch := stretch_of_rounds hrounds
  rw [ofSalted, Traced.bind_of_ok _ (congrArg Traced.result hstretch), hstretch]
  rfl

theorem eq_of_ofSalted {session : Session}
    (hsession : (ofSalted passphrase loops).result = .ok session) :
    ∃ rounds, stretchRounds passphrase.length loops = .ok rounds ∧
      session =
        ⟨⟨⟨Sha512.digest (stretchStream passphrase.bytes rounds)⟩, passphrase⟩, loops⟩ := by
  cases hrounds : stretchRounds passphrase.length loops with
  | error error =>
    rw [ofSalted_of_refused hrounds] at hsession
    cases hsession
  | ok rounds =>
    rw [ofSalted_of_rounds hrounds] at hsession
    exact ⟨rounds, rfl, (Except.ok.inj hsession).symm⟩

end Session

namespace Settings

/-! ## The checks of a build, in their order -/

section

variable {s : Settings} {passphrase : SecretBytes}

theorem build_of_none (hpassphrase : s.passphrase = none) : s.build = .fail .passphraseMissing := by
  unfold build
  rw [hpassphrase]

theorem build_of_no_loops (hpassphrase : s.passphrase = some passphrase) (hloops : s.loops = 0) :
    s.build = .fail .noLoops := by
  unfold build
  rw [hpassphrase]
  exact if_pos hloops

theorem build_of_long (hpassphrase : s.passphrase = some passphrase) (hloops : s.loops ≠ 0)
    (hlong : Format.passphraseLimit < (SecretBytes.salted s.archiveSalt passphrase).length) :
    s.build =
      ⟨.error (.saltedPassphraseLength (SecretBytes.salted s.archiveSalt passphrase).length),
        [.pinning (SecretBytes.salted s.archiveSalt passphrase).length]⟩ := by
  simp only [build, hpassphrase, if_neg hloops, if_pos hlong]
  rfl

theorem build_of_checked (hpassphrase : s.passphrase = some passphrase) (hloops : s.loops ≠ 0)
    (hlength : (SecretBytes.salted s.archiveSalt passphrase).length ≤ Format.passphraseLimit) :
    s.build = (do
      Traced.emit (.pinning (SecretBytes.salted s.archiveSalt passphrase).length)
      Session.ofSalted (SecretBytes.salted s.archiveSalt passphrase) s.loops) := by
  simp only [build, hpassphrase, if_neg hloops, if_neg (Nat.not_lt.2 hlength)]

end

/-- What comes of a build, by the first check that fails. -/
inductive Builds (s : Settings) : Traced Session → Prop
  | passphraseMissing (hpassphrase : s.passphrase = none) : Builds s (.fail .passphraseMissing)
  | noLoops {passphrase : SecretBytes} (hpassphrase : s.passphrase = some passphrase)
      (hloops : s.loops = 0) : Builds s (.fail .noLoops)
  | long {passphrase : SecretBytes} (hpassphrase : s.passphrase = some passphrase)
      (hloops : s.loops ≠ 0)
      (hlong : Format.passphraseLimit < (SecretBytes.salted s.archiveSalt passphrase).length) :
      Builds s
        ⟨.error (.saltedPassphraseLength (SecretBytes.salted s.archiveSalt passphrase).length),
          [.pinning (SecretBytes.salted s.archiveSalt passphrase).length]⟩
  | tooManyLoops {passphrase : SecretBytes} {error : Error}
      (hpassphrase : s.passphrase = some passphrase) (hloops : s.loops ≠ 0)
      (hlength :
        (SecretBytes.salted s.archiveSalt passphrase).length ≤ Format.passphraseLimit)
      (hrounds :
        stretchRounds (SecretBytes.salted s.archiveSalt passphrase).length s.loops =
          .error error) :
      Builds s ⟨.error error, [.pinning (SecretBytes.salted s.archiveSalt passphrase).length]⟩
  | built {passphrase : SecretBytes} {rounds : Nat}
      (hpassphrase : s.passphrase = some passphrase) (hloops : s.loops ≠ 0)
      (hlength :
        (SecretBytes.salted s.archiveSalt passphrase).length ≤ Format.passphraseLimit)
      (hrounds :
        stretchRounds (SecretBytes.salted s.archiveSalt passphrase).length s.loops =
          .ok rounds) :
      Builds s
        ⟨.ok ⟨⟨⟨Sha512.digest
            (stretchStream (SecretBytes.salted s.archiveSalt passphrase).bytes rounds)⟩,
            SecretBytes.salted s.archiveSalt passphrase⟩, s.loops⟩,
          [.pinning (SecretBytes.salted s.archiveSalt passphrase).length,
            .stretching s.loops.toNat rounds, .pinning Format.digestLength]⟩

theorem builds_build (s : Settings) : s.Builds s.build := by
  cases hpassphrase : s.passphrase with
  | none =>
    rw [build_of_none hpassphrase]
    exact .passphraseMissing hpassphrase
  | some passphrase =>
    by_cases hloops : s.loops = 0
    · rw [build_of_no_loops hpassphrase hloops]
      exact .noLoops hpassphrase hloops
    by_cases hlong : Format.passphraseLimit < (SecretBytes.salted s.archiveSalt passphrase).length
    · rw [build_of_long hpassphrase hloops hlong]
      exact .long hpassphrase hloops hlong
    have hlength := Nat.le_of_not_lt hlong
    rw [build_of_checked hpassphrase hloops hlength]
    cases hrounds :
      stretchRounds (SecretBytes.salted s.archiveSalt passphrase).length s.loops with
    | error error =>
      rw [Session.ofSalted_of_refused hrounds]
      exact .tooManyLoops hpassphrase hloops hlength hrounds
    | ok rounds =>
      rw [Session.ofSalted_of_rounds hrounds]
      exact .built hpassphrase hloops hlength hrounds

/-- All that a build that succeeds has checked. -/
theorem ofSalted_of_build {s : Settings} {session : Session}
    (hbuild : s.build.result = .ok session) :
    ∃ passphrase, s.passphrase = some passphrase ∧ s.loops ≠ 0 ∧
      (SecretBytes.salted s.archiveSalt passphrase).length ≤ Format.passphraseLimit ∧
      (Session.ofSalted (SecretBytes.salted s.archiveSalt passphrase) s.loops).result =
        .ok session := by
  have hbuilds := s.builds_build
  generalize s.build = built at hbuild hbuilds
  cases hbuilds with
  | passphraseMissing | noLoops | long | tooManyLoops => cases hbuild
  | built hpassphrase hloops hlength hrounds =>
    refine ⟨_, hpassphrase, hloops, hlength, ?_⟩
    rw [Session.ofSalted_of_rounds hrounds]
    exact hbuild

theorem length_of_build {s : Settings} {session : Session}
    (hbuild : s.build.result = .ok session) :
    session.secrets.passphrase.length ≤ Format.passphraseLimit := by
  obtain ⟨passphrase, -, -, hlength, hsession⟩ := ofSalted_of_build hbuild
  obtain ⟨rounds, -, rfl⟩ := Session.eq_of_ofSalted hsession
  exact hlength

theorem build_congr {s t : Settings} {passphrase other : SecretBytes}
    (hs : s.passphrase = some passphrase) (ht : t.passphrase = some other)
    (hjoined : s.archiveSalt ++ passphrase.bytes = t.archiveSalt ++ other.bytes)
    (hloops : s.loops = t.loops) :
    s.build = t.build := by
  have hsalted : SecretBytes.salted s.archiveSalt passphrase =
      SecretBytes.salted t.archiveSalt other := by
    simp only [SecretBytes.salted, SecretBytes.concat, List.flatten_cons, List.flatten_nil,
      List.append_nil, hjoined]
  simp only [build, hs, ht, hsalted, hloops]

end Settings

namespace Session

/-- The session came out of a build. -/
inductive Built : Session → Prop
  /-- By any run of settings. -/
  | ofSettings {s : Session} (settings : List Setting)
      (hbuild : (Settings.ofList settings).build.result = .ok s) : Built s
  /-- From a passphrase and a number of loops alone. -/
  | ofPassphrase {s : Session} (passphrase : Bytes) (loops : UInt64)
      (hbuild : (Session.ofPassphrase passphrase loops).result = .ok s) : Built s

namespace Built

variable {s : Session}

theorem exists_settings (hbuilt : s.Built) :
    ∃ settings : Settings, settings.build.result = .ok s := by
  cases hbuilt with
  | ofSettings settings hbuild => exact ⟨_, hbuild⟩
  | ofPassphrase passphrase loops hbuild => exact ⟨_, hbuild⟩

theorem length_le (hbuilt : s.Built) :
    s.secrets.passphrase.length ≤ Format.passphraseLimit := by
  obtain ⟨settings, hbuild⟩ := hbuilt.exists_settings
  exact Settings.length_of_build hbuild

theorem contents_globalHash (hbuilt : s.Built) {rounds : Nat}
    (hrounds : stretchRounds s.secrets.passphrase.length s.loops = .ok rounds) :
    s.secrets.globalHash.contents =
      Sha512.digest (stretchStream s.secrets.passphrase.bytes rounds) := by
  obtain ⟨settings, hbuild⟩ := hbuilt.exists_settings
  obtain ⟨passphrase, -, -, -, hsession⟩ := Settings.ofSalted_of_build hbuild
  obtain ⟨count, hcount, rfl⟩ := eq_of_ofSalted hsession
  rw [hcount] at hrounds
  rw [Except.ok.inj hrounds]

end Built

end Session

end SealedArchive
