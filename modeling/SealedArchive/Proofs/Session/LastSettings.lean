import SealedArchive.Proofs.Session.Build

/-!
# The last settings decide

Of some settings made in a row only the last passphrase, the last archive salt and the last
number of loops count, a stored work factor being a number of loops (`ofList_eq`).  They
come together in the joined passphrase: a build is a function of these bytes and the loops
(`build_ofList_congr`), so where the archive salt ends makes no difference.
-/

namespace SealedArchive

namespace Setting

/-- The passphrase that is set. -/
def passphrase? : Setting → Option Bytes
  | passphrase bytes => some bytes
  | archiveSalt _ | loops _ | workFactor _ => none

/-- The archive salt that is set. -/
def archiveSalt? : Setting → Option Bytes
  | archiveSalt bytes => some bytes
  | passphrase _ | loops _ | workFactor _ => none

/-- The number of loops that is set, in either form. -/
def loops? : Setting → Option UInt64
  | .loops count => some count
  | workFactor factor => some factor.loops
  | passphrase _ | archiveSalt _ => none

/-- What the last of some settings of one kind sets. -/
def last {α : Type} (part : Setting → Option α) (settings : List Setting) : Option α :=
  (settings.filterMap part).getLast?

variable {α : Type} (part : Setting → Option α)

@[simp] theorem last_nil : last part [] = none := rfl

theorem last_singleton (setting : Setting) : last part [setting] = part setting := by
  unfold last
  cases hpart : part setting <;> simp [hpart]

theorem last_append (settings others : List Setting) :
    last part (settings ++ others) = (last part others).or (last part settings) := by
  rw [last, List.filterMap_append, List.getLast?_append]
  rfl

theorem last_cons (setting : Setting) (settings : List Setting) :
    last part (setting :: settings) = (last part settings).or (part setting) := by
  rw [← List.singleton_append, last_append, last_singleton]

end Setting

namespace Settings

open Setting

/-! ## What is left of a run of settings -/

/-- The last archive salt, which is empty at first. -/
def lastArchiveSalt (settings : List Setting) : Bytes := (last archiveSalt? settings).getD []

/-- The last number of loops, which is that of the format at first. -/
def lastLoops (settings : List Setting) : UInt64 :=
  (last loops? settings).getD Format.defaultLoops

/-- One setting replaces what it sets and nothing else. -/
theorem apply_eq (s : Settings) (setting : Setting) :
    s.apply setting = ⟨setting.loops?.getD s.loops, setting.archiveSalt?.getD s.archiveSalt,
      (setting.passphrase?.map SecretBytes.mk).or s.passphrase⟩ := by
  cases setting <;> rfl

theorem foldl_apply_eq (settings : List Setting) (s : Settings) :
    settings.foldl apply s =
      ⟨(last loops? settings).getD s.loops, (last archiveSalt? settings).getD s.archiveSalt,
        ((last passphrase? settings).map SecretBytes.mk).or s.passphrase⟩ := by
  induction settings generalizing s with
  | nil => rfl
  | cons setting settings ih =>
    rw [List.foldl_cons, ih, apply_eq]
    simp only [last_cons, Option.getD_or, Option.map_or, Option.or_assoc]

theorem ofList_eq (settings : List Setting) :
    ofList settings = ⟨lastLoops settings, lastArchiveSalt settings,
      (last passphrase? settings).map SecretBytes.mk⟩ := by
  rw [ofList, foldl_apply_eq]
  simp only [fresh, Option.or_none, lastLoops, lastArchiveSalt]

/-! ## The joined passphrase -/

/-- The last passphrase with the last archive salt in front. -/
def joined (settings : List Setting) : Option SecretBytes :=
  (last passphrase? settings).map fun passphrase => ⟨lastArchiveSalt settings ++ passphrase⟩

theorem joined_of_passphrase {settings : List Setting} {passphrase : Bytes}
    (hpassphrase : last passphrase? settings = some passphrase) :
    joined settings = some ⟨lastArchiveSalt settings ++ passphrase⟩ := by
  rw [joined, hpassphrase, Option.map_some]

theorem length_joined (left right : Bytes) :
    (⟨left ++ right⟩ : SecretBytes).length = left.length + right.length :=
  List.length_append

theorem joined_eq (settings : List Setting) :
    joined settings =
      (ofList settings).passphrase.map (SecretBytes.salted (ofList settings).archiveSalt) := by
  have hsalted (passphrase : Bytes) :
      (⟨lastArchiveSalt settings ++ passphrase⟩ : SecretBytes) =
        SecretBytes.salted (lastArchiveSalt settings) ⟨passphrase⟩ := by
    simp [SecretBytes.salted, SecretBytes.concat]
  simp only [ofList_eq, joined, hsalted, Option.map_map, Function.comp_def]

theorem build_ofList (settings : List Setting) :
    (ofList settings).build =
      (match joined settings with
      | none => .fail .passphraseMissing
      | some passphrase =>
        if lastLoops settings = 0 then .fail .noLoops
        else do
          Traced.emit (.pinning passphrase.length)
          if Format.passphraseLimit < passphrase.length then
            .fail (.saltedPassphraseLength passphrase.length)
          else Session.ofSalted passphrase (lastLoops settings)) := by
  have hloops : (ofList settings).loops = lastLoops settings := by rw [ofList_eq]
  rw [joined_eq, build, hloops]
  cases (ofList settings).passphrase <;> rfl

theorem build_ofList_congr {settings others : List Setting}
    (hjoined : joined settings = joined others) (hloops : lastLoops settings = lastLoops others) :
    (ofList settings).build = (ofList others).build := by
  rw [build_ofList, build_ofList, hjoined, hloops]

/-! ## The checks on the joined passphrase -/

/-- The number of rounds that a passphrase is stretched with for some loops. -/
def roundCount (passphrase : SecretBytes) (loops : UInt64) : Nat :=
  64 * loops.toNat / (passphrase.length + Format.counterLength)

theorem stretchRounds_of_lt {passphrase : SecretBytes} {loops : UInt64}
    (hfits : roundCount passphrase loops < 2 ^ 64) :
    stretchRounds passphrase.length loops = .ok (roundCount passphrase loops) := by
  refine stretchRounds_eq_ok_iff.2 ⟨?_, hfits⟩
  rw [roundCount, Nat.mul_comm]

theorem stretchRounds_of_le {passphrase : SecretBytes} {loops : UInt64}
    (hmany : 2 ^ 64 ≤ roundCount passphrase loops) :
    stretchRounds passphrase.length loops = .error (.tooManyLoops loops.toNat) := by
  rw [roundCount, Nat.mul_comm] at hmany
  exact stretchRounds_eq_error_iff.2 ⟨hmany, rfl⟩

/-- The checks that a joined passphrase and its loops have to stand, in their order. -/
theorem build_of_joined {settings : List Setting} {passphrase : SecretBytes}
    (hjoined : joined settings = some passphrase) :
    let loops := lastLoops settings
    (loops = 0 → (ofList settings).build = .fail .noLoops) ∧
    (loops ≠ 0 → Format.passphraseLimit < passphrase.length →
      (ofList settings).build =
        ⟨.error (.saltedPassphraseLength passphrase.length), [.pinning passphrase.length]⟩) ∧
    (loops ≠ 0 → passphrase.length ≤ Format.passphraseLimit →
      2 ^ 64 ≤ roundCount passphrase loops →
      (ofList settings).build =
        ⟨.error (.tooManyLoops loops.toNat), [.pinning passphrase.length]⟩) ∧
    (loops ≠ 0 → passphrase.length ≤ Format.passphraseLimit →
      roundCount passphrase loops < 2 ^ 64 →
      ∃ session : Session, (ofList settings).build.result = .ok session ∧
        session.secrets.passphrase = passphrase ∧ session.loops = loops ∧
        (stretch passphrase loops).result = .ok session.secrets.globalHash) := by
  intro loops
  have hbuild := build_ofList settings
  simp only [hjoined] at hbuild
  refine ⟨?_, ?_, ?_, ?_⟩
  · intro hloops
    rw [hbuild, if_pos hloops]
  · intro hloops hlong
    rw [hbuild, if_neg hloops, if_pos hlong]
    rfl
  · intro hloops hlength hmany
    rw [hbuild, if_neg hloops, if_neg (Nat.not_lt.2 hlength),
      Session.ofSalted_of_refused (stretchRounds_of_le hmany)]
    rfl
  · intro hloops hlength hfits
    have hrounds := stretchRounds_of_lt hfits
    rw [hbuild, if_neg hloops, if_neg (Nat.not_lt.2 hlength), Session.ofSalted_of_rounds hrounds,
      stretch_of_rounds hrounds]
    exact ⟨_, rfl, rfl, rfl, rfl⟩

/-- All that a build has checked that succeeds. -/
theorem joined_of_build {settings : List Setting} {session : Session}
    (hbuild : (ofList settings).build.result = .ok session) :
    ∃ passphrase, joined settings = some passphrase ∧ lastLoops settings ≠ 0 ∧
      passphrase.length ≤ Format.passphraseLimit ∧
      roundCount passphrase (lastLoops settings) < 2 ^ 64 := by
  obtain ⟨passphrase, hpassphrase, hloops, hlength, hsession⟩ := ofSalted_of_build hbuild
  obtain ⟨rounds, hrounds, -⟩ := Session.eq_of_ofSalted hsession
  obtain ⟨rfl, hfits⟩ := stretchRounds_eq_ok_iff.1 hrounds
  rw [ofList_eq] at hloops hlength hfits
  refine ⟨_, by rw [joined_eq, hpassphrase, Option.map_some], hloops, ?_, ?_⟩
  · rw [ofList_eq]
    exact hlength
  · rw [ofList_eq, roundCount, Nat.mul_comm]
    exact hfits

/-- Every error of a build comes from the settings. -/
theorem kind_of_build (s : Settings) {error : Error} (hbuild : s.build.result = .error error) :
    error.kind = .settings := by
  have hbuilds := s.builds_build
  generalize s.build = built at hbuild hbuilds
  cases hbuilds with
  | passphraseMissing | noLoops | long =>
    obtain rfl := Except.error.inj hbuild
    rfl
  | tooManyLoops _ _ _ hrounds =>
    obtain rfl := Except.error.inj hbuild
    obtain ⟨-, rfl⟩ := stretchRounds_eq_error_iff.1 hrounds
    rfl
  | built => cases hbuild

/-- Of any run of settings only the last passphrase, the last archive salt and the last
number of loops count, and the salt and the passphrase only as they stand joined.  The first
check that fails is reported, and where none does the session holds the joined passphrase,
its stretched hash and the loops.  So bytes may move between the end of the salt and the
start of the passphrase, and a session from a passphrase and loops alone is the one of any
settings that end in these and leave the salt empty. -/
theorem build_of_last_settings :
    (∀ settings : List Setting, ofList settings = ⟨lastLoops settings, lastArchiveSalt settings,
      (last passphrase? settings).map SecretBytes.mk⟩) ∧
    (∀ settings : List Setting, joined settings = none →
      (ofList settings).build = .fail .passphraseMissing) ∧
    (∀ (settings : List Setting) (passphrase : SecretBytes), joined settings = some passphrase →
      let loops := lastLoops settings
      (loops = 0 → (ofList settings).build = .fail .noLoops) ∧
      (loops ≠ 0 → Format.passphraseLimit < passphrase.length →
        (ofList settings).build =
          ⟨.error (.saltedPassphraseLength passphrase.length), [.pinning passphrase.length]⟩) ∧
      (loops ≠ 0 → passphrase.length ≤ Format.passphraseLimit →
        2 ^ 64 ≤ roundCount passphrase loops →
        (ofList settings).build =
          ⟨.error (.tooManyLoops loops.toNat), [.pinning passphrase.length]⟩) ∧
      (loops ≠ 0 → passphrase.length ≤ Format.passphraseLimit →
        roundCount passphrase loops < 2 ^ 64 →
        ∃ session : Session, (ofList settings).build.result = .ok session ∧
          session.secrets.passphrase = passphrase ∧ session.loops = loops ∧
          (stretch passphrase loops).result = .ok session.secrets.globalHash)) ∧
    (∀ settings : List Setting, (∃ session, (ofList settings).build.result = .ok session) ↔
      ∃ passphrase, last passphrase? settings = some passphrase ∧
        1 ≤ (lastLoops settings).toNat ∧
        (lastArchiveSalt settings).length + passphrase.length ≤ Format.passphraseLimit ∧
        64 * (lastLoops settings).toNat /
          ((lastArchiveSalt settings).length + passphrase.length + 8) < 2 ^ 64) ∧
    (∀ (settings : List Setting) (error : Error),
      (ofList settings).build.result = .error error → error.kind = .settings) ∧
    (∀ settings others : List Setting, joined settings = joined others →
      lastLoops settings = lastLoops others →
      (ofList settings).build = (ofList others).build) ∧
    (∀ (settings : List Setting) (front moved back : Bytes),
      (ofList (settings ++ [.archiveSalt (front ++ moved), .passphrase back])).build =
        (ofList (settings ++ [.archiveSalt front, .passphrase (moved ++ back)])).build) ∧
    (∀ (settings : List Setting) (passphrase : Bytes) (loops : UInt64),
      last passphrase? settings = some passphrase → lastArchiveSalt settings = [] →
      lastLoops settings = loops →
      (ofList settings).build = Session.ofPassphrase passphrase loops) := by
  refine ⟨ofList_eq, ?_, fun settings passphrase => build_of_joined, ?_,
    fun settings error => kind_of_build _, fun settings others => build_ofList_congr, ?_, ?_⟩
  · intro settings hjoined
    rw [build_ofList, hjoined]
  · intro settings
    constructor
    · rintro ⟨session, hsession⟩
      obtain ⟨secret, hjoined, hloops, hlength, hfits⟩ := joined_of_build hsession
      obtain ⟨passphrase, hpassphrase, rfl⟩ := Option.map_eq_some_iff.1 hjoined
      rw [roundCount, length_joined] at hfits
      rw [length_joined] at hlength
      exact ⟨passphrase, hpassphrase, UInt64.pos_iff_ne_zero.2 hloops, hlength, hfits⟩
    · rintro ⟨passphrase, hpassphrase, hloops, hlength, hfits⟩
      have hjoined := joined_of_passphrase hpassphrase
      rw [← length_joined] at hlength hfits
      obtain ⟨session, hsession, -⟩ :=
        (build_of_joined hjoined).2.2.2 (UInt64.pos_iff_ne_zero.1 hloops) hlength hfits
      exact ⟨session, hsession⟩
  · intro settings front moved back
    apply build_ofList_congr
    · simp [joined, lastArchiveSalt, last_append, last_cons, passphrase?, archiveSalt?]
    · simp [lastLoops, last_append, last_cons, loops?]
  · intro settings passphrase loops hpassphrase hsalt hloops
    have hjoined := joined_of_passphrase hpassphrase
    rw [hsalt] at hjoined
    change (ofList settings).build = (ofList [.passphrase passphrase, .loops loops]).build
    exact build_ofList_congr hjoined hloops

/-- The settings before the last ones of their kinds leave no trace. -/
theorem build_of_last_settings_replaced :
    ∃ session : Session,
      (ofList [.loops 0, .passphrase [1], .archiveSalt [2], .passphrase [3],
        .loops 1]).build.result = .ok session ∧
      session.secrets.passphrase = ⟨[2, 3]⟩ ∧ session.loops = 1 := by
  obtain ⟨-, -, -, hbuilt⟩ := build_of_last_settings.2.2.1
    [.loops 0, .passphrase [1], .archiveSalt [2], .passphrase [3], .loops 1] ⟨[2, 3]⟩ rfl
  obtain ⟨session, hsession, hpassphrase, hloops, -⟩ :=
    hbuilt (by decide) (by decide) (by decide)
  exact ⟨session, hsession, hpassphrase, hloops⟩

end Settings

end SealedArchive
