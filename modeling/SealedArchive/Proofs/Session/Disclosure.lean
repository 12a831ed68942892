import Mathlib.Data.List.Forall2
import SealedArchive.Proofs.Session.Journal

/-!
# What is disclosed of a run

A bystander of a run reads its log, the errors that it ends in, and the texts for
inspection of the settings, of the session and of the keys that are derived.  This is
the `Disclosure` of the run, text by text and piece of work by piece of work, on a system that
locks memory or refuses to.

Two runs are alike if their secrets have the same lengths (`Setting.Alike`,
`Operation.Alike`).  Then the same memory is asked for in both, their settings are alike after
each setting, both sessions are built or neither is, and each operation is answered with the
same report, so the same is disclosed of both (`disclosure_eq_of_alike`): nothing that a
bystander reads depends on the bytes of a passphrase, a buffer, a header, a record or the salt
of a block.
-/

namespace SealedArchive

/-! ## Reports -/

/-- The two texts of a value, on one line and with one entry a line. -/
def Shown.texts (shown : Shown) : String × String := (shown.compact, shown.pretty)

/-- What is disclosed of some work beside its log. -/
structure Report where
  /-- The kind and the message of the error that it ends in. -/
  error : Option (ErrorKind × String)
  /-- The texts of what comes of it. -/
  texts : List (String × String)

/-- The report of an error. -/
def Error.report (error : Error) : ErrorKind × String := (error.kind, error.message)

/-- The report of some work, given the texts of its result. -/
def Traced.report {α : Type} (texts : α → List (String × String)) (work : Traced α) : Report where
  error := match work.result with
    | .ok _ => none
    | .error error => some error.report
  texts := match work.result with
    | .ok value => texts value
    | .error _ => []

/-- The texts of a session, of its passphrase and of its hash. -/
def Session.texts (s : Session) : List (String × String) :=
  [s.shown.texts, s.secrets.passphrase.shown.texts, s.secrets.globalHash.shown.texts]

/-- The texts of what comes of an operation: those of the keys that were derived. -/
def Outcome.texts : Outcome → List (String × String)
  | .keys derived => [derived.shown.texts]
  | .buffer _ | .header _ | .record _ => []

/-- What is disclosed of a run. -/
structure Disclosure where
  /-- The texts of the settings before the first and after each one. -/
  settings : List (String × String)
  /-- The lines of the settings, of the build and of each operation. -/
  log : List (List Line)
  session : Report
  answers : List Report

/-- What is disclosed of a run with some settings and some operations on some system. -/
def disclosure (locking : Locking) (settings : List Setting) (operations : List Operation) :
    Disclosure where
  settings := (List.range (settings.length + 1)).map fun count =>
    (Settings.ofList (settings.take count)).shown.texts
  log := (Run.ofSettings settings operations).log locking
  session := (Run.ofSettings settings operations).session.report Session.texts
  answers := (Run.ofSettings settings operations).answers.map (Traced.report Outcome.texts)

/-! ## Runs that are alike -/

/-- The same setting, but the passphrase may be another one of the same length. -/
inductive Setting.Alike : Setting → Setting → Prop
  | passphrase {one other : Bytes} (hlength : one.length = other.length) :
      Alike (.passphrase one) (.passphrase other)
  | archiveSalt (bytes : Bytes) : Alike (.archiveSalt bytes) (.archiveSalt bytes)
  | loops (loops : UInt64) : Alike (.loops loops) (.loops loops)
  | workFactor {one other : WorkFactor} (hloops : one.loops = other.loops) :
      Alike (.workFactor one) (.workFactor other)

/-- The same operation on other bytes: buffers have the same length, and all else that
it works on has a fixed width. -/
inductive Operation.Alike : Operation → Operation → Prop
  | transform {one other : Bytes} (salt otherSalt : Salt) (action : Action)
      (hlength : one.length = other.length) :
      Alike (.transform salt action one) (.transform otherSalt action other)
  | transformHeader (salt otherSalt : Salt) (action : Action) (one other : Header) :
      Alike (.transformHeader salt action one) (.transformHeader otherSalt action other)
  | sealHeader (salt otherSalt : Salt) (one other : Header) :
      Alike (.sealHeader salt one) (.sealHeader otherSalt other)
  | revealHeader (action : Action) (one other : SealedHeader) :
      Alike (.revealHeader action one) (.revealHeader action other)
  | derive (salt otherSalt : Salt) : Alike (.derive salt) (.derive otherSalt)

/-- The same memory is asked for by the settings of both runs. -/
theorem Setting.events_eq_of_alike {settings others : List Setting}
    (hsettings : List.Forall₂ Setting.Alike settings others) :
    settings.flatMap Setting.events = others.flatMap Setting.events := by
  induction hsettings with
  | nil => rfl
  | @cons one other _ _ hsetting _ ih =>
    have hevents : one.events = other.events := by
      cases hsetting with
      | passphrase hlength => exact congrArg (fun length => [Event.pinning length]) hlength
      | archiveSalt | loops | workFactor => rfl
    rw [List.flatMap_cons, List.flatMap_cons, hevents, ih]

/-- Settings that agree up to the bytes of the passphrase. -/
structure Settings.Alike (s t : Settings) : Prop where
  loops : s.loops = t.loops
  archiveSalt : s.archiveSalt = t.archiveSalt
  passphrase : s.passphrase.map SecretBytes.length = t.passphrase.map SecretBytes.length

/-- Sessions that agree up to the bytes of their secrets. -/
structure Session.Alike (s t : Session) : Prop where
  loops : s.loops = t.loops
  passphrase : s.secrets.passphrase.length = t.secrets.passphrase.length

namespace Settings.Alike

variable {s t : Settings}

theorem apply (halike : s.Alike t) {one other : Setting} (hsetting : one.Alike other) :
    (s.apply one).Alike (t.apply other) := by
  cases hsetting with
  | passphrase hlength => exact ⟨halike.loops, halike.archiveSalt, congrArg some hlength⟩
  | archiveSalt bytes => exact ⟨halike.loops, rfl, halike.passphrase⟩
  | loops loops => exact ⟨rfl, halike.archiveSalt, halike.passphrase⟩
  | workFactor hloops => exact ⟨hloops, halike.archiveSalt, halike.passphrase⟩

theorem foldl_apply (halike : s.Alike t) {settings others : List Setting}
    (hsettings : List.Forall₂ Setting.Alike settings others) :
    (settings.foldl Settings.apply s).Alike (others.foldl Settings.apply t) := by
  induction hsettings generalizing s t with
  | nil => exact halike
  | cons hsetting _ ih => exact ih (halike.apply hsetting)

theorem ofList {settings others : List Setting}
    (hsettings : List.Forall₂ Setting.Alike settings others) :
    (Settings.ofList settings).Alike (Settings.ofList others) :=
  foldl_apply ⟨rfl, rfl, rfl⟩ hsettings

theorem shown_eq (halike : s.Alike t) : s.shown = t.shown := by
  unfold Settings.shown
  rw [halike.loops, halike.archiveSalt]
  have hpassphrase := halike.passphrase
  cases hs : s.passphrase with
  | none =>
    rw [hs, Option.map_none] at hpassphrase
    rw [Option.map_eq_none_iff.1 hpassphrase.symm]
  | some passphrase =>
    rw [hs, Option.map_some] at hpassphrase
    obtain ⟨other, hother, hlength⟩ := Option.map_eq_some_iff.1 hpassphrase.symm
    rw [hother]
    simp only [SecretBytes.shown, hlength]

/-- A build of the one goes as a build of the other. -/
theorem build (halike : s.Alike t) :
    s.build.events = t.build.events ∧
      ((∃ error, s.build.result = .error error ∧ t.build.result = .error error) ∨
        ∃ one other, s.build.result = .ok one ∧ t.build.result = .ok other ∧
          one.Alike other) := by
  obtain ⟨loops, archiveSalt, one⟩ := s
  obtain ⟨_, _, other⟩ := t
  obtain ⟨rfl, rfl, hlengths⟩ := halike
  cases one with
  | none =>
    have hother : other = none := Option.map_eq_none_iff.1 hlengths.symm
    rw [build_of_none rfl, build_of_none hother]
    exact ⟨rfl, .inl ⟨_, rfl, rfl⟩⟩
  | some passphrase =>
    obtain ⟨otherPassphrase, rfl, hlength⟩ := Option.map_eq_some_iff.1 hlengths.symm
    have hsalted : (SecretBytes.salted archiveSalt otherPassphrase).length =
        (SecretBytes.salted archiveSalt passphrase).length := by
      rw [SecretBytes.length_salted, SecretBytes.length_salted, hlength]
    by_cases hloops : loops = 0
    · rw [build_of_no_loops rfl hloops, build_of_no_loops rfl hloops]
      exact ⟨rfl, .inl ⟨_, rfl, rfl⟩⟩
    by_cases hlong : Format.passphraseLimit < (SecretBytes.salted archiveSalt passphrase).length
    · rw [build_of_long rfl hloops hlong, build_of_long rfl hloops (hsalted ▸ hlong), hsalted]
      exact ⟨rfl, .inl ⟨_, rfl, rfl⟩⟩
    have hfits := Nat.le_of_not_lt hlong
    rw [build_of_checked rfl hloops hfits, build_of_checked rfl hloops (hsalted ▸ hfits),
      Traced.emit_bind, Traced.emit_bind, hsalted]
    cases hrounds : stretchRounds (SecretBytes.salted archiveSalt passphrase).length loops with
    | error error =>
      rw [Session.ofSalted_of_refused hrounds, Session.ofSalted_of_refused (hsalted ▸ hrounds)]
      exact ⟨rfl, .inl ⟨_, rfl, rfl⟩⟩
    | ok rounds =>
      rw [Session.ofSalted_of_rounds hrounds, Session.ofSalted_of_rounds (hsalted ▸ hrounds)]
      exact ⟨rfl, .inr ⟨_, _, rfl, rfl, rfl, hsalted.symm⟩⟩

end Settings.Alike

theorem Session.Alike.texts_eq {s t : Session} (halike : s.Alike t) : s.texts = t.texts := by
  have hpassphrase : s.secrets.passphrase.shown = t.secrets.passphrase.shown := by
    unfold SecretBytes.shown
    rw [halike.passphrase]
  have hhash : s.secrets.globalHash.shown = t.secrets.globalHash.shown := rfl
  unfold Session.texts Session.shown
  rw [hpassphrase, hhash, halike.loops]

/-! ## The reports on operations -/

namespace Operation

/-- The error that an operation ends in. -/
def error? : Operation → Option Error
  | revealHeader .encrypt _ => some .openedForEncryption
  | _ => none

/-- The texts of what comes of an operation. -/
def texts : Operation → List (String × String)
  | derive _ => [(BlockSecrets.shown ⟨.zeroed 64, .zeroed 64⟩).texts]
  | _ => []

/-- The report on an operation, which no session has to be known for. -/
def report (operation : Operation) : Report :=
  ⟨operation.error?.map Error.report, operation.texts⟩

theorem Alike.report_eq {one other : Operation} (halike : one.Alike other) :
    one.report = other.report := by
  cases halike with
  | revealHeader action => cases action <;> rfl
  | transform | transformHeader | sealHeader | derive => rfl

theorem Alike.events_eq {one other : Operation} (halike : one.Alike other) :
    one.events = other.events := by
  cases halike with
  | transform salt otherSalt action hlength => exact congrArg action.events hlength
  | transformHeader | sealHeader | revealHeader | derive => rfl

/-- What comes of an operation has no texts but those that show lengths. -/
theorem Yields.report_eq {operation : Operation} {outcome : Outcome}
    (hyields : operation.Yields outcome) : operation.report = ⟨none, outcome.texts⟩ := by
  cases hyields with
  | @revealHeader action haction r after =>
    cases action with
    | encrypt => exact absurd rfl haction
    | decrypt | validate => rfl
  | transform | transformHeader | sealHeader | derive => rfl

end Operation

theorem Traced.report_of_ok {α : Type} {work : Traced α} {value : α}
    (hresult : work.result = .ok value) (texts : α → List (String × String)) :
    work.report texts = ⟨none, texts value⟩ := by
  unfold report
  rw [hresult]

theorem Traced.report_of_error {α : Type} {work : Traced α} {error : Error}
    (hresult : work.result = .error error) (texts : α → List (String × String)) :
    work.report texts = ⟨some error.report, []⟩ := by
  unfold report
  rw [hresult]

/-- A session with a passphrase that keeps to its limit gives every operation its
report. -/
theorem Session.report_operate {s : Session}
    (hlength : s.secrets.passphrase.length ≤ Format.passphraseLimit) (operation : Operation) :
    (s.operate operation).report Outcome.texts = operation.report := by
  rcases s.operate_cases hlength operation with ⟨outcome, hdone, hyields⟩ | ⟨r, rfl, hfail⟩
  · rw [hyields.report_eq]
    exact Traced.report_of_ok (congrArg Traced.result hdone) _
  · exact Traced.report_of_error (congrArg Traced.result hfail) _

/-! ## Two runs -/

/-- The answers of the session are those that its operations call for. -/
theorem Run.map_report_answers {settings : List Setting} {session : Session}
    (hbuild : (Settings.ofList settings).build.result = .ok session)
    (operations : List Operation) :
    (ofSettings settings operations).answers.map (Traced.report Outcome.texts) =
      operations.map Operation.report := by
  have hlength := Settings.length_of_build hbuild
  rw [ofSettings_of_ok hbuild, List.map_map]
  exact List.map_congr_left fun operation _ => Session.report_operate hlength operation

/-- What is the same for operations that are alike is the same for lists of them. -/
theorem Operation.map_eq_of_alike {α : Type} {f : Operation → α}
    {operations others : List Operation}
    (hoperations : List.Forall₂ Operation.Alike operations others)
    (hsame : ∀ {one other : Operation}, one.Alike other → f one = f other) :
    operations.map f = others.map f := by
  induction hoperations with
  | nil => rfl
  | cons hoperation _ ih => rw [List.map_cons, List.map_cons, hsame hoperation, ih]

/-- The same is disclosed of two runs that are alike, on every system: their logs, with what is
told of memory, the texts of their settings, sessions and keys, and the errors that the build
and the operations end in. -/
theorem disclosure_eq_of_alike {settings others : List Setting}
    {operations otherOperations : List Operation} (locking : Locking)
    (hsettings : List.Forall₂ Setting.Alike settings others)
    (hoperations : List.Forall₂ Operation.Alike operations otherOperations) :
    disclosure locking settings operations = disclosure locking others otherOperations := by
  have hmade : (List.range (settings.length + 1)).map (fun count =>
        (Settings.ofList (settings.take count)).shown.texts) =
      (List.range (others.length + 1)).map fun count =>
        (Settings.ofList (others.take count)).shown.texts := by
    rw [hsettings.length_eq]
    refine List.map_congr_left fun count _ => ?_
    rw [(Settings.Alike.ofList (List.forall₂_take count hsettings)).shown_eq]
  have hmemory := Setting.events_eq_of_alike hsettings
  obtain ⟨hbuild, ⟨error, hone, hother⟩ | ⟨one, other, hone, hother, halike⟩⟩ :=
    (Settings.Alike.ofList hsettings).build
  · have hsession : (Settings.ofList settings).build.report Session.texts =
        (Settings.ofList others).build.report Session.texts := by
      rw [Traced.report_of_error hone, Traced.report_of_error hother]
    unfold disclosure
    rw [hmade, Run.ofSettings_of_error hone, Run.ofSettings_of_error hother, hsession]
    simp only [Run.log, Run.pieces, hmemory, hbuild]
  · have hsession : (Settings.ofList settings).build.report Session.texts =
        (Settings.ofList others).build.report Session.texts := by
      rw [Traced.report_of_ok hone, Traced.report_of_ok hother, halike.texts_eq]
    have hpieces : (Run.ofSettings settings operations).pieces =
        (Run.ofSettings others otherOperations).pieces := by
      rw [Run.pieces_of_ok hone, Run.pieces_of_ok hother, hmemory, hbuild,
        Operation.map_eq_of_alike hoperations Operation.Alike.events_eq]
    unfold disclosure
    rw [hmade, Run.log, Run.log, hpieces, Run.map_report_answers hone,
      Run.map_report_answers hother,
      Operation.map_eq_of_alike hoperations Operation.Alike.report_eq]
    exact congrArg (Disclosure.mk _ _ · _) hsession

/-- Two passphrases of two bytes, and two buffers of one byte under other salts, where the
second memory is refused. -/
theorem disclosure_eq_of_alike_short :
    List.Forall₂ Setting.Alike [.passphrase [1, 2], .loops 1] [.passphrase [3, 4], .loops 1] ∧
    List.Forall₂ Operation.Alike
      [.transform (Octets.zero 16) .encrypt [7], .derive (Octets.zero 16)]
      [.transform (Octets.replicate 16 1) .encrypt [8], .derive (Octets.replicate 16 1)] ∧
    disclosure ⟨true, fun attempt => attempt = 0, 0, false⟩ [.passphrase [1, 2], .loops 1]
        [.transform (Octets.zero 16) .encrypt [7], .derive (Octets.zero 16)] =
      disclosure ⟨true, fun attempt => attempt = 0, 0, false⟩ [.passphrase [3, 4], .loops 1]
        [.transform (Octets.replicate 16 1) .encrypt [8], .derive (Octets.replicate 16 1)] := by
  have hsettings : List.Forall₂ Setting.Alike [.passphrase [1, 2], .loops 1]
      [.passphrase [3, 4], .loops 1] := .cons (.passphrase rfl) (.cons (.loops 1) .nil)
  have hoperations : List.Forall₂ Operation.Alike
      [.transform (Octets.zero 16) .encrypt [7], .derive (Octets.zero 16)]
      [.transform (Octets.replicate 16 1) .encrypt [8], .derive (Octets.replicate 16 1)] :=
    .cons (.transform _ _ _ rfl) (.cons (.derive _ _) .nil)
  exact ⟨hsettings, hoperations, disclosure_eq_of_alike _ hsettings hoperations⟩

end SealedArchive
