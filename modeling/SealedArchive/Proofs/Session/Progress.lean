import SealedArchive.Proofs.Header.Sealing
import SealedArchive.Proofs.Session.Batch
import SealedArchive.Proofs.Stream.Delivery
import SealedArchive.Workspace

/-!
# A built session never fails

A build lets no passphrase through that does not fit into key derivation, with the
salt of the archive in front of it.  That is all that work on blocks needs: the
keys of every salt can be derived, their parts have the lengths that the cipher
asks for, and only whole blocks are chained.  `Session.Works` lists what comes of
it for each kind of work.  As an `Operation` each is done with the events of all of it, or it
opens a record the wrong way round (`Session.operate_cases`).

In a run of steps on a workspace the session is the same all along.  `Step.Fails`
says which steps fail, and a run ends no step in another error
(`performAll_error`): a record opened the wrong way round, bytes that are no
record, and a stream that ends too early are all that can be refused.
-/

namespace SealedArchive

/-! ## Each kind of work -/

/-- No work on blocks is refused, but opening a record the wrong way round. -/
structure Session.Works (s : Session) : Prop where
  /-- The passphrase keeps to its limit, and one pass of key derivation fits into
  the scratch buffer. -/
  fits : s.secrets.passphrase.length ≤ Format.passphraseLimit ∧
    Format.digestLength + Format.saltLength + s.secrets.passphrase.length ≤ Format.scratchLength
  /-- The keys of every salt are derived, and the cipher takes them. -/
  derive : ∀ salt : Salt, ∃ keys, s.derive salt = .ok keys ∧
    Stealing.keyed keys.cipherKey.toList = .ok (Aes.cipher keys.cipherKey) ∧
    Stealing.startBlock keys.startBlock.toList = .ok keys.startBlock
  transform : ∀ (salt : Salt) (action : Action) (buffer : Bytes),
    ∃ after, (s.transform salt action buffer).result = .ok after ∧ after.length = buffer.length
  transformHeader : ∀ (salt : Salt) (action : Action) (header : Header),
    ∃ after, (s.transformHeader salt action header).result = .ok after
  protect : ∀ (salt : Salt) (action : Action) (header : Header),
    (header.protect s.secrets salt action).1.result = .ok ()
  sealHeader : ∀ (salt : Salt) (header : Header),
    ∃ r, (s.sealHeader salt header).result = .ok r
  transformAll : ∀ (action : Action) (members : List (Bytes × Salt)),
    ∃ after, (s.transformAll action members).result = .ok after
  revealHeader : ∀ (action : Action) (r : SealedHeader) (error : Error),
    (s.revealHeader action r).result = .error error ↔
      action = .encrypt ∧ error = .openedForEncryption

namespace Session

variable {s : Session}

theorem exists_transform (hlength : s.secrets.passphrase.length ≤ Format.passphraseLimit)
    (salt : Salt) (action : Action) (buffer : Bytes) :
    ∃ after, (s.transform salt action buffer).result = .ok after ∧
      after.length = buffer.length := by
  obtain ⟨keys, hderive⟩ := Secrets.exists_derive salt hlength
  exact ⟨_, congrArg Traced.result (Secrets.transform_of_derive hderive action buffer), by simp⟩

theorem exists_transformHeader (hlength : s.secrets.passphrase.length ≤ Format.passphraseLimit)
    (salt : Salt) (action : Action) (header : Header) :
    ∃ after, (s.transformHeader salt action header).result = .ok after := by
  obtain ⟨keys, hderive⟩ := Secrets.exists_derive salt hlength
  exact ⟨_, congrArg Traced.result (Header.transform_of_derive hderive action header)⟩

theorem exists_transformAll (hlength : s.secrets.passphrase.length ≤ Format.passphraseLimit)
    (action : Action) (members : List (Bytes × Salt)) :
    ∃ after, (s.transformAll action members).result = .ok after :=
  ⟨_, congrArg Traced.result (transformAll_of_length hlength action members)⟩

theorem revealHeader_error_iff (hlength : s.secrets.passphrase.length ≤ Format.passphraseLimit)
    (action : Action) (r : SealedHeader) (error : Error) :
    (s.revealHeader action r).result = .error error ↔
      action = .encrypt ∧ error = .openedForEncryption := by
  by_cases haction : action = .encrypt
  · subst haction
    constructor
    · intro hrefused
      cases hrefused
      exact ⟨rfl, rfl⟩
    · rintro ⟨-, rfl⟩
      rfl
  · obtain ⟨header, hheader⟩ := SealedHeader.exists_reveal r hlength haction
    rw [revealHeader, hheader]
    constructor
    · intro hrefused
      cases hrefused
    · intro hencrypt
      exact absurd hencrypt.1 haction

theorem works_of_length (hlength : s.secrets.passphrase.length ≤ Format.passphraseLimit) :
    s.Works where
  fits := ⟨hlength, Nat.add_le_add_left hlength _⟩
  derive salt := by
    obtain ⟨keys, hderive⟩ := Secrets.exists_derive salt hlength
    exact ⟨keys, hderive, Secrets.keyed_cipherKey keys, Stealing.startBlock_toList _⟩
  transform := exists_transform hlength
  transformHeader := exists_transformHeader hlength
  protect salt action header := by
    obtain ⟨after, hafter⟩ := exists_transformHeader hlength salt action header
    rw [Session.transformHeader] at hafter
    rw [Header.protect, Traced.replace, hafter]
  sealHeader salt header := by
    obtain ⟨r, hseal, -⟩ := SealedHeader.exists_ofHeader header salt hlength
    exact ⟨r, hseal⟩
  transformAll := exists_transformAll hlength
  revealHeader := revealHeader_error_iff hlength

end Session

/-! ## Each operation -/

namespace Operation

/-- What happens in the course of an operation that is done. -/
def events : Operation → List Event
  | transform _ action buffer => action.events buffer.length
  | transformHeader _ action _ => action.headerEvents
  | sealHeader _ _ => Action.headerEvents .encrypt
  | revealHeader action _ => if action = .encrypt then [] else action.headerEvents
  | derive _ => BlockSecrets.events

/-- An outcome of the kind that an operation asks for. -/
inductive Yields : Operation → Outcome → Prop
  | transform (salt : Salt) (action : Action) {buffer after : Bytes}
      (hlength : after.length = buffer.length) :
      Yields (.transform salt action buffer) (.buffer after)
  | transformHeader (salt : Salt) (action : Action) (header after : Header) :
      Yields (.transformHeader salt action header) (.header after)
  | sealHeader (salt : Salt) (header : Header) (r : SealedHeader) :
      Yields (.sealHeader salt header) (.record r)
  | revealHeader {action : Action} (haction : action ≠ .encrypt) (r : SealedHeader)
      (after : Header) : Yields (.revealHeader action r) (.header after)
  | derive (salt : Salt) (keys : BlockSecrets) : Yields (.derive salt) (.keys keys)

end Operation

/-- An operation is done with all its events, unless it opens a record the wrong way round. -/
theorem Session.operate_cases {s : Session}
    (hlength : s.secrets.passphrase.length ≤ Format.passphraseLimit) (operation : Operation) :
    (∃ outcome, s.operate operation = ⟨.ok outcome, operation.events⟩ ∧
        operation.Yields outcome) ∨
      ∃ r, operation = .revealHeader .encrypt r ∧
        s.operate operation = .fail .openedForEncryption := by
  cases operation with
  | transform salt action buffer =>
    obtain ⟨keys, hderive⟩ := Secrets.exists_derive salt hlength
    have hcount := Action.length_bytes (Aes.cipher keys.cipherKey) keys.startBlock buffer action
    refine .inl ⟨_, ?_, .transform salt action hcount⟩
    rw [operate, Traced.bind_return, Session.transform, Secrets.transform_of_derive hderive]
    rfl
  | transformHeader salt action header =>
    obtain ⟨keys, hderive⟩ := Secrets.exists_derive salt hlength
    refine .inl ⟨_, ?_, .transformHeader salt action header (header.under keys action)⟩
    rw [operate, Traced.bind_return, Session.transformHeader, Header.transform_of_derive hderive]
    rfl
  | sealHeader salt header =>
    obtain ⟨keys, hderive⟩ := Secrets.exists_derive salt hlength
    refine .inl ⟨_, ?_, .sealHeader salt header ⟨salt, (header.under keys .encrypt).pack⟩⟩
    rw [operate, Traced.bind_return, Session.sealHeader, SealedHeader.ofHeader_of_derive hderive]
    rfl
  | revealHeader action r =>
    by_cases haction : action = .encrypt
    · subst haction
      exact .inr ⟨r, rfl, rfl⟩
    · obtain ⟨keys, hderive⟩ := Secrets.exists_derive r.salt hlength
      refine .inl ⟨_, ?_, .revealHeader haction r ((Header.unpack r.body).under keys action)⟩
      rw [operate, Traced.bind_return, Session.revealHeader, Operation.events, if_neg haction,
        SealedHeader.reveal_of_derive hderive haction]
      rfl
  | derive salt =>
    obtain ⟨keys, hderive⟩ := Secrets.exists_derive salt hlength
    refine .inl ⟨_, ?_, .derive salt keys⟩
    rw [operate, Traced.bind_return, Secrets.deriveTraced_of_derive hderive]
    rfl

/-! ## Runs of steps -/

/-- A step that fails in a workspace, and how. -/
inductive Step.Fails (w : Workspace) : Step → Error → Prop
  /-- A record is opened by encrypting it. -/
  | opened {r : SealedHeader} (hrecord : w.record = some r) :
      Fails w (.revealHeader .encrypt) .openedForEncryption
  /-- Some bytes are no record. -/
  | parsed {bytes : Bytes} (hlength : bytes.length ≠ Format.recordLength) :
      Fails w (.setRecord bytes) (.recordLength bytes.length)
  /-- The written bytes end before a record does. -/
  | read (hshort : (w.disk.drop w.position).length < Format.recordLength) :
      Fails w .readRecord .streamEnded

namespace Workspace

variable {s : Session} {w : Workspace}

theorem error_of_commit {α : Type} {work : Traced α} {store : α → Workspace}
    {reply : α → Reply} {error : Error}
    (herror : (w.commit work store reply).1.result = .error error) :
    work.result = .error error := by
  unfold commit at herror
  cases hwork : work.result with
  | error other =>
    rw [hwork] at herror
    cases herror
    rfl
  | ok value =>
    rw [hwork] at herror
    cases herror

/-- What an operation on the workspace can end in. -/
theorem eq_revealHeader_of_ask {operation : Operation} {error : Error} (hworks : s.Works)
    (herror : (w.ask s operation).1.result = .error error) :
    (∃ r, operation = .revealHeader .encrypt r) ∧ error = .openedForEncryption := by
  have hrefused := error_of_commit herror
  rcases Session.operate_cases hworks.fits.1 operation with ⟨outcome, hdone, -⟩ | ⟨r, rfl, hfail⟩
  · rw [hdone] at hrefused
    cases hrefused
  · rw [hfail] at hrefused
    cases hrefused
    exact ⟨⟨r, rfl⟩, rfl⟩

theorem fails_of_readRecord {error : Error}
    (herror : (Source.ofDeliveries [.data (w.disk.drop w.position)]).readRecord.1 =
      .error error) : Step.readRecord.Fails w error := by
  have hread := readsRecord_readRecord (Source.ofDeliveries [.data (w.disk.drop w.position)])
  have hruns : Delivery.runs (Source.ofDeliveries [.data (w.disk.drop w.position)]).deliveries =
      .last (w.disk.drop w.position) := congrArg Runs.last (List.append_nil _)
  rcases Nat.lt_or_ge (w.disk.drop w.position).length Format.recordLength with hcount | hcount
  · obtain ⟨hended, -⟩ := hread.of_lt (by rw [hruns]; exact hcount)
    rw [herror, hruns] at hended
    cases hended
    exact .read hcount
  · obtain ⟨r, hrecord, -⟩ := hread.of_le (by rw [hruns]; exact hcount)
    rw [herror] at hrecord
    cases hrecord

/-- What one step can end in. -/
theorem fails_of_error (hworks : s.Works) {step : Step} {error : Error}
    (herror : (w.perform s step).1.result = .error error) : step.Fails w error := by
  cases step with
  | arrange change => cases herror
  | transform salt action | transformHeader salt action | sealHeader salt | derive salt =>
    obtain ⟨⟨r, hoperation⟩, -⟩ := eq_revealHeader_of_ask hworks herror
    cases hoperation
  | revealHeader action =>
    cases hrecord : w.record with
    | none =>
      simp only [perform, hrecord] at herror
      cases herror
    | some r =>
      simp only [perform, hrecord] at herror
      obtain ⟨⟨opened, hoperation⟩, rfl⟩ := eq_revealHeader_of_ask hworks herror
      cases hoperation
      exact .opened hrecord
  | batch action members =>
    obtain ⟨after, hafter⟩ := hworks.transformAll action members
    have hrefused := error_of_commit herror
    rw [hafter] at hrefused
    cases hrefused
  | setRecord bytes =>
    have hrefused : SealedHeader.ofBytes bytes = .error error := error_of_commit herror
    by_cases hlength : bytes.length = Format.recordLength
    · obtain ⟨r, hrecord⟩ := SealedHeader.exists_ofBytes_iff.2 hlength
      rw [hrecord] at hrefused
      cases hrefused
    · rw [SealedHeader.ofBytes_of_length_ne hlength] at hrefused
      cases hrefused
      exact .parsed hlength
  | writeRecord =>
    cases hrecord : w.record with
    | none | some r =>
      simp only [perform, hrecord] at herror
      cases herror
  | readRecord => exact fails_of_readRecord (error_of_commit herror)

/-- The workspace after some steps. -/
def after (s : Session) (w : Workspace) (steps : List Step) : Workspace :=
  steps.foldl (fun w step => (w.perform s step).2) w

/-- An error in a run is the error of one of its steps, in the workspace that the
steps before it have left. -/
theorem performAll_error (hworks : s.Works) {steps : List Step}
    {answer : Traced Reply × Workspace} {error : Error}
    (hanswer : answer ∈ w.performAll s steps) (herror : answer.1.result = .error error) :
    ∃ front step back, steps = front ++ step :: back ∧ step.Fails (w.after s front) error := by
  induction steps generalizing w with
  | nil => cases hanswer
  | cons step steps ih =>
    rcases List.mem_cons.1 hanswer with rfl | hlater
    · exact ⟨[], step, steps, rfl, fails_of_error hworks herror⟩
    · obtain ⟨front, other, back, rfl, hfails⟩ := ih hlater
      exact ⟨step :: front, other, back, rfl, hfails⟩

end Workspace

/-- No step fails for its keys, its cipher mode or a range, and only one that brings
bytes along for the length of a record. -/
theorem Step.Fails.kind {w : Workspace} {step : Step} {error : Error}
    (hfails : step.Fails w error) :
    error.kind ≠ .keySetup ∧ error.kind ≠ .transform ∧ error.kind ≠ .range ∧
      (error.kind = .recordLength →
        ∃ bytes, step = .setRecord bytes ∧ bytes.length ≠ Format.recordLength) := by
  cases hfails with
  | opened => exact ⟨nofun, nofun, nofun, nofun⟩
  | parsed hlength => exact ⟨nofun, nofun, nofun, fun _ => ⟨_, rfl, hlength⟩⟩
  | read => exact ⟨nofun, nofun, nofun, nofun⟩

/-- A session that was built does all work on blocks.  Only ranges of whole blocks
can have been chained in it.  A run of any steps ends none of them in an error of
the keys, of the cipher mode or of the work itself, and none for the length of a
record but where the run brings along the bytes. -/
theorem Session.Built.never_fails {s : Session} (hbuilt : s.Built) :
    s.Works ∧
    (∀ (cipher : BlockCipher) (chain : Block) (n : Nat) (buffer : Octets n)
      (start stop : Nat) (after : Octets n × Block),
      Stealing.chainRange (Chaining.encryptPiece cipher) chain buffer start stop = .ok after ∨
        Stealing.chainRange (Chaining.decryptPiece cipher) chain buffer start stop = .ok after →
      (stop - start) % Format.blockLength = 0) ∧
    (∀ (w : Workspace) (steps : List Step), ∀ answer ∈ w.performAll s steps,
      ∀ error, answer.1.result = .error error →
        error.kind ≠ .keySetup ∧ error.kind ≠ .transform ∧ error.kind ≠ .range ∧
        (error.kind = .recordLength →
          ∃ bytes, Step.setRecord bytes ∈ steps ∧ bytes.length ≠ Format.recordLength) ∧
        ∃ front step back, steps = front ++ step :: back ∧
          step.Fails (w.after s front) error) := by
  have hworks := works_of_length hbuilt.length_le
  refine ⟨hworks, ?_, ?_⟩
  · intro cipher chain n buffer start stop after hchained
    rcases hchained with hencrypted | hdecrypted
    · exact Stealing.aligned_of_chainRange
        (fun _ => Chaining.encryptPiece_of_unaligned cipher chain) hencrypted
    · exact Stealing.aligned_of_chainRange
        (fun _ => Chaining.decryptPiece_of_unaligned cipher chain) hdecrypted
  · intro w steps answer hanswer error herror
    obtain ⟨front, step, back, rfl, hfails⟩ := Workspace.performAll_error hworks hanswer herror
    obtain ⟨hkeys, hmode, hrange, hrecord⟩ := hfails.kind
    refine ⟨hkeys, hmode, hrange, ?_, front, step, back, rfl, hfails⟩
    intro hkind
    obtain ⟨bytes, rfl, hlength⟩ := hrecord hkind
    exact ⟨bytes, List.mem_append_right _ List.mem_cons_self, hlength⟩

/-- A session on a passphrase of two bytes. -/
theorem Session.Built.never_fails_short :
    ∃ s : Session, (Session.ofPassphrase [1, 2] 1).result = .ok s ∧ s.Works := by
  have hbuild : (Session.ofPassphrase [1, 2] 1).result = .ok _ := rfl
  exact ⟨_, hbuild, (Session.Built.never_fails (.ofPassphrase [1, 2] 1 hbuild)).1⟩

end SealedArchive
