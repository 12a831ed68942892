import SealedArchive.Error

/-!
# Work that leaves a log

The log of an archive tells which work was done, by its size and never by its content.
A `Traced` computation has a result, which may be an error, and the events of the work up to
there in order.

An event of the work itself has a line of its own (`Event.line?`).  Memory for a secret is to
be locked, so that it is never swapped to disk, and the system may refuse that.  `Locking` is
what the system answers, one attempt after the other; of all that it refuses only the first
is told, and once.  Which pages an attempt locks, and when they are released, decides nothing
but these answers and is left out.  `Locking.write` is the log of some events on such a
system.
-/

namespace SealedArchive

/-- Something that happens in the course of some work, and may be told in the log. -/
inductive Event where
  /-- A passphrase is being stretched. -/
  | stretching (loops rounds : Nat)
  /-- A buffer of some length is being encrypted. -/
  | encrypting (length : Nat)
  /-- A buffer of some length is being decrypted. -/
  | decrypting (length : Nat)
  /-- Memory of some length was taken for a secret, and is to be locked. -/
  | pinning (length : Nat)
  deriving DecidableEq

/-! ## The log -/

/-- How much a line of the log matters. -/
inductive Level where
  | warn
  | debug
  | trace
  deriving DecidableEq

/-- A line of the log as it is written. -/
structure Line where
  level : Level
  message : String
  /-- The named numbers of the line. -/
  fields : List (String × Nat)
  deriving DecidableEq

/-- The line of an event.  Work on a single buffer has the lowest level, and memory that is
locked is not told. -/
def Event.line? : Event → Option Line
  | stretching loops rounds =>
    some ⟨.debug, s!"Hashing passphrase {loops} ({rounds}) times",
      [("loops", loops), ("rounds", rounds)]⟩
  | encrypting length => some ⟨.trace, "Encrypting data", [("len", length)]⟩
  | decrypting length => some ⟨.trace, "Decrypting data", [("len", length)]⟩
  | pinning _ => none

/-- What the system has in store for memory that is to be locked. -/
structure Locking where
  /-- Whether there is such a thing as locked memory. -/
  supported : Bool
  /-- Whether the attempt with some number goes well. -/
  grants : Nat → Bool
  /-- The number of attempts so far. -/
  attempts : Nat
  /-- Whether a refusal has been told already. -/
  warned : Bool

namespace Locking

/-- Whether memory of some length cannot be locked.  No attempt is made on no memory. -/
def refuses (l : Locking) (length : Nat) : Bool :=
  length != 0 && !(l.supported && l.grants l.attempts)

/-- The line that tells of memory that could not be locked. -/
def warning (l : Locking) (length : Nat) : Line :=
  if l.supported then
    ⟨.warn, "mlock failed, secret memory may be swapped to disk", [("len", length)]⟩
  else ⟨.warn, "memory pinning is not supported on this platform", []⟩

/-- The system after an event. -/
def after (l : Locking) : Event → Locking
  | .pinning length =>
    { l with
      attempts := if length = 0 then l.attempts else l.attempts + 1
      warned := l.warned || l.refuses length }
  | .stretching _ _ | .encrypting _ | .decrypting _ => l

/-- The line that an event leaves in the log. -/
def record (l : Locking) : Event → Option Line
  | .pinning length => if l.refuses length && !l.warned then some (l.warning length) else none
  | event => event.line?

/-- The log of some events. -/
def write : Locking → List Event → List Line
  | _, [] => []
  | l, event :: later => (l.record event).toList ++ (l.after event).write later

/-- The system after some events. -/
def afterAll (l : Locking) (events : List Event) : Locking := events.foldl after l

/-- The log of some pieces of work, one after the other, the lines of each by themselves. -/
def writeEach : Locking → List (List Event) → List (List Line)
  | _, [] => []
  | l, events :: later => l.write events :: (l.afterAll events).writeEach later

end Locking

/-! ## Traced work -/

/-- A result, or the error that ended the work, with the events up to there. -/
structure Traced (α : Type) where
  result : Except Error α
  events : List Event

namespace Traced

variable {α β : Type}

/-- A result without any event. -/
def ofExcept (result : Except Error α) : Traced α := ⟨result, []⟩

/-- A failure. -/
def fail (error : Error) : Traced α := ⟨.error error, []⟩

/-- An event. -/
def emit (event : Event) : Traced Unit := ⟨.ok (), [event]⟩

/-- Some events. -/
def emitAll (events : List Event) : Traced Unit := ⟨.ok (), events⟩

/-- Some work and then, unless it failed, more work with its result. -/
def bind (first : Traced α) (next : α → Traced β) : Traced β :=
  match first.result with
  | .error error => ⟨.error error, first.events⟩
  | .ok value => ⟨(next value).result, first.events ++ (next value).events⟩

/-- Some work in place: how it went, and its result or, if it failed, the value
that was there before. -/
def replace (work : Traced α) (before : α) : Traced Unit × α :=
  match work.result with
  | .ok after => (⟨.ok (), work.events⟩, after)
  | .error error => (⟨.error error, work.events⟩, before)

instance : Monad Traced where
  pure value := ⟨.ok value, []⟩
  bind := bind

@[ext] theorem ext {x y : Traced α} (hresult : x.result = y.result)
    (hevents : x.events = y.events) :
    x = y := by
  cases x; cases y; cases hresult; cases hevents; rfl

@[simp] theorem result_pure (value : α) : (pure value : Traced α).result = .ok value := rfl

@[simp] theorem events_pure (value : α) : (pure value : Traced α).events = [] := rfl

theorem bind_of_error {first : Traced α} {error : Error} (next : α → Traced β)
    (hresult : first.result = .error error) :
    first >>= next = ⟨.error error, first.events⟩ := by
  change bind first next = _
  simp [bind, hresult]

theorem bind_of_ok {first : Traced α} {value : α} (next : α → Traced β)
    (hresult : first.result = .ok value) :
    first >>= next = ⟨(next value).result, first.events ++ (next value).events⟩ := by
  change bind first next = _
  simp [bind, hresult]

/-- Work whose result is only dressed up keeps its events. -/
theorem bind_return (work : Traced α) (dress : α → β) :
    (do return dress (← work)) = (⟨work.result.map dress, work.events⟩ : Traced β) := by
  cases hresult : work.result with
  | error error => exact bind_of_error _ hresult
  | ok value =>
    rw [bind_of_ok _ hresult, events_pure, List.append_nil]
    rfl

/-- Work is the work in place, with the value that is then there. -/
theorem eq_replace (work : Traced α) (before : α) :
    work = ⟨(work.replace before).1.result.map fun _ => (work.replace before).2,
      (work.replace before).1.events⟩ := by
  obtain ⟨result, events⟩ := work
  cases result <;> rfl

/-- The same of work whose result is dressed up. -/
theorem bind_return_eq_replace (work : Traced α) (before : α) (dress : α → β) :
    (do return dress (← work) : Traced β) =
      ⟨(work.replace before).1.result.map fun _ => dress (work.replace before).2,
        (work.replace before).1.events⟩ := by
  rw [bind_return, replace]
  cases work.result <;> rfl

/-- A result without an event goes on to the work after it. -/
theorem ofExcept_ok_bind (value : α) (next : α → Traced β) :
    ofExcept (.ok value) >>= next = next value := rfl

theorem emit_bind (event : Event) (next : Unit → Traced β) :
    emit event >>= next = ⟨(next ()).result, event :: (next ()).events⟩ := rfl

theorem emitAll_bind (events : List Event) (next : Unit → Traced β) :
    emitAll events >>= next = ⟨(next ()).result, events ++ (next ()).events⟩ := rfl

end Traced

end SealedArchive
