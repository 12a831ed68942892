import SealedArchive.Proofs.Session.Build
import SealedArchive.Proofs.WorkFactor.Encoding

/-!
# Sessions on a work factor that was stored

The writer of an archive stores its number of loops, and a reader builds a session
with the number that it reads back.  That may be a smaller one, but it is never zero, and
with fewer loops the rounds fit in 64 bits all the more: so the reader can be built
whenever the writer can (`exists_build_of_fewer`).

Whatever was lost is lost the first time.  A session that was built with a stored
number, in its shortest form or in another one, stores a number that builds the
same session again (`reload_of_build`), and so does every session after it
(`reloads_of_build`).
-/

namespace SealedArchive.Settings

variable {s : Settings} {session : Session}

/-! ## Fewer loops -/

theorem loops_of_build (hbuild : s.build.result = .ok session) :
    session.loops = s.loops ∧ s.loops ≠ 0 := by
  obtain ⟨passphrase, -, hloops, -, hsession⟩ := ofSalted_of_build hbuild
  obtain ⟨rounds, -, rfl⟩ := Session.eq_of_ofSalted hsession
  exact ⟨rfl, hloops⟩

/-- Settings that build a session build one with fewer loops, if any are left. -/
theorem exists_build_of_fewer {fewer : UInt64} (hbuild : s.build.result = .ok session)
    (hfewer : fewer ≠ 0) (hle : fewer ≤ s.loops) :
    ∃ other : Session, (s.apply (.loops fewer)).build.result = .ok other ∧
      other.loops = fewer := by
  obtain ⟨passphrase, hpassphrase, -, hlength, hsession⟩ := ofSalted_of_build hbuild
  obtain ⟨rounds, hrounds, -⟩ := Session.eq_of_ofSalted hsession
  obtain ⟨count, hcount, -⟩ := exists_stretchRounds_of_le (Nat.le_refl _) hle hrounds
  have hchecked := build_of_checked (s := s.apply (.loops fewer)) hpassphrase hfewer hlength
  rw [hchecked, Traced.emit_bind]
  exact ⟨_, congrArg Traced.result (Session.ofSalted_of_rounds hcount), rfl⟩

/-! ## A work factor stored and read back -/

/-- The loops of a session are stored and read back, and a session is built with them. -/
def reload (s : Settings) (session : Session) : Traced Session := do
  let stored ← Traced.ofExcept (WorkFactor.ofBytes (WorkFactor.ofLoops session.loops).toBytes)
  (s.apply (.workFactor stored)).build

/-- A number of reloads, each from the session of the one before. -/
def reloads (s : Settings) : (count : Nat) → Session → Traced Session
  | 0, session => pure session
  | count + 1, session => do
    let reloaded ← s.reload session
    s.reloads count reloaded

theorem reload_eq (s : Settings) (session : Session) :
    s.reload session =
      (s.apply (.workFactor (WorkFactor.ofLoops session.loops))).build := by
  rw [reload, WorkFactor.ofBytes_toBytes, Traced.ofExcept_ok_bind]

variable {stored : WorkFactor}

theorem reload_of_build
    (hbuild : (s.apply (.workFactor stored)).build.result = .ok session) :
    s.reload session = (s.apply (.workFactor stored)).build := by
  have hloops : session.loops = stored.loops := (loops_of_build hbuild).1
  have hkept := WorkFactor.loops_ofLoops_loops stored
  rw [reload_eq, hloops]
  simp only [apply, hkept]

theorem reloads_of_build
    (hbuild : (s.apply (.workFactor stored)).build.result = .ok session) (count : Nat) :
    (s.reloads count session).result = .ok session := by
  induction count with
  | zero => rfl
  | succ count ih =>
    have hreload : (s.reload session).result = .ok session := by
      rw [reload_of_build hbuild]
      exact hbuild
    rw [reloads, Traced.bind_of_ok _ hreload]
    exact ih

/-- A reader can be built whenever the writer can, with at least one loop and not more
than the writer's.  It gets the writer's session exactly when the writer's number is
one that can be stored, and from the first session with a stored number on,
storing and reading back change nothing any more. -/
theorem stored_loops_settle (s : Settings) :
    (∀ (loops : UInt64) (writer : Session),
      (s.apply (.loops loops)).build.result = .ok writer →
      ∃ (stored : WorkFactor) (reader : Session),
        WorkFactor.narrow loops 0 = (stored.mantissa.toUInt64, stored.shift) ∧
        WorkFactor.ofBytes (WorkFactor.ofLoops loops).toBytes = .ok stored ∧
        (s.apply (.workFactor stored)).build.result = .ok reader ∧
        1 ≤ reader.loops ∧ reader.loops ≤ loops ∧
        (reader.loops = loops ↔
          ∃ mantissa shift : Nat,
            mantissa ≤ 255 ∧ shift ≤ 56 ∧ loops.toNat = mantissa * 2 ^ shift) ∧
        (reader.loops = loops →
          reader.secrets.passphrase = writer.secrets.passphrase ∧
          reader.secrets.globalHash = writer.secrets.globalHash)) ∧
    (∀ (bytes : Octets 2) (stored : WorkFactor) (first : Session),
      WorkFactor.ofBytes bytes = .ok stored →
      (s.apply (.workFactor stored)).build.result = .ok first →
      ∀ count : Nat, ∃ last : Session,
        (s.reloads count first).result = .ok last ∧
        last.loops = first.loops ∧ last.secrets.globalHash = first.secrets.globalHash) := by
  constructor
  · intro loops writer hwriter
    have hpositive : loops ≠ 0 := (loops_of_build hwriter).2
    have hleft := WorkFactor.one_le_loops_ofLoops hpositive
    have hle := WorkFactor.loops_ofLoops_le loops
    have hkept : (WorkFactor.ofLoops loops).loops ≠ 0 := by
      intro hzero
      rw [hzero] at hleft
      exact absurd hleft (by decide)
    obtain ⟨reader, hreader, hloops⟩ := exists_build_of_fewer hwriter hkept hle
    refine ⟨WorkFactor.ofLoops loops, reader, WorkFactor.narrow_eq loops,
      WorkFactor.ofBytes_toBytes _, hreader, ?_⟩
    rw [hloops]
    refine ⟨hleft, hle, WorkFactor.loops_ofLoops_eq_iff loops, ?_⟩
    intro hsame
    -- nothing was lost, so the reader has the writer's settings
    rw [hsame] at hreader
    obtain rfl := Except.ok.inj (hreader.symm.trans hwriter)
    exact ⟨rfl, rfl⟩
  · intro bytes stored first _ hfirst count
    exact ⟨first, reloads_of_build hfirst count, rfl, rfl⟩

/-- A writer with 1001 loops, which no two bytes store, and sixteen loops stored as a one
shifted four times, which is not their shortest form. -/
theorem stored_loops_settle_rounded :
    ∃ writer first : Session,
      ((ofList [.archiveSalt [7], .passphrase [1, 2]]).apply (.loops 1001)).build.result =
        .ok writer ∧
      WorkFactor.ofBytes ⟨[4, 1], rfl⟩ = .ok ⟨4, 1, by decide⟩ ∧
      ((ofList [.archiveSalt [7], .passphrase [1, 2]]).apply
        (.workFactor ⟨4, 1, by decide⟩)).build.result = .ok first ∧
      (∃ (stored : WorkFactor) (reader : Session),
        WorkFactor.ofBytes (WorkFactor.ofLoops 1001).toBytes = .ok stored ∧
        ((ofList [.archiveSalt [7], .passphrase [1, 2]]).apply
          (.workFactor stored)).build.result = .ok reader ∧
        1 ≤ reader.loops ∧ reader.loops ≤ 1001) ∧
      ∃ last : Session,
        ((ofList [.archiveSalt [7], .passphrase [1, 2]]).reloads 3 first).result = .ok last ∧
        last.loops = first.loops := by
  have hwriter : ((ofList [.archiveSalt [7], .passphrase [1, 2]]).apply
      (.loops 1001)).build.result = .ok _ := rfl
  have hfirst : ((ofList [.archiveSalt [7], .passphrase [1, 2]]).apply
      (.workFactor ⟨4, 1, by decide⟩)).build.result = .ok _ := rfl
  obtain ⟨hrounded, hsettled⟩ :=
    stored_loops_settle (ofList [.archiveSalt [7], .passphrase [1, 2]])
  obtain ⟨stored, reader, -, hstored, hreader, hpositive, hle, -, -⟩ := hrounded 1001 _ hwriter
  obtain ⟨last, hlast, hloops, -⟩ := hsettled ⟨[4, 1], rfl⟩ _ _ rfl hfirst 3
  exact ⟨_, _, hwriter, rfl, hfirst, ⟨stored, reader, hstored, hreader, hpositive, hle⟩, last,
    hlast, hloops⟩

end SealedArchive.Settings
