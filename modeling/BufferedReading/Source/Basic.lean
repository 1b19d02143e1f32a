import BufferedReading.Bytes
import BufferedReading.Failure

/-!
# Sources of bytes

A source is a machine: asked for at most so many bytes it answers and moves on. `Source.Answer` is
an answer of a source that can be waited for, and `Poll` adds the answer "not yet" of one that
cannot. The classes `ByteSource` and `PolledSource` say how a type of states answers; nothing else
about a source is known to a reader. A source may claim to have written more bytes than it did, or
more than the buffer could take, and nothing in the classes rules this out.

`FiniteSource` and `FinitePolledSource` are the sources that cannot go on for ever: every answer
after which a reader may ask again uses up some of a finite supply.
-/

namespace BufferedReading

/-- What a source does with a buffer of a known size. -/
inductive Answer where
  /-- It writes bytes at the start of the buffer and reports a count, zero for the end of the
  stream. -/
  | supplied (written : Bytes) (count : Nat)
  /-- It fails and writes nothing. -/
  | failed (cause : Failure)
  deriving DecidableEq, Repr, Inhabited

namespace Answer

/-- The answer that writes the given bytes and counts them. -/
def honest (bytes : Bytes) : Answer := .supplied bytes bytes.size

/-- Whether an answer ends every loop that meets it: the end of the stream, or a failure that is no
mere interruption. -/
def isFinal : Answer → Bool
  | supplied _ count => count == 0
  | failed cause => !cause.isInterruption

end Answer

/-- The result of an attempt that may have to wait. -/
inductive Poll (α : Type) where
  /-- Nothing yet; a later attempt may do better. -/
  | pending
  /-- The attempt has come to its end. -/
  | ready (value : α)
  deriving DecidableEq, Repr

namespace Poll

instance {α : Type} : Inhabited (Poll α) := ⟨.pending⟩

/-- Whether an attempt has come to its end. -/
def isReady {α : Type} : Poll α → Bool
  | pending => false
  | ready _ => true

/-- The attempt with its value changed. -/
def map {α β : Type} (f : α → β) : Poll α → Poll β
  | pending => pending
  | ready a => ready (f a)

/-- Makes attempts, at most so many, until one is ready. The result is that of the last attempt,
with the number of attempts made and the state they left; it is missing if an attempt has no
outcome. -/
def drive {ς α : Type} (attempt : ς → Option (Poll α × ς)) : Nat → Nat → ς →
    Option (Poll α × Nat × ς)
  | 0, made, s => some (.pending, made, s)
  | attempts + 1, made, s =>
    match attempt s with
    | none => none
    | some (.pending, s) => drive attempt attempts (made + 1) s
    | some (.ready a, s) => some (.ready a, made + 1, s)

/-- What a loop of attempts comes to, if an attempt that is put off keeps an invariant `P` of the
number of attempts made and the state, and one that comes to its end has a result as `Q` says. -/
theorem drive_induction {ς α : Type} {attempt : ς → Option (Poll α × ς)} (P : Nat → ς → Prop)
    (Q : Nat → α → ς → Prop)
    (hstep : ∀ n s p s', P n s → attempt s = some (p, s') →
      match p with
      | .pending => P (n + 1) s'
      | .ready a => Q (n + 1) a s')
    {attempts made total : Nat} {s s' : ς} {p : Poll α} (hs : P made s)
    (h : drive attempt attempts made s = some (p, total, s')) :
    match p with
    | .pending => total = made + attempts ∧ P total s'
    | .ready a => total ≤ made + attempts ∧ Q total a s' := by
  induction attempts generalizing made s with
  | zero =>
    simp only [drive, Option.some.injEq, Prod.mk.injEq] at h
    obtain ⟨rfl, rfl, rfl⟩ := h
    exact ⟨rfl, hs⟩
  | succ attempts ih =>
    cases hattempt : attempt s with
    | none => simp [drive, hattempt] at h
    | some outcome =>
      obtain ⟨result, next⟩ := outcome
      have hnext := hstep made s result next hs hattempt
      simp only [drive, hattempt] at h
      cases result with
      | ready a =>
        simp only [Option.some.injEq, Prod.mk.injEq] at h
        obtain ⟨rfl, rfl, rfl⟩ := h
        exact ⟨by omega, hnext⟩
      | pending =>
        have hlater := ih hnext h
        cases p with
        | pending => exact ⟨by omega, hlater.2⟩
        | ready a => exact ⟨by omega, hlater.2⟩

/-- Attempts that always have an outcome while `P` holds, and keep `P` when they are put off, yield
a result. -/
theorem drive_isSome {ς α : Type} {attempt : ς → Option (Poll α × ς)} (P : ς → Prop)
    (hsome : ∀ s, P s → (attempt s).isSome)
    (hkeep : ∀ s s', P s → attempt s = some (.pending, s') → P s') (attempts made : Nat) (s : ς)
    (h : P s) : (drive attempt attempts made s).isSome := by
  induction attempts generalizing made s with
  | zero => rfl
  | succ attempts ih =>
    have := hsome s h
    simp only [drive]
    split
    · next hn => simp [hn] at this
    · next s' hs => exact ih _ _ (hkeep _ _ h hs)
    · rfl

end Poll

/-- A source whose answers are waited for. -/
class ByteSource (σ : Type) where
  /-- The answer to a request for at most so many bytes, and the source after it. -/
  read : σ → Nat → Answer × σ

/-- A source that may ask to be tried again later. -/
class PolledSource (σ : Type) where
  /-- The answer to an attempt to get at most so many bytes, and the source after it. -/
  poll : σ → Nat → Poll Answer × σ

/-- A source that cannot keep a loop going for ever. -/
class FiniteSource (σ : Type) extends ByteSource σ where
  /-- A bound on the answers still to come before a final one. -/
  supply : σ → Nat
  /-- Every answer that is not final lowers the bound. -/
  supply_read_lt : ∀ (s : σ) (n : Nat),
    (read s n).1.isFinal = false → supply (read s n).2 < supply s

/-- A polled source that cannot keep a loop going for ever. -/
class FinitePolledSource (σ : Type) extends PolledSource σ where
  /-- A bound on the answers still to come before a final one. -/
  pollSupply : σ → Nat
  /-- Every answer that is not final, and every delay, lowers the bound. -/
  pollSupply_poll_lt : ∀ (s : σ) (n : Nat),
    (∀ a, (poll s n).1 = .ready a → a.isFinal = false) → pollSupply (poll s n).2 < pollSupply s

export FiniteSource (supply)
export FinitePolledSource (pollSupply)

end BufferedReading
