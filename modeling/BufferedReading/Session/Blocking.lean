import BufferedReading.Session.Operation

/-!
# Sessions with a source that is waited for

A `Session` holds a reader, the lines split from it or the bare source, and an accumulator.
`Session.performWithin` carries out one operation over any source, with a bound on the rounds of its
loops; over a finite source `Session.perform` needs no bound.
-/

namespace BufferedReading

/-- What a session holds. -/
inductive Holding (σ : Type) where
  /-- A reader. -/
  | reader (reader : Reader σ)
  /-- The lines split from a reader. -/
  | splitter (splitter : Splitter σ)
  /-- A bare source. -/
  | source (source : σ)

/-- A session: what it holds, and an accumulator. -/
structure Session (σ : Type) where
  /-- What the session holds. -/
  holding : Holding σ
  /-- The accumulator. -/
  out : Bytes := #[]

namespace Reader

variable {σ : Type} [ByteSource σ]

/-- Hands a buffer to the source as the owner of the source may do, past the window and without a
record. -/
def readSource (r : Reader σ) (buffer : Bytes) : Call (Reader σ) (Except Failure Nat) :=
  match ByteSource.read r.source buffer.size with
  | (.supplied written count, source) => ⟨.ok count, buffer.overwrite 0 written, { r with source }⟩
  | (.failed cause, source) => ⟨.error cause, buffer, { r with source }⟩

end Reader

namespace Session

variable {σ : Type}

/-- The session that begins to read a source. -/
def start? (source : σ) (start : Start) : Except (Stop ReadError) (Session σ) :=
  match start.reader? source with
  | .error e => .error e
  | .ok reader =>
    match start with
    | .lines delim => .ok { holding := .splitter (reader.split delim) }
    | _ => .ok { holding := .reader reader }

/-- A session begins with a reader of any capacity that an array can have. -/
theorem start?_ofCapacity (source : σ) (capacity : Nat)
    (h : (Config.ofCapacity capacity).capacity ≤ maxSize) :
    start? source (.ofCapacity capacity) =
      .ok { holding := .reader (.ofCapacity source capacity) } := by
  rw [start?, Start.reader?, Reader.allocate, if_pos h]
  rfl

/-- The reader that a session holds, if it holds one. -/
def reader? (s : Session σ) : Option (Reader σ) :=
  match s.holding with
  | .reader reader => some reader
  | _ => none

/-- The source of a session, whatever it stands in. -/
def source (s : Session σ) : σ :=
  match s.holding with
  | .reader reader => reader.source
  | .splitter splitter => splitter.reader.source
  | .source source => source

/-- The journal of the reader in a session. -/
def journal (s : Session σ) : Journal :=
  match s.holding with
  | .reader reader => reader.journal
  | .splitter splitter => splitter.reader.journal
  | .source _ => #[]

/-- The session with another reader. -/
def withReader (s : Session σ) (reader : Reader σ) : Session σ :=
  { s with holding := .reader reader }

/-- The session with another splitter. -/
def withSplitter (s : Session σ) (splitter : Splitter σ) : Session σ :=
  { s with holding := .splitter splitter }

/-- The session with a bare source. -/
def withSource (s : Session σ) (source : σ) : Session σ :=
  { s with holding := .source source }

/-- Passes over as many unread bytes of a reader as its caller says. A fault leaves the session as
it was. -/
def passOver (s : Session σ) (r : Reader σ) (count : Nat) : Reply × Session σ :=
  match r.consume count with
  | .ok r => (.done, s.withReader r)
  | .error fault => (.faulted fault, s)

/-- Bytes are passed over if the place behind them is a word. -/
theorem passOver_of_lt (s : Session σ) {r : Reader σ} {count : Nat}
    (h : r.window.readPos + count < wordSize) :
    s.passOver r count = (.done, s.withReader (r.skip count)) := by
  rw [passOver, Reader.consume_of_lt h]

/-- They are passed over exactly then. -/
theorem passOver_cases (s : Session σ) (r : Reader σ) (count : Nat) :
    (r.window.readPos + count < wordSize ∧
        s.passOver r count = (.done, s.withReader (r.skip count))) ∨
      (wordSize ≤ r.window.readPos + count ∧ s.passOver r count = (.faulted .overflow, s)) := by
  rcases Nat.lt_or_ge (r.window.readPos + count) wordSize with h | h
  · exact .inl ⟨h, s.passOver_of_lt h⟩
  · exact .inr ⟨h, by rw [passOver, Reader.consume_of_le h]⟩

/-! ### Any source -/

section Rounds

variable [ByteSource σ]

/-- Carries out an operation on a reader. -/
def onReader (rounds : Nat) (s : Session σ) (r : Reader σ) :
    Operation → Option (Reply × Session σ)
  | .read buffer =>
    let call := r.read buffer
    some (.count call.result call.buffer, s.withReader call.reader)
  | .readPlain buffer =>
    let call := r.readPlain buffer
    some (.plainCount call.result call.buffer, s.withReader call.reader)
  | .readSource buffer =>
    let call := r.readSource buffer
    some (.plainCount call.result call.buffer, s.withReader call.reader)
  | .readExact buffer =>
    let call := r.readExact buffer
    some (.filled call.result call.buffer, s.withReader call.reader)
  | .fill buffer =>
    (Reader.fillWithin rounds r #[] buffer).map fun call =>
      (.plainFilled call.result call.buffer, s.withReader call.reader)
  | .readByte =>
    let (result, reader) := r.readByte
    some (.byte result, s.withReader reader)
  | .readLine delim =>
    (Reader.lineWithin rounds (.start delim r.config.lineLimit) r #[]).map fun call =>
      (.line (call.result.map fun complete => ⟨call.buffer, complete⟩),
        s.withReader call.reader)
  | .readLineInto delim =>
    (Reader.lineWithin rounds (.start delim r.config.lineLimit) r s.out).map fun call =>
      (.appended call.result call.buffer, { holding := .reader call.reader, out := call.buffer })
  | .readUntil delim =>
    (Reader.untilWithin delim rounds r s.out 0).map fun call =>
      (.plainAppended call.result call.buffer,
        { holding := .reader call.reader, out := call.buffer })
  | .fillBuffer =>
    let (result, reader) := r.fillBuffer
    some (.available result, s.withReader reader)
  | .consume count => some (s.passOver r count)
  | .unread => some (.bytes r.unread, s)
  | .describe => some (.described, s)
  | .split delim => some (.done, s.withSplitter (r.split delim))
  | .release => some (.released, s.withSource r.source)
  | _ => some (.misuse, s)

theorem onReader_consume (rounds : Nat) (s : Session σ) (r : Reader σ) (count : Nat) :
    onReader rounds s r (.consume count) = some (s.passOver r count) := rfl

/-- Carries out an operation on the lines split from a reader. -/
def onSplitter (rounds : Nat) (s : Session σ) (splitter : Splitter σ) :
    Operation → Option (Reply × Session σ)
  | .next =>
    (splitter.nextWithin rounds).map fun (item, splitter) => (.item item, s.withSplitter splitter)
  | .collect =>
    (splitter.foldWithin Array.push rounds #[]).map fun (items, splitter) =>
      (.items items true, s.withSplitter splitter)
  | .delimiter => some (.delimiter splitter.delim, s)
  | .reclaim => some (.done, s.withReader splitter.reader)
  | _ => some (.misuse, s)

/-- Carries out an operation on a bare source. -/
def onSource (s : Session σ) (source : σ) : Operation → Reply × Session σ
  | .wrap start =>
    match start? source start with
    | .ok fresh => (.wrapped (.ok ()), { fresh with out := s.out })
    | .error e => (.wrapped (.error e), s)
  | _ => (.misuse, s)

/-- Carries out an operation, with at most `rounds` rounds in each of its loops. -/
def performWithin (rounds : Nat) (s : Session σ) (op : Operation) :
    Option (Reply × Session σ) :=
  if op = .takeOut then some (.bytes s.out, { s with out := #[] })
  else
    match s.holding with
    | .reader r => s.onReader rounds r op
    | .splitter splitter => s.onSplitter rounds splitter op
    | .source source => some (s.onSource source op)

end Rounds

/-! ### Finite sources -/

variable [FiniteSource σ]

/-- A number of rounds that is enough for every operation of a session. -/
def rounds (s : Session σ) : Nat :=
  match s.holding with
  | .reader reader => reader.stock + 2
  | .splitter splitter => splitter.reader.stock + 2
  | .source _ => 0

/-- Every operation on a reader comes to an end within a number of rounds above the stock. -/
theorem onReader_isSome {rounds : Nat} (s : Session σ) {r : Reader σ} (h : r.stock < rounds)
    (op : Operation) : (s.onReader rounds r op).isSome := by
  cases op with
  | fill buffer =>
    exact Option.isSome_map.trans (Reader.fillWithin_isSome rounds r #[] buffer h)
  | readLine delim => exact Option.isSome_map.trans (Reader.lineWithin_isSome rounds _ r #[] h)
  | readLineInto delim =>
    exact Option.isSome_map.trans (Reader.lineWithin_isSome rounds _ r s.out h)
  | readUntil delim =>
    exact Option.isSome_map.trans (Reader.untilWithin_isSome delim rounds r s.out 0 h)
  | _ => rfl

/-- Every operation on lines comes to an end within a number of rounds above the stock and one. -/
theorem onSplitter_isSome {rounds : Nat} (s : Session σ) {splitter : Splitter σ}
    (h : splitter.reader.stock + 1 < rounds) (op : Operation) :
    (s.onSplitter rounds splitter op).isSome := by
  cases op with
  | next => exact Option.isSome_map.trans (Splitter.nextWithin_isSome rounds splitter (by omega))
  | collect =>
    exact Option.isSome_map.trans (Splitter.foldWithin_isSome _ rounds #[] splitter (.inr h))
  | _ => rfl

/-- Every operation comes to an end within these rounds. -/
theorem performWithin_rounds_isSome (s : Session σ) (op : Operation) :
    (s.performWithin s.rounds op).isSome := by
  unfold performWithin
  split
  · rfl
  · unfold rounds
    cases s.holding with
    | reader r => exact onReader_isSome s (Nat.lt_succ_of_le (Nat.le_succ _)) op
    | splitter splitter => exact onSplitter_isSome s (Nat.lt_succ_self _) op
    | source source => rfl

/-- Carries out an operation. -/
def perform (s : Session σ) (op : Operation) : Reply × Session σ :=
  (s.performWithin s.rounds op).get (performWithin_rounds_isSome s op)

/-- Carries out operations in turn, and lists their replies. -/
def performAll (s : Session σ) : List Operation → List Reply × Session σ
  | [] => ([], s)
  | op :: ops =>
    let (reply, s) := s.perform op
    let (replies, s) := performAll s ops
    (reply :: replies, s)

end Session

end BufferedReading
