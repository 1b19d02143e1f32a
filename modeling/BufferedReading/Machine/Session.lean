import BufferedReading.Machine.Reader
import BufferedReading.Session.Blocking
import BufferedReading.Session.Polled

/-!
# Sessions of a machine

A `RawSession` holds the reader of a machine, its lines or its bare source, and an accumulator. It
carries out the operations of a session in machine words. A session that polls makes a stream of its
reader when it is split; a session that waits makes a splitter, never needs a second attempt and is
otherwise the same.
-/

namespace BufferedReading

/-- A reader of a machine that is read line by line. -/
structure RawSplitter (σ : Type) where
  /-- Where the lines come from. -/
  reader : RawReader σ
  /-- The byte that ends a line. -/
  delim : UInt8
  /-- Whether nothing more is to be yielded. -/
  finished : Bool

/-- A reader of a machine that is read line by line, with the line under way. -/
structure RawStream (σ : Type) where
  /-- Where the lines come from. -/
  reader : RawReader σ
  /-- The byte that ends a line. -/
  delim : UInt8
  /-- The search for the end of the line under way. -/
  scan : Scan
  /-- The bytes of the line under way. -/
  pending : Bytes
  /-- Whether nothing more is to be yielded. -/
  finished : Bool

/-- What a session of a machine holds. -/
inductive RawHolding (σ : Type) where
  /-- A reader. -/
  | reader (reader : RawReader σ)
  /-- The lines split from a reader that is waited for. -/
  | splitter (splitter : RawSplitter σ)
  /-- The lines of a reader that is polled. -/
  | stream (stream : RawStream σ)
  /-- A bare source. -/
  | source (source : σ)

/-- A session of a machine: what it holds, and an accumulator. -/
structure RawSession (σ : Type) where
  /-- What the session holds. -/
  holding : RawHolding σ
  /-- The accumulator. -/
  out : Bytes

/-- The ways to make lines of a reader. -/
inductive Mode where
  /-- The source is waited for, and a reader is split into lines by a splitter. -/
  | waits
  /-- The source is polled, and the lines of a reader are a stream. -/
  | polls
  deriving DecidableEq, Repr

/-- The lines of a reader. -/
def Mode.lines {σ : Type} (mode : Mode) (reader : RawReader σ) (delim : UInt8) : RawHolding σ :=
  match mode with
  | waits => .splitter ⟨reader, delim, false⟩
  | polls => .stream ⟨reader, delim, .start delim reader.config.lineLimit, #[], false⟩

/-- The reader of a session is in order, and the search for the end of a line under way has taken no
more than its limit allows. -/
def RawSession.InOrder {σ : Type} (s : RawSession σ) : Prop :=
  match s.holding with
  | .reader r => r.InOrder
  | .splitter splitter => splitter.reader.InOrder
  | .stream stream => stream.reader.InOrder ∧ stream.scan.WithinLimit
  | .source _ => True

/-! ### Lines -/

namespace RawSplitter

variable {σ : Type}

/-- The item that a read up to the delimiter yields, and the splitter behind it. -/
def conclude (delim : UInt8)
    (outcome : Poll (Except ReadError Bool) × (Scan × Bytes) × RawReader σ) :
    Poll (Option Item) × RawSplitter σ :=
  let (result, (_, out), reader) := outcome
  match result with
  | .pending => (.pending, ⟨reader, delim, false⟩)
  | .ready (.ok true) => (.ready (some (.ok ⟨out, true⟩)), ⟨reader, delim, false⟩)
  | .ready (.ok false) =>
    (.ready (if out.isEmpty then none else some (.ok ⟨out, false⟩)), ⟨reader, delim, true⟩)
  | .ready (.error e) => (.ready (some (.error e)), ⟨reader, delim, true⟩)

/-- The next item. -/
def next [PolledSource σ] (rounds : Nat) (s : RawSplitter σ) :
    Checked (Option (Poll (Option Item) × RawSplitter σ)) :=
  if s.finished then pure (some (.ready none, s))
  else do
    let outcome? ← s.reader.pollLine rounds (.start s.delim s.reader.config.lineLimit) #[]
    pure (outcome?.map (conclude s.delim))

/-- All items still to come, at most `rounds` of them, behind those given. -/
def collect [PolledSource σ] : Nat → Array Item → RawSplitter σ →
    Checked (Option (Poll (Array Item) × RawSplitter σ))
  | 0, _, _ => pure none
  | rounds + 1, items, s => do
    match ← s.next rounds with
    | none => pure none
    | some (.pending, s) => pure (some (.pending, s))
    | some (.ready none, s) => pure (some (.ready items, s))
    | some (.ready (some item), s) => collect rounds (items.push item) s

end RawSplitter

namespace RawStream

variable {σ : Type}

/-- What an attempt at a read up to the delimiter yields, and the stream behind it. -/
def conclude (delim : UInt8)
    (outcome : Poll (Except ReadError Bool) × (Scan × Bytes) × RawReader σ) :
    Poll (Option Item) × RawStream σ :=
  let (result, (scan, out), reader) := outcome
  match result with
  | .pending => (.pending, ⟨reader, delim, scan, out, false⟩)
  | .ready (.ok true) =>
    (.ready (some (.ok ⟨out, true⟩)), ⟨reader, delim, scan.reset, #[], false⟩)
  | .ready (.ok false) =>
    (.ready (if out.isEmpty then none else some (.ok ⟨out, false⟩)),
      ⟨reader, delim, scan.reset, #[], true⟩)
  | .ready (.error e) => (.ready (some (.error e)), ⟨reader, delim, scan.reset, out, true⟩)

/-- An attempt at the next item. -/
def pollNext [PolledSource σ] (rounds : Nat) (s : RawStream σ) :
    Checked (Option (Poll (Option Item) × RawStream σ)) :=
  if s.finished then pure (some (.ready none, s))
  else do
    let outcome? ← s.reader.pollLine rounds s.scan s.pending
    pure (outcome?.map (conclude s.delim))

/-- Attempts at all items still to come, at most so many, and whether the end was reached. The items
are put behind those given. -/
def harvest [PolledSource σ] (rounds : Nat) : Nat → Array Item → RawStream σ →
    Checked (Option (Array Item × Bool × RawStream σ))
  | 0, items, s => pure (some (items, false, s))
  | attempts + 1, items, s => do
    match ← s.pollNext rounds with
    | none => pure none
    | some (.pending, s) => harvest rounds attempts items s
    | some (.ready none, s) => pure (some (items, true, s))
    | some (.ready (some item), s) => harvest rounds attempts (items.push item) s

end RawStream

/-! ### Operations -/

namespace RawSession

variable {σ : Type}

/-- The session with another reader. -/
def withReader (s : RawSession σ) (reader : RawReader σ) : RawSession σ :=
  { s with holding := .reader reader }

/-- Begins to read a source. -/
def start? (mode : Mode) (source : σ) (start : Start) :
    Except (Stop ReadError) (RawSession σ) :=
  (start.reader? source).map fun reader =>
    match start with
    | .lines delim => ⟨mode.lines reader.raw delim, #[]⟩
    | _ => ⟨.reader reader.raw, #[]⟩

variable [PolledSource σ]

/-- The attempts of a read that works on a buffer. -/
def driveBuffer {α : Type} (attempt : RawReader σ → Bytes → Checked (Call (RawReader σ) (Poll α)))
    (attempts : Nat) (r : RawReader σ) (buffer : Bytes) :
    Checked (Option (Poll α × Bytes × RawReader σ)) :=
  Checked.drive
    (fun (buffer, r) => do
      let call ← attempt r buffer
      pure (some (call.result, call.buffer, call.reader)))
    attempts (buffer, r)

/-- The attempts of a read that works on the reader alone. -/
def driveReader {α : Type} (attempt : RawReader σ → Checked (Poll α × RawReader σ))
    (attempts : Nat) (r : RawReader σ) : Checked (Option (Poll α × RawReader σ)) :=
  Checked.drive (fun r => some <$> attempt r) attempts r

/-- The attempts of a read that fills a buffer. -/
def driveExact (attempts : Nat) (r : RawReader σ) (buffer : Bytes) :
    Checked (Option (Poll (Except (Stop ReadError) Unit) × (Bytes × Nat) × RawReader σ)) :=
  Checked.drive (fun ((buffer, filled), r) => some <$> r.pollExact buffer filled)
    attempts ((buffer, 0), r)

/-- The attempts of a delimiter read. -/
def driveLine (rounds attempts : Nat) (r : RawReader σ) (delim : UInt8) (out : Bytes) :
    Checked (Option (Poll (Except ReadError Bool) × (Scan × Bytes) × RawReader σ)) :=
  Checked.drive (fun ((scan, out), r) => r.pollLine rounds scan out) attempts
    ((.start delim r.config.lineLimit, out), r)

open PolledSession (settle)

/-- Carries out an operation on a reader. -/
def onReader (mode : Mode) (rounds attempts : Nat) (s : RawSession σ) (r : RawReader σ) :
    Operation → Checked (Option (Reply × RawSession σ))
  | .read buffer => do
    let outcome? ← driveBuffer RawReader.pollRead attempts r buffer
    pure (outcome?.map fun (result, buffer, r) =>
      (settle none (.count · buffer) result, s.withReader r))
  | .readPlain buffer => do
    let outcome? ← driveBuffer RawReader.pollRead attempts r buffer
    pure (outcome?.map fun (result, buffer, r) =>
      (settle none (fun result => .plainCount (result.mapError ReadError.toFailure) buffer) result,
        s.withReader r))
  | .readSource buffer => do
    let outcome? ← driveBuffer RawReader.pollSource attempts r buffer
    pure (outcome?.map fun (result, buffer, r) =>
      (settle none (.plainCount · buffer) result, s.withReader r))
  | .readExact buffer => do
    let outcome? ← driveExact attempts r buffer
    pure (outcome?.map fun (result, (buffer, _), r) =>
      (settle (some buffer) (.filled · buffer) result, s.withReader r))
  | .fill buffer =>
    match mode with
    | .polls => pure (some (.misuse, s))
    | .waits => do
      let outcome? ← r.fill rounds #[] buffer
      pure (outcome?.map fun (result, buffer, r) =>
        (settle (some buffer) (.plainFilled · buffer) result, s.withReader r))
  | .readByte => do
    let outcome? ← driveReader RawReader.pollByte attempts r
    pure (outcome?.map fun (result, r) => (settle none .byte result, s.withReader r))
  | .readLine delim => do
    let outcome? ← driveLine rounds attempts r delim #[]
    pure (outcome?.map fun (result, (_, out), r) =>
      (settle none (fun result => .line (result.map fun complete => ⟨out, complete⟩)) result,
        s.withReader r))
  | .readLineInto delim => do
    let outcome? ← driveLine rounds attempts r delim s.out
    pure (outcome?.map fun (result, (_, out), r) =>
      (settle (some out) (.appended · out) result, ⟨.reader r, out⟩))
  | .readUntil delim =>
    match mode with
    | .polls => pure (some (.misuse, s))
    | .waits => do
      let outcome? ← r.readUntil delim rounds s.out 0
      pure (outcome?.map fun (result, out, r) =>
        (settle (some out) (.plainAppended · out) result, ⟨.reader r, out⟩))
  | .fillBuffer => do
    let outcome? ← driveReader RawReader.pollFillBuffer attempts r
    pure (outcome?.map fun (result, r) => (settle none .available result, s.withReader r))
  | .consume count =>
    if wordSize ≤ r.window.readPos + count then .excuse .farConsume
    else do
      let window ← r.window.consume count
      pure (some (.done, s.withReader { r with window }))
  | .unread => do
    let unread ← r.window.unread
    pure (some (.bytes unread, s))
  | .describe => do
    let _ ← r.window.buffered
    pure (some (.described, s))
  | .split delim => pure (some (.done, { s with holding := mode.lines r delim }))
  | .release => pure (some (.released, { s with holding := .source r.source }))
  | _ => pure (some (.misuse, s))

/-- Carries out an operation on the lines split from a reader. -/
def onSplitter (rounds attempts : Nat) (s : RawSession σ) (splitter : RawSplitter σ) :
    Operation → Checked (Option (Reply × RawSession σ))
  | .next => do
    let outcome? ← Checked.drive (RawSplitter.next rounds) attempts splitter
    pure (outcome?.map fun (result, splitter) =>
      (settle none .item result, { s with holding := .splitter splitter }))
  | .collect => do
    let outcome? ← splitter.collect rounds #[]
    pure (outcome?.map fun (result, splitter) =>
      (settle none (.items · true) result, { s with holding := .splitter splitter }))
  | .delimiter => pure (some (.delimiter splitter.delim, s))
  | .reclaim => pure (some (.done, s.withReader splitter.reader))
  | _ => pure (some (.misuse, s))

/-- Carries out an operation on the lines of a reader that is polled. -/
def onStream (rounds attempts : Nat) (s : RawSession σ) (stream : RawStream σ) :
    Operation → Checked (Option (Reply × RawSession σ))
  | .next => do
    let outcome? ← Checked.drive (RawStream.pollNext rounds) attempts stream
    pure (outcome?.map fun (result, stream) =>
      (settle none .item result, { s with holding := .stream stream }))
  | .collect => do
    let outcome? ← stream.harvest rounds attempts #[]
    pure (outcome?.map fun (items, ended, stream) =>
      (.items items ended, { s with holding := .stream stream }))
  | .delimiter => pure (some (.delimiter stream.delim, s))
  | .reclaim => pure (some (.done, s.withReader stream.reader))
  | _ => pure (some (.misuse, s))

/-- Carries out an operation on a bare source. -/
def onSource (mode : Mode) (s : RawSession σ) (source : σ) : Operation → Reply × RawSession σ
  | .wrap start =>
    match start? mode source start with
    | .ok fresh => (.wrapped (.ok ()), { fresh with out := s.out })
    | .error e => (.wrapped (.error e), s)
  | _ => (.misuse, s)

/-- Carries out an operation with at most so many attempts, each with at most `rounds` rounds in its
loops. -/
def perform (mode : Mode) (rounds attempts : Nat) (s : RawSession σ) (op : Operation) :
    Checked (Option (Reply × RawSession σ)) :=
  if op = .takeOut then pure (some (.bytes s.out, { s with out := #[] }))
  else
    match s.holding with
    | .reader r => s.onReader mode rounds attempts r op
    | .splitter splitter => s.onSplitter rounds attempts splitter op
    | .stream stream => s.onStream rounds attempts stream op
    | .source source => pure (some (s.onSource mode source op))

/-- Carries out operations in turn, each with its own number of attempts, and lists their replies
and the sessions behind them. -/
def trace (mode : Mode) (rounds : Nat) :
    RawSession σ → List (Operation × Nat) → Checked (Option (List (Reply × RawSession σ)))
  | _, [] => pure (some [])
  | s, (op, attempts) :: ops => do
    match ← s.perform mode rounds attempts op with
    | none => pure none
    | some (reply, s') => do
      let later? ← trace mode rounds s' ops
      pure (later?.map ((reply, s') :: ·))

end RawSession

/-! ### Sessions as a machine has them -/

section Raw

variable {σ : Type}

/-- The splitter as a machine has it. -/
def Splitter.raw (s : Splitter σ) : RawSplitter σ := ⟨s.reader.raw, s.delim, s.finished⟩

/-- The stream as a machine has it. -/
def LineStream.raw (s : LineStream σ) : RawStream σ :=
  ⟨s.reader.raw, s.delim, s.scan, s.pending, s.finished⟩

/-- The session as a machine has it. -/
def Session.raw (s : Session σ) : RawSession σ where
  holding :=
    match s.holding with
    | .reader r => .reader r.raw
    | .splitter splitter => .splitter splitter.raw
    | .source source => .source source
  out := s.out

/-- The session as a machine has it. -/
def PolledSession.raw (s : PolledSession σ) : RawSession σ where
  holding :=
    match s.holding with
    | .reader r => .reader r.raw
    | .stream stream => .stream stream.raw
    | .source source => .source source
  out := s.out

end Raw

end BufferedReading
