import BufferedReading.Session.Operation

/-!
# Sessions with a source that is polled

A `PolledSession` holds a reader, the lines made of it or the bare source, and an accumulator. An
operation is attempted a given number of times; if it is still put off then, it is given up. Giving
up a read loses only what the read itself kept: the bytes of a line that was to be returned, the
place reached in a buffer. Bytes appended to the accumulator stay there, and a stream of lines keeps
its line under way.
-/

namespace BufferedReading

/-- What a polled session holds. -/
inductive PolledHolding (σ : Type) where
  /-- A reader. -/
  | reader (reader : Reader σ)
  /-- The lines of a reader. -/
  | stream (stream : LineStream σ)
  /-- A bare source. -/
  | source (source : σ)

/-- A polled session: what it holds, and an accumulator. -/
structure PolledSession (σ : Type) where
  /-- What the session holds. -/
  holding : PolledHolding σ
  /-- The accumulator. -/
  out : Bytes := #[]

/-- What an operation of a polled session comes to. -/
structure Performance (σ : Type) where
  /-- The answer. -/
  reply : Reply
  /-- The number of attempts made. -/
  attempts : Nat
  /-- The session after the operation. -/
  session : PolledSession σ

namespace Reader

variable {σ : Type} [PolledSource σ]

/-- Polls the source with a buffer as the owner of the source may do, past the window and without a
record. -/
def pollSource (r : Reader σ) (buffer : Bytes) : Call (Reader σ) (Poll (Except Failure Nat)) :=
  match PolledSource.poll r.source buffer.size with
  | (.pending, source) => ⟨.pending, buffer, { r with source }⟩
  | (.ready (.supplied written count), source) =>
    ⟨.ready (.ok count), buffer.overwrite 0 written, { r with source }⟩
  | (.ready (.failed cause), source) => ⟨.ready (.error cause), buffer, { r with source }⟩

end Reader

namespace PolledSession

variable {σ : Type}

/-- The session that begins to read a source. -/
def start? (source : σ) (start : Start) : Except (Stop ReadError) (PolledSession σ) :=
  match start.reader? source with
  | .error e => .error e
  | .ok reader =>
    match start with
    | .lines delim => .ok { holding := .stream (reader.lines delim) }
    | _ => .ok { holding := .reader reader }

/-- A session begins with a reader of any capacity that an array can have. -/
theorem start?_ofCapacity (source : σ) (capacity : Nat)
    (h : (Config.ofCapacity capacity).capacity ≤ maxSize) :
    start? source (.ofCapacity capacity) =
      .ok { holding := .reader (.ofCapacity source capacity) } := by
  rw [start?, Start.reader?, Reader.allocate, if_pos h]
  rfl

/-- The reader that a session holds, if it holds one. -/
def reader? (s : PolledSession σ) : Option (Reader σ) :=
  match s.holding with
  | .reader reader => some reader
  | _ => none

/-- The source of a session, whatever it stands in. -/
def source (s : PolledSession σ) : σ :=
  match s.holding with
  | .reader reader => reader.source
  | .stream stream => stream.reader.source
  | .source source => source

/-- The journal of the reader in a session. -/
def journal (s : PolledSession σ) : Journal :=
  match s.holding with
  | .reader reader => reader.journal
  | .stream stream => stream.reader.journal
  | .source _ => #[]

/-- The session with another reader. -/
def withReader (s : PolledSession σ) (reader : Reader σ) : PolledSession σ :=
  { s with holding := .reader reader }

/-- The session with another stream of lines. -/
def withStream (s : PolledSession σ) (stream : LineStream σ) : PolledSession σ :=
  { s with holding := .stream stream }

/-- The session with a bare source. -/
def withSource (s : PolledSession σ) (source : σ) : PolledSession σ :=
  { s with holding := .source source }

/-- The answer of an operation that needs no attempt. -/
def atOnce (reply : Reply) (s : PolledSession σ) : Performance σ := ⟨reply, 0, s⟩

/-- Passes over as many unread bytes of a reader as its caller says. A fault leaves the session as
it was. -/
def passOver (s : PolledSession σ) (r : Reader σ) (count : Nat) : Performance σ :=
  match r.consume count with
  | .ok r => atOnce .done (s.withReader r)
  | .error fault => atOnce (.faulted fault) s

/-- Bytes are passed over if the place behind them is a word. -/
theorem passOver_of_lt (s : PolledSession σ) {r : Reader σ} {count : Nat}
    (h : r.window.readPos + count < wordSize) :
    s.passOver r count = atOnce .done (s.withReader (r.skip count)) := by
  rw [passOver, Reader.consume_of_lt h]

/-- They are passed over exactly then. -/
theorem passOver_cases (s : PolledSession σ) (r : Reader σ) (count : Nat) :
    (r.window.readPos + count < wordSize ∧
        s.passOver r count = atOnce .done (s.withReader (r.skip count))) ∨
      (wordSize ≤ r.window.readPos + count ∧
        s.passOver r count = atOnce (.faulted .overflow) s) := by
  rcases Nat.lt_or_ge (r.window.readPos + count) wordSize with h | h
  · exact .inl ⟨h, s.passOver_of_lt h⟩
  · exact .inr ⟨h, by rw [passOver, Reader.consume_of_le h]⟩

/-! ### Any source -/

section Rounds

variable [PolledSource σ]

/-- The attempts of a read that works on a buffer. -/
def driveBuffer {α : Type} (attempt : Reader σ → Bytes → Call (Reader σ) (Poll α)) (attempts : Nat)
    (r : Reader σ) (buffer : Bytes) : Option (Poll α × Nat × Bytes × Reader σ) :=
  Poll.drive
    (fun (buffer, r) =>
      let call := attempt r buffer
      some (call.result, call.buffer, call.reader))
    attempts 0 (buffer, r)

/-- The attempts of a read that works on the reader alone. -/
def driveReader {α : Type} (attempt : Reader σ → Poll α × Reader σ) (attempts : Nat)
    (r : Reader σ) : Option (Poll α × Nat × Reader σ) :=
  Poll.drive (fun r => some (attempt r)) attempts 0 r

/-- The attempts of a read that fills a buffer. -/
def driveExact (attempts : Nat) (r : Reader σ) (buffer : Bytes) :
    Option (Poll (Except (Stop ReadError) Unit) × Nat × (Bytes × Bytes) × Reader σ) :=
  Poll.drive
    (fun ((done, rest), r) =>
      let attempt := r.pollExact done rest
      some (attempt.result, (attempt.done, attempt.rest), attempt.reader))
    attempts 0 ((#[], buffer), r)

/-- The attempts of a delimiter read. -/
def driveLine (rounds attempts : Nat) (r : Reader σ) (delim : UInt8) (out : Bytes) :
    Option (Poll (Except ReadError Bool) × Nat × (Scan × Bytes) × Reader σ) :=
  Poll.drive
    (fun ((scan, out), r) =>
      (Reader.pollLineWithin rounds r scan out).map fun attempt =>
        (attempt.result, (attempt.scan, attempt.out), attempt.reader))
    attempts 0 ((.start delim r.config.lineLimit, out), r)

/-- The attempts at the next line. -/
def driveNext (rounds attempts : Nat) (stream : LineStream σ) :
    Option (Poll (Option Item) × Nat × LineStream σ) :=
  Poll.drive (LineStream.pollNextWithin rounds) attempts 0 stream

/-- The reply of a read that has come to its end, or that it is pending. -/
def settle {α : Type} (kept : Option Bytes) (reply : α → Reply) : Poll α → Reply
  | .pending => .pending kept
  | .ready a => reply a

/-- Carries out an operation on a reader. -/
def onReader (rounds attempts : Nat) (s : PolledSession σ) (r : Reader σ) :
    Operation → Option (Performance σ)
  | .read buffer =>
    (driveBuffer Reader.pollRead attempts r buffer).map fun (result, made, buffer, reader) =>
      ⟨settle none (.count · buffer) result, made, s.withReader reader⟩
  | .readPlain buffer =>
    (driveBuffer Reader.pollRead attempts r buffer).map fun (result, made, buffer, reader) =>
      ⟨settle none (fun result => .plainCount (result.mapError ReadError.toFailure) buffer) result,
        made, s.withReader reader⟩
  | .readSource buffer =>
    (driveBuffer Reader.pollSource attempts r buffer).map fun (result, made, buffer, reader) =>
      ⟨settle none (.plainCount · buffer) result, made, s.withReader reader⟩
  | .readExact buffer =>
    (driveExact attempts r buffer).map fun (result, made, (done, rest), reader) =>
      ⟨settle (some (done ++ rest)) (.filled · (done ++ rest)) result, made, s.withReader reader⟩
  | .readByte =>
    (driveReader Reader.pollByte attempts r).map fun (result, made, reader) =>
      ⟨settle none .byte result, made, s.withReader reader⟩
  | .readLine delim =>
    (driveLine rounds attempts r delim #[]).map fun (result, made, (_, out), reader) =>
      ⟨settle none (fun result => .line (result.map fun complete => ⟨out, complete⟩)) result, made,
        s.withReader reader⟩
  | .readLineInto delim =>
    (driveLine rounds attempts r delim s.out).map fun (result, made, (_, out), reader) =>
      ⟨settle (some out) (.appended · out) result, made, { holding := .reader reader, out }⟩
  | .fillBuffer =>
    (driveReader Reader.pollFillBuffer attempts r).map fun (result, made, reader) =>
      ⟨settle none .available result, made, s.withReader reader⟩
  | .consume count => some (s.passOver r count)
  | .unread => some (atOnce (.bytes r.unread) s)
  | .describe => some (atOnce .described s)
  | .split delim => some (atOnce .done (s.withStream (r.lines delim)))
  | .release => some (atOnce .released (s.withSource r.source))
  | _ => some (atOnce .misuse s)

theorem onReader_consume (rounds attempts : Nat) (s : PolledSession σ) (r : Reader σ)
    (count : Nat) : onReader rounds attempts s r (.consume count) = some (s.passOver r count) :=
  rfl

/-- Carries out an operation on the lines of a reader. -/
def onStream (rounds attempts : Nat) (s : PolledSession σ) (stream : LineStream σ) :
    Operation → Option (Performance σ)
  | .next =>
    (driveNext rounds attempts stream).map fun (result, made, stream) =>
      ⟨settle none .item result, made, s.withStream stream⟩
  | .collect =>
    (LineStream.harvestWithin rounds attempts #[] 0 stream).map fun harvest =>
      ⟨.items harvest.items harvest.ended, harvest.attempts, s.withStream harvest.stream⟩
  | .delimiter => some (atOnce (.delimiter stream.delim) s)
  | .reclaim => some (atOnce .done (s.withReader stream.reader))
  | _ => some (atOnce .misuse s)

/-- Carries out an operation on a bare source. -/
def onSource (s : PolledSession σ) (source : σ) : Operation → Performance σ
  | .wrap start =>
    match start? source start with
    | .ok fresh => atOnce (.wrapped (.ok ())) { fresh with out := s.out }
    | .error e => atOnce (.wrapped (.error e)) s
  | _ => atOnce .misuse s

/-- Carries out an operation with at most so many attempts, each with at most `rounds` rounds in
each of its loops. -/
def performWithin (rounds attempts : Nat) (s : PolledSession σ) (op : Operation) :
    Option (Performance σ) :=
  if op = .takeOut then some (atOnce (.bytes s.out) { s with out := #[] })
  else
    match s.holding with
    | .reader r => s.onReader rounds attempts r op
    | .stream stream => s.onStream rounds attempts stream op
    | .source source => some (s.onSource source op)

end Rounds

/-! ### Finite sources -/

variable [FinitePolledSource σ]

/-- One round more than the stock is enough for each attempt at a delimiter read. -/
theorem driveLine_isSome (rounds attempts : Nat) (r : Reader σ) (delim : UInt8) (out : Bytes)
    (h : r.pollStock < rounds) : (driveLine rounds attempts r delim out).isSome := by
  refine Poll.drive_isSome (fun s => s.2.pollStock < rounds) ?_ ?_ _ _ _ h
  · rintro ⟨⟨scan, out⟩, r⟩ hr
    rw [Option.isSome_map]
    exact Reader.pollLineWithin_isSome _ _ _ _ hr
  · rintro ⟨⟨scan, out⟩, r⟩ ⟨⟨scan', out'⟩, r'⟩ hr hs
    obtain ⟨attempt, hattempt, heq⟩ := Option.map_eq_some_iff.1 hs
    simp only [Prod.mk.injEq] at heq
    have := Reader.pollStock_lineWithin_lt hattempt (.inl heq.1)
    rw [heq.2.2] at this
    exact Nat.lt_trans this hr

/-- One round more than the stock is enough for each attempt at the next line. -/
theorem driveNext_isSome (rounds attempts : Nat) (stream : LineStream σ)
    (h : stream.reader.pollStock < rounds) : (driveNext rounds attempts stream).isSome := by
  refine Poll.drive_isSome (fun s => s.finished = true ∨ s.reader.pollStock < rounds) ?_ ?_ _ _ _
    (.inr h)
  · intro s hs
    exact LineStream.pollNextWithin_isSome _ _ hs
  · intro s s' hs hnext
    rcases LineStream.finished_or_pollStock_lt hnext with hf | hlt
    · exact .inl hf
    · rcases hs with hf | hs
      · simp [LineStream.pollNextWithin, hf] at hnext
      · exact .inr (Nat.lt_trans hlt hs)

/-- A number of rounds that is enough for every attempt of a session. -/
def rounds (s : PolledSession σ) : Nat :=
  match s.holding with
  | .reader reader => reader.pollStock + 1
  | .stream stream => stream.reader.pollStock + 1
  | .source _ => 0

/-- Attempts that always have an outcome yield a result. -/
theorem drive_some_isSome {ς α : Type} (attempt : ς → Poll α × ς) (attempts made : Nat) (s : ς) :
    (Poll.drive (fun s => some (attempt s)) attempts made s).isSome :=
  Poll.drive_isSome (fun _ => True) (fun _ _ => rfl) (fun _ _ _ _ => trivial) _ _ _ trivial

/-- Every attempt of an operation on a reader comes to an end within a number of rounds above the
stock. -/
theorem onReader_isSome {rounds : Nat} (attempts : Nat) (s : PolledSession σ) {r : Reader σ}
    (h : r.pollStock < rounds) (op : Operation) : (s.onReader rounds attempts r op).isSome := by
  cases op with
  | read buffer | readPlain buffer | readSource buffer | readExact buffer | readByte |
    fillBuffer =>
    exact Option.isSome_map.trans (drive_some_isSome _ _ _ _)
  | readLine delim => exact Option.isSome_map.trans (driveLine_isSome _ _ _ _ _ h)
  | readLineInto delim => exact Option.isSome_map.trans (driveLine_isSome _ _ _ _ _ h)
  | _ => rfl

/-- Every attempt of an operation on lines comes to an end within a number of rounds above the
stock. -/
theorem onStream_isSome {rounds : Nat} (attempts : Nat) (s : PolledSession σ)
    {stream : LineStream σ} (h : stream.reader.pollStock < rounds) (op : Operation) :
    (s.onStream rounds attempts stream op).isSome := by
  cases op with
  | next => exact Option.isSome_map.trans (driveNext_isSome _ _ _ h)
  | collect =>
    exact Option.isSome_map.trans (LineStream.harvestWithin_isSome _ _ _ _ _ (.inr h))
  | _ => rfl

/-- Every attempt of an operation comes to an end within these rounds. -/
theorem performWithin_rounds_isSome (attempts : Nat) (s : PolledSession σ) (op : Operation) :
    (s.performWithin s.rounds attempts op).isSome := by
  unfold performWithin
  split
  · rfl
  · unfold rounds
    cases s.holding with
    | reader r => exact onReader_isSome attempts s (Nat.lt_succ_self _) op
    | stream stream => exact onStream_isSome attempts s (Nat.lt_succ_self _) op
    | source source => rfl

/-- Carries out an operation with at most so many attempts. -/
def perform (attempts : Nat) (s : PolledSession σ) (op : Operation) : Performance σ :=
  (s.performWithin s.rounds attempts op).get (performWithin_rounds_isSome attempts s op)

/-- Carries out operations in turn, each with its own number of attempts, and lists their
replies. -/
def performAll (s : PolledSession σ) : List (Operation × Nat) → List Reply × PolledSession σ
  | [] => ([], s)
  | (op, attempts) :: ops =>
    let performance := s.perform attempts op
    let (replies, s) := performance.session.performAll ops
    (performance.reply :: replies, s)

end PolledSession

end BufferedReading
