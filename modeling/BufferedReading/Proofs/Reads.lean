import BufferedReading.Proofs.Contact
import BufferedReading.Reader.Retrying

/-!
# A read by what is unread

A read is served from the window while bytes are unread; otherwise it asks the source once, and what
it then does depends on the outcome of the refill alone. A round of a delimiter read asks the source
only after a search that wants more bytes. The equations of this module say so for every read, for a
source that is waited for and for one that is polled. What a read does behind a refill is the same
for both: `Reader.readBehind`, `Reader.byteBehind` and `Reader.unreadBehind`.
-/

namespace BufferedReading

/-- The call with a result that is ready. -/
def Call.ready {ρ α : Type} (call : Call ρ α) : Call ρ (Poll α) :=
  ⟨.ready call.result, call.buffer, call.reader⟩

namespace Reader

variable {σ : Type} {r r' : Reader σ} {buffer : Bytes} {outcome : Except ReadError Fill}

/-! ### Behind a refill -/

/-- What a read does behind a refill. -/
def readBehind (buffer : Bytes) (r : Reader σ) :
    Except ReadError Fill → Call (Reader σ) (Except ReadError Nat)
  | .ok .ended => ⟨.ok 0, buffer, r⟩
  | .ok _ => r.deliver buffer
  | .error e => ⟨.error e, buffer, r⟩

/-- What a read of one byte does behind a refill. -/
def byteBehind (r : Reader σ) :
    Except ReadError Fill → Except ReadError (Option UInt8) × Reader σ
  | .ok _ => (.ok r.window.pop.1, r.withWindow r.window.pop.2)
  | .error e => (.error e, r)

/-- What a look at the unread bytes does behind a refill. -/
def unreadBehind (r : Reader σ) : Except ReadError Fill → Except Failure Bytes × Reader σ
  | .ok _ => (.ok r.unread, r)
  | .error e => (.error e.toFailure, r)

/-! ### Reads of a source that is waited for -/

section Blocking

variable [ByteSource σ] {rounds : Nat} {scan : Scan} {out : Bytes}

/-- What a delimiter read does behind a refill. -/
def lineBehind (rounds : Nat) (scan : Scan) (out : Bytes) (r : Reader σ) :
    Except ReadError Fill → Option (Call (Reader σ) (Except ReadError Bool))
  | .ok (.added _) => lineWithin rounds scan r out
  | .ok _ => some ⟨.ok false, out, r⟩
  | .error e => some ⟨.error e, out, r⟩

/-- A refill keeps the configuration. -/
@[simp] theorem config_refill (r : Reader σ) : r.refill.2.config = r.config := by
  unfold refill
  simp only
  split <;> rfl

/-- A refill of an empty window brings bytes, meets the end of the stream or fails. It never finds
the window full. -/
theorem exists_refill_cases (h : r.window.toList = []) :
    ∃ r', r'.config = r.config ∧ r'.capacity = r.capacity ∧
      ((∃ count, r.refill = (.ok (.added count), r') ∧ r'.window.toList ≠ []) ∨
        (r.refill = (.ok .ended, r') ∧ r'.window.toList = []) ∨
        ∃ cause, r.refill = (.error (.source cause), r') ∧ r'.window.toList = []) := by
  obtain ⟨answer, source, hread⟩ :
      ∃ answer source, ByteSource.read r.source r.capacity = (answer, source) := ⟨_, _, rfl⟩
  obtain ⟨w, hw, hrefill⟩ := exists_refill_eq h hread
  refine ⟨(r.meet ⟨.refill, r.capacity, .ready answer⟩ source).withWindow w, rfl,
    hw.capacity_eq, ?_⟩
  rw [hrefill]
  cases ho : answer.outcome r.capacity with
  | bytes count => exact .inl ⟨count, rfl, hw.ne_nil ho⟩
  | ended => exact .inr (.inl ⟨rfl, hw.eq_nil (by rw [ho]; rfl)⟩)
  | failed cause => exact .inr (.inr ⟨cause, rfl, hw.eq_nil (by rw [ho]; rfl)⟩)

/-- A read delivers unread bytes if there are any. -/
theorem read_of_unread (hsize : buffer.size ≠ 0) (h : r.window.toList ≠ []) :
    r.read buffer = r.deliver buffer := by
  rw [read, if_neg hsize, if_neg fun hempty => h ((Window.isEmpty_iff_toList _).1 hempty)]

/-- A read into a buffer no smaller than the window goes past it. -/
theorem read_of_bypass (hsize : buffer.size ≠ 0) (h : r.window.toList = [])
    (hcap : r.capacity ≤ buffer.size) : r.read buffer = r.bypass buffer := by
  rw [read, if_neg hsize, if_pos ((Window.isEmpty_iff_toList _).2 h), if_pos hcap]

/-- A read into a smaller buffer refills the window first. -/
theorem read_of_refill (hsize : buffer.size ≠ 0) (h : r.window.toList = [])
    (hcap : ¬ r.capacity ≤ buffer.size) (hrefill : r.refill = (outcome, r')) :
    r.read buffer = readBehind buffer r' outcome := by
  rw [read, if_neg hsize, if_pos ((Window.isEmpty_iff_toList _).2 h), if_neg hcap, hrefill]
  cases outcome with
  | error e => rfl
  | ok fill => cases fill <;> rfl

/-- A read of one byte takes an unread byte if there is one. -/
theorem readByte_of_unread (h : r.window.toList ≠ []) :
    r.readByte = (.ok r.window.pop.1, r.withWindow r.window.pop.2) := by
  rw [readByte, if_neg fun hempty => h ((Window.isEmpty_iff_toList _).1 hempty)]
  rfl

/-- A read of one byte refills an empty window first. -/
theorem readByte_of_refill (h : r.window.toList = []) (hrefill : r.refill = (outcome, r')) :
    r.readByte = r'.byteBehind outcome := by
  rw [readByte, if_pos ((Window.isEmpty_iff_toList _).2 h), hrefill]
  cases outcome <;> rfl

/-- A look at the unread bytes shows them if there are any. -/
theorem fillBuffer_of_unread (h : r.window.toList ≠ []) : r.fillBuffer = (.ok r.unread, r) := by
  rw [fillBuffer, if_neg fun hempty => h ((Window.isEmpty_iff_toList _).1 hempty)]

/-- A look at the unread bytes refills an empty window first. -/
theorem fillBuffer_of_refill (h : r.window.toList = []) (hrefill : r.refill = (outcome, r')) :
    r.fillBuffer = r'.unreadBehind outcome := by
  rw [fillBuffer, if_pos ((Window.isEmpty_iff_toList _).2 h), hrefill]
  cases outcome <;> rfl

/-- One round of filling a buffer. -/
theorem readExactFrom_eq (r : Reader σ) (done : Bytes) {rest : Bytes} (hsize : rest.size ≠ 0) :
    r.readExactFrom done rest =
      match (r.read rest).result with
      | .error e => ⟨.error (.failed e), done ++ (r.read rest).buffer, (r.read rest).reader⟩
      | .ok count =>
        if count = 0 then
          ⟨.error (.failed (.source .bufferNotFilled)), done ++ (r.read rest).buffer,
            (r.read rest).reader⟩
        else if rest.size < count ∧ wordSize ≤ done.size + count then
          ⟨.error (.faulted .overflow), done ++ (r.read rest).buffer, (r.read rest).reader⟩
        else
          (r.read rest).reader.readExactFrom (done ++ (r.read rest).buffer.extract 0 count)
            ((r.read rest).buffer.extract count (r.read rest).buffer.size) := by
  rw [readExactFrom, dif_neg hsize]
  split
  · next hread => simp only [hread]
  · next hread => simp only [hread, dite_eq_ite]

/-- One round of filling a buffer in a loop that goes on after interruptions. -/
theorem fillWithin_eq (rounds : Nat) (r : Reader σ) (done : Bytes) {rest : Bytes}
    (hsize : rest.size ≠ 0) :
    fillWithin (rounds + 1) r done rest =
      match (r.read rest).result with
      | .ok count =>
        if count = 0 then
          some ⟨.error (.failed .bufferNotFilled), done ++ (r.read rest).buffer,
            (r.read rest).reader⟩
        else if rest.size < count then
          some ⟨.error (.faulted .slice), done ++ (r.read rest).buffer, (r.read rest).reader⟩
        else
          fillWithin rounds (r.read rest).reader (done ++ (r.read rest).buffer.extract 0 count)
            ((r.read rest).buffer.extract count (r.read rest).buffer.size)
      | .error e =>
        if e.toFailure.isInterruption then
          fillWithin rounds (r.read rest).reader done (r.read rest).buffer
        else
          some ⟨.error (.failed e.toFailure), done ++ (r.read rest).buffer,
            (r.read rest).reader⟩ := by
  rw [fillWithin, if_neg hsize, readPlain]
  cases (r.read rest).result <;> rfl

/-- A delimiter read ends with a search that has found its delimiter. -/
theorem lineWithin_of_found (hv : (scan.advance r.window out).verdict = .found) :
    lineWithin (rounds + 1) scan r out =
      some ⟨.ok true, (scan.advance r.window out).out,
        r.withWindow (scan.advance r.window out).window⟩ := by
  simp only [lineWithin, hv]
  rfl

/-- A delimiter read ends with a search that is over its limit. -/
theorem lineWithin_of_overlong {limit : Nat}
    (hv : (scan.advance r.window out).verdict = .overlong limit) :
    lineWithin (rounds + 1) scan r out =
      some ⟨.error (.lineTooLong limit), (scan.advance r.window out).out,
        r.withWindow (scan.advance r.window out).window⟩ := by
  simp only [lineWithin, hv]
  rfl

/-- A delimiter read refills the window after a search that wants more bytes. -/
theorem lineWithin_of_refill (hv : (scan.advance r.window out).verdict = .starved)
    (hrefill : (r.withWindow (scan.advance r.window out).window).refill = (outcome, r')) :
    lineWithin (rounds + 1) scan r out =
      lineBehind rounds (scan.advance r.window out).scan (scan.advance r.window out).out r'
        outcome := by
  change Reader.refill { r with window := (scan.advance r.window out).window } = _ at hrefill
  simp only [lineWithin, hv, hrefill]
  cases outcome with
  | error e => rfl
  | ok fill => cases fill <;> rfl

end Blocking

/-! ### Reads of a source that is polled -/

section Polled

variable [PolledSource σ] {rounds : Nat} {scan : Scan} {out : Bytes}

/-- What an attempt at a delimiter read does behind a refill. -/
def pollLineBehind (rounds : Nat) (scan : Scan) (out : Bytes) (r : Reader σ) :
    Except ReadError Fill → Option (LineAttempt σ)
  | .ok (.added _) => pollLineWithin rounds r scan out
  | .ok _ => some ⟨.ready (.ok false), scan, out, r⟩
  | .error e => some ⟨.ready (.error e), scan, out, r⟩

/-- An attempt at a read delivers unread bytes if there are any. -/
theorem pollRead_of_unread (hsize : buffer.size ≠ 0) (h : r.window.toList ≠ []) :
    r.pollRead buffer = (r.deliver buffer).ready := by
  rw [pollRead, if_neg hsize, if_neg fun hempty => h ((Window.isEmpty_iff_toList _).1 hempty)]
  rfl

/-- An attempt at a read into a buffer no smaller than the window goes past it. -/
theorem pollRead_of_bypass (hsize : buffer.size ≠ 0) (h : r.window.toList = [])
    (hcap : r.capacity ≤ buffer.size) : r.pollRead buffer = r.pollBypass buffer := by
  rw [pollRead, if_neg hsize, if_pos ((Window.isEmpty_iff_toList _).2 h), if_pos hcap]

/-- An attempt at a read is put off with its refill. -/
theorem pollRead_of_pending (hsize : buffer.size ≠ 0) (h : r.window.toList = [])
    (hcap : ¬ r.capacity ≤ buffer.size) (hrefill : r.pollRefill = (.pending, r')) :
    r.pollRead buffer = ⟨.pending, buffer, r'⟩ := by
  rw [pollRead, if_neg hsize, if_pos ((Window.isEmpty_iff_toList _).2 h), if_neg hcap, hrefill]

/-- An attempt at a read comes to its end with its refill. -/
theorem pollRead_of_refill (hsize : buffer.size ≠ 0) (h : r.window.toList = [])
    (hcap : ¬ r.capacity ≤ buffer.size) (hrefill : r.pollRefill = (.ready outcome, r')) :
    r.pollRead buffer = (readBehind buffer r' outcome).ready := by
  rw [pollRead, if_neg hsize, if_pos ((Window.isEmpty_iff_toList _).2 h), if_neg hcap, hrefill]
  cases outcome with
  | error e => rfl
  | ok fill => cases fill <;> rfl

/-- An attempt at a read of one byte takes an unread byte if there is one. -/
theorem pollByte_of_unread (h : r.window.toList ≠ []) :
    r.pollByte = (.ready (.ok r.window.pop.1), r.withWindow r.window.pop.2) := by
  rw [pollByte, if_neg fun hempty => h ((Window.isEmpty_iff_toList _).1 hempty)]
  rfl

/-- An attempt at a read of one byte is put off with its refill. -/
theorem pollByte_of_pending (h : r.window.toList = []) (hrefill : r.pollRefill = (.pending, r')) :
    r.pollByte = (.pending, r') := by
  rw [pollByte, if_pos ((Window.isEmpty_iff_toList _).2 h), hrefill]

/-- An attempt at a read of one byte comes to its end with its refill. -/
theorem pollByte_of_refill (h : r.window.toList = [])
    (hrefill : r.pollRefill = (.ready outcome, r')) :
    r.pollByte = (.ready (r'.byteBehind outcome).1, (r'.byteBehind outcome).2) := by
  rw [pollByte, if_pos ((Window.isEmpty_iff_toList _).2 h), hrefill]
  cases outcome <;> rfl

/-- An attempt at a look at the unread bytes shows them if there are any. -/
theorem pollFillBuffer_of_unread (h : r.window.toList ≠ []) :
    r.pollFillBuffer = (.ready (.ok r.unread), r) := by
  rw [pollFillBuffer, if_neg fun hempty => h ((Window.isEmpty_iff_toList _).1 hempty)]

/-- An attempt at a look at the unread bytes is put off with its refill. -/
theorem pollFillBuffer_of_pending (h : r.window.toList = [])
    (hrefill : r.pollRefill = (.pending, r')) : r.pollFillBuffer = (.pending, r') := by
  rw [pollFillBuffer, if_pos ((Window.isEmpty_iff_toList _).2 h), hrefill]

/-- An attempt at a look at the unread bytes comes to its end with its refill. -/
theorem pollFillBuffer_of_refill (h : r.window.toList = [])
    (hrefill : r.pollRefill = (.ready outcome, r')) :
    r.pollFillBuffer = (.ready (r'.unreadBehind outcome).1, (r'.unreadBehind outcome).2) := by
  rw [pollFillBuffer, if_pos ((Window.isEmpty_iff_toList _).2 h), hrefill]
  cases outcome <;> rfl

/-- A buffer without room is filled at once. -/
theorem pollExact_of_full (r : Reader σ) (done : Bytes) {rest : Bytes} (hsize : rest.size = 0) :
    r.pollExact done rest = ⟨.ready (.ok ()), done, rest, r⟩ := by
  rw [pollExact, dif_pos hsize]

/-- One round of an attempt to fill a buffer. -/
theorem pollExact_eq (r : Reader σ) (done : Bytes) {rest : Bytes} (hsize : rest.size ≠ 0) :
    r.pollExact done rest =
      match (r.pollRead rest).result with
      | .pending => ⟨.pending, done, (r.pollRead rest).buffer, (r.pollRead rest).reader⟩
      | .ready (.error e) =>
        ⟨.ready (.error (.failed e)), done, (r.pollRead rest).buffer, (r.pollRead rest).reader⟩
      | .ready (.ok count) =>
        if count = 0 then
          ⟨.ready (.error (.failed (.source .bufferNotFilled))), done, (r.pollRead rest).buffer,
            (r.pollRead rest).reader⟩
        else if rest.size < count ∧ wordSize ≤ done.size + count then
          ⟨.ready (.error (.faulted .overflow)),
            done ++ (r.pollRead rest).buffer.extract 0 count,
            (r.pollRead rest).buffer.extract count (r.pollRead rest).buffer.size,
            (r.pollRead rest).reader⟩
        else
          (r.pollRead rest).reader.pollExact (done ++ (r.pollRead rest).buffer.extract 0 count)
            ((r.pollRead rest).buffer.extract count (r.pollRead rest).buffer.size) := by
  rw [pollExact, dif_neg hsize]
  split
  · next hread => simp only [hread]
  · next hread => simp only [hread]
  · next hread => simp only [hread, dite_eq_ite]

/-- An attempt at a delimiter read ends with a search that has found its delimiter. -/
theorem pollLineWithin_of_found (hv : (scan.advance r.window out).verdict = .found) :
    pollLineWithin (rounds + 1) r scan out =
      some ⟨.ready (.ok true), (scan.advance r.window out).scan, (scan.advance r.window out).out,
        r.withWindow (scan.advance r.window out).window⟩ := by
  simp only [pollLineWithin, hv]
  rfl

/-- An attempt at a delimiter read ends with a search that is over its limit. -/
theorem pollLineWithin_of_overlong {limit : Nat}
    (hv : (scan.advance r.window out).verdict = .overlong limit) :
    pollLineWithin (rounds + 1) r scan out =
      some ⟨.ready (.error (.lineTooLong limit)), (scan.advance r.window out).scan,
        (scan.advance r.window out).out, r.withWindow (scan.advance r.window out).window⟩ := by
  simp only [pollLineWithin, hv]
  rfl

/-- An attempt at a delimiter read is put off with the refill of a search that wants more bytes. -/
theorem pollLineWithin_of_pending (hv : (scan.advance r.window out).verdict = .starved)
    (hrefill : (r.withWindow (scan.advance r.window out).window).pollRefill = (.pending, r')) :
    pollLineWithin (rounds + 1) r scan out =
      some ⟨.pending, (scan.advance r.window out).scan, (scan.advance r.window out).out, r'⟩ := by
  change Reader.pollRefill { r with window := (scan.advance r.window out).window } = _ at hrefill
  simp only [pollLineWithin, hv, hrefill]

/-- An attempt at a delimiter read goes on with the refill of a search that wants more bytes. -/
theorem pollLineWithin_of_refill (hv : (scan.advance r.window out).verdict = .starved)
    (hrefill : (r.withWindow (scan.advance r.window out).window).pollRefill =
      (.ready outcome, r')) :
    pollLineWithin (rounds + 1) r scan out =
      pollLineBehind rounds (scan.advance r.window out).scan (scan.advance r.window out).out r'
        outcome := by
  change Reader.pollRefill { r with window := (scan.advance r.window out).window } = _ at hrefill
  simp only [pollLineWithin, hv, hrefill]
  cases outcome with
  | error e => rfl
  | ok fill => cases fill <;> rfl

end Polled

end Reader

end BufferedReading
