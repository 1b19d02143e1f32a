import BufferedReading.Proofs.Moves
import BufferedReading.Proofs.Rounds
import BufferedReading.Reader.Finite
import BufferedReading.Source.Script

/-!
# Two ways to read up to a delimiter

A caller that knows a reader only by `Reader.fillBuffer` and `Reader.skip` reads up to a
delimiter in a loop of its own, `Reader.readUntil`, and tries again after an interruption. A caller
that knows the delimiter read of the reader may make it again, onto the same accumulator, as long as
it is interrupted: that is `Reader.readLinePersistently`.

Without a limit on lines both come to the same end (`Reader.readUntil_eq_readLinePersistently`),
with the same reader: the source behind it has answered the same requests. The two loops cut their
rounds differently, one before a refill and one behind it, so that they are not compared round by
round. Instead each way is shown to be the same before and behind a search that finds nothing, a
refill that brings bytes, and an interruption.
-/

namespace BufferedReading

/-- Whether a call has ended with an interruption of its source. -/
def Call.isInterrupted {ρ α : Type} (call : Call ρ (Except ReadError α)) : Bool :=
  match call.result with
  | .error (.source cause) => cause.isInterruption
  | _ => false

/-- A call as it is reported to a caller that counts bytes and knows failures only. -/
def Call.counted {ρ : Type} (count : Nat) (call : Call ρ (Except ReadError Bool)) :
    Call ρ (Except Failure Nat) :=
  ⟨(call.result.mapError ReadError.toFailure).map fun _ => count, call.buffer, call.reader⟩

/-- The index of a byte in a byte string is that in the list of its bytes. -/
theorem Bytes.indexIn?_eq_idxOf? (bytes : Bytes) (byte : UInt8) :
    bytes.indexIn? byte 0 bytes.size = bytes.toList.idxOf? byte := by
  cases h : bytes.indexIn? byte 0 bytes.size with
  | none =>
    rw [eq_comm, List.idxOf?_eq_none_iff, List.mem_iff_getElem?]
    rintro ⟨i, hi⟩
    rw [Array.getElem?_toList] at hi
    have hlt : i < 0 + bytes.size := by
      have := (Array.getElem?_eq_some_iff.1 hi).1
      omega
    exact indexIn?_eq_none_iff.1 h i (Nat.zero_le i) hlt hi
  | some i =>
    obtain ⟨-, hlt, hi, hmin⟩ := indexIn?_eq_some_iff.1 h
    rw [Nat.zero_add] at hlt
    rw [eq_comm, List.idxOf?_eq_some_iff]
    refine ⟨by rwa [Array.length_toList], by simpa [hlt] using hi, fun j hj => ?_⟩
    have := hmin j (Nat.zero_le j) hj
    rw [Array.getElem?_eq_getElem (by omega)] at this
    simpa using this

namespace Scan

variable {scan : Scan} {w : Window} {out : Bytes}

/-- Without a limit, a search that has not met its delimiter wants more bytes. -/
theorem unmet_of_unlimited (hlimit : scan.limit = none) : scan.unmet = .starved := by
  rw [unmet, hlimit]

/-- Without a limit, a search is not changed by what it has taken before. -/
theorem advance_add (hlimit : scan.limit = none) (k : Nat) (w : Window) (out : Bytes) :
    (scan.add k).advance w out =
      { scan.advance w out with scan := (scan.advance w out).scan.add k } := by
  have hreach : (scan.add k).reach w = scan.reach w := by
    simp only [reach, limit_add, hlimit]
  have hunmet : ∀ n, (scan.add n).unmet = .starved := fun n => unmet_of_unlimited hlimit
  unfold advance
  rw [delim_add, hreach]
  cases w.find? scan.delim (scan.reach w) <;> simp only [hunmet, add_add, Nat.add_comm k]

/-- Without a limit, a search finds the first delimiter among the unread bytes. -/
theorem advance_of_index (hlimit : scan.limit = none) {i : Nat}
    (hi : w.unread.indexIn? scan.delim 0 w.unread.size = some i) :
    (scan.advance w out).verdict = .found ∧ (scan.advance w out).window = w.skip (i + 1) ∧
      (scan.advance w out).out = out ++ w.unread.extract 0 (i + 1) := by
  have hreach : scan.reach w = w.toList.length := by
    rw [reach, hlimit, Window.length_toList]
  have hfind : w.find? scan.delim (scan.reach w) = some i := by
    rw [Window.find?_eq_idxOf?, hreach, List.take_length, ← hi, Bytes.indexIn?_eq_idxOf?]
    rfl
  have hfront : w.front (i + 1) = w.unread.extract 0 (i + 1) := by
    apply Array.toList_inj.1
    rw [Window.toList_front, Array.toList_extract, List.extract_eq_take_drop]
    rfl
  unfold advance
  rw [hfind, ← hfront]
  exact ⟨rfl, rfl, rfl⟩

/-- Without a limit, a search that finds no delimiter takes all unread bytes. -/
theorem advance_of_no_index (hlimit : scan.limit = none)
    (hnone : w.unread.indexIn? scan.delim 0 w.unread.size = none) :
    (scan.advance w out).verdict = .starved ∧
      (scan.advance w out).window = w.skip w.unread.size ∧
      (scan.advance w out).out = out ++ w.unread := by
  have hreach : scan.reach w = w.toList.length := by
    rw [reach, hlimit, Window.length_toList]
  have hfind : w.find? scan.delim (scan.reach w) = none := by
    rw [Window.find?_eq_idxOf?, hreach, List.take_length, ← hnone, Bytes.indexIn?_eq_idxOf?]
    rfl
  have hfront : w.front w.toList.length = w.unread := by
    apply Array.toList_inj.1
    rw [Window.toList_front, List.take_length]
    rfl
  unfold advance
  rw [hfind, hreach]
  have hunmet : (scan.add w.toList.length).unmet = .starved := unmet_of_unlimited hlimit
  refine ⟨hunmet, ?_, ?_⟩
  · rw [Window.length_toList, Window.size_unread]
  · exact congrArg (out ++ ·) hfront

end Scan

namespace Reader

variable {σ : Type}

/-- Without a limit, a delimiter read is not changed by what its search has taken before. -/
theorem lineWithin_add [ByteSource σ] {scan : Scan} (hlimit : scan.limit = none) (k rounds : Nat)
    (r : Reader σ) (out : Bytes) :
    lineWithin rounds (scan.add k) r out = lineWithin rounds scan r out := by
  induction rounds generalizing scan r out with
  | zero => rfl
  | succ rounds ih =>
    have hkept := (scan.advance_keeps r.window out).2.1.trans hlimit
    simp only [lineWithin, Scan.advance_add hlimit]
    cases (scan.advance r.window out).verdict with
    | found => rfl
    | overlong limit => rfl
    | starved =>
      simp only
      rcases ({ r with window := (scan.advance r.window out).window } : Reader σ).refill
        with ⟨e | fill, r'⟩
      · rfl
      · cases fill with
        | added count => exact ih hkept _ _
        | ended => rfl
        | full => rfl

/-- The bytes that a delimiter read appends have their delimiter at the end if it was met, and
nowhere else. -/
theorem exists_taken_lineWithin [ByteSource σ] {rounds : Nat} {scan : Scan} {r : Reader σ}
    {out : Bytes} {call : Call (Reader σ) (Except ReadError Bool)}
    (h : lineWithin rounds scan r out = some call) :
    ∃ taken, call.buffer.toList = out.toList ++ taken ∧
      (call.result = .ok true → ∃ before, taken = before ++ [scan.delim] ∧ scan.delim ∉ before) ∧
      (call.result ≠ .ok true → scan.delim ∉ taken) := by
  induction rounds generalizing scan r out with
  | zero => simp [lineWithin] at h
  | succ rounds ih =>
    obtain ⟨hverdict, hscan, -, hout⟩ := scan.advance_eq_walk r.window out
    cases hv : (scan.walk r.window.toList).verdict with
    | found =>
      rw [lineWithin_of_found (hverdict.trans hv), Option.some.injEq] at h
      subst h
      exact ⟨_, hout, fun _ => Scan.exists_taken_of_found hv, fun hne => absurd rfl hne⟩
    | overlong limit =>
      rw [lineWithin_of_overlong (hverdict.trans hv), Option.some.injEq] at h
      subst h
      exact ⟨_, hout, by simp, fun _ => Scan.delim_notMem_taken (by simp [hv])⟩
    | starved =>
      have hnot : scan.delim ∉ (scan.walk r.window.toList).taken :=
        Scan.delim_notMem_taken (by simp [hv])
      obtain ⟨outcome, r', hrefill⟩ : ∃ outcome r',
          (r.withWindow (scan.advance r.window out).window).refill = (outcome, r') := ⟨_, _, rfl⟩
      rw [lineWithin_of_refill (hverdict.trans hv) hrefill] at h
      rcases outcome with e | added | _ | _
      · obtain rfl := Option.some.inj h
        exact ⟨_, hout, by simp, fun _ => hnot⟩
      · obtain ⟨taken, htaken, hmet, hunmet⟩ := ih h
        rw [hscan, Scan.delim_add] at hmet hunmet
        refine ⟨(scan.walk r.window.toList).taken ++ taken, ?_, fun hok => ?_, fun hok => ?_⟩
        · rw [htaken, hout, List.append_assoc]
        · obtain ⟨before, rfl, hbefore⟩ := hmet hok
          exact ⟨_, (List.append_assoc ..).symm, by simp [hnot, hbefore]⟩
        · simp [hnot, hunmet hok]
      · obtain rfl := Option.some.inj h
        exact ⟨_, hout, by simp, fun _ => hnot⟩
      · obtain rfl := Option.some.inj h
        exact ⟨_, hout, by simp, fun _ => hnot⟩

/-! ### The delimiter read of the reader -/

section Finite

variable [FiniteSource σ] {r r' : Reader σ} {delim : UInt8} {out : Bytes}

/-- The delimiter read in the number of rounds that it is given. -/
theorem lineWithin_stock (r : Reader σ) (delim : UInt8) (out : Bytes) :
    lineWithin (r.stock + 1) (.start delim r.config.lineLimit) r out =
      some (r.readLineInto delim out) :=
  (Option.some_get _).symm

/-- The delimiter read is what it comes to in any number of rounds. -/
theorem readLineInto_eq_of_lineWithin {rounds : Nat}
    {call : Call (Reader σ) (Except ReadError Bool)}
    (h : lineWithin rounds (.start delim r.config.lineLimit) r out = some call) :
    r.readLineInto delim out = call :=
  lineWithin_unique (lineWithin_stock r delim out) h

/-- A delimiter read that is interrupted lowers the stock. -/
theorem stock_lineWithin_lt_of_interruption {rounds : Nat} {scan : Scan}
    {call : Call (Reader σ) (Except ReadError Bool)}
    (h : lineWithin rounds scan r out = some call) (hi : call.isInterrupted = true) :
    call.reader.stock < r.stock := by
  induction rounds generalizing scan r out with
  | zero => simp [lineWithin] at h
  | succ rounds ih =>
    have hsearch : (r.withWindow (scan.advance r.window out).window).stock ≤ r.stock :=
      Window.stock_le_of_buffered_le (scan.advance_keeps r.window out).2.2
        (scan.buffered_advance_le r.window out)
    cases hv : (scan.advance r.window out).verdict with
    | found =>
      rw [lineWithin_of_found hv, Option.some.injEq] at h
      simp [← h, Call.isInterrupted] at hi
    | overlong limit =>
      rw [lineWithin_of_overlong hv, Option.some.injEq] at h
      simp [← h, Call.isInterrupted] at hi
    | starved =>
      obtain ⟨outcome, next, hrefill⟩ : ∃ outcome next,
          (r.withWindow (scan.advance r.window out).window).refill = (outcome, next) := ⟨_, _, rfl⟩
      rw [lineWithin_of_refill hv hrefill] at h
      cases outcome with
      | error e =>
        obtain rfl := (Option.some.inj h).symm
        obtain ⟨cause, rfl, -⟩ := refill_eq_error_iff.1 (congrArg Prod.fst hrefill)
        have hlt := stock_refill_lt_of_interruption (congrArg Prod.fst hrefill) hi
        rw [hrefill] at hlt
        exact Nat.lt_of_lt_of_le hlt hsearch
      | ok fill =>
        cases fill with
        | added count =>
          have hlt := stock_refill_lt (congrArg Prod.fst hrefill)
          rw [hrefill] at hlt
          exact Nat.lt_trans (ih h) (Nat.lt_of_lt_of_le hlt hsearch)
        | ended | full => simp [← Option.some.inj h, Call.isInterrupted] at hi

/-- Reads up to the delimiter again and again, onto the same accumulator, as long as the read is
interrupted. What is left behind is what the last read leaves. -/
def readLinePersistently (r : Reader σ) (delim : UInt8) (out : Bytes) :
    Call (Reader σ) (Except ReadError Bool) :=
  let call := r.readLineInto delim out
  if _h : call.isInterrupted then call.reader.readLinePersistently delim call.buffer else call
termination_by r.stock
decreasing_by exact stock_lineWithin_lt_of_interruption (lineWithin_stock r delim out) _h

/-- If two readers come to the same end in one delimiter read then they do persistently. -/
theorem readLinePersistently_congr {out' : Bytes}
    (h : r.readLineInto delim out = r'.readLineInto delim out') :
    r.readLinePersistently delim out = r'.readLinePersistently delim out' := by
  rw [readLinePersistently, readLinePersistently.eq_1 r', h]

/-- A read that is not interrupted is the last one. -/
theorem readLinePersistently_of_not_interrupted
    (h : (r.readLineInto delim out).isInterrupted = false) :
    r.readLinePersistently delim out = r.readLineInto delim out := by
  rw [readLinePersistently]
  simp [h]

/-- A read that is interrupted is made again. -/
theorem readLinePersistently_of_interrupted
    (h : (r.readLineInto delim out).isInterrupted = true) :
    r.readLinePersistently delim out =
      (r.readLineInto delim out).reader.readLinePersistently delim
        (r.readLineInto delim out).buffer := by
  rw [readLinePersistently]
  simp [h]

/-- The bytes that a persistent read appends have their delimiter at the end if it was met, and
nowhere else. -/
theorem exists_taken_readLinePersistently (r : Reader σ) (delim : UInt8) (out : Bytes) :
    ∃ taken, (r.readLinePersistently delim out).buffer.toList = out.toList ++ taken ∧
      ((r.readLinePersistently delim out).result = .ok true →
        ∃ before, taken = before ++ [delim] ∧ delim ∉ before) ∧
      ((r.readLinePersistently delim out).result ≠ .ok true → delim ∉ taken) := by
  fun_induction readLinePersistently r delim out with
  | case1 r out call hi ih =>
    obtain ⟨taken, htaken, -, hunmet⟩ := exists_taken_lineWithin (lineWithin_stock r delim out)
    obtain ⟨taken', htaken', hmet', hunmet'⟩ := ih
    have hnot : delim ∉ taken := by
      refine hunmet fun hok => ?_
      simp [call, Call.isInterrupted, hok] at hi
    refine ⟨taken ++ taken', ?_, fun hok => ?_, fun hok => ?_⟩
    · rw [htaken', htaken, List.append_assoc]
    · obtain ⟨before, rfl, hbefore⟩ := hmet' hok
      exact ⟨_, (List.append_assoc ..).symm, by simp [hnot, hbefore]⟩
    · simp [hnot, hunmet' hok]
  | case2 r out call hi => exact exists_taken_lineWithin (lineWithin_stock r delim out)

/-! ### What changes nothing -/

/-- A search that has found its delimiter ends the read. -/
theorem readLineInto_of_found
    (hv : ((Scan.start delim r.config.lineLimit).advance r.window out).verdict = .found) :
    r.readLineInto delim out =
      ⟨.ok true, ((Scan.start delim r.config.lineLimit).advance r.window out).out,
        r.withWindow ((Scan.start delim r.config.lineLimit).advance r.window out).window⟩ :=
  readLineInto_eq_of_lineWithin (@lineWithin_of_found σ r _ 0 _ out hv)

/-- A search that finds nothing changes nothing for the read that follows, if there is no limit. -/
theorem readLineInto_of_starved (hlimit : r.config.lineLimit = none)
    (hv : ((Scan.start delim none).advance r.window out).verdict = .starved) :
    r.readLineInto delim out =
      (r.withWindow ((Scan.start delim none).advance r.window out).window).readLineInto delim
        ((Scan.start delim none).advance r.window out).out := by
  have hscan := ((Scan.start delim none).advance_eq_walk r.window out).2.1
  have hlater := lineWithin_stock
    (r.withWindow ((Scan.start delim none).advance r.window out).window) delim
    ((Scan.start delim none).advance r.window out).out
  have hkept : (r.withWindow ((Scan.start delim none).advance r.window
      out).window).config.lineLimit = none := hlimit
  rw [hkept, ← lineWithin_add rfl, ← hscan] at hlater
  apply readLineInto_eq_of_lineWithin
  rw [hlimit, ← lineWithin_resume hv]
  exact hlater

/-- Over an empty window, what a delimiter read comes to is decided by the refill. -/
theorem readLineInto_of_empty (hlimit : r.config.lineLimit = none) (h : r.window.toList = [])
    {outcome : Except ReadError Fill} (hrefill : r.refill = (outcome, r')) :
    r.readLineInto delim out =
      match outcome with
      | .ok (.added _) => r'.readLineInto delim out
      | .ok _ => ⟨.ok false, out, r'⟩
      | .error e => ⟨.error e, out, r'⟩ := by
  have hkept : r'.config.lineLimit = none := by
    have hconfig := config_refill r
    rw [hrefill] at hconfig
    rw [hconfig, hlimit]
  have hlater := lineWithin_stock r' delim out
  rw [hkept] at hlater
  have hread : lineWithin (r'.stock + 1 + 1) (.start delim r.config.lineLimit) r out =
      lineBehind (r'.stock + 1) (.start delim none) out r' outcome := by
    rw [hlimit]
    exact lineWithin_of_empty (Scan.unmet_of_unlimited rfl) h hrefill
  apply readLineInto_eq_of_lineWithin
  rw [hread]
  rcases outcome with e | added | _ | _
  · rfl
  · exact hlater
  · rfl
  · rfl

/-! ### The loop of the caller -/

/-- A call that has counted the bytes it appended from `count` on ends as the persistent read does.
-/
def EndsPersistently (r : Reader σ) (delim : UInt8) (out : Bytes) (count : Nat)
    (call : Call (Reader σ) (Except Failure Nat)) : Prop :=
  ∃ n, n + out.size = count + (r.readLinePersistently delim out).buffer.size ∧
    call = (r.readLinePersistently delim out).counted n

/-- The loop over unread bytes ends as the persistent read does, if it does once they are
consumed. -/
theorem endsPersistently_of_unread (hlimit : r.config.lineLimit = none)
    (hunread : r.window.toList ≠ []) {rounds count : Nat}
    {call : Call (Reader σ) (Except Failure Nat)}
    (hlater : ∀ count,
      untilWithin delim rounds (r.skip r.unread.size) (out ++ r.unread) count = some call →
        (r.skip r.unread.size).EndsPersistently delim (out ++ r.unread) count call)
    (h : untilWithin delim (rounds + 1) r out count = some call) :
    r.EndsPersistently delim out count call := by
  have hsize : r.unread.size ≠ 0 := by
    rw [← Array.length_toList]
    exact fun hzero => hunread (List.length_eq_zero_iff.1 hzero)
  simp only [untilWithin, fillBuffer_of_unread hunread, if_neg hsize] at h
  cases hi : r.unread.indexIn? delim 0 r.unread.size with
  | some i =>
    obtain ⟨hv, hwindow, hout⟩ :=
      @Scan.advance_of_index (.start delim none) r.window out rfl i hi
    obtain ⟨-, hlt, -⟩ := Bytes.indexIn?_eq_some_iff.1 hi
    have hread : r.readLineInto delim out =
        ⟨.ok true, out ++ r.unread.extract 0 (i + 1), r.skip (i + 1)⟩ := by
      rw [readLineInto_of_found (by rw [hlimit]; exact hv), hlimit, hwindow, hout]
      rfl
    rw [hi] at h
    rw [EndsPersistently, readLinePersistently_of_not_interrupted (by rw [hread]; rfl), hread]
    refine ⟨count + (i + 1), ?_, (Option.some.inj h).symm⟩
    simp only [Array.size_append, Array.size_extract]
    omega
  | none =>
    obtain ⟨hv, hwindow, hout⟩ :=
      @Scan.advance_of_no_index (.start delim none) r.window out rfl hi
    have hread : r.readLineInto delim out =
        (r.skip r.unread.size).readLineInto delim (out ++ r.unread) := by
      rw [readLineInto_of_starved hlimit hv, hwindow, hout]
      rfl
    rw [hi] at h
    obtain ⟨n, hn, hcall⟩ := hlater _ h
    rw [Array.size_append] at hn
    rw [EndsPersistently, readLinePersistently_congr hread]
    exact ⟨n, by omega, hcall⟩

/-- The loop of the caller ends as the persistent read does, in any number of rounds that is
enough. -/
theorem endsPersistently_of_untilWithin (hlimit : r.config.lineLimit = none) {rounds count : Nat}
    {call : Call (Reader σ) (Except Failure Nat)}
    (h : untilWithin delim rounds r out count = some call) :
    r.EndsPersistently delim out count call := by
  induction rounds generalizing r out count with
  | zero => simp [untilWithin] at h
  | succ rounds ih =>
    by_cases hunread : r.window.toList = []
    · obtain ⟨r', hconfig, -, hcases⟩ := exists_refill_cases hunread
      have hkept : r'.config.lineLimit = none := by rw [hconfig, hlimit]
      rcases hcases with ⟨added, hrefill, hunread'⟩ | ⟨hrefill, hnil⟩ | ⟨cause, hrefill, -⟩
      · -- behind the refill the loop and the read go on as if the bytes had been there
        have hread : r.readLineInto delim out = r'.readLineInto delim out :=
          readLineInto_of_empty hlimit hunread hrefill
        have hloop : untilWithin delim (rounds + 1) r out count =
            untilWithin delim (rounds + 1) r' out count := by
          simp only [untilWithin, fillBuffer_of_refill hunread hrefill,
            fillBuffer_of_unread hunread', unreadBehind]
        rw [hloop] at h
        rw [EndsPersistently, readLinePersistently_congr hread]
        exact endsPersistently_of_unread hkept hunread' (fun _ => ih (r := r'.skip _) hkept) h
      · have hread : r.readLineInto delim out = ⟨.ok false, out, r'⟩ :=
          readLineInto_of_empty hlimit hunread hrefill
        have hempty : r'.unread = #[] := Array.toList_inj.1 hnil
        simp only [untilWithin, fillBuffer_of_refill hunread hrefill, unreadBehind, hempty] at h
        rw [EndsPersistently, readLinePersistently_of_not_interrupted (by rw [hread]; rfl), hread]
        exact ⟨count, rfl, (Option.some.inj h).symm⟩
      · have hread : r.readLineInto delim out = ⟨.error (.source cause), out, r'⟩ :=
          readLineInto_of_empty hlimit hunread hrefill
        simp only [untilWithin, fillBuffer_of_refill hunread hrefill, unreadBehind,
          ReadError.toFailure_source] at h
        by_cases hi : cause.isInterruption = true
        · rw [if_pos hi] at h
          have hagain : (r.readLineInto delim out).isInterrupted = true := by
            rw [hread]
            exact hi
          rw [EndsPersistently, readLinePersistently_of_interrupted hagain, hread]
          exact ih hkept h
        · rw [if_neg hi] at h
          have hlast : (r.readLineInto delim out).isInterrupted = false := by
            rw [hread]
            exact Bool.eq_false_iff.2 hi
          rw [EndsPersistently, readLinePersistently_of_not_interrupted hlast, hread]
          exact ⟨count, rfl, (Option.some.inj h).symm⟩
    · exact endsPersistently_of_unread hlimit hunread (fun _ => ih (r := r.skip _) hlimit) h

/-- Without a limit on lines, reading up to a delimiter as a caller does that knows only the unread
bytes comes to the same end as the delimiter read made persistently: it leaves the same reader
behind a source that was asked the same, and the same bytes, reports the same failure or the number
of bytes appended, and the last of these is the delimiter exactly if the delimiter was met. -/
theorem readUntil_eq_readLinePersistently (r : Reader σ) (delim : UInt8) (out : Bytes)
    (hlimit : r.config.lineLimit = none) :
    let last := r.readLinePersistently delim out
    ∃ taken : List UInt8, last.buffer.toList = out.toList ++ taken ∧
      r.readUntil delim out = last.counted taken.length ∧
      ∀ met, last.result = .ok met → (met = true ↔ taken.getLast? = some delim) := by
  obtain ⟨taken, htaken, hmet, hunmet⟩ := exists_taken_readLinePersistently r delim out
  have huntil : untilWithin delim (r.stock + 1) r out 0 = some (r.readUntil delim out) :=
    (Option.some_get _).symm
  obtain ⟨n, hn, hcall⟩ := endsPersistently_of_untilWithin hlimit huntil
  have hlength : n = taken.length := by
    rw [← Array.length_toList, ← Array.length_toList, htaken, List.length_append] at hn
    omega
  refine ⟨taken, htaken, hlength ▸ hcall, fun met hresult => ?_⟩
  cases met with
  | true =>
    obtain ⟨before, rfl, -⟩ := hmet hresult
    simp
  | false =>
    have hnot := hunmet (by simp [hresult])
    simp only [Bool.false_eq_true, false_iff]
    exact fun hlast => hnot (List.mem_of_getLast? hlast)

/-- A line that is interrupted twice, and a failure behind it. -/
def interruptedLine : Script :=
  [.fail (.bare .interrupted), .data #[1], .fail (.bare .interrupted), .data #[2, 10, 3],
    .fail .bufferNotFilled]

/-- The interrupted line is read in one way as in the other, and three bytes of it are counted. -/
theorem readUntil_interruptedLine :
    let r := ofCapacity (⟨interruptedLine, #[]⟩ : Recorded Script) 2
    r.config.lineLimit = none ∧ (r.readUntil newline #[7]).result = .ok 3 ∧
      ∃ taken : List UInt8, (r.readLinePersistently newline #[7]).buffer.toList = 7 :: taken ∧
        r.readUntil newline #[7] = (r.readLinePersistently newline #[7]).counted taken.length := by
  obtain ⟨taken, htaken, hcall, -⟩ := readUntil_eq_readLinePersistently
    (ofCapacity (⟨interruptedLine, #[]⟩ : Recorded Script) 2) newline #[7] rfl
  exact ⟨rfl, rfl, taken, htaken, hcall⟩

end Finite

end Reader

end BufferedReading
