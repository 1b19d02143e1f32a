import BufferedReading.Proofs.Waited
import BufferedReading.Proofs.Attempts

/-!
# How often a bounded loop turns to its source

A delimiter read with a limit and a read that fills a buffer come to an end whatever their source
does, even if it produces bytes for ever. Each has an allowance of answers: the number of bytes that
it may still take, less one if a byte is unread. An answer that brings bytes uses up one of the
allowance, because the next search takes at least one of them; every other answer is the last one.

The bounds are proved for the attempts over a source that is polled, against any tally of its
answers (`PolledSource.Tallies`). An attempt that is put off leaves its allowance to the next one,
so that the bounds hold for all attempts at one read together. A source that is waited for is one
that is always ready.
-/

namespace BufferedReading

/-- A tally of the answers of a source goes up by one with each of them, and an attempt that is put
off leaves it as it is. -/
def PolledSource.Tallies {σ : Type} [PolledSource σ] (tally : σ → Nat) : Prop :=
  ∀ (s : σ) (n : Nat), tally (PolledSource.poll s n).2 =
    tally s + if (PolledSource.poll s n).1.isReady then 1 else 0

/-- The number of answers in the history of a source under observation. -/
def Recorded.answered {σ : Type} (s : Recorded σ) : Nat :=
  s.history.toList.countP (·.answer.isReady)

/-- The answers in its history are a tally of a source that is polled. -/
theorem Recorded.tallies_answered {σ : Type} [PolledSource σ] :
    PolledSource.Tallies (Recorded.answered (σ := σ)) := by
  intro s n
  obtain ⟨answer, rest, hpoll⟩ : ∃ answer rest, PolledSource.poll s.source n = (answer, rest) :=
    ⟨_, _, rfl⟩
  rw [Recorded.poll_eq hpoll]
  simp [answered, note, List.countP_append, List.countP_cons]

/-- The length of its history is a tally of a source that is waited for. -/
theorem Recorded.tallies_size_history {σ : Type} [ByteSource σ] :
    @PolledSource.Tallies (Recorded σ) (.ofWaited _) (fun s => s.history.size) := by
  intro s n
  obtain ⟨answer, rest, hread⟩ : ∃ answer rest, ByteSource.read s.source n = (answer, rest) :=
    ⟨_, _, rfl⟩
  rw [Reader.poll_ofWaited (Recorded.read_eq hread)]
  simp [note, Poll.isReady]

/-- The number of answers that a search with the given limit may still get. -/
def Scan.allowance (scan : Scan) (limit : Nat) (w : Window) : Nat :=
  limit - scan.taken - min w.buffered 1

theorem Scan.allowance_lt (scan : Scan) (limit : Nat) (w : Window) :
    scan.allowance limit w < limit + 1 := by
  rw [allowance]
  omega

/-- A search that wants more bytes has some of its allowance left, and no more than before. -/
theorem Scan.allowance_of_starved {scan : Scan} {limit : Nat} (hlimit : scan.limit = some limit)
    {w : Window} {out : Bytes} (h : (scan.advance w out).verdict = .starved) :
    0 < limit - (scan.advance w out).scan.taken ∧
      limit - (scan.advance w out).scan.taken ≤ scan.allowance limit w := by
  obtain ⟨hverdict, hscan, -, -⟩ := scan.advance_eq_walk w out
  rw [hverdict] at h
  have htaken : (scan.walk w.toList).taken.length = w.buffered := by
    have hall := scan.taken_append_rest w.toList
    rw [rest_eq_nil_of_starved h, List.append_nil] at hall
    rw [hall, Window.length_toList]
  have hlt : scan.taken + w.buffered < limit := by
    refine Nat.lt_of_not_le fun hle => ?_
    have hover : (scan.add w.buffered).unmet = .overlong limit :=
      unmet_eq_overlong_iff.2 ⟨hlimit, hle⟩
    have hunmet := unmet_of_starved h
    rw [htaken, hover] at hunmet
    exact nomatch hunmet
  rw [hscan, htaken]
  simp only [add, allowance]
  omega

namespace Reader

/-! ### Attempts -/

section Polled

variable {σ : Type} [PolledSource σ] {tally : σ → Nat} {r : Reader σ}

/-- A refill of an empty window is put off, or it gets one answer: this brings bytes, or it is no
reason to go on. -/
theorem exists_tally_pollRefill (htally : PolledSource.Tallies tally) (h : r.window.toList = []) :
    ∃ r', (r.pollRefill = (.pending, r') ∧ tally r'.source = tally r.source ∧
        r'.window.buffered = 0) ∨
      ∃ outcome, r.pollRefill = (.ready outcome, r') ∧ tally r'.source = tally r.source + 1 ∧
        ∀ count, outcome = .ok (.added count) → 0 < r'.window.buffered := by
  obtain ⟨answer, source, hpoll⟩ :
      ∃ answer source, PolledSource.poll r.source r.capacity = (answer, source) := ⟨_, _, rfl⟩
  have hcount := htally r.source r.capacity
  obtain ⟨w, hw, hrefill⟩ := exists_pollRefill_eq h hpoll
  rw [hpoll] at hcount
  refine ⟨(r.meet ⟨.refill, r.capacity, answer⟩ source).withWindow w, ?_⟩
  cases answer with
  | pending =>
    refine .inl ⟨hrefill, hcount, ?_⟩
    rw [window_withWindow, ← Window.length_toList, hw.1, List.length_nil]
  | ready answer =>
    refine .inr ⟨_, hrefill, hcount, fun count hadded => ?_⟩
    rw [window_withWindow, hw.buffered_eq]
    cases ho : answer.outcome r.capacity with
    | bytes n => exact (Answer.bounds_of_outcome ho).1
    | ended => simp [ho, Outcome.fill] at hadded
    | failed cause => simp [ho, Outcome.fill] at hadded

/-- An attempt at a delimiter read with a limit comes to its end within its allowance. If it is put
off, the rest of the allowance is that of the next attempt. -/
theorem exists_pollLineWithin (htally : PolledSource.Tallies tally) {scan : Scan} {limit : Nat}
    (hlimit : scan.limit = some limit) {rounds : Nat}
    (hrounds : scan.allowance limit r.window < rounds) (out : Bytes) :
    ∃ attempt, pollLineWithin rounds r scan out = some attempt ∧
      attempt.scan.limit = some limit ∧
      tally attempt.reader.source ≤ tally r.source + scan.allowance limit r.window ∧
      (attempt.result = .pending →
        tally attempt.reader.source + attempt.scan.allowance limit attempt.reader.window ≤
          tally r.source + scan.allowance limit r.window) := by
  induction rounds generalizing scan r out with
  | zero => omega
  | succ rounds ih =>
    have hkept := (scan.advance_keeps r.window out).2.1.trans hlimit
    cases hv : (scan.advance r.window out).verdict with
    | found =>
      rw [pollLineWithin_of_found hv]
      exact ⟨_, rfl, hkept, Nat.le_add_right .., nofun⟩
    | overlong bound =>
      rw [pollLineWithin_of_overlong hv]
      exact ⟨_, rfl, hkept, Nat.le_add_right .., nofun⟩
    | starved =>
      obtain ⟨hsome, hle⟩ := Scan.allowance_of_starved hlimit hv
      have hdry : (r.withWindow (scan.advance r.window out).window).window.toList = [] :=
        Scan.toList_advance_of_starved hv
      obtain ⟨r', hcases⟩ := exists_tally_pollRefill htally hdry
      rcases hcases with ⟨hrefill, hcount, hempty⟩ | ⟨outcome, hrefill, hcount, hadded⟩
      · rw [pollLineWithin_of_pending hv hrefill]
        have hcount : tally r'.source = tally r.source := hcount
        refine ⟨_, rfl, hkept, by simp only [hcount]; omega, fun _ => ?_⟩
        simp only [Scan.allowance, hempty, hcount]
        exact Nat.add_le_add_left (Nat.le_trans (Nat.sub_le ..) hle) _
      · rw [pollLineWithin_of_refill hv hrefill]
        have hcount : tally r'.source = tally r.source + 1 := hcount
        have hlast : tally r'.source ≤ tally r.source + scan.allowance limit r.window := by omega
        rcases outcome with e | count | _ | _
        · exact ⟨_, rfl, hkept, hlast, nofun⟩
        · -- the answer has used up one of the allowance, and the rest of it goes to the next round
          have hpos := hadded count rfl
          have hnext : (scan.advance r.window out).scan.allowance limit r'.window + 1 ≤
              scan.allowance limit r.window := by
            rw [Scan.allowance]
            omega
          obtain ⟨attempt, hattempt, hkept', hbound, hpending⟩ :=
            ih (r := r') hkept (by omega) (scan.advance r.window out).out
          refine ⟨attempt, hattempt, hkept', by omega, fun hp => ?_⟩
          have := hpending hp
          omega
        · exact ⟨_, rfl, hkept, hlast, nofun⟩
        · exact ⟨_, rfl, hkept, hlast, nofun⟩

/-- An attempt at a read gets one answer at most, and none if it is put off. -/
theorem tally_pollRead (htally : PolledSource.Tallies tally) (r : Reader σ) (buffer : Bytes) :
    tally (r.pollRead buffer).reader.source ≤ tally r.source + 1 ∧
      ((r.pollRead buffer).result = .pending →
        tally (r.pollRead buffer).reader.source = tally r.source) := by
  by_cases hsize : buffer.size = 0
  · rw [pollRead, if_pos hsize]
    exact ⟨Nat.le_succ _, (absurd · (Poll.ready_ne_pending _))⟩
  by_cases hunread : r.window.toList = []
  · by_cases hcap : r.capacity ≤ buffer.size
    · obtain ⟨answer, source, hpoll⟩ :
          ∃ answer source, PolledSource.poll r.source buffer.size = (answer, source) := ⟨_, _, rfl⟩
      have hcount := htally r.source buffer.size
      rw [hpoll] at hcount
      rw [pollRead_of_bypass hsize hunread hcap, pollBypass_eq hpoll]
      cases answer with
      | pending => exact ⟨hcount ▸ Nat.le_succ _, fun _ => hcount⟩
      | ready answer => exact ⟨Nat.le_of_eq hcount, (absurd · (Poll.ready_ne_pending _))⟩
    · obtain ⟨r', hcases⟩ := exists_tally_pollRefill htally hunread
      rcases hcases with ⟨hrefill, hcount, -⟩ | ⟨outcome, hrefill, hcount, -⟩
      · rw [pollRead_of_pending hsize hunread hcap hrefill]
        exact ⟨hcount ▸ Nat.le_succ _, fun _ => hcount⟩
      · rw [pollRead_of_refill hsize hunread hcap hrefill]
        rcases outcome with e | count | _ | _
        all_goals exact ⟨Nat.le_of_eq hcount, (absurd · (Poll.ready_ne_pending _))⟩
  · rw [pollRead_of_unread hsize hunread]
    exact ⟨Nat.le_succ _, (absurd · (Poll.ready_ne_pending _))⟩

/-- An attempt to fill a buffer gets no more answers than bytes are missing. If it is put off, the
next attempt may get as many as are missing then. -/
theorem tally_pollExact (htally : PolledSource.Tallies tally) (r : Reader σ) (done rest : Bytes) :
    tally (r.pollExact done rest).reader.source ≤ tally r.source + rest.size ∧
      ((r.pollExact done rest).result = .pending →
        tally (r.pollExact done rest).reader.source + (r.pollExact done rest).rest.size ≤
          tally r.source + rest.size) := by
  fun_induction pollExact r done rest with
  | case1 r done rest hsize => exact ⟨Nat.le_add_right .., (absurd · (Poll.ready_ne_pending _))⟩
  | case2 r done rest hsize buffer r' hread =>
    obtain ⟨-, hpending⟩ := tally_pollRead htally r rest
    have hkept := size_buffer_pollRead r rest
    rw [hread] at hpending hkept
    have hcount : tally r'.source = tally r.source := hpending rfl
    have hkept : buffer.size = rest.size := hkept
    have hbound : tally r'.source + buffer.size ≤ tally r.source + rest.size := by omega
    exact ⟨Nat.le_trans (Nat.le_add_right ..) hbound, fun _ => hbound⟩
  | case3 r done rest hsize e buffer r' hread =>
    obtain ⟨hle, -⟩ := tally_pollRead htally r rest
    rw [hread] at hle
    have hbound := Nat.le_trans hle (Nat.add_le_add_left (Nat.pos_of_ne_zero hsize) _)
    exact ⟨hbound, (absurd · (Poll.ready_ne_pending _))⟩
  | case4 r done rest hsize buffer r' hread =>
    obtain ⟨hle, -⟩ := tally_pollRead htally r rest
    rw [hread] at hle
    have hbound := Nat.le_trans hle (Nat.add_le_add_left (Nat.pos_of_ne_zero hsize) _)
    exact ⟨hbound, (absurd · (Poll.ready_ne_pending _))⟩
  | case5 r done rest hsize count buffer r' hread hz hover =>
    obtain ⟨hle, -⟩ := tally_pollRead htally r rest
    rw [hread] at hle
    have hbound := Nat.le_trans hle (Nat.add_le_add_left (Nat.pos_of_ne_zero hsize) _)
    exact ⟨hbound, (absurd · (Poll.ready_ne_pending _))⟩
  | case6 r done rest hsize count buffer r' hread hz hover ih =>
    obtain ⟨hle, -⟩ := tally_pollRead htally r rest
    have hkept := size_buffer_pollRead r rest
    rw [hread] at hle hkept
    have hle : tally r'.source ≤ tally r.source + 1 := hle
    have hkept : buffer.size = rest.size := hkept
    rw [Array.size_extract] at ih
    exact ⟨by omega, fun hp => by have := ih.2 hp; omega⟩

end Polled

/-! ### Reads that are waited for -/

section Blocking

variable {σ : Type} [ByteSource σ]

/-- A delimiter read with a limit comes to its end within its allowance. -/
theorem exists_lineWithin (r : Reader (Recorded σ)) {scan : Scan} {limit : Nat}
    (hlimit : scan.limit = some limit) {rounds : Nat}
    (hrounds : scan.allowance limit r.window < rounds) (out : Bytes) :
    ∃ call, lineWithin rounds scan r out = some call ∧
      call.reader.source.history.size ≤
        r.source.history.size + scan.allowance limit r.window := by
  obtain ⟨attempt, hattempt, -, hbound, -⟩ := @exists_pollLineWithin (Recorded σ) (.ofWaited _) _ r
    Recorded.tallies_size_history scan limit hlimit rounds hrounds out
  have heq := r.lineWithin_eq_ofWaited rounds scan out
  rw [hattempt, Option.map_some, Option.map_eq_some_iff] at heq
  obtain ⟨call, hcall, hready⟩ := heq
  have hreader : call.reader = attempt.reader := congrArg Call.reader hready
  exact ⟨call, hcall, hreader ▸ hbound⟩

/-- Filling a buffer takes no more requests than it has bytes. -/
theorem size_history_readExact (r : Reader (Recorded σ)) (buffer : Bytes) :
    (r.readExact buffer).reader.source.history.size ≤ r.source.history.size + buffer.size := by
  obtain ⟨hbound, -⟩ := @tally_pollExact (Recorded σ) (.ofWaited _) _
    Recorded.tallies_size_history r #[] buffer
  obtain ⟨-, -, hreader⟩ := r.pollExact_ofWaited #[] buffer
  rw [hreader] at hbound
  exact hbound

end Blocking

end Reader

/-! ### All attempts at one read -/

/-- Attempts that each have an outcome within an allowance, and leave the rest of it to the next
one, stay within the allowance of the first. -/
theorem Poll.exists_drive_within {ς α : Type} {attempt : ς → Option (Poll α × ς)} (P : ς → Prop)
    (tally allowance : ς → Nat)
    (hstep : ∀ s, P s → ∃ p s', attempt s = some (p, s') ∧ tally s' ≤ tally s + allowance s ∧
      (p = .pending → P s' ∧ tally s' + allowance s' ≤ tally s + allowance s))
    (attempts made : Nat) {s : ς} (hs : P s) :
    ∃ p total s', drive attempt attempts made s = some (p, total, s') ∧
      tally s' ≤ tally s + allowance s := by
  induction attempts generalizing made s with
  | zero => exact ⟨_, _, _, rfl, Nat.le_add_right ..⟩
  | succ attempts ih =>
    obtain ⟨p, s', hattempt, hbound, hpending⟩ := hstep s hs
    simp only [drive, hattempt]
    cases p with
    | ready a => exact ⟨_, _, _, rfl, hbound⟩
    | pending =>
      obtain ⟨hs', hleft⟩ := hpending rfl
      obtain ⟨p, total, s'', hdrive, hbound'⟩ := ih (made + 1) hs'
      exact ⟨p, total, s'', hdrive, Nat.le_trans hbound' hleft⟩

namespace PolledSession

variable {σ : Type} [PolledSource σ] {tally : σ → Nat}

/-- The attempts at a delimiter read with a limit stay within its allowance. -/
theorem exists_driveLine (htally : PolledSource.Tallies tally) {r : Reader σ} {limit : Nat}
    (hlimit : r.config.lineLimit = some limit) (attempts : Nat) (delim : UInt8) (out : Bytes) :
    ∃ p made s, driveLine (limit + 1) attempts r delim out = some (p, made, s) ∧
      tally s.2.source ≤
        tally r.source + (Scan.start delim r.config.lineLimit).allowance limit r.window := by
  unfold driveLine
  refine Poll.exists_drive_within (fun s : (Scan × Bytes) × Reader σ => s.1.1.limit = some limit)
    (fun s => tally s.2.source) (fun s => s.1.1.allowance limit s.2.window) ?_ attempts 0 hlimit
  rintro ⟨⟨scan, out⟩, r⟩ hs
  obtain ⟨attempt, hattempt, hkept, hbound, hpending⟩ :=
    Reader.exists_pollLineWithin htally hs (scan.allowance_lt limit r.window) out
  simp only [hattempt]
  exact ⟨_, _, rfl, hbound, fun hp => ⟨hkept, hpending hp⟩⟩

/-- The attempts at the next line of a stream stay within the allowance of the line under way. -/
theorem exists_driveNext (htally : PolledSource.Tallies tally) {s : LineStream σ} {limit : Nat}
    (hlimit : s.scan.limit = some limit) (attempts : Nat) :
    ∃ p made s', driveNext (limit + 1) attempts s = some (p, made, s') ∧
      tally s'.reader.source ≤
        tally s.reader.source + s.scan.allowance limit s.reader.window := by
  refine Poll.exists_drive_within (fun s : LineStream σ => s.scan.limit = some limit)
    (fun s => tally s.reader.source) (fun s => s.scan.allowance limit s.reader.window) ?_
    attempts 0 hlimit
  intro s hs
  by_cases hfinished : s.finished = true
  · rw [LineStream.pollNextWithin, if_pos hfinished]
    exact ⟨_, _, rfl, Nat.le_add_right .., (absurd · (Poll.ready_ne_pending _))⟩
  · obtain ⟨attempt, hattempt, hkept, hbound, hpending⟩ :=
      Reader.exists_pollLineWithin htally hs (s.scan.allowance_lt limit s.reader.window) s.pending
    obtain ⟨p, s', hconclude⟩ : ∃ p s', LineStream.conclude s.delim attempt = (p, s') :=
      ⟨_, _, rfl⟩
    have hreader := LineStream.reader_conclude s.delim attempt
    rw [hconclude] at hreader
    rw [LineStream.pollNextWithin, if_neg hfinished, hattempt, Option.map_some, hconclude]
    refine ⟨p, s', rfl, hreader ▸ hbound, ?_⟩
    rintro rfl
    obtain ⟨hresult, rfl⟩ := LineStream.conclude_of_pending hconclude
    exact ⟨hkept, hpending hresult⟩

/-- The attempts to fill a buffer get no more answers than it has bytes. -/
theorem exists_driveExact (htally : PolledSource.Tallies tally) (attempts : Nat) (r : Reader σ)
    (buffer : Bytes) :
    ∃ p made s, driveExact attempts r buffer = some (p, made, s) ∧
      tally s.2.source ≤ tally r.source + buffer.size := by
  unfold driveExact
  refine Poll.exists_drive_within (fun _ : (Bytes × Bytes) × Reader σ => True)
    (fun s => tally s.2.source) (fun s => s.1.2.size) ?_ attempts 0 trivial
  rintro ⟨⟨done, rest⟩, r⟩ -
  obtain ⟨hbound, hpending⟩ := Reader.tally_pollExact htally r done rest
  exact ⟨_, _, rfl, hbound, fun hp => ⟨trivial, hpending hp⟩⟩

end PolledSession

end BufferedReading
