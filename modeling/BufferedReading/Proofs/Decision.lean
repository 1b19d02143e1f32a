import BufferedReading.Proofs.Allowance
import BufferedReading.Proofs.Discipline

/-!
# How long a loop without a limit goes on

A delimiter read without a limit asks its source again and again to fill the arena of its window
from the start. `PolledSource.fillTimes` is the source and that buffer behind so many requests,
without a reader, and `PolledSource.Decides` says that the answer to the next request brings the
delimiter or is the end of the stream, a failure or a false count. The read comes to its end with
the first request that is decided in this way, and makes none if the delimiter is already unread
(`Reader.exists_lineWithin_of_decides`).

`loops_end` puts the bounds on all loops together.
-/

namespace BufferedReading

namespace PolledSource

variable {σ : Type} [PolledSource σ]

/-- A source and a buffer, behind one more request to fill the buffer from its start. -/
def fillAgain (s : σ × Bytes) : σ × Bytes :=
  match poll s.1 s.2.size with
  | (.pending, source) => (source, s.2)
  | (.ready answer, source) => (source, answer.onto s.2)

/-- A source and a buffer, behind so many more requests to fill the buffer from its start. -/
def fillTimes : Nat → σ × Bytes → σ × Bytes
  | 0, s => s
  | times + 1, s => fillTimes times (fillAgain s)

theorem fillTimes_add (m n : Nat) (s : σ × Bytes) :
    fillTimes (m + n) s = fillTimes n (fillTimes m s) := by
  induction m generalizing s with
  | zero => rw [Nat.zero_add, fillTimes]
  | succ m ih => rw [Nat.succ_add, fillTimes, fillTimes, ih]

/-- If every request adds one to a count then so many requests add as many. -/
theorem count_fillTimes {count : σ → Nat}
    (hcount : ∀ (s : σ) (n : Nat), count (poll s n).2 = count s + 1) (times : Nat)
    (s : σ × Bytes) : count (fillTimes times s).1 = count s.1 + times := by
  induction times generalizing s with
  | zero => rfl
  | succ times ih =>
    have hnext : (fillAgain s).1 = (poll s.1 s.2.size).2 := by
      unfold fillAgain
      split <;> simp_all
    rw [fillTimes, ih, hnext, hcount]
    omega

/-- Whether the answer to the next request decides a search for the delimiter: it brings the
delimiter, or it brings no bytes at all. An answer that is put off decides nothing. -/
def Decides (delim : UInt8) (s : σ × Bytes) : Prop :=
  match (poll s.1 s.2.size).1 with
  | .pending => False
  | .ready answer => (∀ count, answer.outcome s.2.size ≠ .bytes count) ∨ delim ∈ answer.gained s.2

end PolledSource

open PolledSource

namespace Window

/-- Compaction of an empty window leaves its arena as it was. -/
theorem arena_compact_of_empty {w : Window} (h : w.toList = []) : w.compact.arena = w.arena := by
  have hunread : w.unread = #[] := Array.toList_inj.1 h
  unfold compact
  split
  · rfl
  · apply Array.toList_inj.1
    simp [hunread, Bytes.toList_overwrite]

/-- A commit leaves the arena as it was. -/
@[simp] theorem arena_commit (w : Window) (count : Nat) : (w.commit count).2.arena = w.arena := by
  unfold commit
  split
  · rfl
  · split <;> rfl

/-- An empty window of which all is free is written to from its start. -/
theorem writePos_of_free {w : Window} (h : w.free = w.capacity) : w.writePos = 0 := by
  have hpos := w.size_pos
  unfold free capacity at h
  omega

end Window

/-- Without a limit, a search goes on exactly as long as it has not come to its delimiter. -/
theorem Scan.verdict_walk_of_unlimited {scan : Scan} (hlimit : scan.limit = none)
    (bytes : List UInt8) :
    (scan.walk bytes).verdict = if scan.delim ∈ bytes then .found else .starved := by
  have hall := scan.taken_append_rest bytes
  cases hv : (scan.walk bytes).verdict with
  | found =>
    obtain ⟨before, hbefore⟩ := taken_of_found hv
    have hmem : scan.delim ∈ bytes := by
      rw [← hall, hbefore]
      simp
    rw [if_pos hmem]
  | overlong limit => rw [limit_of_overlong hv] at hlimit; exact nomatch hlimit
  | starved =>
    have hnot : scan.delim ∉ (scan.walk bytes).taken := delim_notMem_taken (by rw [hv]; simp)
    rw [rest_eq_nil_of_starved hv, List.append_nil] at hall
    rw [hall] at hnot
    rw [if_neg hnot]

namespace Reader

/-- The source of a reader and the arena of its window, as a source and a buffer. -/
def feed {σ : Type} (r : Reader σ) : σ × Bytes := (r.source, r.window.arena)

/-- A search passes over unread bytes and leaves the arena as it was. -/
theorem feed_withWindow_advance {σ : Type} (r : Reader σ) (scan : Scan) (out : Bytes) :
    (r.withWindow (scan.advance r.window out).window).feed = r.feed := by
  rw [feed, window_withWindow, Scan.window_advance]
  rfl

section Polled

variable {σ : Type} [PolledSource σ] {r : Reader σ}

/-- A refill of an empty window asks the source to fill the arena from its start. -/
theorem feed_pollRefill (h : r.window.toList = []) : r.pollRefill.2.feed = fillAgain r.feed := by
  have hempty : r.window.compact.toList = [] := by rw [Window.toList_compact, h]
  have hb : r.window.buffered = 0 := by rw [← Window.length_toList, h, List.length_nil]
  have hfree : r.window.compact.free = r.window.compact.capacity := by simp [hb]
  have hsize : r.window.compact.free = r.window.arena.size := by simp [hb, Window.capacity]
  have hpos : r.window.arena.size ≠ 0 := Nat.ne_of_gt r.window.size_pos
  have harena := Window.arena_compact_of_empty h
  unfold pollRefill fillAgain feed
  simp only [hsize, if_neg hpos]
  rcases PolledSource.poll r.source r.window.arena.size
    with ⟨_ | ⟨⟨written, count⟩ | cause⟩, source⟩
  · simp only [harena]
  · simp only [Answer.onto]
    have hstage : ((r.window.compact.stage written).commit count).2.arena =
        r.window.arena.overwrite 0 written := by
      rw [Window.arena_commit]
      change r.window.compact.arena.overwrite r.window.compact.writePos written = _
      rw [Window.writePos_of_free hfree, harena]
    simp only [← hstage]
    split <;> rfl
  · simp only [note, harena, Answer.onto]

/-- A refill of an empty window is put off, or it is answered. The answer decides a search unless
bytes were added and the delimiter is not among them. -/
theorem exists_pollRefill_decides (h : r.window.toList = []) (delim : UInt8) :
    ∃ r', r'.feed = fillAgain r.feed ∧
      ((r.pollRefill = (.pending, r') ∧ r'.window.toList = [] ∧ ¬ Decides delim r.feed) ∨
        (∃ count, r.pollRefill = (.ready (.ok (.added count)), r') ∧
          (Decides delim r.feed ↔ delim ∈ r'.window.toList)) ∨
        ∃ outcome, r.pollRefill = (.ready outcome, r') ∧
          (∀ count, outcome ≠ .ok (.added count)) ∧ Decides delim r.feed) := by
  obtain ⟨answer, source, hpoll⟩ :
      ∃ answer source, PolledSource.poll r.source r.capacity = (answer, source) := ⟨_, _, rfl⟩
  have hfeed := feed_pollRefill h
  have hlist : r.pollRefill.2.window.toList = r.yielded .refill := toList_refill h
  obtain ⟨w, hw, hrefill⟩ := exists_pollRefill_eq h hpoll
  have hask : PolledSource.poll r.feed.1 r.feed.2.size = (answer, source) := hpoll
  rw [hrefill] at hfeed hlist
  refine ⟨_, hfeed, ?_⟩
  unfold Decides
  rw [hask]
  cases answer with
  | pending => exact .inl ⟨hrefill, hw.1, id⟩
  | ready answer =>
    simp only [yielded, hpoll, Window.arena_compact_of_empty h] at hlist
    cases ho : answer.outcome r.capacity with
    | bytes count =>
      refine .inr (.inl ⟨count, hrefill.trans (by rw [Poll.map, ho]; rfl), ?_⟩)
      rw [hlist]
      constructor
      · rintro (hnone | hmem)
        · exact absurd ho (hnone count)
        · exact hmem
      · exact .inr
    | ended =>
      refine .inr (.inr ⟨_, hrefill, ?_, .inl fun count hbytes => ?_⟩)
      · simp [ho, Outcome.fill]
      · cases ho.symm.trans hbytes
    | failed cause =>
      refine .inr (.inr ⟨_, hrefill, ?_, .inl fun count hbytes => ?_⟩)
      · simp [ho, Outcome.fill]
      · cases ho.symm.trans hbytes

/-- An attempt at a delimiter read without a limit comes to its end with the first request that is
decided, or it is put off before that. -/
theorem exists_pollLineWithin_of_decides {scan : Scan} (hlimit : scan.limit = none)
    (hunread : scan.delim ∉ r.window.toList) {k rounds : Nat}
    (hopen : ∀ j < k, ¬ Decides scan.delim (fillTimes j r.feed))
    (hdecides : Decides scan.delim (fillTimes k r.feed)) (hrounds : k + 1 < rounds) (out : Bytes) :
    ∃ attempt, pollLineWithin rounds r scan out = some attempt ∧
      attempt.scan.delim = scan.delim ∧ attempt.scan.limit = none ∧
      ((attempt.result.isReady = true ∧ attempt.reader.feed = fillTimes (k + 1) r.feed) ∨
        (attempt.result = .pending ∧ attempt.reader.window.toList = [] ∧
          ∃ j < k, attempt.reader.feed = fillTimes (j + 1) r.feed)) := by
  induction rounds generalizing k scan r out with
  | zero => omega
  | succ rounds ih =>
    obtain ⟨hverdict, -, -, -⟩ := scan.advance_eq_walk r.window out
    obtain ⟨hdelim, hkept, -⟩ := scan.advance_keeps r.window out
    have hkept := hkept.trans hlimit
    have hv : (scan.advance r.window out).verdict = .starved := by
      rw [hverdict, Scan.verdict_walk_of_unlimited hlimit, if_neg hunread]
    have hdry : (r.withWindow (scan.advance r.window out).window).window.toList = [] :=
      Scan.toList_advance_of_starved hv
    obtain ⟨r', hfeed, hcases⟩ := exists_pollRefill_decides hdry scan.delim
    rw [feed_withWindow_advance] at hfeed hcases
    rcases hcases with ⟨hrefill, hempty, hundecided⟩ | ⟨count, hrefill, hiff⟩ |
      ⟨outcome, hrefill, hlast, hnow⟩
    · rw [pollLineWithin_of_pending hv hrefill]
      have hpos : 0 < k := by
        refine Nat.pos_of_ne_zero fun hzero => hundecided ?_
        rwa [hzero] at hdecides
      exact ⟨_, rfl, hdelim, hkept, .inr ⟨rfl, hempty, 0, hpos, hfeed⟩⟩
    · rw [pollLineWithin_of_refill hv hrefill, pollLineBehind]
      cases k with
      | zero =>
        -- the delimiter has come, and one more search finds it
        obtain ⟨more, rfl⟩ : ∃ more, rounds = more + 1 := ⟨rounds - 1, by omega⟩
        have hfound : ((scan.advance r.window out).scan.advance r'.window
            (scan.advance r.window out).out).verdict = .found := by
          rw [(Scan.advance_eq_walk ..).1, Scan.verdict_walk_of_unlimited hkept, hdelim,
            if_pos (hiff.1 hdecides)]
        obtain ⟨hdelim', hkept', -⟩ := (scan.advance r.window out).scan.advance_keeps r'.window
          (scan.advance r.window out).out
        rw [pollLineWithin_of_found hfound]
        refine ⟨_, rfl, hdelim'.trans hdelim, hkept'.trans hkept, .inl ⟨rfl, ?_⟩⟩
        rw [feed_withWindow_advance]
        exact hfeed
      | succ k =>
        have hunread' : (scan.advance r.window out).scan.delim ∉ r'.window.toList := by
          rw [hdelim, ← hiff]
          exact hopen 0 (Nat.zero_lt_succ k)
        have hopen' : ∀ j < k,
            ¬ Decides (scan.advance r.window out).scan.delim (fillTimes j r'.feed) := by
          intro j hj
          rw [hdelim, hfeed]
          exact hopen (j + 1) (Nat.succ_lt_succ hj)
        have hdecides' : Decides (scan.advance r.window out).scan.delim (fillTimes k r'.feed) := by
          rw [hdelim, hfeed]
          exact hdecides
        obtain ⟨attempt, hattempt, hdelim', hkept', hends⟩ :=
          ih hkept hunread' hopen' hdecides' (by omega) (scan.advance r.window out).out
        refine ⟨attempt, hattempt, hdelim'.trans hdelim, hkept', ?_⟩
        rw [hfeed] at hends
        rcases hends with hready | ⟨hpending, hempty, j, hj, hfeed'⟩
        · exact .inl hready
        · exact .inr ⟨hpending, hempty, j + 1, Nat.succ_lt_succ hj, hfeed'⟩
    · rw [pollLineWithin_of_refill hv hrefill]
      have hzero : k = 0 := by
        refine Nat.eq_zero_of_not_pos fun hpos => hopen 0 hpos hnow
      subst hzero
      rcases outcome with e | count | _ | _
      · exact ⟨_, rfl, hdelim, hkept, .inl ⟨rfl, hfeed⟩⟩
      · exact absurd rfl (hlast count)
      · exact ⟨_, rfl, hdelim, hkept, .inl ⟨rfl, hfeed⟩⟩
      · exact ⟨_, rfl, hdelim, hkept, .inl ⟨rfl, hfeed⟩⟩

end Polled

/-- A delimiter read of unread bytes with the delimiter among them makes no request. -/
theorem lineWithin_of_mem {σ : Type} [ByteSource σ] {r : Reader σ} {delim : UInt8}
    (hlimit : r.config.lineLimit = none) (hmem : delim ∈ r.window.toList) (out : Bytes) :
    ∃ call, lineWithin 1 (.start delim r.config.lineLimit) r out = some call ∧
      call.result = .ok true ∧ call.reader.feed = r.feed := by
  have hv : ((Scan.start delim r.config.lineLimit).advance r.window out).verdict = .found := by
    rw [(Scan.advance_eq_walk ..).1, Scan.verdict_walk_of_unlimited hlimit]
    exact if_pos hmem
  exact ⟨_, lineWithin_of_found hv, rfl, feed_withWindow_advance ..⟩

/-- A delimiter read without a limit comes to its end with the first request that is decided. -/
theorem exists_lineWithin_of_decides {σ : Type} [ByteSource σ] {r : Reader σ} {delim : UInt8}
    (hlimit : r.config.lineLimit = none) (hunread : delim ∉ r.window.toList) {k : Nat}
    (hopen : ∀ j < k, ¬ @Decides σ (.ofWaited σ) delim (@fillTimes σ (.ofWaited σ) j r.feed))
    (hdecides : @Decides σ (.ofWaited σ) delim (@fillTimes σ (.ofWaited σ) k r.feed))
    (out : Bytes) :
    ∃ call, lineWithin (k + 2) (.start delim r.config.lineLimit) r out = some call ∧
      call.reader.feed = @fillTimes σ (.ofWaited σ) (k + 1) r.feed := by
  obtain ⟨attempt, hattempt, -, -, hends⟩ := @exists_pollLineWithin_of_decides σ (.ofWaited σ) r
    (.start delim r.config.lineLimit) hlimit hunread k (k + 2) hopen hdecides
    (Nat.lt_succ_self _) out
  have heq := r.lineWithin_eq_ofWaited (k + 2) (.start delim r.config.lineLimit) out
  rw [hattempt, Option.map_some, Option.map_eq_some_iff] at heq
  obtain ⟨call, hcall, hready⟩ := heq
  have hresult : .ready call.result = attempt.result := congrArg Call.result hready
  have hreader : call.reader = attempt.reader := congrArg Call.reader hready
  rcases hends with ⟨-, hfeed⟩ | ⟨hpending, -⟩
  · exact ⟨call, hcall, hreader ▸ hfeed⟩
  · exact absurd (hresult.trans hpending) (Poll.ready_ne_pending _)

end Reader

/-! ### All attempts at one read -/

namespace PolledSession

variable {σ : Type} [PolledSource σ]

/-- The attempts at a delimiter read without a limit come to their end with the first request that
is decided, if there are as many of them as may be put off before that. -/
theorem exists_drive_of_decides {r : Reader σ} {scan : Scan} (hlimit : scan.limit = none)
    (hunread : scan.delim ∉ r.window.toList) {k rounds attempts : Nat}
    (hopen : ∀ j < k, ¬ Decides scan.delim (fillTimes j r.feed))
    (hdecides : Decides scan.delim (fillTimes k r.feed)) (hrounds : k + 1 < rounds)
    (hattempts : k < attempts) (made : Nat) (out : Bytes) :
    ∃ result total s, Poll.drive
        (fun ((scan, out), r) =>
          (Reader.pollLineWithin rounds r scan out).map fun attempt =>
            (attempt.result, (attempt.scan, attempt.out), attempt.reader))
        attempts made ((scan, out), r) = some (.ready result, total, s) ∧
      s.2.feed = fillTimes (k + 1) r.feed := by
  induction attempts generalizing k r scan out made with
  | zero => omega
  | succ attempts ih =>
    obtain ⟨attempt, hattempt, hdelim, hkept, hends⟩ :=
      Reader.exists_pollLineWithin_of_decides hlimit hunread hopen hdecides hrounds out
    simp only [Poll.drive, hattempt, Option.map_some]
    rcases hends with ⟨hready, hfeed⟩ | ⟨hpending, hempty, j, hj, hfeed⟩
    · cases hresult : attempt.result with
      | pending => simp [hresult, Poll.isReady] at hready
      | ready result => exact ⟨_, _, _, rfl, hfeed⟩
    · -- the requests up to the one that was put off are made, and the others are still to come
      obtain ⟨later, rfl⟩ : ∃ later, k = j + 1 + later := ⟨k - (j + 1), by omega⟩
      have hunread' : attempt.scan.delim ∉ attempt.reader.window.toList := by
        rw [hempty]
        exact List.not_mem_nil
      have hopen' : ∀ i < later,
          ¬ Decides attempt.scan.delim (fillTimes i attempt.reader.feed) := by
        intro i hi
        rw [hdelim, hfeed, ← fillTimes_add]
        exact hopen _ (by omega)
      have hdecides' : Decides attempt.scan.delim (fillTimes later attempt.reader.feed) := by
        rw [hdelim, hfeed, ← fillTimes_add]
        exact hdecides
      obtain ⟨result, total, s, hdrive, hfeed'⟩ :=
        ih hkept hunread' hopen' hdecides' (by omega) (by omega) (made + 1) attempt.out
      simp only [hpending]
      refine ⟨result, total, s, hdrive, ?_⟩
      rw [hfeed', hfeed, ← fillTimes_add]
      rfl

/-- A delimiter read of unread bytes with the delimiter among them needs one attempt and makes no
request. -/
theorem exists_driveLine_of_mem {r : Reader σ} {delim : UInt8} (hlimit : r.config.lineLimit = none)
    (hmem : delim ∈ r.window.toList) (out : Bytes) :
    ∃ s, driveLine 1 1 r delim out = some (.ready (.ok true), 1, s) ∧ s.2.feed = r.feed := by
  have hv : ((Scan.start delim r.config.lineLimit).advance r.window out).verdict = .found := by
    rw [(Scan.advance_eq_walk ..).1, Scan.verdict_walk_of_unlimited hlimit]
    exact if_pos hmem
  simp only [driveLine, Poll.drive, Reader.pollLineWithin_of_found hv, Option.map_some]
  exact ⟨_, rfl, Reader.feed_withWindow_advance ..⟩

end PolledSession

/-! ### The loops together -/

namespace Reader

/-- With a limit, a delimiter read and the next line of a splitter end with at most so many
requests, and with one less if a byte was unread. -/
structure Bounded {σ : Type} [ByteSource σ] (r : Reader (Recorded σ)) (limit : Nat) : Prop where
  line : ∀ (delim : UInt8) (out : Bytes), ∃ call,
    r.lineWithin (limit + 1) (.start delim r.config.lineLimit) out = some call ∧
      call.reader.source.history.size ≤ r.source.history.size + (limit - min r.buffered 1)
  next : ∀ (delim : UInt8) (finished : Bool), ∃ item? s,
    Splitter.nextWithin (limit + 1) ⟨r, delim, finished⟩ = some (item?, s) ∧
      s.reader.source.history.size ≤ r.source.history.size + (limit - min r.buffered 1)

/-- With a limit, an attempt at a delimiter read ends, and all attempts at one read together get at
most so many answers, and one less if a byte was unread. So it is with the attempts at a line of a
stream, of which some bytes may have been taken already. -/
structure PollBounded {σ : Type} [PolledSource σ] (r : Reader (Recorded σ)) (limit : Nat) :
    Prop where
  attempt : ∀ (scan : Scan) (out : Bytes), scan.limit = some limit →
    (r.pollLineWithin (limit + 1) scan out).isSome
  line : ∀ (attempts : Nat) (delim : UInt8) (out : Bytes), ∃ p made s,
    PolledSession.driveLine (limit + 1) attempts r delim out = some (p, made, s) ∧
      s.2.source.answered ≤ r.source.answered + (limit - min r.buffered 1)
  next : ∀ (attempts : Nat) (s : LineStream (Recorded σ)), s.reader = r →
    s.scan.limit = some limit → ∃ p made s',
      PolledSession.driveNext (limit + 1) attempts s = some (p, made, s') ∧
        s'.reader.source.answered ≤
          r.source.answered + (limit - s.scan.taken - min r.buffered 1)

/-- Without a limit, a delimiter read ends with the first request that is decided. -/
structure Decided {σ : Type} [ByteSource σ] (r : Reader (Recorded σ)) : Prop where
  unread : ∀ (delim : UInt8) (out : Bytes), delim ∈ r.window.toList → ∃ call,
    r.lineWithin 1 (.start delim r.config.lineLimit) out = some call ∧
      call.result = .ok true ∧ call.reader.source = r.source
  asked : ∀ (delim : UInt8) (out : Bytes) (k : Nat), delim ∉ r.window.toList →
    (∀ j < k, ¬ @Decides _ (.ofWaited _) delim (@fillTimes _ (.ofWaited _) j r.feed)) →
    @Decides _ (.ofWaited _) delim (@fillTimes _ (.ofWaited _) k r.feed) → ∃ call,
      r.lineWithin (k + 2) (.start delim r.config.lineLimit) out = some call ∧
        call.reader.source.history.size = r.source.history.size + (k + 1)

/-- Without a limit, the attempts at a delimiter read end with the first request that is decided.
-/
structure PollDecided {σ : Type} [PolledSource σ] (r : Reader (Recorded σ)) : Prop where
  unread : ∀ (delim : UInt8) (out : Bytes), delim ∈ r.window.toList → ∃ s,
    PolledSession.driveLine 1 1 r delim out = some (.ready (.ok true), 1, s) ∧
      s.2.source = r.source
  asked : ∀ (delim : UInt8) (out : Bytes) (k : Nat), delim ∉ r.window.toList →
    (∀ j < k, ¬ Decides delim (fillTimes j r.feed)) → Decides delim (fillTimes k r.feed) →
      ∃ result made s,
        PolledSession.driveLine (k + 2) (k + 1) r delim out = some (.ready result, made, s) ∧
          s.2.source.history.size = r.source.history.size + (k + 1)

theorem bounded {σ : Type} [ByteSource σ] {r : Reader (Recorded σ)} {limit : Nat}
    (hlimit : r.config.lineLimit = some limit) : r.Bounded limit := by
  have hline : ∀ (delim : UInt8) (out : Bytes), ∃ call,
      r.lineWithin (limit + 1) (.start delim r.config.lineLimit) out = some call ∧
        call.reader.source.history.size ≤ r.source.history.size + (limit - min r.buffered 1) :=
    fun delim out => exists_lineWithin r hlimit (Scan.allowance_lt ..) out
  refine ⟨hline, fun delim finished => ?_⟩
  cases finished with
  | true => exact ⟨none, ⟨r, delim, true⟩, rfl, Nat.le_add_right ..⟩
  | false =>
    obtain ⟨call, hcall, hbound⟩ := hline delim #[]
    refine ⟨(Splitter.conclude delim call).1, (Splitter.conclude delim call).2,
      congrArg (Option.map (Splitter.conclude delim)) hcall, ?_⟩
    rw [Splitter.reader_conclude]
    exact hbound

theorem pollBounded {σ : Type} [PolledSource σ] {r : Reader (Recorded σ)} {limit : Nat}
    (hlimit : r.config.lineLimit = some limit) : r.PollBounded limit := by
  constructor
  · intro scan out hscan
    obtain ⟨attempt, hattempt, -⟩ := exists_pollLineWithin Recorded.tallies_answered hscan
      (scan.allowance_lt limit r.window) out
    rw [hattempt]
    rfl
  · exact PolledSession.exists_driveLine Recorded.tallies_answered hlimit
  · rintro attempts s rfl hscan
    exact PolledSession.exists_driveNext Recorded.tallies_answered hscan attempts

theorem decided {σ : Type} [ByteSource σ] {r : Reader (Recorded σ)}
    (hlimit : r.config.lineLimit = none) : r.Decided := by
  constructor
  · intro delim out hmem
    obtain ⟨call, hcall, hresult, hfeed⟩ := lineWithin_of_mem hlimit hmem out
    exact ⟨call, hcall, hresult, congrArg Prod.fst hfeed⟩
  · intro delim out k hunread hopen hdecides
    obtain ⟨call, hcall, hfeed⟩ := exists_lineWithin_of_decides hlimit hunread hopen hdecides out
    have hcount := @count_fillTimes _ (.ofWaited (Recorded σ)) (fun s => s.history.size)
      (fun _ _ => Array.size_push ..) (k + 1) r.feed
    rw [← hfeed] at hcount
    exact ⟨call, hcall, hcount⟩

theorem pollDecided {σ : Type} [PolledSource σ] {r : Reader (Recorded σ)}
    (hlimit : r.config.lineLimit = none) : r.PollDecided := by
  constructor
  · intro delim out hmem
    obtain ⟨s, hdrive, hfeed⟩ := PolledSession.exists_driveLine_of_mem hlimit hmem out
    exact ⟨s, hdrive, congrArg Prod.fst hfeed⟩
  · intro delim out k hunread hopen hdecides
    have hscan : (Scan.start delim r.config.lineLimit).limit = none := hlimit
    obtain ⟨result, made, s, hdrive, hfeed⟩ := PolledSession.exists_drive_of_decides hscan hunread
      hopen hdecides (Nat.lt_succ_self (k + 1)) (Nat.lt_succ_self k) 0 out
    have hcount := @count_fillTimes (Recorded σ) _ (fun s => s.history.size)
      (fun _ _ => Array.size_push ..) (k + 1) r.feed
    rw [← hfeed] at hcount
    exact ⟨result, made, s, hdrive, hcount⟩

end Reader

/-- Loops end, whatever the source does. With a limit on lines a delimiter read ends with at most as
many answers as the limit allows, and one less if a byte was unread; filling a buffer ends with at
most as many answers as it has bytes. For a source that is polled this holds of all attempts at one
read together. Without a limit a delimiter read ends with the first request whose answer brings the
delimiter or no bytes at all, and makes no request if the delimiter is already unread. -/
theorem loops_end {σ τ : Type} [ByteSource σ] [PolledSource τ] (r : Reader (Recorded σ))
    (p : Reader (Recorded τ)) :
    (∀ limit, r.config.lineLimit = some limit → r.Bounded limit) ∧
      (∀ limit, p.config.lineLimit = some limit → p.PollBounded limit) ∧
      (∀ buffer : Bytes, (r.readExact buffer).reader.source.history.size ≤
        r.source.history.size + buffer.size) ∧
      (∀ (attempts : Nat) (buffer : Bytes), ∃ result made s,
        PolledSession.driveExact attempts p buffer = some (result, made, s) ∧
          s.2.source.answered ≤ p.source.answered + buffer.size) ∧
      (r.config.lineLimit = none → r.Decided) ∧ (p.config.lineLimit = none → p.PollDecided) :=
  ⟨fun _ => Reader.bounded, fun _ => Reader.pollBounded, r.size_history_readExact,
    fun attempts => PolledSession.exists_driveExact Recorded.tallies_answered attempts p,
    Reader.decided, Reader.pollDecided⟩

/-- A source that produces zeros for ever. -/
inductive Zeros where
  | zeros

instance : ByteSource Zeros := ⟨fun s n => (.honest (Array.replicate n 0), s)⟩

instance : PolledSource Zeros := ⟨fun s n => (.ready (.honest (Array.replicate n 0)), s)⟩

/-- Of zeros without end, a line of at most three bytes ends with three requests, and a line that
ends with a zero with the first. -/
theorem loops_end_zeros :
    (∃ r : Reader (Recorded Zeros), r.config.lineLimit = some 3 ∧ r.Bounded 3 ∧ r.PollBounded 3) ∧
      ∃ r : Reader (Recorded Zeros), r.config.lineLimit = none ∧ r.Decided ∧ r.PollDecided ∧
        ∃ call, r.lineWithin 2 (.start 0 none) #[] = some call ∧
          call.reader.source.history.size = 1 := by
  refine ⟨?_, ?_⟩
  · have h := loops_end (Reader.build ⟨Zeros.zeros, #[]⟩ ((Config.ofCapacity 2).withLineLimit 3))
      (Reader.build ⟨Zeros.zeros, #[]⟩ ((Config.ofCapacity 2).withLineLimit 3))
    exact ⟨_, rfl, h.1 3 rfl, h.2.1 3 rfl⟩
  · obtain ⟨-, -, -, -, hdecided, hpollDecided⟩ := loops_end
      (Reader.ofCapacity ⟨Zeros.zeros, #[]⟩ 2) (Reader.ofCapacity ⟨Zeros.zeros, #[]⟩ 2)
    obtain ⟨call, hcall, hsize⟩ := (hdecided rfl).asked 0 #[] 0 (by decide) nofun (.inr (by decide))
    exact ⟨_, rfl, hdecided rfl, hpollDecided rfl, call, hcall, hsize⟩

end BufferedReading
