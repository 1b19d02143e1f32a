import BufferedReading.Proofs.Moves
import BufferedReading.Proofs.Rounds
import BufferedReading.LineStream

/-!
# Every operation is a course of moves

A `Reader.Course` leads from one state of a reader to another by permitted moves, and says which
bytes are taken on the way. If the reader works on a buffer of the caller then whatever is handed to
the source past the window is what is left of that buffer (`Reader.Fills`).

An attempt at an operation of a polled reader is such a course: see
`Reader.exists_course_pollRead`, `Reader.exists_course_pollByte`,
`Reader.exists_course_pollFillBuffer`, `Reader.exists_course_pollLineWithin` and
`Reader.exists_course_pollExact`. A delimiter read that has not come to an end within its rounds has
made as many requests, and goes on from where its course has led
(`Reader.exists_course_of_unfinished`).
-/

namespace BufferedReading

theorem Poll.ready_ne_pending {α : Type} (a : α) : Poll.ready a ≠ .pending := nofun

/-- The bytes that an attempt at a read has put into its buffer. -/
def Call.handed {ρ ε : Type} (call : Call ρ (Poll (Except ε Nat))) : List UInt8 :=
  match call.result with
  | .ready (.ok count) => call.buffer.toList.take count
  | _ => []

/-- A read that comes to an end has put into its buffer what it delivers. -/
theorem Call.handed_ready {ρ ε : Type} (call : Call ρ (Except ε Nat)) :
    call.ready.handed = call.delivered := by
  unfold handed delivered ready
  cases call.result <;> rfl

/-- How far an attempt at a delimiter read has come. -/
def LineAttempt.verdict {σ : Type} (attempt : LineAttempt σ) : Verdict :=
  match attempt.result with
  | .ready (.ok true) => .found
  | .ready (.error (.lineTooLong limit)) => .overlong limit
  | _ => .starved

namespace Reader

variable {σ : Type} [PolledSource σ]

/-! ### Courses -/

/-- Each buffer handed to the source is what is left of a buffer with the given room behind the
bytes taken so far. Without room no buffer is handed over. -/
def Fills (r : Reader σ) : Option Nat → List Move → Prop
  | _, [] => True
  | room, m :: ms =>
    (∀ buffer, m = .bypass buffer → room = some buffer.size) ∧
      (r.move m).Fills (room.map (· - (r.given m).length)) ms

/-- A reader comes from one state to another by permitted moves that take the given bytes. -/
structure Course (r : Reader σ) (room : Option Nat) (ms : List Move) (taken : List UInt8)
    (r' : Reader σ) : Prop where
  follow_eq : r.follow ms = r'
  permits : r.PermitsAll ms
  fills : r.Fills room ms
  taken_eq : r.taken ms = taken

/-- Room is left behind the bytes of one stretch and then behind those of the next. -/
theorem map_sub_map_sub (room : Option Nat) (m n : Nat) :
    (room.map (· - m)).map (· - n) = room.map (· - (m + n)) := by
  cases room with
  | none => rfl
  | some room => simp [Nat.sub_sub]

theorem fills_append {r : Reader σ} {room : Option Nat} {ms ms' : List Move} :
    r.Fills room (ms ++ ms') ↔
      r.Fills room ms ∧ (r.follow ms).Fills (room.map (· - (r.taken ms).length)) ms' := by
  induction ms generalizing r room with
  | nil => simp [Fills]
  | cons m ms ih =>
    have htaken : r.taken (m :: ms) = r.given m ++ (r.move m).taken ms := rfl
    rw [List.cons_append, Fills, Fills, ih, map_sub_map_sub, htaken, List.length_append, and_assoc,
      follow_cons]

namespace Course

variable {r r' r'' : Reader σ} {room : Option Nat} {ms ms' : List Move} {taken taken' : List UInt8}

theorem refl (r : Reader σ) (room : Option Nat) : r.Course room [] [] r :=
  ⟨rfl, trivial, trivial, rfl⟩

theorem trans (h : r.Course room ms taken r')
    (h' : r'.Course (room.map (· - taken.length)) ms' taken' r'') :
    r.Course room (ms ++ ms') (taken ++ taken') r'' := by
  obtain ⟨rfl, hpermits, hfills, rfl⟩ := h
  obtain ⟨rfl, hpermits', hfills', rfl⟩ := h'
  constructor
  · exact follow_append ..
  · exact permitsAll_append.2 ⟨hpermits, hpermits'⟩
  · exact fills_append.2 ⟨hfills, hfills'⟩
  · exact taken_append ..

/-- What needs no room leaves the room of others as it is. -/
theorem trans_none (h : r.Course none ms taken r') (h' : r'.Course none ms' taken' r'') :
    r.Course none (ms ++ ms') (taken ++ taken') r'' := h.trans h'

/-- Unread bytes are passed over. -/
theorem take (r : Reader σ) (room : Option Nat) (count : Nat) :
    r.Course room [.take count] (r.window.toList.take count) (r.skip count) := by
  constructor
  · rfl
  · exact ⟨trivial, trivial⟩
  · exact ⟨nofun, trivial⟩
  · exact taken_take ..

/-- An empty window is refilled. -/
theorem refill (h : r.window.toList = []) (room : Option Nat) :
    r.Course room [.refill] [] r.pollRefill.2 := by
  constructor
  · rfl
  · exact ⟨h, trivial⟩
  · exact ⟨nofun, trivial⟩
  · rfl

/-- A buffer no smaller than an empty window is handed to the source. -/
theorem bypass (h : r.window.toList = []) {buffer : Bytes} (hcap : r.capacity ≤ buffer.size) :
    r.Course (some buffer.size) [.bypass buffer] (r.pollBypass buffer).handed
      (r.pollBypass buffer).reader := by
  constructor
  · rfl
  · exact ⟨⟨h, hcap⟩, trivial⟩
  · refine ⟨fun held hheld => ?_, trivial⟩
    rw [Move.bypass.inj hheld]
  · obtain ⟨answer, source, hpoll⟩ :
        ∃ answer source, PolledSource.poll r.source buffer.size = (answer, source) := ⟨_, _, rfl⟩
    rw [taken_bypass, pollBypass_eq hpoll]
    simp only [yielded, Call.handed, hpoll]
    rcases answer with _ | ⟨written, count⟩ | cause <;> rfl

/-- The bytes that were unread and those produced are the bytes taken and those unread now. -/
theorem unread_append (h : r.Course room ms taken r') :
    r.window.toList ++ r.produced ms = taken ++ r'.window.toList := by
  obtain ⟨rfl, hpermits, -, rfl⟩ := h
  exact unread_append_produced hpermits

theorem config (h : r.Course room ms taken r') : r'.config = r.config := by
  rw [← h.follow_eq, config_follow]

theorem capacity (h : r.Course room ms taken r') : r'.capacity = r.capacity := by
  rw [← h.follow_eq, capacity_follow]

/-- What a search takes from the window is passed over. -/
theorem search (r : Reader σ) (scan : Scan) (out : Bytes) :
    r.Course none [.take (scan.walk r.window.toList).taken.length]
      (scan.walk r.window.toList).taken (r.withWindow (scan.advance r.window out).window) := by
  have h := take r none (scan.walk r.window.toList).taken.length
  rw [Scan.take_length_taken] at h
  rw [Scan.window_advance]
  exact h

/-- Moves made in turn ask while the bytes taken are as they should be, if those of each stretch do
and what is said of the second follows for both. -/
theorem asksWhile_append (h : r.Course room ms taken r') {wants wants' : List UInt8 → Prop}
    (hms : r.AsksWhile wants ms) (hms' : r'.AsksWhile wants' ms')
    (himp : ∀ later, wants' later → wants (taken ++ later)) : r.AsksWhile wants (ms ++ ms') := by
  obtain ⟨rfl, -, -, rfl⟩ := h
  exact Reader.asksWhile_append.2 ⟨hms, hms'.mono himp⟩

end Course

/-- A refill behind a search that wants more bytes is asked for while it does. -/
theorem asksWhile_search_refill {r : Reader σ} {scan : Scan}
    (hv : (scan.walk r.window.toList).verdict = .starved) :
    r.AsksWhile (fun later => (scan.walk later).verdict = .starved)
      [.take (scan.walk r.window.toList).taken.length, .refill] := by
  have htaken : r.given (.take (scan.walk r.window.toList).taken.length) ++ [] =
      (scan.walk r.window.toList).taken := by
    rw [given, Scan.take_length_taken, List.append_nil]
  refine ⟨(absurd · Bool.false_ne_true), fun _ => ?_, trivial⟩
  change (scan.walk (r.given (.take (scan.walk r.window.toList).taken.length) ++ [])).verdict = _
  rw [htaken, Scan.walk_taken]
  exact hv

/-- An attempt that was put off has asked once and in vain, and the unread bytes have not changed:
there were none, and there are none. -/
structure PutOff (r : Reader σ) (ms : List Move) (r' : Reader σ) : Prop where
  unread : r.window.toList = []
  unread_after : r'.window.toList = []
  taken_eq : r.taken ms = []
  asked_in_vain : ∃ asked, PolledSource.poll r.source asked = (.pending, r'.source) ∧
    r.exchanges ms = [⟨asked, .pending⟩]

/-- A refill of an empty window is put off, brings bytes, meets the end of the stream or fails.
It never finds the window full. -/
theorem exists_course_pollRefill {r : Reader σ} (h : r.window.toList = []) :
    ∃ r', (∀ room, r.Course room [.refill] [] r') ∧
      ((r.pollRefill = (.pending, r') ∧ r.PutOff [.refill] r') ∨
        (∃ count, r.pollRefill = (.ready (.ok (.added count)), r') ∧ r'.window.toList ≠ []) ∨
        (r.pollRefill = (.ready (.ok .ended), r') ∧ r'.window.toList = []) ∨
        ∃ cause, r.pollRefill = (.ready (.error (.source cause)), r') ∧ r'.window.toList = []) := by
  obtain ⟨answer, source, hpoll⟩ :
      ∃ answer source, PolledSource.poll r.source r.capacity = (answer, source) := ⟨_, _, rfl⟩
  obtain ⟨w, hw, hrefill⟩ := exists_pollRefill_eq h hpoll
  have hcourse := Course.refill h
  rw [hrefill] at hcourse
  refine ⟨_, hcourse, ?_⟩
  cases answer with
  | pending =>
    exact .inl ⟨hrefill, h, hw.1, rfl, r.capacity, hpoll, by rw [exchanges_refill, hpoll]⟩
  | ready answer =>
    have hready : r.pollRefill = (.ready (answer.outcome r.capacity).fill, _) := hrefill
    cases ho : answer.outcome r.capacity with
    | bytes count =>
      rw [ho] at hready
      exact .inr (.inl ⟨count, hready, hw.ne_nil ho⟩)
    | ended =>
      have hnil : w.toList = [] := hw.eq_nil (by rw [ho]; rfl)
      rw [ho] at hready
      exact .inr (.inr (.inl ⟨hready, hnil⟩))
    | failed cause =>
      have hnil : w.toList = [] := hw.eq_nil (by rw [ho]; rfl)
      rw [ho] at hready
      exact .inr (.inr (.inr ⟨cause, hready, hnil⟩))

/-! ### Reads -/

/-- Unread bytes are delivered. -/
theorem course_deliver (r : Reader σ) (room : Option Nat) (buffer : Bytes) :
    r.Course room [.take (min buffer.size r.window.buffered)] (r.deliver buffer).delivered
      (r.deliver buffer).reader := by
  rw [delivered_deliver]
  exact Course.take r room _

/-- The course of an attempt at a read. It asks the source once at most, and not at all while bytes
are unread or if the buffer has no room; whenever it asks, it has taken nothing yet. -/
theorem exists_course_pollRead (r : Reader σ) (buffer : Bytes) :
    ∃ ms, r.Course (some buffer.size) ms (r.pollRead buffer).handed (r.pollRead buffer).reader ∧
      (r.exchanges ms).length ≤ 1 ∧
      (buffer.size = 0 ∨ r.window.toList ≠ [] → r.exchanges ms = []) ∧
      ((r.pollRead buffer).result = .pending →
        (r.pollRead buffer).buffer = buffer ∧ r.PutOff ms (r.pollRead buffer).reader) ∧
      r.AsksWhile (fun later => buffer.size ≠ 0 ∧ later = []) ms := by
  by_cases hsize : buffer.size = 0
  · have hread : r.pollRead buffer = ⟨.ready (.ok 0), buffer, r⟩ := by
      rw [pollRead, if_pos hsize]
    rw [hread]
    exact ⟨[], .refl r _, Nat.zero_le _, fun _ => rfl, (absurd · (Poll.ready_ne_pending _)),
      trivial⟩
  by_cases hunread : r.window.toList = []
  · have hbusy : ∀ ms : List Move, buffer.size = 0 ∨ r.window.toList ≠ [] → r.exchanges ms = [] :=
      fun ms hidle => absurd hidle (by simp [hsize, hunread])
    have hasks : buffer.size ≠ 0 ∧ ([] : List UInt8) = [] := ⟨hsize, rfl⟩
    by_cases hcap : r.capacity ≤ buffer.size
    · have hbypass := Course.bypass hunread hcap
      rw [pollRead_of_bypass hsize hunread hcap]
      refine ⟨[.bypass buffer], hbypass, Nat.le_refl _, hbusy _, ?_, fun _ => hasks, trivial⟩
      obtain ⟨answer, source, hpoll⟩ :
          ∃ answer source, PolledSource.poll r.source buffer.size = (answer, source) := ⟨_, _, rfl⟩
      rw [pollBypass_eq hpoll]
      cases answer with
      | ready answer => exact (absurd · (Poll.ready_ne_pending _))
      | pending =>
        intro _
        rw [pollBypass_eq hpoll] at hbypass
        exact ⟨rfl, hunread, hunread, hbypass.taken_eq, buffer.size, hpoll,
          by rw [exchanges_bypass, hpoll]⟩
    · obtain ⟨r', hrefill, hcases⟩ := exists_course_pollRefill hunread
      rcases hcases with ⟨hpoll, hputOff⟩ | ⟨count, hpoll, -⟩ | ⟨hpoll, -⟩ |
        ⟨cause, hpoll, -⟩
      · rw [pollRead_of_pending hsize hunread hcap hpoll]
        refine ⟨[.refill], hrefill _, Nat.le_refl _, hbusy _, fun _ => ?_, fun _ => hasks, trivial⟩
        exact ⟨rfl, hputOff⟩
      · rw [pollRead_of_refill hsize hunread hcap hpoll, Call.handed_ready]
        have hcourse := (hrefill (some buffer.size)).trans (course_deliver r' _ buffer)
        exact ⟨_, hcourse, Nat.le_refl 1, hbusy _, (absurd · (Poll.ready_ne_pending _)),
          fun _ => hasks, (absurd · Bool.false_ne_true), trivial⟩
      · rw [pollRead_of_refill hsize hunread hcap hpoll]
        exact ⟨[.refill], hrefill _, Nat.le_refl _, hbusy _, (absurd · (Poll.ready_ne_pending _)),
          fun _ => hasks, trivial⟩
      · rw [pollRead_of_refill hsize hunread hcap hpoll]
        exact ⟨[.refill], hrefill _, Nat.le_refl _, hbusy _, (absurd · (Poll.ready_ne_pending _)),
          fun _ => hasks, trivial⟩
  · rw [pollRead_of_unread hsize hunread, Call.handed_ready]
    exact ⟨_, course_deliver r _ buffer, Nat.zero_le _, fun _ => rfl,
      (absurd · (Poll.ready_ne_pending _)), (absurd · Bool.false_ne_true), trivial⟩

/-- The first unread byte is taken. -/
theorem course_pop (r : Reader σ) (room : Option Nat) :
    r.Course room [.take 1] (r.window.toList.take 1) (r.withWindow r.window.pop.2) := by
  rw [Window.pop_snd]
  exact Course.take r room 1

/-- The course of an attempt at a read of one byte. Whenever it asks, it has taken nothing yet. -/
theorem exists_course_pollByte (r : Reader σ) :
    ∃ ms taken, r.Course none ms taken r.pollByte.2 ∧
      (r.pollByte.1 = .pending → r.PutOff ms r.pollByte.2) ∧ r.AsksWhile (· = []) ms := by
  by_cases hunread : r.window.toList = []
  · obtain ⟨r', hrefill, hcases⟩ := exists_course_pollRefill hunread
    rcases hcases with ⟨hpoll, hputOff⟩ | ⟨count, hpoll, -⟩ | ⟨hpoll, -⟩ |
      ⟨cause, hpoll, -⟩
    · rw [pollByte_of_pending hunread hpoll]
      exact ⟨_, _, hrefill none, fun _ => hputOff, fun _ => rfl, trivial⟩
    · rw [pollByte_of_refill hunread hpoll]
      exact ⟨_, _, (hrefill none).trans (course_pop r' _), (absurd · (Poll.ready_ne_pending _)),
        fun _ => rfl, nofun, trivial⟩
    · rw [pollByte_of_refill hunread hpoll]
      exact ⟨_, _, (hrefill none).trans (course_pop r' _), (absurd · (Poll.ready_ne_pending _)),
        fun _ => rfl, nofun, trivial⟩
    · rw [pollByte_of_refill hunread hpoll]
      exact ⟨_, _, hrefill none, (absurd · (Poll.ready_ne_pending _)), fun _ => rfl, trivial⟩
  · rw [pollByte_of_unread hunread]
    exact ⟨_, _, course_pop r none, (absurd · (Poll.ready_ne_pending _)), nofun, trivial⟩

/-- The course of an attempt at a look at the unread bytes. It takes nothing. -/
theorem exists_course_pollFillBuffer (r : Reader σ) :
    ∃ ms, r.Course none ms [] r.pollFillBuffer.2 ∧
      (r.pollFillBuffer.1 = .pending → r.PutOff ms r.pollFillBuffer.2) ∧
      r.AsksWhile (· = []) ms := by
  by_cases hunread : r.window.toList = []
  · obtain ⟨r', hrefill, hcases⟩ := exists_course_pollRefill hunread
    rcases hcases with ⟨hpoll, hputOff⟩ | ⟨count, hpoll, -⟩ | ⟨hpoll, -⟩ |
      ⟨cause, hpoll, -⟩
    · rw [pollFillBuffer_of_pending hunread hpoll]
      exact ⟨_, hrefill none, fun _ => hputOff, fun _ => rfl, trivial⟩
    · rw [pollFillBuffer_of_refill hunread hpoll]
      exact ⟨_, hrefill none, (absurd · (Poll.ready_ne_pending _)), fun _ => rfl, trivial⟩
    · rw [pollFillBuffer_of_refill hunread hpoll]
      exact ⟨_, hrefill none, (absurd · (Poll.ready_ne_pending _)), fun _ => rfl, trivial⟩
    · rw [pollFillBuffer_of_refill hunread hpoll]
      exact ⟨_, hrefill none, (absurd · (Poll.ready_ne_pending _)), fun _ => rfl, trivial⟩
  · rw [pollFillBuffer_of_unread hunread]
    exact ⟨[], .refl r none, (absurd · (Poll.ready_ne_pending _)), trivial⟩

/-! ### Delimiter reads -/

section Lines

variable {rounds : Nat} {scan : Scan} {r : Reader σ} {out : Bytes}

/-- The course of an attempt at a delimiter read. The bytes taken are those appended and those that
the search has counted, and on them alone the search would have come just as far. Whenever the
source is asked, the search wants more bytes than those taken. -/
theorem exists_course_pollLineWithin {attempt : LineAttempt σ}
    (h : pollLineWithin rounds r scan out = some attempt) :
    ∃ ms taken, r.Course none ms taken attempt.reader ∧
      attempt.out.toList = out.toList ++ taken ∧ attempt.scan = scan.add taken.length ∧
      scan.walk taken = ⟨attempt.verdict, taken, []⟩ ∧
      (attempt.result = .pending → attempt.reader.window.toList = []) ∧
      r.AsksWhile (fun later => (scan.walk later).verdict = .starved) ms := by
  -- each round takes what the search finds in the window; only a starved one goes to the source
  induction rounds generalizing r scan out with
  | zero => simp [pollLineWithin] at h
  | succ rounds ih =>
    obtain ⟨hverdict, hscan, hrest, hout⟩ := scan.advance_eq_walk r.window out
    have hsearch := Course.search r scan out
    have hwalk := scan.walk_taken r.window.toList
    cases hv : (scan.walk r.window.toList).verdict with
    | found =>
      rw [hv] at hwalk
      rw [pollLineWithin_of_found (hverdict.trans hv), Option.some.injEq] at h
      subst h
      exact ⟨_, _, hsearch, hout, hscan, hwalk, (absurd · (Poll.ready_ne_pending _)),
        (absurd · Bool.false_ne_true), trivial⟩
    | overlong limit =>
      rw [hv] at hwalk
      rw [pollLineWithin_of_overlong (hverdict.trans hv), Option.some.injEq] at h
      subst h
      exact ⟨_, _, hsearch, hout, hscan, hwalk, (absurd · (Poll.ready_ne_pending _)),
        (absurd · Bool.false_ne_true), trivial⟩
    | starved =>
      rw [hv] at hwalk
      have hdry : (r.withWindow (scan.advance r.window out).window).window.toList = [] := by
        rw [window_withWindow, hrest, Scan.rest_eq_nil_of_starved hv]
      obtain ⟨r', hrefill, hcases⟩ := exists_course_pollRefill hdry
      have hround := hsearch.trans_none (hrefill none)
      have hasks := asksWhile_search_refill hv
      rw [List.append_nil] at hround
      rcases hcases with ⟨hpoll, hputOff⟩ | ⟨count, hpoll, -⟩ | ⟨hpoll, -⟩ | ⟨cause, hpoll, -⟩
      · rw [pollLineWithin_of_pending (hverdict.trans hv) hpoll, Option.some.injEq] at h
        subst h
        exact ⟨_, _, hround, hout, hscan, hwalk, fun _ => hputOff.unread_after, hasks⟩
      · rw [pollLineWithin_of_refill (hverdict.trans hv) hpoll, pollLineBehind] at h
        obtain ⟨ms, taken, hcourse, hout', hscan', hverdict', hpending, hlater⟩ := ih h
        refine ⟨_, _, hround.trans_none hcourse, ?_, ?_, ?_, hpending, ?_⟩
        · rw [hout', hout, List.append_assoc]
        · rw [hscan', hscan, Scan.add_add, List.length_append]
        · rw [Scan.walk_append taken (congrArg Scan.Walk.verdict hwalk), ← hscan, hverdict']
        · exact hround.asksWhile_append hasks hlater fun later hlater => by
            rw [Scan.walk_append later (congrArg Scan.Walk.verdict hwalk), ← hscan, hlater]
      · rw [pollLineWithin_of_refill (hverdict.trans hv) hpoll] at h
        simp only [pollLineBehind, Option.some.injEq] at h
        subst h
        exact ⟨_, _, hround, hout, hscan, hwalk, (absurd · (Poll.ready_ne_pending _)), hasks⟩
      · rw [pollLineWithin_of_refill (hverdict.trans hv) hpoll] at h
        simp only [pollLineBehind, Option.some.injEq] at h
        subst h
        exact ⟨_, _, hround, hout, hscan, hwalk, (absurd · (Poll.ready_ne_pending _)), hasks⟩

/-- Where a delimiter read stands behind some rounds, in each of which it has taken all unread bytes
and wants more: its search, the accumulator and the reader, whose window it has refilled. -/
def lineAfter : Nat → Reader σ → Scan → Bytes → Scan × Bytes × Reader σ
  | 0, r, scan, out => (scan, out, r)
  | rounds + 1, r, scan, out =>
    let advance := scan.advance r.window out
    lineAfter rounds (r.withWindow advance.window).pollRefill.2 advance.scan advance.out

/-- The course of an attempt at a delimiter read that has not come to an end within its rounds. It
has asked the source once in each round, whenever its search wanted more bytes than those taken, and
goes on from where it is. -/
theorem exists_course_of_unfinished (h : pollLineWithin rounds r scan out = none) :
    ∃ ms taken r', r.Course none ms taken r' ∧ (r.exchanges ms).length = rounds ∧
      r.lineAfter rounds scan out = (scan.add taken.length, out ++ taken.toArray, r') ∧
      (∀ more, pollLineWithin (rounds + more) r scan out =
        pollLineWithin more r' (scan.add taken.length) (out ++ taken.toArray)) ∧
      r.AsksWhile (fun later => (scan.walk later).verdict = .starved) ms := by
  induction rounds generalizing r scan out with
  | zero => exact ⟨[], [], r, .refl r none, rfl, by simp [lineAfter], fun more => by simp, trivial⟩
  | succ rounds ih =>
    obtain ⟨hverdict, hscan, hrest, hout⟩ := scan.advance_eq_walk r.window out
    have hsearch := Course.search r scan out
    cases hv : (scan.walk r.window.toList).verdict with
    | found => simp [pollLineWithin_of_found (hverdict.trans hv)] at h
    | overlong limit => simp [pollLineWithin_of_overlong (hverdict.trans hv)] at h
    | starved =>
      have hdry : (r.withWindow (scan.advance r.window out).window).window.toList = [] := by
        rw [window_withWindow, hrest, Scan.rest_eq_nil_of_starved hv]
      obtain ⟨r', hrefill, hcases⟩ := exists_course_pollRefill hdry
      have hround := hsearch.trans_none (hrefill none)
      rcases hcases with ⟨hpoll, -⟩ | ⟨count, hpoll, -⟩ | ⟨hpoll, -⟩ | ⟨cause, hpoll, -⟩
      · simp [pollLineWithin_of_pending (hverdict.trans hv) hpoll] at h
      · rw [pollLineWithin_of_refill (hverdict.trans hv) hpoll, pollLineBehind] at h
        obtain ⟨ms, taken, r'', hcourse, hlength, hafter, hmore, hlater⟩ := ih h
        have hscan' : (scan.advance r.window out).scan.add taken.length =
            scan.add ((scan.walk r.window.toList).taken ++ [] ++ taken).length := by
          rw [hscan, Scan.add_add, List.append_nil, List.length_append]
        have hout' : (scan.advance r.window out).out ++ taken.toArray =
            out ++ ((scan.walk r.window.toList).taken ++ [] ++ taken).toArray := by
          apply Array.toList_inj.1
          rw [Array.toList_append, hout, Array.toList_append, List.append_nil, List.append_assoc]
        refine ⟨_, _, r'', hround.trans_none hcourse, ?_, ?_, fun more => ?_, ?_⟩
        · rw [exchanges_append, hround.follow_eq, List.length_append, hlength]
          exact Nat.add_comm 1 rounds
        · rw [lineAfter, hpoll, ← hscan', ← hout', hafter]
        · rw [Nat.add_right_comm, pollLineWithin_of_refill (hverdict.trans hv) hpoll,
            pollLineBehind, hmore, hscan', hout']
        · refine hround.asksWhile_append (asksWhile_search_refill hv) hlater fun later hlater => ?_
          have hwalk := congrArg Scan.Walk.verdict (scan.walk_taken r.window.toList)
          rw [List.append_nil, Scan.walk_append later (hwalk.trans hv), ← hscan, hlater]
      · rw [pollLineWithin_of_refill (hverdict.trans hv) hpoll] at h
        simp [pollLineBehind] at h
      · rw [pollLineWithin_of_refill (hverdict.trans hv) hpoll] at h
        simp [pollLineBehind] at h

end Lines

/-! ### Filling a buffer -/

/-- The course of an attempt to go on filling a buffer. The bytes taken are those added to the part
that is done, and so many fewer are left to be filled. Whenever the source is asked, some are
left. -/
theorem exists_course_pollExact (r : Reader σ) (done rest : Bytes) :
    ∃ ms taken, r.Course (some rest.size) ms taken (r.pollExact done rest).reader ∧
      (r.pollExact done rest).done.toList = done.toList ++ taken ∧
      taken.length + (r.pollExact done rest).rest.size = rest.size ∧
      ((r.pollExact done rest).result = .pending →
        (r.pollExact done rest).reader.window.toList = []) ∧
      r.AsksWhile (fun later => later.length < rest.size) ms := by
  have hfirst : ∀ (rest : Bytes) (later : List UInt8), rest.size ≠ 0 ∧ later = [] →
      later.length < rest.size := by
    rintro rest _ ⟨hsize, rfl⟩
    exact Nat.pos_of_ne_zero hsize
  fun_induction pollExact r done rest with
  | case1 r done rest hsize =>
    exact ⟨[], [], .refl r _, (List.append_nil _).symm, Nat.zero_add _,
      (absurd · (Poll.ready_ne_pending _)), trivial⟩
  | case2 r done rest hsize buffer r' hread =>
    obtain ⟨ms, hcourse, -, -, hpending, hasks⟩ := exists_course_pollRead r rest
    rw [hread] at hcourse hpending
    obtain ⟨hbuffer, hput⟩ := hpending rfl
    have hkept : buffer.size = rest.size := congrArg Array.size hbuffer
    exact ⟨ms, [], hcourse, (List.append_nil _).symm, by simpa using hkept,
      fun _ => hput.unread_after, hasks.mono (hfirst rest)⟩
  | case3 r done rest hsize e buffer r' hread =>
    obtain ⟨ms, hcourse, -, -, -, hasks⟩ := exists_course_pollRead r rest
    have hkept := size_buffer_pollRead r rest
    rw [hread] at hcourse hkept
    exact ⟨ms, [], hcourse, (List.append_nil _).symm, by simpa using hkept,
      (absurd · (Poll.ready_ne_pending _)), hasks.mono (hfirst rest)⟩
  | case4 r done rest hsize buffer r' hread =>
    obtain ⟨ms, hcourse, -, -, -, hasks⟩ := exists_course_pollRead r rest
    have hkept := size_buffer_pollRead r rest
    rw [hread] at hcourse hkept
    exact ⟨ms, [], hcourse, (List.append_nil _).symm, by simpa using hkept,
      (absurd · (Poll.ready_ne_pending _)), hasks.mono (hfirst rest)⟩
  | case5 r done rest hsize count buffer r' hread hz hover =>
    obtain ⟨ms, hcourse, -, -, -, hasks⟩ := exists_course_pollRead r rest
    have hkept := size_buffer_pollRead r rest
    rw [hread] at hcourse hkept
    have hkept : buffer.size = rest.size := hkept
    refine ⟨ms, buffer.toList.take count, hcourse, ?_, ?_, (absurd · (Poll.ready_ne_pending _)),
      hasks.mono (hfirst rest)⟩
    · simp [Array.toList_extract]
    · simp only [List.length_take, Array.length_toList, Array.size_extract]
      omega
  | case6 r done rest hsize count buffer r' hread hz hover ih =>
    obtain ⟨ms, hcourse, -, -, -, hasks⟩ := exists_course_pollRead r rest
    obtain ⟨ms', taken, hcourse', hdone, hlength, hpending, hlater⟩ := ih
    have hkept := size_buffer_pollRead r rest
    rw [hread] at hcourse hkept
    have hkept : buffer.size = rest.size := hkept
    have hhanded : r.Course (some rest.size) ms (buffer.toList.take count) r' := hcourse
    have hlength' : (buffer.toList.take count).length = min count rest.size := by
      rw [List.length_take, Array.length_toList, hkept]
    have hroom : (some rest.size).map (· - (buffer.toList.take count).length) =
        some (buffer.extract count buffer.size).size := by
      rw [Option.map_some, hlength', Array.size_extract]
      congr 1
      omega
    refine ⟨ms ++ ms', _, hhanded.trans (hroom ▸ hcourse'), ?_, ?_, hpending, ?_⟩
    · rw [hdone, Array.toList_append, Array.toList_extract, List.extract_eq_take_drop,
        List.append_assoc]
      rfl
    · rw [Array.size_extract] at hlength
      rw [List.length_append, hlength']
      omega
    · refine hhanded.asksWhile_append (hasks.mono (hfirst rest)) hlater fun later hlt => ?_
      rw [Array.size_extract] at hlt
      rw [List.length_append, hlength']
      omega

end Reader

end BufferedReading
