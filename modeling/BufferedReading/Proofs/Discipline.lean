import BufferedReading.Proofs.Attempts
import BufferedReading.Proofs.Conservation
import BufferedReading.Proofs.Waited

/-!
# When and how a reader turns to its source

A reader turns to its source only when no byte is unread. It asks either for a whole window, all of
which is free after compaction, or for what is left of a buffer of the caller that is no smaller
than the window, past the window and without touching it. So the source is never asked for less than
a window, a refill never finds the window full, and the unread bytes are always the last of those
that the last refill has brought. A read asks at most until the source answers once.

`Turn` is what an operation made of a reader, `Turn.Undertaken` says that it kept to these rules,
and `Disciplined` says so of the operations of a run. `source_discipline` is the statement for runs
of polled sessions and of sessions that wait. It rests on the courses of
`BufferedReading.Proofs.Attempts` and `BufferedReading.Proofs.Waited`.
-/

namespace BufferedReading

/-- The room of the buffer that an operation of a reader works on, if it works on one. -/
def Operation.room : Operation → Option Nat
  | read buffer => some buffer.size
  | readPlain buffer => some buffer.size
  | readExact buffer => some buffer.size
  | _ => none

/-- The bytes that a read has handed over by its reply. -/
def Reply.handed : Reply → List UInt8
  | count (.ok n) buffer => buffer.toList.take n
  | plainCount (.ok n) buffer => buffer.toList.take n
  | _ => []

/-- What an operation made of a reader, in so many attempts. -/
structure Turn (σ : Type) where
  /-- The reader before the operation. -/
  before : Reader σ
  /-- The operation. -/
  operation : Operation
  /-- The number of attempts made. -/
  attempts : Nat
  /-- The reply. -/
  reply : Reply
  /-- The reader after the operation. -/
  after : Reader σ

/-! ### Rules -/

section Rules

variable {σ : Type} [PolledSource σ]

/-- What a reader does right when it makes a move. For a refill the whole arena is free, and it does
not find the window full. A read past the window leaves the window as it is. The source is asked for
a window or for a buffer that is no smaller, and is asked once. -/
def Reader.Respects (r : Reader (Recorded σ)) : Move → Prop
  | .take count => (r.skip count).source = r.source
  | .refill =>
    r.window.toList = [] ∧ r.window.compact.free = r.capacity ∧
      r.pollRefill.1 ≠ .ready (.ok .full) ∧
      ∃ answer, r.pollRefill.2.source.history = r.source.history.push ⟨r.capacity, answer⟩
  | .bypass buffer =>
    r.window.toList = [] ∧ r.capacity ≤ buffer.size ∧
      (r.pollBypass buffer).reader.window = r.window ∧
      ∃ answer, (r.pollBypass buffer).reader.source.history =
        r.source.history.push ⟨buffer.size, answer⟩

/-- A read asks its source once at most, counting answers, and hands over unread bytes or bytes of
that answer. -/
structure Turn.Reads (t : Turn (Recorded σ)) (buffer : Bytes) (ms : List Move) : Prop extends
    t.before.AsksOnce buffer t.attempts ms where
  handed_eq : t.reply.handed = t.before.taken ms
  handed_prefix : t.reply.handed <+: t.before.window.toList ∨
    t.before.window.toList = [] ∧ t.reply.handed <+: t.before.produced ms

/-- A reader comes from one state to another by moves each of which is permitted and keeps to the
rules. Buffers that are handed to the source are what is left of one with the given room. -/
structure Reader.Abides (r : Reader (Recorded σ)) (room : Option Nat) (ms : List Move)
    (r' : Reader (Recorded σ)) : Prop where
  follow_eq : r.follow ms = r'
  permits : r.PermitsAll ms
  respects : ∀ before m after, ms = before ++ m :: after → (r.follow before).Respects m
  fills : r.Fills room ms

/-- An operation of a reader keeps to the rules, and the buffers that it hands to the source are
what is left of the caller's buffer. If it is a read then it asks as a read may. -/
structure Turn.Undertaken (t : Turn (Recorded σ)) (ms : List Move) : Prop extends
    t.before.Abides t.operation.room ms t.after where
  reads : ∀ buffer, t.operation = .read buffer ∨ t.operation = .readPlain buffer →
    t.Reads buffer ms

/-- The operations of a run keep to the rules, one after the other. After each of them the window
has the size it had at first, the source has been asked for what the moves so far ask for and for
nothing else, never for less than a window, and the unread bytes are the last of those that the last
refill has made readable. -/
def Disciplined (r : Reader (Recorded σ)) (turns : List (Option (Turn (Recorded σ)))) : Prop :=
  ∃ courses : List (List Move), courses.length = turns.length ∧
    ∀ k turn, turns[k]? = some turn → ∃ t ms, turn = some t ∧ courses[k]? = some ms ∧
      t.Undertaken ms ∧ t.before = r.follow (courses.take k).flatten ∧
      t.after = r.follow (courses.take (k + 1)).flatten ∧ t.after.capacity = r.capacity ∧
      t.after.source.history.toList = r.exchanges (courses.take (k + 1)).flatten ∧
      (∀ e ∈ t.after.source.history.toList, 0 < e.asked ∧ r.capacity ≤ e.asked) ∧
      t.after.window.toList <:+ (r.refills (courses.take (k + 1)).flatten).getLastD []

/-- A move that is permitted keeps to the rules. -/
theorem Reader.Permits.respects {r : Reader (Recorded σ)} {m : Move} (h : r.Permits m) :
    r.Respects m := by
  have hsource := source_move h
  cases m with
  | take count => rfl
  | refill =>
    have hunread : r.window.toList = [] := h
    have hb : r.window.buffered = 0 := by rw [← Window.length_toList, hunread, List.length_nil]
    refine ⟨hunread, ?_, ?_, _, congrArg Recorded.history hsource⟩
    · rw [Window.free_compact, hb]
      rfl
    · obtain ⟨r', -, hcases⟩ := exists_course_pollRefill hunread
      rcases hcases with ⟨hpoll, -⟩ | ⟨count, hpoll, -⟩ | ⟨hpoll, -⟩ | ⟨cause, hpoll, -⟩ <;>
        simp [hpoll]
  | bypass buffer =>
    exact ⟨h.1, h.2, window_bypass r buffer, _, congrArg Recorded.history hsource⟩

/-- A move that is permitted asks for no less than a window. -/
theorem Reader.Permits.capacity_le {r : Reader (Recorded σ)} {m : Move} (h : r.Permits m) :
    ∀ e ∈ r.exchange m, r.capacity ≤ e.asked := by
  intro e he
  cases m with
  | take count => exact absurd he List.not_mem_nil
  | refill =>
    obtain rfl := List.mem_singleton.1 he
    exact Nat.le_refl _
  | bypass buffer =>
    obtain rfl := List.mem_singleton.1 he
    exact h.2

/-- Moves that are permitted ask for no less than a window. -/
theorem Reader.PermitsAll.capacity_le {r : Reader (Recorded σ)} {ms : List Move}
    (h : r.PermitsAll ms) : ∀ e ∈ r.exchanges ms, r.capacity ≤ e.asked := by
  induction ms generalizing r with
  | nil => exact fun e he => absurd he List.not_mem_nil
  | cons m ms ih =>
    intro e he
    rcases List.mem_append.1 he with he | he
    · exact h.1.capacity_le e he
    · have hle := ih h.2 e he
      rwa [capacity_move] at hle

/-! ### From an operation to a run -/

/-- A course keeps to the rules. -/
theorem Reader.Course.abides {r r' : Reader (Recorded σ)} {room : Option Nat} {ms : List Move}
    {taken : List UInt8} (h : r.Course room ms taken r') : r.Abides room ms r' where
  follow_eq := h.follow_eq
  permits := h.permits
  respects := by
    intro before m after hms
    have hpermits := h.permits
    rw [hms] at hpermits
    exact hpermits.permits.respects
  fills := h.fills

/-- An operation that is a course keeps to the rules, if what is said of reads holds too. -/
theorem Turn.Undertaken.of_course {t : Turn (Recorded σ)} {ms : List Move} {taken : List UInt8}
    (h : t.before.Course t.operation.room ms taken t.after)
    (hreads : ∀ buffer, t.operation = .read buffer ∨ t.operation = .readPlain buffer →
      t.Reads buffer ms) : t.Undertaken ms :=
  ⟨h.abides, hreads⟩

/-- What is said of reads holds of a read whose reply hands over what its course takes. -/
theorem Turn.Reads.of_course {t : Turn (Recorded σ)} {buffer : Bytes} {ms : List Move}
    {room : Option Nat} (h : t.before.Course room ms t.reply.handed t.after)
    (hasks : t.before.AsksOnce buffer t.attempts ms) : t.Reads buffer ms where
  toAsksOnce := hasks
  handed_eq := h.taken_eq.symm
  handed_prefix := by
    have hunread := h.unread_append
    -- With unread bytes the source is not asked; without any, all that is taken is produced.
    by_cases hnil : t.before.window.toList = []
    · rw [hnil, List.nil_append] at hunread
      exact .inr ⟨hnil, _, hunread.symm⟩
    · have hnone : t.before.produced ms = [] := by
        apply Reader.produced_of_pending
        rw [hasks.idle (.inr hnil)]
        exact fun e he => absurd he List.not_mem_nil
      rw [hnone, List.append_nil] at hunread
      exact .inl ⟨_, hunread.symm⟩

/-- A read that asks as a read may, and whose reply hands over what its course takes, keeps to the
rules. -/
theorem Turn.Undertaken.of_read {t : Turn (Recorded σ)} {buffer : Bytes} {ms : List Move}
    (hop : t.operation = .read buffer ∨ t.operation = .readPlain buffer)
    (hcourse : t.before.Course (some buffer.size) ms t.reply.handed t.after)
    (hasks : t.before.AsksOnce buffer t.attempts ms) : t.Undertaken ms := by
  have hroom : t.operation.room = some buffer.size := by
    rcases hop with hop | hop <;> rw [hop] <;> rfl
  refine .of_course (hroom ▸ hcourse) fun held hheld => ?_
  obtain rfl : held = buffer := by
    rcases hop with hop | hop <;> rcases hheld with hheld | hheld <;> rw [hop] at hheld
    · exact (Operation.read.inj hheld).symm
    · cases hheld
    · cases hheld
    · exact (Operation.readPlain.inj hheld).symm
  exact .of_course hcourse hasks

/-- An operation that does nothing to the reader and hands over nothing keeps to the rules. -/
theorem Turn.Undertaken.of_rest (r : Reader (Recorded σ)) (op : Operation) (attempts : Nat)
    {reply : Reply} (h : reply.handed = []) :
    Turn.Undertaken ⟨r, op, attempts, reply, r⟩ [] := by
  refine .of_course (.refl r _) fun buffer _ => ?_
  have hcourse : r.Course none [] reply.handed r := h ▸ .refl r none
  refine .of_course hcourse ⟨fun _ => rfl, ?_, ?_⟩
  · exact Nat.zero_le 1
  · exact Nat.zero_le attempts

/-- The operations of a run follow each other: each begins with the reader that the one before it
has left, and keeps to the rules. -/
def Chained (r : Reader (Recorded σ)) : List (Option (Turn (Recorded σ))) → Prop
  | [] => True
  | none :: _ => False
  | some t :: turns => t.before = r ∧ (∃ ms, t.Undertaken ms) ∧ Chained t.after turns

/-- The courses of operations that follow each other are one course from the first reader on. -/
theorem Chained.exists_courses {r : Reader (Recorded σ)}
    {turns : List (Option (Turn (Recorded σ)))} (h : Chained r turns) :
    ∃ courses : List (List Move), courses.length = turns.length ∧
      ∀ k turn, turns[k]? = some turn → ∃ t ms, turn = some t ∧ courses[k]? = some ms ∧
        t.Undertaken ms ∧ t.before = r.follow (courses.take k).flatten ∧
        t.after = r.follow (courses.take (k + 1)).flatten ∧
        r.PermitsAll (courses.take (k + 1)).flatten := by
  induction turns generalizing r with
  | nil => exact ⟨[], rfl, by simp⟩
  | cons first turns ih =>
    cases first with
    | none => exact h.elim
    | some t =>
      obtain ⟨rfl, ⟨ms, hms⟩, hlater⟩ := h
      obtain ⟨courses, hlength, hcourses⟩ := ih hlater
      refine ⟨ms :: courses, by rw [List.length_cons, List.length_cons, hlength], ?_⟩
      intro k turn hturn
      cases k with
      | zero =>
        rw [List.getElem?_cons_zero, Option.some.injEq] at hturn
        have hfirst : ((ms :: courses).take 1).flatten = ms := by simp
        rw [hfirst]
        exact ⟨t, ms, hturn.symm, rfl, hms, rfl, hms.follow_eq.symm, hms.permits⟩
      | succ k =>
        rw [List.getElem?_cons_succ] at hturn
        obtain ⟨t', ms', rfl, hms', hundertaken, hbefore, hafter, hpermits⟩ :=
          hcourses k turn hturn
        simp only [List.take_succ_cons, List.flatten_cons, Reader.follow_append,
          Reader.permitsAll_append, hms.follow_eq]
        exact ⟨t', ms', rfl, hms', hundertaken, hbefore, hafter, hms.permits, hpermits⟩

/-- Operations that follow each other are disciplined, if they begin with an empty window and a
source that has not been asked. -/
theorem Chained.disciplined {r : Reader (Recorded σ)} {turns : List (Option (Turn (Recorded σ)))}
    (h : Chained r turns) (hunread : r.window.toList = []) (hhistory : r.source.history = #[]) :
    Disciplined r turns := by
  obtain ⟨courses, hlength, hcourses⟩ := h.exists_courses
  refine ⟨courses, hlength, fun k turn hturn => ?_⟩
  obtain ⟨t, ms, hsome, hms, hundertaken, hbefore, hafter, hpermits⟩ := hcourses k turn hturn
  have hasked : t.after.source.history.toList = r.exchanges (courses.take (k + 1)).flatten := by
    rw [hafter, Reader.history_follow hpermits, hhistory, List.nil_append]
  refine ⟨t, ms, hsome, hms, hundertaken, hbefore, hafter, ?_, hasked, ?_, ?_⟩
  · rw [hafter, Reader.capacity_follow]
  · intro e he
    rw [hasked] at he
    have hle := hpermits.capacity_le e he
    exact ⟨Nat.lt_of_lt_of_le r.window.capacity_pos hle, hle⟩
  · rw [hafter]
    exact Reader.unread_suffix_refills hpermits (by simp [hunread])

end Rules

/-! ### Sessions that are polled -/

/-- An operation carried out on a polled session. -/
structure PolledEvent (σ : Type) where
  /-- The session before the operation. -/
  before : PolledSession σ
  /-- The operation. -/
  operation : Operation
  /-- What it came to. -/
  performance : Performance σ

namespace PolledSession

variable {σ : Type}

/-- The reader of a session that holds one, or that holds the lines of one. -/
def inner? (s : PolledSession σ) : Option (Reader σ) :=
  match s.holding with
  | .reader reader => some reader
  | .stream stream => some stream.reader
  | .source _ => none

/-- The events of operations carried out in turn, each with at most so many attempts and at most
`rounds` rounds in its loops. -/
def traceWithin [PolledSource σ] (rounds : Nat) :
    PolledSession σ → List (Operation × Nat) → Option (List (PolledEvent σ))
  | _, [] => some []
  | s, (op, attempts) :: ops =>
    match s.performWithin rounds attempts op with
    | none => none
    | some performance =>
      (traceWithin rounds performance.session ops).map (⟨s, op, performance⟩ :: ·)

end PolledSession

/-- What an event made of the reader in its session, if there is one before and after it. -/
def PolledEvent.turn? {σ : Type} (e : PolledEvent σ) : Option (Turn σ) :=
  match e.before.inner?, e.performance.session.inner? with
  | some before, some after =>
    some ⟨before, e.operation, e.performance.attempts, e.performance.reply, after⟩
  | _, _ => none

/-- What an event made of the reader in its session, if there is one before and after it. -/
def Event.turn? {σ : Type} (e : Event σ) : Option (Turn σ) :=
  match e.before.inner?, e.after.inner? with
  | some before, some after => some ⟨before, e.operation, 1, e.reply, after⟩
  | _, _ => none

namespace PolledSession

variable {σ : Type} [PolledSource σ] {rounds attempts : Nat} {s : PolledSession (Recorded σ)}
  {op : Operation} {performance : Performance (Recorded σ)}

/-- An operation on a reader keeps to the rules. -/
theorem exists_undertaken_onReader {r : Reader (Recorded σ)} (hs : s.holding = .reader r)
    (hop : op.keepsReader = true) (h : s.onReader rounds attempts r op = some performance) :
    ∃ r', performance.session.inner? = some r' ∧
      ∃ ms, Turn.Undertaken ⟨r, op, performance.attempts, performance.reply, r'⟩ ms := by
  have hinner : s.inner? = some r := by rw [inner?, hs]
  cases op with
  | read buffer =>
    obtain ⟨⟨p, made, buffer', r'⟩, hdrive, rfl⟩ := Option.map_eq_some_iff.1 h
    obtain ⟨ms, hcourse, hasks⟩ := exists_course_driveRead hdrive
    have hhanded : (settle none (.count · buffer') p).handed = Call.handed ⟨p, buffer', r'⟩ := by
      rcases p with _ | error | count <;> rfl
    rw [← hhanded] at hcourse
    exact ⟨r', rfl, ms, .of_read (.inl rfl) hcourse hasks⟩
  | readPlain buffer =>
    obtain ⟨⟨p, made, buffer', r'⟩, hdrive, rfl⟩ := Option.map_eq_some_iff.1 h
    obtain ⟨ms, hcourse, hasks⟩ := exists_course_driveRead hdrive
    have hhanded : (settle none (fun result : Except ReadError Nat =>
        Reply.plainCount (result.mapError ReadError.toFailure) buffer') p).handed =
          Call.handed ⟨p, buffer', r'⟩ := by
      rcases p with _ | error | count <;> rfl
    rw [← hhanded] at hcourse
    exact ⟨r', rfl, ms, .of_read (.inr rfl) hcourse hasks⟩
  | readExact buffer =>
    obtain ⟨⟨p, made, ⟨done, rest⟩, r'⟩, hdrive, rfl⟩ := Option.map_eq_some_iff.1 h
    obtain ⟨ms, hcourse, -⟩ := exists_course_driveExact hdrive
    exact ⟨r', rfl, ms, Turn.Undertaken.of_course hcourse (by simp)⟩
  | readByte =>
    obtain ⟨⟨p, made, r'⟩, hdrive, rfl⟩ := Option.map_eq_some_iff.1 h
    obtain ⟨ms, taken, hcourse⟩ := exists_course_driveReader
      (fun a => (Reader.exists_course_pollByte a).imp fun _ => Exists.imp fun _ => And.left) hdrive
    exact ⟨r', rfl, ms, Turn.Undertaken.of_course hcourse (by simp)⟩
  | fillBuffer =>
    obtain ⟨⟨p, made, r'⟩, hdrive, rfl⟩ := Option.map_eq_some_iff.1 h
    obtain ⟨ms, taken, hcourse⟩ := exists_course_driveReader
      (fun a => (Reader.exists_course_pollFillBuffer a).imp fun _ h => ⟨[], h.1⟩) hdrive
    exact ⟨r', rfl, ms, Turn.Undertaken.of_course hcourse (by simp)⟩
  | readLine delim =>
    obtain ⟨⟨p, made, ⟨scan, out⟩, r'⟩, hdrive, rfl⟩ := Option.map_eq_some_iff.1 h
    obtain ⟨ms, taken, hcourse, -⟩ := exists_course_driveLine hdrive
    exact ⟨r', rfl, ms, Turn.Undertaken.of_course hcourse (by simp)⟩
  | readLineInto delim =>
    obtain ⟨⟨p, made, ⟨scan, out⟩, r'⟩, hdrive, rfl⟩ := Option.map_eq_some_iff.1 h
    obtain ⟨ms, taken, hcourse, -⟩ := exists_course_driveLine hdrive
    exact ⟨r', rfl, ms, Turn.Undertaken.of_course hcourse (by simp)⟩
  | consume count =>
    obtain rfl := Option.some.inj h
    rcases s.passOver_cases r count with ⟨-, hskip⟩ | ⟨-, hfault⟩
    · rw [hskip]
      exact ⟨_, rfl, _, Turn.Undertaken.of_course (Reader.Course.take r _ count) (by simp)⟩
    · rw [hfault]
      exact ⟨r, hinner, [], Turn.Undertaken.of_course (.refl r _) (by simp)⟩
  | readSource _ | fill _ | readUntil _ | release | collect => exact absurd hop Bool.false_ne_true
  | split delim =>
    obtain rfl := Option.some.inj h
    exact ⟨r, rfl, [], .of_rest r _ _ rfl⟩
  | unread | describe | wrap _ | next | delimiter | reclaim | takeOut =>
    obtain rfl := Option.some.inj h
    exact ⟨r, hinner, [], .of_rest r _ _ rfl⟩

/-- An operation on the lines of a reader keeps to the rules. -/
theorem exists_undertaken_onStream {stream : LineStream (Recorded σ)}
    (hs : s.holding = .stream stream) (hop : op.keepsReader = true)
    (h : s.onStream rounds attempts stream op = some performance) :
    ∃ r', performance.session.inner? = some r' ∧
      ∃ ms, Turn.Undertaken
        ⟨stream.reader, op, performance.attempts, performance.reply, r'⟩ ms := by
  have hinner : s.inner? = some stream.reader := by rw [inner?, hs]
  cases op with
  | next =>
    obtain ⟨⟨p, made, stream'⟩, hdrive, rfl⟩ := Option.map_eq_some_iff.1 h
    obtain ⟨ms, taken, hcourse⟩ := exists_course_driveNext hdrive
    exact ⟨_, rfl, ms, Turn.Undertaken.of_course hcourse (by simp)⟩
  | readSource _ | fill _ | readUntil _ | release | collect => exact absurd hop Bool.false_ne_true
  | reclaim =>
    obtain rfl := Option.some.inj h
    exact ⟨_, rfl, [], .of_rest _ _ _ rfl⟩
  | read _ | readPlain _ | readExact _ | readByte | readLine _ | readLineInto _ | fillBuffer
  | consume _ | unread | describe | split _ | wrap _ | delimiter | takeOut =>
    obtain rfl := Option.some.inj h
    exact ⟨_, hinner, [], .of_rest _ _ _ rfl⟩

/-- An operation on a reader or its lines keeps to the rules. -/
theorem exists_undertaken {r : Reader (Recorded σ)} (hr : s.inner? = some r)
    (hop : op.keepsReader = true) (h : s.performWithin rounds attempts op = some performance) :
    ∃ r', performance.session.inner? = some r' ∧
      ∃ ms, Turn.Undertaken ⟨r, op, performance.attempts, performance.reply, r'⟩ ms := by
  unfold performWithin at h
  split at h
  · next htake =>
    obtain rfl := Option.some.inj h
    exact ⟨r, hr, [], .of_rest r _ _ rfl⟩
  · cases hs : s.holding with
    | reader reader =>
      rw [inner?, hs, Option.some.injEq] at hr
      subst hr
      rw [hs] at h
      exact exists_undertaken_onReader hs hop h
    | stream stream =>
      rw [inner?, hs, Option.some.injEq] at hr
      subst hr
      rw [hs] at h
      exact exists_undertaken_onStream hs hop h
    | source source => simp [inner?, hs] at hr

/-- The operations of a run follow each other and keep to the rules. -/
theorem chained_traceWithin {r : Reader (Recorded σ)} (hr : s.inner? = some r)
    {ops : List (Operation × Nat)} (hops : ∀ p ∈ ops, p.1.keepsReader = true)
    {events : List (PolledEvent (Recorded σ))} (h : s.traceWithin rounds ops = some events) :
    Chained r (events.map PolledEvent.turn?) := by
  induction ops generalizing s r events with
  | nil =>
    rw [traceWithin, Option.some.injEq] at h
    subst h
    trivial
  | cons p ops ih =>
    obtain ⟨op, attempts⟩ := p
    rw [traceWithin] at h
    cases hperform : s.performWithin rounds attempts op with
    | none => simp [hperform] at h
    | some performance =>
      rw [hperform] at h
      obtain ⟨later, hlater, rfl⟩ := Option.map_eq_some_iff.1 h
      obtain ⟨r', hr', hms⟩ := exists_undertaken hr (hops _ List.mem_cons_self) hperform
      have hchained := ih hr' (fun p hp => hops p (List.mem_cons_of_mem _ hp)) hlater
      simp only [List.map_cons, PolledEvent.turn?, hr, hr']
      exact ⟨rfl, hms, hchained⟩

omit [PolledSource σ] in
/-- A session that begins to read a source has asked nothing of it yet. -/
theorem exists_inner_of_start {source : σ} {start : Start} {s : PolledSession (Recorded σ)}
    (h : start? ⟨source, #[]⟩ start = .ok s) :
    ∃ r, s.inner? = some r ∧ r.window.toList = [] ∧ r.source.history = #[] := by
  unfold start? at h
  cases hr : start.reader? (⟨source, #[]⟩ : Recorded σ) with
  | error e => simp [hr] at h
  | ok r =>
    obtain ⟨hunread, hsource⟩ := Start.of_reader? hr
    rw [hr] at h
    refine ⟨r, ?_, hunread, congrArg Recorded.history hsource⟩
    cases start <;> exact Except.ok.inj h ▸ rfl

end PolledSession

/-! ### Sessions that wait -/

/-- The reader behind a line is the one that the delimiter read left. -/
theorem Splitter.reader_conclude {σ : Type} (delim : UInt8)
    (call : Call (Reader σ) (Except ReadError Bool)) :
    (conclude delim call).2.reader = call.reader := by
  unfold conclude
  split <;> rfl

namespace Session

variable {σ : Type} [ByteSource σ] {rounds : Nat} {s s' : Session (Recorded σ)} {op : Operation}
  {reply : Reply}

/-- An operation on a reader keeps to the rules. -/
theorem exists_undertaken_onReader {r : Reader (Recorded σ)} (hs : s.holding = .reader r)
    (hop : op.keepsReader = true) (h : s.onReader rounds r op = some (reply, s')) :
    ∃ r', s'.inner? = some r' ∧
      ∃ ms, @Turn.Undertaken σ (.ofWaited σ) ⟨r, op, 1, reply, r'⟩ ms := by
  have hinner : s.inner? = some r := by rw [inner?, hs]
  let : PolledSource σ := .ofWaited σ
  cases op with
  | read buffer =>
    obtain ⟨rfl, rfl⟩ := Prod.mk.inj (Option.some.inj h)
    obtain ⟨ms, hcourse, hlength, hidle⟩ := r.exists_course_read buffer
    have hhanded : (Reply.count (r.read buffer).result (r.read buffer).buffer).handed =
        (r.read buffer).delivered := by
      unfold Call.delivered
      cases (r.read buffer).result <;> rfl
    rw [← hhanded] at hcourse
    exact ⟨_, rfl, ms, Turn.Undertaken.of_read (.inl rfl) hcourse (.of_length_le hidle hlength)⟩
  | readPlain buffer =>
    obtain ⟨rfl, rfl⟩ := Prod.mk.inj (Option.some.inj h)
    obtain ⟨ms, hcourse, hlength, hidle⟩ := r.exists_course_read buffer
    have hhanded :
        (Reply.plainCount (r.readPlain buffer).result (r.readPlain buffer).buffer).handed =
          (r.read buffer).delivered := by
      simp only [Call.delivered, Reader.readPlain]
      cases (r.read buffer).result <;> rfl
    rw [← hhanded] at hcourse
    exact ⟨_, rfl, ms, Turn.Undertaken.of_read (.inr rfl) hcourse (.of_length_le hidle hlength)⟩
  | readExact buffer =>
    obtain ⟨rfl, rfl⟩ := Prod.mk.inj (Option.some.inj h)
    obtain ⟨ms, taken, hcourse⟩ := r.exists_course_readExact buffer
    exact ⟨_, rfl, ms, Turn.Undertaken.of_course hcourse (by simp)⟩
  | readByte =>
    have hread : some (Reply.byte r.readByte.1, s.withReader r.readByte.2) = some (reply, s') := h
    obtain ⟨rfl, rfl⟩ := Prod.mk.inj (Option.some.inj hread)
    obtain ⟨ms, taken, hcourse⟩ := r.exists_course_readByte
    exact ⟨_, rfl, ms, Turn.Undertaken.of_course hcourse (by simp)⟩
  | fillBuffer =>
    obtain ⟨rfl, rfl⟩ := Prod.mk.inj (Option.some.inj h)
    obtain ⟨ms, hcourse⟩ := r.exists_course_fillBuffer
    exact ⟨_, rfl, ms, Turn.Undertaken.of_course hcourse (by simp)⟩
  | readLine delim =>
    obtain ⟨call, hcall, hconclude⟩ := Option.map_eq_some_iff.1 h
    obtain ⟨rfl, rfl⟩ := Prod.mk.inj hconclude
    obtain ⟨ms, taken, hcourse⟩ := Reader.exists_course_lineWithin hcall
    exact ⟨_, rfl, ms, Turn.Undertaken.of_course hcourse (by simp)⟩
  | readLineInto delim =>
    obtain ⟨call, hcall, hconclude⟩ := Option.map_eq_some_iff.1 h
    obtain ⟨rfl, rfl⟩ := Prod.mk.inj hconclude
    obtain ⟨ms, taken, hcourse⟩ := Reader.exists_course_lineWithin hcall
    exact ⟨_, rfl, ms, Turn.Undertaken.of_course hcourse (by simp)⟩
  | consume count =>
    have hpass : s.passOver r count = (reply, s') := Option.some.inj h
    rcases s.passOver_cases r count with ⟨-, hskip⟩ | ⟨-, hfault⟩
    · obtain ⟨rfl, rfl⟩ := Prod.mk.inj (hskip.symm.trans hpass)
      exact ⟨_, rfl, _, Turn.Undertaken.of_course (Reader.Course.take r _ count) (by simp)⟩
    · obtain ⟨rfl, rfl⟩ := Prod.mk.inj (hfault.symm.trans hpass)
      exact ⟨r, hinner, [], Turn.Undertaken.of_course (.refl r _) (by simp)⟩
  | readSource _ | fill _ | readUntil _ | release | collect => exact absurd hop Bool.false_ne_true
  | split delim =>
    obtain ⟨rfl, rfl⟩ := Prod.mk.inj (Option.some.inj h)
    exact ⟨r, rfl, [], .of_rest r _ _ rfl⟩
  | unread | describe | wrap _ | next | delimiter | reclaim | takeOut =>
    obtain ⟨rfl, rfl⟩ := Prod.mk.inj (Option.some.inj h)
    exact ⟨r, hinner, [], .of_rest r _ _ rfl⟩

/-- An operation on the lines split from a reader keeps to the rules. -/
theorem exists_undertaken_onSplitter {splitter : Splitter (Recorded σ)}
    (hs : s.holding = .splitter splitter) (hop : op.keepsReader = true)
    (h : s.onSplitter rounds splitter op = some (reply, s')) :
    ∃ r', s'.inner? = some r' ∧
      ∃ ms, @Turn.Undertaken σ (.ofWaited σ) ⟨splitter.reader, op, 1, reply, r'⟩ ms := by
  have hinner : s.inner? = some splitter.reader := by rw [inner?, hs]
  let : PolledSource σ := .ofWaited σ
  cases op with
  | next =>
    obtain ⟨⟨item, splitter'⟩, hnext, hreply⟩ := Option.map_eq_some_iff.1 h
    obtain ⟨rfl, rfl⟩ := Prod.mk.inj hreply
    unfold Splitter.nextWithin at hnext
    split at hnext
    · obtain ⟨rfl, rfl⟩ := Prod.mk.inj (Option.some.inj hnext)
      exact ⟨_, rfl, [], .of_rest _ _ _ rfl⟩
    · obtain ⟨call, hcall, hconclude⟩ := Option.map_eq_some_iff.1 hnext
      obtain ⟨ms, taken, hcourse⟩ := Reader.exists_course_lineWithin hcall
      have hreader := Splitter.reader_conclude splitter.delim call
      rw [hconclude] at hreader
      rw [← hreader] at hcourse
      exact ⟨_, rfl, ms, Turn.Undertaken.of_course hcourse (by simp)⟩
  | readSource _ | fill _ | readUntil _ | release | collect => exact absurd hop Bool.false_ne_true
  | reclaim =>
    obtain ⟨rfl, rfl⟩ := Prod.mk.inj (Option.some.inj h)
    exact ⟨_, rfl, [], .of_rest _ _ _ rfl⟩
  | read _ | readPlain _ | readExact _ | readByte | readLine _ | readLineInto _ | fillBuffer
  | consume _ | unread | describe | split _ | wrap _ | delimiter | takeOut =>
    obtain ⟨rfl, rfl⟩ := Prod.mk.inj (Option.some.inj h)
    exact ⟨_, hinner, [], .of_rest _ _ _ rfl⟩

/-- An operation on a reader or its lines keeps to the rules. -/
theorem exists_undertaken {r : Reader (Recorded σ)} (hr : s.inner? = some r)
    (hop : op.keepsReader = true) (h : s.performWithin rounds op = some (reply, s')) :
    ∃ r', s'.inner? = some r' ∧
      ∃ ms, @Turn.Undertaken σ (.ofWaited σ) ⟨r, op, 1, reply, r'⟩ ms := by
  unfold performWithin at h
  split at h
  · next htake =>
    obtain ⟨rfl, rfl⟩ := Prod.mk.inj (Option.some.inj h)
    let : PolledSource σ := .ofWaited σ
    exact ⟨r, hr, [], .of_rest r _ _ rfl⟩
  · cases hs : s.holding with
    | reader reader =>
      rw [inner?, hs, Option.some.injEq] at hr
      subst hr
      rw [hs] at h
      exact exists_undertaken_onReader hs hop h
    | splitter splitter =>
      rw [inner?, hs, Option.some.injEq] at hr
      subst hr
      rw [hs] at h
      exact exists_undertaken_onSplitter hs hop h
    | source source => simp [inner?, hs] at hr

/-- The operations of a run follow each other and keep to the rules. -/
theorem chained_traceWithin {r : Reader (Recorded σ)} (hr : s.inner? = some r)
    {ops : List Operation} (hops : ∀ op ∈ ops, op.keepsReader = true)
    {events : List (Event (Recorded σ))} (h : s.traceWithin rounds ops = some events) :
    @Chained σ (.ofWaited σ) r (events.map Event.turn?) := by
  induction ops generalizing s r events with
  | nil =>
    rw [traceWithin, Option.some.injEq] at h
    subst h
    trivial
  | cons op ops ih =>
    rw [traceWithin] at h
    cases hperform : s.performWithin rounds op with
    | none => simp [hperform] at h
    | some outcome =>
      obtain ⟨reply, s'⟩ := outcome
      rw [hperform] at h
      obtain ⟨later, hlater, rfl⟩ := Option.map_eq_some_iff.1 h
      obtain ⟨r', hr', hms⟩ := exists_undertaken hr (hops op List.mem_cons_self) hperform
      have hchained := ih hr' (fun op hop => hops op (List.mem_cons_of_mem _ hop)) hlater
      simp only [List.map_cons, Event.turn?, hr, hr']
      exact ⟨rfl, hms, hchained⟩

end Session

/-! ### Runs -/

/-- A reader has asked its source so many times, has taken bytes and has come to another state, and
has kept to the rules on the way. -/
def Reader.Underway {σ : Type} [PolledSource σ] (r : Reader (Recorded σ)) (requests : Nat)
    (taken : List UInt8) (r' : Reader (Recorded σ)) : Prop :=
  ∃ ms, r.Abides none ms r' ∧ r.taken ms = taken ∧ (r.exchanges ms).length = requests ∧
    r'.window.toList <:+ (r.refills ms).getLastD r.window.toList

/-- A delimiter read that has not come to an end has kept to the rules so far, has asked once in
each round, and goes on from where it is. -/
theorem Reader.exists_underway_of_unfinished {σ : Type} [PolledSource σ] {rounds : Nat}
    {r : Reader (Recorded σ)} {scan : Scan} {out : Bytes}
    (h : pollLineWithin rounds r scan out = none) :
    ∃ taken r', r.Underway rounds taken r' ∧
      ∀ more, pollLineWithin (rounds + more) r scan out =
        pollLineWithin more r' (scan.add taken.length) (out ++ taken.toArray) := by
  obtain ⟨ms, taken, r', hcourse, hlength, -, hmore, -⟩ := exists_course_of_unfinished h
  have hsuffix := unread_suffix_refills hcourse.permits List.suffix_rfl
  rw [hcourse.follow_eq] at hsuffix
  exact ⟨taken, r', ⟨ms, hcourse.abides, hcourse.taken_eq, hlength, hsuffix⟩, hmore⟩

/-- A delimiter read of a source that is waited for is settled by the attempt at it. -/
theorem Reader.lineWithin_inj_ofWaited {σ : Type} [ByteSource σ] {rounds rounds' : Nat}
    {r r' : Reader σ} {scan scan' : Scan} {out out' : Bytes}
    (h : @pollLineWithin σ (.ofWaited σ) rounds r scan out =
      @pollLineWithin σ (.ofWaited σ) rounds' r' scan' out') :
    lineWithin rounds scan r out = lineWithin rounds' scan' r' out' := by
  have heq := lineWithin_eq_ofWaited r rounds scan out
  rw [h, ← lineWithin_eq_ofWaited r' rounds' scan' out'] at heq
  cases hcall : lineWithin rounds scan r out with
  | none =>
    rw [hcall, Option.map_none, eq_comm, Option.map_eq_none_iff] at heq
    exact heq.symm
  | some call =>
    rw [hcall, Option.map_some, eq_comm, Option.map_eq_some_iff] at heq
    obtain ⟨⟨result, buffer, reader⟩, hcall', hready⟩ := heq
    obtain ⟨result', buffer', reader'⟩ := call
    simp only [Call.ready, Call.mk.injEq, Poll.ready.injEq] at hready
    obtain ⟨rfl, rfl, rfl⟩ := hready
    exact hcall'.symm

/-- Every operation of every run keeps to the rules, whatever the source does and however often it
puts off an answer: of a polled session, whose operations may be given up, and of a session that
waits. A delimiter read over a source that never lets it come to an end keeps to them too. -/
theorem source_discipline {σ : Type} (source : σ) (start : Start) (rounds : Nat) :
    (∀ [PolledSource σ] (s : PolledSession (Recorded σ)) (ops : List (Operation × Nat))
        (events : List (PolledEvent (Recorded σ))),
      PolledSession.start? ⟨source, #[]⟩ start = .ok s → (∀ p ∈ ops, p.1.keepsReader = true) →
      s.traceWithin rounds ops = some events →
      ∃ r, s.inner? = some r ∧ Disciplined r (events.map PolledEvent.turn?)) ∧
    (∀ [ByteSource σ] (s : Session (Recorded σ)) (ops : List Operation)
        (events : List (Event (Recorded σ))),
      Session.start? ⟨source, #[]⟩ start = .ok s → (∀ op ∈ ops, op.keepsReader = true) →
      s.traceWithin rounds ops = some events →
      ∃ r, s.inner? = some r ∧ @Disciplined σ (.ofWaited σ) r (events.map Event.turn?)) ∧
    (∀ [PolledSource σ] (r : Reader (Recorded σ)) (scan : Scan) (out : Bytes),
      Reader.pollLineWithin rounds r scan out = none →
      ∃ taken r', r.Underway rounds taken r' ∧
        ∀ more, Reader.pollLineWithin (rounds + more) r scan out =
          Reader.pollLineWithin more r' (scan.add taken.length) (out ++ taken.toArray)) ∧
    ∀ [ByteSource σ] (r : Reader (Recorded σ)) (scan : Scan) (out : Bytes),
      Reader.lineWithin rounds scan r out = none →
      ∃ taken r', @Reader.Underway σ (.ofWaited σ) r rounds taken r' ∧
        ∀ more, Reader.lineWithin (rounds + more) scan r out =
          Reader.lineWithin more (scan.add taken.length) r' (out ++ taken.toArray) := by
  refine ⟨?_, ?_, ?_, ?_⟩
  · intro _ s ops events hstart hops htrace
    obtain ⟨r, hr, hunread, hhistory⟩ := PolledSession.exists_inner_of_start hstart
    have hchained := PolledSession.chained_traceWithin hr hops htrace
    exact ⟨r, hr, hchained.disciplined hunread hhistory⟩
  · intro _ s ops events hstart hops htrace
    obtain ⟨r, hr, hunread, hhistory⟩ := Session.exists_inner_of_start hstart
    have hchained := Session.chained_traceWithin hr hops htrace
    let : PolledSource σ := .ofWaited σ
    exact ⟨r, hr, hchained.disciplined hunread hhistory⟩
  · intro _ r scan out hunfinished
    exact Reader.exists_underway_of_unfinished hunfinished
  · intro _ r scan out hunfinished
    have hattempt := Reader.pollLineWithin_eq_none_of_ofWaited hunfinished
    obtain ⟨taken, r', hunderway, hmore⟩ :=
      @Reader.exists_underway_of_unfinished σ (.ofWaited σ) rounds r scan out hattempt
    exact ⟨taken, r', hunderway, fun more => Reader.lineWithin_inj_ofWaited (hmore more)⟩

/-- A line in two pieces, the second of which is put off, and a byte behind it. -/
def delayedEnd : Script := [.data #[1, 2], .delay 1, .data #[10, 3]]

/-- A line and two reads keep to the rules, and so does the first round of the line. -/
theorem source_discipline_delayedEnd :
    (∃ s events r, PolledSession.start? (⟨delayedEnd, #[]⟩ : Recorded Script) (.ofCapacity 2) =
        .ok s ∧
      s.traceWithin 3 [(.readLine newline, 2), (.read #[0, 0, 0], 1), (.read #[0, 0, 0], 1)] =
        some events ∧
      s.inner? = some r ∧ Disciplined r (events.map PolledEvent.turn?)) ∧
    (∃ s events r, Session.start? (⟨delayedEnd, #[]⟩ : Recorded Script) (.ofCapacity 2) = .ok s ∧
      s.traceWithin 3 [.readLine newline, .read #[0, 0, 0], .read #[0, 0, 0]] = some events ∧
      s.inner? = some r ∧ @Disciplined Script (.ofWaited Script) r (events.map Event.turn?)) ∧
    ∃ taken r',
      (Reader.ofCapacity (⟨.data #[1, 2] :: delayedEnd, #[]⟩ : Recorded Script) 1).Underway
        3 taken r' := by
  obtain ⟨hpolled, hwaiting, hunfinished, -⟩ := source_discipline delayedEnd (.ofCapacity 2) 3
  refine ⟨?_, ?_, ?_⟩
  · obtain ⟨s, hs⟩ : ∃ s, PolledSession.start? (⟨delayedEnd, #[]⟩ : Recorded Script)
        (.ofCapacity 2) = .ok s := ⟨_, rfl⟩
    obtain ⟨events, hevents⟩ : ∃ events, s.traceWithin 3 [(.readLine newline, 2),
        (.read #[0, 0, 0], 1), (.read #[0, 0, 0], 1)] = some events := by
      obtain rfl := Except.ok.inj hs
      exact Option.isSome_iff_exists.1 (by decide +kernel)
    obtain ⟨r, hr, hdisciplined⟩ := hpolled s _ events hs (by decide) hevents
    exact ⟨s, events, r, hs, hevents, hr, hdisciplined⟩
  · obtain ⟨s, hs⟩ : ∃ s, Session.start? (⟨delayedEnd, #[]⟩ : Recorded Script)
        (.ofCapacity 2) = .ok s := ⟨_, rfl⟩
    obtain ⟨events, hevents⟩ : ∃ events, s.traceWithin 3 [.readLine newline,
        .read #[0, 0, 0], .read #[0, 0, 0]] = some events := by
      obtain rfl := Except.ok.inj hs
      exact Option.isSome_iff_exists.1 (by decide +kernel)
    obtain ⟨r, hr, hdisciplined⟩ := hwaiting s _ events hs (by decide) hevents
    exact ⟨s, events, r, hs, hevents, hr, hdisciplined⟩
  · have hnone : Reader.pollLineWithin 3
        (Reader.ofCapacity (⟨.data #[1, 2] :: delayedEnd, #[]⟩ : Recorded Script) 1)
        (.start newline none) #[] = none := Option.isNone_iff_eq_none.1 (by decide +kernel)
    obtain ⟨taken, r', hunderway, -⟩ := hunfinished _ _ _ hnone
    exact ⟨taken, r', hunderway⟩

end BufferedReading
