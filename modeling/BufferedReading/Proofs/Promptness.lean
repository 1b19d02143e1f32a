import BufferedReading.Proofs.Discipline

/-!
# No needless request

A reader turns to its source only when no byte is unread and the bytes that the operation has taken
so far do not decide what it is for: a read wants a byte, filling a buffer wants as many as there is
room for, and a delimiter read wants the delimiter or as many bytes as its limit allows. `Want`
says what an operation wants, and `Want.Decided` which bytes are enough.

`PolledSession.exists_prompt` and `Session.exists_prompt` say so of every operation that wants
something, and `Reader.exists_inNeed_of_unfinished` of a delimiter read that has not come to an end.
-/

namespace BufferedReading

/-! ### What an operation wants -/

/-- What an operation wants of the stream. -/
inductive Want where
  /-- Some bytes, if there is room for any. -/
  | part (room : Nat)
  /-- As many bytes as there is room for. -/
  | whole (room : Nat)
  /-- The bytes up to the delimiter of a search, or to its limit. -/
  | line (scan : Scan)
  deriving DecidableEq, Repr

namespace Want

/-- Bytes decide a want that they satisfy. A search with a limit may still take as many bytes
as it allows less those taken before. -/
def Decided : Want → List UInt8 → Prop
  | part room, bytes => room = 0 ∨ bytes ≠ []
  | whole room, bytes => room ≤ bytes.length
  | line scan, bytes =>
    match scan.limit with
    | none => scan.delim ∈ bytes
    | some limit =>
      scan.delim ∈ bytes.take (limit - scan.taken) ∨ limit - scan.taken ≤ bytes.length

theorem not_decided_part {room : Nat} {bytes : List UInt8} :
    ¬ (part room).Decided bytes ↔ room ≠ 0 ∧ bytes = [] := by
  simp [Decided]

theorem not_decided_whole {room : Nat} {bytes : List UInt8} :
    ¬ (whole room).Decided bytes ↔ bytes.length < room := Nat.not_le

/-- A search is undecided by the bytes on which it wants more. -/
theorem not_decided_line {scan : Scan} {bytes : List UInt8} :
    ¬ (line scan).Decided bytes ↔ (scan.walk bytes).verdict = .starved := by
  -- within reach there is no delimiter, and what is within reach does not use up the limit
  have hstarved : ∀ reach, (reach = match scan.limit with
      | none => bytes.length
      | some limit => min bytes.length (limit - scan.taken)) →
      ((scan.walk bytes).verdict = .starved ↔
        scan.delim ∉ bytes.take reach ∧ (scan.add reach).unmet = .starved) := by
    intro reach hreach
    rw [scan.walk_eq bytes reach hreach]
    by_cases hmem : scan.delim ∈ bytes.take reach
    · obtain ⟨i, hi⟩ := Option.ne_none_iff_exists'.1 fun h => List.idxOf?_eq_none_iff.1 h hmem
      simp [hi, hmem]
    · simp [List.idxOf?_eq_none_iff.2 hmem, hmem]
  cases hl : scan.limit with
  | none =>
    rw [hstarved bytes.length (by rw [hl]), List.take_length]
    simp [Decided, Scan.unmet, hl]
  | some limit =>
    rw [hstarved (min bytes.length (limit - scan.taken)) (by rw [hl])]
    have hunmet : (scan.add (min bytes.length (limit - scan.taken))).unmet = .starved ↔
        ¬ limit - scan.taken ≤ bytes.length := by
      simp only [Scan.unmet, hl, Scan.add]
      split
      · simp
        omega
      · simp
        omega
    rw [hunmet]
    simp [Decided, hl, List.take_eq_take_min, Nat.min_comm]

end Want

/-- What an operation wants of a reader with the given limit on lines, if it wants anything. -/
def Operation.want? (limit : Option Nat) : Operation → Option Want
  | read buffer => some (.part buffer.size)
  | readPlain buffer => some (.part buffer.size)
  | readExact buffer => some (.whole buffer.size)
  | readByte => some (.part 1)
  | fillBuffer => some (.part 1)
  | readLine delim => some (.line (.start delim limit))
  | readLineInto delim => some (.line (.start delim limit))
  | _ => none

/-- What the next line of a splitter wants: nothing if it has finished. -/
def Splitter.want {σ : Type} (s : Splitter σ) : Want :=
  if s.finished then .part 0 else .line (.start s.delim s.reader.config.lineLimit)

/-- What the next line of a stream wants: nothing if it has finished. The search of the line under
way may have been left by earlier attempts. -/
def LineStream.want {σ : Type} (s : LineStream σ) : Want :=
  if s.finished then .part 0 else .line s.scan

/-- What an operation of a session wants. -/
def Session.want? {σ : Type} (s : Session σ) (op : Operation) : Option Want :=
  match s.holding with
  | .reader r => op.want? r.config.lineLimit
  | .splitter splitter => if op = .next then some splitter.want else none
  | .source _ => none

/-- What an operation of a polled session wants. -/
def PolledSession.want? {σ : Type} (s : PolledSession σ) (op : Operation) : Option Want :=
  match s.holding with
  | .reader r => op.want? r.config.lineLimit
  | .stream stream => if op = .next then some stream.want else none
  | .source _ => none

/-! ### Asking only in need -/

namespace Reader

section Prompt

variable {σ : Type} [PolledSource σ] {r r' r'' : Reader σ} {want want' : Want}
  {room : Option Nat} {ms ms' : List Move} {taken taken' : List UInt8}

/-- A reader comes from one state to another by permitted moves that take the given bytes and turn
to the source only while the bytes taken do not decide a want. -/
structure Prompt (r : Reader σ) (want : Want) (ms : List Move) (taken : List UInt8)
    (r' : Reader σ) : Prop where
  follow_eq : r.follow ms = r'
  permits : r.PermitsAll ms
  asks : r.AsksWhile (fun later => ¬ want.Decided later) ms
  taken_eq : r.taken ms = taken

theorem Prompt.refl (r : Reader σ) (want : Want) : r.Prompt want [] [] r :=
  ⟨rfl, trivial, trivial, rfl⟩

/-- Moves for a want and then for what is left of it are moves for the want. -/
theorem Prompt.trans (h : r.Prompt want ms taken r') (h' : r'.Prompt want' ms' taken' r'')
    (hleft : ∀ later, ¬ want'.Decided later → ¬ want.Decided (taken ++ later)) :
    r.Prompt want (ms ++ ms') (taken ++ taken') r'' := by
  obtain ⟨rfl, hpermits, hasks, rfl⟩ := h
  obtain ⟨rfl, hpermits', hasks', rfl⟩ := h'
  constructor
  · exact follow_append ..
  · exact permitsAll_append.2 ⟨hpermits, hpermits'⟩
  · exact asksWhile_append.2 ⟨hasks, hasks'.mono hleft⟩
  · exact taken_append ..

/-- A course asks as it should if it asks while the bytes taken are such as do not decide the
want. -/
theorem Course.prompt (h : r.Course room ms taken r') {wants : List UInt8 → Prop}
    (hasks : r.AsksWhile wants ms) (hwants : ∀ later, wants later → ¬ want.Decided later) :
    r.Prompt want ms taken r' :=
  ⟨h.follow_eq, h.permits, hasks.mono hwants, h.taken_eq⟩

end Prompt

/-- A reader comes from one state to another, takes the given bytes on the way and turns to its
source only in need: the source has seen the requests of the moves and no others, and at each of
them no byte was unread and the bytes taken up to then did not decide what the operation wants. If
the answers are reliable, the bytes unread before and those brought are the bytes taken and those
unread now. -/
def AsksInNeed {σ : Type} [PolledSource σ] (r : Reader (Recorded σ)) (want : Want)
    (taken : List UInt8) (r' : Reader (Recorded σ)) : Prop :=
  ∃ ms, r.follow ms = r' ∧ r.taken ms = taken ∧
    r'.source.history.toList = r.source.history.toList ++ r.exchanges ms ∧
    ((∀ e ∈ r.exchanges ms, e.Reliable) →
      r.window.toList ++ (r.exchanges ms).flatMap Exchange.brought = taken ++ r'.window.toList) ∧
    ∀ before m after, ms = before ++ m :: after → m.asks = true →
      (r.follow before).window.toList = [] ∧ ¬ want.Decided (r.taken before)

/-- Permitted moves that turn to the source only while a want is undecided are made in need. -/
theorem Prompt.asksInNeed {σ : Type} [PolledSource σ] {r r' : Reader (Recorded σ)}
    {want : Want} {ms : List Move} {taken : List UInt8}
    (h : r.Prompt want ms taken r') : r.AsksInNeed want taken r' := by
  refine ⟨ms, h.follow_eq, h.taken_eq, ?_, fun hreliable => ?_, ?_⟩
  · rw [← h.follow_eq, history_follow h.permits]
  · rw [← produced_of_reliable hreliable, unread_append_produced h.permits, h.taken_eq, h.follow_eq]
  · rintro before m after rfl hm
    refine ⟨?_, h.asks.wants_taken hm⟩
    have hpermits := h.permits.permits
    cases m with
    | take count => exact absurd hm Bool.false_ne_true
    | refill => exact hpermits
    | bypass buffer => exact hpermits.1

/-! ### Attempts -/

section Attempts

variable {σ : Type} [PolledSource σ] {r : Reader σ} {rounds : Nat} {scan : Scan} {out : Bytes}

/-- An attempt at a read asks only in need, and has taken nothing if it is put off. -/
theorem exists_prompt_pollRead (r : Reader σ) (buffer : Bytes) :
    ∃ ms taken, r.Prompt (.part buffer.size) ms taken (r.pollRead buffer).reader ∧
      ((r.pollRead buffer).result = .pending → (r.pollRead buffer).buffer = buffer ∧
        taken = []) := by
  obtain ⟨ms, hcourse, -, -, hpending, hasks⟩ := r.exists_course_pollRead buffer
  refine ⟨ms, _, hcourse.prompt hasks fun later => Want.not_decided_part.2, fun hresult => ?_⟩
  exact ⟨(hpending hresult).1, by rw [Call.handed, hresult]⟩

/-- An attempt at a read of one byte asks only in need, and has taken nothing if it is put off. -/
theorem exists_prompt_pollByte (r : Reader σ) :
    ∃ ms taken, r.Prompt (.part 1) ms taken r.pollByte.2 ∧
      (r.pollByte.1 = .pending → taken = []) := by
  obtain ⟨ms, taken, hcourse, hpending, hasks⟩ := r.exists_course_pollByte
  refine ⟨ms, taken, hcourse.prompt hasks ?_, fun hresult => ?_⟩
  · exact fun later hnil => Want.not_decided_part.2 ⟨Nat.one_ne_zero, hnil⟩
  · rw [← hcourse.taken_eq, (hpending hresult).taken_eq]

/-- An attempt at a look at the unread bytes asks only in need, and takes nothing. -/
theorem exists_prompt_pollFillBuffer (r : Reader σ) :
    ∃ ms taken, r.Prompt (.part 1) ms taken r.pollFillBuffer.2 ∧
      (r.pollFillBuffer.1 = .pending → taken = []) := by
  obtain ⟨ms, hcourse, -, hasks⟩ := r.exists_course_pollFillBuffer
  refine ⟨ms, [], hcourse.prompt hasks ?_, fun _ => rfl⟩
  exact fun later hnil => Want.not_decided_part.2 ⟨Nat.one_ne_zero, hnil⟩

/-- An attempt to go on filling a buffer asks only in need. If it is put off then what is left of
the buffer is still wanted. -/
theorem exists_prompt_pollExact (r : Reader σ) (done rest : Bytes) :
    ∃ ms taken, r.Prompt (.whole rest.size) ms taken (r.pollExact done rest).reader ∧
      ∀ later, ¬ (Want.whole (r.pollExact done rest).rest.size).Decided later →
        ¬ (Want.whole rest.size).Decided (taken ++ later) := by
  obtain ⟨ms, taken, hcourse, -, hlength, -, hasks⟩ := r.exists_course_pollExact done rest
  refine ⟨ms, taken, hcourse.prompt hasks fun later => Want.not_decided_whole.2, ?_⟩
  intro later hlater
  rw [Want.not_decided_whole] at hlater ⊢
  rw [List.length_append]
  omega

/-- An attempt at a delimiter read asks only in need. If it is put off then its search still wants
what the search it began with wants. -/
theorem exists_prompt_pollLineWithin {attempt : LineAttempt σ}
    (h : pollLineWithin rounds r scan out = some attempt) :
    ∃ ms taken, r.Prompt (.line scan) ms taken attempt.reader ∧
      (attempt.result = .pending → ∀ later, ¬ (Want.line attempt.scan).Decided later →
        ¬ (Want.line scan).Decided (taken ++ later)) := by
  obtain ⟨ms, taken, hcourse, -, hscan, hwalk, -, hasks⟩ := exists_course_pollLineWithin h
  refine ⟨ms, taken, hcourse.prompt hasks fun later => Want.not_decided_line.2, ?_⟩
  intro hpending later hlater
  have hverdict : (scan.walk taken).verdict = .starved := by
    rw [hwalk, LineAttempt.verdict, hpending]
  rw [Want.not_decided_line, hscan] at hlater
  rw [Want.not_decided_line, Scan.walk_append later hverdict, hlater]

end Attempts

/-- A delimiter read that has not come to an end within its rounds has asked only in need, once in
each round, and goes on from where it is. -/
theorem exists_inNeed_of_unfinished {σ : Type} [PolledSource σ] {r : Reader (Recorded σ)}
    {rounds : Nat} {scan : Scan} {out : Bytes} (h : pollLineWithin rounds r scan out = none) :
    ∃ taken r', r.AsksInNeed (.line scan) taken r' ∧
      r'.source.history.size = r.source.history.size + rounds ∧
      r.lineAfter rounds scan out = (scan.add taken.length, out ++ taken.toArray, r') ∧
      ∀ more, pollLineWithin (rounds + more) r scan out =
        pollLineWithin more r' (scan.add taken.length) (out ++ taken.toArray) := by
  obtain ⟨ms, taken, r', hcourse, hlength, hafter, hmore, hasks⟩ := exists_course_of_unfinished h
  have hprompt := hcourse.prompt hasks fun later => Want.not_decided_line.2
  have hhistory := congrArg List.length (history_follow hcourse.permits)
  rw [hcourse.follow_eq, List.length_append, hlength] at hhistory
  exact ⟨taken, r', hprompt.asksInNeed, hhistory, hafter, hmore⟩

end Reader

/-! ### Polled sessions ask only in need -/

namespace PolledSession

section Drive

variable {σ ς α : Type} [PolledSource σ] {attempt : ς → Option (Poll α × ς)}
  {attempts made : Nat}

/-- Attempts ask only in need if each of them does, and if one that is put off leaves what is still
wanted for the next. -/
theorem exists_prompt_drive (reader : ς → Reader σ) (want : ς → Want)
    (hstep : ∀ s p s', attempt s = some (p, s') →
      ∃ ms taken, (reader s).Prompt (want s) ms taken (reader s') ∧
        (p = .pending → ∀ later, ¬ (want s').Decided later →
          ¬ (want s).Decided (taken ++ later)))
    {s s' : ς} {p : Poll α} (h : Poll.drive attempt attempts 0 s = some (p, made, s')) :
    ∃ ms taken, (reader s).Prompt (want s) ms taken (reader s') := by
  have hdrive := Poll.drive_induction
    (fun _ t => ∃ ms taken, (reader s).Prompt (want s) ms taken (reader t) ∧
      ∀ later, ¬ (want t).Decided later → ¬ (want s).Decided (taken ++ later))
    (fun _ _ t => ∃ ms taken, (reader s).Prompt (want s) ms taken (reader t))
    ?_ ⟨[], [], .refl _ _, fun _ => id⟩ h
  · cases p with
    | pending =>
      obtain ⟨-, ms, taken, hprompt, -⟩ := hdrive
      exact ⟨ms, taken, hprompt⟩
    | ready result => exact hdrive.2
  · rintro n t p t' ⟨ms, taken, hprompt, hleft⟩ hattempt
    obtain ⟨ms', taken', hprompt', hleft'⟩ := hstep t p t' hattempt
    have hwhole := hprompt.trans hprompt' hleft
    cases p with
    | pending =>
      refine ⟨_, _, hwhole, fun later hlater => ?_⟩
      rw [List.append_assoc]
      exact hleft _ (hleft' rfl later hlater)
    | ready result => exact ⟨_, _, hwhole⟩

end Drive

variable {σ : Type} [PolledSource σ] {r r' : Reader σ} {rounds attempts made : Nat}

/-- The attempts at a read ask only in need. -/
theorem exists_prompt_driveRead {buffer buffer' : Bytes} {p : Poll (Except ReadError Nat)}
    (h : driveBuffer Reader.pollRead attempts r buffer = some (p, made, buffer', r')) :
    ∃ ms taken, r.Prompt (.part buffer.size) ms taken r' := by
  refine exists_prompt_drive Prod.snd (fun s => .part s.1.size) ?_ h
  rintro ⟨held, a⟩ p s' hattempt
  obtain ⟨rfl, rfl⟩ := Prod.mk.inj (Option.some.inj hattempt)
  obtain ⟨ms, taken, hprompt, hpending⟩ := a.exists_prompt_pollRead held
  refine ⟨ms, taken, hprompt, fun hresult => ?_⟩
  obtain ⟨hheld, rfl⟩ := hpending hresult
  simp only [hheld]
  exact fun _ => id

/-- The attempts at a read that works on the reader alone ask only in need. -/
theorem exists_prompt_driveReader {α : Type} {attempt : Reader σ → Poll α × Reader σ}
    {want : Want}
    (hattempt : ∀ a : Reader σ, ∃ ms taken, a.Prompt want ms taken (attempt a).2 ∧
      ((attempt a).1 = .pending → taken = []))
    {p : Poll α} (h : driveReader attempt attempts r = some (p, made, r')) :
    ∃ ms taken, r.Prompt want ms taken r' := by
  refine exists_prompt_drive id (fun _ => want) ?_ h
  intro a p a' hsome
  obtain ⟨ms, taken, hprompt, hpending⟩ := hattempt a
  rw [Option.some.inj hsome] at hprompt hpending
  refine ⟨ms, taken, hprompt, fun hresult => ?_⟩
  obtain rfl := hpending hresult
  exact fun _ => id

/-- The attempts to fill a buffer ask only in need. -/
theorem exists_prompt_driveExact {buffer done rest : Bytes}
    {p : Poll (Except (Stop ReadError) Unit)}
    (h : driveExact attempts r buffer = some (p, made, (done, rest), r')) :
    ∃ ms taken, r.Prompt (.whole buffer.size) ms taken r' := by
  refine exists_prompt_drive Prod.snd (fun s => .whole s.1.2.size) ?_ h
  rintro ⟨⟨done, rest⟩, a⟩ p s' hattempt
  obtain ⟨rfl, rfl⟩ := Prod.mk.inj (Option.some.inj hattempt)
  obtain ⟨ms, taken, hprompt, hleft⟩ := a.exists_prompt_pollExact done rest
  exact ⟨ms, taken, hprompt, fun _ => hleft⟩

/-- The attempts at a delimiter read ask only in need. -/
theorem exists_prompt_driveLine {delim : UInt8} {scan : Scan} {out out' : Bytes}
    {p : Poll (Except ReadError Bool)}
    (h : driveLine rounds attempts r delim out = some (p, made, (scan, out'), r')) :
    ∃ ms taken, r.Prompt (.line (.start delim r.config.lineLimit)) ms taken r' := by
  refine exists_prompt_drive Prod.snd (fun s => .line s.1.1) ?_ h
  rintro ⟨⟨scan, held⟩, a⟩ p s' hattempt
  obtain ⟨attempt, hpoll, heq⟩ := Option.map_eq_some_iff.1 hattempt
  obtain ⟨rfl, rfl⟩ := Prod.mk.inj heq
  exact Reader.exists_prompt_pollLineWithin hpoll

/-- The attempts at the next line ask only in need. -/
theorem exists_prompt_driveNext {stream stream' : LineStream σ} {p : Poll (Option Item)}
    (h : driveNext rounds attempts stream = some (p, made, stream')) :
    ∃ ms taken, stream.reader.Prompt (stream.want) ms taken stream'.reader := by
  refine exists_prompt_drive LineStream.reader LineStream.want ?_ h
  intro s p s' hattempt
  unfold LineStream.pollNextWithin at hattempt
  split at hattempt
  · obtain ⟨rfl, rfl⟩ := Prod.mk.inj (Option.some.inj hattempt)
    exact ⟨[], [], .refl _ _, fun hresult => absurd hresult (Poll.ready_ne_pending _)⟩
  · next hopen =>
    obtain ⟨attempt, hpoll, hconclude⟩ := Option.map_eq_some_iff.1 hattempt
    obtain ⟨ms, taken, hprompt, hleft⟩ := Reader.exists_prompt_pollLineWithin hpoll
    have hreader := LineStream.reader_conclude s.delim attempt
    rw [hconclude] at hreader
    rw [← hreader] at hprompt
    have hwant : s.want = .line s.scan := if_neg hopen
    rw [hwant]
    refine ⟨ms, taken, hprompt, ?_⟩
    rintro rfl
    obtain ⟨hpending, rfl⟩ := LineStream.conclude_of_pending hconclude
    exact hleft hpending

/-- An operation on a reader asks only in need. -/
theorem exists_prompt_onReader {s : PolledSession σ} {op : Operation} {want : Want}
    {performance : Performance σ} (hwant : op.want? r.config.lineLimit = some want)
    (h : s.onReader rounds attempts r op = some performance) :
    ∃ r' ms taken, performance.session.inner? = some r' ∧ r.Prompt want ms taken r' := by
  cases op with
  | read buffer | readPlain buffer =>
    obtain rfl := Option.some.inj hwant
    obtain ⟨⟨p, made, buffer', r'⟩, hdrive, rfl⟩ := Option.map_eq_some_iff.1 h
    obtain ⟨ms, taken, hprompt⟩ := exists_prompt_driveRead hdrive
    exact ⟨r', ms, taken, rfl, hprompt⟩
  | readExact buffer =>
    obtain rfl := Option.some.inj hwant
    obtain ⟨⟨p, made, ⟨done, rest⟩, r'⟩, hdrive, rfl⟩ := Option.map_eq_some_iff.1 h
    obtain ⟨ms, taken, hprompt⟩ := exists_prompt_driveExact hdrive
    exact ⟨r', ms, taken, rfl, hprompt⟩
  | readByte =>
    obtain rfl := Option.some.inj hwant
    obtain ⟨⟨p, made, r'⟩, hdrive, rfl⟩ := Option.map_eq_some_iff.1 h
    obtain ⟨ms, taken, hprompt⟩ := exists_prompt_driveReader Reader.exists_prompt_pollByte hdrive
    exact ⟨r', ms, taken, rfl, hprompt⟩
  | fillBuffer =>
    obtain rfl := Option.some.inj hwant
    obtain ⟨⟨p, made, r'⟩, hdrive, rfl⟩ := Option.map_eq_some_iff.1 h
    obtain ⟨ms, taken, hprompt⟩ :=
      exists_prompt_driveReader Reader.exists_prompt_pollFillBuffer hdrive
    exact ⟨r', ms, taken, rfl, hprompt⟩
  | readLine delim | readLineInto delim =>
    obtain rfl := Option.some.inj hwant
    obtain ⟨⟨p, made, ⟨scan, out⟩, r'⟩, hdrive, rfl⟩ := Option.map_eq_some_iff.1 h
    obtain ⟨ms, taken, hprompt⟩ := exists_prompt_driveLine hdrive
    exact ⟨r', ms, taken, rfl, hprompt⟩
  | _ => cases hwant

/-- An operation that wants something asks only in need. -/
theorem exists_prompt {s : PolledSession σ} {op : Operation} {want : Want}
    {performance : Performance σ} (hwant : s.want? op = some want)
    (h : s.performWithin rounds attempts op = some performance) :
    ∃ r r' ms taken, s.inner? = some r ∧ performance.session.inner? = some r' ∧
      r.Prompt want ms taken r' := by
  unfold want? at hwant
  unfold performWithin at h
  cases hs : s.holding with
  | reader r =>
    rw [hs] at hwant h
    have hop : op ≠ .takeOut := by
      rintro rfl
      cases hwant
    rw [if_neg hop] at h
    obtain ⟨r', ms, taken, hr', hprompt⟩ := exists_prompt_onReader hwant h
    exact ⟨r, r', ms, taken, by rw [inner?, hs], hr', hprompt⟩
  | stream stream =>
    rw [hs] at hwant h
    simp only [Option.ite_none_right_eq_some, Option.some.injEq] at hwant
    obtain ⟨rfl, rfl⟩ := hwant
    rw [if_neg (by simp)] at h
    obtain ⟨⟨p, made, stream'⟩, hdrive, rfl⟩ := Option.map_eq_some_iff.1 h
    obtain ⟨ms, taken, hprompt⟩ := exists_prompt_driveNext hdrive
    exact ⟨stream.reader, stream'.reader, ms, taken, by rw [inner?, hs], rfl, hprompt⟩
  | source source =>
    rw [hs] at hwant
    cases hwant

end PolledSession

/-! ### Sessions that wait ask only in need -/

/-- A delimiter read of a source that is waited for asks only in need. -/
theorem Reader.exists_prompt_lineWithin {σ : Type} [ByteSource σ] {r : Reader σ} {rounds : Nat}
    {scan : Scan} {out : Bytes} {call : Call (Reader σ) (Except ReadError Bool)}
    (h : lineWithin rounds scan r out = some call) :
    ∃ ms taken, @Prompt σ (.ofWaited σ) r (.line scan) ms taken call.reader := by
  have heq := lineWithin_eq_ofWaited r rounds scan out
  rw [h, Option.map_some, eq_comm, Option.map_eq_some_iff] at heq
  obtain ⟨attempt, hattempt, hcall⟩ := heq
  obtain ⟨ms, taken, hprompt, -⟩ := @exists_prompt_pollLineWithin σ (.ofWaited σ) _ _ _ _ _ hattempt
  have hreader : attempt.reader = call.reader := congrArg Call.reader hcall
  exact ⟨ms, taken, hreader ▸ hprompt⟩

namespace Session

variable {σ : Type} [ByteSource σ] {rounds : Nat} {s s' : Session σ} {op : Operation}
  {want : Want} {reply : Reply}

/-- An operation on a reader asks only in need. -/
theorem exists_prompt_onReader {r : Reader σ}
    (hwant : op.want? r.config.lineLimit = some want)
    (h : s.onReader rounds r op = some (reply, s')) :
    ∃ r' ms taken, s'.inner? = some r' ∧
      @Reader.Prompt σ (.ofWaited σ) r want ms taken r' := by
  cases op with
  | read buffer | readPlain buffer =>
    obtain rfl := Option.some.inj hwant
    obtain ⟨rfl, rfl⟩ := Prod.mk.inj (Option.some.inj h)
    obtain ⟨ms, taken, hprompt, -⟩ := @Reader.exists_prompt_pollRead σ (.ofWaited σ) r buffer
    rw [Reader.pollRead_ofWaited] at hprompt
    exact ⟨_, ms, taken, rfl, hprompt⟩
  | readExact buffer =>
    obtain rfl := Option.some.inj hwant
    obtain ⟨rfl, rfl⟩ := Prod.mk.inj (Option.some.inj h)
    obtain ⟨ms, taken, hprompt, -⟩ := @Reader.exists_prompt_pollExact σ (.ofWaited σ) r #[] buffer
    obtain ⟨-, -, hreader⟩ := r.pollExact_ofWaited #[] buffer
    rw [hreader] at hprompt
    exact ⟨_, ms, taken, rfl, hprompt⟩
  | readByte =>
    obtain rfl := Option.some.inj hwant
    have hread : some (Reply.byte r.readByte.1, s.withReader r.readByte.2) = some (reply, s') := h
    obtain ⟨rfl, rfl⟩ := Prod.mk.inj (Option.some.inj hread)
    obtain ⟨ms, taken, hprompt, -⟩ := @Reader.exists_prompt_pollByte σ (.ofWaited σ) r
    rw [Reader.pollByte_ofWaited] at hprompt
    exact ⟨_, ms, taken, rfl, hprompt⟩
  | fillBuffer =>
    obtain rfl := Option.some.inj hwant
    have hlook : some (Reply.available r.fillBuffer.1, s.withReader r.fillBuffer.2) =
        some (reply, s') := h
    obtain ⟨rfl, rfl⟩ := Prod.mk.inj (Option.some.inj hlook)
    obtain ⟨ms, taken, hprompt, -⟩ := @Reader.exists_prompt_pollFillBuffer σ (.ofWaited σ) r
    rw [Reader.pollFillBuffer_ofWaited] at hprompt
    exact ⟨_, ms, taken, rfl, hprompt⟩
  | readLine delim | readLineInto delim =>
    obtain rfl := Option.some.inj hwant
    obtain ⟨call, hcall, hconclude⟩ := Option.map_eq_some_iff.1 h
    obtain ⟨rfl, rfl⟩ := Prod.mk.inj hconclude
    obtain ⟨ms, taken, hprompt⟩ := Reader.exists_prompt_lineWithin hcall
    exact ⟨_, ms, taken, rfl, hprompt⟩
  | _ => cases hwant

/-- The next line of a splitter asks only in need. -/
theorem exists_prompt_next {splitter splitter' : Splitter σ} {item? : Option Item}
    (h : splitter.nextWithin rounds = some (item?, splitter')) :
    ∃ ms taken, @Reader.Prompt σ (.ofWaited σ) splitter.reader splitter.want ms taken
      splitter'.reader := by
  unfold Splitter.nextWithin at h
  split at h
  · obtain ⟨-, rfl⟩ := Prod.mk.inj (Option.some.inj h)
    exact ⟨[], [], @Reader.Prompt.refl σ (.ofWaited σ) _ _⟩
  · next hopen =>
    obtain ⟨call, hcall, hconclude⟩ := Option.map_eq_some_iff.1 h
    have hreader := Splitter.reader_conclude splitter.delim call
    have hwant : splitter.want = .line (.start splitter.delim
        splitter.reader.config.lineLimit) := if_neg hopen
    rw [hconclude] at hreader
    rw [hwant, hreader]
    exact Reader.exists_prompt_lineWithin hcall

/-- An operation that wants something asks only in need. -/
theorem exists_prompt (hwant : s.want? op = some want)
    (h : s.performWithin rounds op = some (reply, s')) :
    ∃ r r' ms taken, s.inner? = some r ∧ s'.inner? = some r' ∧
      @Reader.Prompt σ (.ofWaited σ) r want ms taken r' := by
  unfold want? at hwant
  unfold performWithin at h
  cases hs : s.holding with
  | reader r =>
    rw [hs] at hwant h
    have hop : op ≠ .takeOut := by
      rintro rfl
      cases hwant
    rw [if_neg hop] at h
    obtain ⟨r', ms, taken, hr', hprompt⟩ := exists_prompt_onReader hwant h
    exact ⟨r, r', ms, taken, by rw [inner?, hs], hr', hprompt⟩
  | splitter splitter =>
    rw [hs] at hwant h
    simp only [Option.ite_none_right_eq_some, Option.some.injEq] at hwant
    obtain ⟨rfl, rfl⟩ := hwant
    rw [if_neg (by simp)] at h
    obtain ⟨⟨item?, splitter'⟩, hnext, hreply⟩ := Option.map_eq_some_iff.1 h
    obtain ⟨rfl, rfl⟩ := Prod.mk.inj hreply
    obtain ⟨ms, taken, hprompt⟩ := exists_prompt_next hnext
    exact ⟨splitter.reader, splitter'.reader, ms, taken, by rw [inner?, hs], rfl, hprompt⟩
  | source source =>
    rw [hs] at hwant
    cases hwant

end Session

end BufferedReading
