import BufferedReading.Proofs.Attempts
import BufferedReading.Proofs.Mirror
import BufferedReading.Session.Blocking
import BufferedReading.Session.Polled

/-!
# A polled session is a session that waits, with suspensions

A polled session over a script, each of whose operations is attempted until it is no longer put off,
gives the replies of a session that waits for the script without its delays, and leaves the same
unread bytes, the same steps and, apart from the contacts that were put off, the same history and
journal (`PolledSession.performAll_eq_of_awaited`).

`Poll.drive_cases` takes a loop of attempts apart: an attempt that is put off keeps an invariant and
uses up a delay. The invariants come from `BufferedReading.Proofs.Mirror`; for a loop they say that
what is left to do is what the session that waits has yet to do.
-/

namespace BufferedReading

/-- A loop of attempts has a result as `Q` says, or it was given up after no more attempts than were
put off. -/
def Poll.Settled {α : Type} (attempts delays : Nat) (Q : α → Prop) : Poll α → Prop
  | .pending => attempts ≤ delays
  | .ready a => Q a

/-- What a loop of attempts comes to, if an attempt that is put off keeps an invariant `P` and
lowers `d`, and one that comes to its end has a result as `Q` says. -/
theorem Poll.drive_cases {ς α : Type} {attempt : ς → Option (Poll α × ς)} (P : ς → Prop)
    (d : ς → Nat) (Q : α → ς → Prop)
    (hstep : ∀ s p s', P s → attempt s = some (p, s') →
      match p with
      | .pending => P s' ∧ d s' < d s
      | .ready a => Q a s' ∧ d s' ≤ d s)
    {attempts made n : Nat} {s s' : ς} {p : Poll α} (hs : P s)
    (h : drive attempt attempts made s = some (p, n, s')) :
    p.Settled attempts (d s) fun a => Q a s' ∧ d s' ≤ d s := by
  -- the attempts made and the measure together do not grow
  have hdrive := drive_induction (fun n s' => P s' ∧ made ≤ n ∧ n + d s' ≤ made + d s)
    (fun _ a s' => Q a s' ∧ d s' ≤ d s) ?_ ⟨hs, Nat.le_refl _, Nat.le_refl _⟩ h
  · cases p with
    | pending =>
      obtain ⟨rfl, -, -, hle⟩ := hdrive
      have hattempts : attempts ≤ d s := by omega
      exact hattempts
    | ready a => exact hdrive.2
  · intro m t p t' ht hattempt
    obtain ⟨hkept, hmade, hle⟩ := ht
    have hnext := hstep t p t' hkept hattempt
    cases p with
    | pending =>
      obtain ⟨hkept', hlt⟩ := hnext
      exact ⟨hkept', by omega, by omega⟩
    | ready a =>
      obtain ⟨hq, hle'⟩ := hnext
      exact ⟨hq, by omega⟩

/-! ### Loops of attempts on a reader -/

namespace PolledSession

variable {a b : Reader (Recorded Script)} {attempts made : Nat}

/-- The attempts of a read come to what the read comes to. -/
theorem driveRead_cases (h : a.Mirrors b) {buffer buffer' : Bytes} {a' : Reader (Recorded Script)}
    {p : Poll (Except ReadError Nat)}
    (hdrive : driveBuffer Reader.pollRead attempts a buffer = some (p, made, buffer', a')) :
    p.Settled attempts a.delays fun result =>
      (result = (b.read buffer).result ∧ buffer' = (b.read buffer).buffer ∧
        a'.Mirrors (b.read buffer).reader) ∧ a'.delays ≤ a.delays := by
  refine Poll.drive_cases
    (fun s => s.1 = buffer ∧ ∃ b', s.2.Mirrors b' ∧ b'.read buffer = b.read buffer)
    (fun s => s.2.delays)
    (fun result s => result = (b.read buffer).result ∧ s.1 = (b.read buffer).buffer ∧
      s.2.Mirrors (b.read buffer).reader) ?_ ⟨rfl, b, h, rfl⟩ hdrive
  rintro ⟨held, a⟩ p s' ⟨rfl, b', h, hgoal⟩ hattempt
  by_cases hsize : held.size = 0
  · -- nothing is asked for, and no attempt has been put off
    simp only [Reader.read, if_pos hsize, Call.mk.injEq, true_and] at hgoal
    simp only [Reader.pollRead, if_pos hsize, Option.some.injEq, Prod.mk.injEq] at hattempt
    obtain ⟨rfl, rfl⟩ := hattempt
    rw [Reader.read, if_pos hsize, ← hgoal]
    exact ⟨⟨rfl, rfl, h⟩, Nat.le_refl _⟩
  rcases h.read_cases hsize with ⟨a', b₁, hread, hmirrors, hlater, hlt⟩ |
    ⟨a', hread, hmirrors, hle⟩
  · simp only [hread, Option.some.injEq, Prod.mk.injEq] at hattempt
    obtain ⟨rfl, rfl⟩ := hattempt
    exact ⟨⟨rfl, b₁, hmirrors, hlater.trans hgoal⟩, hlt⟩
  · simp only [hread, Option.some.injEq, Prod.mk.injEq] at hattempt
    obtain ⟨rfl, rfl⟩ := hattempt
    rw [hgoal] at hmirrors ⊢
    exact ⟨⟨rfl, rfl, hmirrors⟩, hle⟩

/-- The attempts of a read that works on the reader alone come to what the read comes to, if each
attempt does. -/
theorem driveReader_cases {α : Type}
    {attempt : Reader (Recorded Script) → Poll α × Reader (Recorded Script)}
    {read : Reader (Recorded Script) → α × Reader (Recorded Script)}
    (hcases : ∀ a b : Reader (Recorded Script), a.Mirrors b →
      (∃ a' b', attempt a = (.pending, a') ∧ a'.Mirrors b' ∧ read b' = read b ∧
        a'.delays < a.delays) ∨
      (∃ a', attempt a = (.ready (read b).1, a') ∧ a'.Mirrors (read b).2 ∧ a'.delays ≤ a.delays))
    (h : a.Mirrors b) {a' : Reader (Recorded Script)} {p : Poll α}
    (hdrive : driveReader attempt attempts a = some (p, made, a')) :
    p.Settled attempts a.delays fun result =>
      (result = (read b).1 ∧ a'.Mirrors (read b).2) ∧ a'.delays ≤ a.delays := by
  refine Poll.drive_cases (fun s => ∃ b', s.Mirrors b' ∧ read b' = read b) Reader.delays
    (fun result s => result = (read b).1 ∧ s.Mirrors (read b).2) ?_ ⟨b, h, rfl⟩ hdrive
  rintro a p s' ⟨b', h, hgoal⟩ hattempt
  rcases hcases a b' h with ⟨a', b₁, hread, hmirrors, hlater, hlt⟩ | ⟨a', hread, hmirrors, hle⟩
  · simp only [hread, Option.some.injEq, Prod.mk.injEq] at hattempt
    obtain ⟨rfl, rfl⟩ := hattempt
    exact ⟨⟨b₁, hmirrors, hlater.trans hgoal⟩, hlt⟩
  · simp only [hread, Option.some.injEq, Prod.mk.injEq] at hattempt
    obtain ⟨rfl, rfl⟩ := hattempt
    rw [hgoal] at hmirrors ⊢
    exact ⟨⟨rfl, hmirrors⟩, hle⟩

/-- The attempts of a read that fills a buffer come to what the read comes to. -/
theorem driveExact_cases (h : a.Mirrors b) {buffer done rest : Bytes}
    {a' : Reader (Recorded Script)} {p : Poll (Except (Stop ReadError) Unit)}
    (hdrive : driveExact attempts a buffer = some (p, made, (done, rest), a')) :
    p.Settled attempts a.delays fun result =>
      (result = (b.readExact buffer).result ∧ (b.readExact buffer).buffer = done ++ rest ∧
        a'.Mirrors (b.readExact buffer).reader) ∧ a'.delays ≤ a.delays := by
  refine Poll.drive_cases
    (fun s => ∃ b', s.2.Mirrors b' ∧ b'.readExactFrom s.1.1 s.1.2 = b.readExact buffer)
    (fun s => s.2.delays)
    (fun result s => result = (b.readExact buffer).result ∧
      (b.readExact buffer).buffer = s.1.1 ++ s.1.2 ∧ s.2.Mirrors (b.readExact buffer).reader)
    ?_ ⟨b, h, rfl⟩ hdrive
  rintro ⟨⟨done, rest⟩, a⟩ p s' ⟨b', h, hgoal⟩ hattempt
  rcases h.exact_cases done rest with ⟨done', rest', a₁, b₁, hexact, hmirrors, hlater, hlt⟩ |
    ⟨done', rest', a₁, hexact, hbuffer, hmirrors, hle⟩
  · simp only [hexact, Option.some.injEq, Prod.mk.injEq] at hattempt
    obtain ⟨rfl, rfl⟩ := hattempt
    exact ⟨⟨b₁, hmirrors, hlater.trans hgoal⟩, hlt⟩
  · simp only [hexact, Option.some.injEq, Prod.mk.injEq] at hattempt
    obtain ⟨rfl, rfl⟩ := hattempt
    rw [hgoal] at hbuffer hmirrors ⊢
    exact ⟨⟨rfl, hbuffer, hmirrors⟩, hle⟩

/-- The attempts of a delimiter read come to what the read comes to. -/
theorem driveLine_cases (h : a.Mirrors b) {rounds : Nat} {delim : UInt8} {out out' : Bytes}
    {scan : Scan} {a' : Reader (Recorded Script)} {p : Poll (Except ReadError Bool)}
    (hdrive : driveLine rounds attempts a delim out = some (p, made, (scan, out'), a')) :
    p.Settled attempts a.delays fun result =>
      (∃ n b', a'.Mirrors b' ∧ Reader.lineWithin n (.start delim b.config.lineLimit) b out =
        some ⟨result, out', b'⟩) ∧ a'.delays ≤ a.delays := by
  rw [driveLine, h.config] at hdrive
  refine Poll.drive_cases
    (fun s => ∃ b', s.2.Mirrors b' ∧ ∀ n call, Reader.lineWithin n s.1.1 b' s.1.2 = some call →
      ∃ n', Reader.lineWithin n' (.start delim b.config.lineLimit) b out = some call)
    (fun s => s.2.delays)
    (fun result s => ∃ n b', s.2.Mirrors b' ∧
      Reader.lineWithin n (.start delim b.config.lineLimit) b out = some ⟨result, s.1.2, b'⟩)
    ?_ ⟨b, h, fun n call hcall => ⟨n, hcall⟩⟩ hdrive
  rintro ⟨⟨scan, out⟩, a⟩ p s' ⟨b', h, hlater⟩ hattempt
  obtain ⟨attempt, hpoll, heq⟩ := Option.map_eq_some_iff.1 hattempt
  obtain ⟨rfl, rfl⟩ := Prod.mk.inj heq
  obtain ⟨-, hcases⟩ := h.line_cases hpoll
  cases hr : attempt.result with
  | pending =>
    rw [hr] at hcases
    obtain ⟨hlt, b₁, hmirrors, hafter⟩ := hcases
    refine ⟨⟨b₁, hmirrors, fun n call hcall => ?_⟩, hlt⟩
    obtain ⟨n', hn'⟩ := hafter n call hcall
    exact hlater n' call hn'
  | ready result =>
    rw [hr] at hcases
    obtain ⟨hle, n, b₁, hmirrors, hline⟩ := hcases
    obtain ⟨n', hn'⟩ := hlater n _ hline
    exact ⟨⟨n', b₁, hmirrors, hn'⟩, hle⟩

end PolledSession

/-! ### Streams of lines -/

namespace Reader

/-- An attempt at a delimiter read keeps the configuration. -/
theorem config_pollLineWithin {σ : Type} [PolledSource σ] {rounds : Nat} {r : Reader σ}
    {scan : Scan} {out : Bytes} {attempt : LineAttempt σ}
    (h : pollLineWithin rounds r scan out = some attempt) :
    attempt.reader.config = r.config := by
  obtain ⟨ms, taken, hcourse, -⟩ := exists_course_pollLineWithin h
  exact hcourse.config

end Reader

/-- A stream of lines mirrors a splitter: their readers do, and between items the stream is about to
begin a line. -/
structure LineStream.Mirrors (a : LineStream (Recorded Script)) (b : Splitter (Recorded Script)) :
    Prop where
  reader : a.reader.Mirrors b.reader
  delim : a.delim = b.delim
  finished : a.finished = b.finished
  fresh : a.finished = false →
    a.scan = .start a.delim a.reader.config.lineLimit ∧ a.pending = #[]

/-- A splitter has one next item at most, whatever the number of rounds. -/
theorem Splitter.nextWithin_unique {σ : Type} [ByteSource σ] {rounds rounds' : Nat} {s : Splitter σ}
    {outcome outcome' : Option Item × Splitter σ} (h : s.nextWithin rounds = some outcome)
    (h' : s.nextWithin rounds' = some outcome') : outcome = outcome' := by
  unfold nextWithin at h h'
  by_cases hfinished : s.finished = true
  · rw [if_pos hfinished] at h h'
    exact Option.some.inj (h.symm.trans h')
  · rw [if_neg hfinished] at h h'
    obtain ⟨call, hcall, rfl⟩ := Option.map_eq_some_iff.1 h
    obtain ⟨call', hcall', rfl⟩ := Option.map_eq_some_iff.1 h'
    rw [Reader.lineWithin_unique hcall hcall']

/-- The lines of a reader mirror those of the reader that it mirrors. -/
theorem Reader.Mirrors.lines {a b : Reader (Recorded Script)} (h : a.Mirrors b) (delim : UInt8) :
    (a.lines delim).Mirrors (b.split delim) :=
  ⟨h, rfl, rfl, fun _ => ⟨rfl, rfl⟩⟩

/-- The item at the end of a line is the same for both, and so is what comes after it. -/
theorem LineStream.conclude_mirrors {attempt : LineAttempt (Recorded Script)}
    {b : Reader (Recorded Script)} {delim : UInt8} {result : Except ReadError Bool}
    (hmirrors : attempt.reader.Mirrors b) (hresult : attempt.result = .ready result)
    (hreset : attempt.scan.reset = .start delim attempt.reader.config.lineLimit) :
    (conclude delim attempt).1 =
        .ready (Splitter.conclude delim ⟨result, attempt.out, b⟩).1 ∧
      (conclude delim attempt).2.Mirrors (Splitter.conclude delim ⟨result, attempt.out, b⟩).2 := by
  cases result with
  | error e =>
    simp only [conclude, Splitter.conclude, hresult, true_and]
    exact ⟨hmirrors, rfl, rfl, nofun⟩
  | ok complete =>
    cases complete with
    | true =>
      simp only [conclude, Splitter.conclude, hresult, true_and]
      exact ⟨hmirrors, rfl, rfl, fun _ => ⟨hreset, rfl⟩⟩
    | false =>
      simp only [conclude, Splitter.conclude, hresult, true_and]
      exact ⟨hmirrors, rfl, rfl, nofun⟩

namespace PolledSession

/-- The attempts at the next item come to what the splitter yields. -/
theorem driveNext_cases {stream stream' : LineStream (Recorded Script)}
    {splitter : Splitter (Recorded Script)} (h : stream.Mirrors splitter)
    {rounds attempts made : Nat} {p : Poll (Option Item)}
    (hdrive : driveNext rounds attempts stream = some (p, made, stream')) :
    p.Settled attempts stream.reader.delays fun item =>
      (∃ n splitter', splitter.nextWithin n = some (item, splitter') ∧
        stream'.Mirrors splitter') ∧ stream'.reader.delays ≤ stream.reader.delays := by
  by_cases hfinished : stream.finished = true
  · refine Poll.drive_cases (fun s => s = stream) (fun s => s.reader.delays)
      (fun item s => ∃ n splitter', splitter.nextWithin n = some (item, splitter') ∧
        s.Mirrors splitter') ?_ rfl hdrive
    rintro s p s' rfl hattempt
    rw [LineStream.pollNextWithin, if_pos hfinished, Option.some.injEq, Prod.mk.injEq] at hattempt
    obtain ⟨rfl, rfl⟩ := hattempt
    have hnext : splitter.nextWithin 0 = some (none, splitter) := by
      rw [Splitter.nextWithin, if_pos (h.finished ▸ hfinished)]
    exact ⟨⟨0, splitter, hnext, h⟩, Nat.le_refl _⟩
  · have hopen : stream.finished = false := by simpa using hfinished
    obtain ⟨hscan, hpending⟩ := h.fresh hopen
    -- the line under way may have been begun in an earlier attempt
    refine Poll.drive_cases
      (fun s => s.finished = false ∧ s.delim = splitter.delim ∧
        s.scan.reset = .start splitter.delim s.reader.config.lineLimit ∧
        ∃ b, s.reader.Mirrors b ∧ ∀ n call, Reader.lineWithin n s.scan b s.pending = some call →
          ∃ n', Reader.lineWithin n' (.start splitter.delim splitter.reader.config.lineLimit)
            splitter.reader #[] = some call)
      (fun s => s.reader.delays)
      (fun item s => ∃ n splitter', splitter.nextWithin n = some (item, splitter') ∧
        s.Mirrors splitter') ?_ ⟨hopen, h.delim, ?_, splitter.reader, h.reader, ?_⟩ hdrive
    · rintro s p s' ⟨hs, hdelim, hreset, b, hmirrors, hlater⟩ hattempt
      rw [LineStream.pollNextWithin, if_neg (by simp [hs])] at hattempt
      obtain ⟨attempt, hpoll, hconclude⟩ := Option.map_eq_some_iff.1 hattempt
      obtain ⟨hscan', hcases⟩ := hmirrors.line_cases hpoll
      have hconfig := Reader.config_pollLineWithin hpoll
      cases hr : attempt.result with
      | pending =>
        rw [hr] at hcases
        obtain ⟨hlt, b', hmirrors', hafter⟩ := hcases
        simp only [LineStream.conclude, hr, Prod.mk.injEq] at hconclude
        obtain ⟨rfl, rfl⟩ := hconclude
        refine ⟨⟨rfl, hdelim, ?_, b', hmirrors', fun n call hcall => ?_⟩, hlt⟩
        · rw [hscan', hreset, hconfig]
        · obtain ⟨n', hn'⟩ := hafter n call hcall
          exact hlater n' call hn'
      | ready result =>
        rw [hr] at hcases
        obtain ⟨hle, n, b', hmirrors', hline⟩ := hcases
        obtain ⟨n', hn'⟩ := hlater n _ hline
        rw [hdelim] at hconclude
        have hfresh : attempt.scan.reset =
            .start splitter.delim attempt.reader.config.lineLimit := by
          rw [hscan', hreset, hconfig]
        obtain ⟨hitem, hafter⟩ := LineStream.conclude_mirrors hmirrors' hr hfresh
        rw [hconclude] at hitem hafter
        simp only at hitem
        subst hitem
        have hreader := LineStream.reader_conclude splitter.delim attempt
        rw [hconclude] at hreader
        refine ⟨⟨n', _, ?_, hafter⟩, hreader ▸ hle⟩
        rw [Splitter.nextWithin, if_neg (by simp [← h.finished, hopen]), hn']
        rfl
    · rw [hscan, h.delim]
      rfl
    · intro n call hcall
      rw [hscan, hpending, h.delim, h.reader.config] at hcall
      exact ⟨n, hcall⟩

end PolledSession

/-! ### Sessions -/

/-- An operation that a polled session and one that waits carry out alike: it is none of those that
go past the reader, and no loop that callers make of several operations. -/
def Operation.isShared : Operation → Bool
  | readSource _ | fill _ | readUntil _ | collect => false
  | _ => true

/-- Whether an operation was given up. -/
def Reply.isPending : Reply → Bool
  | .pending _ => true
  | _ => false

namespace PolledSession

/-- The number of attempts that the source of a session puts off. -/
def delays (s : PolledSession (Recorded Script)) : Nat := s.source.source.delays

/-- A polled session mirrors one that waits: they hold the like, and what they hold is the same
apart from delays. -/
structure Mirrors (s : PolledSession (Recorded Script)) (t : Session (Recorded Script)) : Prop where
  out : s.out = t.out
  holding : match s.holding, t.holding with
    | .reader a, .reader b => a.Mirrors b
    | .stream a, .splitter b => a.Mirrors b
    | .source a, .source b => a.source.withoutDelays = b.source ∧
      a.history.toList.filter (·.answer.isReady) = b.history.toList
    | _, _ => False

/-- What an operation comes to when so many attempts may be put off: it is given up after no more
attempts than that, or it has the reply of the session that waits and the session behind it mirrors
that one. -/
def Matches (attempts delays : Nat) (performance : Performance (Recorded Script))
    (outcome : Reply × Session (Recorded Script)) : Prop :=
  (performance.reply.isPending = true ∧ attempts ≤ delays) ∨
    (performance.reply.isPending = false ∧ performance.reply = outcome.1 ∧
      performance.session.Mirrors outcome.2 ∧ performance.session.delays ≤ delays)

/-- An operation that takes a loop of attempts matches if the result of the loop does. -/
theorem matches_of_settled {α : Type} {p : Poll α} {Q : α → Prop} {attempts delays made : Nat}
    (h : p.Settled attempts delays Q) {kept : Option Bytes} {reply : α → Reply}
    (hready : ∀ a, (reply a).isPending = false) {s : PolledSession (Recorded Script)}
    {outcome : Reply × Session (Recorded Script)}
    (hq : ∀ a, Q a → reply a = outcome.1 ∧ s.Mirrors outcome.2 ∧ s.delays ≤ delays) :
    Matches attempts delays ⟨settle kept reply p, made, s⟩ outcome := by
  cases p with
  | pending => exact .inl ⟨rfl, h⟩
  | ready a => exact .inr ⟨hready a, hq a h⟩

/-- An operation on a reader matches. -/
theorem matches_onReader {s : PolledSession (Recorded Script)} {t : Session (Recorded Script)}
    (hout : s.out = t.out) {a b : Reader (Recorded Script)} (hs : s.holding = .reader a)
    (ht : t.holding = .reader b) (h : a.Mirrors b) {op : Operation} (hop : op.isShared = true)
    {rounds rounds' attempts : Nat} {performance : Performance (Recorded Script)}
    {outcome : Reply × Session (Recorded Script)}
    (hpolled : s.onReader rounds attempts a op = some performance)
    (hawaited : t.onReader rounds' b op = some outcome) :
    Matches attempts a.delays performance outcome := by
  have hsource : s.delays = a.delays := by rw [delays, source, hs]; rfl
  have hmirrors : s.Mirrors t := ⟨hout, by rw [hs, ht]; exact h⟩
  cases op with
  | read buffer =>
    obtain ⟨⟨p, made, buffer', a'⟩, hdrive, rfl⟩ := Option.map_eq_some_iff.1 hpolled
    obtain rfl := Option.some.inj hawaited
    refine matches_of_settled (driveRead_cases h hdrive) (fun _ => rfl) ?_
    rintro result ⟨⟨rfl, rfl, hreader⟩, hle⟩
    exact ⟨rfl, ⟨hout, hreader⟩, hle⟩
  | readPlain buffer =>
    obtain ⟨⟨p, made, buffer', a'⟩, hdrive, rfl⟩ := Option.map_eq_some_iff.1 hpolled
    obtain rfl := Option.some.inj hawaited
    refine matches_of_settled (driveRead_cases h hdrive) (fun _ => rfl) ?_
    rintro result ⟨⟨rfl, rfl, hreader⟩, hle⟩
    exact ⟨rfl, ⟨hout, hreader⟩, hle⟩
  | readExact buffer =>
    obtain ⟨⟨p, made, ⟨done, rest⟩, a'⟩, hdrive, rfl⟩ := Option.map_eq_some_iff.1 hpolled
    obtain rfl := Option.some.inj hawaited
    refine matches_of_settled (driveExact_cases h hdrive) (fun _ => rfl) ?_
    rintro result ⟨⟨rfl, hbuffer, hreader⟩, hle⟩
    exact ⟨by rw [hbuffer], ⟨hout, hreader⟩, hle⟩
  | readByte =>
    obtain ⟨⟨p, made, a'⟩, hdrive, rfl⟩ := Option.map_eq_some_iff.1 hpolled
    obtain rfl := Option.some.inj hawaited
    refine matches_of_settled
      (driveReader_cases (fun _ _ => Reader.Mirrors.readByte_cases) h hdrive) (fun _ => rfl) ?_
    rintro result ⟨⟨rfl, hreader⟩, hle⟩
    exact ⟨rfl, ⟨hout, hreader⟩, hle⟩
  | fillBuffer =>
    obtain ⟨⟨p, made, a'⟩, hdrive, rfl⟩ := Option.map_eq_some_iff.1 hpolled
    obtain rfl := Option.some.inj hawaited
    refine matches_of_settled
      (driveReader_cases (fun _ _ => Reader.Mirrors.fillBuffer_cases) h hdrive) (fun _ => rfl) ?_
    rintro result ⟨⟨rfl, hreader⟩, hle⟩
    exact ⟨rfl, ⟨hout, hreader⟩, hle⟩
  | readLine delim =>
    obtain ⟨⟨p, made, ⟨scan, out⟩, a'⟩, hdrive, rfl⟩ := Option.map_eq_some_iff.1 hpolled
    obtain ⟨call, hcall, rfl⟩ := Option.map_eq_some_iff.1 hawaited
    refine matches_of_settled (driveLine_cases h hdrive) (fun _ => rfl) ?_
    rintro result ⟨⟨n, b', hreader, hline⟩, hle⟩
    obtain rfl := Reader.lineWithin_unique hline hcall
    exact ⟨rfl, ⟨hout, hreader⟩, hle⟩
  | readLineInto delim =>
    obtain ⟨⟨p, made, ⟨scan, out⟩, a'⟩, hdrive, rfl⟩ := Option.map_eq_some_iff.1 hpolled
    obtain ⟨call, hcall, rfl⟩ := Option.map_eq_some_iff.1 hawaited
    refine matches_of_settled (driveLine_cases h hdrive) (fun _ => rfl) ?_
    rintro result ⟨⟨n, b', hreader, hline⟩, hle⟩
    rw [hout] at hline
    obtain rfl := Reader.lineWithin_unique hline hcall
    exact ⟨rfl, ⟨rfl, hreader⟩, hle⟩
  | consume count =>
    obtain rfl := Option.some.inj hpolled
    obtain rfl := Option.some.inj hawaited
    -- the cursors are at the same place, so that both pass over the bytes or neither does
    rcases s.passOver_cases a count with ⟨hfits, hpassed⟩ | ⟨hfar, hpassed⟩
    · rcases t.passOver_cases b count with ⟨-, hpassed'⟩ | ⟨hfar', -⟩
      · rw [hpassed, hpassed']
        exact .inr ⟨rfl, rfl, ⟨hout, h.skip count⟩, Nat.le_refl _⟩
      · exact absurd (h.cursor ▸ hfits) (Nat.not_lt.2 hfar')
    · rcases t.passOver_cases b count with ⟨hfits', -⟩ | ⟨-, hpassed'⟩
      · exact absurd hfits' (Nat.not_lt.2 (h.cursor ▸ hfar))
      · rw [hpassed, hpassed']
        exact .inr ⟨rfl, rfl, hmirrors, Nat.le_of_eq hsource⟩
  | unread =>
    obtain rfl := Option.some.inj hpolled
    obtain rfl := Option.some.inj hawaited
    have hunread : a.unread = b.unread := Array.toList_inj.1 h.unread
    exact .inr ⟨rfl, congrArg Reply.bytes hunread, hmirrors, Nat.le_of_eq hsource⟩
  | split delim =>
    obtain rfl := Option.some.inj hpolled
    obtain rfl := Option.some.inj hawaited
    exact .inr ⟨rfl, rfl, ⟨hout, h.lines delim⟩, Nat.le_refl _⟩
  | release =>
    obtain rfl := Option.some.inj hpolled
    obtain rfl := Option.some.inj hawaited
    exact .inr ⟨rfl, rfl, ⟨hout, h.script, h.history⟩, Nat.le_refl _⟩
  | readSource _ | fill _ | readUntil _ | collect => exact absurd hop Bool.false_ne_true
  | describe | wrap _ | next | delimiter | reclaim | takeOut =>
    obtain rfl := Option.some.inj hpolled
    obtain rfl := Option.some.inj hawaited
    exact .inr ⟨rfl, rfl, hmirrors, Nat.le_of_eq hsource⟩

/-- An operation on the lines of a reader matches. -/
theorem matches_onStream {s : PolledSession (Recorded Script)} {t : Session (Recorded Script)}
    (hout : s.out = t.out) {a : LineStream (Recorded Script)} {b : Splitter (Recorded Script)}
    (hs : s.holding = .stream a) (ht : t.holding = .splitter b) (h : a.Mirrors b) {op : Operation}
    (hop : op.isShared = true) {rounds rounds' attempts : Nat}
    {performance : Performance (Recorded Script)} {outcome : Reply × Session (Recorded Script)}
    (hpolled : s.onStream rounds attempts a op = some performance)
    (hawaited : t.onSplitter rounds' b op = some outcome) :
    Matches attempts a.reader.delays performance outcome := by
  have hsource : s.delays = a.reader.delays := by rw [delays, source, hs]; rfl
  have hmirrors : s.Mirrors t := ⟨hout, by rw [hs, ht]; exact h⟩
  cases op with
  | next =>
    obtain ⟨⟨p, made, a'⟩, hdrive, rfl⟩ := Option.map_eq_some_iff.1 hpolled
    obtain ⟨⟨item, b'⟩, hnext, rfl⟩ := Option.map_eq_some_iff.1 hawaited
    refine matches_of_settled (driveNext_cases h hdrive) (fun _ => rfl) ?_
    rintro item' ⟨⟨n, b'', hnext', hstream⟩, hle⟩
    obtain ⟨rfl, rfl⟩ := Prod.mk.inj (Splitter.nextWithin_unique hnext' hnext)
    exact ⟨rfl, ⟨hout, hstream⟩, hle⟩
  | delimiter =>
    obtain rfl := Option.some.inj hpolled
    obtain rfl := Option.some.inj hawaited
    exact .inr ⟨rfl, congrArg Reply.delimiter h.delim, hmirrors, Nat.le_of_eq hsource⟩
  | reclaim =>
    obtain rfl := Option.some.inj hpolled
    obtain rfl := Option.some.inj hawaited
    exact .inr ⟨rfl, rfl, ⟨hout, h.reader⟩, Nat.le_refl _⟩
  | readSource _ | fill _ | readUntil _ | collect => exact absurd hop Bool.false_ne_true
  | read _ | readPlain _ | readExact _ | readByte | readLine _ | readLineInto _ | fillBuffer
  | consume _ | unread | describe | split _ | release | wrap _ | takeOut =>
    obtain rfl := Option.some.inj hpolled
    obtain rfl := Option.some.inj hawaited
    exact .inr ⟨rfl, rfl, hmirrors, Nat.le_of_eq hsource⟩

/-- A start makes the like of a script and of the script without its delays, or refuses both. -/
theorem start_cases (source source' : Recorded Script)
    (hscript : source.source.withoutDelays = source'.source)
    (hhistory : source.history.toList.filter (·.answer.isReady) = source'.history.toList)
    (start : Start) :
    (∃ e, start? source start = .error e ∧ Session.start? source' start = .error e) ∨
    ∃ s t, start? source start = .ok s ∧ Session.start? source' start = .ok t ∧
      s.Mirrors t ∧ s.out = #[] ∧ s.delays = source.source.delays := by
  have hbuild := Reader.Mirrors.build hscript hhistory
  rcases start.reader?_cases (Recorded Script) with ⟨stop, hstop⟩ | ⟨config, -, hmade⟩
  · simp only [start?, Session.start?, hstop]
    exact .inl ⟨stop, rfl, rfl⟩
  · simp only [start?, Session.start?, hmade]
    cases start with
    | lines delim => exact .inr ⟨_, _, rfl, rfl, ⟨rfl, (hbuild config).lines delim⟩, rfl, rfl⟩
    | _ => exact .inr ⟨_, _, rfl, rfl, ⟨rfl, hbuild config⟩, rfl, rfl⟩

/-- An operation on a bare source matches. -/
theorem matches_onSource {s : PolledSession (Recorded Script)} {t : Session (Recorded Script)}
    (h : s.Mirrors t) {a b : Recorded Script} (hs : s.holding = .source a)
    (hscript : a.source.withoutDelays = b.source)
    (hhistory : a.history.toList.filter (·.answer.isReady) = b.history.toList) (op : Operation)
    (attempts : Nat) :
    Matches attempts a.source.delays (s.onSource a op) (t.onSource b op) := by
  have hsource : s.delays = a.source.delays := by rw [delays, source, hs]
  cases op with
  | wrap start =>
    rcases start_cases a b hscript hhistory start with ⟨e, hpolled, hawaited⟩ |
      ⟨fresh, fresh', hpolled, hawaited, hmirrors, -, hdelays⟩
    · simp only [onSource, Session.onSource, hpolled, hawaited]
      exact .inr ⟨rfl, rfl, h, Nat.le_of_eq hsource⟩
    · simp only [onSource, Session.onSource, hpolled, hawaited]
      exact .inr ⟨rfl, rfl, ⟨h.out, hmirrors.holding⟩, Nat.le_of_eq hdelays⟩
  | _ => exact .inr ⟨rfl, rfl, h, Nat.le_of_eq hsource⟩

/-- An operation matches. -/
theorem perform_matches {s : PolledSession (Recorded Script)} {t : Session (Recorded Script)}
    (h : s.Mirrors t) {op : Operation} (hop : op.isShared = true) (attempts : Nat) :
    Matches attempts s.delays (s.perform attempts op) (t.perform op) := by
  have hpolled : s.performWithin s.rounds attempts op = some (s.perform attempts op) :=
    (Option.some_get _).symm
  have hawaited : t.performWithin t.rounds op = some (t.perform op) := (Option.some_get _).symm
  unfold performWithin at hpolled
  unfold Session.performWithin at hawaited
  by_cases htake : op = .takeOut
  · rw [if_pos htake, Option.some.injEq] at hpolled hawaited
    rw [← hpolled, ← hawaited]
    exact .inr ⟨rfl, congrArg Reply.bytes h.out, ⟨rfl, h.holding⟩, Nat.le_refl _⟩
  · rw [if_neg htake] at hpolled hawaited
    have hholding := h.holding
    cases hs : s.holding with
    | reader a =>
      cases ht : t.holding with
      | reader b =>
        rw [hs, ht] at hholding
        rw [hs] at hpolled
        rw [ht] at hawaited
        have hmatch := matches_onReader h.out hs ht hholding hop hpolled hawaited
        rwa [show s.delays = a.delays by rw [delays, source, hs]; rfl]
      | splitter b => simp [hs, ht] at hholding
      | source b => simp [hs, ht] at hholding
    | stream a =>
      cases ht : t.holding with
      | reader b => simp [hs, ht] at hholding
      | splitter b =>
        rw [hs, ht] at hholding
        rw [hs] at hpolled
        rw [ht] at hawaited
        have hmatch := matches_onStream h.out hs ht hholding hop hpolled hawaited
        rwa [show s.delays = a.reader.delays by rw [delays, source, hs]; rfl]
      | source b => simp [hs, ht] at hholding
    | source a =>
      cases ht : t.holding with
      | reader b => simp [hs, ht] at hholding
      | splitter b => simp [hs, ht] at hholding
      | source b =>
        rw [hs, ht] at hholding
        rw [hs, Option.some.injEq] at hpolled
        rw [ht, Option.some.injEq] at hawaited
        rw [← hpolled, ← hawaited, show s.delays = a.source.delays by rw [delays, source, hs]]
        exact matches_onSource h hs hholding.1 hholding.2 op attempts

/-- No operation is given up that may be attempted more often than the source puts off. -/
theorem isPending_of_performAll {s : PolledSession (Recorded Script)}
    {t : Session (Recorded Script)} (h : s.Mirrors t) {ops : List (Operation × Nat)}
    (hops : ∀ p ∈ ops, p.1.isShared = true) {delays : Nat} (hdelays : s.delays ≤ delays)
    (hattempts : ∀ p ∈ ops, delays < p.2) :
    ∀ reply ∈ (s.performAll ops).1, reply.isPending = false := by
  induction ops generalizing s t with
  | nil => simp [performAll]
  | cons p ops ih =>
    obtain ⟨op, attempts⟩ := p
    have hlt : delays < attempts := hattempts _ List.mem_cons_self
    have hmatch := perform_matches h (hops _ List.mem_cons_self) attempts
    rcases hmatch with ⟨-, hle⟩ | ⟨hready, -, hmirrors, hle⟩
    · omega
    · have hlater := ih hmirrors (fun p hp => hops p (List.mem_cons_of_mem _ hp)) (by omega)
        fun p hp => hattempts p (List.mem_cons_of_mem _ hp)
      intro reply hreply
      rcases List.mem_cons.1 hreply with rfl | hreply
      · exact hready
      · exact hlater reply hreply

/-- Operations carried out in turn, none of which is given up, come to what those of the session
that waits come to. -/
theorem performAll_mirrors {s : PolledSession (Recorded Script)} {t : Session (Recorded Script)}
    (h : s.Mirrors t) {ops : List (Operation × Nat)} (hops : ∀ p ∈ ops, p.1.isShared = true)
    (hready : ∀ reply ∈ (s.performAll ops).1, reply.isPending = false) :
    (s.performAll ops).1 = (t.performAll (ops.map Prod.fst)).1 ∧
      (s.performAll ops).2.Mirrors (t.performAll (ops.map Prod.fst)).2 := by
  induction ops generalizing s t with
  | nil => exact ⟨rfl, h⟩
  | cons p ops ih =>
    obtain ⟨op, attempts⟩ := p
    have hfirst : (s.perform attempts op).reply.isPending = false := hready _ List.mem_cons_self
    have hmatch := perform_matches h (hops _ List.mem_cons_self) attempts
    rcases hmatch with ⟨hpending, -⟩ | ⟨-, hreply, hmirrors, -⟩
    · rw [hfirst] at hpending
      simp at hpending
    · obtain ⟨hreplies, hafter⟩ := ih hmirrors (fun p hp => hops p (List.mem_cons_of_mem _ hp))
        fun reply hreply => hready reply (List.mem_cons_of_mem _ hreply)
      refine ⟨?_, hafter⟩
      simp only [List.map_cons, performAll, Session.performAll, hreply, hreplies]

/-- A polled session over a script, started in any way, is a session that waits for the script
without its delays, with suspensions. If no operation is given up then the replies are the same, and
behind them the unread bytes, the steps left, and history and journal are the same but for delays
and the contacts that were put off; and no operation is given up that may be attempted more often
than the script puts off. -/
theorem performAll_eq_of_awaited (script : Script) (start : Start) :
    (∃ e, start? (⟨script, #[]⟩ : Recorded Script) start = .error e ∧
      Session.start? (⟨script.withoutDelays, #[]⟩ : Recorded Script) start = .error e) ∨
    ∃ s t, start? ⟨script, #[]⟩ start = .ok s ∧
      Session.start? ⟨script.withoutDelays, #[]⟩ start = .ok t ∧
      ∀ ops : List (Operation × Nat), (∀ p ∈ ops, p.1.isShared = true) →
        ((∀ reply ∈ (s.performAll ops).1, reply.isPending = false) →
          (s.performAll ops).1 = (t.performAll (ops.map Prod.fst)).1 ∧
            (s.performAll ops).2.Mirrors (t.performAll (ops.map Prod.fst)).2) ∧
        ((∀ p ∈ ops, script.delays < p.2) →
          ∀ reply ∈ (s.performAll ops).1, reply.isPending = false) := by
  rcases start_cases ⟨script, #[]⟩ ⟨script.withoutDelays, #[]⟩ rfl rfl start with hrefused |
    ⟨s, t, hs, ht, hmirrors, -, hdelays⟩
  · exact .inl hrefused
  · refine .inr ⟨s, t, hs, ht, fun ops hops => ⟨performAll_mirrors hmirrors hops, ?_⟩⟩
    exact isPending_of_performAll hmirrors hops (Nat.le_of_eq hdelays)

/-- A line that comes in two pieces with a delay in between, two bytes behind another delay, and a
failure. -/
def delayedLine : Script :=
  [.data #[1], .delay 2, .data #[2, 10], .delay 1, .data #[3, 4], .fail .bufferNotFilled]

/-- A line, a buffer past the window and a byte are read as if there were no delays: the replies are
the same. Three contacts are put off, and of one of them there is a record: it was to go past the
window. -/
theorem performAll_delayedLine :
    ∃ s t, start? (⟨delayedLine, #[]⟩ : Recorded Script) (.ofCapacity 4) = .ok s ∧
      Session.start? (⟨delayedLine.withoutDelays, #[]⟩ : Recorded Script) (.ofCapacity 4) = .ok t ∧
      let polled := s.performAll [(.readLine newline, 4), (.read #[0, 0, 0, 0], 4), (.readByte, 4)]
      let awaited := t.performAll [.readLine newline, .read #[0, 0, 0, 0], .readByte]
      polled.1 = [.line (.ok ⟨#[1, 2, 10], true⟩), .count (.ok 2) #[3, 4, 0, 0],
        .byte (.error (.source .bufferNotFilled))] ∧
      awaited.1 = polled.1 ∧ polled.2.Mirrors awaited.2 ∧
      polled.2.source.history = #[⟨4, .ready (.honest #[1])⟩, ⟨4, .pending⟩, ⟨4, .pending⟩,
        ⟨4, .ready (.honest #[2, 10])⟩, ⟨4, .pending⟩, ⟨4, .ready (.honest #[3, 4])⟩,
        ⟨4, .ready (.failed .bufferNotFilled)⟩] ∧
      awaited.2.source.history = #[⟨4, .ready (.honest #[1])⟩, ⟨4, .ready (.honest #[2, 10])⟩,
        ⟨4, .ready (.honest #[3, 4])⟩, ⟨4, .ready (.failed .bufferNotFilled)⟩] ∧
      polled.2.journal = #[.refill 4 1, .refill 4 2, .bypass 4, .bypass 4,
        .sourceFailed .bufferNotFilled] ∧
      awaited.2.journal = #[.refill 4 1, .refill 4 2, .bypass 4,
        .sourceFailed .bufferNotFilled] := by
  have hpolled := start?_ofCapacity (⟨delayedLine, #[]⟩ : Recorded Script) 4 (by decide)
  have hawaited := Session.start?_ofCapacity (⟨delayedLine.withoutDelays, #[]⟩ : Recorded Script) 4
    (by decide)
  rcases performAll_eq_of_awaited delayedLine (.ofCapacity 4) with ⟨e, he, -⟩ | ⟨s, t, hs, ht, hall⟩
  · cases hpolled.symm.trans he
  · obtain rfl := Except.ok.inj (hpolled.symm.trans hs)
    obtain rfl := Except.ok.inj (hawaited.symm.trans ht)
    obtain ⟨hequal, hready⟩ := hall
      [(.readLine newline, 4), (.read #[0, 0, 0, 0], 4), (.readByte, 4)] (by decide)
    obtain ⟨hreplies, hmirrors⟩ := hequal (hready (by decide))
    refine ⟨_, _, hs, ht, hreplies.trans rfl, hreplies.symm, hmirrors, by decide +kernel,
      by decide +kernel, by decide +kernel, by decide +kernel⟩

end PolledSession

end BufferedReading
