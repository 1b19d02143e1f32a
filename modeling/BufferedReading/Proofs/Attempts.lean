import BufferedReading.Proofs.Courses
import BufferedReading.Session.Polled

/-!
# The course of an operation that is attempted again

An operation of a polled session is attempted until it comes to its end or is given up. The courses
of the attempts make up one course of the operation, whether it was given up or not: see
`PolledSession.exists_course_driveRead`, `PolledSession.exists_course_driveReader`,
`PolledSession.exists_course_driveExact`, `PolledSession.exists_course_driveLine` and
`PolledSession.exists_course_driveNext`. An attempt that comes to its end is the only one.
-/

namespace BufferedReading

namespace Reader

variable {σ : Type} [PolledSource σ]

/-- Moves turn to the source as a read may: not at all while bytes are unread or if the buffer has
no room, and otherwise in each attempt until the source answers. -/
structure AsksOnce (r : Reader σ) (buffer : Bytes) (attempts : Nat) (ms : List Move) : Prop where
  idle : buffer.size = 0 ∨ r.window.toList ≠ [] → r.exchanges ms = []
  answered : ((r.exchanges ms).filter (·.answer.isReady)).length ≤ 1
  attempted : (r.exchanges ms).length ≤ attempts

/-- In a single attempt it is enough that the source is asked once at most. -/
theorem AsksOnce.of_length_le {r : Reader σ} {buffer : Bytes} {ms : List Move}
    (hidle : buffer.size = 0 ∨ r.window.toList ≠ [] → r.exchanges ms = [])
    (hlength : (r.exchanges ms).length ≤ 1) : r.AsksOnce buffer 1 ms :=
  ⟨hidle, Nat.le_trans (List.length_filter_le _ _) hlength, hlength⟩

end Reader

/-- The reader behind an attempt at a line is the one that the attempt left. -/
theorem LineStream.reader_conclude {σ : Type} (delim : UInt8) (attempt : LineAttempt σ) :
    (conclude delim attempt).2.reader = attempt.reader := by
  unfold conclude
  simp only
  split <;> rfl

/-- What is concluded from an attempt that is put off keeps the search and the bytes taken. -/
theorem LineStream.conclude_of_pending {σ : Type} {delim : UInt8} {attempt : LineAttempt σ}
    {s : LineStream σ} (h : conclude delim attempt = (.pending, s)) :
    attempt.result = .pending ∧
      s = { reader := attempt.reader, delim, scan := attempt.scan, pending := attempt.out } := by
  unfold conclude at h
  simp only at h
  split at h
  · next hresult => exact ⟨hresult, (Prod.mk.inj h).2.symm⟩
  all_goals exact absurd (Prod.mk.inj h).1 (Poll.ready_ne_pending _)

namespace PolledSession

variable {σ : Type} [PolledSource σ] {r r' : Reader σ} {attempts made : Nat}

/-- The course of a read. -/
theorem exists_course_driveRead {buffer buffer' : Bytes} {p : Poll (Except ReadError Nat)}
    (h : driveBuffer Reader.pollRead attempts r buffer = some (p, made, buffer', r')) :
    ∃ ms, r.Course (some buffer.size) ms (Call.handed ⟨p, buffer', r'⟩) r' ∧
      r.AsksOnce buffer made ms := by
  -- as long as the read is put off it has asked in vain, and not at all where it need not ask
  have hdrive := Poll.drive_induction
    (fun n s => s.1 = buffer ∧ ∃ ms, r.Course (some buffer.size) ms [] s.2 ∧
      (buffer.size = 0 ∨ r.window.toList ≠ [] → ms = []) ∧ (r.exchanges ms).length ≤ n ∧
      (r.exchanges ms).filter (·.answer.isReady) = [])
    (fun n result s => ∃ ms, r.Course (some buffer.size) ms
      (Call.handed ⟨.ready result, s.1, s.2⟩) s.2 ∧ r.AsksOnce buffer n ms)
    ?_ ⟨rfl, [], .refl r _, fun _ => rfl, Nat.le_refl _, rfl⟩ h
  · cases p with
    | pending =>
      obtain ⟨-, -, ms, hcourse, hidle, hlength, hvain⟩ := hdrive
      refine ⟨ms, hcourse, fun h => ?_, ?_, hlength⟩
      · rw [hidle h, Reader.exchanges_nil]
      · rw [hvain]
        exact Nat.zero_le _
    | ready result => exact hdrive.2
  · rintro n ⟨held, a⟩ p s' ⟨rfl, ms, hcourse, hidle, hlength, hvain⟩ hattempt
    obtain ⟨rfl, rfl⟩ := Prod.mk.inj (Option.some.inj hattempt)
    have hcourse : r.Course (some held.size) ms [] a := hcourse
    obtain ⟨ms', hcourse', hlength', hidle', hputOff, -⟩ := Reader.exists_course_pollRead a held
    have hwhole : r.Course (some held.size) (ms ++ ms') (a.pollRead held).handed
        (a.pollRead held).reader := hcourse.trans hcourse'
    have hexchanges : r.exchanges (ms ++ ms') = r.exchanges ms ++ a.exchanges ms' := by
      rw [Reader.exchanges_append, hcourse.follow_eq]
    have hasked : (r.exchanges (ms ++ ms')).length ≤ n + 1 := by
      rw [hexchanges, List.length_append]
      omega
    -- a read that need not ask has not moved, and so need not ask now
    have hidle'' : held.size = 0 ∨ r.window.toList ≠ [] → ms = [] ∧ a.exchanges ms' = [] := by
      intro h
      have hms := hidle h
      have hsame : r = a := by rw [← hcourse.follow_eq, hms, Reader.follow_nil]
      exact ⟨hms, hidle' (hsame ▸ h)⟩
    cases hresult : (a.pollRead held).result with
    | pending =>
      obtain ⟨hbuffer, -, -, -, asked, -, hasks⟩ := hputOff hresult
      have hnone : (a.pollRead held).handed = [] := by rw [Call.handed, hresult]
      rw [hnone] at hwhole
      refine ⟨hbuffer, ms ++ ms', hwhole, fun h => ?_, hasked, ?_⟩
      · rw [(hidle'' h).2] at hasks
        exact absurd hasks (List.cons_ne_nil _ _).symm
      · rw [hexchanges, List.filter_append, hvain, hasks]
        rfl
    | ready result =>
      have hhanded : (a.pollRead held).handed =
          Call.handed ⟨.ready result, (a.pollRead held).buffer, (a.pollRead held).reader⟩ := by
        rw [← hresult]
      refine ⟨ms ++ ms', hhanded ▸ hwhole, fun h => ?_, ?_, hasked⟩
      · rw [hexchanges, (hidle'' h).2, (hidle'' h).1]
        rfl
      · rw [hexchanges, List.filter_append, hvain, List.nil_append]
        exact Nat.le_trans (List.length_filter_le _ _) hlength'

/-- Attempts make up a course if each of them does. -/
theorem exists_course_drive {ς α : Type} {attempt : ς → Option (Poll α × ς)} (reader : ς → Reader σ)
    (hstep : ∀ s p s', attempt s = some (p, s') →
      ∃ ms taken, (reader s).Course none ms taken (reader s'))
    {s s' : ς} {p : Poll α} (h : Poll.drive attempt attempts 0 s = some (p, made, s')) :
    ∃ ms taken, (reader s).Course none ms taken (reader s') := by
  have hdrive := Poll.drive_induction
    (fun _ s' => ∃ ms taken, (reader s).Course none ms taken (reader s'))
    (fun _ _ s' => ∃ ms taken, (reader s).Course none ms taken (reader s'))
    ?_ ⟨[], [], .refl _ none⟩ h
  · cases p with
    | pending => exact hdrive.2
    | ready result => exact hdrive.2
  · rintro n t p t' ⟨ms, taken, hcourse⟩ hattempt
    obtain ⟨ms', taken', hcourse'⟩ := hstep t p t' hattempt
    have hwhole := hcourse.trans_none hcourse'
    cases p with
    | pending => exact ⟨_, _, hwhole⟩
    | ready result => exact ⟨_, _, hwhole⟩

/-- The course of a read that works on the reader alone. -/
theorem exists_course_driveReader {α : Type} {attempt : Reader σ → Poll α × Reader σ}
    (hattempt : ∀ a : Reader σ, ∃ ms taken, a.Course none ms taken (attempt a).2) {p : Poll α}
    (h : driveReader attempt attempts r = some (p, made, r')) :
    ∃ ms taken, r.Course none ms taken r' := by
  refine exists_course_drive id ?_ h
  intro a p a' hsome
  obtain ⟨ms, taken, hcourse⟩ := hattempt a
  rw [Option.some.inj hsome] at hcourse
  exact ⟨ms, taken, hcourse⟩

/-- The course of a read that fills a buffer. The bytes taken stand at its start. -/
theorem exists_course_driveExact {buffer done rest : Bytes}
    {p : Poll (Except (Stop ReadError) Unit)}
    (h : driveExact attempts r buffer = some (p, made, (done, rest), r')) :
    ∃ ms, r.Course (some buffer.size) ms done.toList r' ∧
      done.size + rest.size = buffer.size := by
  have hdrive := Poll.drive_induction
    (fun _ s => ∃ ms, r.Course (some buffer.size) ms s.1.1.toList s.2 ∧
      s.1.1.size + s.1.2.size = buffer.size)
    (fun _ _ s => ∃ ms, r.Course (some buffer.size) ms s.1.1.toList s.2 ∧
      s.1.1.size + s.1.2.size = buffer.size)
    ?_ ⟨[], .refl r _, Nat.zero_add _⟩ h
  · cases p with
    | pending => exact hdrive.2
    | ready result => exact hdrive.2
  · rintro n ⟨⟨done, rest⟩, a⟩ p s' ⟨ms, hcourse, hsize⟩ hattempt
    obtain ⟨rfl, rfl⟩ := Prod.mk.inj (Option.some.inj hattempt)
    have hsize : done.size + rest.size = buffer.size := hsize
    obtain ⟨ms', taken, hcourse', hdone, hlength, -⟩ := a.exists_course_pollExact done rest
    have hroom : (some buffer.size).map (· - done.toList.length) = some rest.size := by
      rw [Option.map_some, Array.length_toList]
      exact congrArg some (by omega)
    have hwhole := hcourse.trans (hroom ▸ hcourse')
    rw [← hdone] at hwhole
    have hsize' : (a.pollExact done rest).done.size + (a.pollExact done rest).rest.size =
        buffer.size := by
      have hadded := congrArg List.length hdone
      rw [List.length_append, Array.length_toList, Array.length_toList] at hadded
      omega
    cases (a.pollExact done rest).result with
    | pending => exact ⟨_, hwhole, hsize'⟩
    | ready result => exact ⟨_, hwhole, hsize'⟩

/-- The course of a delimiter read. The bytes taken are those appended. -/
theorem exists_course_driveLine {rounds : Nat} {delim : UInt8} {scan : Scan} {out out' : Bytes}
    {p : Poll (Except ReadError Bool)}
    (h : driveLine rounds attempts r delim out = some (p, made, (scan, out'), r')) :
    ∃ ms taken, r.Course none ms taken r' ∧ out'.toList = out.toList ++ taken := by
  have hdrive := Poll.drive_induction
    (fun _ s => ∃ ms taken, r.Course none ms taken s.2 ∧ s.1.2.toList = out.toList ++ taken)
    (fun _ _ s => ∃ ms taken, r.Course none ms taken s.2 ∧ s.1.2.toList = out.toList ++ taken)
    ?_ ⟨[], [], .refl r _, (List.append_nil _).symm⟩ h
  · cases p with
    | pending => exact hdrive.2
    | ready result => exact hdrive.2
  · rintro n ⟨⟨scan, held⟩, a⟩ p s' ⟨ms, taken, hcourse, hout⟩ hattempt
    obtain ⟨attempt, hpoll, heq⟩ := Option.map_eq_some_iff.1 hattempt
    obtain ⟨rfl, rfl⟩ := Prod.mk.inj heq
    obtain ⟨ms', taken', hcourse', hout', -⟩ := Reader.exists_course_pollLineWithin hpoll
    have hwhole := hcourse.trans_none hcourse'
    have hout'' : attempt.out.toList = out.toList ++ (taken ++ taken') := by
      rw [hout', hout, List.append_assoc]
    cases attempt.result with
    | pending => exact ⟨_, _, hwhole, hout''⟩
    | ready result => exact ⟨_, _, hwhole, hout''⟩

/-- The course of the attempts at the next line. -/
theorem exists_course_driveNext {rounds : Nat} {stream stream' : LineStream σ}
    {p : Poll (Option Item)}
    (h : driveNext rounds attempts stream = some (p, made, stream')) :
    ∃ ms taken, stream.reader.Course none ms taken stream'.reader := by
  refine exists_course_drive LineStream.reader ?_ h
  intro s p s' hattempt
  unfold LineStream.pollNextWithin at hattempt
  split at hattempt
  · obtain ⟨-, rfl⟩ := Prod.mk.inj (Option.some.inj hattempt)
    exact ⟨[], [], .refl _ none⟩
  · obtain ⟨attempt, hpoll, hconclude⟩ := Option.map_eq_some_iff.1 hattempt
    obtain ⟨ms, taken, hcourse, -⟩ := Reader.exists_course_pollLineWithin hpoll
    have hreader := LineStream.reader_conclude s.delim attempt
    rw [hconclude] at hreader
    rw [← hreader] at hcourse
    exact ⟨ms, taken, hcourse⟩

end PolledSession

/-! ### One attempt is enough -/

/-- An attempt that comes to its end is the only one. -/
theorem Poll.drive_of_ready {ς α : Type} {attempt : ς → Option (Poll α × ς)} {s s' : ς} {a : α}
    (h : attempt s = some (.ready a, s')) (attempts : Nat) :
    Poll.drive attempt (attempts + 1) 0 s = some (.ready a, 1, s') := by
  rw [Poll.drive, h]

/-- One attempt that is allowed is made. -/
theorem Poll.drive_one {ς α : Type} (attempt : ς → Option (Poll α × ς)) (s : ς) :
    Poll.drive attempt 1 0 s = (attempt s).map fun p => (p.1, 1, p.2) := by
  rw [Poll.drive]
  cases attempt s with
  | none => rfl
  | some outcome =>
    obtain ⟨p, s'⟩ := outcome
    cases p with
    | pending => rfl
    | ready a => rfl

namespace PolledSession

variable {σ : Type} {r r' : Reader σ}

theorem driveBuffer_of_ready {α : Type} {attempt : Reader σ → Bytes → Call (Reader σ) (Poll α)}
    {buffer buffer' : Bytes} {a : α} (h : attempt r buffer = ⟨.ready a, buffer', r'⟩)
    (attempts : Nat) :
    driveBuffer attempt (attempts + 1) r buffer = some (.ready a, 1, buffer', r') :=
  Poll.drive_of_ready (by simp only [h]) attempts

theorem driveReader_of_ready {α : Type} {attempt : Reader σ → Poll α × Reader σ} {a : α}
    (h : attempt r = (.ready a, r')) (attempts : Nat) :
    driveReader attempt (attempts + 1) r = some (.ready a, 1, r') :=
  Poll.drive_of_ready (congrArg some h) attempts

variable [PolledSource σ] {rounds : Nat}

theorem driveExact_of_ready {buffer done rest : Bytes} {result : Except (Stop ReadError) Unit}
    (h : r.pollExact #[] buffer = ⟨.ready result, done, rest, r'⟩) (attempts : Nat) :
    driveExact (attempts + 1) r buffer = some (.ready result, 1, (done, rest), r') :=
  Poll.drive_of_ready (by simp only [h]) attempts

theorem driveLine_of_ready {delim : UInt8} {out out' : Bytes} {scan : Scan}
    {result : Except ReadError Bool}
    (h : Reader.pollLineWithin rounds r (.start delim r.config.lineLimit) out =
      some ⟨.ready result, scan, out', r'⟩) (attempts : Nat) :
    driveLine rounds (attempts + 1) r delim out = some (.ready result, 1, (scan, out'), r') :=
  Poll.drive_of_ready (by simp only [h, Option.map_some]) attempts

theorem driveNext_of_ready {stream stream' : LineStream σ} {item? : Option Item}
    (h : stream.pollNextWithin rounds = some (.ready item?, stream')) (attempts : Nat) :
    driveNext rounds (attempts + 1) stream = some (.ready item?, 1, stream') :=
  Poll.drive_of_ready h attempts

end PolledSession

end BufferedReading
