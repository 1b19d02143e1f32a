import BufferedReading.Proofs.Alike
import BufferedReading.Proofs.Conservation

/-!
# A read that is given up loses nothing

A read of a polled reader may be given up after any number of attempts that were put off.
`PolledSession.cancellation_safe` states what is left behind. A read of some bytes, of one byte or
of the window leaves nothing behind but a source that puts off fewer attempts, so that whatever
follows, in reach of both readers, is answered as if the read had not been made. A read that fills a
buffer, or that appends a line to an accumulator, leaves there exactly the bytes it has taken. So a
line without a limit may be asked for again and again, with the same accumulator, and ends as if it
had never been given up; with a limit, the count begins anew each time.

`Script.dropDelays` is the script without its first delays. The parts of the theorem are
`PolledSession.exists_perform_single`, `PolledSession.exists_perform_readExact`,
`PolledSession.exists_perform_readLineInto`, `PolledSession.GivenUp.perform_alike` and
`PolledSession.perform_readLineInto_anew`.
-/

namespace BufferedReading

/-! ### Scripts that put off fewer attempts -/

namespace Script

/-- The script with so many of its delays left out, from the front on. -/
def dropDelays : Script → Nat → Script
  | [], _ => []
  | .delay times :: rest, count =>
    if count ≤ times then .delay (times - count) :: rest else dropDelays rest (count - times)
  | step :: rest, count => step :: dropDelays rest count

theorem dropDelays_zero (script : Script) : script.dropDelays 0 = script := by
  induction script with
  | nil => rfl
  | cons step rest ih =>
    cases step with
    | delay times => rfl
    | data bytes => exact congrArg (.data bytes :: ·) ih
    | ended => exact congrArg (.ended :: ·) ih
    | fail cause => exact congrArg (.fail cause :: ·) ih
    | overcount surplus => exact congrArg (.overcount surplus :: ·) ih

theorem dropDelays_of_le {count times : Nat} (h : count ≤ times) (rest : Script) :
    dropDelays (.delay times :: rest) count = .delay (times - count) :: rest := by
  rw [dropDelays, if_pos h]

theorem dropDelays_of_lt {count times : Nat} (h : times < count) (rest : Script) :
    dropDelays (.delay times :: rest) count = dropDelays rest (count - times) := by
  rw [dropDelays, if_neg (Nat.not_le_of_lt h)]

/-- Delays may be left out one after the other. -/
theorem dropDelays_one (script : Script) (count : Nat) :
    (script.dropDelays count).dropDelays 1 = script.dropDelays (count + 1) := by
  induction script generalizing count with
  | nil => rfl
  | cons step rest ih =>
    cases step with
    | delay times =>
      rcases Nat.lt_trichotomy count times with hlt | rfl | hlt
      · rw [dropDelays_of_le (Nat.le_of_lt hlt), dropDelays_of_le (Nat.sub_pos_of_lt hlt),
          dropDelays_of_le hlt, Nat.sub_sub]
      · rw [dropDelays_of_le (Nat.le_refl count), Nat.sub_self, dropDelays_of_lt Nat.one_pos,
          dropDelays_of_lt (Nat.lt_succ_self count), Nat.succ_sub (Nat.le_refl count), Nat.sub_self]
      · rw [dropDelays_of_lt hlt, ih, dropDelays_of_lt (Nat.lt_succ_of_lt hlt),
          Nat.succ_sub (Nat.le_of_lt hlt)]
    | data bytes => exact congrArg (.data bytes :: ·) (ih count)
    | ended => exact congrArg (.ended :: ·) (ih count)
    | fail cause => exact congrArg (.fail cause :: ·) (ih count)
    | overcount surplus => exact congrArg (.overcount surplus :: ·) (ih count)

/-- Only delays are left out. -/
theorem withoutDelays_dropDelays (script : Script) (count : Nat) :
    (script.dropDelays count).withoutDelays = script.withoutDelays := by
  induction script generalizing count with
  | nil => rfl
  | cons step rest ih =>
    cases step with
    | delay times =>
      rcases Nat.lt_or_ge times count with hlt | hle
      · rw [dropDelays_of_lt hlt, ih]
        rfl
      · rw [dropDelays_of_le hle]
        rfl
    | data bytes => exact congrArg (.data bytes :: ·) (ih count)
    | ended => exact congrArg (.ended :: ·) (ih count)
    | fail cause => exact congrArg (.fail cause :: ·) (ih count)
    | overcount surplus => exact congrArg (.overcount surplus :: ·) (ih count)

/-- An attempt that is put off leaves out a delay. -/
theorem eq_dropDelays_of_pending {script rest : Script} {n : Nat}
    (h : PolledSource.poll script n = (.pending, rest)) : rest = script.dropDelays 1 := by
  have hpoll : script.poll n = (.pending, rest) := h
  clear h
  fun_induction poll script n with
  | case1 script n ih =>
    rw [ih hpoll]
    rfl
  | case2 times script n =>
    obtain ⟨-, rfl⟩ := Prod.mk.inj hpoll
    exact (dropDelays_of_le (Nat.succ_pos times) script).symm
  | case3 script n =>
    exact absurd (congrArg Prod.fst hpoll) (Poll.ready_ne_pending _)

end Script

/-! ### Loops of attempts -/

namespace Poll

/-- Attempts may be made in two loops, the second of which goes on where the first gave up. -/
theorem drive_of_pending {ς α : Type} {attempt : ς → Option (Poll α × ς)}
    {attempts made total : Nat} {s s' : ς}
    (h : drive attempt attempts made s = some (.pending, total, s')) (more : Nat) :
    drive attempt (attempts + more) made s = drive attempt more total s' := by
  induction attempts generalizing made s with
  | zero =>
    simp only [drive, Option.some.injEq, Prod.mk.injEq, true_and] at h
    obtain ⟨rfl, rfl⟩ := h
    rw [Nat.zero_add]
  | succ attempts ih =>
    rw [Nat.succ_add]
    cases hattempt : attempt s with
    | none => simp [drive, hattempt] at h
    | some outcome =>
      obtain ⟨p, next⟩ := outcome
      cases p with
      | ready a => simp [drive, hattempt] at h
      | pending =>
        simp only [drive, hattempt] at h ⊢
        exact ih h

/-- The attempts made before a loop are only counted. -/
theorem drive_add_made {ς α : Type} (attempt : ς → Option (Poll α × ς)) (attempts made more : Nat)
    (s : ς) : drive attempt attempts (made + more) s =
      (drive attempt attempts made s).map fun (p, total, s) => (p, total + more, s) := by
  induction attempts generalizing made s with
  | zero => rfl
  | succ attempts ih =>
    cases hattempt : attempt s with
    | none => simp only [drive, hattempt, Option.map_none]
    | some outcome =>
      obtain ⟨p, next⟩ := outcome
      cases p with
      | pending =>
        simp only [drive, hattempt]
        rw [Nat.add_right_comm, ih]
      | ready a =>
        simp only [drive, hattempt, Option.map_some]
        rw [Nat.add_right_comm]

end Poll

/-! ### Reads that leave nothing behind -/

/-- Whether an operation needs one answer of the source at most: it works on the window alone, or on
a buffer that need not be filled. -/
def Operation.isSingle : Operation → Bool
  | .read _ => true
  | .readPlain _ => true
  | .readByte => true
  | .fillBuffer => true
  | _ => false

namespace Reader

/-- The reader in front of a source that puts off so many attempts fewer. -/
def ahead (r : Reader Script) (count : Nat) : Reader Script :=
  { r with source := r.source.dropDelays count }

/-- A reader behind an attempt that was put off is like the one ahead of one delay. -/
theorem PutOff.alike_ahead {r r' : Reader Script} {room : Option Nat} {ms : List Move}
    {taken : List UInt8} (h : r.PutOff ms r') (hcourse : r.Course room ms taken r') :
    r'.Alike (r.ahead 1) := by
  obtain ⟨asked, hasked, -⟩ := h.asked_in_vain
  exact ⟨hcourse.config, hcourse.capacity, h.unread_after.trans h.unread.symm,
    Script.eq_dropDelays_of_pending hasked⟩

/-- The delays add up. -/
theorem Alike.ahead_trans {r a b : Reader Script} {count : Nat} (h : a.Alike (r.ahead count))
    (h' : b.Alike (a.ahead 1)) : b.Alike (r.ahead (count + 1)) := by
  refine ⟨h'.config_eq.trans h.config_eq, h'.capacity_eq.trans h.capacity_eq,
    h'.unread_eq.trans h.unread_eq, ?_⟩
  have hsource : a.source = r.source.dropDelays count := h.source_eq
  have hsource' : b.source = a.source.dropDelays 1 := h'.source_eq
  rw [hsource', hsource]
  exact r.source.dropDelays_one count

theorem alike_ahead_zero (r : Reader Script) : r.Alike (r.ahead 0) :=
  ⟨rfl, rfl, rfl, r.source.dropDelays_zero.symm⟩

end Reader

/-- A reply with more bytes in front of those in the accumulator. -/
def Reply.behind (front : Bytes) : Reply → Reply
  | .appended result out => .appended result (front ++ out)
  | .pending (some out) => .pending (some (front ++ out))
  | reply => reply

namespace PolledSession

open Reader

variable {r r' : Reader Script} {attempts made : Nat}

/-- A read that is given up has not touched its buffer, and leaves its reader as it was but for the
delays met. -/
theorem driveBuffer_pending {buffer buffer' : Bytes}
    (h : driveBuffer pollRead attempts r buffer = some (.pending, made, buffer', r')) :
    made = attempts ∧ buffer' = buffer ∧ r'.Alike (r.ahead attempts) := by
  -- Each attempt that is put off costs one delay of the script and nothing else.
  have hdrive := Poll.drive_induction
    (fun n s => s.1 = buffer ∧ s.2.Alike (r.ahead n)) (fun _ _ _ => True)
    ?_ ⟨rfl, r.alike_ahead_zero⟩ h
  · obtain ⟨rfl, hbuffer, halike⟩ := hdrive
    rw [Nat.zero_add] at halike
    exact ⟨Nat.zero_add _, hbuffer, halike⟩
  · rintro n ⟨held, a⟩ p s' ⟨rfl, halike⟩ hattempt
    obtain ⟨rfl, rfl⟩ := Prod.mk.inj (Option.some.inj hattempt)
    obtain ⟨ms, hcourse, -, -, hputOff, -⟩ := a.exists_course_pollRead held
    cases hresult : (a.pollRead held).result with
    | ready result => trivial
    | pending =>
      obtain ⟨hbuffer, hput⟩ := hputOff hresult
      exact ⟨hbuffer, halike.ahead_trans (hput.alike_ahead hcourse)⟩

/-- A read of the reader alone that is given up leaves it as it was but for the delays met. -/
theorem driveReader_pending {α : Type} {attempt : Reader Script → Poll α × Reader Script}
    (hattempt : ∀ a, (attempt a).1 = .pending → ∃ ms taken, a.Course none ms taken (attempt a).2 ∧
      a.PutOff ms (attempt a).2)
    (h : driveReader attempt attempts r = some (.pending, made, r')) :
    made = attempts ∧ r'.Alike (r.ahead attempts) := by
  have hdrive := Poll.drive_induction (fun n s => s.Alike (r.ahead n)) (fun _ _ _ => True)
    ?_ r.alike_ahead_zero h
  · obtain ⟨rfl, halike⟩ := hdrive
    rw [Nat.zero_add] at halike
    exact ⟨Nat.zero_add _, halike⟩
  · intro n a p s' halike hsome
    obtain ⟨rfl, rfl⟩ := Prod.mk.inj (Option.some.inj hsome)
    cases hresult : (attempt a).1 with
    | ready result => trivial
    | pending =>
      obtain ⟨ms, taken, hcourse, hput⟩ := hattempt a hresult
      exact halike.ahead_trans (hput.alike_ahead hcourse)

/-- What an operation on a reader comes to. -/
theorem onReader_eq_perform (r : Reader Script) (out : Bytes) (attempts : Nat) (op : Operation)
    (hop : op ≠ .takeOut) :
    onReader (r.pollStock + 1) attempts ⟨.reader r, out⟩ r op =
      some (perform attempts ⟨.reader r, out⟩ op) := by
  have hperform : performWithin (rounds ⟨.reader r, out⟩) attempts ⟨.reader r, out⟩ op =
      some (perform attempts ⟨.reader r, out⟩ op) := (Option.some_get _).symm
  rwa [performWithin, if_neg hop] at hperform

/-- A read that needs one answer of the source at most, and is given up, leaves its reader as it was
but for the delays met. -/
theorem exists_perform_single (r : Reader Script) (out : Bytes) {op : Operation}
    (hop : op.isSingle = true) {kept : Option Bytes}
    (h : (perform attempts ⟨.reader r, out⟩ op).reply = .pending kept) :
    ∃ r', (perform attempts ⟨.reader r, out⟩ op).session = ⟨.reader r', out⟩ ∧
      r'.Alike (r.ahead attempts) := by
  have hnot : op ≠ .takeOut := by
    rintro rfl
    simp [Operation.isSingle] at hop
  have hperform := onReader_eq_perform r out attempts op hnot
  generalize perform attempts ⟨.reader r, out⟩ op = performance at h hperform ⊢
  cases op with
  | read buffer =>
    obtain ⟨⟨p, made, buffer', r'⟩, hdrive, rfl⟩ := Option.map_eq_some_iff.1 hperform
    cases p with
    | ready result => exact nomatch h
    | pending => exact ⟨r', rfl, (driveBuffer_pending hdrive).2.2⟩
  | readPlain buffer =>
    obtain ⟨⟨p, made, buffer', r'⟩, hdrive, rfl⟩ := Option.map_eq_some_iff.1 hperform
    cases p with
    | ready result => exact nomatch h
    | pending => exact ⟨r', rfl, (driveBuffer_pending hdrive).2.2⟩
  | readByte =>
    obtain ⟨⟨p, made, r'⟩, hdrive, rfl⟩ := Option.map_eq_some_iff.1 hperform
    cases p with
    | ready result => exact nomatch h
    | pending =>
      refine ⟨r', rfl, (driveReader_pending (fun a hpending => ?_) hdrive).2⟩
      obtain ⟨ms, taken, hcourse, hputOff, -⟩ := a.exists_course_pollByte
      exact ⟨ms, taken, hcourse, hputOff hpending⟩
  | fillBuffer =>
    obtain ⟨⟨p, made, r'⟩, hdrive, rfl⟩ := Option.map_eq_some_iff.1 hperform
    cases p with
    | ready result => exact nomatch h
    | pending =>
      refine ⟨r', rfl, (driveReader_pending (fun a hpending => ?_) hdrive).2⟩
      obtain ⟨ms, hcourse, hputOff, -⟩ := a.exists_course_pollFillBuffer
      exact ⟨ms, [], hcourse, hputOff hpending⟩
  | _ => simp [Operation.isSingle] at hop

/-- A buffer that is not filled because the read was given up starts with the bytes taken, which are
those that the read counts as done. -/
theorem exists_perform_readExact (r : Reader Script) (out buffer : Bytes) {kept : Option Bytes}
    (h : (perform attempts ⟨.reader r, out⟩ (.readExact buffer)).reply = .pending kept) :
    ∃ made done rest ms r', kept = some (done ++ rest) ∧ done.size + rest.size = buffer.size ∧
      driveExact attempts r buffer = some (.pending, made, (done, rest), r') ∧
      (perform attempts ⟨.reader r, out⟩ (.readExact buffer)).session = ⟨.reader r', out⟩ ∧
      r.Course (some buffer.size) ms done.toList r' := by
  have hperform := onReader_eq_perform r out attempts (.readExact buffer) nofun
  generalize perform attempts ⟨.reader r, out⟩ (.readExact buffer) = performance at h hperform ⊢
  obtain ⟨⟨p, made, ⟨done, rest⟩, r'⟩, hdrive, rfl⟩ := Option.map_eq_some_iff.1 hperform
  obtain ⟨ms, hcourse, hsize⟩ := exists_course_driveExact hdrive
  cases p with
  | ready result => exact nomatch h
  | pending =>
    have hkept : some (done ++ rest) = kept := Reply.pending.inj h
    exact ⟨made, done, rest, ms, r', hkept.symm, hsize, hdrive, rfl, hcourse⟩

/-- What is known of a delimiter read that was put off: it goes on with the same search, and once it
has asked in vain no byte is unread. -/
structure HeldUp (r : Reader Script) (delim : UInt8) (attempts : Nat) (scan : Scan)
    (r' : Reader Script) : Prop where
  delim_eq : scan.delim = delim
  limit_eq : scan.limit = r.config.lineLimit
  config_eq : r'.config = r.config
  pollStock_le : r'.pollStock ≤ r.pollStock
  unread : 0 < attempts → r'.window.toList = []

/-- A delimiter read that is given up was held up in each attempt. -/
theorem driveLine_pending {rounds : Nat} {delim : UInt8} {scan : Scan} {out out' : Bytes}
    (h : driveLine rounds attempts r delim out = some (.pending, made, (scan, out'), r')) :
    made = attempts ∧ HeldUp r delim attempts scan r' := by
  have hdrive := Poll.drive_induction (fun n s => HeldUp r delim n s.1.1 s.2) (fun _ _ _ => True)
    ?_ ⟨rfl, rfl, rfl, Nat.le_refl _, fun hpos => absurd hpos (Nat.lt_irrefl 0)⟩ h
  · obtain ⟨rfl, hheld⟩ := hdrive
    rw [Nat.zero_add] at hheld
    exact ⟨Nat.zero_add _, hheld⟩
  · rintro n ⟨⟨scan, held⟩, a⟩ p s' hheld hattempt
    obtain ⟨attempt, hpoll, heq⟩ := Option.map_eq_some_iff.1 hattempt
    obtain ⟨rfl, rfl⟩ := Prod.mk.inj heq
    obtain ⟨ms, taken, hcourse, -, hscan, -, hunread, -⟩ := exists_course_pollLineWithin hpoll
    cases hresult : attempt.result with
    | ready result => trivial
    | pending =>
      have hfall := pollStock_lineWithin_lt hpoll (.inl hresult)
      constructor
      · rw [hscan]
        exact hheld.delim_eq
      · rw [hscan]
        exact hheld.limit_eq
      · exact hcourse.config.trans hheld.config_eq
      · exact Nat.le_trans (Nat.le_of_lt hfall) hheld.pollStock_le
      · exact fun _ => hunread hresult

/-- An accumulator to which a line is appended, and then given up, ends with the bytes taken. -/
theorem exists_perform_readLineInto (r : Reader Script) (out : Bytes) (delim : UInt8)
    {kept : Option Bytes}
    (h : (perform attempts ⟨.reader r, out⟩ (.readLineInto delim)).reply = .pending kept) :
    ∃ held ms taken r', kept = some held ∧ held.toList = out.toList ++ taken ∧
      (perform attempts ⟨.reader r, out⟩ (.readLineInto delim)).session = ⟨.reader r', held⟩ ∧
      r.Course none ms taken r' ∧ (0 < attempts → r'.window.toList = []) := by
  have hperform := onReader_eq_perform r out attempts (.readLineInto delim) nofun
  generalize perform attempts ⟨.reader r, out⟩ (.readLineInto delim) = performance
    at h hperform ⊢
  obtain ⟨⟨p, made, ⟨scan, held⟩, r'⟩, hdrive, rfl⟩ := Option.map_eq_some_iff.1 hperform
  obtain ⟨ms, taken, hcourse, hheld⟩ := exists_course_driveLine hdrive
  cases p with
  | ready result => exact nomatch h
  | pending =>
    have hkept : some held = kept := Reply.pending.inj h
    exact ⟨held, ms, taken, r', hkept.symm, hheld, rfl, hcourse,
      (driveLine_pending hdrive).2.unread⟩

/-! ### Lines that are asked for again -/

section Again

variable {delim : UInt8} {out : Bytes} {kept : Option Bytes}

/-- Without a limit, a line that is asked for again with the same accumulator comes to what it comes
to if it is not given up in between. -/
theorem perform_readLineInto_again (hlimit : r.config.lineLimit = none)
    (h : (perform attempts ⟨.reader r, out⟩ (.readLineInto delim)).reply = .pending kept)
    (more : Nat) :
    (perform more (perform attempts ⟨.reader r, out⟩ (.readLineInto delim)).session
      (.readLineInto delim)).Alike
        (perform (attempts + more) ⟨.reader r, out⟩ (.readLineInto delim)) := by
  have hperform := onReader_eq_perform r out attempts (.readLineInto delim) nofun
  have hwhole := onReader_eq_perform r out (attempts + more) (.readLineInto delim) nofun
  generalize perform attempts ⟨.reader r, out⟩ (.readLineInto delim) = first at h hperform ⊢
  generalize perform (attempts + more) ⟨.reader r, out⟩ (.readLineInto delim) = whole at hwhole ⊢
  obtain ⟨⟨p, made, ⟨scan, held⟩, r'⟩, hdrive, rfl⟩ := Option.map_eq_some_iff.1 hperform
  cases p with
  | ready result => exact nomatch h
  | pending =>
    obtain ⟨rfl, hheld⟩ := driveLine_pending hdrive
    have hagain := onReader_eq_perform r' held more (.readLineInto delim) nofun
    change (perform more ⟨.reader r', held⟩ (.readLineInto delim)).Alike whole
    generalize perform more ⟨.reader r', held⟩ (.readLineInto delim) = again at hagain ⊢
    -- What the search has counted so far is lost, but without a limit nobody looks at it.
    have hagrees : scan.Agrees (.start delim r'.config.lineLimit) := by
      refine ⟨hheld.delim_eq, ?_, .inl (hheld.limit_eq.trans hlimit)⟩
      rw [hheld.config_eq]
      exact hheld.limit_eq
    obtain ⟨p, total, s, t, hs, ht, hout, halike⟩ := driveLine_alike (.refl r') hagrees #[] held
      (Nat.lt_succ_of_le hheld.pollStock_le) (Nat.lt_succ_self _) more made
    rw [Array.empty_append] at hs hout
    have hdriveWhole : driveLine (r.pollStock + 1) (made + more) r delim out = some (p, total, s) :=
      (Poll.drive_of_pending hdrive more).trans hs
    obtain ⟨total', hdriveAgain⟩ : ∃ total',
        driveLine (r'.pollStock + 1) more r' delim held = some (p, total', t) := by
      have hmade := Poll.drive_add_made (attemptLine (r'.pollStock + 1)) more 0 made
        ((.start delim r'.config.lineLimit, held), r')
      rw [Nat.zero_add, ht] at hmade
      obtain ⟨⟨p', total', t'⟩, hdrive', heq⟩ := Option.map_eq_some_iff.1 hmade.symm
      simp only [Prod.mk.injEq] at heq
      obtain ⟨rfl, -, rfl⟩ := heq
      exact ⟨total', hdrive'⟩
    obtain ⟨⟨scan', out'⟩, a⟩ := s
    obtain ⟨⟨scan'', out''⟩, b⟩ := t
    obtain rfl : out' = out'' := hout
    obtain rfl := Option.some.inj (hwhole.symm.trans (congrArg (Option.map _) hdriveWhole))
    obtain rfl := Option.some.inj (hagain.symm.trans (congrArg (Option.map _) hdriveAgain))
    exact ⟨rfl, .reader halike.symm out'⟩

/-- A line that is asked for with bytes in the accumulator comes to what it comes to without them,
on any reader that is alike: the count of its bytes begins anew. -/
theorem perform_readLineInto_anew {a b : Reader Script} (h : a.Alike b) (out : Bytes)
    (delim : UInt8) (attempts : Nat) :
    (perform attempts ⟨.reader a, out⟩ (.readLineInto delim)).reply =
      (perform attempts ⟨.reader b, #[]⟩ (.readLineInto delim)).reply.behind out ∧
    ∃ a' b' added,
      (perform attempts ⟨.reader a, out⟩ (.readLineInto delim)).session =
        ⟨.reader a', out ++ added⟩ ∧
      (perform attempts ⟨.reader b, #[]⟩ (.readLineInto delim)).session = ⟨.reader b', added⟩ ∧
      a'.Alike b' := by
  have hperform := onReader_eq_perform a out attempts (.readLineInto delim) nofun
  have hperform' := onReader_eq_perform b #[] attempts (.readLineInto delim) nofun
  generalize perform attempts ⟨.reader a, out⟩ (.readLineInto delim) = p at hperform ⊢
  generalize perform attempts ⟨.reader b, #[]⟩ (.readLineInto delim) = q at hperform' ⊢
  have hagrees :
      (Scan.start delim a.config.lineLimit).Agrees (.start delim b.config.lineLimit) := by
    rw [h.config_eq]
    exact .refl _
  obtain ⟨result, total, ⟨⟨scan, held⟩, a'⟩, ⟨⟨scan', added⟩, b'⟩, ha, hb, hheld, halike⟩ :=
    driveLine_alike h hagrees out #[] (Nat.lt_succ_self _) (Nat.lt_succ_self _) attempts 0
  rw [Array.append_empty, ← driveLine_eq] at ha
  rw [h.pollStock_eq, ← driveLine_eq] at hb
  obtain rfl : held = out ++ added := hheld
  obtain rfl := Option.some.inj (hperform.symm.trans (congrArg (Option.map _) ha))
  obtain rfl := Option.some.inj (hperform'.symm.trans (congrArg (Option.map _) hb))
  refine ⟨?_, a', b', added, rfl, rfl, halike⟩
  cases result with
  | pending => rfl
  | ready result => rfl

/-- A session is what is left behind by lines that were asked for in turn and given up, each after
some attempts, so many in all. -/
inductive GivenUp (delim : UInt8) : PolledSession Script → Nat → PolledSession Script → Prop
  /-- No line was asked for. -/
  | nil (s : PolledSession Script) : GivenUp delim s 0 s
  /-- A line was given up, and then others. -/
  | again {s t : PolledSession Script} {attempts later : Nat} {kept : Option Bytes}
    (h : (s.perform attempts (.readLineInto delim)).reply = .pending kept)
    (hlater : GivenUp delim (s.perform attempts (.readLineInto delim)).session later t) :
    GivenUp delim s (attempts + later) t

/-- Lines given up leave a reader, and keep its configuration. -/
theorem GivenUp.exists_reader {s t : PolledSession Script} {total : Nat}
    (h : GivenUp delim s total t) (hs : s = ⟨.reader r, out⟩) :
    ∃ r' held, t = ⟨.reader r', held⟩ ∧ r'.config = r.config := by
  induction h generalizing r out with
  | nil s => exact ⟨r, out, hs, rfl⟩
  | again hreply hlater ih =>
    subst hs
    obtain ⟨held, ms, taken, r', -, -, hsession, hcourse, -⟩ :=
      exists_perform_readLineInto r out delim hreply
    obtain ⟨r'', held', ht, hconfig⟩ := ih hsession
    exact ⟨r'', held', ht, hconfig.trans hcourse.config⟩

/-- Without a limit, a line that was given up any number of times comes to what it would have come
to at once. -/
theorem GivenUp.perform_alike {s t : PolledSession Script} {total : Nat}
    (h : GivenUp delim s total t) (hs : s = ⟨.reader r, out⟩)
    (hlimit : r.config.lineLimit = none) (more : Nat) :
    (t.perform more (.readLineInto delim)).Alike
      (s.perform (total + more) (.readLineInto delim)) := by
  induction h generalizing r out with
  | nil s =>
    rw [Nat.zero_add]
    exact (Alike.refl s).perform more (fun _ _ => trivial) fun _ _ => trivial
  | @again s t attempts later kept hreply hlater ih =>
    subst hs
    obtain ⟨held, ms, taken, r', -, -, hsession, hcourse, -⟩ :=
      exists_perform_readLineInto r out delim hreply
    have hlimit' : r'.config.lineLimit = none := by rw [hcourse.config, hlimit]
    -- The first line is given up once; the rest, by induction, counts as one line in its place.
    have hagain := perform_readLineInto_again hlimit hreply (later + more)
    rw [Nat.add_assoc]
    exact (ih hsession hlimit').trans hagain

end Again

/-- A read of a polled reader over a script may be given up after any number of attempts, and
nothing is lost.

A read of some bytes, of one byte or of the window leaves the unread bytes as they were, the buffer
too, and the script but for the delays met; whatever follows is answered as if the read had not been
made and these delays were not there, if bytes are passed over in reach of the reader in both cases.
A buffer that was to be filled starts with exactly the bytes taken from the stream, which are those
counted as done, and an accumulator ends with them.

A line may be asked for again after it was given up, any number of times and with the same
accumulator. Without a limit it comes to what it comes to when it is asked for once and attempted as
often. Whatever the limit, it is read as by a reader that is alike and was never asked before,
behind the bytes that stand in the accumulator. -/
theorem cancellation_safe (r : Reader Script) (out : Bytes) :
    (∀ op attempts kept, op.isSingle = true →
      (perform attempts ⟨.reader r, out⟩ op).reply = .pending kept →
      ∃ r', (perform attempts ⟨.reader r, out⟩ op).session = ⟨.reader r', out⟩ ∧
        r'.window.toList = r.window.toList ∧ r'.source = r.source.dropDelays attempts ∧
        r'.source.withoutDelays = r.source.withoutDelays ∧
        ∀ ops, AllInReach ⟨.reader r', out⟩ ops →
          AllInReach ⟨.reader (r.ahead attempts), out⟩ ops →
          (performAll ⟨.reader r', out⟩ ops).1 =
            (performAll ⟨.reader (r.ahead attempts), out⟩ ops).1) ∧
    (∀ attempts made buffer buffer' r',
      driveBuffer pollRead attempts r buffer = some (.pending, made, buffer', r') →
      buffer' = buffer) ∧
    (∀ attempts buffer kept,
      (perform attempts ⟨.reader r, out⟩ (.readExact buffer)).reply = .pending kept →
      ∃ held ms taken r', kept = some held ∧ held.size = buffer.size ∧
        (perform attempts ⟨.reader r, out⟩ (.readExact buffer)).session = ⟨.reader r', out⟩ ∧
        r.Course (some buffer.size) ms taken r' ∧ taken <+: held.toList ∧
        r.window.toList ++ r.produced ms = taken ++ r'.window.toList ∧
        ∃ made rest, driveExact attempts r buffer =
          some (.pending, made, (taken.toArray, rest), r')) ∧
    (∀ delim attempts kept,
      (perform attempts ⟨.reader r, out⟩ (.readLineInto delim)).reply = .pending kept →
      ∃ held ms taken r', kept = some held ∧ held.toList = out.toList ++ taken ∧
        (perform attempts ⟨.reader r, out⟩ (.readLineInto delim)).session = ⟨.reader r', held⟩ ∧
        r.Course none ms taken r' ∧
        r.window.toList ++ r.produced ms = taken ++ r'.window.toList ∧
        (0 < attempts → r'.window.toList = [])) ∧
    ∀ delim total t, GivenUp delim ⟨.reader r, out⟩ total t →
      (r.config.lineLimit = none → ∀ more, (t.perform more (.readLineInto delim)).Alike
        (perform (total + more) ⟨.reader r, out⟩ (.readLineInto delim))) ∧
      ∃ r' held, t = ⟨.reader r', held⟩ ∧ r'.config = r.config ∧
        ∀ b, r'.Alike b → ∀ more,
          (t.perform more (.readLineInto delim)).reply =
            (perform more ⟨.reader b, #[]⟩ (.readLineInto delim)).reply.behind held ∧
          ∃ a' b' added,
            (t.perform more (.readLineInto delim)).session = ⟨.reader a', held ++ added⟩ ∧
            (perform more ⟨.reader b, #[]⟩ (.readLineInto delim)).session =
              ⟨.reader b', added⟩ ∧ a'.Alike b' := by
  refine ⟨?_, ?_, ?_, ?_, ?_⟩
  · intro op attempts kept hop hreply
    obtain ⟨r', hsession, halike⟩ := exists_perform_single r out hop hreply
    have hsource : r'.source = r.source.dropDelays attempts := halike.source_eq
    refine ⟨r', hsession, halike.unread_eq, hsource, ?_, fun ops hreach hreach' => ?_⟩
    · rw [hsource]
      exact r.source.withoutDelays_dropDelays attempts
    · exact (Alike.performAll (.reader halike out) hreach hreach').1
  · intro attempts made buffer buffer' r' hdrive
    exact (driveBuffer_pending hdrive).2.1
  · intro attempts buffer kept hreply
    obtain ⟨made, done, rest, ms, r', hkept, hsize, hdrive, hsession, hcourse⟩ :=
      exists_perform_readExact r out buffer hreply
    refine ⟨done ++ rest, ms, done.toList, r', hkept, ?_, hsession, hcourse, ?_,
      hcourse.unread_append, made, rest, hdrive⟩
    · rw [Array.size_append, hsize]
    · rw [Array.toList_append]
      exact List.prefix_append _ _
  · intro delim attempts kept hreply
    obtain ⟨held, ms, taken, r', hkept, hheld, hsession, hcourse, hunread⟩ :=
      exists_perform_readLineInto r out delim hreply
    exact ⟨held, ms, taken, r', hkept, hheld, hsession, hcourse, hcourse.unread_append, hunread⟩
  · intro delim total t hgiven
    obtain ⟨r', held, rfl, hconfig⟩ := hgiven.exists_reader rfl
    refine ⟨hgiven.perform_alike rfl, r', held, rfl, hconfig, fun b halike more => ?_⟩
    exact perform_readLineInto_anew halike held delim more

/-- A line in two pieces, a delay before each. -/
def delayedPieces : Reader Script :=
  Reader.build [.delay 1, .data #[1, 2], .delay 1, .data #[3, 10]] ⟨4, none⟩

/-- A byte that is given up leaves the delay behind, and two bytes passed over after a look at the
window are the first piece. A buffer that is given up at the second delay starts with that piece, a
line that is given up there appends it, and a line given up at each of the delays is completed in
the accumulator where it was begun. -/
theorem cancellation_safe_delayedPieces :
    (∃ r', (perform 1 ⟨.reader delayedPieces, #[9]⟩ .readByte).session = ⟨.reader r', #[9]⟩ ∧
      r'.window.toList = [] ∧
      r'.source = [.delay 0, .data #[1, 2], .delay 1, .data #[3, 10]] ∧
      (performAll ⟨.reader r', #[9]⟩ [(.fillBuffer, 1), (.consume 2, 1), (.read #[0, 0], 2)]).1 =
        [.available (.ok #[1, 2]), .done, .count (.ok 2) #[3, 10]]) ∧
    (∃ made buffer r', driveBuffer pollRead 1 delayedPieces #[7] =
      some (.pending, made, buffer, r') ∧ buffer = #[7]) ∧
    (∃ ms taken r', (perform 2 ⟨.reader delayedPieces, #[9]⟩ (.readExact #[0, 0, 0])).session =
      ⟨.reader r', #[9]⟩ ∧ taken = [1, 2] ∧
        delayedPieces.produced ms = taken ++ r'.window.toList) ∧
    (∃ ms taken r', (perform 2 ⟨.reader delayedPieces, #[9]⟩ (.readLineInto 10)).session =
      ⟨.reader r', #[9, 1, 2]⟩ ∧ taken = [1, 2] ∧
        delayedPieces.produced ms = taken ++ r'.window.toList ∧ r'.window.toList = []) ∧
    ∃ t, GivenUp 10 ⟨.reader delayedPieces, #[9]⟩ 2 t ∧
      (t.perform 1 (.readLineInto 10)).reply = .appended (.ok true) #[9, 1, 2, 3, 10] := by
  obtain ⟨hsingle, hbuffer, hexact, hline, hagain⟩ := cancellation_safe delayedPieces #[9]
  refine ⟨?_, ?_, ?_, ?_, ?_⟩
  · obtain ⟨r', hsession, hunread, hsource, -, hlater⟩ :=
      hsingle .readByte 1 none rfl (by decide +kernel)
    refine ⟨r', hsession, hunread, hsource, ?_⟩
    have hgiven : (perform 1 ⟨.reader delayedPieces, #[9]⟩ .readByte).session.AllInReach
        [(.fillBuffer, 1), (.consume 2, 1), (.read #[0, 0], 2)] := by decide +kernel
    rw [hsession] at hgiven
    refine (hlater _ hgiven (by decide +kernel)).trans ?_
    decide +kernel
  · exact ⟨1, _, _, rfl, hbuffer 1 1 #[7] _ _ rfl⟩
  · have hreply : (perform 2 ⟨.reader delayedPieces, #[9]⟩ (.readExact #[0, 0, 0])).reply =
        .pending (some #[1, 2, 0]) := by decide +kernel
    obtain ⟨held, ms, taken, r', hkept, -, hsession, -, -, hproduced, made, rest, hdrive⟩ :=
      hexact 2 #[0, 0, 0] _ hreply
    have hdone : (driveExact 2 delayedPieces #[0, 0, 0]).map (fun outcome => outcome.2.2.1.1) =
        some #[1, 2] := by decide +kernel
    rw [hdrive, Option.map_some, Option.some.injEq] at hdone
    exact ⟨ms, taken, r', hsession, congrArg Array.toList hdone, hproduced⟩
  · obtain ⟨held, ms, taken, r', hkept, hheld, hsession, -, hproduced, hunread⟩ :=
      hline 10 2 (some #[9, 1, 2]) (by decide +kernel)
    obtain rfl := Option.some.inj hkept
    exact ⟨ms, taken, r', hsession, (List.cons.inj hheld).2.symm, hproduced,
      hunread Nat.zero_lt_two⟩
  · have hfirst : (perform 1 ⟨.reader delayedPieces, #[9]⟩ (.readLineInto 10)).reply =
        .pending (some #[9]) := by decide +kernel
    have hsecond : (perform 1 (perform 1 ⟨.reader delayedPieces, #[9]⟩ (.readLineInto 10)).session
        (.readLineInto 10)).reply = .pending (some #[9, 1, 2]) := by decide +kernel
    have hgiven := GivenUp.again hfirst (.again hsecond (.nil _))
    obtain ⟨hwhole, -⟩ := hagain 10 2 _ hgiven
    have hreply : (perform (2 + 1) ⟨.reader delayedPieces, #[9]⟩ (.readLineInto 10)).reply =
        .appended (.ok true) #[9, 1, 2, 3, 10] := by decide +kernel
    exact ⟨_, hgiven, (hwhole rfl 1).reply_eq.trans hreply⟩

end PolledSession

end BufferedReading
