import BufferedReading.Proofs.Attempts
import BufferedReading.Proofs.Mirror

/-!
# Readers that cannot be told apart

Two polled readers over a script are alike if they have the same unread bytes, the same source and
are built alike (`Reader.Alike`). Where the unread bytes stand in the window, what else is in it,
and what is in the journal cannot be seen: every operation answers the same on both and leaves
readers that are alike again, if bytes are passed over in reach only (`PolledSession.InReach`).
`PolledSession.Alike.performAll` states this for sequences of operations.

A delimiter read does not look at its accumulator, and it looks at what its search has counted only
if there is a limit: see `Scan.Agrees` and `Reader.Alike.line`, from which the rest follows for
delimiter reads.
-/

namespace BufferedReading

/-- A script that is polled counts no byte that it has not written. -/
theorem Script.covered_poll {script rest : Script} {n : Nat} {answer : Answer}
    (h : PolledSource.poll script n = (.ready answer, rest)) : answer.Covered n := by
  have hpoll : script.poll n = (.ready answer, rest) := h
  rcases script.poll_cases n with ⟨rest', hpending, -⟩ | ⟨answer', rest', hready, -, -, hcovered⟩
  · rw [hpending] at hpoll
    exact absurd (congrArg Prod.fst hpoll) nofun
  · rw [hready] at hpoll
    rw [← Poll.ready.inj (congrArg Prod.fst hpoll)]
    exact hcovered

namespace Reader

/-- Two readers over a script are alike: they have the same unread bytes, the same source, the same
configuration and windows of the same size. -/
structure Alike (a b : Reader Script) : Prop where
  config_eq : a.config = b.config
  capacity_eq : a.capacity = b.capacity
  unread_eq : a.window.toList = b.window.toList
  source_eq : a.source = b.source

namespace Alike

variable {a b c : Reader Script}

theorem refl (a : Reader Script) : a.Alike a := ⟨rfl, rfl, rfl, rfl⟩

theorem symm (h : a.Alike b) : b.Alike a :=
  ⟨h.config_eq.symm, h.capacity_eq.symm, h.unread_eq.symm, h.source_eq.symm⟩

theorem trans (h : a.Alike b) (h' : b.Alike c) : a.Alike c :=
  ⟨h.config_eq.trans h'.config_eq, h.capacity_eq.trans h'.capacity_eq,
    h.unread_eq.trans h'.unread_eq, h.source_eq.trans h'.source_eq⟩

/-- Passing over as many bytes keeps readers alike. -/
theorem skip (h : a.Alike b) (count : Nat) : (a.skip count).Alike (b.skip count) := by
  refine ⟨h.config_eq, ?_, ?_, h.source_eq⟩
  · exact h.capacity_eq
  · simp only [Reader.skip, Window.toList_skip, h.unread_eq]

theorem buffered_eq (h : a.Alike b) : a.window.buffered = b.window.buffered := by
  rw [← Window.length_toList, h.unread_eq, Window.length_toList]

theorem unread (h : a.Alike b) : a.unread = b.unread := by
  apply Array.toList_inj.1
  exact h.unread_eq

theorem pollStock_eq (h : a.Alike b) : a.pollStock = b.pollStock := by
  have hcap : a.window.capacity = b.window.capacity := h.capacity_eq
  simp only [pollStock, Window.stock, h.source_eq, hcap, h.buffered_eq]

/-! ### Asking the source -/

/-- The same contact keeps readers alike. -/
theorem meet (h : a.Alike b) (contact : Contact) (source : Script) :
    (a.meet contact source).Alike (b.meet contact source) :=
  ⟨h.config_eq, h.capacity_eq, h.unread_eq, rfl⟩

theorem withWindow (h : a.Alike b) {w w' : Window} (hcap : w.capacity = w'.capacity)
    (hunread : w.toList = w'.toList) : (a.withWindow w).Alike (b.withWindow w') :=
  ⟨h.config_eq, hcap, hunread, h.source_eq⟩

/-- A refill of an empty window comes to the same for both. -/
theorem refill (h : a.Alike b) (hunread : a.window.toList = []) :
    ∃ p a' b', a.pollRefill = (p, a') ∧ b.pollRefill = (p, b') ∧ a'.Alike b' := by
  obtain ⟨answer, source, hpoll⟩ :
      ∃ answer source, PolledSource.poll a.source a.capacity = (answer, source) := ⟨_, _, rfl⟩
  have hunread' : b.window.toList = [] := by rw [← h.unread_eq, hunread]
  have hpoll' : PolledSource.poll b.source b.capacity = (answer, source) := by
    rw [← h.source_eq, ← h.capacity_eq, hpoll]
  obtain ⟨w, hw, hrefill⟩ := exists_pollRefill_eq hunread hpoll
  obtain ⟨w', hw', hrefill'⟩ := exists_pollRefill_eq hunread' hpoll'
  cases answer with
  | pending =>
    obtain ⟨hnil, hcap, -⟩ := hw
    obtain ⟨hnil', hcap', -⟩ := hw'
    rw [← h.capacity_eq] at hcap' hrefill'
    have halike := (h.meet ⟨.refill, a.capacity, .pending⟩ source).withWindow
      (hcap.trans hcap'.symm) (hnil.trans hnil'.symm)
    exact ⟨_, _, _, hrefill, hrefill', halike⟩
  | ready answer =>
    have hw : Filled a.capacity answer w := hw
    have hw' : Filled b.capacity answer w' := hw'
    rw [← h.capacity_eq] at hw' hrefill'
    have hcovered := Script.covered_poll hpoll
    have halike := (h.meet ⟨.refill, a.capacity, .ready answer⟩ source).withWindow
      (hw.capacity_eq.trans hw'.capacity_eq.symm)
      ((hw.toList_eq hcovered).trans (hw'.toList_eq hcovered).symm)
    exact ⟨_, _, _, hrefill, hrefill', halike⟩

/-- A read past the window comes to the same for both. -/
theorem bypass (h : a.Alike b) (buffer : Bytes) :
    ∃ p buffer' a' b', a.pollBypass buffer = ⟨p, buffer', a'⟩ ∧
      b.pollBypass buffer = ⟨p, buffer', b'⟩ ∧ a'.Alike b' := by
  obtain ⟨answer, source, hpoll⟩ :
      ∃ answer source, PolledSource.poll a.source buffer.size = (answer, source) := ⟨_, _, rfl⟩
  have hpoll' : PolledSource.poll b.source buffer.size = (answer, source) := by
    rw [← h.source_eq, hpoll]
  have halike := h.meet ⟨.bypass, buffer.size, answer⟩ source
  cases answer with
  | pending => exact ⟨_, _, _, _, pollBypass_eq hpoll, pollBypass_eq hpoll', halike⟩
  | ready answer => exact ⟨_, _, _, _, pollBypass_eq hpoll, pollBypass_eq hpoll', halike⟩

/-! ### Reads -/

/-- Both deliver the same bytes. -/
theorem deliver (h : a.Alike b) (buffer : Bytes) :
    ∃ result buffer' a' b', a.deliver buffer = ⟨result, buffer', a'⟩ ∧
      b.deliver buffer = ⟨result, buffer', b'⟩ ∧ a'.Alike b' := by
  have hfront : a.window.front (min buffer.size b.window.buffered) =
      b.window.front (min buffer.size b.window.buffered) := by
    apply Array.toList_inj.1
    rw [Window.toList_front, h.unread_eq, Window.toList_front]
  have halike := h.skip (min buffer.size b.window.buffered)
  refine ⟨_, _, _, _, ?_, rfl, halike⟩
  simp only [Reader.deliver, h.buffered_eq, hfront]
  rfl

/-- Both reads do the same behind a refill. -/
theorem exists_readBehind_eq (h : a.Alike b) (buffer : Bytes) (outcome : Except ReadError Fill) :
    ∃ result buffer' a' b', readBehind buffer a outcome = ⟨result, buffer', a'⟩ ∧
      readBehind buffer b outcome = ⟨result, buffer', b'⟩ ∧ a'.Alike b' := by
  cases outcome with
  | error e => exact ⟨_, _, _, _, rfl, rfl, h⟩
  | ok fill =>
    cases fill with
    | ended => exact ⟨_, _, _, _, rfl, rfl, h⟩
    | added count => exact h.deliver buffer
    | full => exact h.deliver buffer

/-- An attempt at a read comes to the same for both. -/
theorem read (h : a.Alike b) (buffer : Bytes) :
    ∃ p buffer' a' b', a.pollRead buffer = ⟨p, buffer', a'⟩ ∧
      b.pollRead buffer = ⟨p, buffer', b'⟩ ∧ a'.Alike b' := by
  by_cases hsize : buffer.size = 0
  · rw [pollRead, pollRead, if_pos hsize, if_pos hsize]
    exact ⟨_, _, _, _, rfl, rfl, h⟩
  by_cases hunread : a.window.toList = []
  · have hunread' : b.window.toList = [] := by rw [← h.unread_eq, hunread]
    by_cases hcap : a.capacity ≤ buffer.size
    · rw [pollRead_of_bypass hsize hunread hcap,
        pollRead_of_bypass hsize hunread' (h.capacity_eq ▸ hcap)]
      exact h.bypass buffer
    · obtain ⟨p, a', b', hrefill, hrefill', halike⟩ := h.refill hunread
      have hcap' : ¬ b.capacity ≤ buffer.size := h.capacity_eq ▸ hcap
      cases p with
      | pending =>
        rw [pollRead_of_pending hsize hunread hcap hrefill,
          pollRead_of_pending hsize hunread' hcap' hrefill']
        exact ⟨_, _, _, _, rfl, rfl, halike⟩
      | ready outcome =>
        rw [pollRead_of_refill hsize hunread hcap hrefill,
          pollRead_of_refill hsize hunread' hcap' hrefill']
        obtain ⟨result, buffer', a'', b'', hbehind, hbehind', halike'⟩ :=
          halike.exists_readBehind_eq buffer outcome
        rw [hbehind, hbehind']
        exact ⟨_, _, _, _, rfl, rfl, halike'⟩
  · have hunread' : b.window.toList ≠ [] := by rwa [← h.unread_eq]
    obtain ⟨result, buffer', a', b', hdeliver, hdeliver', halike⟩ := h.deliver buffer
    rw [pollRead_of_unread hsize hunread, pollRead_of_unread hsize hunread', hdeliver, hdeliver']
    exact ⟨_, _, _, _, rfl, rfl, halike⟩

/-- A request to the source itself comes to the same for both. -/
theorem pollSource (h : a.Alike b) (buffer : Bytes) :
    ∃ p buffer' a' b', a.pollSource buffer = ⟨p, buffer', a'⟩ ∧
      b.pollSource buffer = ⟨p, buffer', b'⟩ ∧ a'.Alike b' := by
  obtain ⟨answer, source, hpoll⟩ :
      ∃ answer source, PolledSource.poll a.source buffer.size = (answer, source) := ⟨_, _, rfl⟩
  have halike : Alike { a with source } { b with source } :=
    ⟨h.config_eq, h.capacity_eq, h.unread_eq, rfl⟩
  simp only [Reader.pollSource, ← h.source_eq, hpoll]
  rcases answer with _ | ⟨written, count⟩ | cause
  · exact ⟨_, _, _, _, rfl, rfl, halike⟩
  · exact ⟨_, _, _, _, rfl, rfl, halike⟩
  · exact ⟨_, _, _, _, rfl, rfl, halike⟩

/-- Both take the same byte. -/
theorem pop (h : a.Alike b) : a.window.pop.1 = b.window.pop.1 ∧
    (a.withWindow a.window.pop.2).Alike (b.withWindow b.window.pop.2) := by
  constructor
  · rw [Window.pop_fst, Window.pop_fst, h.unread_eq]
  · rw [Window.pop_snd, Window.pop_snd]
    exact h.skip 1

/-- An attempt at a read of one byte comes to the same for both. -/
theorem readByte (h : a.Alike b) :
    ∃ p a' b', a.pollByte = (p, a') ∧ b.pollByte = (p, b') ∧ a'.Alike b' := by
  by_cases hunread : a.window.toList = []
  · have hunread' : b.window.toList = [] := by rw [← h.unread_eq, hunread]
    obtain ⟨p, a', b', hrefill, hrefill', halike⟩ := h.refill hunread
    cases p with
    | pending =>
      exact ⟨_, _, _, pollByte_of_pending hunread hrefill,
        pollByte_of_pending hunread' hrefill', halike⟩
    | ready outcome =>
      rw [pollByte_of_refill hunread hrefill, pollByte_of_refill hunread' hrefill']
      cases outcome with
      | error e => exact ⟨_, _, _, rfl, rfl, halike⟩
      | ok fill =>
        obtain ⟨hbyte, halike'⟩ := halike.pop
        simp only [byteBehind, hbyte]
        exact ⟨_, _, _, rfl, rfl, halike'⟩
  · have hunread' : b.window.toList ≠ [] := by rwa [← h.unread_eq]
    obtain ⟨hbyte, halike⟩ := h.pop
    rw [pollByte_of_unread hunread, pollByte_of_unread hunread', hbyte]
    exact ⟨_, _, _, rfl, rfl, halike⟩

/-- An attempt at a look at the unread bytes comes to the same for both. -/
theorem fillBuffer (h : a.Alike b) :
    ∃ p a' b', a.pollFillBuffer = (p, a') ∧ b.pollFillBuffer = (p, b') ∧ a'.Alike b' := by
  by_cases hunread : a.window.toList = []
  · have hunread' : b.window.toList = [] := by rw [← h.unread_eq, hunread]
    obtain ⟨p, a', b', hrefill, hrefill', halike⟩ := h.refill hunread
    cases p with
    | pending =>
      exact ⟨_, _, _, pollFillBuffer_of_pending hunread hrefill,
        pollFillBuffer_of_pending hunread' hrefill', halike⟩
    | ready outcome =>
      rw [pollFillBuffer_of_refill hunread hrefill, pollFillBuffer_of_refill hunread' hrefill']
      cases outcome with
      | error e => exact ⟨_, _, _, rfl, rfl, halike⟩
      | ok fill =>
        simp only [unreadBehind, halike.unread]
        exact ⟨_, _, _, rfl, rfl, halike⟩
  · have hunread' : b.window.toList ≠ [] := by rwa [← h.unread_eq]
    rw [pollFillBuffer_of_unread hunread, pollFillBuffer_of_unread hunread', h.unread]
    exact ⟨_, _, _, rfl, rfl, h⟩

/-- An attempt to fill a buffer comes to the same for both. -/
theorem exact (h : a.Alike b) (done rest : Bytes) :
    ∃ p done' rest' a' b', a.pollExact done rest = ⟨p, done', rest', a'⟩ ∧
      b.pollExact done rest = ⟨p, done', rest', b'⟩ ∧ a'.Alike b' := by
  induction hn : rest.size using Nat.strongRecOn generalizing a b done rest with
  | ind n ih =>
    by_cases hsize : rest.size = 0
    · rw [pollExact_of_full a done hsize, pollExact_of_full b done hsize]
      exact ⟨_, _, _, _, _, rfl, rfl, h⟩
    · have hkept := size_buffer_pollRead a rest
      obtain ⟨p, buffer, a', b', hread, hread', halike⟩ := h.read rest
      rw [hread] at hkept
      rw [pollExact_eq a done hsize, pollExact_eq b done hsize, hread, hread']
      rcases p with _ | e | count
      · exact ⟨_, _, _, _, _, rfl, rfl, halike⟩
      · exact ⟨_, _, _, _, _, rfl, rfl, halike⟩
      · by_cases hz : count = 0
        · simp only [if_pos hz]
          exact ⟨_, _, _, _, _, rfl, rfl, halike⟩
        · have hlt : (buffer.extract count buffer.size).size < n := by
            have hkept : buffer.size = rest.size := hkept
            rw [Array.size_extract]
            omega
          simp only [if_neg hz]
          by_cases hover : rest.size < count ∧ wordSize ≤ done.size + count
          · simp only [if_pos hover]
            exact ⟨_, _, _, _, _, rfl, rfl, halike⟩
          · simp only [if_neg hover]
            exact ih _ hlt halike _ _ rfl

end Alike

end Reader

/-! ### Delimiter reads -/

/-- Two searches agree if they look for the same delimiter up to the same limit, and have taken as
many bytes unless there is no limit. -/
structure Scan.Agrees (scan scan' : Scan) : Prop where
  delim_eq : scan.delim = scan'.delim
  limit_eq : scan.limit = scan'.limit
  taken_eq : scan.limit = none ∨ scan.taken = scan'.taken

namespace Scan.Agrees

variable {scan scan' : Scan}

theorem refl (scan : Scan) : scan.Agrees scan := ⟨rfl, rfl, .inr rfl⟩

theorem trans {scan'' : Scan} (h : scan.Agrees scan') (h' : scan'.Agrees scan'') :
    scan.Agrees scan'' := by
  refine ⟨h.delim_eq.trans h'.delim_eq, h.limit_eq.trans h'.limit_eq, ?_⟩
  rcases h.taken_eq with hnone | htaken
  · exact .inl hnone
  · rcases h'.taken_eq with hnone | htaken'
    · exact .inl (h.limit_eq.trans hnone)
    · exact .inr (htaken.trans htaken')

theorem add (h : scan.Agrees scan') (count : Nat) : (scan.add count).Agrees (scan'.add count) :=
  ⟨h.delim_eq, h.limit_eq, h.taken_eq.imp id (congrArg (· + count))⟩

theorem unmet_eq (h : scan.Agrees scan') : scan.unmet = scan'.unmet := by
  unfold unmet
  rw [← h.limit_eq]
  rcases h.taken_eq with hnone | htaken
  · rw [hnone]
  · rw [htaken]

/-- Searches that agree make the same of the same bytes. -/
theorem walk_eq (h : scan.Agrees scan') (bytes : List UInt8) :
    scan.walk bytes = scan'.walk bytes := by
  induction bytes generalizing scan scan' with
  | nil => simp only [walk, h.unmet_eq]
  | cons byte bytes ih => simp only [walk, h.unmet_eq, h.delim_eq, ih (h.add 1)]

/-- A step of searches that agree, over windows with the same unread bytes, comes to the same. Each
adds the same bytes to its accumulator. -/
theorem advance_eq (h : scan.Agrees scan') {w w' : Window} (hunread : w.toList = w'.toList)
    (front out : Bytes) :
    (scan.advance w (front ++ out)).verdict = (scan'.advance w' out).verdict ∧
      (scan.advance w (front ++ out)).scan.Agrees (scan'.advance w' out).scan ∧
      (scan.advance w (front ++ out)).window.toList = (scan'.advance w' out).window.toList ∧
      (scan.advance w (front ++ out)).out = front ++ (scan'.advance w' out).out := by
  obtain ⟨hverdict, hscan, hrest, hout⟩ := scan.advance_eq_walk w (front ++ out)
  obtain ⟨hverdict', hscan', hrest', hout'⟩ := scan'.advance_eq_walk w' out
  have hwalk : scan.walk w.toList = scan'.walk w'.toList := by rw [hunread, h.walk_eq]
  rw [hwalk] at hverdict hscan hrest hout
  refine ⟨hverdict.trans hverdict'.symm, ?_, hrest.trans hrest'.symm, ?_⟩
  · rw [hscan, hscan']
    exact h.add _
  · apply Array.toList_inj.1
    rw [hout, Array.toList_append, Array.toList_append, hout', List.append_assoc]

end Scan.Agrees

namespace Reader

/-- A step of a search does not raise the stock. -/
theorem pollStock_advance_le {σ : Type} [FinitePolledSource σ] (r : Reader σ) (scan : Scan)
    (out : Bytes) :
    (r.withWindow (scan.advance r.window out).window).pollStock ≤ r.pollStock :=
  Window.stock_le_of_buffered_le (scan.advance_keeps r.window out).2.2
    (scan.buffered_advance_le r.window out)

/-- An attempt at a delimiter read comes to the same for both. What stands in one accumulator in
front of the other stays there, and the numbers of rounds do not matter if they are enough. -/
theorem Alike.line {a b : Reader Script} (h : a.Alike b) {scan scan' : Scan}
    (hscan : scan.Agrees scan') (front out : Bytes) {rounds rounds' : Nat}
    (hrounds : a.pollStock < rounds) (hrounds' : a.pollStock < rounds') :
    ∃ x y, pollLineWithin rounds a scan (front ++ out) = some x ∧
      pollLineWithin rounds' b scan' out = some y ∧ x.result = y.result ∧
      x.scan.Agrees y.scan ∧ x.out = front ++ y.out ∧ x.reader.Alike y.reader := by
  -- the searches agree after each round, and the stock falls
  induction rounds generalizing a b scan scan' out rounds' with
  | zero => exact absurd hrounds (Nat.not_lt_zero _)
  | succ rounds ih =>
    obtain ⟨more, rfl⟩ := Nat.exists_eq_succ_of_ne_zero (Nat.ne_zero_of_lt hrounds')
    obtain ⟨hverdict, hagrees, hrest, hout⟩ := hscan.advance_eq h.unread_eq front out
    have hcap := (scan.advance_keeps a.window (front ++ out)).2.2
    have hcap' := (scan'.advance_keeps b.window out).2.2
    have hsearched := h.withWindow (hcap.trans (h.capacity_eq.trans hcap'.symm)) hrest
    cases hv : (scan'.advance b.window out).verdict with
    | found =>
      exact ⟨_, _, pollLineWithin_of_found (hverdict.trans hv), pollLineWithin_of_found hv, rfl,
        hagrees, hout, hsearched⟩
    | overlong limit =>
      exact ⟨_, _, pollLineWithin_of_overlong (hverdict.trans hv), pollLineWithin_of_overlong hv,
        rfl, hagrees, hout, hsearched⟩
    | starved =>
      have hv' := hverdict.trans hv
      have hdry : (a.withWindow (scan.advance a.window (front ++ out)).window).window.toList = [] :=
        Scan.toList_advance_of_starved hv'
      obtain ⟨p, a', b', hrefill, hrefill', halike⟩ := hsearched.refill hdry
      cases p with
      | pending =>
        exact ⟨_, _, pollLineWithin_of_pending hv' hrefill, pollLineWithin_of_pending hv hrefill',
          rfl, hagrees, hout, halike⟩
      | ready outcome =>
        rw [pollLineWithin_of_refill hv' hrefill, pollLineWithin_of_refill hv hrefill']
        rcases outcome with e | count | _ | _
        · exact ⟨_, _, rfl, rfl, rfl, hagrees, hout, halike⟩
        · have hle := a.pollStock_advance_le scan (front ++ out)
          have hlt := pollStock_refill_lt (.inr ⟨count, congrArg Prod.fst hrefill⟩)
          rw [hrefill] at hlt
          have hstock : a'.pollStock < a.pollStock := Nat.lt_of_lt_of_le hlt hle
          simp only [pollLineBehind, hout]
          exact ih halike hagrees _ (by omega) (by omega)
        · exact ⟨_, _, rfl, rfl, rfl, hagrees, hout, halike⟩
        · exact ⟨_, _, rfl, rfl, rfl, hagrees, hout, halike⟩

end Reader

/-! ### Attempts -/

/-- Two loops of attempts come to the same if each attempt does, as long as it is put off in a state
where the next one does. -/
theorem Poll.drive_pair {ς τ α : Type} {attempt : ς → Option (Poll α × ς)}
    {attempt' : τ → Option (Poll α × τ)} {R Q : ς → τ → Prop} (hend : ∀ s t, R s t → Q s t)
    (hstep : ∀ s t, R s t → ∃ p s' t', attempt s = some (p, s') ∧ attempt' t = some (p, t') ∧
      Q s' t' ∧ (p = .pending → R s' t')) {s : ς} {t : τ} (h : R s t) (attempts made : Nat) :
    ∃ p total s' t', drive attempt attempts made s = some (p, total, s') ∧
      drive attempt' attempts made t = some (p, total, t') ∧ Q s' t' := by
  induction attempts generalizing made s t with
  | zero => exact ⟨_, _, _, _, rfl, rfl, hend s t h⟩
  | succ attempts ih =>
    obtain ⟨p, s', t', hs, ht, hlast, hnext⟩ := hstep s t h
    simp only [drive, hs, ht]
    cases p with
    | pending => exact ih (hnext rfl) (made + 1)
    | ready a => exact ⟨_, _, _, _, rfl, rfl, hlast⟩

namespace PolledSession

open Reader

variable {a b : Reader Script}

/-- The attempts of a read that works on a buffer come to the same for both. -/
theorem driveBuffer_alike {α : Type}
    {attempt : Reader Script → Bytes → Call (Reader Script) (Poll α)}
    (hattempt : ∀ {a b : Reader Script}, a.Alike b → ∀ buffer, ∃ p buffer' a' b',
      attempt a buffer = ⟨p, buffer', a'⟩ ∧ attempt b buffer = ⟨p, buffer', b'⟩ ∧ a'.Alike b')
    (h : a.Alike b) (attempts : Nat) (buffer : Bytes) :
    ∃ p made buffer' a' b', driveBuffer attempt attempts a buffer = some (p, made, buffer', a') ∧
      driveBuffer attempt attempts b buffer = some (p, made, buffer', b') ∧ a'.Alike b' := by
  obtain ⟨p, made, ⟨buffer', a'⟩, ⟨buffer'', b'⟩, hs, ht, rfl, halike⟩ : ∃ p made s t,
      driveBuffer attempt attempts a buffer = some (p, made, s) ∧
      driveBuffer attempt attempts b buffer = some (p, made, t) ∧ s.1 = t.1 ∧ s.2.Alike t.2 := by
    refine Poll.drive_pair (fun _ _ hkept => hkept) ?_ ⟨rfl, h⟩ attempts 0
    rintro ⟨held, a⟩ ⟨held', b⟩ ⟨rfl, halike⟩
    obtain ⟨p, buffer', a', b', ha, hb, halike'⟩ := hattempt halike held
    refine ⟨p, (buffer', a'), (buffer', b'), ?_, ?_, ⟨rfl, halike'⟩, fun _ => ⟨rfl, halike'⟩⟩
    · simp only [ha]
    · simp only [hb]
  exact ⟨_, _, _, _, _, hs, ht, halike⟩

/-- The attempts of a read that works on the reader alone come to the same for both. -/
theorem driveReader_alike {α : Type} {attempt : Reader Script → Poll α × Reader Script}
    (hattempt : ∀ {a b : Reader Script}, a.Alike b → ∃ p a' b',
      attempt a = (p, a') ∧ attempt b = (p, b') ∧ a'.Alike b')
    (h : a.Alike b) (attempts : Nat) :
    ∃ p made a' b', driveReader attempt attempts a = some (p, made, a') ∧
      driveReader attempt attempts b = some (p, made, b') ∧ a'.Alike b' := by
  refine Poll.drive_pair (fun _ _ hkept => hkept) ?_ h attempts 0
  intro a b halike
  obtain ⟨p, a', b', ha, hb, halike'⟩ := hattempt halike
  exact ⟨p, a', b', congrArg some ha, congrArg some hb, halike', fun _ => halike'⟩

/-- The attempts of a read that fills a buffer come to the same for both. -/
theorem driveExact_alike (h : a.Alike b) (attempts : Nat) (buffer : Bytes) :
    ∃ p made held a' b', driveExact attempts a buffer = some (p, made, held, a') ∧
      driveExact attempts b buffer = some (p, made, held, b') ∧ a'.Alike b' := by
  obtain ⟨p, made, ⟨held, a'⟩, ⟨held', b'⟩, hs, ht, rfl, halike⟩ : ∃ p made s t,
      driveExact attempts a buffer = some (p, made, s) ∧
      driveExact attempts b buffer = some (p, made, t) ∧ s.1 = t.1 ∧ s.2.Alike t.2 := by
    refine Poll.drive_pair (fun _ _ hkept => hkept) ?_ ⟨rfl, h⟩ attempts 0
    rintro ⟨⟨done, rest⟩, a⟩ ⟨held, b⟩ ⟨rfl, halike⟩
    obtain ⟨p, done', rest', a', b', ha, hb, halike'⟩ := halike.exact done rest
    refine ⟨p, ((done', rest'), a'), ((done', rest'), b'), ?_, ?_, ⟨rfl, halike'⟩,
      fun _ => ⟨rfl, halike'⟩⟩
    · simp only [ha]
    · simp only [hb]
  exact ⟨_, _, _, _, _, hs, ht, halike⟩

/-- One of the attempts of a delimiter read. -/
def attemptLine (rounds : Nat) (s : (Scan × Bytes) × Reader Script) :
    Option (Poll (Except ReadError Bool) × (Scan × Bytes) × Reader Script) :=
  (pollLineWithin rounds s.2 s.1.1 s.1.2).map fun attempt =>
    (attempt.result, (attempt.scan, attempt.out), attempt.reader)

/-- A delimiter read is attempted from the start of a search on. -/
theorem driveLine_eq (rounds attempts : Nat) (r : Reader Script) (delim : UInt8) (out : Bytes) :
    driveLine rounds attempts r delim out =
      Poll.drive (attemptLine rounds) attempts 0 ((.start delim r.config.lineLimit, out), r) := rfl

/-- The attempts of a delimiter read come to the same for both, also if they begin with searches
that agree. What stands in one accumulator in front of the other stays there. -/
theorem driveLine_alike (h : a.Alike b) {scan scan' : Scan} (hscan : scan.Agrees scan')
    (front out : Bytes) {rounds rounds' : Nat} (hrounds : a.pollStock < rounds)
    (hrounds' : a.pollStock < rounds') (attempts made : Nat) :
    ∃ p total s t,
      Poll.drive (attemptLine rounds) attempts made ((scan, front ++ out), a) = some (p, total, s) ∧
      Poll.drive (attemptLine rounds') attempts made ((scan', out), b) = some (p, total, t) ∧
      s.1.2 = front ++ t.1.2 ∧ s.2.Alike t.2 := by
  refine Poll.drive_pair
    (R := fun (s t : (Scan × Bytes) × Reader Script) => s.1.1.Agrees t.1.1 ∧
      s.2.pollStock < rounds ∧ s.2.pollStock < rounds' ∧ s.1.2 = front ++ t.1.2 ∧ s.2.Alike t.2)
    (fun _ _ hkept => hkept.2.2.2) ?_ ⟨hscan, hrounds, hrounds', rfl, h⟩ attempts made
  rintro ⟨⟨scan, held⟩, a⟩ ⟨⟨scan', held'⟩, b⟩ ⟨hagrees, hlt, hlt', rfl, halike⟩
  obtain ⟨x, y, hx, hy, hresult, hagrees', hout, halike'⟩ :=
    halike.line hagrees front held' hlt hlt'
  refine ⟨x.result, ((x.scan, x.out), x.reader), ((y.scan, y.out), y.reader), ?_, ?_,
    ⟨hout, halike'⟩, fun hpending => ?_⟩
  · rw [attemptLine, hx]
    rfl
  · rw [attemptLine, hy, hresult]
    rfl
  · have hfall := pollStock_lineWithin_lt hx (.inl hpending)
    exact ⟨hagrees', Nat.lt_trans hfall hlt, Nat.lt_trans hfall hlt', hout, halike'⟩

/-- The attempts of a delimiter read come to the same for both. -/
theorem driveLine_same (h : a.Alike b) (delim : UInt8) (out : Bytes) {rounds : Nat}
    (hrounds : a.pollStock < rounds) (attempts : Nat) :
    ∃ p made scan scan' held a' b',
      driveLine rounds attempts a delim out = some (p, made, (scan, held), a') ∧
      driveLine rounds attempts b delim out = some (p, made, (scan', held), b') ∧
      a'.Alike b' := by
  have hscan : (Scan.start delim a.config.lineLimit).Agrees (.start delim b.config.lineLimit) := by
    rw [h.config_eq]
    exact .refl _
  obtain ⟨p, made, ⟨⟨scan, held⟩, a'⟩, ⟨⟨scan', held'⟩, b'⟩, ha, hb, hheld, halike⟩ :=
    driveLine_alike h hscan #[] out hrounds hrounds attempts 0
  obtain rfl : held = held' := by
    have hheld : held = #[] ++ held' := hheld
    rwa [Array.empty_append] at hheld
  rw [Array.empty_append] at ha
  exact ⟨_, _, _, _, _, _, _, ha, hb, halike⟩

end PolledSession

/-! ### Streams of lines -/

/-- Two streams of lines over a script are alike: their readers are, and so is the line under
way. -/
structure LineStream.Alike (a b : LineStream Script) : Prop where
  reader : a.reader.Alike b.reader
  delim_eq : a.delim = b.delim
  scan : a.scan.Agrees b.scan
  pending_eq : a.pending = b.pending
  finished_eq : a.finished = b.finished

namespace LineStream

variable {a b : LineStream Script}

theorem Alike.trans {c : LineStream Script} (h : a.Alike b) (h' : b.Alike c) : a.Alike c :=
  ⟨h.reader.trans h'.reader, h.delim_eq.trans h'.delim_eq, h.scan.trans h'.scan,
    h.pending_eq.trans h'.pending_eq, h.finished_eq.trans h'.finished_eq⟩

/-- Readers that are alike have streams of lines that are alike. -/
theorem Alike.lines {a b : Reader Script} (h : a.Alike b) (delim : UInt8) :
    (a.lines delim).Alike (b.lines delim) := by
  refine ⟨h, rfl, ?_, rfl, rfl⟩
  rw [Reader.lines, Reader.lines, h.config_eq]
  exact .refl _

/-- An attempt at the next item comes to the same for both. -/
theorem Alike.next (h : a.Alike b) {rounds : Nat}
    (hrounds : a.finished = true ∨ a.reader.pollStock < rounds) :
    ∃ p a' b', a.pollNextWithin rounds = some (p, a') ∧ b.pollNextWithin rounds = some (p, b') ∧
      a'.Alike b' := by
  unfold pollNextWithin
  rw [← h.finished_eq, ← h.delim_eq]
  by_cases hfinished : a.finished = true
  · rw [if_pos hfinished, if_pos hfinished]
    exact ⟨_, _, _, rfl, rfl, h⟩
  · have hlt := hrounds.resolve_left hfinished
    obtain ⟨x, y, hx, hy, hresult, hagrees, hout, halike⟩ :=
      h.reader.line h.scan #[] b.pending hlt hlt
    rw [Array.empty_append] at hx hout
    rw [if_neg hfinished, if_neg hfinished, h.pending_eq, hx, hy]
    obtain ⟨result, scan, out, reader⟩ := x
    obtain ⟨result', scan', out', reader'⟩ := y
    obtain rfl : result = result' := hresult
    obtain rfl : out = out' := hout
    have hreset : scan.reset.Agrees scan'.reset :=
      ⟨hagrees.delim_eq, hagrees.limit_eq, .inr rfl⟩
    rcases result with _ | e | complete
    · exact ⟨_, _, _, rfl, rfl, halike, rfl, hagrees, rfl, rfl⟩
    · exact ⟨_, _, _, rfl, rfl, halike, rfl, hreset, rfl, rfl⟩
    · cases complete with
      | true => exact ⟨_, _, _, rfl, rfl, halike, rfl, hreset, rfl, rfl⟩
      | false => exact ⟨_, _, _, rfl, rfl, halike, rfl, hreset, rfl, rfl⟩

/-- Attempts at all items come to the same for both. -/
theorem Alike.harvest (h : a.Alike b) {rounds : Nat}
    (hrounds : a.finished = true ∨ a.reader.pollStock < rounds) (attempts : Nat)
    (items : Array Item) (made : Nat) :
    ∃ x y, harvestWithin rounds attempts items made a = some x ∧
      harvestWithin rounds attempts items made b = some y ∧ x.items = y.items ∧
      x.ended = y.ended ∧ x.stream.Alike y.stream := by
  induction attempts generalizing a b items made with
  | zero => exact ⟨_, _, rfl, rfl, rfl, rfl, h⟩
  | succ attempts ih =>
    obtain ⟨p, a', b', ha, hb, halike⟩ := h.next hrounds
    have hrounds' : a'.finished = true ∨ a'.reader.pollStock < rounds := by
      by_cases hfinished : a.finished = true
      · rw [pollNextWithin, if_pos hfinished] at ha
        obtain ⟨-, rfl⟩ := Prod.mk.inj (Option.some.inj ha)
        exact .inl hfinished
      · have hlt := hrounds.resolve_left hfinished
        exact (finished_or_pollStock_lt ha).imp id fun hfall => Nat.lt_trans hfall hlt
    simp only [harvestWithin, ha, hb]
    rcases p with _ | _ | item
    · exact ih halike hrounds' items (made + 1)
    · exact ⟨_, _, rfl, rfl, rfl, rfl, halike⟩
    · exact ih halike hrounds' (items.push item) (made + 1)

end LineStream

/-! ### Sessions -/

namespace PolledSession

/-- Whether a word reaches to the place up to which an operation passes over bytes of the reader. -/
def InReach {σ : Type} (s : PolledSession σ) (op : Operation) : Prop :=
  ∀ r ∈ s.reader?, op.InReach r.window.readPos

/-- Whether a word reaches to every such place, if operations are carried out in turn, each
attempted as often as said. -/
def AllInReach {σ : Type} [FinitePolledSource σ] (s : PolledSession σ) :
    List (Operation × Nat) → Prop
  | [] => True
  | (op, attempts) :: ops => s.InReach op ∧ (s.perform attempts op).session.AllInReach ops

instance {σ : Type} (s : PolledSession σ) (op : Operation) : Decidable (s.InReach op) :=
  inferInstanceAs (Decidable (∀ r ∈ s.reader?, op.InReach r.window.readPos))

instance decidableAllInReach {σ : Type} [FinitePolledSource σ] :
    (s : PolledSession σ) → (ops : List (Operation × Nat)) → Decidable (s.AllInReach ops)
  | _, [] => inferInstanceAs (Decidable True)
  | s, (op, attempts) :: ops =>
    have := decidableAllInReach (s.perform attempts op).session ops
    inferInstanceAs (Decidable (s.InReach op ∧ (s.perform attempts op).session.AllInReach ops))

end PolledSession

/-- Two sessions over a script are alike: what they hold is alike, and the accumulator is the
same. -/
inductive PolledSession.Alike : PolledSession Script → PolledSession Script → Prop
  /-- Both hold a reader. -/
  | reader {a b : Reader Script} (h : a.Alike b) (out : Bytes) :
    Alike ⟨.reader a, out⟩ ⟨.reader b, out⟩
  /-- Both hold the lines of a reader. -/
  | stream {a b : LineStream Script} (h : a.Alike b) (out : Bytes) :
    Alike ⟨.stream a, out⟩ ⟨.stream b, out⟩
  /-- Both hold a bare source. -/
  | source (source : Script) (out : Bytes) : Alike ⟨.source source, out⟩ ⟨.source source, out⟩

/-- Two performances are alike: the reply is the same, and the sessions behind it are alike. -/
structure Performance.Alike (p q : Performance Script) : Prop where
  reply_eq : p.reply = q.reply
  session : p.session.Alike q.session

namespace PolledSession

open Reader

section Reader

variable {a b : Reader Script}

/-- The attempts at the next item come to the same for both. -/
theorem driveNext_alike {a b : LineStream Script} (h : a.Alike b) {rounds : Nat}
    (hrounds : a.reader.pollStock < rounds) (attempts : Nat) :
    ∃ p made a' b', driveNext rounds attempts a = some (p, made, a') ∧
      driveNext rounds attempts b = some (p, made, b') ∧ a'.Alike b' := by
  refine Poll.drive_pair
    (R := fun (s t : LineStream Script) =>
      s.Alike t ∧ (s.finished = true ∨ s.reader.pollStock < rounds))
    (fun _ _ hkept => hkept.1) ?_ ⟨h, .inr hrounds⟩ attempts 0
  rintro s t ⟨halike, hlt⟩
  obtain ⟨p, s', t', hs, ht, halike'⟩ := halike.next hlt
  refine ⟨p, s', t', hs, ht, halike', fun hpending => ⟨halike', ?_⟩⟩
  by_cases hfinished : s.finished = true
  · rw [LineStream.pollNextWithin, if_pos hfinished, hpending] at hs
    simp at hs
  · have hlt' := hlt.resolve_left hfinished
    exact (LineStream.finished_or_pollStock_lt hs).imp id fun hfall => Nat.lt_trans hfall hlt'

/-- Every operation on readers that are alike, in reach of both, comes to the same. -/
theorem onReader_alike (h : a.Alike b) (out : Bytes) {rounds : Nat} (hrounds : a.pollStock < rounds)
    (attempts : Nat) {op : Operation} (ha : op.InReach a.window.readPos)
    (hb : op.InReach b.window.readPos) :
    ∃ p q, onReader rounds attempts ⟨.reader a, out⟩ a op = some p ∧
      onReader rounds attempts ⟨.reader b, out⟩ b op = some q ∧ p.Alike q := by
  cases op with
  | read buffer =>
    obtain ⟨p, made, buffer', a', b', ha, hb, halike⟩ :=
      driveBuffer_alike Reader.Alike.read h attempts buffer
    exact ⟨_, _, congrArg (Option.map _) ha, congrArg (Option.map _) hb, rfl,
      .reader halike out⟩
  | readPlain buffer =>
    obtain ⟨p, made, buffer', a', b', ha, hb, halike⟩ :=
      driveBuffer_alike Reader.Alike.read h attempts buffer
    exact ⟨_, _, congrArg (Option.map _) ha, congrArg (Option.map _) hb, rfl,
      .reader halike out⟩
  | readSource buffer =>
    obtain ⟨p, made, buffer', a', b', ha, hb, halike⟩ :=
      driveBuffer_alike Reader.Alike.pollSource h attempts buffer
    exact ⟨_, _, congrArg (Option.map _) ha, congrArg (Option.map _) hb, rfl,
      .reader halike out⟩
  | readExact buffer =>
    obtain ⟨p, made, held, a', b', ha, hb, halike⟩ := driveExact_alike h attempts buffer
    exact ⟨_, _, congrArg (Option.map _) ha, congrArg (Option.map _) hb, rfl,
      .reader halike out⟩
  | readByte =>
    obtain ⟨p, made, a', b', ha, hb, halike⟩ := driveReader_alike Reader.Alike.readByte h attempts
    exact ⟨_, _, congrArg (Option.map _) ha, congrArg (Option.map _) hb, rfl,
      .reader halike out⟩
  | fillBuffer =>
    obtain ⟨p, made, a', b', ha, hb, halike⟩ := driveReader_alike Reader.Alike.fillBuffer h attempts
    exact ⟨_, _, congrArg (Option.map _) ha, congrArg (Option.map _) hb, rfl,
      .reader halike out⟩
  | readLine delim =>
    obtain ⟨p, made, scan, scan', held, a', b', ha, hb, halike⟩ :=
      driveLine_same h delim #[] hrounds attempts
    exact ⟨_, _, congrArg (Option.map _) ha, congrArg (Option.map _) hb, rfl,
      .reader halike out⟩
  | readLineInto delim =>
    obtain ⟨p, made, scan, scan', held, a', b', ha, hb, halike⟩ :=
      driveLine_same h delim out hrounds attempts
    exact ⟨_, _, congrArg (Option.map _) ha, congrArg (Option.map _) hb, rfl,
      .reader halike held⟩
  | consume count =>
    rw [onReader_consume, passOver_of_lt _ ha, onReader_consume, passOver_of_lt _ hb]
    exact ⟨_, _, rfl, rfl, rfl, .reader (h.skip count) out⟩
  | unread =>
    refine ⟨_, _, rfl, rfl, ?_, .reader h out⟩
    exact congrArg Reply.bytes h.unread
  | describe => exact ⟨_, _, rfl, rfl, rfl, .reader h out⟩
  | split delim => exact ⟨_, _, rfl, rfl, rfl, .stream (.lines h delim) out⟩
  | release =>
    refine ⟨_, _, rfl, rfl, rfl, ?_⟩
    rw [withSource, withSource, h.source_eq]
    exact .source b.source out
  | fill | readUntil | wrap | next | collect | delimiter | reclaim | takeOut =>
    exact ⟨_, _, rfl, rfl, rfl, .reader h out⟩

end Reader

/-- Every operation on streams of lines that are alike comes to the same. -/
theorem onStream_alike {a b : LineStream Script} (h : a.Alike b) (out : Bytes) {rounds : Nat}
    (hrounds : a.reader.pollStock < rounds) (attempts : Nat) (op : Operation) :
    ∃ p q, onStream rounds attempts ⟨.stream a, out⟩ a op = some p ∧
      onStream rounds attempts ⟨.stream b, out⟩ b op = some q ∧ p.Alike q := by
  cases op with
  | next =>
    obtain ⟨p, made, a', b', ha, hb, halike⟩ := driveNext_alike h hrounds attempts
    exact ⟨_, _, congrArg (Option.map _) ha, congrArg (Option.map _) hb, rfl,
      .stream halike out⟩
  | collect =>
    obtain ⟨x, y, hx, hy, hitems, hended, halike⟩ :=
      h.harvest (.inr hrounds) attempts #[] 0
    refine ⟨_, _, congrArg (Option.map _) hx, congrArg (Option.map _) hy, ?_,
      .stream halike out⟩
    simp only [hitems, hended]
  | delimiter =>
    refine ⟨_, _, rfl, rfl, ?_, .stream h out⟩
    exact congrArg Reply.delimiter h.delim_eq
  | reclaim => exact ⟨_, _, rfl, rfl, rfl, .reader h.reader out⟩
  | read | readPlain | readSource | readExact | fill | readByte | readLine | readLineInto |
    readUntil | fillBuffer | consume | unread | describe | split | release | wrap | takeOut =>
    exact ⟨_, _, rfl, rfl, rfl, .stream h out⟩

/-- Sessions are alike to themselves. -/
theorem Alike.refl (s : PolledSession Script) : s.Alike s := by
  obtain ⟨holding, out⟩ := s
  cases holding with
  | reader r => exact .reader (.refl r) out
  | stream s => exact .stream ⟨.refl _, rfl, .refl _, rfl, rfl⟩ out
  | source source => exact .source source out

namespace Alike

variable {s t : PolledSession Script}

theorem trans {u : PolledSession Script} (h : s.Alike t) (h' : t.Alike u) : s.Alike u := by
  cases h with
  | reader h out =>
    cases h' with
    | reader h' out => exact .reader (h.trans h') out
  | stream h out =>
    cases h' with
    | stream h' out => exact .stream (h.trans h') out
  | source source out =>
    cases h' with
    | source source out => exact .source source out

theorem rounds_eq (h : s.Alike t) : s.rounds = t.rounds := by
  cases h with
  | reader h out => exact congrArg (· + 1) h.pollStock_eq
  | stream h out => exact congrArg (· + 1) h.reader.pollStock_eq
  | source source out => rfl

/-- Every operation on sessions that are alike, in reach of both, comes to the same. -/
theorem perform (h : s.Alike t) (attempts : Nat) {op : Operation} (hs : s.InReach op)
    (ht : t.InReach op) : (s.perform attempts op).Alike (t.perform attempts op) := by
  have hperform : s.performWithin s.rounds attempts op = some (s.perform attempts op) :=
    (Option.some_get _).symm
  have hperform' : t.performWithin t.rounds attempts op = some (t.perform attempts op) :=
    (Option.some_get _).symm
  suffices hboth : ∃ p q, s.performWithin s.rounds attempts op = some p ∧
      t.performWithin t.rounds attempts op = some q ∧ p.Alike q by
    obtain ⟨p, q, hp, hq, halike⟩ := hboth
    rw [hperform] at hp
    rw [hperform'] at hq
    rwa [Option.some.inj hp, Option.some.inj hq]
  rw [← h.rounds_eq]
  clear hperform hperform'
  by_cases htake : op = .takeOut
  · subst htake
    cases h with
    | reader h out => exact ⟨_, _, rfl, rfl, rfl, .reader h #[]⟩
    | stream h out => exact ⟨_, _, rfl, rfl, rfl, .stream h #[]⟩
    | source source out => exact ⟨_, _, rfl, rfl, rfl, .source source #[]⟩
  · unfold performWithin
    rw [if_neg htake, if_neg htake]
    cases h with
    | reader h out =>
      exact onReader_alike h out (Nat.lt_succ_self _) attempts (hs _ rfl) (ht _ rfl)
    | stream h out => exact onStream_alike h out (Nat.lt_succ_self _) attempts op
    | source source out => exact ⟨_, _, rfl, rfl, rfl, .refl _⟩

/-- Sequences of operations on sessions that are alike are answered the same, and leave sessions
that are alike. -/
theorem performAll (h : s.Alike t) {ops : List (Operation × Nat)} (hs : s.AllInReach ops)
    (ht : t.AllInReach ops) :
    (s.performAll ops).1 = (t.performAll ops).1 ∧
      (s.performAll ops).2.Alike (t.performAll ops).2 := by
  induction ops generalizing s t with
  | nil => exact ⟨rfl, h⟩
  | cons first ops ih =>
    obtain ⟨op, attempts⟩ := first
    obtain ⟨hreply, halike⟩ := h.perform attempts hs.1 ht.1
    obtain ⟨hreplies, hlast⟩ := ih halike hs.2 ht.2
    simp only [PolledSession.performAll, hreply, hreplies, true_and]
    exact hlast

end Alike

end PolledSession

theorem Performance.Alike.trans {p q u : Performance Script} (h : p.Alike q) (h' : q.Alike u) :
    p.Alike u :=
  ⟨h.reply_eq.trans h'.reply_eq, h.session.trans h'.session⟩

end BufferedReading
