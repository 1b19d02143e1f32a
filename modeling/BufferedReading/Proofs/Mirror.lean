import BufferedReading.Proofs.Rounds
import BufferedReading.Proofs.Search
import BufferedReading.Source.Script

/-!
# A polled reader and a reader that waits, side by side

A polled reader over a script mirrors a reader that waits for the script without its delays: the
same bytes are unread at the same place of the window, the same steps are left apart from delays,
and history and journal are the same apart from the contacts that were put off (`Reader.Mirrors`).

An attempt that is put off keeps the reader that waits where it is, but for a window that is compact
now (`Reader.compacted`), and uses up a delay; an attempt that comes to its end makes the same step
as the reader that waits. This is said once for a request that refills the window
(`Reader.Mirrors.refill_cases`) and once for one past it (`Reader.Mirrors.bypass_cases`), and then
for every operation. What an attempt at a loop carries over to the next one is what the loop of the
reader that waits still has to do.
-/

namespace BufferedReading

/-! ### Scripts without delays -/

/-- Whether a step only puts off the next one. -/
def Step.isDelay : Step → Bool
  | .delay _ => true
  | _ => false

namespace Script

/-- The script of a source that is always ready. -/
def withoutDelays (script : Script) : Script := script.filter fun step => !step.isDelay

/-- The number of attempts that a script puts off. -/
def delays : Script → Nat
  | [] => 0
  | .delay times :: rest => times + delays rest
  | _ :: rest => delays rest

/-- A script counts no byte that it has not written, false counts apart. -/
theorem covered_read (script : Script) (n : Nat) : (script.read n).1.Covered n := by
  fun_induction read script n with
  | case1 n => exact fun _ => Nat.le_refl 0
  | case2 bytes rest n hle => exact fun _ => Nat.le_refl _
  | case3 bytes rest n hle => exact fun _ => Nat.le_refl _
  | case4 rest n => exact fun _ => Nat.le_refl 0
  | case5 cause rest n => trivial
  | case6 surplus rest n =>
    intro hle
    rw [Array.size_replicate]
    exact hle
  | case7 times rest n ih => exact ih

/-- A script that is polled puts off the attempt and uses up a delay, or answers as it does without
its delays. -/
theorem poll_cases (script : Script) (n : Nat) :
    (∃ rest : Script, script.poll n = (.pending, rest) ∧
      rest.withoutDelays = script.withoutDelays ∧ rest.delays < script.delays) ∨
    (∃ (answer : Answer) (rest : Script), script.poll n = (.ready answer, rest) ∧
      script.withoutDelays.read n = (answer, rest.withoutDelays) ∧
      rest.delays ≤ script.delays ∧ answer.Covered n) := by
  fun_induction poll script n with
  | case1 rest n ih =>
    have hdelays : delays (.delay 0 :: rest) = delays rest := Nat.zero_add _
    rw [hdelays]
    exact ih
  | case2 times rest n =>
    refine .inl ⟨_, rfl, rfl, ?_⟩
    simp only [delays]
    omega
  | case3 script n hzero hsucc =>
    -- the first step is no delay, so that nothing is passed over
    refine .inr ⟨_, _, rfl, ?_, ?_, covered_read script n⟩
    · cases script with
      | nil => rfl
      | cons step rest =>
        cases step with
        | data bytes =>
          by_cases hle : bytes.size ≤ n <;> simp [withoutDelays, Step.isDelay, read, hle]
        | ended => rfl
        | fail cause => rfl
        | overcount surplus => rfl
        | delay times =>
          cases times with
          | zero => exact absurd rfl (hzero rest)
          | succ times => exact absurd rfl (hsucc times rest)
    · cases script with
      | nil => exact Nat.le_refl _
      | cons step rest =>
        cases step with
        | data bytes =>
          by_cases hle : bytes.size ≤ n <;> simp [delays, read, hle]
        | ended => exact Nat.le_refl _
        | fail cause => exact Nat.le_refl _
        | overcount surplus => exact Nat.le_refl _
        | delay times =>
          cases times with
          | zero => exact absurd rfl (hzero rest)
          | succ times => exact absurd rfl (hsucc times rest)

end Script

/-! ### Compacting ahead of a refill

A refill compacts the window before it asks the source. A reader whose window is empty may do so
ahead of time, as it does when the source puts it off: every read that begins with a refill comes to
the same. -/

namespace Reader

section Compacted

variable {σ : Type}

/-- The reader with its window compacted. -/
def compacted (r : Reader σ) : Reader σ := r.withWindow r.window.compact

@[simp] theorem toList_compacted (r : Reader σ) :
    r.compacted.window.toList = r.window.toList := Window.toList_compact _

variable [ByteSource σ] {r : Reader σ}

theorem refill_compacted (r : Reader σ) : r.compacted.refill = r.refill := by
  unfold refill
  simp only [compacted, withWindow, Window.fillFrom_compact, settle]

theorem read_compacted {buffer : Bytes} (hsize : buffer.size ≠ 0) (h : r.window.toList = [])
    (hcap : ¬ r.capacity ≤ buffer.size) : r.compacted.read buffer = r.read buffer := by
  have hcap' : ¬ r.compacted.capacity ≤ buffer.size := by
    rwa [show r.compacted.capacity = r.capacity from Window.capacity_compact _]
  rw [read_of_refill hsize h hcap rfl,
    read_of_refill hsize ((toList_compacted r).trans h) hcap' (refill_compacted r)]

theorem readByte_compacted (h : r.window.toList = []) : r.compacted.readByte = r.readByte := by
  rw [readByte_of_refill h rfl,
    readByte_of_refill ((toList_compacted r).trans h) (refill_compacted r)]

theorem fillBuffer_compacted (h : r.window.toList = []) :
    r.compacted.fillBuffer = r.fillBuffer := by
  rw [fillBuffer_of_refill h rfl,
    fillBuffer_of_refill ((toList_compacted r).trans h) (refill_compacted r)]

/-- A delimiter read whose search has run out of bytes may be taken up again behind a compaction. -/
theorem lineWithin_compacted {scan : Scan} {out : Bytes}
    (hv : (scan.advance r.window out).verdict = .starved) (rounds : Nat) :
    lineWithin rounds (scan.advance r.window out).scan
        (r.withWindow (scan.advance r.window out).window).compacted
        (scan.advance r.window out).out = lineWithin rounds scan r out := by
  cases rounds with
  | zero => rfl
  | succ rounds =>
    have hnil := Scan.toList_advance_of_starved hv
    rw [lineWithin_of_empty (Scan.unmet_advance_of_starved hv) ((toList_compacted _).trans hnil)
      (refill_compacted _), lineWithin_of_refill hv (Prod.eta _).symm]
    rfl

end Compacted

/-! ### Readers side by side -/

/-- The number of attempts that the source of a reader puts off. -/
def delays (r : Reader (Recorded Script)) : Nat := r.source.source.delays

/-- A polled reader mirrors a reader that waits: all is the same but the delays of the script and
the contacts that were put off. -/
structure Mirrors (a b : Reader (Recorded Script)) : Prop where
  config : a.config = b.config
  capacity : a.capacity = b.capacity
  unread : a.window.toList = b.window.toList
  cursor : a.window.readPos = b.window.readPos
  script : a.source.source.withoutDelays = b.source.source
  history : a.source.history.toList.filter (·.answer.isReady) = b.source.history.toList
  journal : ∃ cs : List Contact, cs.map Contact.exchange <:+ a.source.history.toList ∧
    a.journal.toList = cs.flatMap Contact.records ∧
    (cs.filter (·.answer.isReady)).flatMap Contact.records = b.journal.toList

namespace Mirrors

variable {a b : Reader (Recorded Script)}

/-- A reader built from a script mirrors one built from the script without its delays. -/
theorem build {source source' : Recorded Script}
    (hscript : source.source.withoutDelays = source'.source)
    (hhistory : source.history.toList.filter (·.answer.isReady) = source'.history.toList)
    (config : Config) : (Reader.build source config).Mirrors (Reader.build source' config) :=
  ⟨rfl, rfl, rfl, rfl, hscript, hhistory, [], List.nil_suffix, rfl, rfl⟩

theorem withWindow (h : a.Mirrors b) {w w' : Window} (hcap : w.capacity = w'.capacity)
    (hunread : w.toList = w'.toList) (hcursor : w.readPos = w'.readPos) :
    (a.withWindow w).Mirrors (b.withWindow w') :=
  ⟨h.config, hcap, hunread, hcursor, h.script, h.history, h.journal⟩

/-- Both count the same unread bytes. -/
theorem buffered_eq (h : a.Mirrors b) : a.window.buffered = b.window.buffered := by
  rw [← Window.length_toList, h.unread, Window.length_toList]

/-- Both pass over the same bytes. -/
theorem skip (h : a.Mirrors b) (count : Nat) : (a.skip count).Mirrors (b.skip count) := by
  refine h.withWindow h.capacity ?_ ?_
  · rw [Window.toList_skip, h.unread, Window.toList_skip]
  · rw [Window.readPos_skip, h.cursor, h.buffered_eq, Window.readPos_skip]

/-- A contact that is put off leaves the reader that waits where it is. -/
theorem meet_pending (h : a.Mirrors b) (c : Contact) (hc : c.answer = .pending) {rest : Script}
    (hrest : rest.withoutDelays = a.source.source.withoutDelays) :
    (a.meet c (a.source.note c.asked c.answer rest)).Mirrors b := by
  obtain ⟨cs, ⟨before, hbefore⟩, ha, hb⟩ := h.journal
  refine ⟨h.config, h.capacity, h.unread, h.cursor, hrest.trans h.script, ?_, cs ++ [c],
    ⟨before, ?_⟩, ?_, ?_⟩
  · simp [Recorded.note, hc, Poll.isReady, ← h.history]
  · simp [Recorded.note, ← hbefore, Contact.exchange]
  · simp [ha]
  · simp [hc, Poll.isReady, ← hb]

/-- A contact that is answered is the same for both. -/
theorem meet_ready (h : a.Mirrors b) (c : Contact) {answer : Answer} (hc : c.answer = .ready answer)
    (rest : Script) :
    (a.meet c (a.source.note c.asked c.answer rest)).Mirrors
      (b.meet c (b.source.note c.asked c.answer rest.withoutDelays)) := by
  obtain ⟨cs, ⟨before, hbefore⟩, ha, hb⟩ := h.journal
  refine ⟨h.config, h.capacity, h.unread, h.cursor, rfl, ?_, cs ++ [c], ⟨before, ?_⟩, ?_, ?_⟩
  · simp [Recorded.note, hc, Poll.isReady, ← h.history]
  · simp [Recorded.note, ← hbefore, Contact.exchange]
  · simp [ha]
  · simp [hc, Poll.isReady, ← hb]

/-! ### Asking the source -/

/-- An attempt at a refill of an empty window is put off, or has the outcome of the refill. -/
theorem refill_cases (h : a.Mirrors b) (hunread : a.window.toList = []) :
    (∃ a', a.pollRefill = (.pending, a') ∧ a'.Mirrors b.compacted ∧ a'.delays < a.delays) ∨
    (∃ result a' b', a.pollRefill = (.ready result, a') ∧ b.refill = (result, b') ∧
      a'.Mirrors b' ∧ a'.delays ≤ a.delays) := by
  have hcap : a.capacity = b.capacity := h.capacity
  have hunread' : b.window.toList = [] := by rw [← h.unread, hunread]
  rcases a.source.source.poll_cases a.capacity with ⟨rest, hpoll, hrest, hlt⟩ |
    ⟨answer, rest, hpoll, hread, hle, hcovered⟩
  · obtain ⟨w, ⟨hnil, hw, hpos⟩, hrefill⟩ := exists_pollRefill_eq hunread (Recorded.poll_eq hpoll)
    refine .inl ⟨_, hrefill, ?_, hlt⟩
    have hmeet := h.meet_pending ⟨.refill, a.capacity, .pending⟩ rfl hrest
    apply hmeet.withWindow
    · rw [hw, hcap, Window.capacity_compact]
      rfl
    · rw [hnil, Window.toList_compact, hunread']
    · rw [hpos, Window.readPos_compact]
  · rw [h.script, hcap] at hread
    obtain ⟨w, hw, hrefill⟩ := exists_pollRefill_eq hunread (Recorded.poll_eq hpoll)
    obtain ⟨w', hw', hrefill'⟩ := exists_refill_eq hunread' (Recorded.read_eq hread)
    rw [← hcap] at hw' hrefill'
    refine .inr ⟨_, _, _, hrefill, hrefill', ?_, hle⟩
    have hmeet := h.meet_ready ⟨.refill, a.capacity, .ready answer⟩ rfl rest
    apply hmeet.withWindow
    · rw [hw.capacity_eq, hw'.capacity_eq]
    · rw [hw.toList_eq hcovered, hw'.toList_eq hcovered]
    · rw [hw.readPos_eq, hw'.readPos_eq]

/-- An attempt at a read past an empty window is put off, or comes to what the read comes to. -/
theorem bypass_cases (h : a.Mirrors b) (buffer : Bytes) :
    (∃ a', a.pollBypass buffer = ⟨.pending, buffer, a'⟩ ∧ a'.Mirrors b ∧
      a'.delays < a.delays) ∨
    (∃ a', a.pollBypass buffer =
        ⟨.ready (b.bypass buffer).result, (b.bypass buffer).buffer, a'⟩ ∧
      a'.Mirrors (b.bypass buffer).reader ∧ a'.delays ≤ a.delays) := by
  rcases a.source.source.poll_cases buffer.size with ⟨rest, hpoll, hrest, hlt⟩ |
    ⟨answer, rest, hpoll, hread, hle, -⟩
  · rw [pollBypass_eq (Recorded.poll_eq hpoll)]
    exact .inl ⟨_, rfl, h.meet_pending ⟨.bypass, buffer.size, .pending⟩ rfl hrest, hlt⟩
  · rw [h.script] at hread
    rw [pollBypass_eq (Recorded.poll_eq hpoll), bypass_eq (Recorded.read_eq hread)]
    exact .inr ⟨_, rfl, h.meet_ready ⟨.bypass, buffer.size, .ready answer⟩ rfl rest, hle⟩

/-! ### The operations -/

/-- Both deliver the same unread bytes. -/
theorem exists_deliver_eq (h : a.Mirrors b) (buffer : Bytes) :
    ∃ a', a.deliver buffer = ⟨(b.deliver buffer).result, (b.deliver buffer).buffer, a'⟩ ∧
      a'.Mirrors (b.deliver buffer).reader ∧ a'.delays = a.delays := by
  have hb := h.buffered_eq
  have hfront : a.window.front (min buffer.size b.window.buffered) =
      b.window.front (min buffer.size b.window.buffered) := by
    apply Array.toList_inj.1
    rw [Window.toList_front, h.unread, Window.toList_front]
  refine ⟨(a.deliver buffer).reader, ?_, ?_, rfl⟩
  · simp only [deliver, hb, hfront]
  · simp only [deliver, hb]
    exact h.skip _

/-- Both reads do the same behind a refill. -/
theorem exists_readBehind_eq (h : a.Mirrors b) (buffer : Bytes) (outcome : Except ReadError Fill) :
    ∃ a', readBehind buffer a outcome =
        ⟨(readBehind buffer b outcome).result, (readBehind buffer b outcome).buffer, a'⟩ ∧
      a'.Mirrors (readBehind buffer b outcome).reader ∧ a'.delays = a.delays := by
  cases outcome with
  | error e => exact ⟨a, rfl, h, rfl⟩
  | ok fill =>
    cases fill with
    | ended => exact ⟨a, rfl, h, rfl⟩
    | added count => exact h.exists_deliver_eq buffer
    | full => exact h.exists_deliver_eq buffer

/-- An attempt at a read is put off, and then the read is still to be made, or it comes to what the
read comes to. -/
theorem read_cases (h : a.Mirrors b) {buffer : Bytes} (hsize : buffer.size ≠ 0) :
    (∃ a' b', a.pollRead buffer = ⟨.pending, buffer, a'⟩ ∧ a'.Mirrors b' ∧
      b'.read buffer = b.read buffer ∧ a'.delays < a.delays) ∨
    (∃ a', a.pollRead buffer =
        ⟨.ready (b.read buffer).result, (b.read buffer).buffer, a'⟩ ∧
      a'.Mirrors (b.read buffer).reader ∧ a'.delays ≤ a.delays) := by
  have hcapacity : a.capacity = b.capacity := h.capacity
  by_cases hunread : a.window.toList = []
  · have hunread' : b.window.toList = [] := by rw [← h.unread, hunread]
    by_cases hcap : a.capacity ≤ buffer.size
    · have hcap' : b.capacity ≤ buffer.size := hcapacity ▸ hcap
      rw [pollRead_of_bypass hsize hunread hcap, read_of_bypass hsize hunread' hcap']
      rcases h.bypass_cases buffer with ⟨a', hpoll, hmirrors, hlt⟩ | hready
      · exact .inl ⟨a', b, hpoll, hmirrors, read_of_bypass hsize hunread' hcap', hlt⟩
      · exact .inr hready
    · have hcap' : ¬ b.capacity ≤ buffer.size := hcapacity ▸ hcap
      rcases h.refill_cases hunread with ⟨a', hpoll, hmirrors, hlt⟩ |
        ⟨outcome, a', b', hpoll, hrefill, hmirrors, hle⟩
      · rw [pollRead_of_pending hsize hunread hcap hpoll]
        exact .inl ⟨a', _, rfl, hmirrors, read_compacted hsize hunread' hcap', hlt⟩
      · obtain ⟨a'', hbehind, hmirrors', hdelays⟩ := hmirrors.exists_readBehind_eq buffer outcome
        rw [pollRead_of_refill hsize hunread hcap hpoll,
          read_of_refill hsize hunread' hcap' hrefill, hbehind]
        exact .inr ⟨a'', rfl, hmirrors', hdelays ▸ hle⟩
  · have hunread' : b.window.toList ≠ [] := by rwa [← h.unread]
    obtain ⟨a', hdeliver, hmirrors, hdelays⟩ := h.exists_deliver_eq buffer
    rw [pollRead_of_unread hsize hunread, read_of_unread hsize hunread', hdeliver]
    exact .inr ⟨a', rfl, hmirrors, Nat.le_of_eq hdelays⟩

/-- Both take the same byte. -/
theorem pop (h : a.Mirrors b) :
    a.window.pop.1 = b.window.pop.1 ∧
      (a.withWindow a.window.pop.2).Mirrors (b.withWindow b.window.pop.2) := by
  refine ⟨?_, ?_⟩
  · rw [Window.pop_fst, h.unread, Window.pop_fst]
  · rw [Window.pop_snd, Window.pop_snd]
    exact h.skip 1

/-- An attempt at a read of one byte is put off, and then the read is still to be made, or it comes
to what the read comes to. -/
theorem readByte_cases (h : a.Mirrors b) :
    (∃ a' b', a.pollByte = (.pending, a') ∧ a'.Mirrors b' ∧ b'.readByte = b.readByte ∧
      a'.delays < a.delays) ∨
    (∃ a', a.pollByte = (.ready b.readByte.1, a') ∧ a'.Mirrors b.readByte.2 ∧
      a'.delays ≤ a.delays) := by
  by_cases hunread : a.window.toList = []
  · have hunread' : b.window.toList = [] := by rw [← h.unread, hunread]
    rcases h.refill_cases hunread with ⟨a', hpoll, hmirrors, hlt⟩ |
      ⟨outcome, a', b', hpoll, hrefill, hmirrors, hle⟩
    · rw [pollByte_of_pending hunread hpoll]
      exact .inl ⟨a', _, rfl, hmirrors, readByte_compacted hunread', hlt⟩
    · obtain ⟨hbyte, hpopped⟩ := hmirrors.pop
      rw [pollByte_of_refill hunread hpoll, readByte_of_refill hunread' hrefill]
      cases outcome with
      | error e => exact .inr ⟨a', rfl, hmirrors, hle⟩
      | ok fill =>
        simp only [byteBehind, hbyte]
        exact .inr ⟨_, rfl, hpopped, hle⟩
  · have hunread' : b.window.toList ≠ [] := by rwa [← h.unread]
    obtain ⟨hbyte, hpopped⟩ := h.pop
    rw [pollByte_of_unread hunread, readByte_of_unread hunread', hbyte]
    exact .inr ⟨_, rfl, hpopped, Nat.le_refl _⟩

/-- Both show the same unread bytes. -/
theorem unread_eq (h : a.Mirrors b) : Reader.unread a = Reader.unread b :=
  Array.toList_inj.1 h.unread

/-- An attempt at a look at the unread bytes is put off, and then the look is still to be taken, or
it comes to what the look comes to. -/
theorem fillBuffer_cases (h : a.Mirrors b) :
    (∃ a' b', a.pollFillBuffer = (.pending, a') ∧ a'.Mirrors b' ∧ b'.fillBuffer = b.fillBuffer ∧
      a'.delays < a.delays) ∨
    (∃ a', a.pollFillBuffer = (.ready b.fillBuffer.1, a') ∧ a'.Mirrors b.fillBuffer.2 ∧
      a'.delays ≤ a.delays) := by
  by_cases hunread : a.window.toList = []
  · have hunread' : b.window.toList = [] := by rw [← h.unread, hunread]
    rcases h.refill_cases hunread with ⟨a', hpoll, hmirrors, hlt⟩ |
      ⟨outcome, a', b', hpoll, hrefill, hmirrors, hle⟩
    · rw [pollFillBuffer_of_pending hunread hpoll]
      exact .inl ⟨a', _, rfl, hmirrors, fillBuffer_compacted hunread', hlt⟩
    · rw [pollFillBuffer_of_refill hunread hpoll, fillBuffer_of_refill hunread' hrefill]
      cases outcome with
      | error e => exact .inr ⟨a', rfl, hmirrors, hle⟩
      | ok fill =>
        simp only [unreadBehind, hmirrors.unread_eq]
        exact .inr ⟨a', rfl, hmirrors, hle⟩
  · have hunread' : b.window.toList ≠ [] := by rwa [← h.unread]
    rw [pollFillBuffer_of_unread hunread, fillBuffer_of_unread hunread', h.unread_eq]
    exact .inr ⟨a, rfl, h, Nat.le_refl _⟩

/-- An attempt at filling a buffer is put off, and then what is still to be filled is what the
reader that waits has yet to fill, or it comes to what that comes to. -/
theorem exact_cases (h : a.Mirrors b) (done rest : Bytes) :
    (∃ done' rest' a' b', a.pollExact done rest = ⟨.pending, done', rest', a'⟩ ∧
      a'.Mirrors b' ∧ b'.readExactFrom done' rest' = b.readExactFrom done rest ∧
      a'.delays < a.delays) ∨
    (∃ done' rest' a',
      a.pollExact done rest = ⟨.ready (b.readExactFrom done rest).result, done', rest', a'⟩ ∧
      (b.readExactFrom done rest).buffer = done' ++ rest' ∧
      a'.Mirrors (b.readExactFrom done rest).reader ∧ a'.delays ≤ a.delays) := by
  fun_induction pollExact a done rest generalizing b with
  | case1 a done rest hsize =>
    rw [readExactFrom, dif_pos hsize]
    exact .inr ⟨done, rest, a, rfl, rfl, h, Nat.le_refl _⟩
  | case2 a done rest hsize buffer a' hpoll =>
    rcases h.read_cases hsize with ⟨a'', b', hread, hmirrors, hlater, hlt⟩ | ⟨a'', hread, -⟩
    · rw [hpoll, Call.mk.injEq] at hread
      obtain ⟨-, rfl, rfl⟩ := hread
      refine .inl ⟨done, buffer, a', b', rfl, hmirrors, ?_, hlt⟩
      rw [readExactFrom_eq b' done hsize, readExactFrom_eq b done hsize, hlater]
    · rw [hpoll, Call.mk.injEq] at hread
      simp at hread
  | case3 a done rest hsize e buffer a' hpoll =>
    rcases h.read_cases hsize with ⟨a'', b', hread, -⟩ | ⟨a'', hread, hmirrors, hle⟩
    · simp [hpoll] at hread
    · rw [hpoll, Call.mk.injEq, Poll.ready.injEq] at hread
      obtain ⟨hresult, hbuffer, rfl⟩ := hread
      rw [readExactFrom_eq b done hsize, ← hresult, ← hbuffer]
      exact .inr ⟨done, buffer, a', rfl, rfl, hmirrors, hle⟩
  | case4 a done rest hsize buffer a' hpoll =>
    rcases h.read_cases hsize with ⟨a'', b', hread, -⟩ | ⟨a'', hread, hmirrors, hle⟩
    · simp [hpoll] at hread
    · rw [hpoll, Call.mk.injEq, Poll.ready.injEq] at hread
      obtain ⟨hresult, hbuffer, rfl⟩ := hread
      rw [readExactFrom_eq b done hsize, ← hresult, ← hbuffer]
      exact .inr ⟨done, buffer, a', rfl, rfl, hmirrors, hle⟩
  | case5 a done rest hsize count buffer a' hpoll hz hover =>
    rcases h.read_cases hsize with ⟨a'', b', hread, -⟩ | ⟨a'', hread, hmirrors, hle⟩
    · simp [hpoll] at hread
    · rw [hpoll, Call.mk.injEq, Poll.ready.injEq] at hread
      obtain ⟨hresult, hbuffer, rfl⟩ := hread
      rw [readExactFrom_eq b done hsize, ← hresult, ← hbuffer]
      simp only [if_neg hz, if_pos hover]
      refine .inr ⟨_, _, a', rfl, ?_, hmirrors, hle⟩
      rw [Bytes.append_extract_append_extract]
  | case6 a done rest hsize count buffer a' hpoll hz hover ih =>
    rcases h.read_cases hsize with ⟨a'', b', hread, -⟩ | ⟨a'', hread, hmirrors, hle⟩
    · simp [hpoll] at hread
    · rw [hpoll, Call.mk.injEq, Poll.ready.injEq] at hread
      obtain ⟨hresult, hbuffer, rfl⟩ := hread
      have hround := readExactFrom_eq b done hsize
      rw [← hresult, ← hbuffer] at hround
      simp only [if_neg hz, if_neg hover] at hround
      rw [hround]
      rcases ih hmirrors with ⟨done', rest', a₁, b₁, hattempt, hmirrors₁, hgoal, hlt⟩ |
        ⟨done', rest', a₁, hattempt, hfilled, hmirrors₁, hle₁⟩
      · exact .inl ⟨done', rest', a₁, b₁, hattempt, hmirrors₁, hgoal, by omega⟩
      · exact .inr ⟨done', rest', a₁, hattempt, hfilled, hmirrors₁, by omega⟩

/-- Both searches take the same from the same unread bytes. -/
theorem advance (h : a.Mirrors b) (scan : Scan) (out : Bytes) :
    (scan.advance a.window out).verdict = (scan.advance b.window out).verdict ∧
      (scan.advance a.window out).scan = (scan.advance b.window out).scan ∧
      (scan.advance a.window out).out = (scan.advance b.window out).out ∧
      (a.withWindow (scan.advance a.window out).window).Mirrors
        (b.withWindow (scan.advance b.window out).window) := by
  obtain ⟨hverdict, hscan, hrest, hout⟩ := scan.advance_eq_walk a.window out
  obtain ⟨hverdict', hscan', hrest', hout'⟩ := scan.advance_eq_walk b.window out
  rw [h.unread] at hverdict hscan hrest hout
  refine ⟨hverdict.trans hverdict'.symm, hscan.trans hscan'.symm,
    Array.toList_inj.1 (hout.trans hout'.symm), ?_⟩
  rw [scan.window_advance, scan.window_advance, h.unread]
  exact h.skip _

/-- An attempt at a delimiter read is put off, and then what is still to be read is what the reader
that waits has yet to read, or it comes to what that comes to. -/
theorem line_cases (h : a.Mirrors b) {rounds : Nat} {scan : Scan} {out : Bytes}
    {attempt : LineAttempt (Recorded Script)}
    (hattempt : pollLineWithin rounds a scan out = some attempt) :
    attempt.scan.reset = scan.reset ∧
      match attempt.result with
      | .pending =>
        attempt.reader.delays < a.delays ∧ ∃ b', attempt.reader.Mirrors b' ∧
          ∀ n call, lineWithin n attempt.scan b' attempt.out = some call →
            ∃ n', lineWithin n' scan b out = some call
      | .ready result =>
        attempt.reader.delays ≤ a.delays ∧ ∃ n b', attempt.reader.Mirrors b' ∧
          lineWithin n scan b out = some ⟨result, attempt.out, b'⟩ := by
  induction rounds generalizing a b scan out with
  | zero => simp [pollLineWithin] at hattempt
  | succ rounds ih =>
    obtain ⟨hverdict, hscan, hout, hmirrors⟩ := h.advance scan out
    have hreset : (scan.advance a.window out).scan.reset = scan.reset := by
      obtain ⟨hdelim, hlimit, -⟩ := scan.advance_keeps a.window out
      simp only [Scan.reset, hdelim, hlimit]
    cases hv : (scan.advance a.window out).verdict with
    | found =>
      rw [pollLineWithin_of_found hv, Option.some.injEq] at hattempt
      subst hattempt
      refine ⟨hreset, Nat.le_refl _, 1, _, hmirrors, ?_⟩
      rw [lineWithin_of_found (hverdict ▸ hv), hout]
    | overlong limit =>
      rw [pollLineWithin_of_overlong hv, Option.some.injEq] at hattempt
      subst hattempt
      refine ⟨hreset, Nat.le_refl _, 1, _, hmirrors, ?_⟩
      rw [lineWithin_of_overlong (hverdict ▸ hv), hout]
    | starved =>
      have hv' : (scan.advance b.window out).verdict = .starved := hverdict ▸ hv
      rcases hmirrors.refill_cases (Scan.toList_advance_of_starved hv) with
        ⟨a', hpoll, hmirrors', hlt⟩ | ⟨outcome, a', b', hpoll, hrefill, hmirrors', hle⟩
      · rw [pollLineWithin_of_pending hv hpoll, Option.some.injEq] at hattempt
        subst hattempt
        refine ⟨hreset, hlt, _, hmirrors', fun n call hcall => ⟨n, ?_⟩⟩
        rw [← lineWithin_compacted hv', ← hscan, ← hout]
        exact hcall
      · rw [pollLineWithin_of_refill hv hpoll] at hattempt
        have hround : ∀ n, lineWithin (n + 1) scan b out =
            lineBehind n (scan.advance a.window out).scan (scan.advance a.window out).out b'
              outcome := by
          intro n
          rw [lineWithin_of_refill hv' hrefill, hscan, hout]
        have hdelays : a'.delays ≤ a.delays := hle
        cases outcome with
        | error e =>
          simp only [pollLineBehind, Option.some.injEq] at hattempt
          subst hattempt
          exact ⟨hreset, hdelays, 1, b', hmirrors', hround 0⟩
        | ok fill =>
          cases fill with
          | ended =>
            simp only [pollLineBehind, Option.some.injEq] at hattempt
            subst hattempt
            exact ⟨hreset, hdelays, 1, b', hmirrors', hround 0⟩
          | full =>
            simp only [pollLineBehind, Option.some.injEq] at hattempt
            subst hattempt
            exact ⟨hreset, hdelays, 1, b', hmirrors', hround 0⟩
          | added count =>
            -- the round that follows has its own delays to use up
            obtain ⟨hreset', hresult⟩ := ih hmirrors' hattempt
            refine ⟨hreset'.trans hreset, ?_⟩
            cases hr : attempt.result with
            | pending =>
              rw [hr] at hresult
              obtain ⟨hlt, b'', hmirrors'', hlater⟩ := hresult
              refine ⟨by omega, b'', hmirrors'', fun n call hcall => ?_⟩
              obtain ⟨n', hn'⟩ := hlater n call hcall
              exact ⟨n' + 1, (hround n').trans hn'⟩
            | ready value =>
              rw [hr] at hresult
              obtain ⟨hle', n, b'', hmirrors'', hline⟩ := hresult
              exact ⟨by omega, n + 1, b'', hmirrors'', (hround n).trans hline⟩

end Mirrors

end Reader

end BufferedReading
