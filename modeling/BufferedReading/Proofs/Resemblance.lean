import BufferedReading.Proofs.Mirror
import BufferedReading.Session.Blocking

/-!
# Readers that wait and cannot be told apart

Two readers that wait for a script resemble each other if they have the same unread bytes, are built
alike, and have the same steps left apart from delays, which waiting passes over
(`Reader.Resembles`). Every operation answers the same on both and leaves readers that resemble each
other again, if bytes are passed over in reach only (`Session.InReach`);
`Session.Resembles.performAll` states this for sequences of operations.

The rounds of a loop depend on the delays that are left, so that the loops of two readers may be
given different numbers of rounds. The lemmas about loops compare what comes of any two numbers that
are enough.
-/

namespace BufferedReading

namespace Script

/-- A script that is waited for passes over its delays. -/
theorem read_withoutDelays (script : Script) (n : Nat) :
    script.withoutDelays.read n = ((script.read n).1, (script.read n).2.withoutDelays) := by
  fun_induction read script n with
  | case1 n => rfl
  | case2 bytes rest n hle =>
    rw [withoutDelays, List.filter_cons_of_pos rfl, read, if_pos hle]
    rfl
  | case3 bytes rest n hle =>
    rw [withoutDelays, List.filter_cons_of_pos rfl, read, if_neg hle]
    rfl
  | case4 rest n => rfl
  | case5 cause rest n => rfl
  | case6 surplus rest n => rfl
  | case7 times rest n ih => exact ih

/-- Scripts with the same steps apart from delays answer the same, and the same steps are left. -/
theorem exists_read_eq {script script' rest : Script} {n : Nat} {answer : Answer}
    (h : script.withoutDelays = script'.withoutDelays)
    (hread : ByteSource.read script n = (answer, rest)) :
    ∃ rest' : Script, ByteSource.read script' n = (answer, rest') ∧
      rest.withoutDelays = rest'.withoutDelays := by
  have hread : script.read n = (answer, rest) := hread
  have hleft := script.read_withoutDelays n
  rw [h, read_withoutDelays, hread] at hleft
  obtain ⟨hanswer, hrest⟩ := Prod.mk.inj hleft
  exact ⟨(script'.read n).2, Prod.ext hanswer rfl, hrest.symm⟩

end Script

/-! ### Readers -/

/-- Two readers over a script resemble each other: they have the same unread bytes, the same
configuration, windows of the same size and the same steps left apart from delays. -/
structure Reader.Resembles (a b : Reader Script) : Prop where
  config_eq : a.config = b.config
  capacity_eq : a.capacity = b.capacity
  unread_eq : a.window.toList = b.window.toList
  steps_eq : a.source.withoutDelays = b.source.withoutDelays

/-- Two calls resemble each other: the result is the same, so is what they left in the caller's
buffer, and the readers behind them resemble each other. -/
structure Call.Resembles {α : Type} (x y : Call (Reader Script) α) : Prop where
  result_eq : x.result = y.result
  buffer_eq : x.buffer = y.buffer
  reader : x.reader.Resembles y.reader

namespace Reader.Resembles

variable {a b : Reader Script}

theorem refl (a : Reader Script) : a.Resembles a := ⟨rfl, rfl, rfl, rfl⟩

theorem symm (h : a.Resembles b) : b.Resembles a :=
  ⟨h.config_eq.symm, h.capacity_eq.symm, h.unread_eq.symm, h.steps_eq.symm⟩

theorem trans {c : Reader Script} (h : a.Resembles b) (h' : b.Resembles c) : a.Resembles c :=
  ⟨h.config_eq.trans h'.config_eq, h.capacity_eq.trans h'.capacity_eq,
    h.unread_eq.trans h'.unread_eq, h.steps_eq.trans h'.steps_eq⟩

theorem withWindow (h : a.Resembles b) {w w' : Window} (hcap : w.capacity = w'.capacity)
    (hunread : w.toList = w'.toList) : (a.withWindow w).Resembles (b.withWindow w') :=
  ⟨h.config_eq, hcap, hunread, h.steps_eq⟩

/-- Passing over as many bytes keeps the resemblance. -/
theorem skip (h : a.Resembles b) (count : Nat) :
    (a.skip count).Resembles (b.skip count) := by
  apply h.withWindow
  · exact h.capacity_eq
  · rw [Window.toList_skip, h.unread_eq, Window.toList_skip]

theorem unread (h : a.Resembles b) : a.unread = b.unread := Array.toList_inj.1 h.unread_eq

theorem nil (h : a.Resembles b) (hunread : a.window.toList = []) : b.window.toList = [] := by
  rw [← h.unread_eq, hunread]

theorem ne_nil (h : a.Resembles b) (hunread : a.window.toList ≠ []) : b.window.toList ≠ [] := by
  rwa [← h.unread_eq]

/-! ### Asking the source -/

/-- A contact with the same answer keeps the resemblance. -/
theorem meet (h : a.Resembles b) (contact : Contact) {source source' : Script}
    (hsteps : source.withoutDelays = source'.withoutDelays) :
    (a.meet contact source).Resembles (b.meet contact source') :=
  ⟨h.config_eq, h.capacity_eq, h.unread_eq, hsteps⟩

/-- A refill of an empty window comes to the same for both. -/
theorem exists_refill_eq (h : a.Resembles b) (hunread : a.window.toList = []) :
    ∃ outcome a' b', a.refill = (outcome, a') ∧ b.refill = (outcome, b') ∧ a'.Resembles b' := by
  obtain ⟨answer, source, hread⟩ :
      ∃ answer source, ByteSource.read a.source a.capacity = (answer, source) := ⟨_, _, rfl⟩
  obtain ⟨source', hread', hsteps⟩ := Script.exists_read_eq h.steps_eq hread
  have hcovered : answer.Covered a.capacity := by
    have hanswer := a.source.covered_read a.capacity
    have hread : a.source.read a.capacity = (answer, source) := hread
    rwa [hread] at hanswer
  rw [h.capacity_eq] at hread'
  obtain ⟨w, hw, hrefill⟩ := Reader.exists_refill_eq hunread hread
  obtain ⟨w', hw', hrefill'⟩ := Reader.exists_refill_eq (h.nil hunread) hread'
  rw [← h.capacity_eq] at hw' hrefill'
  refine ⟨_, _, _, hrefill, hrefill', ?_⟩
  apply (h.meet ⟨.refill, a.capacity, .ready answer⟩ hsteps).withWindow
  · rw [hw.capacity_eq, hw'.capacity_eq]
  · rw [hw.toList_eq hcovered, hw'.toList_eq hcovered]

/-- A read past the window comes to the same for both. -/
theorem bypass (h : a.Resembles b) (buffer : Bytes) :
    (a.bypass buffer).Resembles (b.bypass buffer) := by
  obtain ⟨answer, source, hread⟩ :
      ∃ answer source, ByteSource.read a.source buffer.size = (answer, source) := ⟨_, _, rfl⟩
  obtain ⟨source', hread', hsteps⟩ := Script.exists_read_eq h.steps_eq hread
  rw [bypass_eq hread, bypass_eq hread']
  exact ⟨rfl, rfl, h.meet _ hsteps⟩

/-! ### Reads -/

/-- Both deliver the same bytes. -/
theorem deliver (h : a.Resembles b) (buffer : Bytes) :
    (a.deliver buffer).Resembles (b.deliver buffer) := by
  have hbuffered : a.window.buffered = b.window.buffered := by
    rw [← Window.length_toList, h.unread_eq, Window.length_toList]
  have hfront : a.window.front (min buffer.size b.window.buffered) =
      b.window.front (min buffer.size b.window.buffered) := by
    apply Array.toList_inj.1
    rw [Window.toList_front, h.unread_eq, Window.toList_front]
  simp only [Reader.deliver, hbuffered, hfront]
  exact ⟨rfl, rfl, h.skip _⟩

/-- A read comes to the same for both. -/
theorem read (h : a.Resembles b) (buffer : Bytes) : (a.read buffer).Resembles (b.read buffer) := by
  by_cases hsize : buffer.size = 0
  · rw [Reader.read, Reader.read, if_pos hsize, if_pos hsize]
    exact ⟨rfl, rfl, h⟩
  by_cases hunread : a.window.toList = []
  · by_cases hcap : a.capacity ≤ buffer.size
    · rw [read_of_bypass hsize hunread hcap,
        read_of_bypass hsize (h.nil hunread) (h.capacity_eq ▸ hcap)]
      exact h.bypass buffer
    · obtain ⟨outcome, a', b', hrefill, hrefill', hbehind⟩ := h.exists_refill_eq hunread
      rw [read_of_refill hsize hunread hcap hrefill,
        read_of_refill hsize (h.nil hunread) (h.capacity_eq ▸ hcap) hrefill']
      rcases outcome with e | added | _ | _
      · exact ⟨rfl, rfl, hbehind⟩
      · exact hbehind.deliver buffer
      · exact ⟨rfl, rfl, hbehind⟩
      · exact hbehind.deliver buffer
  · rw [read_of_unread hsize hunread, read_of_unread hsize (h.ne_nil hunread)]
    exact h.deliver buffer

/-- A request to the source itself comes to the same for both. -/
theorem readSource (h : a.Resembles b) (buffer : Bytes) :
    (a.readSource buffer).Resembles (b.readSource buffer) := by
  obtain ⟨answer, source, hread⟩ :
      ∃ answer source, ByteSource.read a.source buffer.size = (answer, source) := ⟨_, _, rfl⟩
  obtain ⟨source', hread', hsteps⟩ := Script.exists_read_eq h.steps_eq hread
  have hbehind : Resembles { a with source } { b with source := source' } :=
    ⟨h.config_eq, h.capacity_eq, h.unread_eq, hsteps⟩
  simp only [Reader.readSource, hread, hread']
  cases answer with
  | supplied written count => exact ⟨rfl, rfl, hbehind⟩
  | failed cause => exact ⟨rfl, rfl, hbehind⟩

/-- Both take the same byte. -/
theorem pop (h : a.Resembles b) : a.window.pop.1 = b.window.pop.1 ∧
    (a.withWindow a.window.pop.2).Resembles (b.withWindow b.window.pop.2) := by
  refine ⟨?_, h.withWindow ?_ ?_⟩
  · rw [Window.pop_fst, h.unread_eq, Window.pop_fst]
  · rw [Window.capacity_pop, Window.capacity_pop]
    exact h.capacity_eq
  · rw [Window.toList_pop, h.unread_eq, Window.toList_pop]

/-- A read of one byte comes to the same for both. -/
theorem readByte (h : a.Resembles b) :
    a.readByte.1 = b.readByte.1 ∧ a.readByte.2.Resembles b.readByte.2 := by
  by_cases hunread : a.window.toList = []
  · obtain ⟨outcome, a', b', hrefill, hrefill', hbehind⟩ := h.exists_refill_eq hunread
    rw [readByte_of_refill hunread hrefill, readByte_of_refill (h.nil hunread) hrefill']
    cases outcome with
    | error e => exact ⟨rfl, hbehind⟩
    | ok fill =>
      obtain ⟨hbyte, hpopped⟩ := hbehind.pop
      exact ⟨congrArg Except.ok hbyte, hpopped⟩
  · obtain ⟨hbyte, hpopped⟩ := h.pop
    rw [readByte_of_unread hunread, readByte_of_unread (h.ne_nil hunread)]
    exact ⟨congrArg Except.ok hbyte, hpopped⟩

/-- A look at the unread bytes comes to the same for both. -/
theorem fillBuffer (h : a.Resembles b) :
    a.fillBuffer.1 = b.fillBuffer.1 ∧ a.fillBuffer.2.Resembles b.fillBuffer.2 := by
  by_cases hunread : a.window.toList = []
  · obtain ⟨outcome, a', b', hrefill, hrefill', hbehind⟩ := h.exists_refill_eq hunread
    rw [fillBuffer_of_refill hunread hrefill, fillBuffer_of_refill (h.nil hunread) hrefill']
    cases outcome with
    | error e => exact ⟨rfl, hbehind⟩
    | ok fill => exact ⟨congrArg Except.ok hbehind.unread, hbehind⟩
  · rw [fillBuffer_of_unread hunread, fillBuffer_of_unread (h.ne_nil hunread)]
    exact ⟨congrArg Except.ok h.unread, h⟩

/-- Filling a buffer comes to the same for both. -/
theorem readExactFrom (h : a.Resembles b) (done rest : Bytes) :
    (a.readExactFrom done rest).Resembles (b.readExactFrom done rest) := by
  fun_induction Reader.readExactFrom a done rest generalizing b with
  | case1 a done rest hsize =>
    rw [Reader.readExactFrom, dif_pos hsize]
    exact ⟨rfl, rfl, h⟩
  | case2 a done rest hsize e buffer a' hread =>
    obtain ⟨hresult, hbuffer, hbehind⟩ := h.read rest
    rw [hread] at hresult hbuffer hbehind
    rw [readExactFrom_eq b done hsize, ← hresult, ← hbuffer]
    exact ⟨rfl, rfl, hbehind⟩
  | case3 a done rest hsize buffer a' hread =>
    obtain ⟨hresult, hbuffer, hbehind⟩ := h.read rest
    rw [hread] at hresult hbuffer hbehind
    rw [readExactFrom_eq b done hsize, ← hresult, ← hbuffer]
    exact ⟨rfl, rfl, hbehind⟩
  | case4 a done rest hsize count buffer a' hread hz hover =>
    obtain ⟨hresult, hbuffer, hbehind⟩ := h.read rest
    rw [hread] at hresult hbuffer hbehind
    rw [readExactFrom_eq b done hsize, ← hresult, ← hbuffer]
    simp only [if_neg hz, if_pos hover]
    exact ⟨rfl, rfl, hbehind⟩
  | case5 a done rest hsize count buffer a' hread hz hover ih =>
    obtain ⟨hresult, hbuffer, hbehind⟩ := h.read rest
    rw [hread] at hresult hbuffer hbehind
    rw [readExactFrom_eq b done hsize, ← hresult, ← hbuffer]
    simp only [if_neg hz, if_neg hover]
    exact ih hbehind

/-! ### Loops -/

/-- Both searches take the same from the same unread bytes. -/
theorem advance (h : a.Resembles b) (scan : Scan) (out : Bytes) :
    (scan.advance a.window out).verdict = (scan.advance b.window out).verdict ∧
      (scan.advance a.window out).scan = (scan.advance b.window out).scan ∧
      (scan.advance a.window out).out = (scan.advance b.window out).out ∧
      (a.withWindow (scan.advance a.window out).window).Resembles
        (b.withWindow (scan.advance b.window out).window) := by
  obtain ⟨hverdict, hscan, hrest, hout⟩ := scan.advance_eq_walk a.window out
  obtain ⟨hverdict', hscan', hrest', hout'⟩ := scan.advance_eq_walk b.window out
  rw [h.unread_eq] at hverdict hscan hrest hout
  refine ⟨hverdict.trans hverdict'.symm, hscan.trans hscan'.symm,
    Array.toList_inj.1 (hout.trans hout'.symm), h.withWindow ?_ (hrest.trans hrest'.symm)⟩
  rw [(scan.advance_keeps a.window out).2.2, (scan.advance_keeps b.window out).2.2]
  exact h.capacity_eq

/-- A delimiter read comes to the same for both. -/
theorem lineWithin (h : a.Resembles b) {rounds rounds' : Nat} {scan : Scan} {out : Bytes}
    {x y : Call (Reader Script) (Except ReadError Bool)}
    (hx : lineWithin rounds scan a out = some x) (hy : lineWithin rounds' scan b out = some y) :
    x.Resembles y := by
  induction rounds generalizing rounds' a b scan out with
  | zero => exact nomatch hx
  | succ rounds ih =>
    cases rounds' with
    | zero => exact nomatch hy
    | succ rounds' =>
      obtain ⟨hverdict, hscan, hout, hsearched⟩ := h.advance scan out
      cases hv : (scan.advance a.window out).verdict with
      | found =>
        rw [lineWithin_of_found hv, Option.some.injEq] at hx
        rw [lineWithin_of_found (hverdict ▸ hv), Option.some.injEq] at hy
        subst hx hy
        exact ⟨rfl, hout, hsearched⟩
      | overlong limit =>
        rw [lineWithin_of_overlong hv, Option.some.injEq] at hx
        rw [lineWithin_of_overlong (hverdict ▸ hv), Option.some.injEq] at hy
        subst hx hy
        exact ⟨rfl, hout, hsearched⟩
      | starved =>
        obtain ⟨outcome, a', b', hrefill, hrefill', hbehind⟩ :=
          hsearched.exists_refill_eq (Scan.toList_advance_of_starved hv)
        rw [lineWithin_of_refill hv hrefill] at hx
        rw [lineWithin_of_refill (hverdict ▸ hv) hrefill', ← hscan, ← hout] at hy
        rcases outcome with e | added | _ | _
        · obtain rfl := Option.some.inj hx
          obtain rfl := Option.some.inj hy
          exact ⟨rfl, rfl, hbehind⟩
        · exact ih hbehind hx hy
        · obtain rfl := Option.some.inj hx
          obtain rfl := Option.some.inj hy
          exact ⟨rfl, rfl, hbehind⟩
        · obtain rfl := Option.some.inj hx
          obtain rfl := Option.some.inj hy
          exact ⟨rfl, rfl, hbehind⟩

/-- Filling a buffer with new attempts after interruptions comes to the same for both. -/
theorem fillWithin (h : a.Resembles b) {rounds rounds' : Nat} {done rest : Bytes}
    {x y : Call (Reader Script) (Except (Stop Failure) Unit)}
    (hx : fillWithin rounds a done rest = some x) (hy : fillWithin rounds' b done rest = some y) :
    x.Resembles y := by
  induction rounds generalizing rounds' a b done rest with
  | zero => exact nomatch hx
  | succ rounds ih =>
    cases rounds' with
    | zero => exact nomatch hy
    | succ rounds' =>
      by_cases hsize : rest.size = 0
      · rw [Reader.fillWithin, if_pos hsize] at hx hy
        obtain rfl := Option.some.inj hx
        obtain rfl := Option.some.inj hy
        exact ⟨rfl, rfl, h⟩
      obtain ⟨hresult, hbuffer, hbehind⟩ := h.read rest
      rw [fillWithin_eq rounds a done hsize] at hx
      rw [fillWithin_eq rounds' b done hsize, ← hresult, ← hbuffer] at hy
      cases hread : (a.read rest).result with
      | ok count =>
        simp only [hread] at hx hy
        by_cases hz : count = 0
        · rw [if_pos hz] at hx hy
          obtain rfl := Option.some.inj hx
          obtain rfl := Option.some.inj hy
          exact ⟨rfl, rfl, hbehind⟩
        · rw [if_neg hz] at hx hy
          by_cases hover : rest.size < count
          · rw [if_pos hover] at hx hy
            obtain rfl := Option.some.inj hx
            obtain rfl := Option.some.inj hy
            exact ⟨rfl, rfl, hbehind⟩
          · rw [if_neg hover] at hx hy
            exact ih hbehind hx hy
      | error e =>
        simp only [hread] at hx hy
        by_cases hi : e.toFailure.isInterruption = true
        · rw [if_pos hi] at hx hy
          exact ih hbehind hx hy
        · rw [if_neg hi] at hx hy
          obtain rfl := Option.some.inj hx
          obtain rfl := Option.some.inj hy
          exact ⟨rfl, rfl, hbehind⟩

/-- Appending bytes up to a delimiter with new attempts after interruptions comes to the same for
both. -/
theorem untilWithin (h : a.Resembles b) {delim : UInt8} {rounds rounds' count : Nat} {out : Bytes}
    {x y : Call (Reader Script) (Except Failure Nat)}
    (hx : untilWithin delim rounds a out count = some x)
    (hy : untilWithin delim rounds' b out count = some y) : x.Resembles y := by
  induction rounds generalizing rounds' a b out count with
  | zero => exact nomatch hx
  | succ rounds ih =>
    cases rounds' with
    | zero => exact nomatch hy
    | succ rounds' =>
      obtain ⟨hresult, hbehind⟩ := h.fillBuffer
      obtain ⟨look, a', hlook⟩ : ∃ look a', a.fillBuffer = (look, a') := ⟨_, _, rfl⟩
      obtain ⟨look', b', hlook'⟩ : ∃ look b', b.fillBuffer = (look, b') := ⟨_, _, rfl⟩
      rw [hlook, hlook'] at hresult hbehind
      obtain rfl : look = look' := hresult
      simp only [Reader.untilWithin, hlook] at hx
      simp only [Reader.untilWithin, hlook'] at hy
      cases look with
      | error cause =>
        by_cases hi : cause.isInterruption = true
        · simp only [if_pos hi] at hx hy
          exact ih hbehind hx hy
        · simp only [if_neg hi] at hx hy
          obtain rfl := Option.some.inj hx
          obtain rfl := Option.some.inj hy
          exact ⟨rfl, rfl, hbehind⟩
      | ok available =>
        cases hi : available.indexIn? delim 0 available.size with
        | some i =>
          simp only [hi] at hx hy
          obtain rfl := Option.some.inj hx
          obtain rfl := Option.some.inj hy
          exact ⟨rfl, rfl, hbehind.skip (i + 1)⟩
        | none =>
          simp only [hi] at hx hy
          by_cases hz : available.size = 0
          · rw [if_pos hz] at hx hy
            obtain rfl := Option.some.inj hx
            obtain rfl := Option.some.inj hy
            exact ⟨rfl, rfl, hbehind⟩
          · rw [if_neg hz] at hx hy
            exact ih (hbehind.skip available.size) hx hy

/-- A delimiter read up to the limit of its reader comes to the same for both. -/
theorem lineWithin_start (h : a.Resembles b) {rounds rounds' : Nat} {delim : UInt8} {out : Bytes}
    {x y : Call (Reader Script) (Except ReadError Bool)}
    (hx : Reader.lineWithin rounds (.start delim a.config.lineLimit) a out = some x)
    (hy : Reader.lineWithin rounds' (.start delim b.config.lineLimit) b out = some y) :
    x.Resembles y := by
  rw [h.config_eq] at hx
  exact h.lineWithin hx hy

/-- The delimiter read with its own number of rounds comes to the same for both. -/
theorem readLineInto (h : a.Resembles b) (delim : UInt8) (out : Bytes) :
    (a.readLineInto delim out).Resembles (b.readLineInto delim out) :=
  h.lineWithin_start (Option.some_get _).symm (Option.some_get _).symm

end Reader.Resembles

theorem Call.Resembles.trans {α : Type} {x y z : Call (Reader Script) α} (h : x.Resembles y)
    (h' : y.Resembles z) : x.Resembles z :=
  ⟨h.result_eq.trans h'.result_eq, h.buffer_eq.trans h'.buffer_eq, h.reader.trans h'.reader⟩

/-! ### Splitters -/

/-- Two splitters over a script resemble each other. -/
structure Splitter.Resembles (s t : Splitter Script) : Prop where
  reader : s.reader.Resembles t.reader
  delim_eq : s.delim = t.delim
  finished_eq : s.finished = t.finished

namespace Splitter.Resembles

variable {s t : Splitter Script}

/-- Reads that resemble each other yield the same item. -/
theorem conclude {x y : Call (Reader Script) (Except ReadError Bool)} (h : x.Resembles y)
    (delim : UInt8) :
    (conclude delim x).1 = (conclude delim y).1 ∧
      (conclude delim x).2.Resembles (Splitter.conclude delim y).2 := by
  unfold Splitter.conclude
  rw [← h.result_eq, ← h.buffer_eq]
  rcases x.result with e | complete
  · exact ⟨rfl, h.reader, rfl, rfl⟩
  · cases complete with
    | true => exact ⟨rfl, h.reader, rfl, rfl⟩
    | false => exact ⟨rfl, h.reader, rfl, rfl⟩

/-- The next item is the same for both. -/
theorem nextWithin (h : s.Resembles t) {rounds rounds' : Nat} {x y : Option Item × Splitter Script}
    (hx : s.nextWithin rounds = some x) (hy : t.nextWithin rounds' = some y) :
    x.1 = y.1 ∧ x.2.Resembles y.2 := by
  unfold Splitter.nextWithin at hx hy
  rw [← h.finished_eq, ← h.delim_eq] at hy
  by_cases hfinished : s.finished = true
  · rw [if_pos hfinished] at hx hy
    obtain rfl := Option.some.inj hx
    obtain rfl := Option.some.inj hy
    exact ⟨rfl, h⟩
  · rw [if_neg hfinished] at hx hy
    obtain ⟨call, hcall, rfl⟩ := Option.map_eq_some_iff.1 hx
    obtain ⟨call', hcall', rfl⟩ := Option.map_eq_some_iff.1 hy
    exact conclude (h.reader.lineWithin_start hcall hcall') s.delim

/-- All items are the same for both. -/
theorem foldWithin (h : s.Resembles t) {β : Type} {f : β → Item → β} {rounds rounds' : Nat}
    {init : β} {x y : β × Splitter Script} (hx : s.foldWithin f rounds init = some x)
    (hy : t.foldWithin f rounds' init = some y) : x.1 = y.1 ∧ x.2.Resembles y.2 := by
  induction rounds generalizing rounds' s t init with
  | zero => exact nomatch hx
  | succ rounds ih =>
    cases rounds' with
    | zero => exact nomatch hy
    | succ rounds' =>
      rw [Splitter.foldWithin] at hx hy
      cases hnext : s.nextWithin rounds with
      | none => simp [hnext] at hx
      | some next =>
        cases hnext' : t.nextWithin rounds' with
        | none => simp [hnext'] at hy
        | some next' =>
          obtain ⟨hitem, hbehind⟩ := h.nextWithin hnext hnext'
          obtain ⟨item, s'⟩ := next
          obtain ⟨item', t'⟩ := next'
          obtain rfl : item = item' := hitem
          simp only [hnext] at hx
          simp only [hnext'] at hy
          cases item with
          | none =>
            obtain rfl := Option.some.inj hx
            obtain rfl := Option.some.inj hy
            exact ⟨rfl, hbehind⟩
          | some item => exact ih hbehind hx hy

end Splitter.Resembles

/-! ### Sessions -/

namespace Session

/-- Whether a word reaches to the place up to which an operation passes over bytes of the reader. -/
def InReach {σ : Type} (s : Session σ) (op : Operation) : Prop :=
  ∀ r ∈ s.reader?, op.InReach r.window.readPos

/-- Whether a word reaches to every such place, if operations are carried out in turn. -/
def AllInReach {σ : Type} [FiniteSource σ] (s : Session σ) : List Operation → Prop
  | [] => True
  | op :: ops => s.InReach op ∧ (s.perform op).2.AllInReach ops

instance {σ : Type} (s : Session σ) (op : Operation) : Decidable (s.InReach op) :=
  inferInstanceAs (Decidable (∀ r ∈ s.reader?, op.InReach r.window.readPos))

instance decidableAllInReach {σ : Type} [FiniteSource σ] :
    (s : Session σ) → (ops : List Operation) → Decidable (s.AllInReach ops)
  | _, [] => inferInstanceAs (Decidable True)
  | s, op :: ops =>
    have := decidableAllInReach (s.perform op).2 ops
    inferInstanceAs (Decidable (s.InReach op ∧ (s.perform op).2.AllInReach ops))

end Session

/-- Two sessions over a script resemble each other: what they hold does, and the accumulator is the
same. -/
inductive Session.Resembles : Session Script → Session Script → Prop
  /-- Both hold a reader. -/
  | reader {a b : Reader Script} (h : a.Resembles b) (out : Bytes) :
    Resembles ⟨.reader a, out⟩ ⟨.reader b, out⟩
  /-- Both hold the lines split from a reader. -/
  | splitter {s t : Splitter Script} (h : s.Resembles t) (out : Bytes) :
    Resembles ⟨.splitter s, out⟩ ⟨.splitter t, out⟩
  /-- Both hold a bare source. -/
  | source {source source' : Script} (h : source.withoutDelays = source'.withoutDelays)
    (out : Bytes) : Resembles ⟨.source source, out⟩ ⟨.source source', out⟩

namespace Session

/-- An operation on readers that resemble each other, in reach of both, comes to the same. -/
theorem onReader_resembles {a b : Reader Script} (h : a.Resembles b) {out : Bytes}
    {rounds rounds' : Nat} {op : Operation} (ha : op.InReach a.window.readPos)
    (hb : op.InReach b.window.readPos) {x y : Reply × Session Script}
    (hx : onReader rounds ⟨.reader a, out⟩ a op = some x)
    (hy : onReader rounds' ⟨.reader b, out⟩ b op = some y) : x.1 = y.1 ∧ x.2.Resembles y.2 := by
  cases op with
  | read buffer =>
    obtain ⟨hresult, hbuffer, hbehind⟩ := h.read buffer
    obtain rfl := Option.some.inj hx
    obtain rfl := Option.some.inj hy
    refine ⟨?_, .reader hbehind out⟩
    simp only [hresult, hbuffer]
  | readPlain buffer =>
    obtain ⟨hresult, hbuffer, hbehind⟩ := h.read buffer
    obtain rfl := Option.some.inj hx
    obtain rfl := Option.some.inj hy
    refine ⟨?_, .reader hbehind out⟩
    simp only [Reader.readPlain, hresult, hbuffer]
  | readSource buffer =>
    obtain ⟨hresult, hbuffer, hbehind⟩ := h.readSource buffer
    obtain rfl := Option.some.inj hx
    obtain rfl := Option.some.inj hy
    refine ⟨?_, .reader hbehind out⟩
    simp only [hresult, hbuffer]
  | readExact buffer =>
    obtain ⟨hresult, hbuffer, hbehind⟩ := h.readExactFrom #[] buffer
    obtain rfl := Option.some.inj hx
    obtain rfl := Option.some.inj hy
    refine ⟨?_, .reader hbehind out⟩
    simp only [Reader.readExact, hresult, hbuffer]
  | fill buffer =>
    obtain ⟨call, hcall, rfl⟩ := Option.map_eq_some_iff.1 hx
    obtain ⟨call', hcall', rfl⟩ := Option.map_eq_some_iff.1 hy
    obtain ⟨hresult, hbuffer, hbehind⟩ := h.fillWithin hcall hcall'
    refine ⟨?_, .reader hbehind out⟩
    simp only [hresult, hbuffer]
  | readByte =>
    obtain ⟨hresult, hbehind⟩ := h.readByte
    obtain rfl := Option.some.inj hx
    obtain rfl := Option.some.inj hy
    exact ⟨congrArg Reply.byte hresult, .reader hbehind out⟩
  | readLine delim =>
    obtain ⟨call, hcall, rfl⟩ := Option.map_eq_some_iff.1 hx
    obtain ⟨call', hcall', rfl⟩ := Option.map_eq_some_iff.1 hy
    obtain ⟨hresult, hbuffer, hbehind⟩ := h.lineWithin_start hcall hcall'
    refine ⟨?_, .reader hbehind out⟩
    simp only [hresult, hbuffer]
  | readLineInto delim =>
    obtain ⟨call, hcall, rfl⟩ := Option.map_eq_some_iff.1 hx
    obtain ⟨call', hcall', rfl⟩ := Option.map_eq_some_iff.1 hy
    obtain ⟨hresult, hbuffer, hbehind⟩ := h.lineWithin_start hcall hcall'
    rw [hresult, hbuffer]
    exact ⟨rfl, .reader hbehind call'.buffer⟩
  | readUntil delim =>
    obtain ⟨call, hcall, rfl⟩ := Option.map_eq_some_iff.1 hx
    obtain ⟨call', hcall', rfl⟩ := Option.map_eq_some_iff.1 hy
    obtain ⟨hresult, hbuffer, hbehind⟩ := h.untilWithin hcall hcall'
    rw [hresult, hbuffer]
    exact ⟨rfl, .reader hbehind call'.buffer⟩
  | fillBuffer =>
    obtain ⟨hresult, hbehind⟩ := h.fillBuffer
    obtain rfl := Option.some.inj hx
    obtain rfl := Option.some.inj hy
    exact ⟨congrArg Reply.available hresult, .reader hbehind out⟩
  | consume count =>
    rw [onReader_consume, passOver_of_lt _ ha] at hx
    rw [onReader_consume, passOver_of_lt _ hb] at hy
    obtain rfl := Option.some.inj hx
    obtain rfl := Option.some.inj hy
    exact ⟨rfl, .reader (h.skip count) out⟩
  | unread =>
    obtain rfl := Option.some.inj hx
    obtain rfl := Option.some.inj hy
    exact ⟨congrArg Reply.bytes h.unread, .reader h out⟩
  | split delim =>
    obtain rfl := Option.some.inj hx
    obtain rfl := Option.some.inj hy
    have hsplit : (a.split delim).Resembles (b.split delim) := ⟨h, rfl, rfl⟩
    exact ⟨rfl, .splitter hsplit out⟩
  | release =>
    obtain rfl := Option.some.inj hx
    obtain rfl := Option.some.inj hy
    exact ⟨rfl, .source h.steps_eq out⟩
  | describe | wrap | next | collect | delimiter | reclaim | takeOut =>
    obtain rfl := Option.some.inj hx
    obtain rfl := Option.some.inj hy
    exact ⟨rfl, .reader h out⟩

/-- An operation on splitters that resemble each other comes to the same. -/
theorem onSplitter_resembles {s t : Splitter Script} (h : s.Resembles t) {out : Bytes}
    {rounds rounds' : Nat} {op : Operation} {x y : Reply × Session Script}
    (hx : onSplitter rounds ⟨.splitter s, out⟩ s op = some x)
    (hy : onSplitter rounds' ⟨.splitter t, out⟩ t op = some y) :
    x.1 = y.1 ∧ x.2.Resembles y.2 := by
  cases op with
  | next =>
    obtain ⟨next, hnext, rfl⟩ := Option.map_eq_some_iff.1 hx
    obtain ⟨next', hnext', rfl⟩ := Option.map_eq_some_iff.1 hy
    obtain ⟨hitem, hbehind⟩ := h.nextWithin hnext hnext'
    exact ⟨congrArg Reply.item hitem, .splitter hbehind out⟩
  | collect =>
    obtain ⟨all, hall, rfl⟩ := Option.map_eq_some_iff.1 hx
    obtain ⟨all', hall', rfl⟩ := Option.map_eq_some_iff.1 hy
    obtain ⟨hitems, hbehind⟩ := h.foldWithin hall hall'
    refine ⟨?_, .splitter hbehind out⟩
    simp only [hitems]
  | delimiter =>
    obtain rfl := Option.some.inj hx
    obtain rfl := Option.some.inj hy
    exact ⟨congrArg Reply.delimiter h.delim_eq, .splitter h out⟩
  | reclaim =>
    obtain rfl := Option.some.inj hx
    obtain rfl := Option.some.inj hy
    exact ⟨rfl, .reader h.reader out⟩
  | read | readPlain | readSource | readExact | fill | readByte | readLine | readLineInto |
    readUntil | fillBuffer | consume | unread | describe | split | release | wrap | takeOut =>
    obtain rfl := Option.some.inj hx
    obtain rfl := Option.some.inj hy
    exact ⟨rfl, .splitter h out⟩

/-- Readers built alike from scripts with the same steps resemble each other. -/
theorem start?_resembles {source source' : Script}
    (h : source.withoutDelays = source'.withoutDelays) (start : Start) :
    (∃ e, start? source start = .error e ∧ start? source' start = .error e) ∨
      ∃ s t, start? source start = .ok s ∧ start? source' start = .ok t ∧
        ∀ out, Resembles { s with out } { t with out } := by
  have hbuild : ∀ config, (Reader.build source config).Resembles (.build source' config) :=
    fun _ => ⟨rfl, rfl, rfl, h⟩
  rcases start.reader?_cases Script with ⟨stop, hstop⟩ | ⟨config, -, hmade⟩
  · simp only [start?, hstop]
    exact .inl ⟨stop, rfl, rfl⟩
  · simp only [start?, hmade]
    cases start with
    | lines delim => exact .inr ⟨_, _, rfl, rfl, .splitter ⟨hbuild _, rfl, rfl⟩⟩
    | _ => exact .inr ⟨_, _, rfl, rfl, .reader (hbuild _)⟩

/-- An operation on bare sources with the same steps comes to the same. -/
theorem onSource_resembles {source source' : Script}
    (h : source.withoutDelays = source'.withoutDelays) (out : Bytes) (op : Operation) :
    (onSource ⟨.source source, out⟩ source op).1 = (onSource ⟨.source source', out⟩ source' op).1 ∧
      (onSource ⟨.source source, out⟩ source op).2.Resembles
        (onSource ⟨.source source', out⟩ source' op).2 := by
  cases op with
  | wrap start =>
    rcases start?_resembles h start with ⟨e, hs, ht⟩ | ⟨s, t, hs, ht, hfresh⟩
    · simp only [onSource, hs, ht, true_and]
      exact .source h out
    · simp only [onSource, hs, ht, true_and]
      exact hfresh out
  | _ => exact ⟨rfl, .source h out⟩

namespace Resembles

variable {s t : Session Script}

/-- Every operation on sessions that resemble each other, in reach of both, comes to the same. -/
theorem perform (h : s.Resembles t) {op : Operation} (hs : s.InReach op) (ht : t.InReach op) :
    (s.perform op).1 = (t.perform op).1 ∧ (s.perform op).2.Resembles (t.perform op).2 := by
  have hperform : s.performWithin s.rounds op = some (s.perform op) := (Option.some_get _).symm
  have hperform' : t.performWithin t.rounds op = some (t.perform op) := (Option.some_get _).symm
  by_cases htake : op = .takeOut
  · rw [performWithin, if_pos htake] at hperform hperform'
    rw [← Option.some.inj hperform, ← Option.some.inj hperform']
    cases h with
    | reader h out => exact ⟨rfl, .reader h #[]⟩
    | splitter h out => exact ⟨rfl, .splitter h #[]⟩
    | source h out => exact ⟨rfl, .source h #[]⟩
  · rw [performWithin, if_neg htake] at hperform hperform'
    cases h with
    | reader h out => exact onReader_resembles h (hs _ rfl) (ht _ rfl) hperform hperform'
    | splitter h out => exact onSplitter_resembles h hperform hperform'
    | source h out =>
      rw [← Option.some.inj hperform, ← Option.some.inj hperform']
      exact onSource_resembles h out op

/-- Sequences of operations on sessions that resemble each other are answered the same, and leave
sessions that resemble each other. -/
theorem performAll (h : s.Resembles t) {ops : List Operation} (hs : s.AllInReach ops)
    (ht : t.AllInReach ops) :
    (s.performAll ops).1 = (t.performAll ops).1 ∧
      (s.performAll ops).2.Resembles (t.performAll ops).2 := by
  induction ops generalizing s t with
  | nil => exact ⟨rfl, h⟩
  | cons op ops ih =>
    obtain ⟨hreply, hbehind⟩ := h.perform hs.1 ht.1
    obtain ⟨hreplies, hlast⟩ := ih hbehind hs.2 ht.2
    simp only [Session.performAll, hreply, hreplies, true_and]
    exact hlast

end Resembles

end Session

end BufferedReading
