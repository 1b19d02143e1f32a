import BufferedReading.Proofs.Account
import BufferedReading.Proofs.Rounds
import BufferedReading.Reader.Finite
import BufferedReading.Source.File
import BufferedReading.Source.Paced

/-!
# Readers of sources that serve bytes

Some sources do nothing but serve a byte string from its front. `ServesPieces` says that a source
writes some of the bytes that are left, at least one as long as it can, and never fails;
`ServesInFull` says that it fills every buffer unless it runs out of bytes. Bytes in memory are
served in full (`Cursor.servesInFull`), and a paced source serves them in pieces
(`Paced.servesPieces`). `Serves` asks for pieces only where it is known what is left, as it is of a
file that is no directory (`File.serves`).

A reader of such a source has bytes ahead of it, the unread ones and behind them those that the
source has left: `Reader.HasAhead`. Every read takes bytes from the front of them, and reports the
end of the stream only if there are none: see `Reader.HasAhead.read_cases`,
`Reader.HasAhead.readByte_eq` and `Reader.HasAhead.yields_readLineInto`.
-/

namespace BufferedReading

/-! ### Sources that serve bytes -/

section Sources

variable {σ : Type} [ByteSource σ]

/-- A source serves the bytes that it has left from their front, in pieces that are empty only if
none are left or none are asked for. -/
def ServesPieces (left : σ → List UInt8) : Prop :=
  ∀ (s : σ) (n : Nat), ∃ (piece : List UInt8) (s' : σ),
    ByteSource.read s n = (.honest piece.toArray, s') ∧ piece.length ≤ n ∧
      left s = piece ++ left s' ∧ (piece = [] → n = 0 ∨ left s = [])

/-- A source fills every buffer that it is given, or hands over all bytes that it has left. -/
def ServesInFull (left : σ → List UInt8) : Prop :=
  ∀ (s : σ) (n : Nat), ∃ s' : σ,
    ByteSource.read s n = (.honest ((left s).take n).toArray, s') ∧ left s' = (left s).drop n

/-- A buffer that is filled is filled with a piece. -/
theorem ServesInFull.servesPieces {left : σ → List UInt8} (h : ServesInFull left) :
    ServesPieces left := by
  intro s n
  obtain ⟨s', hread, hleft⟩ := h s n
  refine ⟨(left s).take n, s', hread, List.length_take_le _ _, ?_, List.take_eq_nil_iff.1⟩
  rw [hleft, List.take_append_drop]

/-- A source that serves bytes serves each of them once, and so cannot go on for ever. -/
@[reducible] def ServesPieces.finite {left : σ → List UInt8} (h : ServesPieces left) :
    FiniteSource σ where
  supply s := (left s).length
  supply_read_lt s n hfinal := by
    obtain ⟨piece, s', hread, -, hleft, -⟩ := h s n
    rw [hread, Answer.honest, Answer.isFinal, List.size_toArray, beq_eq_false_iff_ne] at hfinal
    rw [hread, hleft, List.length_append]
    exact Nat.lt_add_of_pos_left (Nat.pos_of_ne_zero hfinal)

/-- An answer to a request for `n` bytes is a piece from the front of those that are left. It is
empty only if none are left or none are asked for. -/
def Answer.Brings (answer : Answer) (n : Nat) (bytes rest : List UInt8) : Prop :=
  ∃ piece : List UInt8, answer = .honest piece.toArray ∧ piece.length ≤ n ∧ bytes = piece ++ rest ∧
    (piece = [] → n = 0 ∨ bytes = [])

/-- A source of which it is known what it has left serves that from its front, in pieces. -/
def Serves (left : σ → List UInt8 → Prop) : Prop :=
  ∀ (s : σ) (bytes : List UInt8) (n : Nat), left s bytes →
    ∃ answer s' rest, ByteSource.read s n = (answer, s') ∧ left s' rest ∧
      answer.Brings n bytes rest

/-- A source that serves pieces in every state serves them where it is known what is left. -/
theorem ServesPieces.serves {left : σ → List UInt8} (h : ServesPieces left) :
    Serves (left · = ·) := by
  rintro s bytes n rfl
  obtain ⟨piece, s', hread, hle, hleft, hnil⟩ := h s n
  exact ⟨_, s', _, hread, rfl, piece, rfl, hle, hleft, hnil⟩

/-- A stretch of a byte string is what stands first behind its start, and what stands behind the
stretch is behind that. -/
theorem Bytes.extract_behind (bytes : Bytes) (start count : Nat) :
    bytes.extract start (start + count) = ((bytes.toList.drop start).take count).toArray ∧
      bytes.toList.drop (start + (bytes.extract start (start + count)).size) =
        (bytes.toList.drop start).drop count := by
  have hlist : (bytes.extract start (start + count)).toList =
      (bytes.toList.drop start).take count := by
    rw [Array.toList_extract, List.extract_eq_take_drop, Nat.add_sub_cancel_left]
  refine ⟨Array.toList_inj.1 hlist, ?_⟩
  rw [← Array.length_toList, hlist, ← List.drop_drop, List.length_take]
  by_cases hle : count ≤ (bytes.toList.drop start).length
  · rw [Nat.min_eq_left hle]
  · have hgt := Nat.le_of_not_le hle
    rw [Nat.min_eq_right hgt, List.drop_length, List.drop_eq_nil_of_le hgt]

/-- The bytes that a cursor has left. -/
def Cursor.left (c : Cursor) : List UInt8 := c.bytes.toList.drop c.position

/-- Bytes in memory are served in full. -/
theorem Cursor.servesInFull : ServesInFull Cursor.left := by
  intro c n
  obtain ⟨hserved, hleft⟩ := c.bytes.extract_behind c.position n
  exact ⟨_, Prod.ext (congrArg Answer.honest hserved) rfl, hleft⟩

/-- The bytes that a paced source has left. -/
def Paced.left (p : Paced) : List UInt8 := p.bytes.toList.drop p.position

/-- Bytes that come in pieces are served in pieces. -/
theorem Paced.servesPieces : ServesPieces Paced.left := by
  intro p n
  obtain ⟨hserved, hleft⟩ := p.bytes.extract_behind p.position (min p.pace n)
  refine ⟨p.left.take (min p.pace n), _, Prod.ext (congrArg Answer.honest hserved) rfl, ?_, ?_, ?_⟩
  · exact Nat.le_trans (List.length_take_le _ _) (Nat.min_le_right ..)
  · have hbehind : (ByteSource.read p n).2.left = p.left.drop (min p.pace n) := hleft
    rw [hbehind, List.take_append_drop]
  · intro hnil
    have hpace : p.pace ≠ 0 := Nat.succ_ne_zero _
    rcases List.take_eq_nil_iff.1 hnil with hzero | hleft
    · exact .inl (by omega)
    · exact .inr hleft

/-- What an opened file has left: what is left of its contents. A directory has none. -/
def File.HasLeft : File → List UInt8 → Prop
  | regular contents, bytes => contents.left = bytes
  | directory, _ => False

/-- A file serves its contents. -/
theorem File.serves : Serves File.HasLeft := by
  rintro (contents | _) bytes n hleft
  · obtain ⟨answer, contents', rest, hread, hrest, hbrings⟩ :=
      Cursor.servesInFull.servesPieces.serves contents bytes n hleft
    exact ⟨answer, .regular contents', rest, congrArg (Prod.map id regular) hread, hrest, hbrings⟩
  · exact hleft.elim

end Sources

/-! ### Readers with bytes ahead -/

/-- What a delimiter read answers whose search has come so far when the stream ends. -/
def Verdict.result : Verdict → Except ReadError Bool
  | found => .ok true
  | starved => .ok false
  | overlong limit => .error (.lineTooLong limit)

namespace Reader

variable {σ : Type} {left : σ → List UInt8 → Prop} {config : Config} {bytes : List UInt8}
  {r : Reader σ}

/-- A reader has bytes ahead of it: the unread ones, and then those that its source has left. -/
structure HasAhead (r : Reader σ) (left : σ → List UInt8 → Prop) (config : Config)
    (bytes : List UInt8) : Prop where
  config_eq : r.config = config
  exists_left : ∃ rest, left r.source rest ∧ r.window.toList ++ rest = bytes

/-- A reader just built has ahead what its source has left. -/
theorem hasAhead_build (left : σ → List UInt8 → Prop) (source : σ) (h : left source bytes)
    (config : Config) : (build source config).HasAhead left config bytes :=
  ⟨rfl, bytes, h, by simp [build]⟩

/-- Without unread bytes the source alone has the bytes. -/
theorem HasAhead.left_of_unread (hr : r.HasAhead left config bytes)
    (hunread : r.window.toList = []) : left r.source bytes := by
  obtain ⟨rest, hleft, rfl⟩ := hr.exists_left
  rwa [hunread]

/-- Bytes that are taken out of the window are the first of those ahead. -/
theorem HasAhead.withWindow (hr : r.HasAhead left config bytes) {w : Window}
    {taken : List UInt8} (hw : r.window.toList = taken ++ w.toList) :
    ∃ rest, bytes = taken ++ rest ∧ (r.withWindow w).HasAhead left config rest := by
  obtain ⟨rest, hleft, rfl⟩ := hr.exists_left
  refine ⟨w.toList ++ rest, ?_, hr.config_eq, rest, hleft, rfl⟩
  rw [hw, List.append_assoc]

/-- Unread bytes are delivered from the front of those ahead. -/
theorem HasAhead.exists_deliver_eq (hr : r.HasAhead left config bytes) {buffer : Bytes}
    (hsize : buffer.size ≠ 0) (hunread : r.window.toList ≠ []) :
    ∃ count rest, 0 < count ∧ count ≤ buffer.size ∧ (r.deliver buffer).result = .ok count ∧
      bytes = (r.deliver buffer).buffer.toList.take count ++ rest ∧
      (r.deliver buffer).reader.HasAhead left config rest := by
  obtain ⟨count, hresult, hpos, hle⟩ := deliver_result hsize hunread
  have hdelivered := delivered_deliver r buffer
  simp only [Call.delivered, hresult] at hdelivered
  have hwindow : r.window.toList = (r.deliver buffer).buffer.toList.take count ++
      (r.deliver buffer).reader.window.toList := by
    rw [hdelivered, deliver, Window.toList_skip, List.take_append_drop]
  obtain ⟨rest, hbytes, hrest⟩ := hr.withWindow hwindow
  exact ⟨count, rest, hpos, hle, hresult, hbytes, hrest⟩

/-- Popping takes the first of the bytes ahead. -/
theorem HasAhead.pop_eq (hr : r.HasAhead left config bytes) (hunread : r.window.toList ≠ []) :
    r.window.pop.1 = bytes.head? ∧
      (r.withWindow r.window.pop.2).HasAhead left config bytes.tail := by
  obtain ⟨b, rest, hcons⟩ := List.exists_cons_of_ne_nil hunread
  have htail : r.window.toList = [b] ++ r.window.pop.2.toList := by
    rw [Window.toList_pop, hcons]
    rfl
  obtain ⟨rest, rfl, hpopped⟩ := hr.withWindow htail
  rw [Window.pop_fst, hcons]
  exact ⟨rfl, hpopped⟩

/-- An empty window takes in the first of the bytes that are left, or there are none. -/
theorem Filled.brings_cases {capacity : Nat} {answer : Answer} {w : Window}
    (hw : Filled capacity answer w) {rest : List UInt8} (h : answer.Brings capacity bytes rest)
    (hpos : capacity ≠ 0) :
    w.toList ++ rest = bytes ∧
      ((∃ count, answer.outcome capacity = .bytes count ∧ w.toList ≠ []) ∨
        (answer.outcome capacity = .ended ∧ bytes = [])) := by
  obtain ⟨piece, rfl, hle, rfl, hnil⟩ := h
  by_cases hpiece : piece = []
  · subst hpiece
    have hdry : w.toList = [] := hw.eq_nil rfl
    rw [hdry]
    exact ⟨rfl, .inr ⟨rfl, (hnil rfl).resolve_left hpos⟩⟩
  · have hz : piece.toArray.size ≠ 0 := by simpa using hpiece
    have ho : (Answer.honest piece.toArray).outcome capacity = .bytes piece.toArray.size := by
      simp only [Answer.honest, Answer.outcome, if_neg hz]
      exact if_pos hle
    have hlist : w.toList = piece := by
      rw [hw.toList_eq fun _ => Nat.le_refl _]
      simp only [Answer.honest, Answer.brought]
      exact (if_pos hle).trans (List.take_of_length_le (Nat.le_refl _))
    refine ⟨by rw [hlist], .inl ⟨_, ho, hw.ne_nil ho⟩⟩

/-! ### A search over the bytes ahead -/

/-- A delimiter read has come to what its search makes of the bytes ahead: its result, the bytes in
its accumulator and those that it leaves ahead are those of the search. -/
structure Yields (call : Call (Reader σ) (Except ReadError Bool)) (left : σ → List UInt8 → Prop)
    (config : Config) (walk : Scan.Walk) : Prop where
  result_eq : call.result = walk.verdict.result
  buffer_eq : call.buffer.toList = walk.taken
  hasAhead : call.reader.HasAhead left config walk.rest

/-- A search that comes to its end in the window makes of all bytes ahead what it makes of the
unread ones. -/
theorem HasAhead.yields_advance (hr : r.HasAhead left config bytes) {scan : Scan} {out : Bytes}
    {verdict : Verdict} (hv : (scan.advance r.window out).verdict = verdict)
    (hne : verdict ≠ .starved) :
    Yields ⟨verdict.result, (scan.advance r.window out).out,
      r.withWindow (scan.advance r.window out).window⟩ left config (scan.comesTo out bytes) := by
  obtain ⟨hverdict, -, hrest, hout⟩ := scan.advance_eq_walk r.window out
  obtain ⟨rest, hleft, rfl⟩ := hr.exists_left
  rw [hverdict] at hv
  rw [Scan.comesTo, Scan.walk_append_of_ne_starved _ (hv ▸ hne), hv]
  exact ⟨rfl, hout, hr.config_eq, rest, hleft, congrArg (· ++ rest) hrest⟩

/-- A search that wants more bytes has emptied the window, and goes on with the bytes then ahead to
where it would have come with all of them at once. -/
theorem HasAhead.advance_of_starved (hr : r.HasAhead left config bytes) {scan : Scan} {out : Bytes}
    (hv : (scan.advance r.window out).verdict = .starved) :
    ∃ rest, (r.withWindow (scan.advance r.window out).window).HasAhead left config rest ∧
      (scan.advance r.window out).scan.comesTo (scan.advance r.window out).out rest =
        scan.comesTo out bytes := by
  obtain ⟨hverdict, hscan, hrest, hout⟩ := scan.advance_eq_walk r.window out
  obtain ⟨rest, hleft, rfl⟩ := hr.exists_left
  rw [hverdict] at hv
  have hnone := Scan.rest_eq_nil_of_starved hv
  have htaken := scan.taken_append_rest r.window.toList
  rw [hnone, List.append_nil] at htaken
  rw [htaken] at hscan hout
  refine ⟨rest, ⟨hr.config_eq, rest, hleft, ?_⟩, ?_⟩
  · rw [window_withWindow, hrest, hnone]
    rfl
  · rw [Scan.comesTo, Scan.comesTo, Scan.walk_append _ hv, hscan, hout]
    simp only [List.append_assoc]

section Reads

variable [ByteSource σ]

/-- A refill of an empty window adds some of the bytes ahead, or there are none. -/
theorem HasAhead.refill_cases (hr : r.HasAhead left config bytes) (h : Serves left)
    (hunread : r.window.toList = []) :
    (∃ count r', r.refill = (.ok (.added count), r') ∧ r'.HasAhead left config bytes ∧
      r'.window.toList ≠ []) ∨
    (∃ r', r.refill = (.ok .ended, r') ∧ bytes = [] ∧ r'.HasAhead left config []) := by
  obtain ⟨answer, source, rest, hread, hleft, hbrings⟩ :=
    h r.source bytes r.capacity (hr.left_of_unread hunread)
  obtain ⟨w, hw, hrefill⟩ := exists_refill_eq hunread hread
  obtain ⟨hahead, hcases⟩ := hw.brings_cases hbrings (Nat.ne_of_gt r.window.capacity_pos)
  have hr' : ((r.meet ⟨.refill, r.capacity, .ready answer⟩ source).withWindow w).HasAhead left
      config bytes := ⟨hr.config_eq, rest, hleft, hahead⟩
  rw [hrefill]
  rcases hcases with ⟨count, ho, hne⟩ | ⟨ho, rfl⟩
  · rw [ho]
    exact .inl ⟨_, _, rfl, hr', hne⟩
  · rw [ho]
    exact .inr ⟨_, rfl, rfl, hr'⟩

/-- A read past an empty window takes bytes from the front of those ahead, or there are none. -/
theorem HasAhead.bypass_cases (hr : r.HasAhead left config bytes) (h : Serves left)
    {buffer : Bytes} (hsize : buffer.size ≠ 0) (hunread : r.window.toList = []) :
    (∃ count rest, 0 < count ∧ count ≤ buffer.size ∧ (r.bypass buffer).result = .ok count ∧
      bytes = (r.bypass buffer).buffer.toList.take count ++ rest ∧
      (r.bypass buffer).reader.HasAhead left config rest) ∨
    ((r.bypass buffer).result = .ok 0 ∧ bytes = [] ∧
      (r.bypass buffer).reader.HasAhead left config []) := by
  obtain ⟨_, source, rest, hread, hleft, piece, rfl, hle, hbytes, hnil⟩ :=
    h r.source bytes buffer.size (hr.left_of_unread hunread)
  rw [bypass_eq hread]
  have hrest : (r.meet ⟨.bypass, buffer.size, .ready (.honest piece.toArray)⟩ source).HasAhead left
      config rest := by
    refine ⟨hr.config_eq, rest, hleft, ?_⟩
    rw [window_meet, hunread]
    rfl
  have hfront : ((Answer.honest piece.toArray).onto buffer).toList.take piece.length = piece := by
    have honto : ((Answer.honest piece.toArray).onto buffer).toList = _ :=
      Bytes.toList_overwrite_zero hle
    rw [honto]
    exact List.take_left
  by_cases hnone : piece = []
  · have hbytesNil : bytes = [] := (hnil hnone).resolve_left hsize
    rw [hbytesNil, hnone, List.nil_append] at hbytes
    rw [← hbytes, hnone] at hrest
    rw [hnone]
    exact .inr ⟨rfl, hbytesNil, hrest⟩
  · refine .inl ⟨piece.length, rest, List.length_pos_iff.2 hnone, hle, rfl, ?_, hrest⟩
    rw [hfront]
    exact hbytes

/-- A read into a buffer that can hold a byte takes bytes from the front of those ahead, or reports
that there are none. -/
theorem HasAhead.read_cases (hr : r.HasAhead left config bytes) (h : Serves left)
    {buffer : Bytes} (hsize : buffer.size ≠ 0) :
    (∃ count rest, 0 < count ∧ count ≤ buffer.size ∧ (r.read buffer).result = .ok count ∧
      bytes = (r.read buffer).buffer.toList.take count ++ rest ∧
      (r.read buffer).reader.HasAhead left config rest) ∨
    ((r.read buffer).result = .ok 0 ∧ bytes = [] ∧
      (r.read buffer).reader.HasAhead left config []) := by
  by_cases hunread : r.window.toList = []
  · by_cases hcap : r.capacity ≤ buffer.size
    · rw [read_of_bypass hsize hunread hcap]
      exact hr.bypass_cases h hsize hunread
    · rcases hr.refill_cases h hunread with ⟨count, r', hrefill, hr', hne⟩ |
        ⟨r', hrefill, hnone, hr'⟩
      · rw [read_of_refill hsize hunread hcap hrefill]
        exact .inl (hr'.exists_deliver_eq hsize hne)
      · rw [read_of_refill hsize hunread hcap hrefill]
        exact .inr ⟨rfl, hnone, hr'⟩
  · rw [read_of_unread hsize hunread]
    exact .inl (hr.exists_deliver_eq hsize hunread)

/-- A read of one byte takes the first of the bytes ahead, or reports that there are none. -/
theorem HasAhead.readByte_eq (hr : r.HasAhead left config bytes) (h : Serves left) :
    r.readByte.1 = .ok bytes.head? ∧ r.readByte.2.HasAhead left config bytes.tail := by
  by_cases hunread : r.window.toList = []
  · rcases hr.refill_cases h hunread with ⟨count, r', hrefill, hr', hne⟩ |
      ⟨r', hrefill, rfl, hr'⟩
    · rw [readByte_of_refill hunread hrefill]
      obtain ⟨hhead, htail⟩ := hr'.pop_eq hne
      exact ⟨congrArg Except.ok hhead, htail⟩
    · rw [readByte_of_refill hunread hrefill]
      obtain ⟨rest, hleft, hnil⟩ := hr'.exists_left
      obtain ⟨hdry, rfl⟩ := List.append_eq_nil_iff.1 hnil
      refine ⟨?_, hr'.config_eq, [], hleft, ?_⟩
      · rw [byteBehind, Window.pop_fst, hdry, List.head?_nil]
      · simp only [byteBehind, window_withWindow, Window.toList_pop, hdry, List.tail_nil,
          List.append_nil]
  · rw [readByte_of_unread hunread]
    obtain ⟨hhead, htail⟩ := hr.pop_eq hunread
    exact ⟨congrArg Except.ok hhead, htail⟩

/-- A delimiter read that comes to an end has come to what its search does. -/
theorem HasAhead.yields_lineWithin (hr : r.HasAhead left config bytes) (h : Serves left)
    {rounds : Nat} {scan : Scan} {out : Bytes} {call : Call (Reader σ) (Except ReadError Bool)}
    (hcall : lineWithin rounds scan r out = some call) :
    Yields call left config (scan.comesTo out bytes) := by
  -- what the search comes to stays the same with each round
  induction rounds generalizing scan r out bytes with
  | zero => simp [lineWithin] at hcall
  | succ rounds ih =>
    cases hv : (scan.advance r.window out).verdict with
    | found =>
      rw [lineWithin_of_found hv, Option.some.injEq] at hcall
      rw [← hcall]
      exact hr.yields_advance hv (by simp)
    | overlong limit =>
      rw [lineWithin_of_overlong hv, Option.some.injEq] at hcall
      rw [← hcall]
      exact hr.yields_advance hv (by simp)
    | starved =>
      obtain ⟨rest, hstep, hcomes⟩ := hr.advance_of_starved hv
      rw [← hcomes]
      rcases hstep.refill_cases h (Scan.toList_advance_of_starved hv) with
        ⟨count, r', hrefill, hr', -⟩ | ⟨r', hrefill, rfl, hr'⟩
      · rw [lineWithin_of_refill hv hrefill, lineBehind] at hcall
        exact ih hr' hcall
      · rw [lineWithin_of_refill hv hrefill] at hcall
        obtain rfl := Option.some.inj hcall
        rw [Scan.comesTo_nil, Scan.unmet_advance_of_starved hv]
        exact ⟨rfl, rfl, hr'⟩

end Reads

/-- A delimiter read comes to what its search does. -/
theorem HasAhead.yields_readLineInto [FiniteSource σ] (hr : r.HasAhead left config bytes)
    (h : Serves left) (delim : UInt8) (out : Bytes) :
    Yields (r.readLineInto delim out) left config
      ((Scan.start delim config.lineLimit).comesTo out bytes) := by
  have hcall : lineWithin (r.stock + 1) (.start delim r.config.lineLimit) r out =
      some (r.readLineInto delim out) := (Option.some_get _).symm
  have hyields := hr.yields_lineWithin h hcall
  rwa [hr.config_eq] at hyields

end Reader

end BufferedReading
