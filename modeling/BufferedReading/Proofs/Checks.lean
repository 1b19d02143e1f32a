import Mathlib.Control.Monad.Basic
import BufferedReading.Check.Lines
import BufferedReading.Check.MixedReads
import BufferedReading.Proofs.Cut
import BufferedReading.Proofs.Serving

/-!
# No check of reading ever fails

The checks of `BufferedReading.Check.Lines` and `BufferedReading.Check.MixedReads` hold for every
byte string, capacity, limit, pacing of the source and choice of reads (`checks_hold`). Both read
from a source that serves bytes, so each read takes bytes from the front of those that the reader
has ahead (`Reader.HasAhead`), and a check compares the bytes taken with those there were.

Split without a limit, bytes come back as the lines that `cut` makes of them
(`Splitter.collect_eq`). Under a limit a read of a line takes at least one byte unless it is the
last (`Reader.HasAhead.readLineInto_cases`), so that reading on after a line that was too long comes
to an end. The mixed reads are told one by one (`Reader.PickedReads`): `Reader.HasAhead.take_eq` is
their step, and `Reader.HasAhead.drain_eq` what is read behind them.
-/

namespace BufferedReading

/-! ### The lines of bytes -/

/-- The lines of bytes that have been cut: the pieces are complete, and what stands behind them is
not, if anything does. -/
def Cut.lines (c : Cut) : List Line :=
  c.pieces.map (⟨·.toArray, true⟩) ++
    if c.remainder = [] then [] else [⟨c.remainder.toArray, false⟩]

section Lines

variable {delim : UInt8}

/-- Bytes without a delimiter are a partial line, if they are any. -/
theorem lines_cut_of_notMem {bytes : List UInt8} (h : delim ∉ bytes) :
    (cut delim bytes).lines = if bytes = [] then [] else [⟨bytes.toArray, false⟩] := by
  rw [cut_of_notMem h]
  rfl

/-- The first line ends with the first delimiter. -/
theorem lines_cut_append_cons {before : List UInt8} (h : delim ∉ before) (after : List UInt8) :
    (cut delim (before ++ delim :: after)).lines =
      ⟨(before ++ [delim]).toArray, true⟩ :: (cut delim after).lines := by
  rw [cut_append_cons h]
  rfl

/-- The lines of bytes joined are the bytes. -/
theorem flatMap_lines_cut (delim : UInt8) (bytes : List UInt8) :
    (cut delim bytes).lines.flatMap (·.data.toList) = bytes := by
  have hpieces : ∀ pieces : List (List UInt8),
      (pieces.map fun piece => (⟨piece.toArray, true⟩ : Line)).flatMap (·.data.toList) =
        pieces.flatten := by
    intro pieces
    induction pieces with
    | nil => rfl
    | cons piece pieces ih => rw [List.map_cons, List.flatMap_cons, ih, List.flatten_cons]
  rw [Cut.lines, List.flatMap_append, hpieces]
  conv => rhs; rw [← (cut_behind delim bytes).flatten_append]
  congr 1
  split
  · next hnil => rw [hnil, List.flatMap_nil]
  · exact List.append_nil _

/-- The check counts delimiters, and one piece more if something stands behind the last of them. -/
theorem pieces_toArray (delim : UInt8) (bytes : List UInt8) :
    LineCheck.pieces delim bytes.toArray =
      bytes.count delim + if bytes = [] ∨ bytes.getLast? = some delim then 0 else 1 := by
  simp [LineCheck.pieces]

/-- There are as many lines as the check counts pieces. -/
theorem length_lines_cut (delim : UInt8) (bytes : List UInt8) :
    (cut delim bytes).lines.length = LineCheck.pieces delim bytes.toArray := by
  induction bytes using delim_induction delim with
  | notMem bytes h =>
    have hlast : bytes.getLast? ≠ some delim := fun hlast => h (List.mem_of_getLast? hlast)
    rw [lines_cut_of_notMem h, pieces_toArray, List.count_eq_zero.2 h]
    by_cases hnil : bytes = []
    · simp [hnil]
    · simp [hnil, hlast]
  | cons before after hbefore ih =>
    have hcount : (before ++ delim :: after).count delim = after.count delim + 1 := by
      rw [List.count_append, List.count_cons_self, List.count_eq_zero.2 hbefore, Nat.zero_add]
    rw [lines_cut_append_cons hbefore, List.length_cons, ih, pieces_toArray, pieces_toArray,
      hcount]
    simp only [getLast?_append_delim_cons, List.append_eq_nil_iff, reduceCtorEq, and_false,
      false_or]
    omega

end Lines

/-! ### Splitting without a limit -/

namespace Splitter

variable {σ : Type} {left : σ → List UInt8 → Prop} {config : Config} {bytes : List UInt8}
  {s s' : Splitter σ}

/-- The next item of an open splitter is the first line of the bytes ahead; a partial line is the
last. -/
theorem nextWithin_cases [ByteSource σ] (hr : s.reader.HasAhead left config bytes)
    (h : Serves left) (hlimit : config.lineLimit = none) (hopen : s.finished = false)
    {rounds : Nat} {item? : Option Item} (hnext : s.nextWithin rounds = some (item?, s')) :
    (∃ line rest, (cut s.delim bytes).lines = line :: (cut s.delim rest).lines ∧
      item? = some (.ok line) ∧ s'.delim = s.delim ∧ s'.finished = false ∧
      s'.reader.HasAhead left config rest) ∨
    (∃ line, (cut s.delim bytes).lines = [line] ∧ item? = some (.ok line) ∧ s'.finished = true) ∨
    ((cut s.delim bytes).lines = [] ∧ item? = none) := by
  rw [nextWithin, hopen, if_neg Bool.false_ne_true, hr.config_eq, hlimit] at hnext
  obtain ⟨⟨result, buffer, reader⟩, hcall, hconclude⟩ := Option.map_eq_some_iff.1 hnext
  have hyields := hr.yields_lineWithin h hcall
  rcases delim_cases s.delim bytes with hnot | ⟨before, after, rfl, hbefore⟩
  · have hwalk : (Scan.start s.delim none).walk bytes = ⟨.starved, bytes, []⟩ :=
      Scan.walk_start_of_notMem hnot
    rw [Scan.comesTo_empty, hwalk] at hyields
    obtain ⟨hresult, hbuffer, -⟩ := hyields
    obtain rfl : result = .ok false := hresult
    obtain rfl : buffer = bytes.toArray := Array.toList_inj.1 hbuffer
    rw [lines_cut_of_notMem hnot]
    by_cases hnil : bytes = []
    · subst hnil
      obtain ⟨rfl, rfl⟩ := Prod.mk.inj hconclude
      exact .inr (.inr ⟨rfl, rfl⟩)
    · have hline : bytes.toArray.isEmpty = false := by simpa using hnil
      simp only [conclude, hline, Bool.false_eq_true, if_false] at hconclude
      obtain ⟨rfl, rfl⟩ := Prod.mk.inj hconclude
      exact .inr (.inl ⟨_, if_neg hnil, rfl, rfl⟩)
  · have hwalk : (Scan.start s.delim none).walk (before ++ s.delim :: after) =
        ⟨.found, before ++ [s.delim], after⟩ := Scan.walk_start_of_mem hbefore after
    rw [Scan.comesTo_empty, hwalk] at hyields
    obtain ⟨hresult, hbuffer, hreader⟩ := hyields
    obtain rfl : result = .ok true := hresult
    obtain rfl : buffer = (before ++ [s.delim]).toArray := Array.toList_inj.1 hbuffer
    obtain ⟨rfl, rfl⟩ := Prod.mk.inj hconclude
    exact .inl ⟨_, after, lines_cut_append_cons hbefore after, rfl, rfl, rfl, hreader⟩

/-- A fold over the items of an open splitter is one over the lines of the bytes ahead. -/
theorem foldWithin_eq [ByteSource σ] (hr : s.reader.HasAhead left config bytes)
    (h : Serves left) (hlimit : config.lineLimit = none) (hopen : s.finished = false)
    {β : Type} {f : β → Item → β} {rounds : Nat} {init result : β}
    (hfold : s.foldWithin f rounds init = some (result, s')) :
    result = ((cut s.delim bytes).lines.map Except.ok).foldl f init := by
  induction rounds generalizing s bytes init with
  | zero => simp [foldWithin] at hfold
  | succ rounds ih =>
    rw [foldWithin] at hfold
    cases hnext : s.nextWithin rounds with
    | none => simp [hnext] at hfold
    | some outcome =>
      obtain ⟨item?, next⟩ := outcome
      rw [hnext] at hfold
      rcases nextWithin_cases hr h hlimit hopen hnext with
        ⟨line, rest, hlines, rfl, hdelim, hopen', hr'⟩ | ⟨line, hlines, rfl, hfinished⟩ |
        ⟨hlines, rfl⟩
      · rw [hlines, List.map_cons, List.foldl_cons, ← hdelim]
        exact ih hr' hopen' hfold
      · -- behind a partial line there is nothing, so the fold ends in the next round
        rw [hlines]
        cases rounds with
        | zero => simp [foldWithin] at hfold
        | succ rounds =>
          simp only [foldWithin, nextWithin, hfinished, if_true, Option.some.injEq,
            Prod.mk.injEq] at hfold
          exact hfold.1.symm
      · rw [hlines]
        exact (congrArg Prod.fst (Option.some.inj hfold)).symm

/-- A fold over all items of a splitter without a limit is one over the lines of the bytes ahead. -/
theorem fold_eq [FiniteSource σ] (hr : s.reader.HasAhead left config bytes) (h : Serves left)
    (hlimit : config.lineLimit = none) (hopen : s.finished = false) {β : Type} (f : β → Item → β)
    (init : β) : (s.fold f init).1 = ((cut s.delim bytes).lines.map Except.ok).foldl f init := by
  have hfold : s.foldWithin f (s.reader.stock + 2) init = some (s.fold f init) :=
    (Option.some_get _).symm
  exact foldWithin_eq hr h hlimit hopen hfold

/-- The items of a splitter without a limit are the lines of the bytes ahead. -/
theorem collect_eq [FiniteSource σ] (hr : s.reader.HasAhead left config bytes)
    (h : Serves left) (hlimit : config.lineLimit = none) (hopen : s.finished = false) :
    s.collect.1.toList = (cut s.delim bytes).lines.map Except.ok := by
  rw [collect, fold_eq hr h hlimit hopen]
  simp

end Splitter

/-- Lines joined are what the check joins. -/
theorem joined?_lines (lines : List Line) :
    LineCheck.joined? (lines.map Except.ok).toArray =
      some (lines.flatMap (·.data.toList)).toArray := by
  have hfold : ∀ bytes : Bytes, (lines.map Except.ok).foldl
      (fun bytes (item : Item) => do return (← bytes) ++ (← item.toOption).data) (some bytes) =
        some (bytes ++ (lines.flatMap (·.data.toList)).toArray) := by
    induction lines with
    | nil => simp
    | cons line lines ih =>
      intro bytes
      rw [List.map_cons, List.foldl_cons, List.flatMap_cons]
      have hstep : (do return (← some bytes) ++ (← (Except.ok line : Item).toOption).data) =
          some (bytes ++ line.data) := rfl
      rw [hstep, ih, Array.append_assoc]
      congr 2
      apply Array.toList_inj.1
      rw [Array.toList_append]
  rw [LineCheck.joined?, List.foldl_toArray]
  simpa using hfold #[]

/-! ### Reading on after a line that is too long -/

namespace Reader

variable {σ : Type} [FiniteSource σ] {left : σ → List UInt8 → Prop} {config : Config}
  {bytes : List UInt8} {r : Reader σ} {limit : Nat}

/-- A read of a line under a limit takes bytes from the front of those ahead: a complete line within
the limit, as many bytes as the limit allows, or all that are left. -/
theorem HasAhead.readLineInto_cases (hr : r.HasAhead left config bytes) (h : Serves left)
    (hlimit : config.lineLimit = some limit) (delim : UInt8) :
    ∃ out rest r', bytes = out.toList ++ rest ∧ r'.HasAhead left config rest ∧
      ((r.readLineInto delim #[] = ⟨.ok true, out, r'⟩ ∧ 0 < out.size ∧ out.size ≤ limit) ∨
        (r.readLineInto delim #[] = ⟨.error (.lineTooLong limit), out, r'⟩ ∧ out.size = limit) ∨
        (r.readLineInto delim #[] = ⟨.ok false, out, r'⟩ ∧ rest = [] ∧ out.size ≤ limit)) := by
  have hyields := hr.yields_readLineInto h delim #[]
  rw [Scan.comesTo_empty, hlimit] at hyields
  obtain ⟨hresult, hbuffer, hreader⟩ := hyields
  obtain ⟨result, out, r', hcall⟩ : ∃ result out r', r.readLineInto delim #[] = ⟨result, out, r'⟩ :=
    ⟨_, _, _, rfl⟩
  rw [hcall] at hresult hbuffer hreader ⊢
  have hbuffer : out.toList = ((Scan.start delim (some limit)).walk bytes).taken := hbuffer
  have hbytes := (Scan.start delim (some limit)).taken_append_rest bytes
  have hsize : out.size = ((Scan.start delim (some limit)).walk bytes).taken.length := by
    rw [← hbuffer, Array.length_toList]
  have hle : (Scan.start delim (some limit)).taken + out.size ≤ limit := by
    rw [hsize]
    exact Scan.taken_le_limit rfl (Nat.zero_le _) bytes
  have hle : out.size ≤ limit := Nat.zero_add out.size ▸ hle
  refine ⟨out, _, r', by rw [hbuffer, hbytes], hreader, ?_⟩
  cases hv : ((Scan.start delim (some limit)).walk bytes).verdict with
  | found =>
    obtain ⟨before, htaken⟩ := Scan.taken_of_found hv
    rw [htaken, List.length_append] at hsize
    rw [hv] at hresult
    obtain rfl : result = .ok true := hresult
    exact .inl ⟨rfl, by rw [hsize]; exact Nat.succ_pos _, hle⟩
  | overlong most =>
    obtain rfl := Option.some.inj (Scan.limit_of_overlong hv)
    have hge : limit ≤ 0 + out.size := hsize ▸ Scan.limit_le_of_overlong hv
    rw [Nat.zero_add] at hge
    rw [hv] at hresult
    obtain rfl : result = .error (.lineTooLong limit) := hresult
    exact .inr (.inl ⟨rfl, Nat.le_antisymm hle hge⟩)
  | starved =>
    rw [hv] at hresult
    obtain rfl : result = .ok false := hresult
    exact .inr (.inr ⟨rfl, Scan.rest_eq_nil_of_starved hv, hle⟩)

/-- The results and the bytes of reads of lines, each into an empty accumulator, until one of them
is not complete, and the reader behind them; at most so many. A line that is too long does not end
them. -/
def lineReads (r : Reader σ) (delim : UInt8) :
    Nat → List (Except ReadError Bool × Bytes) × Reader σ
  | 0 => ([], r)
  | reads + 1 =>
    match r.readLineInto delim #[] with
    | ⟨.ok false, out, r⟩ => ([(.ok false, out)], r)
    | ⟨result, out, r⟩ => (lineReads r delim reads).map ((result, out) :: ·) id

/-- Reads of lines under a limit, joined, are the bytes. The last of them is not complete; each one
before it is complete, or has met the limit with as many bytes. No line is longer than the limit. -/
inductive Recovers (limit : Nat) : List UInt8 → List (Except ReadError Bool × Bytes) → Prop where
  /-- The last line. -/
  | last (out : Bytes) : out.size ≤ limit → Recovers limit out.toList [(.ok false, out)]
  /-- A complete line. -/
  | complete {rest : List UInt8} {reads : List (Except ReadError Bool × Bytes)} (out : Bytes) :
    out.size ≤ limit → Recovers limit rest reads →
      Recovers limit (out.toList ++ rest) ((.ok true, out) :: reads)
  /-- A line that is too long. -/
  | overlong {rest : List UInt8} {reads : List (Except ReadError Bool × Bytes)} (out : Bytes) :
    out.size = limit → Recovers limit rest reads →
      Recovers limit (out.toList ++ rest) ((.error (.lineTooLong limit), out) :: reads)

/-- One read more than there are bytes is enough to read all of them. -/
theorem HasAhead.recovers_lineReads (hr : r.HasAhead left config bytes) (h : Serves left)
    (hlimit : config.lineLimit = some limit) (hpos : 0 < limit) (delim : UInt8) {reads : Nat}
    (hreads : bytes.length < reads) : Recovers limit bytes (r.lineReads delim reads).1 := by
  induction reads generalizing r bytes with
  | zero => omega
  | succ reads ih =>
    obtain ⟨out, rest, r', rfl, hrest, hcases⟩ := hr.readLineInto_cases h hlimit delim
    rw [List.length_append, Array.length_toList] at hreads
    rw [lineReads]
    rcases hcases with ⟨hcall, hsome, hle⟩ | ⟨hcall, hsize⟩ | ⟨hcall, rfl, hle⟩
    · rw [hcall]
      exact .complete out hle (ih hrest (by omega))
    · rw [hcall]
      exact .overlong out hsize (ih hrest (by omega))
    · rw [hcall, List.append_nil]
      exact .last out hle

/-- The check of reads under a limit makes these reads, and takes all bytes ahead. -/
theorem HasAhead.takeWithin_eq (hr : r.HasAhead left config bytes) (h : Serves left)
    (hlimit : config.lineLimit = some limit) (hpos : 0 < limit) {lines : Nat}
    (hlines : bytes.length < lines) (taken : Bytes) :
    LineCheck.takeWithin limit lines r taken =
      (some (taken ++ bytes.toArray), (r.lineReads newline lines).2) := by
  induction lines generalizing r bytes taken with
  | zero => omega
  | succ lines ih =>
    obtain ⟨line, rest, r', rfl, hrest, hcases⟩ := hr.readLineInto_cases h hlimit newline
    have hjoined : taken ++ (line.toList ++ rest).toArray = taken ++ line ++ rest.toArray := by
      apply Array.toList_inj.1
      simp
    rw [List.length_append, Array.length_toList] at hlines
    rw [LineCheck.takeWithin, lineReads, hjoined]
    rcases hcases with ⟨hcall, hsome, hle⟩ | ⟨hcall, hsize⟩ | ⟨hcall, rfl, hle⟩
    · simp only [hcall, if_neg (Nat.not_lt.2 hle), if_true]
      exact ih hrest (by omega) _
    · simp only [hcall, if_pos hsize]
      exact ih hrest (by omega) _
    · simp [hcall, if_neg (Nat.not_lt.2 hle)]

end Reader

/-! ### Reads of all kinds -/

/-- The first so many of picks that come again and again. -/
def cycled (picks : List UInt8) (reads : Nat) : List UInt8 :=
  (List.replicate reads picks).flatten.take reads

/-- One copy more of the picks changes nothing in front of so many of them. -/
theorem take_append_copies (turn picks : List UInt8) (reads : Nat) :
    (turn ++ (List.replicate (reads + 1) picks).flatten).take reads =
      (turn ++ (List.replicate reads picks).flatten).take reads := by
  rw [List.replicate_succ', List.flatten_append, List.flatten_singleton, ← List.append_assoc]
  by_cases hpicks : picks = []
  · rw [hpicks, List.append_nil]
  · have hpos : 0 < picks.length := List.length_pos_iff.2 hpicks
    apply List.take_append_of_le_length
    rw [List.length_append, List.length_flatten, List.map_replicate, List.sum_replicate_nat]
    have := Nat.le_mul_of_pos_right reads hpos
    omega

/-- The pick whose turn it is, and those behind it. -/
theorem take_turn_eq {turn picks turn' : List UInt8} {pick : UInt8}
    (h : (if turn.isEmpty then picks else turn) = pick :: turn') (reads : Nat) :
    (turn ++ (List.replicate (reads + 1) picks).flatten).take (reads + 1) =
      pick :: (turn' ++ (List.replicate reads picks).flatten).take reads := by
  cases turn with
  | nil =>
    obtain rfl : picks = pick :: turn' := h
    rw [List.replicate_succ, List.flatten_cons, List.nil_append, List.cons_append,
      List.take_succ_cons]
  | cons first turn =>
    obtain ⟨rfl, rfl⟩ := List.cons.inj (h : first :: turn = pick :: turn')
    rw [List.cons_append, List.take_succ_cons, take_append_copies]

namespace Reader

section Mixed

variable {σ : Type} [FiniteSource σ] {left : σ → List UInt8 → Prop} {config : Config}
  {bytes : List UInt8} {r : Reader σ}

/-- What a picked read takes. A pick divisible by three picks a byte, one that leaves one a line
that it delimits, and one that leaves two a buffer of its size. No such read fails, a complete line
ends with its delimiter, and no count is greater than the buffer. -/
inductive PickedRead (pick : UInt8) (r : Reader σ) : MixedCheck.Taken → Reader σ → Prop where
  /-- A byte. -/
  | byte {b : UInt8} {r' : Reader σ} : pick % 3 = 0 → r.readByte = (.ok (some b), r') →
    PickedRead pick r ⟨#[b], false⟩ r'
  /-- The end of the stream in place of a byte. -/
  | noByte {r' : Reader σ} : pick % 3 = 0 → r.readByte = (.ok none, r') →
    PickedRead pick r ⟨#[], true⟩ r'
  /-- A complete line. -/
  | line {data : Bytes} {r' : Reader σ} : pick % 3 = 1 → r.readLine pick = (.ok ⟨data, true⟩, r') →
    data.back? = some pick → PickedRead pick r ⟨data, false⟩ r'
  /-- The bytes in front of the end of the stream in place of a complete line. -/
  | lastLine {data : Bytes} {r' : Reader σ} : pick % 3 = 1 →
    r.readLine pick = (.ok ⟨data, false⟩, r') → PickedRead pick r ⟨data, true⟩ r'
  /-- A buffer. -/
  | buffer {count : Nat} {buffer : Bytes} {r' : Reader σ} : pick % 3 = 2 →
    r.read (Array.replicate pick.toNat 0) = ⟨.ok count, buffer, r'⟩ → count ≤ pick.toNat →
    PickedRead pick r ⟨buffer.extract 0 count, count == 0 && pick.toNat != 0⟩ r'

/-- Picked reads, one after the other, until one of them meets the end of the stream, with their
bytes joined. Behind none of them are there more unread bytes than the window holds. -/
inductive PickedReads : List UInt8 → Reader σ → Bytes → Reader σ → Prop where
  /-- No pick is left. -/
  | none (r : Reader σ) : PickedReads [] r #[] r
  /-- The end of the stream is met. -/
  | last {pick : UInt8} {picks : List UInt8} {r r' : Reader σ} {taken : MixedCheck.Taken} :
    PickedRead pick r taken r' → r'.buffered ≤ r'.capacity → taken.ended = true →
      PickedReads (pick :: picks) r taken.bytes r'
  /-- Another read follows. -/
  | more {pick : UInt8} {picks : List UInt8} {r r' r'' : Reader σ} {taken : MixedCheck.Taken}
    {bytes : Bytes} : PickedRead pick r taken r' → r'.buffered ≤ r'.capacity →
      taken.ended = false → PickedReads picks r' bytes r'' →
      PickedReads (pick :: picks) r (taken.bytes ++ bytes) r''

/-- Reads of 64 bytes until one of them takes nothing, with their bytes joined. -/
inductive Drained : Reader σ → Bytes → Reader σ → Prop where
  /-- Nothing is left. -/
  | last {r r' : Reader σ} {buffer : Bytes} :
    r.read (Array.replicate 64 0) = ⟨.ok 0, buffer, r'⟩ → Drained r #[] r'
  /-- Another read follows. -/
  | more {r r' r'' : Reader σ} {count : Nat} {buffer bytes : Bytes} :
    r.read (Array.replicate 64 0) = ⟨.ok count, buffer, r'⟩ → count ≠ 0 → count ≤ 64 →
      Drained r' bytes r'' → Drained r (buffer.extract 0 count ++ bytes) r''

/-- The check makes the read that is picked, which takes bytes from the front of those ahead. -/
def TakesAhead (left : σ → List UInt8 → Prop) (config : Config) (bytes : List UInt8)
    (pick : UInt8) (r : Reader σ) (outcome : Option MixedCheck.Taken × Reader σ) : Prop :=
  ∃ taken rest, outcome.1 = some taken ∧ PickedRead pick r taken outcome.2 ∧
    bytes = taken.bytes.toList ++ rest ∧ outcome.2.HasAhead left config rest

/-- A byte is taken. -/
theorem HasAhead.takeByte_eq (hr : r.HasAhead left config bytes) (h : Serves left) {pick : UInt8}
    (hpick : pick % 3 = 0) : TakesAhead left config bytes pick r (MixedCheck.takeByte r) := by
  obtain ⟨hbyte, hrest⟩ := hr.readByte_eq h
  obtain ⟨result, r', hcall⟩ : ∃ result r', r.readByte = (result, r') := ⟨_, _, rfl⟩
  rw [hcall] at hbyte hrest
  obtain rfl : result = .ok bytes.head? := hbyte
  rw [MixedCheck.takeByte, hcall]
  cases bytes with
  | nil => exact ⟨_, [], rfl, .noByte hpick hcall, rfl, hrest⟩
  | cons b bytes => exact ⟨_, bytes, rfl, .byte hpick hcall, rfl, hrest⟩

/-- A line is taken, which ends with its delimiter if it is complete. -/
theorem HasAhead.takeLine_eq (hr : r.HasAhead left config bytes) (h : Serves left)
    (hlimit : config.lineLimit = none) {pick : UInt8} (hpick : pick % 3 = 1) :
    TakesAhead left config bytes pick r (MixedCheck.takeLine r pick) := by
  have hyields := hr.yields_readLineInto h pick #[]
  rw [Scan.comesTo_empty, hlimit] at hyields
  obtain ⟨hresult, hbuffer, hreader⟩ := hyields
  have hbytes := (Scan.start pick none).taken_append_rest bytes
  obtain ⟨result, out, r', hcall⟩ : ∃ result out r', r.readLineInto pick #[] = ⟨result, out, r'⟩ :=
    ⟨_, _, _, rfl⟩
  rw [hcall] at hresult hbuffer hreader
  have hbuffer : out.toList = ((Scan.start pick none).walk bytes).taken := hbuffer
  rw [← hbuffer] at hbytes
  cases hv : ((Scan.start pick none).walk bytes).verdict with
  | found =>
    obtain ⟨before, htaken⟩ := Scan.taken_of_found hv
    rw [hv] at hresult
    obtain rfl : result = .ok true := hresult
    obtain rfl : out = (before ++ [pick]).toArray := Array.toList_inj.1 (hbuffer.trans htaken)
    have hline : r.readLine pick = (.ok ⟨(before ++ [pick]).toArray, true⟩, r') := by
      simp [readLine, hcall, Except.map]
    have hlast : (before ++ [pick]).toArray.back? = some pick := by simp
    have htake : MixedCheck.takeLine r pick = (some ⟨(before ++ [pick]).toArray, false⟩, r') := by
      simp [MixedCheck.takeLine, hline]
    rw [htake]
    exact ⟨_, _, rfl, .line hpick hline hlast, hbytes.symm, hreader⟩
  | overlong limit => exact absurd (Scan.limit_of_overlong hv) (Option.some_ne_none limit).symm
  | starved =>
    rw [hv] at hresult
    obtain rfl : result = .ok false := hresult
    have hline : r.readLine pick = (.ok ⟨out, false⟩, r') := by
      simp [readLine, hcall, Except.map]
    have htake : MixedCheck.takeLine r pick = (some ⟨out, true⟩, r') := by
      simp [MixedCheck.takeLine, hline]
    rw [htake]
    exact ⟨_, _, rfl, .lastLine hpick hline, hbytes.symm, hreader⟩

/-- A buffer is filled as far as it goes. -/
theorem HasAhead.takeBuffer_eq (hr : r.HasAhead left config bytes) (h : Serves left)
    {pick : UInt8} (hpick : pick % 3 = 2) :
    TakesAhead left config bytes pick r (MixedCheck.takeBuffer r pick.toNat) := by
  have hkept := r.size_buffer_read (Array.replicate pick.toNat 0)
  obtain ⟨result, buffer, r', hcall⟩ : ∃ result buffer r',
      r.read (Array.replicate pick.toNat 0) = ⟨result, buffer, r'⟩ := ⟨_, _, _, rfl⟩
  rw [hcall, Array.size_replicate] at hkept
  have hkept : buffer.size = pick.toNat := hkept
  -- whatever is read fits into the buffer, so that the check of the count does not fail
  have htake : ∀ count rest, result = .ok count → count ≤ pick.toNat →
      bytes = buffer.toList.take count ++ rest → r'.HasAhead left config rest →
      TakesAhead left config bytes pick r (MixedCheck.takeBuffer r pick.toNat) := by
    rintro count rest rfl hle hbytes hrest
    have hbuffer : MixedCheck.takeBuffer r pick.toNat =
        (some ⟨buffer.extract 0 count, count == 0 && pick.toNat != 0⟩, r') := by
      simp only [MixedCheck.takeBuffer, hcall, hkept, if_neg (Nat.not_lt.2 hle)]
    rw [hbuffer]
    refine ⟨_, rest, rfl, .buffer hpick hcall hle, ?_, hrest⟩
    rw [hbytes, Array.toList_extract, List.extract_eq_take_drop]
    rfl
  by_cases hsize : (Array.replicate pick.toNat (0 : UInt8)).size = 0
  · have hnone : r.read (Array.replicate pick.toNat 0) =
        ⟨.ok 0, Array.replicate pick.toNat 0, r⟩ := by
      rw [read, if_pos hsize]
    rw [hcall] at hnone
    obtain ⟨rfl, rfl, rfl⟩ := (Call.mk.injEq ..).mp hnone
    exact htake 0 bytes rfl (Nat.zero_le _) rfl hr
  · have hread := hr.read_cases h hsize
    rw [hcall, Array.size_replicate] at hread
    rcases hread with ⟨count, rest, -, hle, hresult, hbytes, hrest⟩ | ⟨hresult, rfl, hrest⟩
    · exact htake count rest hresult hle hbytes hrest
    · exact htake 0 [] hresult (Nat.zero_le _) rfl hrest

/-- Every pick takes bytes from the front of those ahead. -/
theorem HasAhead.take_eq (hr : r.HasAhead left config bytes) (h : Serves left)
    (hlimit : config.lineLimit = none) (pick : UInt8) :
    TakesAhead left config bytes pick r (MixedCheck.take r pick) := by
  unfold MixedCheck.take
  split
  · next hbyte => exact hr.takeByte_eq h hbyte
  · next hbyte =>
    split
    · next hline => exact hr.takeLine_eq h hlimit hline
    · next hline =>
      have hbuffer : pick % 3 = 2 := by
        simp only [← UInt8.toNat_inj, UInt8.toNat_mod, UInt8.reduceToNat] at hbyte hline ⊢
        omega
      exact hr.takeBuffer_eq h hbuffer

/-- Picked reads take bytes from the front of those ahead. -/
theorem HasAhead.takeCycle_eq (hr : r.HasAhead left config bytes) (h : Serves left)
    (hlimit : config.lineLimit = none) (picks : List UInt8) (reads : Nat) (turn : List UInt8)
    (taken : Bytes) :
    ∃ all rest r', MixedCheck.takeCycle picks reads turn r taken = (some (taken ++ all), r') ∧
      PickedReads ((turn ++ (List.replicate reads picks).flatten).take reads) r all r' ∧
      bytes = all.toList ++ rest ∧ r'.HasAhead left config rest := by
  induction reads generalizing turn r bytes taken with
  | zero => exact ⟨#[], bytes, r, rfl, .none r, rfl, hr⟩
  | succ reads ih =>
    rw [MixedCheck.takeCycle]
    split
    · next hturn =>
      -- the turn is over and there are no picks to begin again with
      obtain ⟨rfl, rfl⟩ : turn = [] ∧ picks = [] := by cases turn <;> simp_all
      have hnone : (([] : List UInt8) ++ (List.replicate (reads + 1) []).flatten).take
          (reads + 1) = [] := by simp
      rw [hnone]
      exact ⟨#[], bytes, r, rfl, .none r, rfl, hr⟩
    · next pick turn' hturn =>
      obtain ⟨next, rest, hnext, hpicked, rfl, hrest⟩ := hr.take_eq h hlimit pick
      obtain ⟨outcome, r', hcall⟩ : ∃ outcome r', MixedCheck.take r pick = (outcome, r') :=
        ⟨_, _, rfl⟩
      rw [hcall] at hnext hpicked hrest
      obtain rfl : outcome = some next := hnext
      have hroom : r'.buffered ≤ r'.capacity := r'.window.buffered_le_capacity
      rw [take_turn_eq hturn]
      simp only [hcall, if_neg (Nat.not_lt.2 hroom)]
      cases hended : next.ended with
      | true => exact ⟨next.bytes, rest, r', rfl, .last hpicked hroom hended, rfl, hrest⟩
      | false =>
        obtain ⟨all, rest', r'', hcycle, hreads, rfl, hrest'⟩ :=
          ih hrest turn' (taken ++ next.bytes)
        refine ⟨next.bytes ++ all, rest', r'', ?_, .more hpicked hroom hended hreads, ?_, hrest'⟩
        · rw [if_neg Bool.false_ne_true, hcycle, Array.append_assoc]
        · rw [Array.toList_append, List.append_assoc]

/-- Draining takes all bytes ahead. -/
theorem HasAhead.drain_eq (hr : r.HasAhead left config bytes) (h : Serves left) (taken : Bytes) :
    ∃ r', MixedCheck.drain r taken = (some (taken ++ bytes.toArray), r') ∧
      Drained r bytes.toArray r' := by
  have hsize : (Array.replicate 64 (0 : UInt8)).size ≠ 0 := by simp
  fun_induction MixedCheck.drain r taken generalizing bytes with
  | case1 r taken e buffer r' hcall =>
    have hread := hr.read_cases h hsize
    rw [hcall] at hread
    rcases hread with ⟨count, rest, -, -, hresult, -⟩ | ⟨hresult, -⟩ <;> cases hresult
  | case2 r taken buffer r' hcall =>
    have hread := hr.read_cases h hsize
    rw [hcall] at hread
    rcases hread with ⟨count, rest, hpos, -, hresult, -⟩ | ⟨-, rfl, -⟩
    · obtain rfl := Except.ok.inj hresult
      exact absurd hpos (Nat.lt_irrefl 0)
    · exact ⟨r', by simp, .last hcall⟩
  | case3 r taken count buffer r' hcall hz hlt =>
    have hread := hr.read_cases h hsize
    have hkept := r.size_buffer_read (Array.replicate 64 0)
    rw [hcall] at hread hkept
    rcases hread with ⟨count', rest, -, hle, hresult, -⟩ | ⟨hresult, -⟩
    · obtain rfl := Except.ok.inj hresult
      have hkept : buffer.size = _ := hkept
      omega
    · exact absurd (Except.ok.inj hresult) hz
  | case4 r taken count buffer r' hcall hz hlt ih =>
    have hread := hr.read_cases h hsize
    rw [hcall] at hread
    rcases hread with ⟨count', rest, -, hle, hresult, rfl, hrest⟩ | ⟨hresult, -⟩
    · obtain rfl := Except.ok.inj hresult
      obtain ⟨r'', hdrain, hdrained⟩ := ih hrest
      have hjoined : (buffer.toList.take count ++ rest).toArray =
          buffer.extract 0 count ++ rest.toArray := by
        apply Array.toList_inj.1
        simp
      rw [hjoined]
      refine ⟨r'', ?_, .more hcall hz (by simpa using hle) hdrained⟩
      rw [hdrain, Array.append_assoc]
    · exact absurd (Except.ok.inj hresult) hz

end Mixed

end Reader

/-! ### The checks -/

/-- Split without a limit, bytes come back as their lines: joined they are the bytes, and there are
as many as pieces. -/
theorem collect_ofCapacity (capacity : Nat) (delim : UInt8) (bytes : Bytes) :
    let items := ((Reader.ofCapacity ({ bytes } : Cursor) capacity).split delim).collect.1
    items.toList = (cut delim bytes.toList).lines.map Except.ok ∧
      LineCheck.joined? items = some bytes ∧ items.size = LineCheck.pieces delim bytes := by
  intro items
  have hitems : items.toList = (cut delim bytes.toList).lines.map Except.ok :=
    Splitter.collect_eq (Reader.hasAhead_build (Cursor.left · = ·) { bytes } rfl _)
      Cursor.servesInFull.servesPieces.serves rfl rfl
  have harray : items = ((cut delim bytes.toList).lines.map Except.ok).toArray :=
    Array.toList_inj.1 hitems
  refine ⟨hitems, ?_, ?_⟩
  · rw [harray, joined?_lines, flatMap_lines_cut, Array.toArray_toList]
  · rw [harray, List.size_toArray, List.length_map, length_lines_cut, Array.toArray_toList]

/-- The check without a limit holds. -/
theorem withoutLimit_eq (capacity : Nat) (bytes : Bytes) :
    LineCheck.withoutLimit capacity bytes =
      ⟨true, ((Reader.ofCapacity ({ bytes } : Cursor) capacity).split
        newline).collect.2.reader.journal⟩ := by
  obtain ⟨-, hjoined, hsize⟩ := collect_ofCapacity capacity newline bytes
  simp only [LineCheck.withoutLimit, hjoined, hsize, beq_self_eq_true, Bool.and_self]

/-- A reader under a limit of at least one byte is made, and has the bytes ahead. -/
theorem exists_ofConfig?_withLineLimit (capacity : UInt8) {limit : Nat} (hlimit : limit ≠ 0)
    (bytes : Bytes) :
    ∃ r, Reader.ofConfig? ({ bytes } : Cursor)
        ((Config.ofCapacity capacity.toNat).withLineLimit limit) = .ok r ∧
      r.HasAhead (Cursor.left · = ·) ((Config.ofCapacity capacity.toNat).withLineLimit limit)
        bytes.toList := by
  have hvalid : ((Config.ofCapacity capacity.toNat).withLineLimit limit).validate = .ok () := by
    simp [Config.validate, Config.withLineLimit, hlimit]
  have hroom : ((Config.ofCapacity capacity.toNat).withLineLimit limit).capacity ≤ maxSize := by
    have hlt : capacity.toNat < 256 := capacity.toNat_lt
    rw [Config.capacity, maxSize]
    split
    · decide
    · exact Nat.le_trans (Nat.le_of_lt hlt) (by decide)
  refine ⟨_, ?_, Reader.hasAhead_build (Cursor.left · = ·) { bytes } rfl _⟩
  rw [Reader.ofConfig?, hvalid]
  exact if_pos hroom

/-- The check under a limit holds. It reads lines until one of them is not complete. -/
theorem withLimit_eq (capacity : UInt8) {limit : Nat} (hlimit : limit ≠ 0) (bytes : Bytes) :
    ∃ r, Reader.ofConfig? ({ bytes } : Cursor)
        ((Config.ofCapacity capacity.toNat).withLineLimit limit) = .ok r ∧
      (∀ delim, Reader.Recovers limit bytes.toList (r.lineReads delim (bytes.size + 1)).1) ∧
      LineCheck.withLimit capacity.toNat limit bytes =
        ⟨true, (r.lineReads newline (bytes.size + 1)).2.journal⟩ := by
  obtain ⟨r, hconfig, hahead⟩ := exists_ofConfig?_withLineLimit capacity hlimit bytes
  have hserves := Cursor.servesInFull.servesPieces.serves
  have hlines : bytes.toList.length < bytes.size + 1 := Nat.lt_succ_self _
  have hpos := Nat.pos_of_ne_zero hlimit
  have htaken := hahead.takeWithin_eq hserves rfl hpos hlines #[]
  rw [Array.toArray_toList, Array.empty_append] at htaken
  refine ⟨r, hconfig, fun delim => hahead.recovers_lineReads hserves rfl hpos delim hlines, ?_⟩
  simp only [LineCheck.withLimit, hconfig, htaken, beq_self_eq_true]

/-- The check of reads of all kinds holds: the reads picked and the reads of what is left take the
bytes. -/
theorem mixed_eq (capacity : UInt8) (bytes : Bytes) (cuts picks : List UInt8) :
    ∃ taken rest r r',
      Reader.PickedReads (cycled picks (2 * bytes.size + 16))
        (.ofCapacity ({ bytes, cuts } : Paced) capacity.toNat) taken r ∧
      MixedCheck.takeCycle picks (2 * bytes.size + 16) picks
        (.ofCapacity ({ bytes, cuts } : Paced) capacity.toNat) #[] = (some taken, r) ∧
      Reader.Drained r rest r' ∧ MixedCheck.drain r taken = (some bytes, r') ∧
      taken ++ rest = bytes ∧
      MixedCheck.run capacity bytes cuts picks = ⟨true, r'.journal⟩ := by
  have hahead := Reader.hasAhead_build (Paced.left · = ·) { bytes, cuts } rfl
    (.ofCapacity capacity.toNat)
  have hserves := Paced.servesPieces.serves
  obtain ⟨taken, rest, r, hcycle, hreads, hjoined, hrest⟩ := hahead.takeCycle_eq hserves rfl
    picks (2 * bytes.size + 16) picks #[]
  obtain ⟨r', hdrain, hdrained⟩ := hrest.drain_eq hserves taken
  have hwhole : taken ++ rest.toArray = bytes := by
    apply Array.toList_inj.1
    rw [Array.toList_append, ← hjoined]
    rfl
  have hcopies := take_append_copies [] picks (2 * bytes.size + 16)
  rw [List.replicate_succ, List.flatten_cons, List.nil_append, List.nil_append] at hcopies
  rw [hcopies] at hreads
  rw [Array.empty_append] at hcycle
  rw [hwhole] at hdrain
  refine ⟨taken, rest.toArray, r, r', hreads, hcycle, hdrained, hdrain, hwhole, ?_⟩
  have hcycle : MixedCheck.takeCycle picks (2 * bytes.size + 16) picks
      (.ofCapacity ({ bytes, cuts } : Paced) capacity.toNat) #[] = (some taken, r) := hcycle
  simp only [MixedCheck.run, hcycle, hdrain, beq_self_eq_true]

/-- Every check of reading holds, whatever the capacity, the limit, the bytes, the sizes of the
pieces in which they come and the reads picked. Split without a limit the bytes come back as their
lines. Under a limit one read more than there are bytes is enough to read on to their end, and the
reads give the bytes back. So do the picked reads and those of what they leave, one after the other:
none of them fails, and a complete line ends with its delimiter. -/
theorem checks_hold (capacity limit : UInt8) (bytes : Bytes) (cuts picks : List UInt8) :
    (∀ delim,
      let items := ((Reader.ofCapacity ({ bytes } : Cursor) capacity.toNat).split delim).collect.1
      items.toList = (cut delim bytes.toList).lines.map Except.ok ∧
        LineCheck.joined? items = some bytes ∧ items.size = LineCheck.pieces delim bytes) ∧
      (limit = 0 → LineCheck.run capacity limit bytes =
        ⟨true, ((Reader.ofCapacity ({ bytes } : Cursor) capacity.toNat).split
          newline).collect.2.reader.journal⟩) ∧
      (limit ≠ 0 → ∃ r, Reader.ofConfig? ({ bytes } : Cursor)
          ((Config.ofCapacity capacity.toNat).withLineLimit limit.toNat) = .ok r ∧
        (∀ delim, Reader.Recovers limit.toNat bytes.toList
          (r.lineReads delim (bytes.size + 1)).1) ∧
        LineCheck.run capacity limit bytes =
          ⟨true, ((Reader.ofCapacity ({ bytes } : Cursor) capacity.toNat).split
            newline).collect.2.reader.journal ++
              (r.lineReads newline (bytes.size + 1)).2.journal⟩) ∧
      ∃ taken rest r r',
        Reader.PickedReads (cycled picks (2 * bytes.size + 16))
          (.ofCapacity ({ bytes, cuts } : Paced) capacity.toNat) taken r ∧
        MixedCheck.takeCycle picks (2 * bytes.size + 16) picks
          (.ofCapacity ({ bytes, cuts } : Paced) capacity.toNat) #[] = (some taken, r) ∧
        Reader.Drained r rest r' ∧ MixedCheck.drain r taken = (some bytes, r') ∧
        taken ++ rest = bytes ∧
        MixedCheck.run capacity bytes cuts picks = ⟨true, r'.journal⟩ := by
  refine ⟨fun delim => collect_ofCapacity capacity.toNat delim bytes, fun hzero => ?_,
    fun hlimit => ?_, mixed_eq capacity bytes cuts picks⟩
  · rw [LineCheck.run, if_pos hzero, withoutLimit_eq]
  · have hpos : limit.toNat ≠ 0 := fun hzero => hlimit (UInt8.toNat_inj.1 hzero)
    obtain ⟨r, hconfig, hrecovers, hwith⟩ := withLimit_eq capacity hpos bytes
    refine ⟨r, hconfig, hrecovers, ?_⟩
    rw [LineCheck.run, if_neg hlimit, withoutLimit_eq, hwith]
    rfl

/-- Five bytes behind a window of two, in pieces of one, two and two. A line of three bytes, one
more than a limit of two allows, is read on to its end. A byte, a line and a buffer are picked: they
take all bytes, which leaves nothing behind them, and a fourth read meets the end of the stream. -/
theorem checks_hold_five :
    (∃ r, Reader.ofConfig? ({ bytes := #[1, 2, 10, 3, 4] } : Cursor)
          ((Config.ofCapacity 2).withLineLimit 2) = .ok r ∧
        Reader.Recovers 2 [1, 2, 10, 3, 4] (r.lineReads newline 6).1 ∧
        (r.lineReads newline 6).1 = [(.error (.lineTooLong 2), #[1, 2]), (.ok true, #[10]),
          (.error (.lineTooLong 2), #[3, 4]), (.ok false, #[])] ∧
        (LineCheck.run 2 2 #[1, 2, 10, 3, 4]).holds = true) ∧
      ∃ r r', Reader.PickedReads (cycled [0, 10, 5] 26)
          (.ofCapacity ({ bytes := #[1, 2, 10, 3, 4], cuts := [0, 1] } : Paced) 2)
          #[1, 2, 10, 3, 4] r ∧
        Reader.Drained r #[] r' ∧
        MixedCheck.run 2 #[1, 2, 10, 3, 4] [0, 1] [0, 10, 5] = ⟨true, r'.journal⟩ := by
  obtain ⟨-, -, hlimited, taken, rest, r', r'', hreads, hcycle, hdrained, -, hjoined, hmixed⟩ :=
    checks_hold 2 2 #[1, 2, 10, 3, 4] [0, 1] [0, 10, 5]
  obtain ⟨r, hconfig, hrecovers, hlines⟩ := hlimited (by decide)
  have hreader : r = .build { bytes := #[1, 2, 10, 3, 4] } ⟨2, some 2⟩ :=
    (Except.ok.inj hconfig).symm
  have hall : (MixedCheck.takeCycle [0, 10, 5] 26 [0, 10, 5]
      (.ofCapacity ({ bytes := #[1, 2, 10, 3, 4], cuts := [0, 1] } : Paced) 2) #[]).1 =
        some #[1, 2, 10, 3, 4] := by decide +kernel
  obtain rfl : taken = #[1, 2, 10, 3, 4] :=
    Option.some.inj ((congrArg Prod.fst hcycle).symm.trans hall)
  obtain rfl : rest = #[] := Array.append_right_eq_self.1 hjoined
  refine ⟨⟨r, hconfig, hrecovers newline, ?_, congrArg Finding.holds hlines⟩,
    r', r'', hreads, hdrained, hmixed⟩
  rw [hreader]
  decide +kernel

end BufferedReading
