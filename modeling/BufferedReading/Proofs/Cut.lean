import BufferedReading.Proofs.Search
import BufferedReading.Splitter

/-!
# Bytes cut into lines

`cut` cuts bytes behind every delimiter (`cut_behind`). A search that begins at the front of the
bytes takes the first of the pieces, or all bytes if there is no delimiter among them, up to its
limit: see `Scan.walk_start_of_mem` and `Scan.walk_start_of_notMem`. `Line.IsCut` says what a line
made of a piece, or of the bytes behind the last, is like.
-/

namespace BufferedReading

/-! ### Bytes cut behind every delimiter -/

/-- Bytes that have been cut: pieces that end with a delimiter, and the bytes behind the last. -/
structure Cut where
  /-- The pieces. -/
  pieces : List (List UInt8)
  /-- The bytes behind them. -/
  remainder : List UInt8
  deriving DecidableEq, Repr

/-- Cuts bytes behind every delimiter. -/
def cut (delim : UInt8) : List UInt8 → Cut
  | [] => ⟨[], []⟩
  | byte :: bytes =>
    let later := cut delim bytes
    if byte = delim then ⟨[byte] :: later.pieces, later.remainder⟩
    else
      match later.pieces with
      | [] => ⟨[], byte :: later.remainder⟩
      | piece :: pieces => ⟨(byte :: piece) :: pieces, later.remainder⟩

/-- Bytes without a delimiter are not cut. -/
theorem cut_of_notMem {delim : UInt8} {bytes : List UInt8} (h : delim ∉ bytes) :
    cut delim bytes = ⟨[], bytes⟩ := by
  induction bytes with
  | nil => rfl
  | cons byte bytes ih =>
    rw [List.mem_cons, not_or] at h
    have hne : byte ≠ delim := Ne.symm h.1
    simp only [cut, ih h.2, if_neg hne]

/-- Bytes are cut behind the first delimiter, and then those behind it. -/
theorem cut_append_cons {delim : UInt8} {before : List UInt8} (h : delim ∉ before)
    (after : List UInt8) :
    cut delim (before ++ delim :: after) =
      ⟨(before ++ [delim]) :: (cut delim after).pieces, (cut delim after).remainder⟩ := by
  induction before with
  | nil => simp [cut]
  | cons byte before ih =>
    rw [List.mem_cons, not_or] at h
    have hne : byte ≠ delim := Ne.symm h.1
    simp only [List.cons_append, cut, ih h.2, if_neg hne]

/-- Bytes have no delimiter, or there is a first one. -/
theorem delim_cases (delim : UInt8) (bytes : List UInt8) :
    delim ∉ bytes ∨ ∃ before after, bytes = before ++ delim :: after ∧ delim ∉ before := by
  by_cases h : delim ∈ bytes
  · obtain ⟨before, after, hbytes, hbefore⟩ := List.eq_append_cons_of_mem h
    exact .inr ⟨before, after, hbytes, hbefore⟩
  · exact .inl h

/-- What is true of bytes without a delimiter, and of bytes in front of whose first delimiter there
are any if it is true of those behind it, is true of all bytes. -/
@[elab_as_elim]
theorem delim_induction (delim : UInt8) {motive : List UInt8 → Prop}
    (notMem : ∀ bytes, delim ∉ bytes → motive bytes)
    (cons : ∀ before after, delim ∉ before → motive after → motive (before ++ delim :: after))
    (bytes : List UInt8) : motive bytes := by
  -- the bytes behind a delimiter are fewer
  induction hn : bytes.length using Nat.strongRecOn generalizing bytes with
  | ind n ih =>
    rcases delim_cases delim bytes with h | ⟨before, after, rfl, hbefore⟩
    · exact notMem bytes h
    · have hlt : after.length < n := by
        rw [← hn, List.length_append, List.length_cons]
        omega
      exact cons before after hbefore (ih _ hlt after rfl)

/-- The last of the bytes is a delimiter that is among them if nothing stands behind that delimiter,
or if a delimiter is the last of the bytes behind it. -/
theorem getLast?_append_delim_cons (delim : UInt8) (before after : List UInt8) :
    (before ++ delim :: after).getLast? = some delim ↔
      after = [] ∨ after.getLast? = some delim := by
  cases after with
  | nil => simp
  | cons next after => simp [List.getLast?_cons_cons]

/-- The pieces and the bytes behind them are the bytes there were. Each piece ends with the only
delimiter in it, and there is none behind the pieces. -/
structure Cut.Behind (delim : UInt8) (bytes : List UInt8) (c : Cut) : Prop where
  flatten_append : c.pieces.flatten ++ c.remainder = bytes
  pieces_end : ∀ piece ∈ c.pieces, ∃ before, piece = before ++ [delim] ∧ delim ∉ before
  remainder_notMem : delim ∉ c.remainder

/-- Bytes are cut behind every delimiter. -/
theorem cut_behind (delim : UInt8) (bytes : List UInt8) :
    (cut delim bytes).Behind delim bytes := by
  induction bytes using delim_induction delim with
  | notMem bytes h =>
    rw [cut_of_notMem h]
    exact ⟨rfl, by simp, h⟩
  | cons before after hbefore ih =>
    obtain ⟨hflatten, hpieces, hremainder⟩ := ih
    rw [cut_append_cons hbefore]
    refine ⟨?_, ?_, hremainder⟩
    · rw [List.flatten_cons, List.append_assoc, List.append_assoc, List.singleton_append]
      exact congrArg (before ++ delim :: ·) hflatten
    · intro piece hpiece
      rcases List.mem_cons.1 hpiece with rfl | hpiece
      · exact ⟨before, rfl, hbefore⟩
      · exact hpieces piece hpiece

/-! ### Lines -/

namespace Item

/-- Whether nothing is yielded behind an item: anything but a complete line is the last. -/
def isLast : Option Item → Bool
  | some (.ok line) => !line.complete
  | _ => true

/-- The bytes of a line; an error has none. -/
def bytes : Item → List UInt8
  | .ok line => line.data.toList
  | .error _ => []

end Item

/-- A line as it is cut from a stream: a complete line is its content and the delimiter, a partial
one is nothing but content and not empty. There is no delimiter in the content, and the line is
within the limit; a partial line is below it. -/
structure Line.IsCut (limit : Option Nat) (delim : UInt8) (line : Line) : Prop where
  data_of_complete : line.complete = true →
    line.data.toList = (line.content delim).toList ++ [delim]
  data_of_partial : line.complete = false → line.data = line.content delim ∧ line.data ≠ #[]
  delim_notMem : delim ∉ line.content delim
  size_le : ∀ most, limit = some most → line.size ≤ most
  size_lt_of_partial : ∀ most, limit = some most → line.complete = false → line.size < most

/-- The content of a complete line is what stands in front of its delimiter. -/
@[simp] theorem Line.content_complete (before : List UInt8) (delim : UInt8) :
    content ⟨(before ++ [delim]).toArray, true⟩ delim = before.toArray := by
  simp [content]

/-- A partial line is nothing but content. -/
@[simp] theorem Line.content_partial (data : Bytes) (delim : UInt8) :
    content ⟨data, false⟩ delim = data := by
  simp [content]

/-- A piece within the limit makes a complete line. -/
theorem Line.isCut_complete {limit : Option Nat} {delim : UInt8} {before : List UInt8}
    (h : delim ∉ before)
    (hsize : ∀ most, limit = some most → (before ++ [delim]).length ≤ most) :
    IsCut limit delim ⟨(before ++ [delim]).toArray, true⟩ := by
  have hcontent := content_complete before delim
  constructor
  · intro _
    rw [hcontent]
  · exact nofun
  · rw [hcontent]
    simpa using h
  · exact hsize
  · exact nofun

/-- Bytes that have no delimiter and do not reach the limit make a partial line. -/
theorem Line.isCut_partial {limit : Option Nat} {delim : UInt8} {remainder : List UInt8}
    (h : delim ∉ remainder) (hsize : ∀ most, limit = some most → remainder.length < most)
    (hne : remainder ≠ []) : IsCut limit delim ⟨remainder.toArray, false⟩ := by
  have hcontent := content_partial remainder.toArray delim
  constructor
  · exact nofun
  · intro _
    exact ⟨hcontent.symm, by simpa using hne⟩
  · rw [hcontent]
    simpa using h
  · intro most hmost
    exact Nat.le_of_lt (hsize most hmost)
  · intro most hmost _
    exact hsize most hmost

end BufferedReading
