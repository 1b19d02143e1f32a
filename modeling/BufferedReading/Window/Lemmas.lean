import BufferedReading.Window.Basic

/-!
# The window as a list of unread bytes

Each operation of a window is described by what it does to `Window.toList`, the list of its unread
bytes, and to its capacity. In particular nothing depends on where the cursors stand or on the bytes
outside them, compaction changes neither the list nor the capacity (`toList_compact`,
`capacity_compact`), and afterwards everything but the unread bytes is free (`free_compact`).
-/

namespace BufferedReading

namespace Window

variable (w : Window)

/-! ### Sizes -/

/-- As many bytes are unread as are counted. -/
@[simp] theorem size_unread : w.unread.size = w.buffered := by
  have := w.writePos_le_size
  simp only [unread, Array.size_extract, buffered]
  omega

/-- The list has as many bytes as are counted. -/
@[simp] theorem length_toList : w.toList.length = w.buffered := by
  simp [toList]

/-- A window holds no more than its capacity. -/
theorem buffered_le_capacity : w.buffered ≤ w.capacity := by
  have := w.writePos_le_size
  unfold buffered capacity
  omega

/-- Every window can hold a byte. -/
theorem capacity_pos : 0 < w.capacity := w.size_pos

/-- A window is empty exactly when no byte is unread. -/
theorem isEmpty_iff_buffered : w.isEmpty = true ↔ w.buffered = 0 := by
  have := w.readPos_le_writePos
  simp only [isEmpty, beq_iff_eq, buffered]
  omega

/-- A window is empty exactly when its list is. -/
theorem isEmpty_iff_toList : w.isEmpty = true ↔ w.toList = [] := by
  rw [isEmpty_iff_buffered, ← length_toList, List.length_eq_zero_iff]

/-- The unread bytes are a stretch of the arena. -/
theorem toList_eq : w.toList = (w.arena.toList.drop w.readPos).take w.buffered := by
  simp [toList, unread, buffered, Array.toList_extract]

/-- The unread byte at an index is the byte of the arena so far behind the read cursor. -/
theorem getElem?_toList (i : Nat) :
    w.toList[i]? = if i < w.buffered then w.arena[w.readPos + i]? else none := by
  rw [toList_eq, List.getElem?_take]
  simp only [List.getElem?_drop, Array.getElem?_toList]

/-! ### A new window -/

/-- A new window holds nothing. -/
@[simp] theorem toList_ofCapacity (capacity : Nat) : (ofCapacity capacity).toList = [] := by
  simp [toList_eq, ofCapacity, buffered]

/-- A new window has the capacity asked for, at least one. -/
@[simp] theorem capacity_ofCapacity (capacity : Nat) :
    (ofCapacity capacity).capacity = max capacity 1 := by
  simp [Window.capacity, ofCapacity]

/-! ### Taking bytes out -/

/-- Passing over nothing changes nothing. -/
theorem skip_zero : w.skip 0 = w := by
  have hmin : min (w.readPos + 0) w.writePos = w.readPos := Nat.min_eq_left w.readPos_le_writePos
  simp only [skip, hmin]

/-- The read cursor moves by as many bytes as are passed over. -/
theorem readPos_skip (count : Nat) :
    (w.skip count).readPos = w.readPos + min count w.buffered := by
  have := w.readPos_le_writePos
  simp only [skip, buffered]
  omega

/-- Bytes passed over are dropped from the front. -/
@[simp] theorem toList_skip (count : Nat) : (w.skip count).toList = w.toList.drop count := by
  have := w.readPos_le_writePos
  rw [toList_eq, toList_eq, List.drop_take, List.drop_drop]
  simp only [skip, buffered]
  by_cases h : w.readPos + count ≤ w.writePos
  · rw [Nat.min_eq_left h]
    congr 1
    omega
  · rw [Nat.min_eq_right (by omega), Nat.sub_self,
      show w.writePos - w.readPos - count = 0 by omega, List.take_zero, List.take_zero]

/-- Passing over bytes changes no byte of the arena. -/
@[simp] theorem arena_skip (count : Nat) : (w.skip count).arena = w.arena := rfl

@[simp] theorem capacity_skip (count : Nat) : (w.skip count).capacity = w.capacity := rfl

/-- So many bytes fewer are left behind those passed over. -/
@[simp] theorem buffered_skip (count : Nat) :
    (w.skip count).buffered = w.buffered - count := by
  rw [← length_toList, toList_skip, List.length_drop, length_toList]

/-- A count whose sum with the read cursor fits in a word is passed over. -/
theorem consume_of_lt {count : Nat} (h : w.readPos + count < wordSize) :
    w.consume count = .ok (w.skip count) := if_pos h

/-- Any other count is a fault. -/
theorem consume_of_le {count : Nat} (h : wordSize ≤ w.readPos + count) :
    w.consume count = .error .overflow := if_neg (Nat.not_lt.2 h)

/-- Where sums are not checked, nothing is different as long as they fit. -/
theorem consumeWrapping_of_lt {count : Nat} (h : w.readPos + count < wordSize) :
    w.consumeWrapping count = w.skip count := by
  simp only [consumeWrapping, skip, Nat.mod_eq_of_lt h]

/-- The front is the start of the list. -/
@[simp] theorem toList_front (count : Nat) : (w.front count).toList = w.toList.take count := by
  rw [toList_eq, front, Array.toList_extract, List.extract_eq_take_drop, List.take_take]
  congr 1
  omega

/-- The front has as many bytes as were asked for, or all. -/
@[simp] theorem size_front (count : Nat) : (w.front count).size = min count w.buffered := by
  rw [← Array.length_toList, toList_front, List.length_take, length_toList]

/-- Popping takes the head of the list. -/
theorem pop_fst : w.pop.1 = w.toList.head? := by
  unfold pop
  by_cases h : w.isEmpty = true
  · simp [h, (isEmpty_iff_toList w).1 h]
  · have hb : 0 < w.buffered := by
      have := mt (isEmpty_iff_buffered w).2 h
      omega
    simp only [h, Bool.false_eq_true, if_false, List.head?_eq_getElem?]
    rw [getElem?_toList, if_pos hb, Nat.add_zero]

/-- Popping leaves the tail of the list. -/
theorem toList_pop : w.pop.2.toList = w.toList.tail := by
  unfold pop
  by_cases h : w.isEmpty = true
  · simp [h, (isEmpty_iff_toList w).1 h]
  · simp [h, List.drop_one]

/-- The window behind a pop is that behind one byte passed over. -/
theorem pop_snd : w.pop.2 = w.skip 1 := by
  unfold pop
  split
  · next h =>
    obtain ⟨arena, readPos, writePos, hle, hsize, hpos⟩ := w
    obtain rfl : readPos = writePos := by simpa [isEmpty] using h
    simp [skip]
  · rfl

@[simp] theorem capacity_pop : w.pop.2.capacity = w.capacity := by
  unfold pop
  split <;> rfl

/-- Popping leaves one byte fewer, if there was one. -/
@[simp] theorem buffered_pop : w.pop.2.buffered = w.buffered - 1 := by
  rw [← length_toList, toList_pop, List.length_tail, length_toList]

/-! ### Finding a byte -/

/-- A byte found stands at its index in the list, within reach, and nowhere before it. -/
theorem find?_eq_some_iff {delim : UInt8} {reach i : Nat} :
    w.find? delim reach = some i ↔
      i < reach ∧ w.toList[i]? = some delim ∧ ∀ j, j < i → w.toList[j]? ≠ some delim := by
  simp only [find?, Option.map_eq_some_iff, Bytes.indexIn?_eq_some_iff]
  constructor
  · rintro ⟨k, ⟨hle, hlt, hk, hmin⟩, rfl⟩
    have hkb : k - w.readPos < w.buffered := by omega
    refine ⟨by omega, ?_, fun j hj => ?_⟩
    · rw [getElem?_toList, if_pos hkb, show w.readPos + (k - w.readPos) = k by omega, hk]
    · rw [getElem?_toList, if_pos (by omega)]
      exact hmin _ (by omega) (by omega)
  · rintro ⟨hlt, hi, hmin⟩
    have hib : i < w.buffered := by
      rw [← length_toList]
      exact (List.getElem?_eq_some_iff.1 hi).1
    refine ⟨w.readPos + i, ⟨by omega, by omega, ?_, fun j hj hji => ?_⟩, by omega⟩
    · rwa [getElem?_toList, if_pos hib] at hi
    · have := hmin (j - w.readPos) (by omega)
      rwa [getElem?_toList, if_pos (by omega), Nat.add_sub_cancel' hj] at this

/-- No byte is found exactly when none stands within reach. -/
theorem find?_eq_none_iff {delim : UInt8} {reach : Nat} :
    w.find? delim reach = none ↔ delim ∉ w.toList.take reach := by
  simp only [find?, Option.map_eq_none_iff, Bytes.indexIn?_eq_none_iff]
  rw [List.mem_take_iff_getElem]
  constructor
  · rintro h ⟨i, hi, hd⟩
    have hil : i < w.toList.length := by omega
    have hib : i < w.buffered := by rwa [length_toList] at hil
    refine h (w.readPos + i) (by omega) (by omega) ?_
    have := getElem?_toList w i
    rw [if_pos hib, List.getElem?_eq_getElem hil, hd] at this
    exact this.symm
  · intro h j hj hlt hjd
    refine h ⟨j - w.readPos, by rw [length_toList]; omega, ?_⟩
    have := getElem?_toList w (j - w.readPos)
    rw [if_pos (by omega), show w.readPos + (j - w.readPos) = j by omega, hjd] at this
    exact (List.getElem?_eq_some_iff.1 this).2

/-- The index found is that of the first such byte within reach. -/
theorem find?_eq_idxOf? (delim : UInt8) (reach : Nat) :
    w.find? delim reach = (w.toList.take reach).idxOf? delim := by
  cases h : w.find? delim reach with
  | none =>
    rw [eq_comm, List.idxOf?_eq_none_iff]
    exact (find?_eq_none_iff w).1 h
  | some i =>
    obtain ⟨hlt, hi, hmin⟩ := (find?_eq_some_iff w).1 h
    obtain ⟨hil, hid⟩ := List.getElem?_eq_some_iff.1 hi
    rw [eq_comm, List.idxOf?_eq_some_iff]
    refine ⟨by simp only [List.length_take]; omega, by simpa using hid, fun j hj => ?_⟩
    have := hmin j hj
    rw [List.getElem?_eq_getElem (by omega)] at this
    simpa using this

/-! ### Putting bytes in -/

/-- Compaction keeps the unread bytes. -/
@[simp] theorem toList_compact : w.compact.toList = w.toList := by
  unfold compact
  split
  · rfl
  · have h := w.buffered_le_capacity
    rw [toList_eq]
    simp only [Bytes.toList_overwrite, List.take_zero, List.nil_append, Nat.sub_zero,
      List.drop_zero]
    rw [List.take_of_length_le (l := w.unread.toList) (by simpa [capacity] using h)]
    exact List.take_left' (size_unread w)

@[simp] theorem capacity_compact : w.compact.capacity = w.capacity := by
  unfold compact capacity
  split <;> simp

@[simp] theorem buffered_compact : w.compact.buffered = w.buffered := by
  rw [← length_toList, toList_compact, length_toList]

/-- After compaction the unread bytes are at the start of the arena. -/
@[simp] theorem readPos_compact : w.compact.readPos = 0 := by
  unfold compact
  split
  · assumption
  · rfl

/-- A window that is compact stays as it is. -/
theorem compact_compact : w.compact.compact = w.compact := by
  rw [compact.eq_def w.compact, if_pos (readPos_compact w)]

/-- After compaction all but the unread bytes are free. -/
@[simp] theorem free_compact : w.compact.free = w.capacity - w.buffered := by
  unfold compact
  split
  · next h => simp [free, capacity, buffered, h]
  · simp [free, capacity]

/-- Staged bytes are not readable. -/
@[simp] theorem toList_stage (bytes : Bytes) : (w.stage bytes).toList = w.toList := by
  have h1 := w.readPos_le_writePos
  have h2 := w.writePos_le_size
  rw [toList_eq, toList_eq]
  simp only [stage, buffered, Bytes.toList_overwrite]
  rw [List.append_assoc, List.drop_append_of_le_length (by simp; omega),
    List.take_append_of_le_length (by simp; omega), List.drop_take, List.take_take]
  congr 1
  omega

@[simp] theorem capacity_stage (bytes : Bytes) : (w.stage bytes).capacity = w.capacity := by
  simp [capacity, stage]

@[simp] theorem free_stage (bytes : Bytes) : (w.stage bytes).free = w.free := by
  simp [free, stage]

@[simp] theorem buffered_stage (bytes : Bytes) : (w.stage bytes).buffered = w.buffered := rfl

@[simp] theorem capacity_extend (count : Nat) (h : count ≤ w.free) :
    (w.extend count h).capacity = w.capacity := rfl

/-- Extending makes so many bytes readable. -/
@[simp] theorem buffered_extend (count : Nat) (h : count ≤ w.free) :
    (w.extend count h).buffered = w.buffered + count := by
  have := w.readPos_le_writePos
  simp only [extend, buffered]
  omega

/-- Extending over staged bytes appends them. -/
theorem toList_extend_stage (bytes : Bytes) (count : Nat) (h : count ≤ (w.stage bytes).free)
    (hc : count ≤ bytes.size) :
    ((w.stage bytes).extend count h).toList = w.toList ++ bytes.toList.take count := by
  have h1 := w.readPos_le_writePos
  have h2 := w.writePos_le_size
  have h3 : count ≤ w.arena.size - w.writePos := by simpa [free, stage] using h
  have ht : (w.arena.toList.take w.writePos).drop w.readPos = w.toList := by
    rw [toList_eq, List.drop_take, buffered]
  rw [toList_eq]
  simp only [extend, stage, buffered, Bytes.toList_overwrite]
  rw [List.append_assoc, List.drop_append_of_le_length (by simp; omega), ht, List.take_append,
    List.take_of_length_le (by rw [length_toList, buffered]; omega)]
  congr 1
  rw [length_toList, buffered, List.take_append_of_le_length (by simp; omega), List.take_take]
  congr 1
  omega

end Window

end BufferedReading
