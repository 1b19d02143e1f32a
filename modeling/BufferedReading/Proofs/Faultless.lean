import BufferedReading.Machine.Reader
import BufferedReading.Proofs.Courses

/-!
# Reads in machine words

Carried out in machine words, the operations of a window, of a search and of a reader compute what
they compute in natural numbers, and none of them meets a fault. `Checked.Settles` says so of a
computation, and each operation has one lemma about it: what it does to a window is an equation
(`RawWindow.compact_raw`, `RawWindow.commit_raw`) unless bytes are taken, and those are counted
(`RawWindow.settles_consume`).

Three bounds hold it together: the cursors of a window are in order, its arena is no larger than a
word, and a search has taken no more bytes than were taken in all, and no more than its limit
allows.
-/

namespace BufferedReading

/-! ### Computations without faults -/

namespace Checked

variable {α β : Type} {taken : Nat} {P Q : α → Nat → Prop}

/-- A computation that is begun when so many bytes have been taken does not stop with a fault, and
unless it is excused it yields a result as `P` says of it and of the number of bytes taken then. -/
def Settles (m : Checked α) (taken : Nat) (P : α → Nat → Prop) : Prop :=
  match m taken with
  | .ok (a, taken') => P a taken'
  | .error (.excused _) => True
  | .error (.fault _) => False

theorem settles_pure {a : α} (h : P a taken) : Settles (pure a) taken P := h

theorem settles_excuse {e : Excuse} : Settles (excuse e) taken P := trivial

/-- Computations without faults may be carried out one after the other. -/
theorem Settles.bind {m : Checked α} {f : α → Checked β} {Q : β → Nat → Prop}
    (h : m.Settles taken P) (hf : ∀ a taken', P a taken' → (f a).Settles taken' Q) :
    (m >>= f).Settles taken Q := by
  have hbind : (m >>= f) taken = (m taken).bind fun p => f p.1 p.2 := rfl
  unfold Settles at h ⊢
  rw [hbind]
  cases hm : m taken with
  | ok outcome =>
    rw [hm] at h
    exact hf outcome.1 outcome.2 h
  | error halt =>
    rw [hm] at h
    cases halt with
    | fault fault => exact h
    | excused excuse => trivial

theorem Settles.mono {m : Checked α} (h : m.Settles taken P)
    (himp : ∀ a taken', P a taken' → Q a taken') : m.Settles taken Q := by
  rw [← bind_pure m]
  exact h.bind fun a taken' ha => settles_pure (himp a taken' ha)

theorem Settles.map {f : α → β} {m : Checked α} {Q : β → Nat → Prop}
    (h : m.Settles taken fun a taken' => Q (f a) taken') : (f <$> m).Settles taken Q := by
  rw [map_eq_pure_bind]
  exact h.bind fun a taken' ha => settles_pure ha

/-- Counted bytes are as many as a word counts. -/
theorem settles_tally (count : Nat) :
    (tally count).Settles taken fun _ taken' => taken' = taken + count ∧ taken' < wordSize := by
  unfold Settles tally
  by_cases h : taken + count < wordSize
  · rw [if_pos h]
    exact ⟨rfl, h⟩
  · rw [if_neg h]
    trivial

theorem add_eq {a b : Nat} (h : a + b < wordSize) : add a b = pure (a + b) := if_pos h

theorem sub_eq {a b : Nat} (h : b ≤ a) : sub a b = pure (a - b) := if_pos h

theorem slice_eq {bytes : Bytes} {start stop : Nat} (h : start ≤ stop) (h' : stop ≤ bytes.size) :
    slice bytes start stop = pure (bytes.extract start stop) := if_pos ⟨h, h'⟩

theorem copy_eq {bytes src : Bytes} {start stop : Nat} (h : start ≤ stop) (h' : stop ≤ bytes.size)
    (hsize : src.size = stop - start) :
    copy bytes start stop src = pure (bytes.overwrite start src) :=
  (if_pos ⟨h, h'⟩).trans (if_pos hsize)

theorem assert_eq {p : Prop} [Decidable p] (h : p) : assert p = pure () := if_pos h

end Checked

open Checked

/-! ### Two parts of a buffer -/

/-- The slice behind the first part of two is the second. -/
theorem Bytes.extract_append_size (done rest : Bytes) :
    (done ++ rest).extract done.size (done ++ rest).size = rest := by
  apply Array.toList_inj.1
  simp

/-- Writing over the second part of two puts another in its place. -/
theorem Bytes.overwrite_append_size {done rest buffer : Bytes} (h : buffer.size = rest.size) :
    (done ++ rest).overwrite done.size buffer = done ++ buffer := by
  have hbefore : (done ++ rest).toList.take done.size = done.toList := by simp
  have hbuffer : buffer.toList.take ((done ++ rest).size - done.size) = buffer.toList :=
    List.take_of_length_le (by simp [h])
  have hbehind : (done ++ rest).toList.drop (done.size + buffer.size) = [] :=
    List.drop_eq_nil_of_le (by simp [h])
  apply Array.toList_inj.1
  rw [toList_overwrite, hbefore, hbuffer, hbehind, List.append_nil, Array.toList_append]

/-- So many bytes of the second part of a buffer make its first part so much larger. -/
theorem Bytes.size_append_extract (done : Bytes) {buffer : Bytes} {count : Nat}
    (h : count ≤ buffer.size) : (done ++ buffer.extract 0 count).size = done.size + count := by
  rw [Array.size_append, Array.size_extract, Nat.min_eq_left h, Nat.sub_zero]

/-! ### Windows -/

namespace RawWindow

variable {w : Window} {taken count : Nat}

/-- The window of a machine is in order if it is that of a window. -/
theorem ordered_raw (w : Window) : w.raw.Ordered :=
  ⟨w.readPos_le_writePos, w.writePos_le_size, w.size_pos⟩

/-- What a window has been turned into is in order. -/
theorem check_raw (w : Window) : w.raw.check = pure () :=
  assert_eq ⟨w.readPos_le_writePos, w.writePos_le_size⟩

theorem buffered_raw (w : Window) : w.raw.buffered = pure w.buffered := sub_eq w.readPos_le_writePos

theorem unread_raw (w : Window) : w.raw.unread = pure w.unread :=
  slice_eq w.readPos_le_writePos w.writePos_le_size

theorem settles_buffered (w : Window) :
    w.raw.buffered.Settles taken fun buffered _ => buffered = w.buffered := by
  rw [buffered_raw]
  exact settles_pure rfl

theorem settles_unread (w : Window) :
    w.raw.unread.Settles taken fun unread _ => unread = w.unread := by
  rw [unread_raw]
  exact settles_pure rfl

/-- Passing over bytes takes as many of them as are unread. -/
theorem settles_consume (h : w.readPos + count < wordSize) :
    (w.raw.consume count).Settles taken fun after taken' =>
      after = (w.skip count).raw ∧ taken' = taken + min count w.buffered ∧
        taken' < wordSize := by
  have hcheck := check_raw (w.skip count)
  have hcount : min (w.readPos + count) w.writePos - w.readPos = min count w.buffered := by
    have := w.readPos_le_writePos
    simp only [Window.buffered]
    omega
  simp only [consume, Window.raw, add_eq h, pure_bind] at hcheck ⊢
  rw [hcount]
  rw [Window.skip] at hcheck
  simp only [hcheck, pure_bind]
  refine (settles_tally _).bind ?_
  rintro - taken' ⟨rfl, hlt⟩
  exact ⟨rfl, rfl, hlt⟩

/-- The place behind so many unread bytes is not beyond them. -/
theorem readPos_add_le (h : count ≤ w.buffered) : w.readPos + count ≤ w.writePos := by
  have := w.readPos_le_writePos
  simp only [Window.buffered] at h
  omega

/-- The place behind so many unread bytes fits in a word. -/
theorem readPos_add_lt (hw : w.capacity < wordSize) (h : count ≤ w.buffered) :
    w.readPos + count < wordSize :=
  Nat.lt_of_le_of_lt (Nat.le_trans (readPos_add_le h) w.writePos_le_size) hw

/-- So many bytes of the unread ones are their front. -/
theorem extract_unread (w : Window) (count : Nat) : w.unread.extract 0 count = w.front count := by
  apply Array.toList_inj.1
  rw [Array.toList_extract, Window.toList_front, List.extract_eq_take_drop]
  rfl

/-- Unread bytes are delivered as far as there is room for them. -/
theorem settles_copyTo (hw : w.capacity < wordSize) (buffer : Bytes) :
    (w.raw.copyTo buffer).Settles taken fun outcome taken' =>
      outcome = (min buffer.size w.buffered,
        buffer.overwrite 0 (w.front (min buffer.size w.buffered)),
        (w.skip (min buffer.size w.buffered)).raw) ∧ taken ≤ taken' := by
  have hle : min buffer.size w.buffered ≤ w.buffered := Nat.min_le_right ..
  have hsum := readPos_add_lt hw hle
  have hstop : w.readPos + min buffer.size w.buffered ≤ w.arena.size :=
    Nat.le_trans (readPos_add_le hle) w.writePos_le_size
  have hfront : w.arena.extract w.readPos (w.readPos + min buffer.size w.buffered) =
      w.front (min buffer.size w.buffered) := by
    rw [Window.front, Nat.min_eq_left hle]
  have hsize : (w.front (min buffer.size w.buffered)).size = min buffer.size w.buffered - 0 := by
    rw [Window.size_front, Nat.min_eq_left hle, Nat.sub_zero]
  simp only [copyTo, buffered_raw, pure_bind, Window.arena_raw, Window.readPos_raw]
  rw [add_eq hsum, pure_bind, slice_eq (Nat.le_add_right ..) hstop, pure_bind, hfront,
    copy_eq (Nat.zero_le _) (Nat.min_le_left ..) hsize, pure_bind]
  refine (settles_consume hsum).bind ?_
  rintro - taken' ⟨rfl, rfl, -⟩
  exact ⟨rfl, Nat.le_add_right ..⟩

/-- The first unread byte is taken, if there is one. -/
theorem settles_pop (hw : w.capacity < wordSize) :
    w.raw.pop.Settles taken fun outcome taken' =>
      outcome = (w.pop.1, w.pop.2.raw) ∧ taken ≤ taken' := by
  simp only [pop, unread_raw, pure_bind]
  cases hfirst : w.unread[0]? with
  | none =>
    have hempty : w.isEmpty = true := by
      rw [Window.isEmpty_iff_toList, ← List.head?_eq_none_iff, List.head?_eq_getElem?,
        Window.toList, Array.getElem?_toList, hfirst]
    rw [Window.pop, if_pos hempty]
    exact settles_pure ⟨rfl, Nat.le_refl _⟩
  | some byte =>
    have hhead : w.toList.head? = some byte := by
      rw [List.head?_eq_getElem?, Window.toList, Array.getElem?_toList, hfirst]
    have hne : w.toList ≠ [] := by
      rintro hnil
      simp [hnil] at hhead
    have hfull : ¬ w.isEmpty = true := mt w.isEmpty_iff_toList.1 hne
    have hsnd : w.pop.2 = w.skip 1 := by rw [Window.pop, if_neg hfull]
    have hbuffered : 1 ≤ w.buffered := by
      rw [← Window.length_toList]
      exact List.length_pos_iff.2 hne
    refine (settles_consume (readPos_add_lt hw hbuffered)).bind ?_
    rintro - taken' ⟨rfl, rfl, -⟩
    rw [Window.pop_fst, hhead, hsnd]
    exact settles_pure ⟨rfl, Nat.le_add_right ..⟩

/-- The first delimiter within reach is found. -/
theorem find?_raw (w : Window) (delim : UInt8) (reach : Nat) :
    w.raw.find? delim reach = pure (w.find? delim reach) := by
  simp only [find?, unread_raw, pure_bind]
  rw [slice_eq (Nat.zero_le _) (Nat.min_le_left ..), pure_bind, Window.find?_eq_idxOf?,
    Array.toList_extract, List.extract_eq_take_drop, Nat.sub_zero, List.drop_zero,
    ← Array.length_toList, Nat.min_comm, ← List.take_eq_take_min]
  rfl

theorem compact_raw (w : Window) : w.raw.compact = pure w.compact.raw := by
  by_cases h : w.readPos = 0
  · rw [Window.compact, if_pos h]
    exact if_pos h
  · have hcheck := check_raw w.compact
    rw [Window.compact, if_neg h] at hcheck ⊢
    have hle : w.unread.size ≤ w.arena.size := by
      rw [Window.size_unread]
      exact w.buffered_le_capacity
    have hslice := slice_eq w.readPos_le_writePos w.writePos_le_size
    simp only [compact, Window.raw, if_neg h, hslice, pure_bind] at hcheck ⊢
    rw [← Window.unread, copy_eq (Nat.zero_le _) hle (Nat.sub_zero _).symm, pure_bind,
      sub_eq w.readPos_le_writePos, pure_bind, ← Window.buffered, hcheck, pure_bind]

/-- The free space is offered unless there is none. -/
theorem prepareFill_raw (w : Window) :
    w.raw.prepareFill =
      pure (if w.compact.free = 0 then none else some w.compact.free, w.compact.raw) := by
  simp only [prepareFill, compact_raw, pure_bind]
  by_cases h : w.compact.free = 0
  · have hle : w.compact.raw.arena.size ≤ w.compact.raw.writePos := Nat.sub_eq_zero_iff_le.1 h
    rw [if_pos hle, if_pos h]
  · have hlt : ¬ w.compact.raw.arena.size ≤ w.compact.raw.writePos :=
      mt Nat.sub_eq_zero_iff_le.2 h
    have hsize : (w.compact.arena.extract w.compact.writePos w.compact.arena.size).size =
        w.compact.free := by
      rw [Array.size_extract, Nat.min_self]
      rfl
    rw [if_neg hlt, if_neg h, Window.arena_raw, Window.writePos_raw,
      slice_eq w.compact.writePos_le_size (Nat.le_refl _), pure_bind, hsize]

theorem commit_raw (hw : w.capacity < wordSize) (count : Nat) :
    w.raw.commit count = pure ((w.commit count).1, (w.commit count).2.raw) := by
  by_cases hz : count = 0
  · simp only [commit, Window.commit, if_pos hz]
  · have hfree : sub w.raw.arena.size w.raw.writePos = pure w.free := sub_eq w.writePos_le_size
    simp only [commit, Window.commit, if_neg hz, hfree, pure_bind]
    by_cases hle : count ≤ w.free
    · have hsum : w.writePos + count < wordSize := by
        have := w.writePos_le_size
        simp only [Window.free] at hle
        simp only [Window.capacity] at hw
        omega
      have hcheck := check_raw (w.extend count hle)
      rw [if_neg (Nat.not_lt.2 hle), dif_pos hle]
      simp only [Window.raw, Window.extend] at hcheck ⊢
      rw [add_eq hsum, pure_bind, hcheck, pure_bind]
    · rw [if_pos (Nat.not_le.1 hle), dif_neg hle]

end RawWindow

/-! ### Searches -/

namespace Scan

variable {scan : Scan} {w : Window} {taken : Nat}

theorem withinLimit_start (delim : UInt8) (limit : Option Nat) : (start delim limit).WithinLimit :=
  fun _ _ => Nat.zero_le _

theorem withinLimit_reset (scan : Scan) : scan.reset.WithinLimit := fun _ _ => Nat.zero_le _

theorem check_eq (h : scan.WithinLimit) : scan.check = pure () := by
  refine assert_eq ?_
  cases hl : scan.limit with
  | none => rfl
  | some limit => exact decide_eq_true (h limit hl)

/-- The budget of a search reaches over the unread bytes as far as the search does. -/
theorem exists_budget_eq (hw : w.capacity < wordSize) (hlimit : scan.WithinLimit) :
    ∃ budget, scan.budget = pure budget ∧ scan.reach w = min w.buffered budget := by
  cases hl : scan.limit with
  | none =>
    refine ⟨wordSize - 1, by rw [budget, hl], ?_⟩
    have := w.buffered_le_capacity
    rw [reach, hl, Nat.min_eq_left (by omega)]
  | some limit =>
    refine ⟨limit - scan.taken, ?_, by rw [reach, hl]⟩
    rw [budget, hl]
    exact sub_eq (hlimit limit hl)

/-- Bytes taken within the reach of a search keep it within its limit. -/
theorem WithinLimit.add (hlimit : scan.WithinLimit) {count : Nat} (h : count ≤ scan.reach w) :
    (scan.add count).WithinLimit := by
  intro limit hl
  have hle := hlimit limit hl
  simp only [reach, show scan.limit = some limit from hl] at h
  simp only [Scan.add]
  omega

/-- Bytes within the reach of a search are taken and counted. The count fits in a word, for there
were no fewer taken in all. -/
theorem settles_takeRaw (hw : w.capacity < wordSize) (hlimit : scan.WithinLimit)
    (htaken : scan.taken ≤ taken) {count : Nat} (hcount : count ≤ scan.reach w) (out : Bytes) :
    (scan.takeRaw w.raw count out).Settles taken fun outcome taken' =>
      outcome = (scan.add count, (w.skip count).raw, out ++ w.front count) ∧ taken ≤ taken' ∧
        (scan.add count).taken ≤ taken' := by
  have hle : count ≤ w.buffered := Nat.le_trans hcount (scan.reach_le_buffered w)
  have hsize : count ≤ w.unread.size := by rwa [Window.size_unread]
  have hcheck := check_eq (hlimit.add hcount)
  simp only [takeRaw, RawWindow.unread_raw, pure_bind]
  rw [slice_eq (Nat.zero_le _) hsize, pure_bind, RawWindow.extract_unread]
  refine (RawWindow.settles_consume (RawWindow.readPos_add_lt hw hle)).bind ?_
  rintro - taken' ⟨rfl, rfl, hlt⟩
  rw [Nat.min_eq_left hle] at hlt ⊢
  rw [add_eq (by omega), pure_bind]
  rw [Scan.add] at hcheck ⊢
  simp only [hcheck, pure_bind]
  exact settles_pure ⟨rfl, by omega, by omega⟩

/-- A step of a search in the window of a machine is a step of the search. -/
theorem settles_advanceRaw (hw : w.capacity < wordSize) (hlimit : scan.WithinLimit)
    (htaken : scan.taken ≤ taken) (out : Bytes) :
    (scan.advanceRaw w.raw out).Settles taken fun step taken' =>
      step = (scan.advance w out).raw ∧ taken ≤ taken' ∧ step.scan.WithinLimit ∧
        step.scan.taken ≤ taken' := by
  obtain ⟨budget, hbudget, hreach⟩ := exists_budget_eq hw hlimit
  have hfind : w.find? scan.delim budget = w.find? scan.delim (scan.reach w) := by
    rw [hreach, Window.find?_eq_idxOf?, Window.find?_eq_idxOf?, Nat.min_comm,
      ← Window.length_toList, ← List.take_eq_take_min]
  simp only [advanceRaw, hbudget, RawWindow.find?_raw, pure_bind, hfind]
  cases hfound : w.find? scan.delim (scan.reach w) with
  | some i =>
    obtain ⟨hi, -, -⟩ := w.find?_eq_some_iff.1 hfound
    have hle : i + 1 ≤ w.buffered := Nat.le_trans hi (scan.reach_le_buffered w)
    have hword : i + 1 < wordSize :=
      Nat.lt_of_le_of_lt (Nat.le_add_left ..) (RawWindow.readPos_add_lt hw hle)
    simp only
    rw [add_eq hword, pure_bind]
    refine (settles_takeRaw hw hlimit htaken hi out).bind ?_
    rintro _ taken' ⟨rfl, hle, hscan⟩
    refine settles_pure ⟨?_, hle, hlimit.add hi, hscan⟩
    rw [advance, hfound]
    rfl
  | none =>
    simp only [RawWindow.buffered_raw, pure_bind, ← hreach]
    refine (settles_takeRaw hw hlimit htaken (Nat.le_refl _) out).bind ?_
    rintro _ taken' ⟨rfl, hle, hscan⟩
    refine settles_pure ⟨?_, hle, hlimit.add (Nat.le_refl _), hscan⟩
    rw [advance, hfound]
    rfl

end Scan

/-! ### Readers -/

namespace Reader

variable {σ : Type} [PolledSource σ] {r : Reader σ} {taken : Nat}

/-- A refill of the window of a machine is a refill of the window. -/
theorem pollRefill_raw (hr : r.window.capacity < wordSize) :
    r.raw.pollRefill = pure (r.pollRefill.1, r.pollRefill.2.raw) := by
  simp only [RawReader.pollRefill, pollRefill, window_raw, source_raw, RawWindow.prepareFill_raw,
    pure_bind]
  by_cases hfree : r.window.compact.free = 0
  · simp only [if_pos hfree]
    rfl
  · obtain ⟨p, source, hpoll⟩ : ∃ p source,
        PolledSource.poll r.source r.window.compact.free = (p, source) := ⟨_, _, rfl⟩
    simp only [if_neg hfree, hpoll]
    cases p with
    | pending => rfl
    | ready answer =>
      cases answer with
      | failed cause => rfl
      | supplied written count =>
        have hcapacity : (r.window.compact.stage written).capacity < wordSize := by simpa using hr
        have hcommit := RawWindow.commit_raw hcapacity count
        rw [show (r.window.compact.stage written).raw = r.window.compact.raw.stage written from rfl]
          at hcommit
        simp only [hcommit, pure_bind]
        rcases (r.window.compact.stage written).commit count with ⟨cause | fill, w⟩
        · rfl
        · cases fill <;> rfl

/-- A refill has an outcome, and it has the same one in words. -/
theorem exists_pollRefill_raw (hr : r.window.capacity < wordSize) :
    ∃ p r', r.pollRefill = (p, r') ∧ r.raw.pollRefill = pure (p, r'.raw) ∧
      r'.window.capacity < wordSize := by
  refine ⟨r.pollRefill.1, r.pollRefill.2, rfl, pollRefill_raw hr, ?_⟩
  rwa [capacity_pollRefill]

/-- A read past the window of a machine is a read past the window. The source is answerable for its
count. -/
theorem settles_pollBypass (r : Reader σ) (buffer : Bytes) :
    (r.raw.pollBypass buffer).Settles taken fun call taken' =>
      call = (r.pollBypass buffer).raw ∧ taken ≤ taken' ∧
        ∀ count, call.result = .ready (.ok count) → count ≤ buffer.size := by
  obtain ⟨p, source, hpoll⟩ : ∃ p source,
      PolledSource.poll r.source buffer.size = (p, source) := ⟨_, _, rfl⟩
  simp only [RawReader.pollBypass, pollBypass, note, source_raw, hpoll]
  cases p with
  | pending => exact settles_pure ⟨rfl, Nat.le_refl _, by simp⟩
  | ready answer =>
    cases answer with
    | failed cause => exact settles_pure ⟨rfl, Nat.le_refl _, by simp⟩
    | supplied written count =>
      by_cases hlt : buffer.size < count
      · simp only [if_pos hlt]
        exact settles_excuse
      · simp only [if_neg hlt]
        refine (settles_tally count).bind ?_
        rintro - taken' ⟨rfl, -⟩
        refine settles_pure ⟨rfl, Nat.le_add_right .., ?_⟩
        rintro _ ⟨⟩
        exact Nat.not_lt.1 hlt

omit [PolledSource σ] in
/-- Unread bytes are delivered as they are. -/
theorem settles_deliver (hr : r.window.capacity < wordSize) (buffer : Bytes) :
    (r.raw.deliver buffer).Settles taken fun call taken' =>
      call = (r.deliver buffer).ready.raw ∧ taken ≤ taken' ∧
        ∀ count, call.result = .ready (.ok count) → count ≤ buffer.size := by
  refine (RawWindow.settles_copyTo hr buffer).bind ?_
  rintro _ taken' ⟨rfl, hle⟩
  refine settles_pure ⟨rfl, hle, ?_⟩
  rintro _ ⟨⟩
  exact Nat.min_le_left ..

/-- A read in words is a read, and delivers no more than there is room for. -/
theorem settles_pollRead (hr : r.window.capacity < wordSize) (buffer : Bytes) :
    (r.raw.pollRead buffer).Settles taken fun call taken' =>
      call = (r.pollRead buffer).raw ∧ taken ≤ taken' ∧
        ∀ count, call.result = .ready (.ok count) → count ≤ buffer.size := by
  rw [RawReader.pollRead, pollRead]
  by_cases hsize : buffer.size = 0
  · rw [if_pos hsize, if_pos hsize]
    refine settles_pure ⟨rfl, Nat.le_refl _, ?_⟩
    rintro _ ⟨⟩
    exact Nat.zero_le _
  rw [if_neg hsize, if_neg hsize]
  by_cases hempty : r.window.isEmpty = true
  · rw [if_pos (show r.raw.window.isEmpty = true from hempty), if_pos hempty]
    by_cases hlarge : r.capacity ≤ buffer.size
    · rw [if_pos (show r.raw.window.arena.size ≤ buffer.size from hlarge), if_pos hlarge]
      exact settles_pollBypass r buffer
    · obtain ⟨p, r', hrefill, hraw, hr'⟩ := exists_pollRefill_raw hr
      rw [if_neg (show ¬ r.raw.window.arena.size ≤ buffer.size from hlarge), if_neg hlarge, hraw,
        pure_bind, hrefill]
      rcases p with _ | e | fill
      · exact settles_pure ⟨rfl, Nat.le_refl _, by simp⟩
      · exact settles_pure ⟨rfl, Nat.le_refl _, by simp⟩
      · cases fill with
        | ended =>
          refine settles_pure ⟨rfl, Nat.le_refl _, ?_⟩
          rintro _ ⟨⟩
          exact Nat.zero_le _
        | added count => exact settles_deliver hr' buffer
        | full => exact settles_deliver hr' buffer
  · rw [if_neg (show ¬ r.raw.window.isEmpty = true from hempty), if_neg hempty]
    exact settles_deliver hr buffer

omit [PolledSource σ] in
/-- The next unread byte is taken as it is. -/
theorem settles_pop (hr : r.window.capacity < wordSize) :
    r.raw.pop.Settles taken fun outcome taken' =>
      outcome = (.ready (.ok r.window.pop.1), (r.withWindow r.window.pop.2).raw) ∧
        taken ≤ taken' := by
  refine (RawWindow.settles_pop hr).bind ?_
  rintro _ taken' ⟨rfl, hle⟩
  exact settles_pure ⟨rfl, hle⟩

/-- A read of one byte in words is a read of one byte. -/
theorem settles_pollByte (hr : r.window.capacity < wordSize) :
    r.raw.pollByte.Settles taken fun outcome taken' =>
      outcome = (r.pollByte.1, r.pollByte.2.raw) ∧ taken ≤ taken' := by
  rw [RawReader.pollByte, pollByte]
  by_cases hempty : r.window.isEmpty = true
  · obtain ⟨p, r', hrefill, hraw, hr'⟩ := exists_pollRefill_raw hr
    rw [if_pos (show r.raw.window.isEmpty = true from hempty), if_pos hempty, hraw, pure_bind,
      hrefill]
    rcases p with _ | e | fill
    · exact settles_pure ⟨rfl, Nat.le_refl _⟩
    · exact settles_pure ⟨rfl, Nat.le_refl _⟩
    · exact settles_pop hr'
  · rw [if_neg (show ¬ r.raw.window.isEmpty = true from hempty), if_neg hempty]
    exact settles_pop hr

omit [PolledSource σ] in
theorem look_raw (r : Reader σ) : r.raw.look = pure (.ready (.ok r.unread), r.raw) := by
  rw [RawReader.look, window_raw, RawWindow.unread_raw, pure_bind]
  rfl

/-- A look at the unread bytes in words is such a look. -/
theorem pollFillBuffer_raw (hr : r.window.capacity < wordSize) :
    r.raw.pollFillBuffer = pure (r.pollFillBuffer.1, r.pollFillBuffer.2.raw) := by
  rw [RawReader.pollFillBuffer, pollFillBuffer]
  by_cases hempty : r.window.isEmpty = true
  · obtain ⟨p, r', hrefill, hraw, -⟩ := exists_pollRefill_raw hr
    rw [if_pos (show r.raw.window.isEmpty = true from hempty), if_pos hempty, hraw, pure_bind,
      hrefill]
    rcases p with _ | e | fill
    · rfl
    · rfl
    · exact look_raw r'
  · rw [if_neg (show ¬ r.raw.window.isEmpty = true from hempty), if_neg hempty]
    exact look_raw r

/-- A delimiter read in words is a delimiter read. The search that it leaves has taken no more bytes
than were taken in all and no more than its limit allows. -/
theorem settles_pollLine {rounds : Nat} {scan : Scan} (hr : r.window.capacity < wordSize)
    (hlimit : scan.WithinLimit) (htaken : scan.taken ≤ taken) (out : Bytes) :
    (r.raw.pollLine rounds scan out).Settles taken fun outcome? taken' =>
      outcome? = (r.pollLineWithin rounds scan out).map LineAttempt.raw ∧ taken ≤ taken' ∧
        ∀ attempt, r.pollLineWithin rounds scan out = some attempt →
          attempt.scan.WithinLimit ∧ attempt.scan.taken ≤ taken' := by
  induction rounds generalizing r scan out taken with
  | zero =>
    exact settles_pure ⟨rfl, Nat.le_refl _, fun _ h => absurd h.symm (Option.some_ne_none _)⟩
  | succ rounds ih =>
    rw [RawReader.pollLine, pollLineWithin]
    refine (Scan.settles_advanceRaw hr hlimit htaken out).bind ?_
    rintro _ taken' ⟨rfl, hle, hlimit', htaken'⟩
    simp only [Advance.raw] at hlimit' htaken' ⊢
    have hdone : ∀ p, ∀ r' : Reader σ, ∀ attempt, some (LineAttempt.mk p
        (scan.advance r.window out).scan (scan.advance r.window out).out r') = some attempt →
        attempt.scan.WithinLimit ∧ attempt.scan.taken ≤ taken' := by
      rintro p r' _ ⟨⟩
      exact ⟨hlimit', htaken'⟩
    cases (scan.advance r.window out).verdict with
    | found => exact settles_pure ⟨rfl, hle, hdone _ _⟩
    | overlong limit => exact settles_pure ⟨rfl, hle, hdone _ _⟩
    | starved =>
      have hkeeps : (r.withWindow (scan.advance r.window out).window).window.capacity <
          wordSize := by
        rw [window_withWindow, (scan.advance_keeps r.window out).2.2]
        exact hr
      obtain ⟨p, r', hrefill, hraw, hr'⟩ := exists_pollRefill_raw hkeeps
      simp only [withWindow, raw] at hrefill hraw ⊢
      rw [hraw, pure_bind, hrefill]
      rcases p with _ | e | fill
      · exact settles_pure ⟨rfl, hle, hdone _ _⟩
      · exact settles_pure ⟨rfl, hle, hdone _ _⟩
      · cases fill with
        | added count =>
          refine (ih hr' hlimit' htaken' (scan.advance r.window out).out).mono ?_
          rintro _ taken'' ⟨rfl, hle', hlater⟩
          exact ⟨rfl, Nat.le_trans hle hle', hlater⟩
        | ended => exact settles_pure ⟨rfl, hle, hdone _ _⟩
        | full => exact settles_pure ⟨rfl, hle, hdone _ _⟩

/-- A read keeps the size of the window. -/
theorem capacity_pollRead (r : Reader σ) (buffer : Bytes) :
    (r.pollRead buffer).reader.window.capacity = r.window.capacity := by
  obtain ⟨ms, hcourse, -⟩ := r.exists_course_pollRead buffer
  exact hcourse.capacity

/-- Filling a buffer in words is filling a buffer. -/
theorem settles_pollExact (hr : r.window.capacity < wordSize) (done rest : Bytes)
    (hsize : done.size + rest.size < wordSize) :
    (r.raw.pollExact (done ++ rest) done.size).Settles taken fun outcome taken' =>
      outcome = (r.pollExact done rest).raw ∧ taken ≤ taken' := by
  -- by induction on how much is left to be filled
  induction hn : rest.size using Nat.strongRecOn generalizing r done rest taken with
  | _ n ih =>
    subst hn
    have happend : (done ++ rest).size = done.size + rest.size := Array.size_append
    by_cases hz : rest.size = 0
    · rw [RawReader.pollExact, dif_neg (by omega), pollExact_of_full r done hz]
      exact settles_pure ⟨rfl, Nat.le_refl _⟩
    · rw [RawReader.pollExact, dif_pos (by omega), slice_eq (by omega) (Nat.le_refl _), pure_bind,
        Bytes.extract_append_size, pollExact_eq r done hz]
      refine (settles_pollRead hr rest).bind ?_
      rintro _ taken' ⟨rfl, hle, hbound⟩
      have hbuffer := r.size_buffer_pollRead rest
      have hr' : (r.pollRead rest).reader.window.capacity < wordSize := by
        rwa [capacity_pollRead]
      simp only [Call.raw] at hbound ⊢
      rw [Bytes.overwrite_append_size hbuffer]
      generalize r.pollRead rest = call at hbound hbuffer hr' ⊢
      obtain ⟨result, buffer, r'⟩ := call
      rcases result with _ | e | count
      · exact settles_pure ⟨rfl, hle⟩
      · exact settles_pure ⟨rfl, hle⟩
      · cases count with
        | zero => exact settles_pure ⟨rfl, hle⟩
        | succ count =>
          have hbuffer : buffer.size = rest.size := hbuffer
          have hcount : count + 1 ≤ rest.size := hbound _ rfl
          have hdone := Bytes.size_append_extract done (hbuffer.symm ▸ hcount)
          have hrest : (buffer.extract (count + 1) buffer.size).size = rest.size - (count + 1) := by
            rw [Array.size_extract, Nat.min_self, hbuffer]
          have hwithin : ¬ (rest.size < count + 1 ∧ wordSize ≤ done.size + (count + 1)) :=
            fun hover => absurd hcount (Nat.not_le.2 hover.1)
          simp only [if_neg (Nat.succ_ne_zero count), if_neg hwithin]
          rw [add_eq (by omega), pure_bind,
            ← Bytes.append_extract_append_extract done buffer (count + 1), ← hdone]
          refine (ih _ (by omega) hr' _ _ (by omega) hrest).mono ?_
          rintro _ taken'' ⟨rfl, hle'⟩
          exact ⟨rfl, Nat.le_trans hle hle'⟩

end Reader

end BufferedReading
