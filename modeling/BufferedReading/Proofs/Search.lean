import BufferedReading.Scan

/-!
# A search as a walk over bytes

`Scan.walk` looks for the delimiter one byte after the other: it stops before the first byte that
the limit forbids, behind the delimiter, or at the end of the bytes. `Scan.advance_eq_walk` says
that a step over a window is this walk over the unread bytes. The arena, the cursors and the index
of the delimiter are gone from it, and what a search makes of bytes that arrive in several windows
is said by `Scan.walk_append`. What a search just begun makes of them is said by `Scan.walk_start`.
-/

namespace BufferedReading

namespace Scan

/-- What a search makes of the bytes in front of it: its verdict, the bytes it takes, and the bytes
it leaves. -/
structure Walk where
  /-- How far the search has come. -/
  verdict : Verdict
  /-- The bytes taken. -/
  taken : List UInt8
  /-- The bytes left. -/
  rest : List UInt8
  deriving DecidableEq, Repr

/-- The walk with one more byte taken at its start. -/
def Walk.cons (byte : UInt8) (walk : Walk) : Walk := { walk with taken := byte :: walk.taken }

/-- Goes over bytes one by one, until the limit, the delimiter or the end of the bytes. -/
def walk (scan : Scan) : List UInt8 → Walk
  | [] => ⟨scan.unmet, [], []⟩
  | byte :: bytes =>
    match scan.unmet with
    | .starved =>
      if byte = scan.delim then ⟨.found, [byte], bytes⟩ else (walk (scan.add 1) bytes).cons byte
    | verdict => ⟨verdict, [], byte :: bytes⟩

@[simp] theorem add_zero (scan : Scan) : scan.add 0 = scan := rfl

@[simp] theorem add_add (scan : Scan) (m n : Nat) : (scan.add m).add n = scan.add (m + n) := by
  simp [add, Nat.add_assoc]

@[simp] theorem delim_add (scan : Scan) (n : Nat) : (scan.add n).delim = scan.delim := rfl

@[simp] theorem limit_add (scan : Scan) (n : Nat) : (scan.add n).limit = scan.limit := rfl

/-- A search that has not met its delimiter is never said to have found it. -/
theorem unmet_ne_found (scan : Scan) : scan.unmet ≠ .found := by
  unfold unmet
  split
  · simp
  · split <;> simp

/-- A search is over its limit exactly when there is one and so many bytes have been taken. -/
theorem unmet_eq_overlong_iff {scan : Scan} {limit : Nat} :
    scan.unmet = .overlong limit ↔ scan.limit = some limit ∧ limit ≤ scan.taken := by
  unfold unmet
  cases hl : scan.limit with
  | none => simp
  | some l =>
    simp only [Option.some.injEq]
    split
    · next h =>
      rw [Verdict.overlong.injEq]
      exact ⟨fun he => ⟨he, he ▸ h⟩, And.left⟩
    · next h =>
      constructor
      · intro hc
        simp at hc
      · rintro ⟨rfl, hle⟩
        exact absurd hle h

/-! ### The walk takes from the front -/

/-- The bytes taken and the bytes left are the bytes there were. -/
theorem taken_append_rest (scan : Scan) (bytes : List UInt8) :
    (scan.walk bytes).taken ++ (scan.walk bytes).rest = bytes := by
  induction bytes generalizing scan with
  | nil => rfl
  | cons byte bytes ih =>
    unfold walk
    split
    · split
      · rfl
      · exact congrArg (byte :: ·) (ih (scan.add 1))
    · rfl

/-- A search that wants more bytes has left none. -/
theorem rest_eq_nil_of_starved {scan : Scan} {bytes : List UInt8}
    (h : (scan.walk bytes).verdict = .starved) : (scan.walk bytes).rest = [] := by
  induction bytes generalizing scan with
  | nil => rfl
  | cons byte bytes ih =>
    unfold walk at h ⊢
    split at h
    · split at h
      · simp at h
      · next hb =>
        rw [if_neg hb]
        exact ih h
    · next hne => exact absurd h hne

/-- A search that wants more bytes may still take some. -/
theorem unmet_of_starved {scan : Scan} {bytes : List UInt8}
    (h : (scan.walk bytes).verdict = .starved) :
    (scan.add (scan.walk bytes).taken.length).unmet = .starved := by
  induction bytes generalizing scan with
  | nil => exact h
  | cons byte bytes ih =>
    unfold walk at h ⊢
    split at h
    · split at h
      · simp at h
      · next hb =>
        have hnext : ((scan.add 1).add ((scan.add 1).walk bytes).taken.length).unmet = .starved :=
          ih h
        rw [if_neg hb]
        rwa [add_add, Nat.add_comm 1] at hnext
    · next hne => exact absurd h hne

/-- A search that has found its delimiter has taken it last. -/
theorem taken_of_found {scan : Scan} {bytes : List UInt8}
    (h : (scan.walk bytes).verdict = .found) :
    ∃ before, (scan.walk bytes).taken = before ++ [scan.delim] := by
  induction bytes generalizing scan with
  | nil => exact absurd h scan.unmet_ne_found
  | cons byte bytes ih =>
    unfold walk at h ⊢
    split at h
    · split at h
      · next hb =>
        rw [if_pos hb, hb]
        exact ⟨[], rfl⟩
      · next hb =>
        obtain ⟨before, hbefore⟩ := ih h
        rw [if_neg hb]
        exact ⟨byte :: before, congrArg (byte :: ·) hbefore⟩
    · exact absurd h scan.unmet_ne_found

/-- The limit that a search reports is its own. -/
theorem limit_of_overlong {scan : Scan} {bytes : List UInt8} {limit : Nat}
    (h : (scan.walk bytes).verdict = .overlong limit) : scan.limit = some limit := by
  induction bytes generalizing scan with
  | nil => exact (unmet_eq_overlong_iff.1 h).1
  | cons byte bytes ih =>
    unfold walk at h
    split at h
    · split at h
      · simp at h
      · have hlimit : (scan.add 1).limit = some limit := ih h
        exact hlimit
    · exact (unmet_eq_overlong_iff.1 h).1

/-- The bytes taken are those in front. -/
theorem take_length_taken (scan : Scan) (bytes : List UInt8) :
    bytes.take (scan.walk bytes).taken.length = (scan.walk bytes).taken := by
  have h := congrArg (List.take (scan.walk bytes).taken.length) (taken_append_rest scan bytes)
  rw [List.take_left] at h
  exact h.symm

/-- The bytes taken alone would have brought the search just as far. -/
theorem walk_taken (scan : Scan) (bytes : List UInt8) :
    scan.walk (scan.walk bytes).taken =
      ⟨(scan.walk bytes).verdict, (scan.walk bytes).taken, []⟩ := by
  induction bytes generalizing scan with
  | nil => rfl
  | cons byte bytes ih =>
    cases hu : scan.unmet with
    | found => exact absurd hu scan.unmet_ne_found
    | overlong limit => simp [walk, hu]
    | starved =>
      by_cases hb : byte = scan.delim
      · simp [walk, hu, hb]
      · simp [walk, hu, hb, Walk.cons, ih]

/-- A search that has not found its delimiter has not taken it. -/
theorem delim_notMem_taken {scan : Scan} {bytes : List UInt8}
    (h : (scan.walk bytes).verdict ≠ .found) : scan.delim ∉ (scan.walk bytes).taken := by
  induction bytes generalizing scan with
  | nil => exact List.not_mem_nil
  | cons byte bytes ih =>
    cases hu : scan.unmet with
    | found => exact absurd hu scan.unmet_ne_found
    | overlong limit => simp [walk, hu]
    | starved =>
      by_cases hb : byte = scan.delim
      · simp [walk, hu, hb] at h
      · simp only [walk, hu, if_neg hb, Walk.cons] at h ⊢
        rw [List.mem_cons, not_or]
        exact ⟨Ne.symm hb, ih h⟩

/-- A search that has found its delimiter has taken it last, and only then. -/
theorem exists_taken_of_found {scan : Scan} {bytes : List UInt8}
    (h : (scan.walk bytes).verdict = .found) :
    ∃ before, (scan.walk bytes).taken = before ++ [scan.delim] ∧ scan.delim ∉ before := by
  induction bytes generalizing scan with
  | nil => exact absurd h scan.unmet_ne_found
  | cons byte bytes ih =>
    cases hu : scan.unmet with
    | found => exact absurd hu scan.unmet_ne_found
    | overlong limit => simp [walk, hu] at h
    | starved =>
      by_cases hb : byte = scan.delim
      · exact ⟨[], by simp [walk, hu, hb]⟩
      · simp only [walk, hu, if_neg hb, Walk.cons] at h ⊢
        obtain ⟨before, hbefore, hnot⟩ := ih h
        refine ⟨byte :: before, by rw [hbefore]; rfl, ?_⟩
        rw [List.mem_cons, not_or]
        exact ⟨Ne.symm hb, hnot⟩

/-- A search that starts within its limit ends within it. -/
theorem taken_le_limit {scan : Scan} {limit : Nat} (hlimit : scan.limit = some limit)
    (hle : scan.taken ≤ limit) (bytes : List UInt8) :
    scan.taken + (scan.walk bytes).taken.length ≤ limit := by
  induction bytes generalizing scan with
  | nil => exact hle
  | cons byte bytes ih =>
    cases hu : scan.unmet with
    | found => exact absurd hu scan.unmet_ne_found
    | overlong limit => simpa [walk, hu] using hle
    | starved =>
      have hlt : ¬ limit ≤ scan.taken := by
        intro hle
        rw [unmet_eq_overlong_iff.2 ⟨hlimit, hle⟩] at hu
        simp at hu
      by_cases hb : byte = scan.delim
      · simp only [walk, hu, if_pos hb, List.length_singleton]
        omega
      · have hnext : scan.taken + 1 + ((scan.add 1).walk bytes).taken.length ≤ limit :=
          @ih (scan.add 1) hlimit (Nat.lt_of_not_le hlt)
        simp only [walk, hu, if_neg hb, Walk.cons, List.length_cons]
        omega

/-- A search that is over its limit has taken as many bytes as that. -/
theorem limit_le_of_overlong {scan : Scan} {bytes : List UInt8} {limit : Nat}
    (h : (scan.walk bytes).verdict = .overlong limit) :
    limit ≤ scan.taken + (scan.walk bytes).taken.length := by
  induction bytes generalizing scan with
  | nil => exact (unmet_eq_overlong_iff.1 h).2
  | cons byte bytes ih =>
    cases hu : scan.unmet with
    | found => exact absurd hu scan.unmet_ne_found
    | overlong limit =>
      simp only [walk, hu, Verdict.overlong.injEq] at h ⊢
      subst h
      exact (unmet_eq_overlong_iff.1 hu).2
    | starved =>
      by_cases hb : byte = scan.delim
      · simp [walk, hu, hb] at h
      · simp only [walk, hu, if_neg hb, Walk.cons] at h ⊢
        have hnext : limit ≤ scan.taken + 1 + ((scan.add 1).walk bytes).taken.length := ih h
        rw [List.length_cons]
        omega

/-- A search that is starved goes on as if the bytes that follow had been there at once. -/
theorem walk_append {scan : Scan} {bytes : List UInt8} (more : List UInt8)
    (h : (scan.walk bytes).verdict = .starved) :
    scan.walk (bytes ++ more) =
      let next := (scan.add bytes.length).walk more
      ⟨next.verdict, bytes ++ next.taken, next.rest⟩ := by
  induction bytes generalizing scan with
  | nil => rfl
  | cons byte bytes ih =>
    unfold walk at h
    split at h
    · next hs =>
      split at h
      · simp at h
      · next hb =>
        have hrest := ih h
        rw [add_add, Nat.add_comm 1] at hrest
        simp only [List.cons_append, List.length_cons]
        rw [walk, hs]
        simp only [if_neg hb, hrest, Walk.cons]
    · next hne => exact absurd h hne

/-- A search that has come to its end does not see the bytes that follow. -/
theorem walk_append_of_ne_starved {scan : Scan} {bytes : List UInt8} (more : List UInt8)
    (h : (scan.walk bytes).verdict ≠ .starved) :
    scan.walk (bytes ++ more) =
      ⟨(scan.walk bytes).verdict, (scan.walk bytes).taken, (scan.walk bytes).rest ++ more⟩ := by
  induction bytes generalizing scan with
  | nil =>
    have hunmet : scan.unmet ≠ .starved := h
    cases hu : scan.unmet with
    | found => exact absurd hu scan.unmet_ne_found
    | starved => exact absurd hu hunmet
    | overlong limit => cases more <;> simp [walk, hu]
  | cons byte bytes ih =>
    cases hu : scan.unmet with
    | found => exact absurd hu scan.unmet_ne_found
    | overlong limit => simp [walk, hu]
    | starved =>
      by_cases hb : byte = scan.delim
      · simp [walk, hu, hb]
      · have hlater : ((scan.add 1).walk bytes).verdict ≠ .starved := by
          simpa only [walk, hu, if_neg hb, Walk.cons] using h
        simp only [List.cons_append, walk, hu, if_neg hb, ih hlater, Walk.cons]

/-- What a search comes to with bytes in front of it, with the bytes of its accumulator in front of
those that it takes. -/
def comesTo (scan : Scan) (out : Bytes) (bytes : List UInt8) : Walk :=
  { scan.walk bytes with taken := out.toList ++ (scan.walk bytes).taken }

/-- Behind an empty accumulator a search comes to its walk. -/
@[simp] theorem comesTo_empty (scan : Scan) (bytes : List UInt8) :
    scan.comesTo #[] bytes = scan.walk bytes := rfl

/-- Without bytes in front of it a search has come as far as it has. -/
@[simp] theorem comesTo_nil (scan : Scan) (out : Bytes) :
    scan.comesTo out [] = ⟨scan.unmet, out.toList, []⟩ := by
  rw [comesTo, walk, List.append_nil]

/-! ### A step over a window -/

/-- The walk, said by the index of the delimiter within reach. -/
theorem walk_eq (scan : Scan) (bytes : List UInt8) (reach : Nat)
    (hreach : reach = match scan.limit with
      | none => bytes.length
      | some limit => min bytes.length (limit - scan.taken)) :
    scan.walk bytes = match (bytes.take reach).idxOf? scan.delim with
      | some i => ⟨.found, bytes.take (i + 1), bytes.drop (i + 1)⟩
      | none => ⟨(scan.add reach).unmet, bytes.take reach, bytes.drop reach⟩ := by
  induction bytes generalizing scan reach with
  | nil =>
    have hzero : reach = 0 := by
      cases hl : scan.limit <;> simp [hl] at hreach <;> exact hreach
    subst hzero
    rfl
  | cons byte bytes ih =>
    have hnext := ih (scan.add 1) (reach - 1) (by
      cases hl : scan.limit with
      | none => simp [hl] at hreach ⊢; omega
      | some limit => simp [hl, add] at hreach ⊢; omega)
    rw [walk, hnext]
    cases hu : scan.unmet with
    | found => exact absurd hu scan.unmet_ne_found
    | overlong limit =>
      obtain ⟨hl, hle⟩ := unmet_eq_overlong_iff.1 hu
      have hzero : reach = 0 := by
        simp only [hl] at hreach
        omega
      subst hzero
      simp [hu]
    | starved =>
      obtain ⟨m, rfl⟩ : ∃ m, reach = m + 1 := by
        refine ⟨reach - 1, ?_⟩
        cases hl : scan.limit with
        | none => simp only [hl, List.length_cons] at hreach; omega
        | some limit =>
          have hlt : ¬ limit ≤ scan.taken := by
            intro hle
            rw [unmet_eq_overlong_iff.2 ⟨hl, hle⟩] at hu
            simp at hu
          simp only [hl, List.length_cons] at hreach
          omega
      simp only [List.take_succ_cons, List.idxOf?_cons, Nat.add_sub_cancel, delim_add]
      by_cases hb : byte = scan.delim
      · simp [hb]
      · rw [if_neg hb, if_neg (by simpa using hb)]
        cases (bytes.take m).idxOf? scan.delim with
        | none => simp [Walk.cons, Nat.add_comm 1]
        | some i => simp [Walk.cons]

/-- A step over a window is the walk over its unread bytes. -/
theorem advance_eq_walk (scan : Scan) (w : Window) (out : Bytes) :
    (scan.advance w out).verdict = (scan.walk w.toList).verdict ∧
      (scan.advance w out).scan = scan.add (scan.walk w.toList).taken.length ∧
      (scan.advance w out).window.toList = (scan.walk w.toList).rest ∧
      (scan.advance w out).out.toList = out.toList ++ (scan.walk w.toList).taken := by
  have hreach := reach_le_buffered scan w
  have hwalk := walk_eq scan w.toList (scan.reach w) (by
    rw [Window.length_toList]
    rfl)
  unfold advance
  rw [Window.find?_eq_idxOf?, hwalk]
  cases hi : (w.toList.take (scan.reach w)).idxOf? scan.delim with
  | some i =>
    have hlt : i < (w.toList.take (scan.reach w)).length := (List.idxOf?_eq_some_iff.1 hi).1
    rw [List.length_take, Window.length_toList] at hlt
    simp only [Window.toList_skip, Array.toList_append, Window.toList_front, List.length_take,
      Window.length_toList, and_true, true_and]
    congr 1
    omega
  | none =>
    simp only [Window.toList_skip, Array.toList_append, Window.toList_front, List.length_take,
      Window.length_toList, and_true, true_and]
    congr 1
    omega

/-- A search passes over the bytes that it takes. -/
theorem window_advance (scan : Scan) (w : Window) (out : Bytes) :
    (scan.advance w out).window = w.skip (scan.walk w.toList).taken.length := by
  have hscan := (scan.advance_eq_walk w out).2.1
  obtain ⟨count, hwindow, hcount⟩ : ∃ count, (scan.advance w out).window = w.skip count ∧
      (scan.advance w out).scan = scan.add count := by
    unfold advance
    split
    · exact ⟨_, rfl, rfl⟩
    · exact ⟨_, rfl, rfl⟩
  rw [hscan] at hcount
  have hlength : scan.taken + (scan.walk w.toList).taken.length = scan.taken + count :=
    congrArg Scan.taken hcount
  rw [hwindow, Nat.add_left_cancel hlength]

/-! ### A search just begun -/

/-- What a search that begins anew makes of bytes: it takes those up to its first delimiter if that
is among the first `limit`, or else as many as its limit if there are so many, or else all. -/
def Walk.anew (delim : UInt8) (limit : Option Nat) (bytes : List UInt8) : Walk :=
  match (bytes.take (limit.getD bytes.length)).idxOf? delim with
  | some i => ⟨.found, bytes.take (i + 1), bytes.drop (i + 1)⟩
  | none =>
    match limit.filter (· ≤ bytes.length) with
    | some limit => ⟨.overlong limit, bytes.take limit, bytes.drop limit⟩
    | none => ⟨.starved, bytes, []⟩

/-- The walk of a search that begins anew. -/
theorem walk_start (delim : UInt8) (limit : Option Nat) (bytes : List UInt8) :
    (start delim limit).walk bytes = Walk.anew delim limit bytes := by
  cases limit with
  | none =>
    rw [walk_eq (start delim none) bytes bytes.length rfl, Walk.anew, Option.getD_none]
    simp only [start, Option.filter_none, List.take_length, List.drop_length]
    cases bytes.idxOf? delim <;> rfl
  | some limit =>
    have hwithin : bytes.take (min bytes.length limit) = bytes.take limit := by
      rw [Nat.min_comm, ← List.take_take, List.take_length]
    rw [walk_eq (start delim (some limit)) bytes (min bytes.length limit) rfl, hwithin, Walk.anew,
      Option.getD_some]
    simp only [start]
    cases (bytes.take limit).idxOf? delim with
    | some i => rfl
    | none =>
      by_cases hle : limit ≤ bytes.length
      · have hfilter : (some limit).filter (· ≤ bytes.length) = some limit := by simp [hle]
        rw [hfilter, Nat.min_eq_right hle]
        simp [unmet, add]
      · have hfilter : (some limit).filter (· ≤ bytes.length) = none := by
          simpa using Nat.lt_of_not_le hle
        have htake : bytes.take limit = bytes := List.take_of_length_le (by omega)
        have hmin : min bytes.length limit = bytes.length := by omega
        rw [hfilter, hmin, htake, List.drop_length]
        simp [unmet, add, hle]

variable {delim : UInt8} {limit : Option Nat}

/-- A search takes all bytes among which its delimiter is not, or those up to its limit. -/
theorem walk_start_of_notMem {bytes : List UInt8} (h : delim ∉ bytes) :
    (start delim limit).walk bytes =
      match limit.filter (· ≤ bytes.length) with
      | some limit => ⟨.overlong limit, bytes.take limit, bytes.drop limit⟩
      | none => ⟨.starved, bytes, []⟩ := by
  have hnone : (bytes.take (limit.getD bytes.length)).idxOf? delim = none :=
    List.idxOf?_eq_none_iff.2 fun hmem => h (List.mem_of_mem_take hmem)
  rw [walk_start, Walk.anew, hnone]

/-- A search takes the bytes up to its delimiter, or those up to its limit. -/
theorem walk_start_of_mem {before : List UInt8} (h : delim ∉ before) (after : List UInt8) :
    (start delim limit).walk (before ++ delim :: after) =
      match limit.filter (· < (before ++ [delim]).length) with
      | some limit =>
        ⟨.overlong limit, (before ++ [delim]).take limit, (before ++ [delim]).drop limit ++ after⟩
      | none => ⟨.found, before ++ [delim], after⟩ := by
  -- the search goes on behind the bytes in front of the delimiter unless they reach its limit
  have hbefore : (start delim limit).walk before = _ := walk_start_of_notMem h
  have hlt : (fun limit => decide (limit < (before ++ [delim]).length)) =
      fun limit => decide (limit ≤ before.length) := by
    funext limit
    rw [List.length_append, List.length_singleton, decide_eq_decide, Nat.lt_succ_iff]
  rw [hlt]
  cases hfilter : limit.filter (· ≤ before.length) with
  | some limit =>
    have hle : limit ≤ before.length := by
      have hmem := Option.filter_eq_some_iff.1 hfilter
      exact of_decide_eq_true hmem.2
    simp only [hfilter] at hbefore
    rw [walk_append_of_ne_starved _ (by rw [hbefore]; simp), hbefore]
    simp [List.take_append_of_le_length hle, List.drop_append_of_le_length hle]
  | none =>
    simp only [hfilter] at hbefore
    have hstarved : ((start delim limit).walk before).verdict = .starved := by rw [hbefore]
    have hunmet := unmet_of_starved hstarved
    rw [hbefore] at hunmet
    simp only [walk_append (delim :: after) hstarved, walk, hunmet]
    simp [start, add]

end Scan

end BufferedReading
