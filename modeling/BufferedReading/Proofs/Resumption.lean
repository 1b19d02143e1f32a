import BufferedReading.Proofs.Search

/-!
# Taking up a search where it was left

A search that has run out of bytes goes on in the next window. However bytes are cut into windows,
a search over the windows in turn (`Scan.sweep`) comes to what one step over a window with all of
them does: `Scan.sweep_eq_walk`. What that is for a search just begun is said by `Scan.Walk.anew`.

A search may be used in any order, also after it has come to its end. `Scan.Usage` follows the bytes
that it has moved since it was begun anew: as many as it counts (`Scan.Usage.Counts.after`), and
never more than its limit. At its limit it moves nothing any more (`Scan.advance_at_limit`).
-/

namespace BufferedReading

namespace Scan

/-! ### Windows in turn -/

/-- What a search over several windows leaves behind. -/
structure Sweep where
  /-- How far the search has come. -/
  verdict : Verdict
  /-- The search after its last step. -/
  scan : Scan
  /-- The windows without the bytes taken. -/
  windows : List Window
  /-- The accumulator with the bytes taken. -/
  out : Bytes

/-- Takes a step over each window in turn, as long as the search wants more bytes. -/
def sweep (scan : Scan) (out : Bytes) (w : Window) : List Window → Sweep
  | [] =>
    let step := scan.advance w out
    ⟨step.verdict, step.scan, [step.window], step.out⟩
  | next :: later =>
    let step := scan.advance w out
    match step.verdict with
    | .starved =>
      let rest := sweep step.scan step.out next later
      { rest with windows := step.window :: rest.windows }
    | verdict => ⟨verdict, step.scan, step.window :: next :: later, step.out⟩

/-- A search over windows in turn is the walk over all bytes in them. -/
theorem sweep_eq_walk (scan : Scan) (out : Bytes) (w : Window) (later : List Window) :
    let walk := scan.walk ((w :: later).flatMap Window.toList)
    (scan.sweep out w later).verdict = walk.verdict ∧
      (scan.sweep out w later).scan = scan.add walk.taken.length ∧
      (scan.sweep out w later).windows.flatMap Window.toList = walk.rest ∧
      (scan.sweep out w later).out.toList = out.toList ++ walk.taken := by
  induction later generalizing scan out w with
  | nil =>
    have hstep := scan.advance_eq_walk w out
    simpa only [sweep, List.flatMap_cons, List.flatMap_nil, List.append_nil] using hstep
  | cons next later ih =>
    obtain ⟨hverdict, hscan, hrest, hout⟩ := scan.advance_eq_walk w out
    rw [List.flatMap_cons]
    by_cases hstarved : (scan.walk w.toList).verdict = .starved
    · -- nothing is left in the window, and the search goes on in the next one
      have hnone := rest_eq_nil_of_starved hstarved
      have htaken := scan.taken_append_rest w.toList
      rw [hnone, List.append_nil] at htaken
      rw [htaken] at hscan hout
      obtain ⟨hverdict', hscan', hrest', hout'⟩ :=
        ih (scan.advance w out).scan (scan.advance w out).out next
      rw [hscan] at hverdict' hscan' hrest' hout'
      have hsweep : scan.sweep out w (next :: later) =
          { (scan.advance w out).scan.sweep (scan.advance w out).out next later with
            windows := (scan.advance w out).window ::
              ((scan.advance w out).scan.sweep (scan.advance w out).out next later).windows } := by
        simp only [sweep, hverdict.trans hstarved]
      rw [hsweep, walk_append _ hstarved, hscan]
      refine ⟨hverdict', ?_, ?_, ?_⟩
      · rw [List.length_append, ← add_add]
        exact hscan'
      · rw [List.flatMap_cons, hrest, hnone, List.nil_append]
        exact hrest'
      · rw [← List.append_assoc, ← hout]
        exact hout'
    · rw [walk_append_of_ne_starved _ hstarved]
      have hsweep : scan.sweep out w (next :: later) =
          ⟨(scan.advance w out).verdict, (scan.advance w out).scan,
            (scan.advance w out).window :: next :: later, (scan.advance w out).out⟩ := by
        rw [← hverdict] at hstarved
        simp only [sweep]
      rw [hsweep]
      refine ⟨hverdict, hscan, ?_, hout⟩
      rw [List.flatMap_cons, hrest]

/-! ### A search used in any order -/

/-- At its limit a search moves nothing and reports it. -/
theorem advance_at_limit {scan : Scan} {limit : Nat} (hlimit : scan.limit = some limit)
    (hle : limit ≤ scan.taken) (w : Window) (out : Bytes) :
    scan.advance w out = ⟨.overlong limit, scan, w, out⟩ := by
  have hreach : scan.reach w = 0 := by
    simp only [reach, hlimit]
    omega
  have hunmet : scan.unmet = .overlong limit := unmet_eq_overlong_iff.2 ⟨hlimit, hle⟩
  have hfront : w.front 0 = #[] := by
    rw [← Array.toList_inj, Window.toList_front, List.take_zero]
  unfold advance
  rw [Window.find?_eq_idxOf?, hreach, List.take_zero]
  simp only [List.idxOf?_nil, hfront, w.skip_zero, add_zero, hunmet, Array.append_empty]

/-- What may be done with a search. -/
inductive Use where
  /-- A step over any window, into any accumulator. -/
  | advance (w : Window) (out : Bytes)
  /-- Beginning anew. -/
  | reset

/-- A search, and the bytes it has moved since it was begun anew. -/
structure Usage where
  /-- The search. -/
  scan : Scan
  /-- The bytes moved from windows into accumulators. -/
  moved : List UInt8

/-- The bytes that a step of a search moves: those by which its accumulator has grown. -/
def moves (scan : Scan) (w : Window) (out : Bytes) : List UInt8 :=
  (scan.advance w out).out.toList.drop out.size

/-- A step moves the bytes that the walk over its window takes. -/
theorem moves_eq (scan : Scan) (w : Window) (out : Bytes) :
    scan.moves w out = (scan.walk w.toList).taken := by
  rw [moves, (scan.advance_eq_walk w out).2.2.2, ← Array.length_toList, List.drop_left]

/-- The bytes that a step moves come from the front of its window and go to the end of its
accumulator, and the search counts them. -/
theorem moves_spec (scan : Scan) (w : Window) (out : Bytes) :
    w.toList = scan.moves w out ++ (scan.advance w out).window.toList ∧
      (scan.advance w out).out.toList = out.toList ++ scan.moves w out ∧
      (scan.advance w out).scan = scan.add (scan.moves w out).length := by
  obtain ⟨-, hscan, hrest, hout⟩ := scan.advance_eq_walk w out
  rw [moves_eq, hrest, taken_append_rest]
  exact ⟨rfl, hout, hscan⟩

namespace Usage

/-- The search and its bytes after one more use. -/
def after (u : Usage) : Use → Usage
  | .advance w out => ⟨(u.scan.advance w out).scan, u.moved ++ u.scan.moves w out⟩
  | .reset => ⟨u.scan.reset, []⟩

/-- A search counts the bytes that it has moved, and they are within its limit. -/
structure Counts (delim : UInt8) (limit : Option Nat) (u : Usage) : Prop where
  delim_eq : u.scan.delim = delim
  limit_eq : u.scan.limit = limit
  taken_eq : u.scan.taken = u.moved.length
  taken_le : ∀ most, limit = some most → u.scan.taken ≤ most

variable {delim : UInt8} {limit : Option Nat} {u : Usage}

/-- A search just begun has moved nothing. -/
theorem counts_start (delim : UInt8) (limit : Option Nat) :
    Counts delim limit ⟨start delim limit, []⟩ :=
  ⟨rfl, rfl, rfl, fun most _ => Nat.zero_le most⟩

/-- Every use of a search keeps its count right. -/
theorem Counts.after (h : u.Counts delim limit) (use : Use) :
    (u.after use).Counts delim limit := by
  cases use with
  | reset => exact ⟨h.delim_eq, h.limit_eq, rfl, fun most _ => Nat.zero_le most⟩
  | advance w out =>
    obtain ⟨-, -, hscan⟩ := u.scan.moves_spec w out
    refine ⟨?_, ?_, ?_, ?_⟩
    · rw [Usage.after, hscan, delim_add, h.delim_eq]
    · rw [Usage.after, hscan, limit_add, h.limit_eq]
    · rw [Usage.after, hscan, List.length_append, ← h.taken_eq]
      rfl
    · intro most hmost
      rw [Usage.after, hscan, moves_eq]
      exact taken_le_limit (h.limit_eq.trans hmost) (h.taken_le most hmost) w.toList

/-- However a search is used, its count stays right. -/
theorem Counts.foldl (h : u.Counts delim limit) (uses : List Use) :
    (uses.foldl Usage.after u).Counts delim limit := by
  induction uses generalizing u with
  | nil => exact h
  | cons use uses ih => exact ih (h.after use)

/-- Beginning anew makes a search as it was at first. -/
theorem Counts.reset_eq (h : u.Counts delim limit) : u.scan.reset = start delim limit := by
  rw [reset, start, ← h.delim_eq, ← h.limit_eq]

end Usage

/-! ### Main statement -/

/-- A search may be taken up again at any cut. Over windows in turn it comes to the same verdict as
over one window with all their bytes, with the same bytes in the accumulator, the same bytes left
and the same count. Just begun, it takes the bytes up to the first delimiter within its limit, or
else as many as the limit, or else all.

However a search has been used, it has counted the bytes moved since it was begun anew and has kept
within its limit. What it moves next comes from the front of the window and is counted as well; at
its limit it moves nothing; and begun anew it is as it was at first. -/
theorem search_resumes (delim : UInt8) (limit : Option Nat) :
    (∀ (scan : Scan) (out : Bytes) (w : Window) (later : List Window) (whole : Window),
      whole.toList = (w :: later).flatMap Window.toList →
      let pieces := scan.sweep out w later
      let once := scan.advance whole out
      pieces.verdict = once.verdict ∧ pieces.scan = once.scan ∧ pieces.out = once.out ∧
        pieces.windows.flatMap Window.toList = once.window.toList) ∧
    (∀ (w : Window) (out : Bytes),
      let step := (start delim limit).advance w out
      let walk := Walk.anew delim limit w.toList
      step.verdict = walk.verdict ∧ step.out.toList = out.toList ++ walk.taken ∧
        step.window.toList = walk.rest) ∧
    ∀ uses : List Use,
      let usage := uses.foldl Usage.after ⟨start delim limit, []⟩
      usage.scan.taken = usage.moved.length ∧
      (∀ most, limit = some most → usage.scan.taken ≤ most) ∧
      (∀ (w : Window) (out : Bytes),
        w.toList = usage.scan.moves w out ++ (usage.scan.advance w out).window.toList ∧
          (usage.scan.advance w out).out.toList = out.toList ++ usage.scan.moves w out ∧
          (usage.scan.advance w out).scan =
            usage.scan.add (usage.scan.moves w out).length) ∧
      (limit = some usage.scan.taken → ∀ (w : Window) (out : Bytes),
        usage.scan.advance w out = ⟨.overlong usage.scan.taken, usage.scan, w, out⟩) ∧
      usage.scan.reset = start delim limit := by
  refine ⟨?_, ?_, ?_⟩
  · intro scan out w later whole hwhole
    obtain ⟨hverdict, hscan, hrest, hout⟩ := scan.sweep_eq_walk out w later
    obtain ⟨hverdict', hscan', hrest', hout'⟩ := scan.advance_eq_walk whole out
    rw [← hwhole] at hverdict hscan hrest hout
    refine ⟨hverdict.trans hverdict'.symm, hscan.trans hscan'.symm, ?_, hrest.trans hrest'.symm⟩
    exact Array.toList_inj.1 (hout.trans hout'.symm)
  · intro w out
    obtain ⟨hverdict, -, hrest, hout⟩ := (start delim limit).advance_eq_walk w out
    rw [walk_start] at hverdict hrest hout
    exact ⟨hverdict, hout, hrest⟩
  · intro uses
    have hcounts := (Usage.counts_start delim limit).foldl uses
    refine ⟨hcounts.taken_eq, hcounts.taken_le, fun w out => moves_spec _ w out, ?_,
      hcounts.reset_eq⟩
    intro hlimit w out
    exact advance_at_limit (hcounts.limit_eq.trans hlimit) (Nat.le_refl _) w out

/-- A window with one unread byte, and others that are not. -/
def oneByte (byte : UInt8) : Window := ⟨#[10, byte, 10], 1, 2, by decide, by simp, by simp⟩

/-- The bytes of three windows, one of which is empty, in one window behind a byte that is read. -/
def threeBytes : Window := ⟨#[10, 1, 2, 3], 1, 4, by decide, by decide, by decide⟩

/-- A search with a limit of two bytes stops within the last of three windows, as it does in one,
and then stays where it is until it is begun anew. -/
theorem search_resumes_oneByte :
    ((start 10 (some 2)).sweep #[] (oneByte 1) [.ofCapacity 1, oneByte 2, oneByte 3]).verdict =
        .overlong 2 ∧
      ((start 10 (some 2)).sweep #[] (oneByte 1) [.ofCapacity 1, oneByte 2, oneByte 3]).out =
        #[1, 2] ∧
      ((start 10 (some 2)).advance threeBytes #[]).scan.advance (oneByte 10) #[7] =
        ⟨.overlong 2, ((start 10 (some 2)).advance threeBytes #[]).scan, oneByte 10, #[7]⟩ := by
  obtain ⟨hcut, -, huses⟩ := search_resumes 10 (some 2)
  obtain ⟨hverdict, -, hout, -⟩ := hcut (start 10 (some 2)) #[] (oneByte 1)
    [.ofCapacity 1, oneByte 2, oneByte 3] threeBytes (by decide)
  obtain ⟨-, -, -, hlimit, -⟩ := huses [.advance threeBytes #[]]
  refine ⟨hverdict.trans (by decide), hout.trans (by decide), ?_⟩
  exact hlimit (by decide) (oneByte 10) #[7]

end Scan

end BufferedReading
