import BufferedReading.Proofs.Serving
import BufferedReading.Reader.FinitePolled
import BufferedReading.Source.Script

/-!
# Readers of sources that serve bytes when they are polled

`PollServes` says of a polled source what `Serves` says of one that is waited for: where it is known
what the source has left, it serves that from its front, in pieces. Before each piece it may put off
an attempt, and it then still has what it had. A file is such a source (`File.pollServes`), and so
is a script of pieces and delays (`Script.pollServes`).

An attempt at a delimiter read that is put off leaves a search that comes to the same with the bytes
then ahead (`Reader.HasAhead.pursues_pollLineWithin`). So the read comes to what its search does,
whatever the pieces are and whichever attempts are put off: `Reader.HasAhead.yields_awaitLine`.
-/

namespace BufferedReading

/-! ### Polled sources that serve bytes -/

/-- A polled source of which it is known what it has left serves that from its front, in pieces. It
keeps what it has when it puts an attempt off. -/
def PollServes {σ : Type} [PolledSource σ] (left : σ → List UInt8 → Prop) : Prop :=
  ∀ (s : σ) (bytes : List UInt8) (n : Nat), left s bytes →
    ∃ answer s', PolledSource.poll s n = (answer, s') ∧
      match answer with
      | .pending => left s' bytes
      | .ready answer => ∃ rest, left s' rest ∧ answer.Brings n bytes rest

/-- A file serves its contents at once. -/
theorem File.pollServes : PollServes File.HasLeft := by
  intro f bytes n hleft
  obtain ⟨answer, f', rest, hread, hrest, hbrings⟩ := File.serves f bytes n hleft
  exact ⟨.ready answer, f', congrArg (Prod.map Poll.ready id) hread, rest, hrest, hbrings⟩

namespace Script

/-- What a script of pieces and delays has left: its pieces, joined. -/
inductive HasLeft : Script → List UInt8 → Prop where
  /-- The end of the script. -/
  | nil : HasLeft [] []
  /-- A piece. -/
  | data {script : Script} {rest : List UInt8} (piece : Bytes) :
    piece ≠ #[] → HasLeft script rest → HasLeft (.data piece :: script) (piece.toList ++ rest)
  /-- A delay. -/
  | delay {script : Script} {bytes : List UInt8} (times : Nat) :
    HasLeft script bytes → HasLeft (.delay times :: script) bytes

/-- A script of pieces and delays serves its pieces. -/
theorem serves : Serves HasLeft := by
  intro script bytes n hleft
  induction hleft with
  | nil => exact ⟨_, [], [], rfl, .nil, [], rfl, Nat.zero_le n, rfl, fun _ => .inr rfl⟩
  | @data script rest piece hne hrest _ =>
    have hpiece : piece.toList ≠ [] := by simpa using hne
    by_cases hle : piece.size ≤ n
    · refine ⟨.honest piece, script, rest, if_pos hle, hrest, piece.toList, rfl, ?_, rfl, ?_⟩
      · rwa [Array.length_toList]
      · exact fun hnil => absurd hnil hpiece
    · -- a piece that does not fit stays in part, and with it some bytes
      obtain ⟨hfront, hbehind⟩ :
          (piece.extract 0 n).toList = piece.toList.take n ∧
            (piece.extract n piece.size).toList = piece.toList.drop n := by
        refine ⟨by simp, ?_⟩
        rw [Array.toList_extract, List.extract_eq_take_drop, ← Array.length_toList,
          ← List.length_drop, List.take_length]
      refine ⟨.honest (piece.extract 0 n), .data (piece.extract n piece.size) :: script,
        (piece.extract n piece.size).toList ++ rest, if_neg hle, .data _ ?_ hrest,
        (piece.extract 0 n).toList, rfl, ?_, ?_, ?_⟩
      · intro hnil
        have hsize := congrArg Array.size hnil
        simp only [Array.size_extract, List.size_toArray, List.length_nil] at hsize
        omega
      · rw [hfront]
        exact List.length_take_le _ _
      · rw [hfront, hbehind, ← List.append_assoc, List.take_append_drop]
      · rw [hfront]
        intro hnil
        exact .inl ((List.take_eq_nil_iff.1 hnil).resolve_right hpiece)
  | delay times _ ih => exact ih

/-- A script of pieces and delays serves its pieces when it is polled. -/
theorem pollServes : PollServes HasLeft := by
  intro script bytes n hleft
  rw [show PolledSource.poll script n = script.poll n from rfl]
  fun_induction poll script n with
  | case1 rest n ih =>
    cases hleft with
    | delay _ hrest => exact ih hrest
  | case2 times rest n =>
    cases hleft with
    | delay _ hrest => exact ⟨.pending, _, rfl, .delay times hrest⟩
  | case3 script n =>
    obtain ⟨answer, s', rest, hread, hrest, hbrings⟩ := serves script bytes n hleft
    have hread : script.read n = (answer, s') := hread
    rw [hread]
    exact ⟨.ready answer, s', rfl, rest, hrest, hbrings⟩

end Script

/-! ### Attempts -/

namespace Reader

variable {σ : Type} {left : σ → List UInt8 → Prop} {config : Config} {bytes : List UInt8}
  {r : Reader σ}

/-- An attempt at a delimiter read pursues what a search comes to: if it is put off, its search
comes to that with the bytes then ahead, and if it is ready, it has come to it. -/
def Pursues (attempt : LineAttempt σ) (left : σ → List UInt8 → Prop) (config : Config)
    (walk : Scan.Walk) : Prop :=
  match attempt.result with
  | .pending => ∃ rest, attempt.reader.HasAhead left config rest ∧
    attempt.scan.comesTo attempt.out rest = walk
  | .ready result => Yields ⟨result, attempt.out, attempt.reader⟩ left config walk

section Attempts

variable [PolledSource σ]

/-- An attempt at a refill of an empty window is put off, or adds some of the bytes ahead, or there
are none. -/
theorem HasAhead.pollRefill_cases (hr : r.HasAhead left config bytes) (h : PollServes left)
    (hunread : r.window.toList = []) :
    ∃ p r', r.pollRefill = (p, r') ∧ r'.HasAhead left config bytes ∧
      (p = .pending ∨ (∃ count, p = .ready (.ok (.added count))) ∨
        (p = .ready (.ok .ended) ∧ bytes = [])) := by
  obtain ⟨answer, source, hpoll, hanswer⟩ :=
    h r.source bytes r.capacity (hr.left_of_unread hunread)
  obtain ⟨w, hw, hrefill⟩ := exists_pollRefill_eq hunread hpoll
  cases answer with
  | pending =>
    refine ⟨_, _, hrefill, ⟨hr.config_eq, bytes, hanswer, ?_⟩, .inl rfl⟩
    rw [window_withWindow, hw.1, List.nil_append]
  | ready answer =>
    obtain ⟨rest, hleft, hbrings⟩ := hanswer
    have hw : Filled r.capacity answer w := hw
    obtain ⟨hahead, hcases⟩ := hw.brings_cases hbrings (Nat.ne_of_gt r.window.capacity_pos)
    refine ⟨_, _, hrefill, ⟨hr.config_eq, rest, hleft, hahead⟩, .inr ?_⟩
    rcases hcases with ⟨count, ho, -⟩ | ⟨ho, hnil⟩
    · exact .inl ⟨count, by rw [Poll.map, ho]; rfl⟩
    · exact .inr ⟨by rw [Poll.map, ho]; rfl, hnil⟩

/-- An attempt at a delimiter read pursues what its search comes to. -/
theorem HasAhead.pursues_pollLineWithin (hr : r.HasAhead left config bytes) (h : PollServes left)
    {rounds : Nat} {scan : Scan} {out : Bytes} {attempt : LineAttempt σ}
    (hattempt : pollLineWithin rounds r scan out = some attempt) :
    Pursues attempt left config (scan.comesTo out bytes) := by
  induction rounds generalizing r scan out bytes with
  | zero => simp [pollLineWithin] at hattempt
  | succ rounds ih =>
    cases hv : (scan.advance r.window out).verdict with
    | found =>
      rw [pollLineWithin_of_found hv] at hattempt
      obtain rfl := Option.some.inj hattempt
      exact hr.yields_advance hv (by simp)
    | overlong limit =>
      rw [pollLineWithin_of_overlong hv] at hattempt
      obtain rfl := Option.some.inj hattempt
      exact hr.yields_advance hv (by simp)
    | starved =>
      obtain ⟨rest, hstep, hcomes⟩ := hr.advance_of_starved hv
      rw [← hcomes]
      obtain ⟨p, r', hrefill, hr', rfl | ⟨count, rfl⟩ | ⟨rfl, rfl⟩⟩ :=
        hstep.pollRefill_cases h (Scan.toList_advance_of_starved hv)
      · rw [pollLineWithin_of_pending hv hrefill] at hattempt
        obtain rfl := Option.some.inj hattempt
        exact ⟨rest, hr', rfl⟩
      · rw [pollLineWithin_of_refill hv hrefill, pollLineBehind] at hattempt
        exact ih hr' hattempt
      · rw [pollLineWithin_of_refill hv hrefill] at hattempt
        obtain rfl := Option.some.inj hattempt
        rw [Scan.comesTo_nil, Scan.unmet_advance_of_starved hv]
        exact ⟨rfl, rfl, hr'⟩

end Attempts

section Awaited

variable [FinitePolledSource σ]

/-- An attempt over a finite source pursues what its search comes to. -/
theorem HasAhead.pursues_pollLine (hr : r.HasAhead left config bytes) (h : PollServes left)
    (scan : Scan) (out : Bytes) :
    Pursues (r.pollLine scan out) left config (scan.comesTo out bytes) := by
  have hattempt : pollLineWithin (r.pollStock + 1) r scan out = some (r.pollLine scan out) :=
    (Option.some_get _).symm
  exact hr.pursues_pollLineWithin h hattempt

/-- A delimiter read that is attempted until it is ready comes to what its search does. -/
theorem HasAhead.yields_awaitLine (hr : r.HasAhead left config bytes)
    (h : PollServes left) (scan : Scan) (out : Bytes) :
    Yields (r.awaitLine scan out) left config (scan.comesTo out bytes) := by
  fun_induction awaitLine r scan out generalizing bytes with
  | case1 r scan out result scan' out' r' hattempt =>
    have hpursues := hr.pursues_pollLine h scan out
    rw [hattempt] at hpursues
    exact hpursues
  | case2 r scan out scan' out' r' hattempt ih =>
    have hpursues := hr.pursues_pollLine h scan out
    rw [hattempt] at hpursues
    obtain ⟨rest, hr', hcomes⟩ := hpursues
    rw [← hcomes]
    exact ih hr'

end Awaited

end Reader

end BufferedReading
