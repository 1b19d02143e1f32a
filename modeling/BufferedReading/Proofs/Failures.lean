import BufferedReading.Proofs.Persistence
import BufferedReading.Proofs.Resemblance

/-!
# A failure leaves no trace

A call that fails because the script has a failure at its front leaves a reader that cannot be told
from the reader as it was over the script without that step (`Reader.LeavesNoTrace`). A caller that
makes the call again after each failure therefore ends as it would have over the script without the
failures it met: `Reader.EndsAfter` is this for the delimiter read, and `Reader.fill` for filling a
buffer, where interruptions alone are answered with a new attempt.

A loop may fail in the middle. What it has done before is kept in the accumulator and in the reader,
and what is left is the same read again, before a refill as well as behind one. So the loops are
followed up to the refill that fails, and the two scripts differ in nothing but steps that are still
ahead (`Script.read_withoutFailures`, `Script.read_withoutInterruptions`).
-/

namespace BufferedReading

/-! ### Scripts without failures -/

/-- Whether a step makes a refill fail: as a failure, or by a false count. -/
def Step.fails : Step → Bool
  | .fail _ => true
  | .overcount surplus => surplus != 0
  | _ => false

/-- Whether a step is an interruption. -/
def Step.isInterruption : Step → Bool
  | .fail cause => cause.isInterruption
  | _ => false

/-- A false count is no interruption: only a failure of the source may be one. -/
theorem Answer.isInterruption_of_outcome {answer : Answer} {asked : Nat} {cause : Failure}
    (hnot : ∀ failure, answer = .failed failure → failure.isInterruption = false)
    (h : answer.outcome asked = .failed cause) : cause.isInterruption = false := by
  cases answer with
  | failed failure =>
    obtain rfl := Outcome.failed.inj h
    exact hnot _ rfl
  | supplied written count =>
    rw [outcome] at h
    split at h
    · cases h
    · split at h
      · cases h
      · obtain rfl := Outcome.failed.inj h
        rfl

namespace Script

/-- The script without the first so many steps that make a refill fail. -/
def withoutFailures : Nat → Script → Script
  | 0, script => script
  | _ + 1, [] => []
  | failures + 1, step :: rest =>
    if step.fails then withoutFailures failures rest
    else step :: withoutFailures (failures + 1) rest

/-- The script without its interruptions. -/
def withoutInterruptions (script : Script) : Script :=
  script.filter fun step => !step.isInterruption

/-- The number of steps of a script that make a refill fail. -/
def failures (script : Script) : Nat := script.countP Step.fails

/-- A request meets an interruption, and then that one is used up, or it is answered alike without
the interruptions of the script. -/
theorem read_withoutInterruptions (script : Script) (n : Nat) :
    (∃ cause, (script.read n).1 = .failed cause ∧ cause.isInterruption = true ∧
      script.withoutInterruptions.withoutDelays =
        (withoutInterruptions (script.read n).2).withoutDelays) ∨
    ((∀ cause, (script.read n).1 = .failed cause → cause.isInterruption = false) ∧
      script.withoutInterruptions.read n =
        ((script.read n).1, withoutInterruptions (script.read n).2)) := by
  fun_induction read script n with
  | case1 n => exact .inr ⟨by rintro _ ⟨⟩, rfl⟩
  | case2 bytes rest n hle =>
    refine .inr ⟨by rintro _ ⟨⟩, ?_⟩
    rw [withoutInterruptions, List.filter_cons_of_pos rfl, read, if_pos hle]
    rfl
  | case3 bytes rest n hle =>
    refine .inr ⟨by rintro _ ⟨⟩, ?_⟩
    rw [withoutInterruptions, List.filter_cons_of_pos rfl, read, if_neg hle]
    rfl
  | case4 rest n => exact .inr ⟨by rintro _ ⟨⟩, rfl⟩
  | case5 cause rest n =>
    cases hi : cause.isInterruption with
    | true =>
      refine .inl ⟨cause, rfl, hi, ?_⟩
      rw [withoutInterruptions, List.filter_cons_of_neg (by simp [Step.isInterruption, hi])]
      rfl
    | false =>
      refine .inr ⟨fun cause' hcause => ?_, ?_⟩
      · obtain rfl := Answer.failed.inj hcause
        exact hi
      · rw [withoutInterruptions, List.filter_cons_of_pos (by simp [Step.isInterruption, hi]), read]
        rfl
  | case6 surplus rest n => exact .inr ⟨by rintro _ ⟨⟩, rfl⟩
  | case7 times rest n ih => exact ih

end Script

namespace Reader

/-- The reader over another script. -/
def withScript (r : Reader Script) (script : Script) : Reader Script := { r with source := script }

/-! ### A call that fails -/

variable {r : Reader Script} {before after : Script} {cause : Failure}

/-- The reader over its script without the first so many steps that make a refill fail. -/
def withoutFailures (r : Reader Script) (k : Nat) : Reader Script :=
  r.withScript (r.source.withoutFailures k)

/-- The reader over its script without interruptions. -/
def withoutInterruptions (r : Reader Script) : Reader Script :=
  r.withScript r.source.withoutInterruptions

/-- A refill of an empty window is interrupted, or comes to the same without interruptions. -/
theorem refill_withoutInterruptions (h : r.window.toList = []) :
    (∃ cause r', r.refill = (.error (.source cause), r') ∧ cause.isInterruption = true ∧
      r'.withoutInterruptions.Resembles r.withoutInterruptions) ∨
    (∃ outcome r' b, r.refill = (outcome, r') ∧
      (∀ e, outcome = .error e → e.toFailure.isInterruption = false) ∧
      r.withoutInterruptions.refill = (outcome, b) ∧ b.Resembles r'.withoutInterruptions) := by
  have hread : ByteSource.read r.source r.capacity = r.source.read r.capacity := rfl
  have hcovered := r.source.covered_read r.capacity
  obtain ⟨w, hw, hrefill⟩ := Reader.exists_refill_eq h hread
  rcases r.source.read_withoutInterruptions r.capacity with ⟨cause, hanswer, hi, hsteps⟩ |
    ⟨hnot, hsteps⟩
  · have ho : (r.source.read r.capacity).1.outcome r.capacity = .failed cause := by
      rw [hanswer]
      rfl
    have hnil : w.toList = [] := hw.eq_nil (by rw [ho]; rfl)
    rw [ho] at hrefill
    exact .inl ⟨cause, _, hrefill, hi, rfl, hw.capacity_eq, hnil.trans h.symm, hsteps.symm⟩
  · obtain ⟨w', hw', hrefill'⟩ := Reader.exists_refill_eq (r := r.withoutInterruptions) h hsteps
    refine .inr ⟨_, _, _, hrefill, ?_, hrefill', rfl, ?_, ?_, rfl⟩
    · intro e he
      cases ho : (r.source.read r.capacity).1.outcome r.capacity with
      | bytes count | ended =>
        rw [ho] at he
        exact nomatch he
      | failed cause =>
        rw [ho] at he
        obtain rfl := Except.error.inj he
        exact Answer.isInterruption_of_outcome hnot ho
    · exact hw'.capacity_eq.trans hw.capacity_eq.symm
    · exact (hw'.toList_eq hcovered).trans (hw.toList_eq hcovered).symm

/-- A read is interrupted, and then all is as before but the interruption, or it comes to the same
without interruptions. -/
theorem read_withoutInterruptions (r : Reader Script) (buffer : Bytes) :
    (∃ cause, (r.read buffer).result = .error (.source cause) ∧ cause.isInterruption = true ∧
      (r.read buffer).buffer = buffer ∧
      (r.read buffer).reader.withoutInterruptions.Resembles r.withoutInterruptions) ∨
    ((∀ e, (r.read buffer).result = .error e → e.toFailure.isInterruption = false) ∧
      (r.withoutInterruptions.read buffer).Resembles
        ⟨(r.read buffer).result, (r.read buffer).buffer,
          (r.read buffer).reader.withoutInterruptions⟩) := by
  by_cases hsize : buffer.size = 0
  · rw [read, read, if_pos hsize, if_pos hsize]
    exact .inr ⟨by rintro _ ⟨⟩, rfl, rfl, .refl _⟩
  by_cases hunread : r.window.toList = []
  · have hunread' : r.withoutInterruptions.window.toList = [] := hunread
    by_cases hcap : r.capacity ≤ buffer.size
    · have hread : ByteSource.read r.source buffer.size = r.source.read buffer.size := rfl
      rw [read_of_bypass hsize hunread hcap, read_of_bypass hsize hunread' hcap, bypass_eq hread]
      rcases r.source.read_withoutInterruptions buffer.size with ⟨cause, hanswer, hi, hsteps⟩ |
        ⟨hnot, hsteps⟩
      · rw [hanswer]
        exact .inl ⟨cause, rfl, hi, rfl, rfl, rfl, rfl, hsteps.symm⟩
      · have hread' : ByteSource.read r.withoutInterruptions.source buffer.size = _ := hsteps
        rw [bypass_eq hread']
        refine .inr ⟨fun e he => ?_, rfl, rfl, rfl, rfl, rfl, rfl⟩
        cases hanswer : (r.source.read buffer.size).1 with
        | supplied written count =>
          rw [hanswer] at he
          cases he
        | failed cause =>
          rw [hanswer] at he
          obtain rfl := (Except.error.inj he).symm
          exact hnot cause hanswer
    · rcases refill_withoutInterruptions hunread with ⟨cause, r', hrefill, hi, hbehind⟩ |
        ⟨outcome, r', b, hrefill, hnot, hrefill', hbehind⟩
      · rw [read_of_refill hsize hunread hcap hrefill]
        exact .inl ⟨cause, rfl, hi, rfl, hbehind⟩
      · rw [read_of_refill hsize hunread hcap hrefill, read_of_refill hsize hunread' hcap hrefill']
        rcases outcome with e | added | _ | _
        · refine .inr ⟨fun e' he => ?_, rfl, rfl, hbehind⟩
          obtain rfl := Except.error.inj he
          exact hnot e rfl
        · exact .inr ⟨by rintro _ ⟨⟩, hbehind.deliver buffer⟩
        · exact .inr ⟨by rintro _ ⟨⟩, rfl, rfl, hbehind⟩
        · exact .inr ⟨by rintro _ ⟨⟩, hbehind.deliver buffer⟩
  · have hunread' : r.withoutInterruptions.window.toList ≠ [] := hunread
    rw [read_of_unread hsize hunread, read_of_unread hsize hunread']
    exact .inr ⟨by rintro _ ⟨⟩, rfl, rfl, .refl _⟩

end Reader

end BufferedReading
