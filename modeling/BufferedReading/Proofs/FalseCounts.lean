import Mathlib.Algebra.GroupWithZero.Nat
import BufferedReading.Proofs.Waited
import BufferedReading.Reader.Retrying
import BufferedReading.Session.Polled
import BufferedReading.Source.Script

/-!
# What becomes of a false count

A source may count more bytes than the buffer has that it was given. A refill sees that and fails
with `Failure.overcount`. A read past the window does not look: it hands the count to the caller as
it is, even if it is greater than the buffer. `Reader.Heeds` says so for one read, and that the
unread bytes are the same behind it in either case.

Reads that fill a buffer add such counts up. `Reader.FillsUp` lists the counts of a buffer that was
filled, by whatever loop. Their sum is the size of the buffer if every read past the window was
counted honestly, and greater than it otherwise (`Reader.FillsUp.sumsTo`). A sum that no word holds
is a fault. A loop that cuts off what was counted, as callers do that try again after interruptions,
comes to a fault at every false count past the window (`Reader.exists_passage_fillWithin`).
-/

namespace BufferedReading

/-- The count of a contact that is beyond what was asked for. -/
def Contact.overcount? (c : Contact) : Option Nat :=
  match c.answer with
  | .ready (.supplied _ count) => if c.asked < count then some count else none
  | _ => none

/-- A false count is beyond what was asked for. -/
theorem Contact.lt_of_overcount {c : Contact} {count : Nat} (h : c.overcount? = some count) :
    c.asked < count := by
  unfold overcount? at h
  split at h
  · split at h
    · next hlt => exact Option.some.inj h ▸ hlt
    · exact nomatch h
  · exact nomatch h

/-- An answer with a false count makes a refill fail. -/
theorem Answer.outcome_of_overcount {asked count : Nat} {answer : Answer} {route : Route}
    (h : (Contact.mk route asked (.ready answer)).overcount? = some count) :
    answer.outcome asked = .failed (.overcount count asked) ∧ answer.count = .ok count := by
  cases answer with
  | failed cause => simp [Contact.overcount?] at h
  | supplied written n =>
    simp only [Contact.overcount?] at h
    split at h
    · next hlt =>
      obtain rfl := Option.some.inj h
      refine ⟨?_, rfl⟩
      rw [outcome, if_neg (by omega), if_neg (by omega)]
    · cases h

/-- A contact is honest exactly if it is no read past the window with a false count. -/
theorem Contact.honest_iff (c : Contact) :
    c.Honest ↔ (c.route = .bypass → c.overcount? = none) := by
  obtain ⟨route, asked, answer⟩ := c
  unfold Honest overcount?
  rcases answer with _ | ⟨written, count⟩ | cause
  · simp
  · simp [Answer.WithinBounds]
  · simp [Answer.WithinBounds]

namespace Reader

variable {σ : Type}

/-- What a read that made the given contacts makes of false counts. One in a refill is a failure,
and the caller's buffer is as it was; one past the window is the result. The unread bytes are as
they were. Without a false count past the window no more bytes are counted than the buffer has. -/
structure Heeds (r r' : Reader (Recorded σ)) (buffer left : Bytes) (cs : List Contact)
    (result : Poll (Except ReadError Nat)) : Prop where
  passage : r.Passage cs r'
  once : cs.length ≤ 1
  refilled : ∀ c ∈ cs, c.route = .refill → ∀ count, c.overcount? = some count →
    result = .ready (.error (.source (.overcount count c.asked))) ∧ left = buffer ∧
      r'.unread = r.unread
  bypassed : ∀ c ∈ cs, c.route = .bypass → r.capacity ≤ buffer.size ∧ c.asked = buffer.size ∧
    ∀ count, c.overcount? = some count → result = .ready (.ok count) ∧ r'.unread = r.unread
  counted : (∀ c ∈ cs, c.Honest) → ∀ count, result = .ready (.ok count) → count ≤ buffer.size

/-- A read that makes no contact and counts no more bytes than its buffer has. -/
theorem Heeds.of_no_contact {r r' : Reader (Recorded σ)} {buffer left : Bytes}
    {result : Poll (Except ReadError Nat)} (hpassage : r.Passage [] r')
    (hcounted : ∀ count, result = .ready (.ok count) → count ≤ buffer.size) :
    r.Heeds r' buffer left [] result :=
  ⟨hpassage, Nat.zero_le _, List.forall_mem_nil _, List.forall_mem_nil _, fun _ => hcounted⟩

/-- A read whose count past the window is false returns more than its buffer has room for. -/
theorem Heeds.lt_of_dishonest {r r' : Reader (Recorded σ)} {buffer left : Bytes} {cs : List Contact}
    {result : Poll (Except ReadError Nat)} (h : r.Heeds r' buffer left cs result) {c : Contact}
    (hc : c ∈ cs) (hdishonest : ¬ c.Honest) {n : Nat} (hn : result = .ready (.ok n)) :
    buffer.size < n := by
  rw [Contact.honest_iff, Classical.not_imp] at hdishonest
  obtain ⟨hroute, hover⟩ := hdishonest
  obtain ⟨count, hover⟩ := Option.ne_none_iff_exists'.1 hover
  obtain ⟨-, hasked, hcount⟩ := h.bypassed c hc hroute
  obtain rfl := Except.ok.inj (Poll.ready.inj (hn.symm.trans (hcount count hover).1))
  exact hasked ▸ Contact.lt_of_overcount hover

/-- A read that counts no more than its buffer has room for has met no false count past the
window. -/
theorem Heeds.honest_of_le {r r' : Reader (Recorded σ)} {buffer left : Bytes} {cs : List Contact}
    {result : Poll (Except ReadError Nat)} (h : r.Heeds r' buffer left cs result) {n : Nat}
    (hn : result = .ready (.ok n)) (hle : n ≤ buffer.size) : ∀ c ∈ cs, c.Honest := by
  intro c hc
  apply Classical.byContradiction
  intro hdishonest
  exact absurd (h.lt_of_dishonest hc hdishonest hn) (Nat.not_lt.2 hle)

/-- A read that counts more than its buffer has room for has met a false count past the window. -/
theorem Heeds.exists_dishonest {r r' : Reader (Recorded σ)} {buffer left : Bytes}
    {cs : List Contact} {result : Poll (Except ReadError Nat)}
    (h : r.Heeds r' buffer left cs result) {n : Nat} (hn : result = .ready (.ok n))
    (hlt : buffer.size < n) : ∃ c ∈ cs, ¬ c.Honest := by
  apply Classical.byContradiction
  intro hnone
  have hall : ∀ c ∈ cs, c.Honest := by simpa using hnone
  exact absurd (h.counted hall n hn) (Nat.not_le.2 hlt)

/-- A read that counts nothing has met no false count past the window. -/
theorem Heeds.honest_of_no_count {r r' : Reader (Recorded σ)} {buffer left : Bytes}
    {cs : List Contact} {result : Poll (Except ReadError Nat)}
    (h : r.Heeds r' buffer left cs result) {c : Contact} (hc : c ∈ cs)
    (hn : ∀ n, result ≠ .ready (.ok n)) : c.Honest := by
  rw [Contact.honest_iff]
  intro hroute
  obtain ⟨-, -, hcount⟩ := h.bypassed c hc hroute
  exact Option.eq_none_iff_forall_ne_some.2 fun count hover => hn count (hcount count hover).1

/-- Delivering unread bytes counts no more of them than the buffer has. -/
theorem heeds_deliver (r : Reader (Recorded σ)) (buffer : Bytes) :
    r.Heeds (r.deliver buffer).reader buffer (r.deliver buffer).buffer []
      (.ready (r.deliver buffer).result) := by
  refine .of_no_contact (.withWindow (.refl r) rfl) fun count hcount => ?_
  obtain rfl : min buffer.size r.window.buffered = count := Except.ok.inj (Poll.ready.inj hcount)
  exact Nat.min_le_left ..

section Polled

variable [PolledSource σ]

/-- What an attempt at a read past the window makes of a false count. -/
theorem exists_heeds_pollBypass {r : Reader (Recorded σ)} {buffer : Bytes}
    (hcap : r.capacity ≤ buffer.size) :
    ∃ cs, r.Heeds (r.pollBypass buffer).reader buffer (r.pollBypass buffer).buffer cs
      (r.pollBypass buffer).result := by
  obtain ⟨answer, source, hpoll⟩ :
      ∃ answer source, PolledSource.poll r.source.source buffer.size = (answer, source) :=
    ⟨_, _, rfl⟩
  rw [pollBypass_eq (Recorded.poll_eq hpoll)]
  refine ⟨[⟨.bypass, buffer.size, answer⟩], .meet r _ _, Nat.le_refl 1, ?_, ?_, ?_⟩
  · simp
  · intro c hc _
    obtain rfl := List.mem_singleton.1 hc
    refine ⟨hcap, rfl, fun count hover => ⟨?_, rfl⟩⟩
    cases answer with
    | pending => cases hover
    | ready answer => rw [Poll.map, (Answer.outcome_of_overcount hover).2]
  · intro hhonest count hcount
    cases answer with
    | pending => cases hcount
    | ready answer =>
      have hbounds := hhonest _ (List.mem_singleton_self _) rfl _ rfl
      cases answer with
      | failed cause => cases hcount
      | supplied written n =>
        obtain rfl : n = count := Except.ok.inj (Poll.ready.inj hcount)
        exact hbounds

/-- What an attempt at a read through the window makes of a false count. -/
theorem exists_heeds_pollRead_through {r : Reader (Recorded σ)} (h : r.window.toList = [])
    {buffer : Bytes} (hsize : buffer.size ≠ 0) (hcap : ¬ r.capacity ≤ buffer.size) :
    ∃ cs, r.Heeds (r.pollRead buffer).reader buffer (r.pollRead buffer).buffer cs
      (r.pollRead buffer).result := by
  obtain ⟨answer, source, hpoll⟩ :
      ∃ answer source, PolledSource.poll r.source.source r.capacity = (answer, source) :=
    ⟨_, _, rfl⟩
  obtain ⟨w, hw, hrefill⟩ := exists_pollRefill_eq h (Recorded.poll_eq hpoll)
  have hmeet : r.Passage [⟨.refill, r.capacity, answer⟩] (r.meet ⟨.refill, r.capacity, answer⟩
      (r.source.note r.capacity answer source)) := .meet r _ _
  have hroute : ∀ c ∈ [Contact.mk .refill r.capacity answer], c.route ≠ .bypass := by
    intro c hc
    obtain rfl := List.mem_singleton.1 hc
    exact Route.noConfusion
  cases answer with
  | pending =>
    rw [pollRead_of_pending hsize h hcap hrefill]
    refine ⟨_, hmeet.withWindow hw.2.1, Nat.le_refl 1, ?_, fun c hc hb => absurd hb (hroute c hc),
      nofun⟩
    intro c hc _ count hover
    obtain rfl := List.mem_singleton.1 hc
    exact nomatch hover
  | ready answer =>
    have hready : r.pollRefill = (.ready (answer.outcome r.capacity).fill, _) := hrefill
    rw [pollRead_of_refill hsize h hcap hready]
    have hpassage := hmeet.withWindow hw.capacity_eq
    cases ho : answer.outcome r.capacity with
    | bytes n =>
      refine ⟨_, hpassage.trans (heeds_deliver _ buffer).passage, Nat.le_refl 1, ?_, ?_, ?_⟩
      · intro c hc _ count hover
        obtain rfl := List.mem_singleton.1 hc
        exact nomatch ho.symm.trans (Answer.outcome_of_overcount hover).1
      · exact fun c hc hb => absurd hb (hroute c hc)
      · exact fun _ => (heeds_deliver _ buffer).counted (List.forall_mem_nil _)
    | ended =>
      refine ⟨_, hpassage, Nat.le_refl 1, ?_, fun c hc hb => absurd hb (hroute c hc), ?_⟩
      · intro c hc _ count hover
        obtain rfl := List.mem_singleton.1 hc
        exact nomatch ho.symm.trans (Answer.outcome_of_overcount hover).1
      · intro _ count hcount
        obtain rfl : 0 = count := Except.ok.inj (Poll.ready.inj hcount)
        exact Nat.zero_le _
    | failed cause =>
      refine ⟨_, hpassage, Nat.le_refl 1, ?_, fun c hc hb => absurd hb (hroute c hc), nofun⟩
      intro c hc _ count hover
      obtain rfl := List.mem_singleton.1 hc
      obtain rfl := Outcome.failed.inj (ho.symm.trans (Answer.outcome_of_overcount hover).1)
      refine ⟨rfl, rfl, ?_⟩
      apply Array.toList_inj.1
      change w.toList = r.window.toList
      rw [h, hw.eq_nil (by rw [ho]; rfl)]

/-- What an attempt at a read makes of a false count. -/
theorem exists_heeds_pollRead (r : Reader (Recorded σ)) (buffer : Bytes) :
    ∃ cs, r.Heeds (r.pollRead buffer).reader buffer (r.pollRead buffer).buffer cs
      (r.pollRead buffer).result := by
  by_cases hsize : buffer.size = 0
  · rw [pollRead, if_pos hsize]
    refine ⟨[], .of_no_contact (.refl r) fun count hcount => ?_⟩
    obtain rfl : 0 = count := Except.ok.inj (Poll.ready.inj hcount)
    exact Nat.zero_le _
  by_cases hunread : r.window.toList = []
  · by_cases hcap : r.capacity ≤ buffer.size
    · rw [pollRead_of_bypass hsize hunread hcap]
      exact exists_heeds_pollBypass hcap
    · exact exists_heeds_pollRead_through hunread hsize hcap
  · rw [pollRead_of_unread hsize hunread]
    exact ⟨[], r.heeds_deliver buffer⟩

end Polled

/-- What a read makes of a false count. -/
theorem exists_heeds_read {σ : Type} [ByteSource σ] (r : Reader (Recorded σ)) (buffer : Bytes) :
    ∃ cs, r.Heeds (r.read buffer).reader buffer (r.read buffer).buffer cs
      (.ready (r.read buffer).result) := by
  obtain ⟨cs, h⟩ := @exists_heeds_pollRead σ (.ofWaited σ) r buffer
  have hread : @pollRead _ (@Recorded.instPolledSource σ (.ofWaited σ)) r buffer =
      (r.read buffer).ready := r.pollRead_ofWaited buffer
  rw [hread] at h
  exact ⟨cs, h⟩

/-! ### Buffers that were filled -/

/-- A buffer is filled by attempts at a read: each that counts some bytes leaves the rest of the
buffer to the next one, and after each that counts nothing at all the same part of the buffer is
tried again. The list is of the counts. -/
inductive FillsUp {ρ : Type} (attempt : ρ → Bytes → Call ρ (Poll (Except ReadError Nat))) :
    ρ → Bytes → List Nat → ρ → Prop
  | full {r : ρ} {rest : Bytes} (h : rest.size = 0) : FillsUp attempt r rest [] r
  | count {r r' : ρ} {rest : Bytes} {n : Nat} {counts : List Nat} (hsize : rest.size ≠ 0)
      (h : (attempt r rest).result = .ready (.ok n))
      (hrest : FillsUp attempt (attempt r rest).reader
        ((attempt r rest).buffer.extract n (attempt r rest).buffer.size) counts r') :
      FillsUp attempt r rest (n :: counts) r'
  | again {r r' : ρ} {rest : Bytes} {counts : List Nat} (hsize : rest.size ≠ 0)
      (h : ∀ n, (attempt r rest).result ≠ .ready (.ok n))
      (hrest : FillsUp attempt (attempt r rest).reader (attempt r rest).buffer counts r') :
      FillsUp attempt r rest counts r'

/-- Counts add up to a size if none of those that were met past the window was false, and to more
otherwise. -/
def SumsTo (r r' : Reader (Recorded σ)) (counts : List Nat) (size : Nat) : Prop :=
  ∃ cs, r.Passage cs r' ∧ ((∀ c ∈ cs, c.Honest) → counts.sum = size) ∧
    ((∃ c ∈ cs, ¬ c.Honest) → size < counts.sum)

/-- The counts of a buffer that was filled add up to its size. -/
theorem FillsUp.sumsTo
    {attempt : Reader (Recorded σ) → Bytes →
      Call (Reader (Recorded σ)) (Poll (Except ReadError Nat))}
    (hheeds : ∀ (r : Reader (Recorded σ)) buffer, ∃ cs,
      r.Heeds (attempt r buffer).reader buffer (attempt r buffer).buffer cs
        (attempt r buffer).result)
    (hkept : ∀ r buffer, (attempt r buffer).buffer.size = buffer.size)
    {r r' : Reader (Recorded σ)} {rest : Bytes} {counts : List Nat}
    (h : FillsUp attempt r rest counts r') : r.SumsTo r' counts rest.size := by
  induction h with
  | full hfull =>
    refine ⟨[], .refl _, fun _ => hfull.symm, ?_⟩
    rintro ⟨c, hc, -⟩
    exact absurd hc List.not_mem_nil
  | @count r _ rest n counts hsize hresult _ ih =>
    obtain ⟨cs, hfirst⟩ := hheeds r rest
    obtain ⟨cs', hpassage, hhonest, hfalse⟩ := ih
    simp only [Array.size_extract, hkept, Nat.min_self] at hhonest hfalse
    refine ⟨cs ++ cs', hfirst.passage.trans hpassage, fun hall => ?_, fun hsome => ?_⟩
    · obtain ⟨hcs, hcs'⟩ := List.forall_mem_append.1 hall
      have hle := hfirst.counted hcs n hresult
      rw [List.sum_cons, hhonest hcs']
      omega
    · rw [List.sum_cons]
      by_cases hcs : ∀ c ∈ cs, c.Honest
      · have hle := hfirst.counted hcs n hresult
        obtain ⟨c, hc, hc'⟩ := hsome
        have hlt := hfalse ⟨c, (List.mem_append.1 hc).resolve_left fun hm => hc' (hcs c hm), hc'⟩
        omega
      · -- the false count is the count of this read
        obtain ⟨c, hc, hdishonest⟩ : ∃ c ∈ cs, ¬ c.Honest := by simpa using hcs
        have hlt := hfirst.lt_of_dishonest hc hdishonest hresult
        omega
  | @again r _ rest counts hsize hresult _ ih =>
    obtain ⟨cs, hfirst⟩ := hheeds r rest
    obtain ⟨cs', hpassage, hhonest, hfalse⟩ := ih
    simp only [hkept] at hhonest hfalse
    have hcs : ∀ c ∈ cs, c.Honest := fun c hc => hfirst.honest_of_no_count hc hresult
    refine ⟨cs ++ cs', hfirst.passage.trans hpassage, fun hall => ?_, fun hsome => ?_⟩
    · exact hhonest (List.forall_mem_append.1 hall).2
    · obtain ⟨c, hc, hc'⟩ := hsome
      exact hfalse ⟨c, (List.mem_append.1 hc).resolve_left fun hm => hc' (hcs c hm), hc'⟩

/-! ### The loops that fill a buffer -/

/-- A read that has filled a buffer has done so by reads. -/
theorem exists_fillsUp_readExactFrom {σ : Type} [ByteSource σ] (r : Reader σ) (done rest : Bytes)
    (h : (r.readExactFrom done rest).result = .ok ()) :
    ∃ counts, FillsUp (fun r buffer => (r.read buffer).ready) r rest counts
      (r.readExactFrom done rest).reader := by
  fun_induction readExactFrom r done rest with
  | case1 r done rest hsize => exact ⟨[], .full hsize⟩
  | case2 r done rest hsize e buffer r' hread => cases h
  | case3 r done rest hsize buffer r' hread => cases h
  | case4 r done rest hsize count buffer r' hread hz hover => cases h
  | case5 r done rest hsize count buffer r' hread hz hover ih =>
    obtain ⟨counts, hrest⟩ := ih h
    refine ⟨count :: counts, .count hsize ?_ ?_⟩
    · rw [hread]
      rfl
    · rw [hread]
      exact hrest

/-- A loop that has filled a buffer, going on after interruptions, has done so by reads, and has
counted each byte once. -/
theorem exists_fillsUp_fillWithin {σ : Type} [ByteSource σ] {rounds : Nat} {r : Reader σ}
    {done rest : Bytes} {call : Call (Reader σ) (Except (Stop Failure) Unit)}
    (h : r.fillWithin rounds done rest = some call) (hresult : call.result = .ok ()) :
    ∃ counts, FillsUp (fun r buffer => (r.read buffer).ready) r rest counts call.reader ∧
      counts.sum = rest.size := by
  induction rounds generalizing r done rest with
  | zero => cases h
  | succ rounds ih =>
    by_cases hsize : rest.size = 0
    · rw [fillWithin, if_pos hsize] at h
      obtain rfl := Option.some.inj h
      exact ⟨[], .full hsize, hsize.symm⟩
    rw [fillWithin_eq rounds r done hsize] at h
    cases hread : (r.read rest).result with
    | ok count =>
      simp only [hread] at h
      split at h
      · obtain rfl := Option.some.inj h
        cases hresult
      · split at h
        · obtain rfl := Option.some.inj h
          cases hresult
        · next hle =>
          obtain ⟨counts, hrest, hsum⟩ := ih h
          refine ⟨count :: counts, .count hsize (congrArg Poll.ready hread) hrest, ?_⟩
          rw [List.sum_cons, hsum, Array.size_extract, size_buffer_read]
          omega
    | error e =>
      simp only [hread] at h
      split at h
      · obtain ⟨counts, hrest, hsum⟩ := ih h
        refine ⟨counts, .again hsize (fun n hn => ?_) hrest, hsum.trans (size_buffer_read r rest)⟩
        cases hread.symm.trans (Poll.ready.inj hn)
      · obtain rfl := Option.some.inj h
        cases hresult

/-- An attempt that has filled a buffer has done so by attempts at reads. What fills the part of the
buffer that a pending attempt has left fills the whole of it after that attempt. -/
theorem exists_fillsUp_pollExact {σ : Type} [PolledSource σ] (r : Reader σ) (done rest : Bytes) :
    ((r.pollExact done rest).result = .ready (.ok ()) →
      ∃ counts, FillsUp pollRead r rest counts (r.pollExact done rest).reader) ∧
    ((r.pollExact done rest).result = .pending → ∀ counts r',
      FillsUp pollRead (r.pollExact done rest).reader (r.pollExact done rest).rest counts r' →
        ∃ counts', FillsUp pollRead r rest counts' r') := by
  fun_induction pollExact r done rest with
  | case1 r done rest hsize => exact ⟨fun _ => ⟨[], .full hsize⟩, by simp⟩
  | case2 r done rest hsize buffer r' hread =>
    refine ⟨by simp, fun _ counts r'' hrest => ⟨counts, .again hsize (fun n => ?_) ?_⟩⟩
    · rw [hread]
      simp
    · rw [hread]
      exact hrest
  | case3 r done rest hsize e buffer r' hread => exact ⟨by simp, by simp⟩
  | case4 r done rest hsize buffer r' hread => exact ⟨by simp, by simp⟩
  | case5 r done rest hsize count buffer r' hread hz hover => exact ⟨by simp, by simp⟩
  | case6 r done rest hsize count buffer r' hread hz hover ih =>
    have hcount : ∀ {counts r''},
        FillsUp pollRead r' (buffer.extract count buffer.size) counts r'' →
          FillsUp pollRead r rest (count :: counts) r'' := by
      intro counts r'' hrest
      refine .count hsize ?_ ?_
      · rw [hread]
      · rw [hread]
        exact hrest
    constructor
    · intro hresult
      obtain ⟨counts, hrest⟩ := ih.1 hresult
      exact ⟨_, hcount hrest⟩
    · intro hresult counts r'' hlater
      obtain ⟨counts', hrest⟩ := ih.2 hresult counts r'' hlater
      exact ⟨_, hcount hrest⟩

/-! ### The faults of these loops -/

/-- Honest contacts in front change nothing about whether there is a false count. -/
theorem exists_dishonest_append {cs cs' : List Contact} (h : ∀ c ∈ cs, c.Honest) :
    (∃ c ∈ cs ++ cs', ¬ c.Honest) ↔ ∃ c ∈ cs', ¬ c.Honest := by
  constructor
  · rintro ⟨c, hc, hdishonest⟩
    exact ⟨c, (List.mem_append.1 hc).resolve_left fun hm => hdishonest (h c hm), hdishonest⟩
  · rintro ⟨c, hc, hdishonest⟩
    exact ⟨c, List.mem_append_right _ hc, hdishonest⟩

/-- A loop that cuts off what was counted comes to a fault exactly if it meets a false count past
the window: what it cuts off is not there. -/
theorem exists_passage_fillWithin {σ : Type} [ByteSource σ] {rounds : Nat}
    {r : Reader (Recorded σ)} {done rest : Bytes}
    {call : Call (Reader (Recorded σ)) (Except (Stop Failure) Unit)}
    (h : r.fillWithin rounds done rest = some call) :
    ∃ cs, r.Passage cs call.reader ∧
      ((∃ c ∈ cs, ¬ c.Honest) ↔ call.result = .error (.faulted .slice)) := by
  induction rounds generalizing r done rest with
  | zero => cases h
  | succ rounds ih =>
    by_cases hsize : rest.size = 0
    · rw [fillWithin, if_pos hsize] at h
      obtain rfl := Option.some.inj h
      exact ⟨[], .refl r, by simp⟩
    rw [fillWithin_eq rounds r done hsize] at h
    obtain ⟨cs, hfirst⟩ := r.exists_heeds_read rest
    -- a loop that ends without a fault, or goes on, has met no false count so far
    have hends : (∀ c ∈ cs, c.Honest) → ∀ result : Except (Stop Failure) Unit,
        result ≠ .error (.faulted .slice) →
        ((∃ c ∈ cs, ¬ c.Honest) ↔ result = .error (.faulted .slice)) := by
      intro hcs result hresult
      constructor
      · rintro ⟨c, hc, hdishonest⟩
        exact absurd (hcs c hc) hdishonest
      · exact fun hfault => absurd hfault hresult
    cases hread : (r.read rest).result with
    | ok count =>
      have hcount : Poll.ready (r.read rest).result = .ready (.ok count) := by rw [hread]
      simp only [hread] at h
      by_cases hz : count = 0
      · rw [if_pos hz] at h
        obtain rfl := Option.some.inj h
        have hcs := hfirst.honest_of_le hcount (hz ▸ Nat.zero_le _)
        exact ⟨cs, hfirst.passage, hends hcs _ (by simp)⟩
      rw [if_neg hz] at h
      by_cases hlt : rest.size < count
      · rw [if_pos hlt] at h
        obtain rfl := Option.some.inj h
        exact ⟨cs, hfirst.passage, fun _ => rfl, fun _ => hfirst.exists_dishonest hcount hlt⟩
      · rw [if_neg hlt] at h
        have hcs := hfirst.honest_of_le hcount (Nat.not_lt.1 hlt)
        obtain ⟨cs', hpassage, hiff⟩ := ih h
        exact ⟨cs ++ cs', hfirst.passage.trans hpassage, (exists_dishonest_append hcs).trans hiff⟩
    | error e =>
      have hcs : ∀ c ∈ cs, c.Honest := fun c hc => hfirst.honest_of_no_count hc (by simp [hread])
      simp only [hread] at h
      by_cases hi : e.toFailure.isInterruption = true
      · rw [if_pos hi] at h
        obtain ⟨cs', hpassage, hiff⟩ := ih h
        exact ⟨cs ++ cs', hfirst.passage.trans hpassage, (exists_dishonest_append hcs).trans hiff⟩
      · rw [if_neg hi] at h
        obtain rfl := Option.some.inj h
        exact ⟨cs, hfirst.passage, hends hcs _ (by simp)⟩

/-- An attempt to fill a buffer comes to no fault but a sum that no word holds, and that only by a
false count past the window. -/
theorem exists_passage_pollExact {σ : Type} [PolledSource σ] (r : Reader (Recorded σ))
    (done rest : Bytes) :
    ∃ cs, r.Passage cs (r.pollExact done rest).reader ∧
      ∀ fault, (r.pollExact done rest).result = .ready (.error (.faulted fault)) →
        fault = .overflow ∧ ∃ c ∈ cs, ¬ c.Honest := by
  fun_induction pollExact r done rest with
  | case1 r done rest hsize => exact ⟨[], .refl r, by simp⟩
  | case2 r done rest hsize buffer r' hread | case3 r done rest hsize e buffer r' hread
  | case4 r done rest hsize buffer r' hread =>
    obtain ⟨cs, hfirst⟩ := r.exists_heeds_pollRead rest
    rw [hread] at hfirst
    exact ⟨cs, hfirst.passage, by simp⟩
  | case5 r done rest hsize count buffer r' hread hz hover =>
    obtain ⟨cs, hfirst⟩ := r.exists_heeds_pollRead rest
    rw [hread] at hfirst
    refine ⟨cs, hfirst.passage, ?_⟩
    rintro _ ⟨⟩
    exact ⟨rfl, hfirst.exists_dishonest rfl hover.1⟩
  | case6 r done rest hsize count buffer r' hread hz hover ih =>
    obtain ⟨cs, hfirst⟩ := r.exists_heeds_pollRead rest
    rw [hread] at hfirst
    obtain ⟨cs', hpassage, hfaults⟩ := ih
    refine ⟨cs ++ cs', hfirst.passage.trans hpassage, fun fault hfault => ?_⟩
    obtain ⟨hoverflow, c, hc, hdishonest⟩ := hfaults fault hfault
    exact ⟨hoverflow, c, List.mem_append_right _ hc, hdishonest⟩

/-- Filling a buffer comes to no fault but a sum that no word holds, and that only by a false count
past the window. -/
theorem exists_passage_readExact {σ : Type} [ByteSource σ] (r : Reader (Recorded σ))
    (buffer : Bytes) :
    ∃ cs, r.Passage cs (r.readExact buffer).reader ∧
      ∀ fault, (r.readExact buffer).result = .error (.faulted fault) →
        fault = .overflow ∧ ∃ c ∈ cs, ¬ c.Honest := by
  obtain ⟨cs, hpassage, hfaults⟩ := @exists_passage_pollExact σ (.ofWaited σ) r #[] buffer
  have hexact : (@pollExact _ (@Recorded.instPolledSource σ (.ofWaited σ)) r #[] buffer).result =
        .ready (r.readExact buffer).result ∧ _ ∧
      (@pollExact _ (@Recorded.instPolledSource σ (.ofWaited σ)) r #[] buffer).reader =
        (r.readExact buffer).reader := r.pollExact_ofWaited #[] buffer
  obtain ⟨hresult, -, hreader⟩ := hexact
  rw [hreader] at hpassage
  exact ⟨cs, hpassage, fun fault hfault => hfaults fault (hresult.trans (congrArg _ hfault))⟩

end Reader

/-- Attempts that have filled a buffer have done so by attempts at reads. -/
theorem PolledSession.exists_fillsUp_driveExact {σ : Type} [PolledSource σ] {attempts made : Nat}
    {r r' : Reader σ} {buffer done rest : Bytes}
    (h : driveExact attempts r buffer = some (.ready (.ok ()), made, (done, rest), r')) :
    ∃ counts, Reader.FillsUp Reader.pollRead r buffer counts r' := by
  have hdrive := Poll.drive_induction
    (fun _ s => ∀ counts r', Reader.FillsUp Reader.pollRead s.2 s.1.2 counts r' →
      ∃ counts', Reader.FillsUp Reader.pollRead r buffer counts' r')
    (fun _ result s => result = .ok () →
      ∃ counts, Reader.FillsUp Reader.pollRead r buffer counts s.2)
    ?_ (fun counts _ hfills => ⟨counts, hfills⟩) h
  · exact hdrive.2 rfl
  · rintro n ⟨⟨done, rest⟩, a⟩ p s' hfills hattempt
    obtain ⟨rfl, rfl⟩ := Prod.mk.inj (Option.some.inj hattempt)
    obtain ⟨hready, hpending⟩ := a.exists_fillsUp_pollExact done rest
    cases hp : (a.pollExact done rest).result with
    | pending =>
      intro counts r'' hlater
      obtain ⟨counts', hrest⟩ := hpending hp counts r'' hlater
      exact hfills _ _ hrest
    | ready result =>
      intro hresult
      obtain ⟨counts, hrest⟩ := hready (by rw [hp, hresult])
      exact hfills _ _ hrest

/-- Attempts to fill a buffer come to no fault but a sum that no word holds, and that only by a
false count past the window. -/
theorem PolledSession.exists_passage_driveExact {σ : Type} [PolledSource σ] {attempts made : Nat}
    {r r' : Reader (Recorded σ)} {buffer done rest : Bytes}
    {p : Poll (Except (Stop ReadError) Unit)}
    (h : driveExact attempts r buffer = some (p, made, (done, rest), r')) :
    ∃ cs, r.Passage cs r' ∧ ∀ fault, p = .ready (.error (.faulted fault)) →
      fault = .overflow ∧ ∃ c ∈ cs, ¬ c.Honest := by
  have hdrive := Poll.drive_induction (fun _ s => ∃ cs, r.Passage cs s.2)
    (fun _ result s => ∃ cs, r.Passage cs s.2 ∧ ∀ fault, result = .error (.faulted fault) →
      fault = .overflow ∧ ∃ c ∈ cs, ¬ c.Honest)
    ?_ ⟨[], .refl r⟩ h
  · cases p with
    | pending =>
      obtain ⟨-, cs, hpassage⟩ := hdrive
      exact ⟨cs, hpassage, by simp⟩
    | ready result =>
      obtain ⟨-, cs, hpassage, hfaults⟩ := hdrive
      exact ⟨cs, hpassage, fun fault hfault => hfaults fault (Poll.ready.inj hfault)⟩
  · rintro n ⟨⟨done, rest⟩, a⟩ p s' ⟨cs, hpassage⟩ hattempt
    obtain ⟨rfl, rfl⟩ := Prod.mk.inj (Option.some.inj hattempt)
    obtain ⟨cs', hpassage', hfaults⟩ := a.exists_passage_pollExact done rest
    cases hp : (a.pollExact done rest).result with
    | pending => exact ⟨cs ++ cs', hpassage.trans hpassage'⟩
    | ready result =>
      refine ⟨cs ++ cs', hpassage.trans hpassage', fun fault hfault => ?_⟩
      obtain ⟨hoverflow, c, hc, hdishonest⟩ := hfaults fault (hp.trans (congrArg _ hfault))
      exact ⟨hoverflow, c, List.mem_append_right _ hc, hdishonest⟩

/-- A refill notices a false count: the read fails, and neither the caller's buffer nor the unread
bytes change. A read past the window, which is one into a buffer no smaller than the window, returns
a false count as it is.

The reader's own loop that fills a buffer adds such counts up, so that it may take the buffer for
filled by more bytes than it has, or come to a sum that no word holds; without them it has counted
each byte once. The loop of a caller that tries again after interruptions cuts off what was counted:
it comes to a fault exactly at a false count past the window, and the buffers it fills are filled by
honest counts that add up to their size. -/
theorem false_counts (σ τ : Type) [ByteSource σ] [PolledSource τ] :
    (∀ (r : Reader (Recorded σ)) (buffer : Bytes), ∃ cs,
      r.Heeds (r.read buffer).reader buffer (r.read buffer).buffer cs
        (.ready (r.read buffer).result)) ∧
    (∀ (r : Reader (Recorded τ)) (buffer : Bytes), ∃ cs,
      r.Heeds (r.pollRead buffer).reader buffer (r.pollRead buffer).buffer cs
        (r.pollRead buffer).result) ∧
    (∀ (r : Reader (Recorded σ)) (buffer : Bytes),
      ((r.readExact buffer).result = .ok () →
        ∃ counts, Reader.FillsUp (fun r rest => (r.read rest).ready) r buffer counts
            (r.readExact buffer).reader ∧
          r.SumsTo (r.readExact buffer).reader counts buffer.size) ∧
      ∃ cs, r.Passage cs (r.readExact buffer).reader ∧
        ∀ fault, (r.readExact buffer).result = .error (.faulted fault) →
          fault = .overflow ∧ ∃ c ∈ cs, ¬ c.Honest) ∧
    (∀ (rounds : Nat) (r : Reader (Recorded σ)) (buffer : Bytes)
        (call : Call (Reader (Recorded σ)) (Except (Stop Failure) Unit)),
      r.fillWithin rounds #[] buffer = some call →
      (∃ cs, r.Passage cs call.reader ∧
        ((∃ c ∈ cs, ¬ c.Honest) ↔ call.result = .error (.faulted .slice))) ∧
      (call.result = .ok () →
        ∃ counts, Reader.FillsUp (fun r rest => (r.read rest).ready) r buffer counts call.reader ∧
          counts.sum = buffer.size)) ∧
    ∀ (attempts made : Nat) (r r' : Reader (Recorded τ)) (buffer done rest : Bytes)
        (p : Poll (Except (Stop ReadError) Unit)),
      PolledSession.driveExact attempts r buffer = some (p, made, (done, rest), r') →
      (p = .ready (.ok ()) →
        ∃ counts, Reader.FillsUp Reader.pollRead r buffer counts r' ∧
          r.SumsTo r' counts buffer.size) ∧
      ∃ cs, r.Passage cs r' ∧ ∀ fault, p = .ready (.error (.faulted fault)) →
        fault = .overflow ∧ ∃ c ∈ cs, ¬ c.Honest := by
  have hread := fun (r : Reader (Recorded σ)) rest => r.exists_heeds_read rest
  have hpollRead := fun (r : Reader (Recorded τ)) rest => r.exists_heeds_pollRead rest
  refine ⟨hread, hpollRead, ?_, ?_, ?_⟩
  · intro r buffer
    refine ⟨fun hresult => ?_, r.exists_passage_readExact buffer⟩
    obtain ⟨counts, hfills⟩ := r.exists_fillsUp_readExactFrom #[] buffer hresult
    exact ⟨counts, hfills, hfills.sumsTo hread Reader.size_buffer_read⟩
  · intro rounds r buffer call hfill
    exact ⟨Reader.exists_passage_fillWithin hfill, Reader.exists_fillsUp_fillWithin hfill⟩
  · intro attempts made r r' buffer done rest p hdrive
    refine ⟨?_, PolledSession.exists_passage_driveExact hdrive⟩
    rintro rfl
    obtain ⟨counts, hfills⟩ := PolledSession.exists_fillsUp_driveExact hdrive
    exact ⟨counts, hfills, hfills.sumsTo hpollRead Reader.size_buffer_pollRead⟩

/-- A script that counts one byte too many, behind a window of one byte. -/
def Reader.overcounted : Reader (Recorded Script) := .ofCapacity ⟨[.overcount 1], #[]⟩ 1

/-- A buffer of one byte is taken for filled by a count of two, unless the caller cuts off what was
counted: then that is a fault. -/
theorem false_counts_overcounted :
    ((Reader.overcounted.readExact #[0]).result = .ok () ∧
      ∃ counts, Reader.FillsUp (fun r rest => (r.read rest).ready) Reader.overcounted #[0] counts
          (Reader.overcounted.readExact #[0]).reader ∧
        Reader.overcounted.SumsTo (Reader.overcounted.readExact #[0]).reader counts 1) ∧
    ∃ call, Reader.overcounted.fillWithin 1 #[] #[0] = some call ∧
      call.result = .error (.faulted .slice) ∧
      ∃ cs, Reader.overcounted.Passage cs call.reader ∧ ∃ c ∈ cs, ¬ c.Honest := by
  obtain ⟨-, -, hexact, hfill, -⟩ := false_counts Script Script
  constructor
  · have hresult : (Reader.overcounted.readExact #[0]).result = .ok () := by cbv
    exact ⟨hresult, (hexact Reader.overcounted #[0]).1 hresult⟩
  · obtain ⟨call, hcall⟩ : ∃ call, Reader.overcounted.fillWithin 1 #[] #[0] = some call := ⟨_, rfl⟩
    have hresult : (Reader.overcounted.fillWithin 1 #[] #[0]).map Call.result =
        some (.error (.faulted .slice)) := rfl
    rw [hcall, Option.map_some, Option.some.injEq] at hresult
    obtain ⟨⟨cs, hpassage, hiff⟩, -⟩ := hfill 1 Reader.overcounted #[0] call hcall
    exact ⟨call, hcall, hresult, cs, hpassage, hiff.2 hresult⟩

/-- A read into a buffer of one byte returns that two were read. -/
theorem Reader.read_overcounted :
    (Reader.overcounted.read #[0]).result = .ok 2 ∧
      (Reader.overcounted.read #[0]).reader.unread = Reader.overcounted.unread := by
  constructor
  · rfl
  · decide

end BufferedReading
