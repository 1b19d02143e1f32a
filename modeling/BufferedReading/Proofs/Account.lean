import BufferedReading.Proofs.Reads
import BufferedReading.Proofs.Search
import BufferedReading.Splitter

/-!
# Accounts of the operations of a reader

Every operation on a reader over a source under observation has an account: the contacts it makes,
the bytes it takes and what it signals. `Balanced` says that the bytes which were unread and those
which the contacts brought are the bytes taken and those which are unread now. `Signals` says that
all contacts but the last brought bytes, and that the last one alone decides whether the operation
reports the end of the stream, a failure, or a success.

There is one account for each operation (`Reader.exists_account_read` and so on). They rest on the
equations of `BufferedReading.Proofs.Reads`, and on the account of a refill
(`Reader.exists_account_refill`); loops are taken apart by `Signals.cons` and `Balanced.trans`.
-/

namespace BufferedReading

namespace Contact

/-- A contact is honest if it refills the window, where a false count is seen, or if its answer
counts no more bytes than the caller's buffer has. -/
def Honest (c : Contact) : Prop :=
  c.route = .bypass → ∀ answer, c.answer = .ready answer → answer.WithinBounds c.asked

/-- A contact is covered if its answer counts no byte that was not written, false counts apart. -/
def Covered (c : Contact) : Prop :=
  ∀ answer, c.answer = .ready answer → answer.Covered c.asked

/-- A contact has brought bytes. -/
def Fruitful (c : Contact) : Prop := ∃ count, c.outcome? = some (.bytes count)

/-- What the last of some contacts came to. -/
def last? (cs : List Contact) : Option Outcome := cs.getLast?.bind outcome?

@[simp] theorem last?_nil : last? [] = none := rfl

@[simp] theorem last?_singleton (c : Contact) : last? [c] = c.outcome? := rfl

theorem last?_append_cons (cs cs' : List Contact) (c : Contact) :
    last? (cs ++ c :: cs') = last? (c :: cs') := by
  simp [last?, List.getLast?_append, List.getLast?_cons]

/-- The last of some fruitful contacts has brought bytes. -/
theorem last?_of_fruitful {cs : List Contact} (h : ∀ c ∈ cs, c.Fruitful) :
    last? cs = none ∨ ∃ count, last? cs = some (.bytes count) := by
  rcases List.eq_nil_or_concat cs with rfl | ⟨before, c, rfl⟩
  · exact .inl rfl
  · rw [List.concat_eq_append] at h ⊢
    obtain ⟨count, hcount⟩ := h c (by simp)
    exact .inr ⟨count, by rw [last?_append_cons, last?_singleton, hcount]⟩

end Contact

/-- An exchange is reliable if its answer, when there is one, counts no byte that was not written
and no more bytes than were asked for. -/
def Exchange.Reliable (e : Exchange) : Prop :=
  match e.answer with
  | .pending => True
  | .ready answer => answer.Covered e.asked ∧ answer.WithinBounds e.asked

instance (e : Exchange) : Decidable e.Reliable := by
  unfold Exchange.Reliable
  cases e.answer
  · exact inferInstanceAs (Decidable True)
  · exact inferInstanceAs (Decidable (_ ∧ _))

/-- Contacts are covered and honest if the source sees reliable exchanges. -/
theorem Contact.reliable_of_exchanges {cs : List Contact}
    (h : ∀ e ∈ cs.map Contact.exchange, e.Reliable) : ∀ c ∈ cs, c.Covered ∧ c.Honest := by
  intro c hc
  have hanswer : ∀ answer, c.answer = .ready answer →
      answer.Covered c.asked ∧ answer.WithinBounds c.asked := by
    intro answer ha
    have he := h _ (List.mem_map_of_mem hc)
    rwa [Exchange.Reliable, Contact.exchange, ha] at he
  exact ⟨fun answer ha => (hanswer answer ha).1, fun _ answer ha => (hanswer answer ha).2⟩

/-- The source has answered each of the contacts, and all but the last of them brought bytes. -/
structure Orderly (cs : List Contact) : Prop where
  answered : ∀ c ∈ cs, c.outcome?.isSome
  fruitful : ∀ c ∈ cs.dropLast, c.Fruitful

namespace Orderly

variable {cs cs' : List Contact}

theorem nil : Orderly [] := by
  constructor <;> simp

theorem of_outcome {c : Contact} {outcome : Outcome} (hc : c.outcome? = some outcome) :
    Orderly [c] := by
  constructor <;> simp [hc]

/-- Contacts that brought bytes may stand in front. -/
theorem append (h : ∀ c ∈ cs, c.Fruitful) (h' : Orderly cs') : Orderly (cs ++ cs') where
  answered := by
    intro c hc
    rcases List.mem_append.1 hc with hc | hc
    · obtain ⟨count, hcount⟩ := h c hc
      rw [hcount, Option.isSome_some]
    · exact h'.answered c hc
  fruitful := by
    intro c hc
    cases cs' with
    | nil =>
      rw [List.append_nil] at hc
      exact h c (List.dropLast_subset cs hc)
    | cons d cs' =>
      rw [List.dropLast_append_cons, List.mem_append] at hc
      rcases hc with hc | hc
      · exact h c hc
      · exact h'.fruitful c hc

/-- If the last contact came neither to the end nor to a failure then all contacts brought bytes. -/
theorem all_fruitful (h : Orderly cs) (hended : Contact.last? cs ≠ some .ended)
    (hfailed : ∀ cause, Contact.last? cs ≠ some (.failed cause)) : ∀ c ∈ cs, c.Fruitful := by
  rcases List.eq_nil_or_concat cs with rfl | ⟨before, c, rfl⟩
  · simp
  · rw [List.concat_eq_append] at h hended hfailed ⊢
    intro d hd
    rcases List.mem_append.1 hd with hd | hd
    · exact h.fruitful d (by rwa [List.dropLast_concat])
    · rw [List.mem_singleton] at hd
      subst hd
      obtain ⟨outcome, houtcome⟩ := Option.isSome_iff_exists.1 (h.answered d (by simp))
      rw [Contact.last?_append_cons, Contact.last?_singleton, houtcome] at hended
      simp only [Contact.last?_append_cons, Contact.last?_singleton, houtcome] at hfailed
      cases outcome with
      | bytes count => exact ⟨count, houtcome⟩
      | ended => exact absurd rfl hended
      | failed cause => exact absurd rfl (hfailed cause)

end Orderly

/-- What an operation that made the given contacts may signal: the end of the stream, a failure with
its cause, or a success. What is signalled is what the last contact came to. -/
structure Signals (cs : List Contact) (ended : Prop) (failed : Failure → Prop) (succeeded : Prop) :
    Prop extends Orderly cs where
  ended_iff : ended ↔ Contact.last? cs = some .ended
  failed_iff : ∀ cause, failed cause ↔ Contact.last? cs = some (.failed cause)
  succeeded_of : ¬ ended → (∀ cause, ¬ failed cause) → succeeded

namespace Signals

variable {cs cs' : List Contact} {ended succeeded : Prop} {failed : Failure → Prop}

/-- An operation that makes no contact succeeds. -/
theorem of_nil (hended : ¬ ended) (hfailed : ∀ cause, ¬ failed cause) (hsucceeded : succeeded) :
    Signals [] ended failed succeeded where
  toOrderly := .nil
  ended_iff := by simp [hended]
  failed_iff := by simp [hfailed]
  succeeded_of _ _ := hsucceeded

/-- An operation that makes one contact signals what that came to. -/
theorem of_outcome {c : Contact} {outcome : Outcome} (hc : c.outcome? = some outcome)
    (hended : ended ↔ outcome = .ended) (hfailed : ∀ cause, failed cause ↔ outcome = .failed cause)
    (hsucceeded : ∀ count, outcome = .bytes count → succeeded) :
    Signals [c] ended failed succeeded where
  toOrderly := .of_outcome hc
  ended_iff := by simp [hc, hended]
  failed_iff := by simp [hc, hfailed]
  succeeded_of := by
    intro hnended hnfailed
    cases outcome with
    | bytes count => exact hsucceeded count rfl
    | ended => exact absurd (hended.2 rfl) hnended
    | failed cause => exact absurd ((hfailed cause).2 rfl) (hnfailed cause)

/-- A first contact that brought bytes signals nothing. -/
theorem cons {c : Contact} (hc : c.Fruitful) (h : Signals cs ended failed succeeded) :
    Signals (c :: cs) ended failed succeeded := by
  have hfruitful : ∀ d ∈ [c], d.Fruitful := by simpa using hc
  have horderly : Orderly (c :: cs) := Orderly.append hfruitful h.toOrderly
  cases cs with
  | nil =>
    obtain ⟨count, hcount⟩ := hc
    have hnended : ¬ ended := by simp [h.ended_iff]
    have hnfailed : ∀ cause, ¬ failed cause := by simp [h.failed_iff]
    exact ⟨horderly, by simp [hcount, hnended], by simp [hcount, hnfailed], h.succeeded_of⟩
  | cons d cs =>
    have hlast : Contact.last? (c :: d :: cs) = Contact.last? (d :: cs) :=
      Contact.last?_append_cons [c] cs d
    refine ⟨horderly, ?_, fun cause => ?_, h.succeeded_of⟩
    · rw [hlast, h.ended_iff]
    · rw [hlast, h.failed_iff]

theorem mono {succeeded' : Prop} (h : Signals cs ended failed succeeded)
    (himp : succeeded → succeeded') : Signals cs ended failed succeeded' :=
  ⟨h.toOrderly, h.ended_iff, h.failed_iff, fun hended hfailed =>
    himp (h.succeeded_of hended hfailed)⟩

end Signals

/-! ### What an operation takes -/

/-- The bytes that a read has put into its buffer. -/
def Call.delivered {ρ ε : Type} (call : Call ρ (Except ε Nat)) : List UInt8 :=
  match call.result with
  | .ok count => call.buffer.toList.take count
  | .error _ => []

/-- A buffer that has taken in an answer starts with the bytes brought. -/
theorem Answer.delivered_onto {ρ : Type} {reader : ρ} {buffer : Bytes} {answer : Answer}
    (hbounds : answer.WithinBounds buffer.size) (hcovered : answer.Covered buffer.size) :
    (⟨answer.count, answer.onto buffer, reader⟩ : Call ρ (Except ReadError Nat)).delivered =
      answer.brought buffer.size := by
  cases answer with
  | failed cause => rfl
  | supplied written count =>
    have hle : count ≤ buffer.size := hbounds
    have hsize : count ≤ written.size := hcovered hle
    simp only [Call.delivered, Answer.count, onto, brought, if_pos hle, Bytes.toList_overwrite,
      List.take_zero, List.nil_append]
    rw [List.take_append_of_le_length (by simp; omega), List.take_take]
    congr 1
    omega

namespace Reader

variable {σ : Type}

/-- The bytes that were unread and those that the contacts brought are the bytes taken and those
that are unread now, in this order, if the counts of the source can be relied on. -/
def Balanced (r : Reader (Recorded σ)) (cs : List Contact) (taken : List UInt8)
    (r' : Reader (Recorded σ)) : Prop :=
  (∀ c ∈ cs, c.Covered ∧ c.Honest) →
    r.window.toList ++ cs.flatMap Contact.brought = taken ++ r'.window.toList

namespace Balanced

variable {r r' r'' : Reader (Recorded σ)} {cs cs' : List Contact} {taken taken' : List UInt8}

theorem of_window (h : r.window.toList = taken ++ r'.window.toList) : r.Balanced [] taken r' := by
  intro _
  rw [List.flatMap_nil, List.append_nil, h]

theorem trans (h : r.Balanced cs taken r') (h' : r'.Balanced cs' taken' r'') :
    r.Balanced (cs ++ cs') (taken ++ taken') r'' := by
  intro hcs
  have hfirst := h fun c hc => hcs c (List.mem_append_left _ hc)
  have hsecond := h' fun c hc => hcs c (List.mem_append_right _ hc)
  rw [List.flatMap_append, ← List.append_assoc, hfirst, List.append_assoc, hsecond,
    List.append_assoc]

end Balanced

/-! ### Delivering unread bytes -/

/-- The bytes delivered are unread bytes from the front. -/
theorem delivered_deliver (r : Reader σ) (buffer : Bytes) :
    (r.deliver buffer).delivered = r.window.toList.take (min buffer.size r.window.buffered) := by
  have hsize : (r.window.front (min buffer.size r.window.buffered)).size =
      min buffer.size r.window.buffered := by
    rw [Window.size_front]
    omega
  have hfront : (buffer.overwrite 0 (r.window.front (min buffer.size r.window.buffered))).toList =
      r.window.toList.take (min buffer.size r.window.buffered) ++
        buffer.toList.drop (min buffer.size r.window.buffered) := by
    rw [Bytes.toList_overwrite_zero (by rw [hsize]; exact Nat.min_le_left ..), hsize,
      Window.toList_front]
  simp only [Call.delivered, deliver, hfront]
  exact List.take_left' (by simp)

/-- Delivering unread bytes takes them from the front of the window. -/
theorem balanced_deliver (r : Reader (Recorded σ)) (buffer : Bytes) :
    r.Balanced [] (r.deliver buffer).delivered (r.deliver buffer).reader := by
  apply Balanced.of_window
  rw [delivered_deliver, deliver, Window.toList_skip, List.take_append_drop]

/-- A read into a buffer that can hold a byte delivers unread bytes, if there are any. -/
theorem deliver_result {r : Reader σ} {buffer : Bytes} (hsize : buffer.size ≠ 0)
    (h : r.window.toList ≠ []) :
    ∃ count, (r.deliver buffer).result = .ok count ∧ 0 < count ∧ count ≤ buffer.size := by
  have hb : r.window.buffered ≠ 0 := by
    rwa [← Window.length_toList, ne_eq, List.length_eq_zero_iff]
  exact ⟨min buffer.size r.window.buffered, rfl, by omega, Nat.min_le_left ..⟩

/-! ### Asking the source -/

variable [ByteSource σ]

/-- The account of a refill of an empty window: it brings bytes, or meets the end of the stream, or
fails. -/
theorem exists_account_refill {r : Reader (Recorded σ)} (h : r.window.toList = []) :
    ∃ c r', r.Passage [c] r' ∧ r.Balanced [c] [] r' ∧
      ((∃ count, r.refill = (.ok (.added count), r') ∧ c.outcome? = some (.bytes count) ∧
          r'.window.toList ≠ []) ∨
        (r.refill = (.ok .ended, r') ∧ c.outcome? = some .ended ∧ r'.window.toList = []) ∨
        ∃ cause, r.refill = (.error (.source cause), r') ∧
          c.outcome? = some (.failed cause)) := by
  obtain ⟨answer, rest, hread⟩ :
      ∃ answer rest, ByteSource.read r.source.source r.capacity = (answer, rest) := ⟨_, _, rfl⟩
  obtain ⟨w, hw, hrefill⟩ := exists_refill_eq h (Recorded.read_eq hread)
  refine ⟨⟨.refill, r.capacity, .ready answer⟩, _,
    (Passage.meet r _ rest).withWindow hw.capacity_eq, ?_, ?_⟩
  · intro hcs
    obtain ⟨hcovered, -⟩ := hcs _ (List.mem_singleton_self _)
    rw [h, List.flatMap_singleton, List.nil_append, List.nil_append]
    exact (hw.toList_eq (hcovered _ rfl)).symm
  · have hlast : Contact.outcome? ⟨.refill, r.capacity, .ready answer⟩ =
        some (answer.outcome r.capacity) := rfl
    cases ho : answer.outcome r.capacity with
    | bytes count => exact .inl ⟨count, by rw [hrefill, ho]; rfl, by rw [hlast, ho], hw.ne_nil ho⟩
    | ended =>
      have hnil : w.toList = [] := hw.eq_nil (by rw [ho]; rfl)
      exact .inr (.inl ⟨by rw [hrefill, ho]; rfl, by rw [hlast, ho], hnil⟩)
    | failed cause => exact .inr (.inr ⟨cause, by rw [hrefill, ho]; rfl, by rw [hlast, ho]⟩)

/-! ### The reads -/

/-- What a read of at least one byte may signal. -/
def ReadSignals (cs : List Contact) (buffer : Bytes) (result : Except ReadError Nat) : Prop :=
  Signals cs (result = .ok 0) (fun cause => result = .error (.source cause))
    (∃ count, result = .ok count ∧ 0 < count ∧ count ≤ buffer.size)

omit [ByteSource σ] in
/-- A read that finds unread bytes succeeds without a contact. -/
theorem readSignals_deliver {r : Reader σ} {buffer : Bytes} (hsize : buffer.size ≠ 0)
    (h : r.window.toList ≠ []) : ReadSignals [] buffer (r.deliver buffer).result := by
  obtain ⟨count, hcount, hpos, hle⟩ := deliver_result hsize h
  apply Signals.of_nil
  · rw [hcount, Except.ok.injEq]
    omega
  · simp [hcount]
  · exact ⟨count, hcount, hpos, hle⟩

/-- The account of a read past the window. -/
theorem exists_account_read_past {r : Reader (Recorded σ)} (h : r.window.toList = [])
    (buffer : Bytes) :
    ∃ cs, r.Passage cs (r.bypass buffer).reader ∧
      r.Balanced cs (r.bypass buffer).delivered (r.bypass buffer).reader ∧
      ((∀ c ∈ cs, c.Honest) → ReadSignals cs buffer (r.bypass buffer).result) := by
  obtain ⟨answer, rest, hread⟩ :
      ∃ answer rest, ByteSource.read r.source.source buffer.size = (answer, rest) := ⟨_, _, rfl⟩
  rw [bypass_eq (Recorded.read_eq hread)]
  refine ⟨[⟨.bypass, buffer.size, .ready answer⟩], Passage.meet r _ _, fun hcs => ?_,
    fun hhonest => ?_⟩
  · obtain ⟨hcovered, hhonest⟩ := hcs _ (List.mem_singleton_self _)
    rw [Answer.delivered_onto (hhonest rfl _ rfl) (hcovered _ rfl), window_meet, h,
      List.append_nil, List.nil_append, List.flatMap_singleton]
    rfl
  · have hbounds := hhonest _ (List.mem_singleton_self _) rfl _ rfl
    apply Signals.of_outcome rfl
    · exact Answer.count_eq_ok_zero_iff hbounds
    · exact fun cause => Answer.count_eq_error_iff hbounds
    · intro count hcount
      exact ⟨count, Answer.count_of_outcome hcount, Answer.bounds_of_outcome hcount⟩

/-- The account of a read through the window. -/
theorem exists_account_read_through {r : Reader (Recorded σ)} (h : r.window.toList = [])
    {buffer : Bytes} (hsize : buffer.size ≠ 0) (hcap : ¬ r.capacity ≤ buffer.size) :
    ∃ cs, r.Passage cs (r.read buffer).reader ∧
      r.Balanced cs (r.read buffer).delivered (r.read buffer).reader ∧
      ReadSignals cs buffer (r.read buffer).result := by
  obtain ⟨c, r', hpassage, hbalanced, hcases⟩ := exists_account_refill h
  rcases hcases with ⟨count, hrefill, hlast, hunread⟩ | ⟨hrefill, hlast, -⟩ |
    ⟨cause, hrefill, hlast⟩
  · rw [read_of_refill hsize h hcap hrefill]
    refine ⟨[c], hpassage.withWindow rfl, hbalanced.trans (balanced_deliver r' buffer), ?_⟩
    exact Signals.cons ⟨count, hlast⟩ (readSignals_deliver hsize hunread)
  · rw [read_of_refill hsize h hcap hrefill]
    refine ⟨[c], hpassage, hbalanced, ?_⟩
    apply Signals.of_outcome hlast <;> simp [readBehind]
  · rw [read_of_refill hsize h hcap hrefill]
    refine ⟨[c], hpassage, hbalanced, ?_⟩
    apply Signals.of_outcome hlast <;> simp [readBehind]

/-- The account of a read. -/
theorem exists_account_read (r : Reader (Recorded σ)) (buffer : Bytes) :
    ∃ cs, r.Passage cs (r.read buffer).reader ∧
      r.Balanced cs (r.read buffer).delivered (r.read buffer).reader ∧
      (buffer.size ≠ 0 → (∀ c ∈ cs, c.Honest) → ReadSignals cs buffer (r.read buffer).result) := by
  by_cases hsize : buffer.size = 0
  · rw [read, if_pos hsize]
    exact ⟨[], .refl r, .of_window rfl, fun h => absurd hsize h⟩
  by_cases hunread : r.window.toList = []
  · by_cases hcap : r.capacity ≤ buffer.size
    · obtain ⟨cs, hpassage, hbalanced, hsignals⟩ := exists_account_read_past hunread buffer
      rw [read_of_bypass hsize hunread hcap]
      exact ⟨cs, hpassage, hbalanced, fun _ => hsignals⟩
    · obtain ⟨cs, hpassage, hbalanced, hsignals⟩ := exists_account_read_through hunread hsize hcap
      exact ⟨cs, hpassage, hbalanced, fun _ _ => hsignals⟩
  · rw [read_of_unread hsize hunread]
    exact ⟨[], .withWindow (.refl r) rfl, balanced_deliver r buffer,
      fun _ _ => readSignals_deliver hsize hunread⟩

/-- The byte taken by a read of one byte. -/
def byteTaken : Except ReadError (Option UInt8) → List UInt8
  | .ok byte => byte.toList
  | .error _ => []

omit [ByteSource σ] in
/-- Popping takes the first unread byte. -/
theorem balanced_pop (r : Reader (Recorded σ)) :
    r.Balanced [] (byteTaken (.ok r.window.pop.1)) (r.withWindow r.window.pop.2) := by
  apply Balanced.of_window
  rw [window_withWindow, Window.pop_fst, Window.toList_pop]
  cases r.window.toList <;> rfl

/-- The account of a read of one byte. -/
theorem exists_account_readByte (r : Reader (Recorded σ)) :
    ∃ cs, r.Passage cs r.readByte.2 ∧ r.Balanced cs (byteTaken r.readByte.1) r.readByte.2 ∧
      Signals cs (r.readByte.1 = .ok none) (fun cause => r.readByte.1 = .error (.source cause))
        (∃ byte, r.readByte.1 = .ok (some byte)) := by
  have hpop : ∀ r : Reader (Recorded σ), r.window.toList ≠ [] →
      ∃ byte, r.window.pop.1 = some byte := by
    intro r hunread
    obtain ⟨byte, bytes, hcons⟩ := List.exists_cons_of_ne_nil hunread
    exact ⟨byte, by rw [Window.pop_fst, hcons, List.head?_cons]⟩
  by_cases hunread : r.window.toList = []
  · obtain ⟨c, r', hpassage, hbalanced, hcases⟩ := exists_account_refill hunread
    have hcap : r'.window.pop.2.capacity = r'.capacity := Window.capacity_pop _
    rcases hcases with ⟨count, hrefill, hlast, hunread'⟩ | ⟨hrefill, hlast, hnil⟩ |
      ⟨cause, hrefill, hlast⟩
    · obtain ⟨byte, hbyte⟩ := hpop r' hunread'
      rw [readByte_of_refill hunread hrefill]
      refine ⟨[c], hpassage.withWindow hcap, hbalanced.trans (balanced_pop r'), ?_⟩
      apply Signals.cons ⟨count, hlast⟩
      apply Signals.of_nil <;> simp [byteBehind, hbyte]
    · have hnone : r'.window.pop.1 = none := by rw [Window.pop_fst, hnil, List.head?_nil]
      rw [readByte_of_refill hunread hrefill]
      refine ⟨[c], hpassage.withWindow hcap, hbalanced.trans (balanced_pop r'), ?_⟩
      apply Signals.of_outcome hlast <;> simp [byteBehind, hnone]
    · rw [readByte_of_refill hunread hrefill]
      refine ⟨[c], hpassage, hbalanced, ?_⟩
      apply Signals.of_outcome hlast <;> simp [byteBehind]
  · obtain ⟨byte, hbyte⟩ := hpop r hunread
    rw [readByte_of_unread hunread]
    refine ⟨[], .withWindow (.refl r) (Window.capacity_pop _), balanced_pop r, ?_⟩
    apply Signals.of_nil <;> simp [hbyte]

/-- The account of a look at the unread bytes. -/
theorem exists_account_fillBuffer (r : Reader (Recorded σ)) :
    ∃ cs, r.Passage cs r.fillBuffer.2 ∧ r.Balanced cs [] r.fillBuffer.2 ∧
      Signals cs (r.fillBuffer.1 = .ok #[]) (fun cause => r.fillBuffer.1 = .error cause)
        (∃ bytes : Bytes, r.fillBuffer.1 = .ok bytes ∧ 0 < bytes.size) := by
  have hsize : ∀ r : Reader (Recorded σ), r.window.toList ≠ [] → 0 < r.unread.size := by
    intro r hunread
    rw [← Array.length_toList]
    exact List.length_pos_iff.2 hunread
  have hserved : ∀ r : Reader (Recorded σ), r.window.toList ≠ [] →
      Signals [] ((.ok r.unread : Except Failure Bytes) = .ok #[])
        (fun cause => .ok r.unread = Except.error cause)
        (∃ bytes : Bytes, (.ok r.unread : Except Failure Bytes) = .ok bytes ∧ 0 < bytes.size) := by
    intro r hunread
    apply Signals.of_nil
    · intro hnil
      rw [Except.ok.injEq] at hnil
      have := hsize r hunread
      rw [hnil] at this
      exact absurd this (by simp)
    · simp
    · exact ⟨_, rfl, hsize r hunread⟩
  by_cases hunread : r.window.toList = []
  · obtain ⟨c, r', hpassage, hbalanced, hcases⟩ := exists_account_refill hunread
    rcases hcases with ⟨count, hrefill, hlast, hunread'⟩ | ⟨hrefill, hlast, hnil⟩ |
      ⟨cause, hrefill, hlast⟩
    · rw [fillBuffer_of_refill hunread hrefill]
      exact ⟨[c], hpassage, hbalanced, Signals.cons ⟨count, hlast⟩ (hserved r' hunread')⟩
    · have hempty : r'.unread = #[] := Array.toList_inj.1 hnil
      rw [fillBuffer_of_refill hunread hrefill]
      refine ⟨[c], hpassage, hbalanced, ?_⟩
      apply Signals.of_outcome hlast <;> simp [unreadBehind, hempty]
    · rw [fillBuffer_of_refill hunread hrefill]
      refine ⟨[c], hpassage, hbalanced, ?_⟩
      apply Signals.of_outcome hlast <;> simp [unreadBehind, ReadError.toFailure]
  · rw [fillBuffer_of_unread hunread]
    exact ⟨[], .refl r, .of_window rfl, hserved r hunread⟩

/-- The account of a delimiter read that comes to an end. -/
theorem exists_account_line {rounds : Nat} {scan : Scan} {r : Reader (Recorded σ)} {out : Bytes}
    {call : Call (Reader (Recorded σ)) (Except ReadError Bool)}
    (h : lineWithin rounds scan r out = some call) :
    ∃ cs taken, r.Passage cs call.reader ∧ r.Balanced cs taken call.reader ∧
      call.buffer.toList = out.toList ++ taken ∧
      Signals cs (call.result = .ok false) (fun cause => call.result = .error (.source cause))
        ((call.result = .ok true ∧ ∃ before, taken = before ++ [scan.delim]) ∨
          ∃ limit, scan.limit = some limit ∧ call.result = .error (.lineTooLong limit)) := by
  -- each round takes what the search finds in the window; only a starved one goes to the source
  induction rounds generalizing scan r out with
  | zero => simp [lineWithin] at h
  | succ rounds ih =>
    obtain ⟨hverdict, hscan, hrest, hout⟩ := scan.advance_eq_walk r.window out
    have hstep : r.Balanced [] (scan.walk r.window.toList).taken
        (r.withWindow (scan.advance r.window out).window) := by
      apply Balanced.of_window
      rw [window_withWindow, hrest, Scan.taken_append_rest]
    have hcap := (scan.advance_keeps r.window out).2.2
    have hpassage : r.Passage [] (r.withWindow (scan.advance r.window out).window) :=
      .withWindow (.refl r) hcap
    cases hv : (scan.walk r.window.toList).verdict with
    | found =>
      rw [lineWithin_of_found (hverdict.trans hv), Option.some.injEq] at h
      subst h
      refine ⟨[], _, hpassage, hstep, hout, ?_⟩
      apply Signals.of_nil
      · simp
      · simp
      · exact .inl ⟨rfl, Scan.taken_of_found hv⟩
    | overlong limit =>
      rw [lineWithin_of_overlong (hverdict.trans hv), Option.some.injEq] at h
      subst h
      refine ⟨[], _, hpassage, hstep, hout, ?_⟩
      apply Signals.of_nil
      · simp
      · simp
      · exact .inr ⟨limit, Scan.limit_of_overlong hv, rfl⟩
    | starved =>
      have hdry : (r.withWindow (scan.advance r.window out).window).window.toList = [] := by
        rw [window_withWindow, hrest, Scan.rest_eq_nil_of_starved hv]
      obtain ⟨c, r', hpassage', hbalanced', hcases⟩ := exists_account_refill hdry
      rcases hcases with ⟨count, hrefill, hlast, -⟩ | ⟨hrefill, hlast, -⟩ |
        ⟨cause, hrefill, hlast⟩
      · rw [lineWithin_of_refill (hverdict.trans hv) hrefill, lineBehind] at h
        obtain ⟨cs, taken, hpassage'', hbalanced'', hout'', hsignals⟩ := ih h
        rw [hscan, Scan.delim_add, Scan.limit_add] at hsignals
        refine ⟨_, _, (hpassage.trans hpassage').trans hpassage'',
          (hstep.trans hbalanced').trans hbalanced'', ?_,
          Signals.cons ⟨count, hlast⟩ (hsignals.mono ?_)⟩
        · rw [hout'', hout, List.append_nil, List.append_assoc]
        · rintro (⟨htrue, before, rfl⟩ | hlimit)
          · exact .inl ⟨htrue, _, (List.append_assoc ..).symm⟩
          · exact .inr hlimit
      · rw [lineWithin_of_refill (hverdict.trans hv) hrefill] at h
        simp only [lineBehind, Option.some.injEq] at h
        subst h
        refine ⟨_, _, hpassage.trans hpassage', hstep.trans hbalanced', ?_, ?_⟩
        · rw [List.append_nil, hout]
        · apply Signals.of_outcome hlast <;> simp
      · rw [lineWithin_of_refill (hverdict.trans hv) hrefill] at h
        simp only [lineBehind, Option.some.injEq] at h
        subst h
        refine ⟨_, _, hpassage.trans hpassage', hstep.trans hbalanced', ?_, ?_⟩
        · rw [List.append_nil, hout]
        · apply Signals.of_outcome hlast <;> simp

/-! ### Filling a buffer -/

/-- What filling a buffer comes to, by what the last contact came to. -/
def filledBy : Option Outcome → Except (Stop ReadError) Unit
  | some .ended => .error (.failed (.source .bufferNotFilled))
  | some (.failed cause) => .error (.failed (.source cause))
  | _ => .ok ()

/-- Contacts that brought bytes have no part in what filling a buffer comes to. -/
theorem filledBy_append {cs : List Contact} (h : ∀ c ∈ cs, c.Fruitful) (cs' : List Contact) :
    filledBy (Contact.last? (cs ++ cs')) = filledBy (Contact.last? cs') := by
  cases cs' with
  | nil =>
    rw [List.append_nil]
    rcases Contact.last?_of_fruitful h with hlast | ⟨count, hlast⟩ <;> rw [hlast] <;> rfl
  | cons c cs' => rw [Contact.last?_append_cons]

/-- The account of filling a buffer. -/
theorem exists_account_readExactFrom (r : Reader (Recorded σ)) (done rest : Bytes) :
    ∃ cs taken, r.Passage cs (r.readExactFrom done rest).reader ∧
      r.Balanced cs taken (r.readExactFrom done rest).reader ∧
      done.toList ++ taken <+: (r.readExactFrom done rest).buffer.toList ∧
      ((r.readExactFrom done rest).result = .ok () →
        (r.readExactFrom done rest).buffer.toList = done.toList ++ taken) ∧
      ((∀ c ∈ cs, c.Honest) →
        Orderly cs ∧ (r.readExactFrom done rest).result = filledBy (Contact.last? cs)) := by
  fun_induction readExactFrom r done rest with
  | case1 r done rest hsize =>
    have hnil : rest = #[] := Array.eq_empty_of_size_eq_zero hsize
    subst hnil
    refine ⟨[], [], .refl r, .of_window rfl, ?_, ?_, fun _ => ⟨.nil, rfl⟩⟩ <;> simp
  | case2 r done rest hsize e buffer r' hread =>
    obtain ⟨cs, hpassage, hbalanced, hsignals⟩ := exists_account_read r rest
    rw [hread] at hpassage hbalanced hsignals
    refine ⟨cs, [], hpassage, hbalanced, by simp, by simp, fun hhonest => ?_⟩
    have h := hsignals hsize hhonest
    refine ⟨h.toOrderly, ?_⟩
    cases e with
    | source cause => rw [(h.failed_iff cause).1 rfl, filledBy]
    | lineTooLong limit =>
      obtain ⟨count, hcount, -⟩ := h.succeeded_of (by simp) (by simp)
      simp at hcount
    | invalidConfig reason =>
      obtain ⟨count, hcount, -⟩ := h.succeeded_of (by simp) (by simp)
      simp at hcount
  | case3 r done rest hsize buffer r' hread =>
    obtain ⟨cs, hpassage, hbalanced, hsignals⟩ := exists_account_read r rest
    rw [hread] at hpassage hbalanced hsignals
    refine ⟨cs, [], hpassage, hbalanced, by simp, by simp, fun hhonest => ?_⟩
    have h := hsignals hsize hhonest
    exact ⟨h.toOrderly, by rw [h.ended_iff.1 rfl, filledBy]⟩
  | case4 r done rest hsize count buffer r' hread hz hover =>
    obtain ⟨cs, hpassage, hbalanced, hsignals⟩ := exists_account_read r rest
    rw [hread] at hpassage hbalanced hsignals
    refine ⟨cs, buffer.toList.take count, hpassage, hbalanced, ?_, by simp, fun hhonest => ?_⟩
    · rw [Array.toList_append]
      exact (List.prefix_append_right_inj _).2 (List.take_prefix ..)
    · -- an honest read reports no more bytes than there is room for
      have h := hsignals hsize hhonest
      obtain ⟨n, hn, -, hle⟩ := h.succeeded_of (by simpa using hz) (by simp)
      rw [Except.ok.injEq] at hn
      omega
  | case5 r done rest hsize count buffer r' hread hz hover ih =>
    obtain ⟨cs, hpassage, hbalanced, hsignals⟩ := exists_account_read r rest
    obtain ⟨cs', taken', hpassage', hbalanced', hprefix, hfull, hresult⟩ := ih
    rw [hread] at hpassage hbalanced hsignals
    have hdone : (done ++ buffer.extract 0 count).toList ++ taken' =
        done.toList ++ (buffer.toList.take count ++ taken') := by
      simp
    rw [hdone] at hprefix hfull
    refine ⟨cs ++ cs', buffer.toList.take count ++ taken', hpassage.trans hpassage',
      hbalanced.trans hbalanced', hprefix, hfull, fun hhonest => ?_⟩
    have h := hsignals hsize fun c hc => hhonest c (List.mem_append_left _ hc)
    have h' := hresult fun c hc => hhonest c (List.mem_append_right _ hc)
    have hfruitful : ∀ c ∈ cs, c.Fruitful := by
      apply h.toOrderly.all_fruitful
      · rw [ne_eq, ← h.ended_iff]
        simpa using hz
      · intro cause
        rw [ne_eq, ← h.failed_iff]
        simp
    exact ⟨Orderly.append hfruitful h'.1, by rw [h'.2, filledBy_append hfruitful]⟩

end Reader

end BufferedReading
