import BufferedReading.Proofs.Discipline
import BufferedReading.Proofs.Serving

/-!
# Few and large requests

A source that serves bytes in full is asked for them a window at a time, or more at a time: whatever
operations are carried out, in whatever order and on buffers of whatever size, the requests that
brought bytes have brought a window each, but for the last one. So there are no more such requests
than windows are needed for all the bytes (`Session.fruitful_requests_le`).

The reader asks for no less than a window (`Reader.PermitsAll.capacity_le`), and each request is
answered with as much as is left (`Reader.servedInFull_exchanges`). What follows of the requests is
a matter of counting: `ServedInFull.min_le_brought` and `ServedInFull.fruitful_le`.
-/

namespace BufferedReading

/-! ### Exchanges with a source that serves in full -/

/-- Whether a source has answered with a positive count. -/
def Exchange.isFruitful (e : Exchange) : Bool :=
  match e.answer with
  | .ready (.supplied _ count) => count != 0
  | _ => false

/-- Requests to a source that has the given bytes left, each answered with as many of those then
left as were asked for. -/
def ServedInFull : List UInt8 → List Exchange → Prop
  | _, [] => True
  | bytes, e :: es =>
    e.answer = .ready (.honest (bytes.take e.asked).toArray) ∧ ServedInFull (bytes.drop e.asked) es

/-- A request answered in full brings what was asked for, or all that is left. -/
theorem Exchange.brought_of_full {e : Exchange} {bytes : List UInt8}
    (h : e.answer = .ready (.honest (bytes.take e.asked).toArray)) :
    e.brought = bytes.take e.asked := by
  have hle : (bytes.take e.asked).toArray.size ≤ e.asked := List.length_take_le ..
  simp only [brought, h, Answer.honest, Answer.brought, if_pos hle]
  exact List.take_of_length_le (Nat.le_refl _)

/-- Only bytes that are left make a request fruitful. -/
theorem Exchange.length_pos_of_fruitful {e : Exchange} {bytes : List UInt8}
    (h : e.answer = .ready (.honest (bytes.take e.asked).toArray)) (hfruitful : e.isFruitful) :
    0 < bytes.length := by
  rw [List.length_pos_iff]
  rintro rfl
  simp [isFruitful, h, Answer.honest] at hfruitful

namespace ServedInFull

variable {bytes : List UInt8} {es requests : List Exchange} {capacity : Nat}

/-- The first of some requests are answered in full too. -/
theorem of_prefix (h : ServedInFull bytes es) (hrequests : requests <+: es) :
    ServedInFull bytes requests := by
  induction requests generalizing bytes es with
  | nil => trivial
  | cons e requests ih =>
    obtain ⟨later, rfl⟩ := hrequests
    exact ⟨h.1, ih h.2 ⟨later, rfl⟩⟩

/-- Requests for no less than a window bring a window each, or all bytes. -/
theorem min_le_brought (h : ServedInFull bytes es) (hasked : ∀ e ∈ es, capacity ≤ e.asked) :
    min bytes.length (es.countP Exchange.isFruitful * capacity) ≤
      (es.flatMap Exchange.brought).length := by
  induction es generalizing bytes with
  | nil => simp
  | cons e es ih =>
    obtain ⟨hanswer, hlater⟩ := h
    have hrest := ih hlater fun e he => hasked e (List.mem_cons_of_mem _ he)
    have hfirst := hasked e List.mem_cons_self
    have hcount : (e :: es).countP Exchange.isFruitful * capacity ≤
        es.countP Exchange.isFruitful * capacity + capacity := by
      rw [← Nat.succ_mul]
      refine Nat.mul_le_mul_right _ ?_
      rw [List.countP_cons]
      split <;> omega
    rw [List.flatMap_cons, List.length_append, e.brought_of_full hanswer, List.length_take]
    rw [List.length_drop] at hrest
    omega

/-- There are no more requests that bring bytes than windows are needed for all of them. -/
theorem fruitful_le (h : ServedInFull bytes es) (hpos : 0 < capacity)
    (hasked : ∀ e ∈ es, capacity ≤ e.asked) :
    es.countP Exchange.isFruitful ≤ (bytes.length + capacity - 1) / capacity := by
  rw [Nat.le_div_iff_mul_le hpos]
  induction es generalizing bytes with
  | nil => simp
  | cons e es ih =>
    obtain ⟨hanswer, hlater⟩ := h
    have hrest := ih hlater fun e he => hasked e (List.mem_cons_of_mem _ he)
    have hfirst := hasked e List.mem_cons_self
    rw [List.length_drop] at hrest
    rw [List.countP_cons]
    split
    · next hfruitful =>
      have hbytes := e.length_pos_of_fruitful hanswer hfruitful
      rw [Nat.succ_mul]
      by_cases hle : bytes.length ≤ e.asked
      · -- nothing is left for later requests
        have hnone : es.countP Exchange.isFruitful * capacity < 1 * capacity := by omega
        have hzero := Nat.lt_one_iff.1 (Nat.lt_of_mul_lt_mul_right hnone)
        rw [hzero]
        omega
      · omega
    · rw [Nat.add_zero]
      omega

end ServedInFull

/-! ### The requests of a run -/

/-- A source that serves bytes in full, under observation, answers an attempt at once in full. -/
theorem ServesInFull.exists_poll_eq {σ : Type} [ByteSource σ] {left : σ → List UInt8}
    (h : ServesInFull left) (source : Recorded σ) (n : Nat) :
    letI : PolledSource σ := .ofWaited σ
    ∃ source' : Recorded σ, PolledSource.poll source n =
        (.ready (.honest ((left source.source).take n).toArray), source') ∧
      left source'.source = (left source.source).drop n := by
  obtain ⟨s', hread, hleft⟩ := h source.source n
  exact ⟨_, @Recorded.poll_eq σ (.ofWaited σ) _ _ _ _ (Reader.poll_ofWaited hread), hleft⟩

/-- A source that serves bytes in full answers the requests of permitted moves so. -/
theorem Reader.servedInFull_exchanges {σ : Type} [ByteSource σ] {left : σ → List UInt8}
    (h : ServesInFull left) {r : Reader (Recorded σ)} {ms : List Move} :
    letI : PolledSource σ := .ofWaited σ
    r.PermitsAll ms → ServedInFull (left r.source.source) (r.exchanges ms) := by
  let _ : PolledSource σ := .ofWaited σ
  intro hms
  induction ms generalizing r with
  | nil => trivial
  | cons m ms ih =>
    obtain ⟨hfirst, hlater⟩ := hms
    have hexchanges : r.exchanges (m :: ms) = r.exchange m ++ (r.move m).exchanges ms := rfl
    have hsource := source_move hfirst
    have hrest := ih hlater
    rw [hexchanges]
    cases m with
    | take count => exact hrest
    | refill =>
      obtain ⟨source', hpoll, hleft⟩ := h.exists_poll_eq r.source r.capacity
      rw [hsource, hpoll, hleft] at hrest
      rw [exchange, hpoll]
      exact ⟨rfl, hrest⟩
    | bypass buffer =>
      obtain ⟨source', hpoll, hleft⟩ := h.exists_poll_eq r.source buffer.size
      simp only [hpoll] at hsource
      rw [hsource, hleft] at hrest
      rw [exchange, hpoll]
      exact ⟨rfl, hrest⟩

namespace Session

/-- The source of a session is that of its reader. -/
theorem source_of_inner? {σ : Type} {s : Session σ} {r : Reader σ} (h : s.inner? = some r) :
    s.source = r.source := by
  unfold inner? at h
  unfold source
  cases hs : s.holding with
  | reader reader =>
    rw [hs] at h
    exact congrArg Reader.source (Option.some.inj h)
  | splitter splitter =>
    rw [hs] at h
    exact congrArg Reader.source (Option.some.inj h)
  | source source => simp [hs] at h

/-- A session begins with the source that it is to read. -/
theorem source_of_start {σ : Type} {source : σ} {start : Start} {s : Session σ}
    (h : start? source start = .ok s) : s.source = source := by
  unfold start? at h
  cases hr : start.reader? source with
  | error e => simp [hr] at h
  | ok r =>
    have hsource := (Start.of_reader? hr).2
    rw [hr] at h
    cases start <;> exact Except.ok.inj h ▸ hsource

/-- Operations carried out in turn are one course of permitted moves. -/
theorem exists_moves_performAll {σ : Type} [FiniteSource σ] {s : Session (Recorded σ)}
    {r : Reader (Recorded σ)} (hr : s.inner? = some r) {ops : List Operation}
    (hops : ∀ op ∈ ops, op.keepsReader = true) :
    letI : PolledSource σ := .ofWaited σ
    ∃ ms, r.PermitsAll ms ∧ (s.performAll ops).2.inner? = some (r.follow ms) := by
  let _ : PolledSource σ := .ofWaited σ
  induction ops generalizing s r with
  | nil => exact ⟨[], trivial, hr⟩
  | cons op ops ih =>
    have hperform : s.performWithin s.rounds op = some (s.perform op) := (Option.some_get _).symm
    obtain ⟨r', hr', ms, hms⟩ := exists_undertaken hr (hops op List.mem_cons_self) hperform
    obtain ⟨ms', hms', hlast⟩ := ih hr' fun op hop => hops op (List.mem_cons_of_mem _ hop)
    obtain rfl : r.follow ms = r' := hms.follow_eq
    refine ⟨ms ++ ms', Reader.permitsAll_append.2 ⟨hms.permits, hms'⟩, ?_⟩
    rw [Reader.follow_append]
    exact hlast

/-- Over a source that serves bytes in full, whatever operations are carried out, the requests that
brought bytes have brought a window each or all bytes, at any time. So no more requests bring bytes
than windows are needed for them. Every source that serves bytes is a finite one, by
`ServesPieces.finite`. -/
theorem fruitful_requests_le {σ : Type} [FiniteSource σ] {left : σ → List UInt8}
    (h : ServesInFull left) (source : σ) (start : Start) (s : Session (Recorded σ))
    (ops : List Operation) (hstart : start? ⟨source, #[]⟩ start = .ok s)
    (hops : ∀ op ∈ ops, op.keepsReader = true) :
    ∃ r, s.inner? = some r ∧
      (∀ requests, requests <+: (s.performAll ops).2.source.history.toList →
        min (left source).length (requests.countP Exchange.isFruitful * r.capacity) ≤
          (requests.flatMap Exchange.brought).length) ∧
      (s.performAll ops).2.source.history.toList.countP Exchange.isFruitful ≤
        ((left source).length + r.capacity - 1) / r.capacity := by
  let _ : PolledSource σ := .ofWaited σ
  obtain ⟨r, hr, -⟩ := exists_inner_of_start hstart
  have hsource : r.source = ⟨source, #[]⟩ := by
    rw [← source_of_inner? hr, source_of_start hstart]
  obtain ⟨ms, hms, hlast⟩ := exists_moves_performAll hr hops
  have hrequests : (s.performAll ops).2.source.history.toList = r.exchanges ms := by
    rw [source_of_inner? hlast, Reader.history_follow hms, hsource, List.nil_append]
  have hserved := Reader.servedInFull_exchanges h hms
  have hasked := hms.capacity_le
  rw [hsource] at hserved
  rw [hrequests]
  refine ⟨r, hr, fun requests hfirst => ?_, ?_⟩
  · exact (hserved.of_prefix hfirst).min_le_brought fun e he => hasked e (hfirst.subset he)
  · exact hserved.fruitful_le r.window.capacity_pos hasked

/-- Nine bytes behind a window of four, read by single bytes, a line and a large buffer: three
requests bring them, and the first two bring eight. -/
theorem fruitful_requests_le_nine :
    ∃ s : Session (Recorded Cursor),
      start? ⟨⟨#[1, 2, 3, 10, 5, 6, 7, 8, 9], 0⟩, #[]⟩ (.ofCapacity 4) = .ok s ∧
      let history := (s.performAll [.readByte, .readLine newline, .readExact #[0, 0],
        .read #[0, 0, 0, 0, 0], .readByte, .readByte]).2.source.history.toList
      history.countP Exchange.isFruitful = 3 ∧
      history.countP Exchange.isFruitful ≤ (9 + 4 - 1) / 4 ∧
      8 ≤ ((history.take 2).flatMap Exchange.brought).length := by
  have hs := start?_ofCapacity
    (⟨⟨#[1, 2, 3, 10, 5, 6, 7, 8, 9], 0⟩, #[]⟩ : Recorded Cursor) 4 (by decide)
  obtain ⟨r, hr, hmin, hle⟩ := fruitful_requests_le Cursor.servesInFull _ _ _
    [.readByte, .readLine newline, .readExact #[0, 0], .read #[0, 0, 0, 0, 0], .readByte, .readByte]
    hs (by decide)
  obtain rfl := Option.some.inj hr
  refine ⟨_, hs, by decide +kernel, hle, Nat.le_trans ?_ (hmin _ (List.take_prefix 2 _))⟩
  decide +kernel

end Session

end BufferedReading
