import BufferedReading.Proofs.Account

/-!
# Readers, move by move

Whatever a reader does with its window and its source comes down to three moves: it takes bytes from
the front of the window, it asks the source to refill the window, or it hands a buffer of the caller
to the source past the window. `Reader.follow` makes moves in turn. Along the way one may list what
the source was asked and answered (`Reader.exchanges`), the bytes it produced (`Reader.produced`)
and the bytes that were taken (`Reader.taken`).

A reader permits a move if it turns to the source only when no byte is unread, and past the window
only with a buffer no smaller than it. For permitted moves the bytes add up
(`Reader.unread_append_produced`), the unread bytes are what is left of the last refill
(`Reader.unread_suffix_refills`), and a source under observation has seen the listed exchanges and
no others (`Reader.history_follow`). Nothing is assumed of the source.

That every operation on a reader is a list of permitted moves is shown in
`BufferedReading.Proofs.Courses`.
-/

namespace BufferedReading

/-! ### What the source leaves in a buffer -/

namespace Answer

/-- The start of a buffer as the source left it, as far as the answer counts. -/
def left (buffer : Bytes) : Answer → List UInt8
  | supplied written count => (buffer.overwrite 0 written).toList.take count
  | failed _ => []

/-- The bytes of an arena that an answer makes readable, which are none unless all that the answer
counts are in the arena. -/
def gained (arena : Bytes) (answer : Answer) : List UInt8 :=
  match answer.outcome arena.size with
  | .bytes _ => answer.left arena
  | _ => []

/-- If no byte is counted that was not written then the bytes left are those brought. -/
theorem left_eq_brought {buffer : Bytes} {answer : Answer} (hcovered : answer.Covered buffer.size)
    (hbounds : answer.WithinBounds buffer.size) :
    answer.left buffer = answer.brought buffer.size := by
  rw [← @delivered_onto Unit () buffer answer hbounds hcovered]
  cases answer <;> rfl

/-- If no byte is counted that was not written then the bytes gained are those brought. -/
theorem gained_eq_brought {arena : Bytes} {answer : Answer} (h : answer.Covered arena.size) :
    answer.gained arena = answer.brought arena.size := by
  cases answer with
  | failed cause => rfl
  | supplied written count =>
    by_cases hz : count = 0
    · simp [gained, outcome, brought, hz]
    · by_cases hle : count ≤ arena.size
      · have hgained : (supplied written count).gained arena =
            (supplied written count).left arena := by
          simp only [gained, outcome, if_neg hz, if_pos hle]
        rw [hgained]
        exact left_eq_brought h hle
      · simp [gained, outcome, brought, hz, hle]

end Answer

/-! ### Windows -/

namespace Window

/-- The bytes that an empty window makes readable are those gained by its arena. -/
theorem toList_commit_stage {w : Window} (h : w.toList = []) (hfree : w.free = w.capacity)
    (written : Bytes) (count : Nat) :
    ((w.stage written).commit count).2.toList = (Answer.supplied written count).gained w.arena := by
  have hsize : w.capacity = w.arena.size := rfl
  have hwrite : w.writePos = 0 := by
    have hpos := w.size_pos
    unfold free capacity at hfree
    omega
  have hread : w.readPos = 0 := Nat.le_zero.1 (hwrite ▸ w.readPos_le_writePos)
  by_cases hz : count = 0
  · simp [commit, hz, Answer.gained, Answer.outcome, h]
  · by_cases hle : count ≤ w.arena.size
    · have hroom : count ≤ (w.stage written).free := by rwa [free_stage, hfree]
      have hcommit : ((w.stage written).commit count).2 = (w.stage written).extend count hroom := by
        simp only [commit, if_neg hz, dif_pos hroom]
      rw [hcommit, toList_eq, buffered_extend, buffered_stage]
      simp [extend, stage, buffered, hread, hwrite, Answer.gained, Answer.outcome, Answer.left, hz,
        hle]
    · have hroom : ¬ count ≤ w.free := by rwa [hfree]
      simp [commit, hz, hroom, Answer.gained, Answer.outcome, hle, h]

end Window

/-! ### Moves -/

/-- What a reader does next with its window and its source. -/
inductive Move where
  /-- Passes over unread bytes, so many or all. -/
  | take (count : Nat)
  /-- Asks the source to fill the free space of the window. -/
  | refill
  /-- Hands a buffer to the source, past the window. -/
  | bypass (buffer : Bytes)
  deriving DecidableEq, Repr

/-- Whether a move turns to the source. -/
def Move.asks : Move → Bool
  | take _ => false
  | _ => true

namespace Reader

variable {σ : Type} [PolledSource σ]

/-- The reader behind a move. -/
def move (r : Reader σ) : Move → Reader σ
  | .take count => r.skip count
  | .refill => r.pollRefill.2
  | .bypass buffer => (r.pollBypass buffer).reader

/-- The reader behind moves made in turn. -/
def follow (r : Reader σ) (ms : List Move) : Reader σ := ms.foldl move r

@[simp] theorem follow_nil (r : Reader σ) : r.follow [] = r := rfl

@[simp] theorem follow_cons (r : Reader σ) (m : Move) (ms : List Move) :
    r.follow (m :: ms) = (r.move m).follow ms := rfl

@[simp] theorem follow_append (r : Reader σ) (ms ms' : List Move) :
    r.follow (ms ++ ms') = (r.follow ms).follow ms' := List.foldl_append

/-- A reader permits a move that turns to the source only if no byte is unread, and past the window
only with a buffer no smaller than it. -/
def Permits (r : Reader σ) : Move → Prop
  | .take _ => True
  | .refill => r.window.toList = []
  | .bypass buffer => r.window.toList = [] ∧ r.capacity ≤ buffer.size

/-- A reader permits moves if each is permitted when its turn comes. -/
def PermitsAll (r : Reader σ) : List Move → Prop
  | [] => True
  | m :: ms => r.Permits m ∧ (r.move m).PermitsAll ms

theorem permitsAll_append {r : Reader σ} {ms ms' : List Move} :
    r.PermitsAll (ms ++ ms') ↔ r.PermitsAll ms ∧ (r.follow ms).PermitsAll ms' := by
  induction ms generalizing r with
  | nil => simp [PermitsAll]
  | cons m ms ih => simp [PermitsAll, ih, and_assoc]

/-- Each of some permitted moves is permitted when its turn comes. -/
theorem PermitsAll.permits {r : Reader σ} {before after : List Move} {m : Move}
    (h : r.PermitsAll (before ++ m :: after)) : (r.follow before).Permits m :=
  (permitsAll_append.1 h).2.1

/-! ### Along the way -/

/-- What is said of each move in turn, all in one list. -/
def along {α : Type} (f : Reader σ → Move → List α) (r : Reader σ) : List Move → List α
  | [] => []
  | m :: ms => f r m ++ along f (r.move m) ms

@[simp] theorem along_append {α : Type} (f : Reader σ → Move → List α) (r : Reader σ)
    (ms ms' : List Move) : along f r (ms ++ ms') = along f r ms ++ along f (r.follow ms) ms' := by
  induction ms generalizing r with
  | nil => rfl
  | cons m ms ih => simp [along, ih]

/-- The request that a move makes of the source, if it makes one, with its answer. -/
def exchange (r : Reader σ) : Move → List Exchange
  | .take _ => []
  | .refill => [⟨r.capacity, (PolledSource.poll r.source r.capacity).1⟩]
  | .bypass buffer => [⟨buffer.size, (PolledSource.poll r.source buffer.size).1⟩]

/-- The bytes that the source produces at a move, for the window or for the caller. -/
def yielded (r : Reader σ) : Move → List UInt8
  | .take _ => []
  | .refill =>
    match (PolledSource.poll r.source r.capacity).1 with
    | .pending => []
    | .ready answer => answer.gained r.window.compact.arena
  | .bypass buffer =>
    match (PolledSource.poll r.source buffer.size).1 with
    | .pending => []
    | .ready answer => answer.left buffer

/-- The bytes that a move takes out of the stream. -/
def given (r : Reader σ) : Move → List UInt8
  | .take count => r.window.toList.take count
  | .refill => []
  | .bypass buffer => r.yielded (.bypass buffer)

/-- The bytes that a refill makes readable, if it makes any. -/
def refilled (r : Reader σ) : Move → List (List UInt8)
  | .refill => if r.yielded .refill = [] then [] else [r.yielded .refill]
  | _ => []

/-- The requests made of the source, and the answers. -/
def exchanges (r : Reader σ) (ms : List Move) : List Exchange := along exchange r ms

/-- The bytes that the source produces, those of each request that it answers as it leaves them at
the start of the buffer it was given. -/
def produced (r : Reader σ) (ms : List Move) : List UInt8 := along yielded r ms

/-- The bytes that are taken out of the stream. -/
def taken (r : Reader σ) (ms : List Move) : List UInt8 := along given r ms

/-- What each refill that brings bytes makes readable. -/
def refills (r : Reader σ) (ms : List Move) : List (List UInt8) := along refilled r ms

section Along

variable (r : Reader σ) (ms ms' : List Move)

@[simp] theorem exchanges_nil : r.exchanges [] = [] := rfl

@[simp] theorem produced_nil : r.produced [] = [] := rfl

@[simp] theorem taken_nil : r.taken [] = [] := rfl

@[simp] theorem exchanges_append :
    r.exchanges (ms ++ ms') = r.exchanges ms ++ (r.follow ms).exchanges ms' := along_append ..

@[simp] theorem taken_append :
    r.taken (ms ++ ms') = r.taken ms ++ (r.follow ms).taken ms' := along_append ..

@[simp] theorem exchanges_refill :
    r.exchanges [.refill] = [⟨r.capacity, (PolledSource.poll r.source r.capacity).1⟩] := rfl

@[simp] theorem exchanges_bypass (buffer : Bytes) : r.exchanges [.bypass buffer] =
    [⟨buffer.size, (PolledSource.poll r.source buffer.size).1⟩] := rfl

@[simp] theorem taken_take (count : Nat) : r.taken [.take count] = r.window.toList.take count :=
  List.append_nil _

@[simp] theorem taken_bypass (buffer : Bytes) :
    r.taken [.bypass buffer] = r.yielded (.bypass buffer) := List.append_nil _

end Along

/-! ### When the source is asked -/

/-- Whenever moves turn to the source, the bytes taken up to then are as `wants` says. -/
def AsksWhile (r : Reader σ) (wants : List UInt8 → Prop) : List Move → Prop
  | [] => True
  | m :: ms =>
    (m.asks = true → wants []) ∧ (r.move m).AsksWhile (fun later => wants (r.given m ++ later)) ms

section AsksWhile

variable {r : Reader σ} {wants wants' : List UInt8 → Prop} {ms ms' before after : List Move}
  {m : Move}

theorem asksWhile_append : r.AsksWhile wants (ms ++ ms') ↔
    r.AsksWhile wants ms ∧
      (r.follow ms).AsksWhile (fun later => wants (r.taken ms ++ later)) ms' := by
  induction ms generalizing r wants with
  | nil => simp [AsksWhile]
  | cons m ms ih =>
    have htaken : r.taken (m :: ms) = r.given m ++ (r.move m).taken ms := rfl
    simp only [List.cons_append, AsksWhile, ih, and_assoc, follow_cons, htaken, List.append_assoc]

/-- What asks while one thing holds asks while another does that follows from it. -/
theorem AsksWhile.mono (h : r.AsksWhile wants ms) (himp : ∀ bytes, wants bytes → wants' bytes) :
    r.AsksWhile wants' ms := by
  induction ms generalizing r wants wants' with
  | nil => trivial
  | cons m ms ih => exact ⟨fun hm => himp _ (h.1 hm), ih h.2 fun bytes => himp _⟩

/-- When it is the turn of a move that asks the source, the bytes taken are as they should be. -/
theorem AsksWhile.wants_taken (h : r.AsksWhile wants (before ++ m :: after)) (hm : m.asks = true) :
    wants (r.taken before) := by
  have hnow : wants (r.taken before ++ []) := (asksWhile_append.1 h).2.1 hm
  rwa [List.append_nil] at hnow

end AsksWhile

/-! ### One move -/

/-- An attempt at a refill keeps the configuration. -/
theorem config_pollRefill (r : Reader σ) : r.pollRefill.2.config = r.config := by
  unfold pollRefill
  simp only
  split
  · rfl
  · split
    · rfl
    · rfl
    · split <;> rfl

/-- A move keeps the configuration. -/
@[simp] theorem config_move (r : Reader σ) (m : Move) : (r.move m).config = r.config := by
  cases m with
  | take count => rfl
  | refill => exact config_pollRefill r
  | bypass buffer =>
    rw [move, pollBypass_eq rfl]
    rfl

/-- A move keeps the size of the window. -/
@[simp] theorem capacity_move (r : Reader σ) (m : Move) : (r.move m).capacity = r.capacity := by
  cases m with
  | take count => rfl
  | refill => exact capacity_pollRefill r
  | bypass buffer =>
    rw [move, pollBypass_eq rfl]
    rfl

/-- A read past the window leaves the window as it is: its arena, its cursors and its unread
bytes. -/
@[simp] theorem window_bypass (r : Reader σ) (buffer : Bytes) :
    (r.move (.bypass buffer)).window = r.window := by
  rw [move, pollBypass_eq rfl]
  rfl

/-- A refill of an empty window makes readable what the source produces. -/
theorem toList_refill {r : Reader σ} (h : r.window.toList = []) :
    (r.move .refill).window.toList = r.yielded .refill := by
  have hempty : r.window.compact.toList = [] := by rw [Window.toList_compact, h]
  have hb : r.window.buffered = 0 := by rw [← Window.length_toList, h, List.length_nil]
  have hfree : r.window.compact.free = r.capacity := by simp [capacity, hb]
  have hpos : r.capacity ≠ 0 := Nat.ne_of_gt r.window.capacity_pos
  unfold move pollRefill yielded
  simp only [hfree, if_neg hpos]
  rcases PolledSource.poll r.source r.capacity with ⟨_ | ⟨⟨written, count⟩ | cause⟩, source⟩
  · exact hempty
  · have hgained := Window.toList_commit_stage hempty (by simp [hfree, capacity]) written count
    simp only [← hgained]
    split <;> rfl
  · exact hempty

/-- What the source produces at a move is what the exchange brings, if it counts no byte that it has
not written, and past the window none beyond the caller's buffer. -/
theorem yielded_eq_brought {r : Reader σ} {m : Move}
    (hcovered : ∀ e ∈ r.exchange m, ∀ answer, e.answer = .ready answer → answer.Covered e.asked)
    (hbounds : ∀ buffer, m = .bypass buffer → ∀ e ∈ r.exchange m, e.Reliable) :
    r.yielded m = (r.exchange m).flatMap Exchange.brought := by
  cases m with
  | take count => rfl
  | refill =>
    have hanswer := hcovered _ (List.mem_singleton_self _)
    have hsize : r.window.compact.arena.size = r.capacity := r.window.capacity_compact
    simp only [yielded, exchange, List.flatMap_singleton, Exchange.brought]
    cases hpoll : (PolledSource.poll r.source r.capacity).1 with
    | pending => rfl
    | ready answer =>
      have hanswer' := hanswer answer hpoll
      simp only
      rw [← hsize] at hanswer' ⊢
      exact Answer.gained_eq_brought hanswer'
  | bypass buffer =>
    have hreliable := hbounds buffer rfl _ (List.mem_singleton_self _)
    simp only [yielded, exchange, List.flatMap_singleton, Exchange.brought]
    cases hpoll : (PolledSource.poll r.source buffer.size).1 with
    | pending => rfl
    | ready answer =>
      rw [Exchange.Reliable, hpoll] at hreliable
      exact Answer.left_eq_brought hreliable.1 hreliable.2

/-- The source behind a permitted move is the one that the move left. -/
theorem source_move {r : Reader σ} {m : Move} (h : r.Permits m) :
    (r.move m).source = match m with
      | .take _ => r.source
      | .refill => (PolledSource.poll r.source r.capacity).2
      | .bypass buffer => (PolledSource.poll r.source buffer.size).2 := by
  cases m with
  | take count => rfl
  | refill =>
    obtain ⟨w, -, hrefill⟩ := exists_pollRefill_eq (r := r) h rfl
    rw [move, hrefill]
    rfl
  | bypass buffer =>
    rw [move, pollBypass_eq rfl]
    rfl

/-- The bytes unread and those produced are the bytes taken and those unread behind the move. -/
theorem unread_append_yielded {r : Reader σ} {m : Move} (h : r.Permits m) :
    r.window.toList ++ r.yielded m = r.given m ++ (r.move m).window.toList := by
  cases m with
  | take count =>
    rw [yielded, given, move, skip, Window.toList_skip, List.take_append_drop,
      List.append_nil]
  | refill =>
    have hunread : r.window.toList = [] := h
    rw [toList_refill hunread, hunread, given]
  | bypass buffer =>
    rw [window_bypass, h.1, given, List.nil_append, List.append_nil]

/-! ### Moves in turn -/

@[simp] theorem config_follow (r : Reader σ) (ms : List Move) :
    (r.follow ms).config = r.config := by
  induction ms generalizing r with
  | nil => rfl
  | cons m ms ih => rw [follow_cons, ih, config_move]

@[simp] theorem capacity_follow (r : Reader σ) (ms : List Move) :
    (r.follow ms).capacity = r.capacity := by
  induction ms generalizing r with
  | nil => rfl
  | cons m ms ih => rw [follow_cons, ih, capacity_move]

/-- The bytes unread and those produced are the bytes taken and those unread in the end, in this
order. -/
theorem unread_append_produced {r : Reader σ} {ms : List Move} (h : r.PermitsAll ms) :
    r.window.toList ++ r.produced ms = r.taken ms ++ (r.follow ms).window.toList := by
  induction ms generalizing r with
  | nil => simp
  | cons m ms ih =>
    obtain ⟨hfirst, hlater⟩ := h
    have hmove := unread_append_yielded hfirst
    have hrest := ih hlater
    have hproduced : r.produced (m :: ms) = r.yielded m ++ (r.move m).produced ms := rfl
    have htaken : r.taken (m :: ms) = r.given m ++ (r.move m).taken ms := rfl
    rw [hproduced, htaken, ← List.append_assoc, hmove, List.append_assoc, hrest, follow_cons,
      List.append_assoc]

/-- What the source produces is what the exchanges bring if they are reliable. -/
theorem produced_of_reliable {r : Reader σ} {ms : List Move}
    (h : ∀ e ∈ r.exchanges ms, e.Reliable) :
    r.produced ms = (r.exchanges ms).flatMap Exchange.brought := by
  induction ms generalizing r with
  | nil => rfl
  | cons m ms ih =>
    have hexchanges : r.exchanges (m :: ms) = r.exchange m ++ (r.move m).exchanges ms := rfl
    have hproduced : r.produced (m :: ms) = r.yielded m ++ (r.move m).produced ms := rfl
    rw [hexchanges] at h ⊢
    have hfirst : ∀ e ∈ r.exchange m, e.Reliable := fun e he => h e (List.mem_append_left _ he)
    have hcovered : ∀ e ∈ r.exchange m, ∀ answer, e.answer = .ready answer →
        answer.Covered e.asked := by
      intro e he answer hanswer
      have hreliable := hfirst e he
      rw [Exchange.Reliable, hanswer] at hreliable
      exact hreliable.1
    rw [hproduced, ih fun e he => h e (List.mem_append_right _ he),
      yielded_eq_brought hcovered fun _ _ => hfirst, List.flatMap_append]

/-- Requests that are put off produce nothing, and neither do none. -/
theorem produced_of_pending {r : Reader σ} {ms : List Move}
    (h : ∀ e ∈ r.exchanges ms, e.answer = .pending) : r.produced ms = [] := by
  induction ms generalizing r with
  | nil => rfl
  | cons m ms ih =>
    have hexchanges : r.exchanges (m :: ms) = r.exchange m ++ (r.move m).exchanges ms := rfl
    have hproduced : r.produced (m :: ms) = r.yielded m ++ (r.move m).produced ms := rfl
    rw [hexchanges] at h
    have hfirst : ∀ e ∈ r.exchange m, e.answer = .pending := fun e he =>
      h e (List.mem_append_left _ he)
    rw [hproduced, ih fun e he => h e (List.mem_append_right _ he), List.append_nil]
    cases m with
    | take count => rfl
    | refill =>
      have hpending : (PolledSource.poll r.source r.capacity).1 = .pending :=
        hfirst _ (List.mem_singleton_self _)
      simp only [yielded, hpending]
    | bypass buffer =>
      have hpending : (PolledSource.poll r.source buffer.size).1 = .pending :=
        hfirst _ (List.mem_singleton_self _)
      simp only [yielded, hpending]

/-- The unread bytes are the last of those that the last refill made readable, if they were so of
the given bytes before the moves. -/
theorem unread_suffix_refills {r : Reader σ} {ms : List Move} {bytes : List UInt8}
    (h : r.PermitsAll ms) (hbytes : r.window.toList <:+ bytes) :
    (r.follow ms).window.toList <:+ (r.refills ms).getLastD bytes := by
  induction ms generalizing r bytes with
  | nil => exact hbytes
  | cons m ms ih =>
    obtain ⟨hfirst, hlater⟩ := h
    have hrefills : r.refills (m :: ms) = r.refilled m ++ (r.move m).refills ms := rfl
    rw [follow_cons, hrefills]
    cases m with
    | take count =>
      refine ih hlater ?_
      rw [move, skip, Window.toList_skip]
      exact (List.drop_suffix _ _).trans hbytes
    | refill =>
      -- Whatever was readable before is gone, so what is unread is all that this refill brings.
      have hunread := toList_refill hfirst
      by_cases hnone : r.yielded .refill = []
      · rw [refilled, if_pos hnone]
        refine ih hlater ?_
        rw [hunread, hnone]
        exact List.nil_suffix
      · rw [refilled, if_neg hnone, List.singleton_append, List.getLastD_cons]
        exact ih hlater (hunread ▸ List.suffix_rfl)
    | bypass buffer =>
      refine ih hlater ?_
      rw [window_bypass]
      exact hbytes

/-- A source under observation has seen the exchanges of permitted moves and no others. -/
theorem history_follow {σ : Type} [PolledSource σ] {r : Reader (Recorded σ)} {ms : List Move}
    (h : r.PermitsAll ms) :
    (r.follow ms).source.history.toList = r.source.history.toList ++ r.exchanges ms := by
  induction ms generalizing r with
  | nil => simp
  | cons m ms ih =>
    obtain ⟨hfirst, hlater⟩ := h
    have hexchanges : r.exchanges (m :: ms) = r.exchange m ++ (r.move m).exchanges ms := rfl
    have hmove : (r.move m).source.history.toList =
        r.source.history.toList ++ r.exchange m := by
      rw [source_move hfirst]
      cases m with
      | take count => exact (List.append_nil _).symm
      | refill => exact Array.toList_push
      | bypass buffer => exact Array.toList_push
    rw [follow_cons, ih hlater, hmove, hexchanges, List.append_assoc]

end Reader

end BufferedReading
