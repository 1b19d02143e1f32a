import BufferedReading.Proofs.Account
import BufferedReading.Source.Script

/-!
# The end of the stream and failures are never confused

Every operation of a reader ends with the first contact that brings no bytes, and it signals what
that contact came to: the end of the stream, or the failure of the source as it was reported. There
is no other way to an end or a failure, and nothing is asked again.

`Reader.operations_signal_last_contact` says this for a read, a read of one byte, a look at the
unread bytes, a delimiter read, the filling of a buffer and the next line of a splitter, over any
source. It puts together the accounts of `BufferedReading.Proofs.Account`.
-/

namespace BufferedReading

namespace Splitter

variable {σ : Type} [ByteSource σ]

/-- What a splitter signals that is not finished. -/
theorem exists_signals_next {rounds : Nat} {s s' : Splitter (Recorded σ)} {item : Option Item}
    (hs : s.finished = false) (h : s.nextWithin rounds = some (item, s')) :
    ∃ cs, s.reader.Passage cs s'.reader ∧
      Signals cs (item = none ∨ ∃ data : Bytes, data ≠ #[] ∧ item = some (.ok ⟨data, false⟩))
        (fun cause => item = some (.error (.source cause)))
        ((∃ data : Bytes, (∃ before, data.toList = before ++ [s.delim]) ∧
            item = some (.ok ⟨data, true⟩)) ∨
          ∃ limit, s.reader.config.lineLimit = some limit ∧
            item = some (.error (.lineTooLong limit))) := by
  rw [nextWithin, if_neg (by simp [hs])] at h
  obtain ⟨⟨result, buffer, reader⟩, hcall, hconclude⟩ := Option.map_eq_some_iff.1 h
  obtain ⟨cs, taken, hpassage, -, hbuffer, hsignals⟩ := Reader.exists_account_line hcall
  obtain ⟨rfl, rfl⟩ := Prod.mk.inj hconclude
  have horderly := hsignals.toOrderly
  have hended := hsignals.ended_iff
  have hfailed := hsignals.failed_iff
  have hsucceeded := hsignals.succeeded_of
  cases result with
  | error e =>
    refine ⟨cs, hpassage, horderly, ?_, ?_, ?_⟩
    · simpa [conclude] using hended
    · simpa [conclude] using hfailed
    · simpa [conclude, Scan.start] using hsucceeded
  | ok complete =>
    cases complete with
    | true =>
      refine ⟨cs, hpassage, horderly, ?_, ?_, ?_⟩
      · simpa [conclude] using hended
      · simpa [conclude] using hfailed
      · intro _ _
        rcases hsucceeded (by simp) (by simp) with ⟨-, before, rfl⟩ | ⟨limit, -, hlimit⟩
        · exact .inl ⟨buffer, ⟨before, by simpa [Scan.start] using hbuffer⟩, rfl⟩
        · simp at hlimit
    | false =>
      have hlast : Contact.last? cs = some .ended := hended.1 rfl
      by_cases hempty : buffer = #[]
      · refine ⟨cs, hpassage, horderly, ?_, ?_, ?_⟩ <;> simp [hempty, hlast]
      · refine ⟨cs, hpassage, horderly, ?_, ?_, ?_⟩ <;> simp [hempty, hlast]

end Splitter

namespace Reader

variable {σ : Type} [ByteSource σ]

/-- Every operation of a reader makes contacts of which all but the last bring bytes, and signals
the end of the stream if the last comes to it, a failure if the last comes to that, and otherwise
succeeds or has met the limit on lines. The counts of bypassing reads are taken to be honest, and a
delimiter read is one that comes to an end; over a finite source each does
(`Reader.lineWithin_isSome`). -/
theorem operations_signal_last_contact (r : Reader (Recorded σ)) :
    (∀ buffer : Bytes, buffer.size ≠ 0 →
      ∃ cs, r.Passage cs (r.read buffer).reader ∧ ((∀ c ∈ cs, c.Honest) →
        Signals cs ((r.read buffer).result = .ok 0)
          (fun cause => (r.read buffer).result = .error (.source cause))
          (∃ count, (r.read buffer).result = .ok count ∧ 0 < count ∧ count ≤ buffer.size))) ∧
    (∃ cs, r.Passage cs r.readByte.2 ∧
      Signals cs (r.readByte.1 = .ok none) (fun cause => r.readByte.1 = .error (.source cause))
        (∃ byte, r.readByte.1 = .ok (some byte))) ∧
    (∃ cs, r.Passage cs r.fillBuffer.2 ∧
      Signals cs (r.fillBuffer.1 = .ok #[]) (fun cause => r.fillBuffer.1 = .error cause)
        (∃ bytes : Bytes, r.fillBuffer.1 = .ok bytes ∧ 0 < bytes.size)) ∧
    (∀ rounds delim out call,
      lineWithin rounds (.start delim r.config.lineLimit) r out = some call →
      ∃ cs, r.Passage cs call.reader ∧
        Signals cs (call.result = .ok false) (fun cause => call.result = .error (.source cause))
          ((call.result = .ok true ∧ out.size < call.buffer.size) ∨
            ∃ limit, r.config.lineLimit = some limit ∧
              call.result = .error (.lineTooLong limit))) ∧
    (∀ buffer : Bytes, buffer.size ≠ 0 →
      ∃ cs, r.Passage cs (r.readExact buffer).reader ∧ ((∀ c ∈ cs, c.Honest) →
        Orderly cs ∧ (r.readExact buffer).result =
          match Contact.last? cs with
          | some .ended => .error (.failed (.source .bufferNotFilled))
          | some (.failed cause) => .error (.failed (.source cause))
          | _ => .ok ())) ∧
    (∀ rounds delim finished item s',
      Splitter.nextWithin rounds ⟨r, delim, finished⟩ = some (item, s') →
      ∃ cs, r.Passage cs s'.reader ∧ ((finished = true ∧ cs = [] ∧ item = none) ∨
        Signals cs (item = none ∨ ∃ data : Bytes, data ≠ #[] ∧ item = some (.ok ⟨data, false⟩))
          (fun cause => item = some (.error (.source cause)))
          ((∃ data : Bytes, (∃ before, data.toList = before ++ [delim]) ∧
              item = some (.ok ⟨data, true⟩)) ∨
            ∃ limit, r.config.lineLimit = some limit ∧
              item = some (.error (.lineTooLong limit))))) := by
  refine ⟨?_, ?_, ?_, ?_, ?_, ?_⟩
  · intro buffer hsize
    obtain ⟨cs, hpassage, -, hsignals⟩ := exists_account_read r buffer
    exact ⟨cs, hpassage, hsignals hsize⟩
  · obtain ⟨cs, hpassage, -, hsignals⟩ := exists_account_readByte r
    exact ⟨cs, hpassage, hsignals⟩
  · obtain ⟨cs, hpassage, -, hsignals⟩ := exists_account_fillBuffer r
    exact ⟨cs, hpassage, hsignals⟩
  · intro rounds delim out call hcall
    obtain ⟨cs, taken, hpassage, -, hout, hsignals⟩ := exists_account_line hcall
    refine ⟨cs, hpassage, hsignals.mono ?_⟩
    rintro (⟨htrue, before, rfl⟩ | hlimit)
    · have hlength := congrArg List.length hout
      simp only [List.length_append, Array.length_toList, List.length_singleton] at hlength
      exact .inl ⟨htrue, by omega⟩
    · exact .inr hlimit
  · intro buffer _
    obtain ⟨cs, _, hpassage, -, -, -, hresult⟩ := exists_account_readExactFrom r #[] buffer
    exact ⟨cs, hpassage, hresult⟩
  · intro rounds delim finished item s' hnext
    cases finished with
    | true =>
      rw [Splitter.nextWithin, if_pos rfl, Option.some.injEq, Prod.mk.injEq] at hnext
      obtain ⟨rfl, rfl⟩ := hnext
      exact ⟨[], .refl r, .inl ⟨rfl, rfl, rfl⟩⟩
    | false =>
      obtain ⟨cs, hpassage, hsignals⟩ := Splitter.exists_signals_next rfl hnext
      exact ⟨cs, hpassage, .inr hsignals⟩

/-- Two bytes and then the end of the stream, behind a window of two bytes. -/
def cutStream : Reader (Recorded Script) :=
  ofCapacity ⟨[.data #[1, 2], .ended], #[]⟩ 2

/-- Two bytes and then a failure, behind a window of two bytes. -/
def brokenStream : Reader (Recorded Script) :=
  ofCapacity ⟨[.data #[1, 2], .fail (.bare .timedOut)], #[]⟩ 2

/-- The contacts behind a reliable history are honest. -/
theorem Passage.honest {σ : Type} {r r' : Reader (Recorded σ)} {cs : List Contact}
    (h : r.Passage cs r') (hreliable : ∀ e ∈ r'.source.history.toList, e.Reliable) :
    ∀ c ∈ cs, c.Honest := by
  intro c hc
  refine (Contact.reliable_of_exchanges (fun e he => hreliable e ?_) c hc).2
  rw [h.history]
  exact List.mem_append_right _ he

/-- A line of the two bytes meets the end of the stream in its last contact, and so it is partial. A
buffer of three bytes and the next line both meet the failure in theirs, and report it. -/
theorem cutStream_signals :
    (∃ call cs, lineWithin 3 (.start newline none) cutStream #[] = some call ∧
      cutStream.Passage cs call.reader ∧ Contact.last? cs = some .ended ∧
      call.result = .ok false ∧ call.buffer = #[1, 2]) ∧
    (∃ cs, brokenStream.Passage cs (brokenStream.readExact #[0, 0, 0]).reader ∧ Orderly cs ∧
      Contact.last? cs = some (.failed (.bare .timedOut)) ∧
      (brokenStream.readExact #[0, 0, 0]).result = .error (.failed (.source (.bare .timedOut)))) ∧
    ∃ s' cs, Splitter.nextWithin 3 ⟨brokenStream, newline, false⟩ =
        some (some (.error (.source (.bare .timedOut))), s') ∧
      brokenStream.Passage cs s'.reader ∧
      Contact.last? cs = some (.failed (.bare .timedOut)) := by
  obtain ⟨-, -, -, hline, -, -⟩ := operations_signal_last_contact cutStream
  obtain ⟨-, -, -, -, hexact, hnext⟩ := operations_signal_last_contact brokenStream
  refine ⟨?_, ?_, ?_⟩
  · obtain ⟨call, hcall⟩ : ∃ call, lineWithin 3 (.start newline none) cutStream #[] = some call :=
      ⟨_, rfl⟩
    have hread : (lineWithin 3 (.start newline none) cutStream #[]).map
        (fun call => (call.result, call.buffer)) = some (.ok false, #[1, 2]) := rfl
    rw [hcall, Option.map_some, Option.some.injEq, Prod.mk.injEq] at hread
    obtain ⟨cs, hpassage, hsignals⟩ := hline 3 newline #[] call hcall
    exact ⟨call, cs, hcall, hpassage, hsignals.ended_iff.1 hread.1, hread⟩
  · obtain ⟨cs, hpassage, hresult⟩ := hexact #[0, 0, 0] (by decide)
    obtain ⟨horderly, hresult⟩ := hresult (hpassage.honest (by decide +kernel))
    have hfailed : (brokenStream.readExact #[0, 0, 0]).result =
        .error (.failed (.source (.bare .timedOut))) := by cbv
    refine ⟨cs, hpassage, horderly, ?_, hfailed⟩
    rw [hfailed] at hresult
    split at hresult
    · simp [Failure.bufferNotFilled] at hresult
    · next cause hlast =>
      rw [Except.error.injEq, Stop.failed.injEq, ReadError.source.injEq] at hresult
      rw [hlast, hresult]
    · cases hresult
  · obtain ⟨⟨item, s'⟩, hitem⟩ : ∃ next, Splitter.nextWithin 3 ⟨brokenStream, newline, false⟩ =
        some next := ⟨_, rfl⟩
    have hfailed : (Splitter.nextWithin 3 ⟨brokenStream, newline, false⟩).map Prod.fst =
        some (some (.error (.source (.bare .timedOut)))) := rfl
    rw [hitem, Option.map_some, Option.some.injEq] at hfailed
    change item = _ at hfailed
    obtain ⟨cs, hpassage, ⟨hfinished, -, -⟩ | hsignals⟩ := hnext 3 newline false item s' hitem
    · simp at hfinished
    · exact ⟨s', cs, by rw [hitem, hfailed], hpassage, (hsignals.failed_iff _).1 hfailed⟩

end Reader

end BufferedReading
