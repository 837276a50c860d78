import Sponge.ByteStream.Members
import Sponge.TCPConnection
import Sponge.TCPReceiver.Lag
import Sponge.TCPSender.Outstanding

/-!
# Sponge.TCPConnection.LateBytes

Bytes that come after the end.  `ByteStream::write` does not look at
`_input_ended`, so the end of a stream is final only as long as nobody writes
to it: any write with data and room for it is accepted after `end_input` as it
was before, and an `eof()` that was true is false again.

The two writers inherit this: `TCPConnection::write` after
`end_input_stream`, and the reassembler behind the end of its output.
-/

namespace Sponge

namespace ByteStream

/-- The operation puts bytes into the stream. -/
def Op.Adds (s : ByteStream) : Op → Prop
  | .write data => data ≠ [] ∧ 0 < s.remainingCapacity
  | .peekOutput _ | .popOutput _ | .read _ | .endInput => False

instance (s : ByteStream) : (op : Op) → Decidable (op.Adds s)
  | .write data => inferInstanceAs (Decidable (data ≠ [] ∧ 0 < s.remainingCapacity))
  | .peekOutput _ | .popOutput _ | .read _ | .endInput => inferInstanceAs (Decidable False)

/-- No operation takes back what was written. -/
theorem bytesWritten_le_step (s : ByteStream) (op : Op) :
    s.bytesWritten ≤ (s.step op).bytesWritten := by
  cases op with
  | write data => simp [step]
  | read len => simp [step]
  | peekOutput | popOutput | endInput => exact Nat.le_refl _

/-- Nothing but a write that is accepted moves the count. -/
theorem step_bytesWritten_eq_iff (s : ByteStream) (op : Op) :
    (s.step op).bytesWritten = s.bytesWritten ↔ ¬ op.Adds s := by
  cases op with
  | write data =>
      have hnil : data ≠ [] ↔ 0 < data.length := List.length_pos_iff.symm
      simp only [step, write_bytesWritten, Op.Adds, hnil]
      omega
  | read len => simp [step, Op.Adds]
  | peekOutput | popOutput | endInput => exact iff_of_true rfl not_false

/-- At the end of the stream, an operation stays there unless it adds. -/
theorem step_eof_iff {s : ByteStream} (h : s.eof = true) (op : Op) :
    (s.step op).eof = true ↔ ¬ op.Adds s := by
  obtain ⟨hended, hempty⟩ := s.eof_eq_true.mp h
  cases op with
  | write data =>
      have hnil : data ≠ [] ↔ 0 < data.length := List.length_pos_iff.symm
      simp only [step, eof_eq_true, write_inputEnded, write_bufferSize, hended, hempty, Op.Adds,
        hnil, true_and]
      omega
  | popOutput len =>
      have hpop : (s.popOutput len.toNat).bufferSize = 0 := by
        rw [popOutput_bufferSize, hempty, Nat.zero_sub]
      exact iff_of_true ((eof_eq_true _).mpr ⟨hended, hpop⟩) not_false
  | read len =>
      refine iff_of_true ((eof_eq_true _).mpr ?_) not_false
      simp [step, hended, hempty]
  | peekOutput => exact iff_of_true h not_false
  | endInput => exact iff_of_true ((eof_eq_true _).mpr ⟨rfl, hempty⟩) not_false

/-- **The end is final** on a run from the end of the stream exactly if nothing is added. -/
theorem forall_eof_iff {s : ByteStream} (h : s.eof = true) (ops : List Op) :
    (∀ pre, pre <+: ops → (pre.foldl step s).eof = true) ↔
      Along (fun s op => some (s.step op)) (fun s op => ¬ op.Adds s) s ops := by
  induction ops generalizing s with
  | nil => simpa [Along] using h
  | cons op ops ih =>
      simp only [Along]
      constructor
      · intro hall
        have hnext : (s.step op).eof = true := hall [op] (by simp)
        refine ⟨(step_eof_iff h op).mp hnext, (ih hnext).mp fun pre hpre => ?_⟩
        exact hall (op :: pre) (List.cons_prefix_cons.mpr ⟨rfl, hpre⟩)
      · rintro ⟨hno, hrest⟩ pre hpre
        have hnext := (step_eof_iff h op).mpr hno
        rcases List.prefix_cons_iff.mp hpre with rfl | ⟨pre', rfl, hpre'⟩
        · exact h
        · exact (ih hnext).mpr hrest pre' hpre'

end ByteStream

namespace TCPConnection

/-- No small change reopens the outbound stream. -/
theorem inputEnded_of_micro (hc : c.sender.stream.inputEnded = true)
    (h : Micro fuel r₀ op c d) : d.sender.stream.inputEnded = true := by
  have hfill : ∀ s : TCPSender, s.fillWindow.stream.inputEnded = s.stream.inputEnded :=
    TCPSender.fillWindow_stream ByteStream.read_inputEnded
  cases h with
  | fill => exact (hfill _).trans hc
  | write data => exact (hfill _).trans (by simpa using hc)
  | endInput => exact hfill _
  | ack seg =>
      exact (TCPSender.ackReceived_stream ByteStream.read_inputEnded _ _ _).trans hc
  | tick ms =>
      obtain ⟨-, -, -, -, -, -, hstream, -⟩ := c.sender.tick_frame ms
      exact hstream ▸ hc
  | empty | flush | receive | read | reset | sendRst | note | dequeue => exact hc

/-- After `end_input_stream` the outbound stream has ended. -/
theorem inputEnded_of_endInputStream {cfg : TCPConfig}
    (h : exec (step fuel) (new cfg x) ops = some c) (hend : .endInputStream ∈ ops) :
    c.sender.stream.inputEnded = true := by
  refine exec_response_along (C := fun _ _ => True) (I := fun _ => True)
    (P := fun c : TCPConnection => c.sender.stream.inputEnded = true) (fun _ _ _ _ _ _ => trivial)
    (fun c op d _ hc _ hstep => ?_) (fun c d _ _ hstep => ?_) hend trivial
    (along_of_forall fun _ _ => trivial) h
  · exact step_preserves hc (fun _ _ => inputEnded_of_micro) hstep
  · rw [step, Option.some.injEq] at hstep
    rw [← hstep]
    exact TCPSender.fillWindow_stream ByteStream.read_inputEnded _

/-- `write` returns what the outbound stream has accepted. -/
theorem write_fst (c : TCPConnection) (data : List UInt8) :
    (c.write data).1 = min data.length c.sender.stream.remainingCapacity := by
  unfold write
  split
  · next hnil => simp [hnil]
  · exact c.sender.stream.write_fst data

end TCPConnection

/-- **When the end is final.**  On a stream whose input has ended, `bytes_written()` stays
as it is, and `eof()` stays true once it is, exactly if no operation writes
data into free room.  A `TCPConnection::write` after `end_input_stream`
accepts nothing exactly if it has no data or there is no room; and a push on a
reassembler whose output has ended adds nothing exactly if none of the pieces
it takes in, the given one or a stored one, has fresh bytes. -/
theorem end_final_iff (cap fuel : Nat) (ops more : List ByteStream.Op) (s : ByteStream)
    (cfg : TCPConfig) (x : UInt32) (calls : List TCPConnection.Op) (c : TCPConnection)
    (pushes : List StreamReassembler.Op) (t : StreamReassembler.Session) :
    (ops.foldl ByteStream.step (ByteStream.new cap) = s → s.inputEnded = true →
      ((more.foldl ByteStream.step s).bytesWritten = s.bytesWritten ↔
        Along (fun s op => some (s.step op)) (fun s op => ¬ op.Adds s) s more) ∧
      (s.eof = true →
        ((∀ pre, pre <+: more → (pre.foldl ByteStream.step s).eof = true) ↔
          Along (fun s op => some (s.step op)) (fun s op => ¬ op.Adds s) s more))) ∧
    (exec (TCPConnection.step fuel) (TCPConnection.new cfg x) calls = some c →
      .endInputStream ∈ calls → c.sender.stream.inputEnded = true ∧
        ∀ data, (c.write data).1 = 0 ↔ data = [] ∨ c.sender.stream.remainingCapacity = 0) ∧
    (exec (StreamReassembler.Session.step fuel) (StreamReassembler.Session.new cap) pushes =
        some t → t.reassembler.output.inputEnded = true → ∀ n data index eof r,
      StreamReassembler.pushSubstring n t.reassembler data index eof = some r →
        (r.output.bytesWritten = t.reassembler.output.bytesWritten ↔
          ¬ t.reassembler.Adds (Datagram.ofData data index eof))) := by
  refine ⟨fun _ _ => ⟨?_, fun heof => ByteStream.forall_eof_iff heof more⟩,
    fun h hend => ⟨TCPConnection.inputEnded_of_endInputStream h hend, fun data => ?_⟩,
    fun _ hended n data index eof r hpush => ?_⟩
  · refine exec_eq_iff_along ?_ ?_ (exec_some ByteStream.step s more)
    · rintro t op _ ⟨⟩
      exact t.bytesWritten_le_step op
    · rintro t op _ ⟨⟩
      exact t.step_bytesWritten_eq_iff op
  · rw [TCPConnection.write_fst, ← List.length_eq_zero_iff]
    omega
  · have hcall := StreamReassembler.pushSubstring_pushes hpush
    constructor
    · intro heq hadds
      rcases hcall.grows hadds with hlt | ⟨hopen, -⟩
      · exact absurd heq (Nat.ne_of_gt hlt)
      · exact absurd (hended.symm.trans hopen) Bool.noConfusion
    · intro hno
      rw [hcall.output_eq hno]

/-- A stream that ended with a byte in its buffer: it is read, and the end is final.  A
connection accepts an empty write, and a reassembler a repetition, adding
nothing. -/
theorem end_final_iff_drained :
    ([.read 1, .write []].foldl ByteStream.step
      ([.write [97], .endInput].foldl ByteStream.step (ByteStream.new 4))).bytesWritten = 1 ∧
    (∃ c, exec (TCPConnection.step 9) (TCPConnection.new {} 0) [.endInputStream] = some c ∧
      (c.write []).1 = 0) ∧
    ∃ t r, exec (StreamReassembler.Session.step 9) (StreamReassembler.Session.new 4)
        [.push [97] 0 true] = some t ∧
      StreamReassembler.pushSubstring 9 t.reassembler [97] 0 true = some r ∧
      r.output.bytesWritten = 1 := by
  obtain ⟨hstream, hconn, hpush⟩ := end_final_iff 4 9 [.write [97], .endInput]
    [.read 1, .write []] _ {} 0 [.endInputStream] _ [.push [97] 0 true] _
  exact ⟨(hstream rfl rfl).1.mpr (by decide),
    ⟨_, rfl, ((hconn rfl (by simp)).2 []).mpr (.inl rfl)⟩,
    ⟨_, _, rfl, rfl, (hpush rfl rfl 9 [97] 0 true _ rfl).mpr (by decide)⟩⟩

/-- A byte is accepted after the end by a stream at its end, by a connection and by a
reassembler. -/
theorem late_bytes_accepted :
    (([.endInput].foldl ByteStream.step (ByteStream.new 1)).eof = true ∧
      ([.endInput, .write [97]].foldl ByteStream.step (ByteStream.new 1)).bytesWritten = 1 ∧
      ([.endInput, .write [97]].foldl ByteStream.step (ByteStream.new 1)).eof = false) ∧
    (exec (TCPConnection.step 9) (TCPConnection.new {} 0) [.connect, .endInputStream]).map
      (fun c => (c.write [97]).1) = some 1 ∧
    (exec (StreamReassembler.Session.step 9) (StreamReassembler.Session.new 4)
      [.push [] 0 true]).map (fun s => (s.reassembler.output.inputEnded,
        (StreamReassembler.pushSubstring 9 s.reassembler [97] 0 false).map
          fun r => r.output.bytesWritten)) = some (true, some 1) := by
  refine ⟨?_, ?_, ?_⟩
  · decide
  · decide +kernel
  · decide +kernel

end Sponge
