import Sponge.TCPSender.Outstanding

/-!
# Sponge.TCPSender.Fill

How much `fill_window` sends: exactly what the window has room for and the
stream has to give.

The loop takes `turnSize` bytes at a time, so all segments but the last are full
(`Cuts`).  The FIN goes with the last bytes when they empty an ended stream and
leave room for it, and alone when there are no bytes.
-/

namespace Sponge

namespace TCPSender

open TCPSegment (lengthInSequenceSpace)

/-- The segments carry `data`: `MAX_PAYLOAD_SIZE` bytes in each, except possibly the
last one, which has the FIN if `fin` says so.  Only a FIN goes without data. -/
inductive Cuts (fin : Bool) : List UInt8 → List TCPSegment → Prop
  | nothing (hfin : fin = false) : Cuts fin [] []
  | last {seg : TCPSegment} (hle : seg.payload.length ≤ TCPConfig.MAX_PAYLOAD_SIZE)
      (hsyn : seg.header.syn = false) (hfin : seg.header.fin = fin)
      (hnil : seg.payload = [] → fin = true) : Cuts fin seg.payload [seg]
  | full {seg : TCPSegment} {data : List UInt8} {segs : List TCPSegment}
      (hlen : seg.payload.length = TCPConfig.MAX_PAYLOAD_SIZE) (hsyn : seg.header.syn = false)
      (hfin : seg.header.fin = false) (hdata : data ≠ []) (hrest : Cuts fin data segs) :
      Cuts fin (seg.payload ++ data) (seg :: segs)

/-- A single segment carries it all. -/
theorem Cuts.of_single (h : Cuts fin data [seg]) :
    seg.payload = data ∧ seg.header.syn = false ∧ seg.header.fin = fin := by
  cases h with
  | last _ hsyn hfin => exact ⟨rfl, hsyn, hfin⟩
  | full _ _ _ hdata hrest =>
      cases hrest
      contradiction

/-- A FIN alone. -/
theorem cuts_fin {seg : TCPSegment} (hnil : seg.payload = []) (hsyn : seg.header.syn = false)
    (hfin : seg.header.fin = true) : Cuts true [] [seg] := by
  rw [← hnil]
  exact .last (by simp [hnil]) hsyn hfin fun _ => rfl

/-- The segments start one behind the other, from `a` to `b`. -/
def Consecutive (isn : WrappingInt32) (a : Nat) (segs : List TCPSegment) (b : Nat) : Prop :=
  Tiles lengthInSequenceSpace (fun a seg => seg.header.seqno = wrap a isn) a segs b

/-- `t` is `s` after it has sent `segs` with the next `n` bytes of its stream and, if `fin`
says so, the FIN. -/
structure Sends (s : TCPSender) (n : Nat) (fin : Bool) (segs : List TCPSegment) (t : TCPSender) :
    Prop where
  segmentsOut_eq : t.segmentsOut = s.segmentsOut ++ segs
  cuts : Cuts fin (s.stream.stream.take n) segs
  consecutive : Consecutive s.isn s.nextSeqno segs t.nextSeqno
  stream_eq : t.stream.stream = s.stream.stream.drop n
  inputEnded_eq : t.stream.inputEnded = s.stream.inputEnded
  finSent_eq : t.finSent = fin
  nextSeqno_eq : t.nextSeqno = s.nextSeqno + n + fin.toNat
  isn_eq : t.isn = s.isn

/-! ## One turn -/

section turn

variable {s : TCPSender} {seg : TCPSegment} {avail : Nat}

/-- The segment that one turn of the loop sends. -/
def turnSegment (s : TCPSender) (avail : Nat) : TCPSegment :=
  { header := { seqno := wrap s.nextSeqno s.isn, fin := s.turnFin avail }
    payload := s.stream.stream.take (s.turnSize avail) }

/-- A turn takes no more than there is, and no more than fits. -/
theorem turnSize_le (s : TCPSender) (avail : Nat) :
    s.turnSize avail ≤ s.stream.bufferSize ∧ s.turnSize avail ≤ avail := by
  unfold turnSize
  omega

/-- A turn takes one number for each byte and one for the FIN. -/
theorem turnSegment_length (s : TCPSender) (avail : Nat) :
    (s.turnSegment avail).lengthInSequenceSpace = s.turnSize avail + (s.turnFin avail).toNat := by
  by_cases h : s.turnFin avail = true <;>
    simp [turnSegment, lengthInSequenceSpace, h, (s.turnSize_le avail).1]

/-- One turn sends one segment. -/
theorem fillTurn_sends (avail : Nat) (hopen : s.finSent = false)
    (hseg : seg.header = { seqno := seg.header.seqno }) :
    (s.fillTurn seg avail).1 = s.turnSegment avail ∧
    (s.fillTurn seg avail).2.segmentsOut = s.segmentsOut ++ [s.turnSegment avail] ∧
    (s.fillTurn seg avail).2.stream = (s.stream.read (s.turnSize avail)).2 ∧
    (s.fillTurn seg avail).2.finSent = s.turnFin avail ∧
    (s.fillTurn seg avail).2.isn = s.isn ∧
    (s.fillTurn seg avail).2.nextSeqno =
      s.nextSeqno + (s.turnSegment avail).lengthInSequenceSpace := by
  have heq : (s.fillTurn seg avail).1 = s.turnSegment avail := by
    rw [fillTurn_eq hopen (by rw [hseg]) (by rw [hseg]), turnSegment]
    simp only [sendTcpSegment]
    rw [hseg]
  refine ⟨heq, ?_⟩
  rw [← heq, fillTurn_eq hopen (by rw [hseg]) (by rw [hseg])]
  exact ⟨rfl, rfl, rfl, rfl, rfl⟩

/-- The FIN goes with the last byte, if it fits. -/
theorem turnFin_eq_true : s.turnFin avail = true ↔
    s.stream.inputEnded = true ∧ s.stream.bufferSize ≤ s.turnSize avail ∧
      s.turnSize avail < avail := by
  simp only [turnFin, Bool.and_eq_true, ByteStream.eof_eq_true, ByteStream.read_inputEnded,
    ByteStream.read_bufferSize, decide_eq_true_eq, Nat.sub_eq_zero_iff_le, and_assoc]

/-- What a turn leaves in the buffer does not fit its segment or the window. -/
theorem turnSize_of_more (hbuf : s.turnSize avail < s.stream.bufferSize)
    (havail : s.turnSize avail < avail) : s.turnSize avail = TCPConfig.MAX_PAYLOAD_SIZE := by
  unfold turnSize at *
  omega

/-- The turn after which the loop stops. -/
theorem sends_turn (avail : Nat) (hopen : s.finSent = false)
    (hseg : seg.header = { seqno := seg.header.seqno }) (hpos : 0 < s.turnSize avail) :
    Sends s (s.turnSize avail) (s.turnFin avail) [s.turnSegment avail]
      (s.fillTurn seg avail).2 := by
  obtain ⟨-, hout, hstream, hfin, hisn, hnext⟩ := fillTurn_sends avail hopen hseg
  have hlen := s.length_take_turnSize avail
  refine ⟨hout, ?_, ⟨rfl, hnext.symm⟩, ?_, ?_, hfin, ?_, hisn⟩
  · show Cuts _ (s.turnSegment avail).payload _
    refine .last ?_ rfl rfl fun hnil => ?_
    · rw [turnSegment, hlen]
      exact Nat.min_le_right _ _
    · rw [show s.stream.stream.take (s.turnSize avail) = [] from hnil, List.length_nil] at hlen
      omega
  · rw [hstream, ByteStream.read_stream]
  · rw [hstream, ByteStream.read_inputEnded]
  · rw [hnext, turnSegment_length, Nat.add_assoc]

end turn

/-- A full segment in front of more. -/
theorem Sends.full {s u t : TCPSender} {seg : TCPSegment}
    (hfirst : Sends s TCPConfig.MAX_PAYLOAD_SIZE false [seg] u) (hrest : Sends u m fin segs t)
    (hpos : 0 < m) (hle : TCPConfig.MAX_PAYLOAD_SIZE + m ≤ s.stream.bufferSize) :
    Sends s (TCPConfig.MAX_PAYLOAD_SIZE + m) fin (seg :: segs) t where
  segmentsOut_eq := by
    rw [hrest.segmentsOut_eq, hfirst.segmentsOut_eq, List.append_assoc, List.singleton_append]
  cuts := by
    obtain ⟨hpayload, hsyn, hfin⟩ := hfirst.cuts.of_single
    have hdata := hrest.cuts
    rw [hfirst.stream_eq] at hdata
    rw [List.take_add, ← hpayload]
    refine .full ?_ hsyn hfin ?_ hdata
    · rw [hpayload, List.length_take, ByteStream.length_stream]
      omega
    · rw [ne_eq, List.take_eq_nil_iff, List.drop_eq_nil_iff, ByteStream.length_stream]
      omega
  consecutive := by
    refine ⟨hfirst.consecutive.1, ?_⟩
    have hend := hfirst.consecutive.2
    rw [Tiles.nil_iff] at hend
    rw [hend, ← hfirst.isn_eq]
    exact hrest.consecutive
  stream_eq := by rw [hrest.stream_eq, hfirst.stream_eq, List.drop_drop]
  inputEnded_eq := hrest.inputEnded_eq.trans hfirst.inputEnded_eq
  finSent_eq := hrest.finSent_eq
  nextSeqno_eq := by
    rw [hrest.nextSeqno_eq, hfirst.nextSeqno_eq, Bool.toNat_false]
    omega
  isn_eq := hrest.isn_eq.trans hfirst.isn_eq

/-! ## The loop -/

/-- The FIN goes with the last bytes of an ended stream that leave room for it. -/
def lastFin (s : TCPSender) (room : Nat) : Bool :=
  s.stream.inputEnded && decide (s.stream.bufferSize < room)

/-- With nothing to send or no room, the loop stops. -/
theorem fillLoop_of_stop (h : s.stream.bufferSize = 0 ∨ avail = 0) :
    fillLoop k s seg avail = s := by
  cases k with
  | zero => rfl
  | succ k =>
      rw [fillLoop, if_pos]
      simpa using h

/-- The loop goes on behind the segment of its first turn. -/
theorem fillLoop_of_go {s : TCPSender} (hopen : s.finSent = false)
    (hseg : seg.header = { seqno := seg.header.seqno }) (hbuf : s.stream.bufferSize ≠ 0)
    (havail : avail ≠ 0) :
    fillLoop (k + 1) s seg avail = fillLoop k (s.fillTurn seg avail).2 (s.turnSegment avail)
      (avail - (s.turnSize avail + (s.turnFin avail).toNat)) := by
  rw [fillLoop, if_neg (by simpa using ⟨hbuf, havail⟩), ← turnSegment_length,
    ← (fillTurn_sends avail hopen hseg).1]

/-- **The loop** sends what the buffer has and the window takes. -/
theorem fillLoop_sends (k : Nat) {s : TCPSender} (hk : s.stream.bufferSize ≤ k)
    (hopen : s.finSent = false) (hseg : seg.header = { seqno := seg.header.seqno })
    (hbuf : s.stream.bufferSize ≠ 0) (havail : avail ≠ 0) :
    ∃ segs, Sends s (min s.stream.bufferSize avail) (s.lastFin avail) segs
      (fillLoop k s seg avail) := by
  induction k generalizing s seg avail with
  | zero => omega
  | succ k ih =>
      rw [fillLoop_of_go hopen hseg hbuf havail]
      have hpos := (turn_length_bounds hbuf havail).1
      have hle := s.turnSize_le avail
      have hturn := sends_turn avail hopen hseg hpos
      have hlast : s.turnFin avail = true ↔ _ := turnFin_eq_true
      have hsize : (s.fillTurn seg avail).2.stream.bufferSize =
          s.stream.bufferSize - s.turnSize avail := by
        rw [← ByteStream.length_stream, hturn.stream_eq, List.length_drop,
          ByteStream.length_stream]
      by_cases hmore : s.turnSize avail < s.stream.bufferSize ∧ s.turnSize avail < avail
      · -- a full segment, and the rest of the loop
        have hmax := turnSize_of_more hmore.1 hmore.2
        have hopen' : s.turnFin avail = false := by
          rw [Bool.eq_false_iff, ne_eq, turnFin_eq_true]
          omega
        rw [hopen', Bool.toNat_false, Nat.add_zero]
        rw [hopen'] at hturn
        obtain ⟨segs, hsegs⟩ := ih (s := (s.fillTurn seg avail).2) (by omega) hturn.finSent_eq
          (show (s.turnSegment avail).header = _ by rw [turnSegment, hopen']) (by omega)
          (show avail - s.turnSize avail ≠ 0 by omega)
        have hfin : (s.fillTurn seg avail).2.lastFin (avail - s.turnSize avail) =
            s.lastFin avail := by
          rw [lastFin, lastFin, hturn.inputEnded_eq, hsize]
          congr 1
          rw [decide_eq_decide]
          omega
        rw [hfin, hsize, hmax] at hsegs
        rw [hmax] at hturn hmore ⊢
        refine ⟨s.turnSegment avail :: segs, ?_⟩
        have hall := hturn.full hsegs (by omega) (by omega)
        rwa [show TCPConfig.MAX_PAYLOAD_SIZE + min (s.stream.bufferSize -
          TCPConfig.MAX_PAYLOAD_SIZE) (avail - TCPConfig.MAX_PAYLOAD_SIZE) =
            min s.stream.bufferSize avail by omega] at hall
      · -- the buffer is empty, or the window full
        have hfin : s.turnFin avail = s.lastFin avail := by
          rw [Bool.eq_iff_iff, hlast, lastFin, Bool.and_eq_true, decide_eq_true_eq]
          grind
        rw [fillLoop_of_stop (by omega)]
        refine ⟨[s.turnSegment avail], ?_⟩
        rwa [hfin, show s.turnSize avail = min s.stream.bufferSize avail by omega] at hturn

/-! ## The call -/

/-- A closed window counts as one byte. -/
theorem receiverLogicalWindowSize_eq (s : TCPSender) :
    s.receiverLogicalWindowSize = max 1 s.receiverWindowSize.toNat := by
  unfold receiverLogicalWindowSize
  split
  · next h => simp [h]
  · next h =>
      have hpos : s.receiverWindowSize.toNat ≠ 0 := fun h0 => h (UInt16.toNat_inj.mp h0)
      omega

/-- What the window has room for. -/
def room (s : TCPSender) : Nat := s.receiverLogicalWindowSize - (s.nextSeqno - s.confirmedSeqno)

/-- **`fill_window`**, between SYN and FIN, sends what the buffer has and the window takes,
and the FIN if the stream has ended and there is room left. -/
theorem fillWindow_sends (hsyn : s.nextSeqno ≠ 0) (hopen : s.finSent = false)
    (hroom : s.nextSeqno < s.confirmedSeqno + s.receiverLogicalWindowSize) :
    ∃ segs, Sends s (min s.stream.bufferSize s.room) (s.lastFin s.room) segs s.fillWindow := by
  have hpos : s.room ≠ 0 := by
    have := s.receiverLogicalWindowSize_pos
    unfold room
    omega
  rw [fillWindow, if_neg (by simp [hopen])]
  simp only
  rw [if_neg hsyn, if_neg (Nat.not_le.mpr hroom)]
  by_cases hbuf : s.stream.bufferSize = 0
  · rw [hbuf, Nat.zero_min]
    by_cases hended : s.stream.inputEnded = true
    · have hfin : s.lastFin s.room = true := by
        simp only [lastFin, hended, hbuf, Bool.true_and, decide_eq_true_eq]
        omega
      rw [if_pos ((ByteStream.eof_eq_true _).mpr ⟨hended, hbuf⟩), hfin]
      exact ⟨_, rfl, cuts_fin rfl rfl rfl, ⟨rfl, rfl⟩, rfl, rfl, rfl, rfl, rfl⟩
    · have hfin : s.lastFin s.room = false := by simp [lastFin, hended]
      rw [if_neg (by simp [ByteStream.eof_eq_true, hended]), hfin, fillLoop_of_stop (.inl hbuf)]
      exact ⟨[], (List.append_nil _).symm, .nothing rfl, rfl, rfl, rfl, hopen, rfl, rfl⟩
  · rw [if_neg (by simp [ByteStream.eof_eq_true, hbuf])]
    exact fillLoop_sends _ (Nat.le_refl _) hopen rfl hbuf hpos

/-- Where `fill_window` leaves the stream and the numbers: at the end of the window, or
with nothing left to send. -/
theorem Sends.room_used (h : Sends s (min s.stream.bufferSize s.room) (s.lastFin s.room) segs t)
    (hconf : s.confirmedSeqno ≤ s.nextSeqno)
    (hroom : s.nextSeqno < s.confirmedSeqno + s.receiverLogicalWindowSize) :
    t.nextSeqno ≤ s.confirmedSeqno + s.receiverLogicalWindowSize ∧
    (t.nextSeqno = s.confirmedSeqno + s.receiverLogicalWindowSize ∨
      (t.stream.bufferSize = 0 ∧ (s.stream.inputEnded = true → t.finSent = true))) := by
  have hend : s.nextSeqno + s.room = s.confirmedSeqno + s.receiverLogicalWindowSize := by
    rw [room]
    omega
  have hnext := h.nextSeqno_eq
  have hbit := (s.lastFin s.room).toNat_le
  by_cases hleft : s.stream.bufferSize < s.room
  · refine ⟨by omega, .inr ⟨?_, fun hended => ?_⟩⟩
    · rw [← ByteStream.length_stream, h.stream_eq, List.length_drop, ByteStream.length_stream]
      omega
    · rw [h.finSent_eq, lastFin, hended, decide_eq_true hleft, Bool.and_true]
  · have hlast : s.lastFin s.room = false := by simp [lastFin, hleft]
    rw [hlast, Bool.toNat_false] at hnext
    exact ⟨by omega, .inl (by omega)⟩

/-- **Exactly as much as allowed**: in every reachable state between SYN and FIN, with `W`
the larger of 1 and the peer's window, `fill_window` does nothing if the window is full;
otherwise it sends the next `n` bytes, as many as are buffered and there is room for, in
full segments but for the last, and a FIN just if the input has ended, the buffer is now
empty and there is room left.  It never sends past the window, and leaves no usable
room. -/
theorem fillWindow_exact (h : exec step (new cap rt i x) ops = some s) (hsyn : s.nextSeqno ≠ 0)
    (hopen : s.finSent = false) :
    let W := max 1 s.receiverWindowSize.toNat
    let room := W - (s.nextSeqno - s.confirmedSeqno)
    let n := min s.stream.bufferSize room
    let t := s.fillWindow
    (s.confirmedSeqno + W ≤ s.nextSeqno → t = s) ∧
    (s.nextSeqno < s.confirmedSeqno + W →
      (∃ segs fin, Sends s n fin segs t ∧
        (fin = true ↔ s.stream.inputEnded = true ∧ t.stream.bufferSize = 0 ∧ n < room)) ∧
      t.nextSeqno ≤ s.confirmedSeqno + W ∧
      (t.nextSeqno = s.confirmedSeqno + W ∨
        (t.stream.bufferSize = 0 ∧ (s.stream.inputEnded = true → t.finSent = true)))) := by
  intro W room n t
  have hW : s.receiverLogicalWindowSize = W := s.receiverLogicalWindowSize_eq
  obtain ⟨⟨base, hflight⟩, -⟩ := exec_accounted h
  refine ⟨fun hfull => ?_, fun hroom => ?_⟩
  · show s.fillWindow = s
    rw [fillWindow, if_neg (by simp [hopen])]
    simp only
    rw [if_neg hsyn, if_pos (by rw [hW]; exact hfull)]
  · rw [← hW] at hroom
    obtain ⟨segs, hsends⟩ := fillWindow_sends hsyn hopen hroom
    have hused := hsends.room_used hflight.confirmed_le hroom
    have hr : s.room = room := by rw [TCPSender.room, hW]
    rw [hW] at hused
    rw [hr] at hsends
    refine ⟨⟨segs, _, hsends, ?_⟩, hused⟩
    have hsize : t.stream.bufferSize = s.stream.bufferSize - n := by
      rw [← ByteStream.length_stream, hsends.stream_eq, List.length_drop,
        ByteStream.length_stream]
    rw [lastFin, Bool.and_eq_true, decide_eq_true_eq, hsize]
    refine and_congr_right fun _ => ?_
    omega

/-- With `"ab"` in flight and room for two more, `"cd"` goes out and the FIN has to wait. -/
theorem fillWindow_exact_waiting :
    ∃ s, exec step (new 8 1000 (some ⟨0⟩) 0)
        [.fillWindow, .ackReceived ⟨1⟩ 4, .write [97, 98], .fillWindow, .write [99, 100],
          .endInput] = some s ∧
      s.nextSeqno = 3 ∧ s.fillWindow.nextSeqno = 5 ∧ s.fillWindow.finSent = false ∧
      s.fillWindow.nextSeqno ≤ s.confirmedSeqno + max 1 s.receiverWindowSize.toNat :=
  have hrun : exec step (new 8 1000 (some ⟨0⟩) 0)
      [.fillWindow, .ackReceived ⟨1⟩ 4, .write [97, 98], .fillWindow, .write [99, 100],
        .endInput] = some _ := rfl
  ⟨_, hrun, rfl, rfl, rfl, ((fillWindow_exact hrun (by decide) rfl).2 (by decide)).2.1⟩

end TCPSender

end Sponge
