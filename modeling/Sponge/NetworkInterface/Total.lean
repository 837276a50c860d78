import Sponge.IPv4Datagram.Roundtrip
import Sponge.NetworkInterface
import Sponge.Parsers

/-!
# Sponge.NetworkInterface.Total

Calls of an interface that come back.  As long as the datagrams it was given fit
their format, no frame makes an interface throw, whatever is in it, and no tick
does (`onlyThrows_recvFrame`, `onlyThrows_tick`): the ARP messages it makes are
of the supported kind, and the datagrams that wait are sent to an address that
has just been learnt.

Of the frames that have an effect it is said which one, with as much fuel as
there are datagrams: an ARP message that is for the interface lets the waiting
datagrams go (`exists_recvFrame_learn`), and a datagram is returned
(`recvFrame_carries`).
-/

namespace Sponge

/-- Every string is parsed to a frame of some kind. -/
theorem EthernetFrame.exists_parse (self : EthernetFrame) (b : Buffer) :
    ∃ result header payload, self.parse b = .ok (result, ⟨header, [payload]⟩) := by
  obtain ⟨⟨result, header⟩, p, hrun, -⟩ := self.header.moves_parse { buffer := b }
  exact ⟨p.error, header, p.buffer, by rw [parse, hrun]; rfl⟩

/-- Every string is parsed to a message of some kind. -/
theorem ARPMessage.exists_parse (self : ARPMessage) (b : Buffer) :
    ∃ result arpMsg, self.parse b = .ok (result, arpMsg) := by
  obtain ⟨⟨result, arpMsg⟩, p, hrun, -⟩ := self.moves_parseFields { buffer := b }
  exact ⟨result, arpMsg, by rw [parse, hrun]; rfl⟩

/-- The payload of a datagram is what is left of the string. -/
theorem IPv4Datagram.exists_parse (self : IPv4Datagram) (b : Buffer) :
    ∃ result header payload, self.parse b = .ok (result, ⟨header, [payload]⟩) := by
  obtain ⟨⟨result, header⟩, p, hrun, -⟩ := self.header.moves_parse { buffer := b }
  rw [parse, hrun]
  by_cases hsize : BufferList.size [p.buffer] ≠ header.payloadLength.toNat
  · exact ⟨.PacketTooShort, header, p.buffer, if_pos hsize⟩
  · exact ⟨p.error, header, p.buffer, if_neg hsize⟩

namespace NetworkInterface

variable {s : NetworkInterface}

/-! ## Sending -/

/-- To a known address, a datagram that fits its format goes out at once. -/
theorem sendDatagram_known (hentry : s.arpTable[nextHop.ipv4Numeric]? = some entry)
    (hfits : dgram.Fits) : s.sendDatagram dgram nextHop = .ok (s.push
      ⟨⟨entry.ethAddr, s.ethernetAddress, EthernetHeader.TYPE_IPv4⟩,
        dgram.header.checksummed.bytes :: dgram.payload⟩) := by
  rw [sendDatagram_hit hentry, makeAndSendIPv4, hfits.serialize_eq]
  rfl

/-- A datagram that fits its format never makes the interface throw. -/
theorem exists_sendDatagram (s : NetworkInterface) (nextHop : Address) (hfits : dgram.Fits) :
    ∃ d, s.sendDatagram dgram nextHop = .ok d := by
  cases hentry : s.arpTable[nextHop.ipv4Numeric]? with
  | some entry => exact ⟨_, sendDatagram_known hentry hfits⟩
  | none =>
      simp only [sendDatagram, hentry, sendRequest_eq]
      split
      · exact ⟨_, rfl⟩
      · exact ⟨_, rfl⟩

/-! ## Waiting datagrams -/

/-- A turn of the loop that sends a datagram. -/
theorem flushLoop_send (hentry : s.arpTable[nextHop.ipv4Numeric]? = some entry)
    (hget : s.waitingArpInternetDatagrams[i]? = some (nextHop, dgram)) (hfits : dgram.Fits) :
    flushLoop nextHop.ipv4Numeric (fuel + 1) i s = flushLoop nextHop.ipv4Numeric fuel i { s.push
      ⟨⟨entry.ethAddr, s.ethernetAddress, EthernetHeader.TYPE_IPv4⟩,
        dgram.header.checksummed.bytes :: dgram.payload⟩ with
      waitingArpInternetDatagrams := s.waitingArpInternetDatagrams.eraseIdx i } := by
  rw [flushLoop, hget]
  simp only [↓reduceIte, sendDatagram_known hentry hfits]
  rfl

/-- The loop ends: a turn takes a datagram away or moves on. -/
theorem exists_flushLoop_returns (hentry : s.arpTable[ip]? = some entry)
    (hfits : ∀ p ∈ s.waitingArpInternetDatagrams, p.2.Fits) (fuel i : Nat)
    (hfuel : s.waitingArpInternetDatagrams.length - i < fuel) :
    ∃ d, Returns (flushLoop ip fuel i s) d := by
  induction fuel generalizing i s with
  | zero => omega
  | succ fuel ih =>
      cases hget : s.waitingArpInternetDatagrams[i]? with
      | none => exact ⟨s, by rw [flushLoop, hget]; exact returns_pure_iff.mpr rfl⟩
      | some p =>
          obtain ⟨nextHop, dgram⟩ := p
          obtain ⟨hlt, heq⟩ := List.getElem?_eq_some_iff.mp hget
          by_cases hip : nextHop.ipv4Numeric = ip
          · subst hip
            have hless : (s.waitingArpInternetDatagrams.eraseIdx i).length - i < fuel := by
              rw [List.length_eraseIdx_of_lt hlt]
              omega
            rw [flushLoop_send hentry hget (hfits _ (heq ▸ List.getElem_mem hlt))]
            exact ih (s := { s.push _ with
              waitingArpInternetDatagrams := s.waitingArpInternetDatagrams.eraseIdx i }) hentry
              (fun p hp => hfits p (List.mem_of_mem_eraseIdx hp)) i hless
          · rw [flushLoop, hget]
            simp only [hip, ↓reduceIte]
            exact ih hentry hfits (i + 1) (by omega)

/-- No datagram that fits its format makes the loop throw. -/
theorem onlyThrows_flushLoop {F : Exception → Prop} (hentry : s.arpTable[ip]? = some entry)
    (hfits : ∀ p ∈ s.waitingArpInternetDatagrams, p.2.Fits) (fuel i : Nat) :
    OnlyThrows F (flushLoop ip fuel i s) := by
  induction fuel generalizing i s with
  | zero => exact onlyThrows_outOfFuel
  | succ fuel ih =>
      cases hget : s.waitingArpInternetDatagrams[i]? with
      | none =>
          rw [flushLoop, hget]
          exact onlyThrows_pure s
      | some p =>
          obtain ⟨nextHop, dgram⟩ := p
          by_cases hip : nextHop.ipv4Numeric = ip
          · subst hip
            rw [flushLoop_send hentry hget (hfits _ (List.mem_of_getElem? hget))]
            exact ih (s := { s.push _ with
              waitingArpInternetDatagrams := s.waitingArpInternetDatagrams.eraseIdx i }) hentry
              (fun p hp => hfits p (List.mem_of_mem_eraseIdx hp)) i
          · rw [flushLoop, hget]
            simp only [hip, ↓reduceIte]
            exact ih hentry hfits (i + 1)

/-! ## No exceptions -/

section
variable {F : Exception → Prop} (hfits : ∀ p ∈ s.waitingArpInternetDatagrams, p.2.Fits)
include hfits

/-- No answer makes the interface throw. -/
theorem onlyThrows_resolve (fuel : Nat) (arpMsg : ARPMessage) :
    OnlyThrows F (s.resolve fuel arpMsg) :=
  .bind (onlyThrows_flushLoop (s := { s with arpTable := s.arpTable.insert _ _ })
    Std.TreeMap.getElem?_insert_self hfits fuel 0) fun _ _ => onlyThrows_pure _

/-- No message makes the interface throw. -/
theorem onlyThrows_recvARP (fuel : Nat) (arpMsg : ARPMessage) :
    OnlyThrows F (recvARP fuel s arpMsg) := by
  have hpushed : OnlyThrows F ((s.push (replyFrame s.ethernetAddress s.ipAddress arpMsg)).resolve
      fuel arpMsg) := onlyThrows_resolve (s := s.push _) hfits fuel arpMsg
  have hplain : OnlyThrows F (s.resolve fuel arpMsg) := onlyThrows_resolve hfits fuel arpMsg
  unfold recvARP
  simp only [sendReply_eq]
  refine .ite (fun hreq => ?_) fun _ => .ite (fun _ => ?_) fun _ => onlyThrows_pure s
  · refine .bind (onlyThrows_lift rfl) fun u hu => ?_
    rw [returns_lift_iff, Except.ok.injEq] at hu
    subst hu
    rw [hreq, Bool.true_or, if_pos rfl]
    exact hpushed.bind fun _ _ => onlyThrows_pure _
  · exact hplain.bind fun _ _ => onlyThrows_pure _

/-- **No frame makes an interface throw**, whatever is in it. -/
theorem onlyThrows_recvFrame (fuel : Nat) (header : EthernetHeader) (payload : List UInt8) :
    OnlyThrows F (s.recvFrame fuel ⟨header, [payload]⟩) := by
  obtain ⟨result, dheader, dpayload, hdgram⟩ := IPv4Datagram.exists_parse {} payload
  obtain ⟨result', arpMsg, harp⟩ := ARPMessage.exists_parse {} payload
  unfold recvFrame
  refine .ite (fun _ => onlyThrows_pure _) fun _ => .ite (fun _ => ?_) fun _ =>
    .ite (fun _ => ?_) fun _ => onlyThrows_pure _
  · refine .bind (onlyThrows_lift rfl) fun b hb => ?_
    rw [returns_lift_iff] at hb
    obtain rfl : payload = b := Except.ok.inj hb
    refine .bind (onlyThrows_lift hdgram) fun p _ => ?_
    exact .ite (fun _ => onlyThrows_pure _) fun _ => onlyThrows_pure _
  · refine .bind (onlyThrows_lift rfl) fun b hb => ?_
    rw [returns_lift_iff] at hb
    obtain rfl : payload = b := Except.ok.inj hb
    refine .bind (onlyThrows_lift harp) fun p _ => ?_
    refine .ite (fun _ => onlyThrows_pure _) fun _ => ?_
    exact (onlyThrows_recvARP hfits fuel p.2).bind fun _ _ => onlyThrows_pure _

end

theorem onlyThrows_requestLoop {F : Exception → Prop} (ms fuel : Nat) (todo : List (UInt32 × Nat))
    (s : NetworkInterface) : OnlyThrows F (requestLoop ms fuel todo s) := by
  induction fuel generalizing todo s with
  | zero => exact onlyThrows_outOfFuel
  | succ fuel ih =>
      cases todo with
      | nil => exact onlyThrows_pure s
      | cons p rest =>
          unfold requestLoop
          exact .ite (fun _ => .bind (onlyThrows_lift (sendRequest_eq s p.1)) fun _ _ => ih _ _)
            fun _ => ih rest _

/-- No tick makes the interface throw. -/
theorem onlyThrows_tick {F : Exception → Prop} (s : NetworkInterface) (fuel ms : Nat) :
    OnlyThrows F (s.tick fuel ms) :=
  onlyThrows_requestLoop ms fuel _ _

/-! ## Frames that have an effect -/

/-- A request for the interface's address, or a reply to it, that it can deal with. -/
theorem exists_recvFrame_learn {s : NetworkInterface} (arpMsg : ARPMessage)
    (hsup : arpMsg.supported = true)
    (hdst : dst = s.ethernetAddress ∨ dst = ETHERNET_BROADCAST) (hvalid : s.Valid arpMsg)
    (hfits : ∀ p ∈ s.waitingArpInternetDatagrams, p.2.Fits)
    (hfuel : s.waitingArpInternetDatagrams.length < fuel) (src : EthernetAddress) :
    ∃ frames, List.Forall₂ (fun p => Carries arpMsg.senderEthernetAddress s.ethernetAddress p.2)
        (s.waitingFor arpMsg.senderIpAddress) frames ∧
      Returns (s.recvFrame fuel ⟨⟨dst, src, EthernetHeader.TYPE_ARP⟩, [arpMsg.bytes]⟩)
        (none, s.learn arpMsg frames) := by
  have hresolve : ∀ u : NetworkInterface,
      u.waitingArpInternetDatagrams = s.waitingArpInternetDatagrams →
      ∃ d, Returns (u.resolve fuel arpMsg) d := by
    intro u hu
    obtain ⟨d, hd⟩ := exists_flushLoop_returns
      (s := { u with arpTable := u.arpTable.insert arpMsg.senderIpAddress _ })
      Std.TreeMap.getElem?_insert_self (hu ▸ hfits) fuel 0 (by rw [hu]; omega)
    exact ⟨_, returns_bind_iff.mpr ⟨d, hd, returns_pure_iff.mpr rfl⟩⟩
  have harp : ∃ d, Returns (recvARP fuel s arpMsg) d := by
    rcases hvalid with ⟨hop, htarget⟩ | ⟨hop, htarget⟩
    · obtain ⟨d, hd⟩ := hresolve (s.push (replyFrame s.ethernetAddress s.ipAddress arpMsg)) rfl
      refine ⟨d, ?_⟩
      simp only [recvARP, hop, htarget, sendReply_eq, beq_self_eq_true, Bool.and_self, Bool.true_or,
        ↓reduceIte]
      exact returns_bind_iff.mpr ⟨_, returns_lift_iff.mpr rfl,
        returns_bind_iff.mpr ⟨d, hd, returns_pure_iff.mpr rfl⟩⟩
    · obtain ⟨d, hd⟩ := hresolve s rfl
      refine ⟨d, ?_⟩
      simp [recvARP, hop, htarget, ARPMessage.OPCODE_REPLY, ARPMessage.OPCODE_REQUEST, hd]
  obtain ⟨d, hd⟩ := harp
  rcases recvARP_returns hd with ⟨hnot, -⟩ | ⟨-, frames, hframes, rfl⟩
  · exact absurd hvalid hnot
  refine ⟨frames, hframes, ?_⟩
  have hparse := ARPMessage.parse_bytes_append hsup {} []
  rw [List.append_nil] at hparse
  have hfor : ¬ (dst ≠ s.ethernetAddress ∧ dst ≠ ETHERNET_BROADCAST) := by
    rwa [not_and_or, not_not, not_not]
  unfold recvFrame
  rw [if_neg hfor, if_neg (show ¬ EthernetHeader.TYPE_ARP = EthernetHeader.TYPE_IPv4 by decide), if_pos rfl]
  refine returns_bind_iff.mpr ⟨arpMsg.bytes, returns_lift_iff.mpr rfl,
    returns_bind_iff.mpr ⟨_, returns_lift_iff.mpr hparse, ?_⟩⟩
  exact returns_bind_iff.mpr ⟨_, hd, returns_pure_iff.mpr rfl⟩

/-- A datagram as it comes from the wire. -/
theorem recvFrame_carries {s : NetworkInterface} (hfits : d.Fits)
    (hcarries : Carries s.ethernetAddress src d frame) (fuel : Nat) :
    Returns (s.recvFrame fuel ⟨frame.header, [frame.payload.concatenate]⟩)
      (some d.received, s) := by
  have hpayload : frame.payload = d.header.checksummed.bytes :: d.payload := by
    have hser := hcarries.payload_eq
    rw [hfits.serialize_eq, Except.ok.injEq] at hser
    exact hser.symm
  have hparse : IPv4Datagram.parse {} frame.payload.concatenate = .ok (.NoError, d.received) := by
    rw [hpayload]
    exact hfits.parse_wire {}
  unfold recvFrame
  rw [hcarries.header_eq, if_neg (fun h => h.1 rfl), if_pos rfl]
  refine returns_bind_iff.mpr ⟨frame.payload.concatenate, returns_lift_iff.mpr ?_,
    returns_bind_iff.mpr ⟨_, returns_lift_iff.mpr hparse, returns_pure_iff.mpr rfl⟩⟩
  rw [BufferList.toBuffer_eq (by simp)]
  simp [BufferList.concatenate]

end NetworkInterface

end Sponge
