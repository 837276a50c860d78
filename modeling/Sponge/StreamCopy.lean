import Mathlib.Data.List.Nodup
import Sponge.ByteStream
import Sponge.EventLoop
import Sponge.Lib.Run

/-!
# Sponge.StreamCopy

The program around the sockets (`bidirectional_stream_copy.cc`): it copies its
standard input to a socket and the socket to its standard output, with a
`ByteStream` in between each way, until both ways are over.

Each way has a rule that reads and one that writes.  The two ways are the same
but for how their end is passed on, and they share the socket, so what is to
hold of a way is said for any source, buffer and sink (`Relayed`).

* `copied_in_order`: whatever the kernel does, what has been written is what was
  read without what is in the buffer, and the end is passed on last;
* `copied_whole_at_return`: when the loop is done, all has been copied;
* `copy_throws`: no exception but those of the kernel.
-/

namespace Sponge

open EventLoop (Rule PollAnswer Contract Cause waitNextEvent pollError)

/-- The most that one callback writes. -/
def maxCopyLength : Nat := 65536

/-- The variables of `bidirectional_stream_copy`. -/
structure StreamCopy where
  socket : FileDescriptor
  input : FileDescriptor
  output : FileDescriptor
  outbound : ByteStream
  inbound : ByteStream
  outboundShutdown : Bool
  inboundShutdown : Bool

namespace StreamCopy

/-- The capacity of both streams. -/
def bufferSize : Nat := 1048576

def new (socket input output : FileDescriptor) : StreamCopy where
  socket := socket
  input := input
  output := output
  outbound := .new bufferSize
  inbound := .new bufferSize
  outboundShutdown := false
  inboundShutdown := false

/-! ## The rules -/

/-- The callback of the rules 1 and 3. -/
def readInto (fd : FileDescriptor) (stream : ByteStream) :
    Call Failure (FileDescriptor × ByteStream) := do
  let (data, fd) ← fd.read stream.remainingCapacity
  let stream := (stream.write data).2
  return (fd, if fd.eof then stream.endInput else stream)

/-- The callback of the rules 2 and 4, which pass on the end by `finish`. -/
def writeFrom (finish : FileDescriptor → Call Failure FileDescriptor) (fd : FileDescriptor)
    (stream : ByteStream) (isShutdown : Bool) : Call Failure (FileDescriptor × ByteStream × Bool) := do
  let bytesToWrite := min maxCopyLength stream.bufferSize
  let (bytesWritten, fd) ← fd.write [stream.peekOutput bytesToWrite] false
  let stream := stream.popOutput bytesWritten
  if stream.eof then do
    let fd ← finish fd
    return (fd, stream, true)
  else return (fd, stream, isShutdown)

/-- The interest of the rules 1 and 3. -/
def hasRoom (stream other : ByteStream) : Bool :=
  !stream.error && decide (stream.remainingCapacity > 0) && !other.error

/-- The interest of the rules 2 and 4. -/
def hasMore (stream : ByteStream) (isShutdown : Bool) : Bool :=
  !stream.bufferEmpty || (stream.eof && !isShutdown)

/-- Read from stdin into the outbound byte stream. -/
def rule1 : Rule StreamCopy where
  fd s := s.input.toFDWrapper
  direction := .In
  callback s := do
    let (input, outbound) ← readInto s.input s.outbound
    return { s with input := input, outbound := outbound }
  interest s := hasRoom s.outbound s.inbound
  cancel s := return { s with outbound := s.outbound.endInput }

/-- Read from the outbound byte stream into the socket. -/
def rule2 : Rule StreamCopy where
  fd s := s.socket.toFDWrapper
  direction := .Out
  callback s := do
    let (socket, outbound, outboundShutdown) ←
      writeFrom (·.shutdown .SHUT_WR) s.socket s.outbound s.outboundShutdown
    return { s with socket := socket, outbound := outbound, outboundShutdown := outboundShutdown }
  interest s := hasMore s.outbound s.outboundShutdown
  cancel s := return { s with outbound := s.outbound.endInput }

/-- Read from the socket into the inbound byte stream. -/
def rule3 : Rule StreamCopy where
  fd s := s.socket.toFDWrapper
  direction := .In
  callback s := do
    let (socket, inbound) ← readInto s.socket s.inbound
    return { s with socket := socket, inbound := inbound }
  interest s := hasRoom s.inbound s.outbound
  cancel s := return { s with inbound := s.inbound.endInput }

/-- Read from the inbound byte stream into stdout. -/
def rule4 : Rule StreamCopy where
  fd s := s.output.toFDWrapper
  direction := .Out
  callback s := do
    let (output, inbound, inboundShutdown) ←
      writeFrom (·.close) s.output s.inbound s.inboundShutdown
    return { s with output := output, inbound := inbound, inboundShutdown := inboundShutdown }
  interest s := hasMore s.inbound s.inboundShutdown
  cancel s := return { s with inbound := s.inbound.endInput }

def rules : List (Rule StreamCopy) := [rule1, rule2, rule3, rule4]

/-- The loop, over the answers of `poll` to come. -/
def loop : List PollAnswer → List (Rule StreamCopy) → StreamCopy →
    Call Failure (List (Rule StreamCopy) × StreamCopy)
  | [], _, _ => .outOfFuel
  | answer :: answers, rules, s => do
      let (result, rules, s) ← waitNextEvent rules s answer
      if result = .Exit then return (rules, s) else loop answers rules s

def bidirectionalStreamCopy (answers : List PollAnswer) (socket input output : FileDescriptor) :
    Call Failure (List (Rule StreamCopy) × StreamCopy) :=
  loop answers rules (new socket input output)

/-! ## What the callbacks do -/

/-- No more is read than there is room for, so all of it is in the stream. -/
theorem readInto_returns {fd fd' : FileDescriptor} {stream stream' : ByteStream}
    (h : Returns (readInto fd stream) (fd', stream')) :
    ∃ data, data.length ≤ stream.remainingCapacity ∧
      fd' = fd.received stream.remainingCapacity data ∧
      stream' = if fd'.eof then (stream.write data).2.endInput else (stream.write data).2 := by
  obtain ⟨⟨data, fd₁⟩, hread, h⟩ := returns_bind_iff.mp h
  obtain ⟨-, hlen, rfl⟩ := FileDescriptor.read_returns hread
  rw [returns_pure_iff, Prod.mk.injEq] at h
  obtain ⟨rfl, rfl⟩ := h
  exact ⟨data, Nat.le_trans hlen (Nat.min_le_right _ _), rfl, rfl⟩

/-- What the descriptor takes leaves the stream; at the end, the end is passed on. -/
theorem writeFrom_returns {fd fd' : FileDescriptor} {stream stream' : ByteStream}
    (h : Returns (writeFrom finish fd stream isShutdown) (fd', stream', isShutdown')) :
    ∃ n, n ≤ stream.bufferSize ∧ stream' = stream.popOutput n ∧
      (stream'.eof = true ∧ isShutdown' = true ∧
          Returns (finish (fd.took [stream.stream.take n])) fd' ∨
        stream'.eof = false ∧ isShutdown' = isShutdown ∧ fd' = fd.took [stream.stream.take n]) := by
  obtain ⟨⟨n, fd₁⟩, hwrite, h⟩ := returns_bind_iff.mp h
  obtain ⟨chunks, rfl, hwrote⟩ := FileDescriptor.write_returns hwrite
  rw [ByteStream.peekOutput_eq, List.flatten_cons, List.flatten_nil, List.append_nil] at hwrote
  have hle : n ≤ min (min maxCopyLength stream.bufferSize) stream.bufferSize := by
    have := hwrote.total_le
    rwa [List.length_take, ByteStream.length_stream] at this
  obtain rfl : chunks = [stream.stream.take n] := by
    obtain ⟨chunk, rfl⟩ := List.length_eq_one_iff.mp (hwrote.one rfl)
    have hflatten := hwrote.flatten_eq
    rw [List.flatten_cons, List.flatten_nil, List.append_nil, List.take_take] at hflatten
    rw [hflatten, Nat.min_eq_left (by omega)]
  refine ⟨n, by omega, ?_⟩
  simp only at h
  split at h
  · next heof =>
      obtain ⟨fd₂, hfinish, h⟩ := returns_bind_iff.mp h
      rw [returns_pure_iff, Prod.mk.injEq, Prod.mk.injEq] at h
      obtain ⟨rfl, rfl, rfl⟩ := h
      exact ⟨rfl, .inl ⟨heof, rfl, hfinish⟩⟩
  · next heof =>
      rw [returns_pure_iff, Prod.mk.injEq, Prod.mk.injEq] at h
      obtain ⟨rfl, rfl, rfl⟩ := h
      exact ⟨rfl, .inr ⟨by simpa using heof, rfl, rfl⟩⟩

/-! ## One way -/

/-- What holds of one way, where `reads` and `writes` say that its rules are in place. -/
structure Relayed (source : FileDescriptor) (buffer : ByteStream) (sink : FileDescriptor)
    (isShutdown : Bool) (reads writes : Prop) : Prop where
  conserved : sink.put.flatten ++ buffer.stream = source.got
  sound : buffer.error = false ∧ buffer.capacity = bufferSize
  ended : ¬ reads → buffer.inputEnded = true
  /-- While the rule that writes is in place, the input is ended by the one that reads. -/
  last : buffer.inputEnded = true → writes → reads → source.eof = true
  shut : isShutdown = true → buffer.eof = true ∧ (reads → source.eof = true)

namespace Relayed

variable {source source' sink sink' : FileDescriptor} {buffer buffer' : ByteStream}

/-- Nothing has gone over the way. -/
theorem new (hgot : source.got = []) (hput : sink.put = []) (hreads : reads) :
    Relayed source (.new bufferSize) sink false reads writes where
  conserved := by simp [hgot, hput, ByteStream.new]
  sound := ⟨rfl, rfl⟩
  ended := fun h => absurd hreads h
  last := by simp
  shut := by simp

/-- What the other way does to the descriptors. -/
theorem frame (h : Relayed source buffer sink isShutdown reads writes)
    (hgot : source'.got = source.got) (heof : source'.eof = source.eof)
    (hput : sink'.put = sink.put) : Relayed source' buffer sink' isShutdown reads writes where
  conserved := by rw [hput, hgot, h.conserved]
  sound := h.sound
  ended := h.ended
  last := by rw [heof]; exact h.last
  shut := by rw [heof]; exact h.shut

/-- A read adds to the stream what it takes from the source. -/
theorem read (h : Relayed source buffer sink isShutdown reads writes) (hreads : reads)
    (heof : source.eof = false) (hread : Returns (readInto source buffer) (source', buffer')) :
    Relayed source' buffer' sink isShutdown reads writes := by
  obtain ⟨data, hlen, hsource', rfl⟩ := readInto_returns hread
  have hgot : source'.got = source.got ++ data := by rw [hsource']; rfl
  have hconserved : sink.put.flatten ++ (buffer.write data).2.stream = source'.got := by
    rw [ByteStream.write_stream, List.take_of_length_le hlen, ← List.append_assoc, h.conserved, hgot]
  have hsound : (buffer.write data).2.error = false ∧
      (buffer.write data).2.capacity = bufferSize := by
    rw [ByteStream.write_error, ByteStream.write_capacity]
    exact h.sound
  have hopen : isShutdown ≠ true := by
    intro hshut
    rw [(h.shut hshut).2 hreads] at heof
    contradiction
  cases heof' : source'.eof with
  | true =>
      exact ⟨hconserved, hsound, fun hno => absurd hreads hno, fun _ _ _ => heof',
        fun hshut => absurd hshut hopen⟩
  | false =>
      refine ⟨hconserved, hsound, fun hno => absurd hreads hno, fun hended hwrites _ => ?_,
        fun hshut => absurd hshut hopen⟩
      rw [if_neg Bool.false_ne_true, ByteStream.write_inputEnded] at hended
      rw [h.last hended hwrites hreads] at heof
      contradiction

/-- A write moves bytes from the stream to the sink. -/
theorem write (h : Relayed source buffer sink isShutdown reads writes) (hwrites : writes)
    (hfinish : ∀ {fd fd'}, Returns (finish fd) fd' → fd'.put = fd.put)
    (hwrite : Returns (writeFrom finish sink buffer isShutdown) (sink', buffer', isShutdown')) :
    Relayed source buffer' sink' isShutdown' reads writes := by
  obtain ⟨n, -, rfl, hcases⟩ := writeFrom_returns hwrite
  have hput : sink'.put = sink.put ++ [buffer.stream.take n] := by
    rcases hcases with ⟨-, -, hshut⟩ | ⟨-, -, rfl⟩
    · exact hfinish hshut
    · rfl
  refine ⟨?_, h.sound, h.ended, h.last, fun hshut => ?_⟩
  · rw [hput, List.flatten_append, List.flatten_cons, List.flatten_nil, List.append_nil,
      List.append_assoc, ByteStream.popOutput_stream, List.take_append_drop, h.conserved]
  · rcases hcases with ⟨heof, -⟩ | ⟨-, rfl, -⟩
    · exact ⟨heof, h.last ((ByteStream.eof_eq_true _).mp heof).1 hwrites⟩
    · obtain ⟨heof, hread⟩ := h.shut hshut
      refine ⟨?_, hread⟩
      rw [ByteStream.eof_eq_true] at heof ⊢
      exact ⟨heof.1, by simp [heof.2]⟩

/-- One of the rules is cancelled. -/
theorem cancel (h : Relayed source buffer sink isShutdown reads writes)
    (hreads : reads' → reads) (hgone : writes' → ¬ reads') :
    Relayed source buffer.endInput sink isShutdown reads' writes' where
  conserved := h.conserved
  sound := h.sound
  ended := fun _ => rfl
  last := fun _ hw hr => absurd hr (hgone hw)
  shut := fun hshut => ⟨by
    have := (ByteStream.eof_eq_true _).mp (h.shut hshut).1
    exact (ByteStream.eof_eq_true _).mpr ⟨rfl, this.2⟩, fun hr => (h.shut hshut).2 (hreads hr)⟩

/-- The same with the rules told in another way. -/
theorem congr (h : Relayed source buffer sink isShutdown reads writes) (hreads : reads' ↔ reads)
    (hwrites : writes' ↔ writes) : Relayed source buffer sink isShutdown reads' writes' := by
  rwa [hreads, hwrites]

/-- Once its end has been passed on, nothing is in the buffer. -/
theorem flatten_put_of_shut (h : Relayed source buffer sink isShutdown reads writes)
    (hshut : isShutdown = true) : sink.put.flatten = source.got := by
  have hsize := ((ByteStream.eof_eq_true _).mp (h.shut hshut).1).2
  have hconserved := h.conserved
  rwa [List.length_eq_zero_iff.mp (buffer.length_stream.trans hsize), List.append_nil] at hconserved

/-- An empty buffer has room, so the rule that reads is gone if it is not interested. -/
theorem not_reads (h : Relayed source buffer sink isShutdown reads writes)
    (hsize : buffer.bufferSize = 0) (hother : other.error = false)
    (hroom : reads → hasRoom buffer other = false) : ¬ reads := by
  intro hreads
  have hfull := hroom hreads
  simp [hasRoom, h.sound.1, h.sound.2, hother, ByteStream.remainingCapacity, hsize,
    bufferSize] at hfull

/-- When no rule is interested, all has been copied and the end has been passed on, unless the
rule that writes was lost before. -/
theorem whole (h : Relayed source buffer sink isShutdown reads writes)
    (hroom : reads → hasRoom buffer other = false) (hother : other.error = false)
    (hmore : writes → hasMore buffer isShutdown = false) (hleft : writes ∨ isShutdown = true) :
    sink.put.flatten = source.got ∧ isShutdown = true ∧ ¬ reads := by
  have hsize : buffer.bufferSize = 0 ∧ (isShutdown = true ∨ buffer.eof = false) := by
    rcases hleft with hwrites | hshut
    · have hidle := hmore hwrites
      simp only [hasMore, Bool.or_eq_false_iff, Bool.not_eq_false', Bool.and_eq_false_iff] at hidle
      exact ⟨(ByteStream.bufferEmpty_eq_true buffer).mp hidle.1, hidle.2.symm⟩
    · exact ⟨((ByteStream.eof_eq_true _).mp (h.shut hshut).1).2, .inl hshut⟩
  have hreads := h.not_reads hsize.1 hother hroom
  have hshut : isShutdown = true := by
    refine hsize.2.resolve_right fun hopen => ?_
    rw [(ByteStream.eof_eq_true _).mpr ⟨h.ended hreads, hsize.1⟩] at hopen
    contradiction
  exact ⟨h.flatten_put_of_shut hshut, hshut, hreads⟩

end Relayed

/-! ## The rules, one by one -/

variable {s s' : StreamCopy}

/-- The callback of rule 1. -/
theorem rule1_returns (h : Returns (rule1.callback s) s') :
    ∃ input outbound, Returns (readInto s.input s.outbound) (input, outbound) ∧
      s' = { s with input := input, outbound := outbound } := by
  obtain ⟨⟨input, outbound⟩, hread, h⟩ := returns_bind_iff.mp h
  exact ⟨input, outbound, hread, (returns_pure_iff.mp h).symm⟩

/-- The callback of rule 2. -/
theorem rule2_returns (h : Returns (rule2.callback s) s') :
    ∃ socket outbound isShutdown,
      Returns (writeFrom (·.shutdown .SHUT_WR) s.socket s.outbound s.outboundShutdown)
        (socket, outbound, isShutdown) ∧
      s' = { s with socket := socket, outbound := outbound, outboundShutdown := isShutdown } := by
  obtain ⟨⟨socket, outbound, isShutdown⟩, hwrite, h⟩ := returns_bind_iff.mp h
  exact ⟨socket, outbound, isShutdown, hwrite, (returns_pure_iff.mp h).symm⟩

/-- The callback of rule 3. -/
theorem rule3_returns (h : Returns (rule3.callback s) s') :
    ∃ socket inbound, Returns (readInto s.socket s.inbound) (socket, inbound) ∧
      s' = { s with socket := socket, inbound := inbound } := by
  obtain ⟨⟨socket, inbound⟩, hread, h⟩ := returns_bind_iff.mp h
  exact ⟨socket, inbound, hread, (returns_pure_iff.mp h).symm⟩

/-- The callback of rule 4. -/
theorem rule4_returns (h : Returns (rule4.callback s) s') :
    ∃ output inbound isShutdown,
      Returns (writeFrom (·.close) s.output s.inbound s.inboundShutdown)
        (output, inbound, isShutdown) ∧
      s' = { s with output := output, inbound := inbound, inboundShutdown := isShutdown } := by
  obtain ⟨⟨output, inbound, isShutdown⟩, hwrite, h⟩ := returns_bind_iff.mp h
  exact ⟨output, inbound, isShutdown, hwrite, (returns_pure_iff.mp h).symm⟩

/-- A read leaves alone what has been written. -/
theorem readInto_put {fd fd' : FileDescriptor} {stream stream' : ByteStream}
    (h : Returns (readInto fd stream) (fd', stream')) : fd'.put = fd.put := by
  obtain ⟨data, -, rfl, -⟩ := readInto_returns h
  rfl

/-- To write to the socket leaves alone what has been read from it, and how it stands. -/
theorem writeFrom_shutdown_frame {fd fd' : FileDescriptor} {stream stream' : ByteStream}
    (h : Returns (writeFrom (·.shutdown .SHUT_WR) fd stream isShutdown)
      (fd', stream', isShutdown')) :
    fd'.got = fd.got ∧ fd'.eof = fd.eof ∧ fd'.closed = fd.closed := by
  obtain ⟨n, -, -, ⟨-, -, hshut⟩ | ⟨-, -, rfl⟩⟩ := writeFrom_returns h
  · rw [FileDescriptor.shutdown_returns hshut]
    exact ⟨rfl, rfl, rfl⟩
  · exact ⟨rfl, rfl, rfl⟩

/-- The four rules. -/
theorem mem_rules {r : Rule StreamCopy} :
    r ∈ rules ↔ r = rule1 ∨ r = rule2 ∨ r = rule3 ∨ r = rule4 := by
  simp [rules]

/-- A descriptor from which a rule still reads is not at its end. -/
theorem eof_eq_false {r : Rule StreamCopy} (hin : r.direction = .In) (hover : ¬ r.IsOver s) :
    (r.fd s).eof = false := by
  rw [← Bool.not_eq_true]
  exact fun heof => hover (.inl ⟨hin, heof⟩)

/-- A program that tells the rules from each other. -/
def probe : StreamCopy := new {} { eof := true } { closed := true }

/-- Four rules, told apart by what they do in the state `probe`. -/
theorem rules_nodup : rules.Nodup :=
  List.Nodup.of_map (fun r : Rule StreamCopy => (r.direction, r.fd probe)) (by decide)

theorem rules_ne : rule1 ≠ rule2 ∧ rule1 ≠ rule3 ∧ rule1 ≠ rule4 ∧ rule2 ≠ rule3 ∧
    rule2 ≠ rule4 ∧ rule3 ≠ rule4 := by
  have hnodup := rules_nodup
  simp only [rules, List.nodup_cons, List.mem_cons, List.not_mem_nil, or_false, not_or] at hnodup
  obtain ⟨⟨h12, h13, h14⟩, ⟨h23, h24⟩, h34, -⟩ := hnodup
  exact ⟨h12, h13, h14, h23, h24, h34⟩

/-! ## Both ways -/

/-- What holds of the program when the rules `live` are in place. -/
structure Copies (live : List (Rule StreamCopy)) (s : StreamCopy) : Prop where
  outbound : Relayed s.input s.outbound s.socket s.outboundShutdown (rule1 ∈ live) (rule2 ∈ live)
  inbound : Relayed s.socket s.inbound s.output s.inboundShutdown (rule3 ∈ live) (rule4 ∈ live)

/-- **Each callback** keeps both ways. -/
theorem Copies.callback {live : List (Rule StreamCopy)} {r : Rule StreamCopy} (h : Copies live s)
    (hlive : live.Sublist rules) (hr : r ∈ live) (hover : ¬ r.IsOver s)
    (hcall : Returns (r.callback s) s') : Copies live s' := by
  rcases mem_rules.mp (hlive.subset hr) with rfl | rfl | rfl | rfl
  · obtain ⟨input, outbound, hread, rfl⟩ := rule1_returns hcall
    exact ⟨h.outbound.read hr (eof_eq_false rfl hover) hread, h.inbound⟩
  · obtain ⟨socket, outbound, isShutdown, hwrite, rfl⟩ := rule2_returns hcall
    obtain ⟨hgot, heof, -⟩ := writeFrom_shutdown_frame hwrite
    refine ⟨h.outbound.write hr (fun hshut => ?_) hwrite, h.inbound.frame hgot heof rfl⟩
    rw [FileDescriptor.shutdown_returns hshut]
  · obtain ⟨socket, inbound, hread, rfl⟩ := rule3_returns hcall
    exact ⟨h.outbound.frame rfl rfl (readInto_put hread), h.inbound.read hr (eof_eq_false rfl hover) hread⟩
  · obtain ⟨output, inbound, isShutdown, hwrite, rfl⟩ := rule4_returns hcall
    refine ⟨h.outbound, h.inbound.write hr (fun hclose => ?_) hwrite⟩
    rw [FileDescriptor.close_returns hclose]

/-- The other rules stay in place. -/
theorem mem_erased {front back : List (Rule StreamCopy)} {r r' : Rule StreamCopy} (hne : r' ≠ r) :
    r' ∈ front ++ back ↔ r' ∈ front ++ r :: back := by
  simp [hne]

/-- **Each cancellation** keeps both ways. -/
theorem Copies.cancel {front back : List (Rule StreamCopy)} {r : Rule StreamCopy}
    (h : Copies (front ++ r :: back) s) (hlive : (front ++ r :: back).Sublist rules)
    (hcancel : Returns (r.cancel s) s') : Copies (front ++ back) s' := by
  have hrules := hlive.subset (List.mem_append_right front List.mem_cons_self)
  have hgone : r ∉ front ++ back := by
    have hnodup := List.perm_middle.nodup_iff.mp (hlive.nodup rules_nodup)
    exact (List.nodup_cons.mp hnodup).1
  have hless : ∀ r', r' ∈ front ++ back → r' ∈ front ++ r :: back := fun r' hr' =>
    ((List.sublist_cons_self r back).append_left front).subset hr'
  obtain ⟨h12, h13, h14, h23, h24, h34⟩ := rules_ne
  rcases mem_rules.mp hrules with rfl | rfl | rfl | rfl <;> rw [← returns_pure_iff.mp hcancel]
  · exact ⟨h.outbound.cancel (hless _) fun _ => hgone,
      h.inbound.congr (mem_erased h13.symm) (mem_erased h14.symm)⟩
  · exact ⟨h.outbound.cancel (hless _) fun hw => absurd hw hgone,
      h.inbound.congr (mem_erased h23.symm) (mem_erased h24.symm)⟩
  · exact ⟨h.outbound.congr (mem_erased h13) (mem_erased h23),
      h.inbound.cancel (hless _) fun _ => hgone⟩
  · exact ⟨h.outbound.congr (mem_erased h14) (mem_erased h24),
      h.inbound.cancel (hless _) fun hw => absurd hw hgone⟩

/-! ## The loop -/

/-- A callback leaves it to the rules after it whether they are over. -/
theorem callbacks_apart : rules.Pairwise fun r r' => ∀ {s s'}, Returns (r.callback s) s' →
    (r'.fd s').eof = (r'.fd s).eof ∧ (r'.fd s').closed = (r'.fd s).closed := by
  refine .cons ?_ (.cons ?_ (.cons ?_ (.cons (by simp) .nil))) <;> intro r' hr' s s' h <;>
    simp only [List.mem_cons, List.not_mem_nil, or_false] at hr'
  · obtain ⟨_, _, -, rfl⟩ := rule1_returns h
    rcases hr' with rfl | rfl | rfl <;> exact ⟨rfl, rfl⟩
  · obtain ⟨_, _, _, hwrite, rfl⟩ := rule2_returns h
    rcases hr' with rfl | rfl
    · exact (writeFrom_shutdown_frame hwrite).2
    · exact ⟨rfl, rfl⟩
  · obtain ⟨_, _, -, rfl⟩ := rule3_returns h
    subst hr'
    exact ⟨rfl, rfl⟩

/-- A cancellation does nothing to the descriptors. -/
theorem cancel_fd {r r' : Rule StreamCopy} (hr : r ∈ rules) (hr' : r' ∈ rules)
    (h : Returns (r.cancel s) s') : r'.fd s' = r'.fd s := by
  rcases mem_rules.mp hr with rfl | rfl | rfl | rfl <;> rw [← returns_pure_iff.mp h] <;>
    rcases mem_rules.mp hr' with rfl | rfl | rfl | rfl <;> rfl

/-- The rules keep their promises: the one that is called is not over. -/
theorem rules_contract : Contract Copies (fun r s => ¬ r.IsOver s) rules where
  interest _ _ _ hover _ := hover
  callback hlive hr hs hover hcall := hs.callback hlive hr hover hcall
  cancel hlive hs hcancel := hs.cancel hlive hcancel
  apart := by
    refine callbacks_apart.imp_of_mem fun hr hr' hfd => ⟨fun s s' _ hover h => ?_,
      fun s s' hover h => ?_, fun s s' hover h => ?_⟩
    · obtain ⟨heof, hclosed⟩ := hfd h
      rwa [Rule.IsOver, heof, hclosed]
    · rwa [Rule.IsOver, cancel_fd hr hr' h]
    · rwa [Rule.IsOver, cancel_fd hr' hr h]

/-- Descriptors over which nothing has gone yet. -/
structure Unused (socket input output : FileDescriptor) : Prop where
  socket : socket.got = [] ∧ socket.put = []
  input : input.got = []
  output : output.put = []

/-- Before the loop nothing has been copied. -/
theorem copies_new {socket input output : FileDescriptor} (h : Unused socket input output) :
    Copies rules (new socket input output) where
  outbound := .new h.input h.socket.2 (by simp [rules])
  inbound := .new h.socket.1 h.output (by simp [rules])

/-- **Every run** of the loop keeps what holds of both ways. -/
theorem exec_copies {socket input output : FileDescriptor} (hnew : Unused socket input output)
    (h : exec EventLoop.step (rules, new socket input output) answers = some (left, s)) :
    Copies left s := by
  have hrun : left.Sublist rules ∧ Copies left s :=
    exec_invariant (P := fun l : List (Rule StreamCopy) × StreamCopy =>
      l.1.Sublist rules ∧ Copies l.1 l.2) ?_ ⟨.refl _, copies_new hnew⟩ h
  · exact hrun.2
  · intro l answer l' hl hstep
    obtain ⟨result, hwait⟩ := EventLoop.step_eq_some.mp hstep
    exact ⟨(EventLoop.waitNextEvent_sublist hwait).trans hl.1,
      rules_contract.waitNextEvent_returns hl.1 hl.2 hwait⟩

/-- **Copied in order**: whatever the kernel answers, at any time what has been written to the
socket, with what is buffered, is what has been read from stdin, and what has been
written to stdout, with what is buffered, is what has been read from the socket.
Once the end of a stream has been passed on, all of it has been, and it is not read any
further. -/
theorem copied_in_order {socket input output : FileDescriptor} (hnew : Unused socket input output)
    (h : exec EventLoop.step (rules, new socket input output) answers = some (left, s)) :
    s.socket.put.flatten ++ s.outbound.stream = s.input.got ∧
    s.output.put.flatten ++ s.inbound.stream = s.socket.got ∧
    (s.outboundShutdown = true →
      s.socket.put.flatten = s.input.got ∧ (rule1 ∈ left → s.input.eof = true)) ∧
    (s.inboundShutdown = true →
      s.output.put.flatten = s.socket.got ∧ (rule3 ∈ left → s.socket.eof = true)) := by
  obtain ⟨hout, hin⟩ := exec_copies hnew h
  exact ⟨hout.conserved, hin.conserved,
    fun hshut => ⟨hout.flatten_put_of_shut hshut, (hout.shut hshut).2⟩,
    fun hshut => ⟨hin.flatten_put_of_shut hshut, (hin.shut hshut).2⟩⟩

/-- A socket that takes one byte at a time, and from which two bytes come. -/
def slowSocket : FileDescriptor where
  reads := [fun _ => .ok [121, 111], fun _ => .ok []]
  writes := .replicate 2 fun size => .ok (min 1 size)
  controls := [none]

/-- Two bytes are typed. -/
def typed : FileDescriptor := { reads := [fun _ => .ok [104, 105], fun _ => .ok []] }

def screen : FileDescriptor := { writes := [fun size => .ok size], controls := [none] }

/-- Both sides are read, then both ends are found while the rest is written. -/
def talk : List PollAnswer :=
  [.ready [{ pollIn := true }, {}, { pollIn := true }],
    .ready [{ pollIn := true }, { pollOut := true }, { pollIn := true }, { pollOut := true }]]

theorem unused_talk : Unused slowSocket typed screen := ⟨⟨rfl, rfl⟩, rfl, rfl⟩

/-- One byte is in the socket, the other still in the stream; the inbound way is done. -/
theorem copied_in_order_talk :
    ∃ left s, exec EventLoop.step (rules, new slowSocket typed screen) talk = some (left, s) ∧
      s.socket.put = [[104]] ∧ s.outbound.stream = [105] ∧ s.inboundShutdown = true ∧
      s.socket.put.flatten ++ s.outbound.stream = s.input.got ∧
      s.output.put.flatten = s.socket.got := by
  have hrun : (exec EventLoop.step (rules, new slowSocket typed screen) talk).map (fun l =>
      (l.2.socket.put, l.2.outbound.stream, l.2.inboundShutdown)) =
      some ([[104]], [105], true) := by
    decide +kernel
  obtain ⟨⟨left, s⟩, hexec, heq⟩ := Option.map_eq_some_iff.mp hrun
  simp only [Prod.mk.injEq] at heq
  obtain ⟨hput, hstream, hshut⟩ := heq
  obtain ⟨hout, -, -, hin⟩ := copied_in_order unused_talk hexec
  exact ⟨left, s, hexec, hput, hstream, hshut, hout, (hin hshut).1⟩

/-! ## The end of the loop -/

/-- To cancel a rule does not change the interest of those before it. -/
theorem interests_apart : rules.Pairwise fun r r' =>
    ∀ t t', Returns (r'.cancel t) t' → r.interest t' = r.interest t := by
  refine .cons ?_ (.cons ?_ (.cons ?_ (.cons (by simp) .nil))) <;> intro r' hr' t t' h <;>
    simp only [List.mem_cons, List.not_mem_nil, or_false] at hr'
  · rcases hr' with rfl | rfl | rfl <;> rw [← returns_pure_iff.mp h] <;> rfl
  · rcases hr' with rfl | rfl <;> rw [← returns_pure_iff.mp h] <;> rfl
  · subst hr'
    rw [← returns_pure_iff.mp h]
    rfl

/-- A loop that is over, and was not interrupted, has no rule left that is interested. -/
theorem loop_returns {rs left : List (Rule StreamCopy)} (hsub : rs.Sublist rules)
    (hs : Copies rs s) (hsignal : .failed EventLoop.EINTR ∉ answers)
    (h : Returns (loop answers rs s) (left, s')) :
    Copies left s' ∧ ∀ r ∈ left, r.interest s' = false := by
  induction answers generalizing rs s with
  | nil => exact absurd h not_returns_outOfFuel
  | cons answer answers ih =>
      obtain ⟨hfirst, hlater⟩ := List.ne_and_not_mem_of_not_mem_cons hsignal
      obtain ⟨⟨result, rs', t⟩, hwait, h⟩ := returns_bind_iff.mp h
      have ht := rules_contract.waitNextEvent_returns hsub hs hwait
      simp only at h
      split at h
      · next hexit =>
          rw [returns_pure_iff, Prod.mk.injEq] at h
          obtain ⟨rfl, rfl⟩ := h
          refine ⟨ht, ?_⟩
          obtain ⟨polled, hpolled, hcases⟩ := EventLoop.waitNextEvent_cases hwait
          rcases hcases with ⟨rfl, rfl, ⟨-, hidle | heq⟩ | ⟨rfl, -⟩⟩ | ⟨rfl, -⟩
          · exact EventLoop.setUp_idle (interests_apart.sublist hsub) hpolled hidle
          · exact absurd heq.symm hfirst
          · contradiction
          · contradiction
      · exact ih ((EventLoop.waitNextEvent_sublist hwait).trans hsub) ht hlater h

/-- **Copied to the end**: when `bidirectional_stream_copy` returns, and not because of a
signal, then each way on which the rule that writes is still in place, or has passed on
the end, has been copied whole: all that was read has been written, the end has been passed
on, and there is no rule left that reads. -/
theorem copied_whole_at_return {socket input output : FileDescriptor}
    (hnew : Unused socket input output) (hsignal : .failed EventLoop.EINTR ∉ answers)
    (h : Returns (bidirectionalStreamCopy answers socket input output) (left, s)) :
    (rule2 ∈ left ∨ s.outboundShutdown = true → s.socket.put.flatten = s.input.got ∧
      s.outboundShutdown = true ∧ rule1 ∉ left) ∧
    (rule4 ∈ left ∨ s.inboundShutdown = true → s.output.put.flatten = s.socket.got ∧
      s.inboundShutdown = true ∧ rule3 ∉ left) := by
  obtain ⟨⟨hout, hin⟩, hidle⟩ := loop_returns (.refl _) (copies_new hnew) hsignal h
  exact ⟨hout.whole (hidle rule1) hin.sound.1 (hidle rule2),
    hin.whole (hidle rule3) hout.sound.1 (hidle rule4)⟩

/-- Both ways are done. -/
theorem copied_whole_at_return_talk :
    ∃ left s, Returns (bidirectionalStreamCopy (talk ++ [.ready [{ pollOut := true }], .timeout])
        slowSocket typed screen) (left, s) ∧
      s.input.got = [104, 105] ∧ s.socket.put.flatten = s.input.got ∧ s.outboundShutdown = true ∧
      s.output.put.flatten = s.socket.got ∧ s.inboundShutdown = true := by
  have hrun : (bidirectionalStreamCopy (talk ++ [.ready [{ pollOut := true }], .timeout])
      slowSocket typed screen).result?.map (fun l =>
        (l.2.input.got, l.2.outboundShutdown, l.2.inboundShutdown)) =
      some ([104, 105], true, true) := by
    decide +kernel
  obtain ⟨⟨left, s⟩, hloop, heq⟩ := Option.map_eq_some_iff.mp hrun
  rw [result?_eq_some_iff] at hloop
  simp only [Prod.mk.injEq] at heq
  obtain ⟨hgot, hout, hin⟩ := heq
  obtain ⟨hcopiedOut, hcopiedIn⟩ := copied_whole_at_return unused_talk (by simp [talk]) hloop
  exact ⟨left, s, hloop, hgot, (hcopiedOut (.inr hout)).1, hout, (hcopiedIn (.inr hin)).1, hin⟩

/-! ## Exceptions -/

/-- Only the kernel makes it throw. -/
theorem readInto_throws (fd : FileDescriptor) (stream : ByteStream) :
    OnlyThrows KernelFault (readInto fd stream) :=
  (fd.onlyThrows_read _).bind fun _ _ => onlyThrows_pure _

/-- Only the kernel makes it throw. -/
theorem writeFrom_throws (hfinish : ∀ fd, OnlyThrows KernelFault (finish fd)) (fd : FileDescriptor)
    (stream : ByteStream) (isShutdown : Bool) :
    OnlyThrows KernelFault (writeFrom finish fd stream isShutdown) :=
  (fd.onlyThrows_write _ _).bind fun p _ => .ite
    (fun _ => (hfinish p.2).bind fun _ _ => onlyThrows_pure _) fun _ => onlyThrows_pure _

/-- Only the kernel makes a callback throw. -/
theorem callback_throws {r : Rule StreamCopy} (hr : r ∈ rules) (s : StreamCopy) :
    OnlyThrows KernelFault (r.callback s) := by
  rcases mem_rules.mp hr with rfl | rfl | rfl | rfl
  · exact (readInto_throws _ _).bind fun _ _ => onlyThrows_pure _
  · exact (writeFrom_throws (fun fd => fd.onlyThrows_shutdown _) _ _ _).bind fun _ _ =>
      onlyThrows_pure _
  · exact (readInto_throws _ _).bind fun _ _ => onlyThrows_pure _
  · exact (writeFrom_throws (fun fd => fd.onlyThrows_close) _ _ _).bind fun _ _ => onlyThrows_pure _

/-- A callback that reads counts a read, so that it does not busy wait. -/
theorem readInto_counts {fd fd' : FileDescriptor} {stream stream' : ByteStream}
    (h : Returns (readInto fd stream) (fd', stream')) : fd'.readCount ≠ fd.readCount := by
  obtain ⟨data, -, rfl, -⟩ := readInto_returns h
  exact add_one_ne _

/-- A callback that writes counts a write or two. -/
theorem writeFrom_counts {fd fd' : FileDescriptor} {stream stream' : ByteStream}
    (hfinish : ∀ {fd fd'}, Returns (finish fd) fd' →
      fd'.writeCount = fd.writeCount ∨ fd'.writeCount = fd.writeCount + 1)
    (h : Returns (writeFrom finish fd stream isShutdown) (fd', stream', isShutdown')) :
    fd'.writeCount ≠ fd.writeCount := by
  obtain ⟨n, -, -, ⟨-, -, hshut⟩ | ⟨-, -, rfl⟩⟩ := writeFrom_returns h
  · have hone : (fd.took [stream.stream.take n]).writeCount = fd.writeCount + 1 := rfl
    rcases hfinish hshut with hsame | hmore
    · rw [hsame, hone]
      exact add_one_ne _
    · rw [hmore, hone, UInt32.add_assoc, ne_eq, UInt32.add_eq_left]
      decide
  · exact add_one_ne _

/-- Every callback uses its descriptor. -/
theorem callback_counts {r : Rule StreamCopy} (hr : r ∈ rules) (h : Returns (r.callback s) s') :
    r.serviceCount s' ≠ r.serviceCount s := by
  rcases mem_rules.mp hr with rfl | rfl | rfl | rfl
  · obtain ⟨_, _, hread, rfl⟩ := rule1_returns h
    exact readInto_counts hread
  · obtain ⟨_, _, _, hwrite, rfl⟩ := rule2_returns h
    refine writeFrom_counts (fun hshut => .inr ?_) hwrite
    rw [FileDescriptor.shutdown_returns hshut]
  · obtain ⟨_, _, hread, rfl⟩ := rule3_returns h
    exact readInto_counts hread
  · obtain ⟨_, _, _, hwrite, rfl⟩ := rule4_returns h
    refine writeFrom_counts (fun hclose => .inl ?_) hwrite
    rw [FileDescriptor.close_returns hclose]

/-- The exceptions of the rules. -/
theorem cause_rules {P : List (Rule StreamCopy) → StreamCopy → Prop}
    {Pre : Rule StreamCopy → StreamCopy → Prop} (h : Cause P Pre rules e) :
    e = pollError ∨ KernelFault e := by
  cases h with
  | poll => exact .inl rfl
  | callback live r s _ hr _ _ hthrows => exact .inr (callback_throws hr s hthrows)
  | cancel live r s _ hr _ hthrows =>
      rcases mem_rules.mp hr with rfl | rfl | rfl | rfl <;> exact absurd hthrows not_throws_pure
  | busy live r s s' hr _ _ hcall hcount => exact absurd hcount (callback_counts hr hcall)

/-- What the loop throws, whatever happens. -/
theorem loop_throws {rs : List (Rule StreamCopy)} (hsub : rs.Sublist rules)
    (h : Throws (loop answers rs s) e) : e = pollError ∨ KernelFault e := by
  induction answers generalizing rs s with
  | nil => exact absurd h not_throws_outOfFuel
  | cons answer answers ih =>
      rcases throws_bind_iff.mp h with h | ⟨⟨result, rs', t⟩, hwait, h⟩
      · exact cause_rules ((EventLoop.contract_trivial rules).waitNextEvent_throws hsub trivial h)
      · simp only at h
        split at h
        · exact absurd h not_throws_pure
        · exact ih ((EventLoop.waitNextEvent_sublist hwait).trans hsub) h

/-- **No busy wait**: the program ends with no exception but that of a descriptor in error, and
those of system calls that fail or do what they may not. -/
theorem copy_throws {socket input output : FileDescriptor}
    (h : Throws (bidirectionalStreamCopy answers socket input output) e) :
    e = pollError ∨ KernelFault e :=
  loop_throws (.refl _) h

/-- A socket that has been closed at its other end. -/
theorem copy_throws_brokenPipe :
    Throws (bidirectionalStreamCopy
        [.ready [{ pollIn := true }], .ready [{}, { pollOut := true }]]
        { writes := [fun _ => .error 32] } { reads := [fun _ => .ok [104, 105]] } {})
      (.unixError "writev" 32) ∧
    (.unixError "writev" 32 = pollError ∨ KernelFault (.unixError "writev" 32)) := by
  have hthrows : Throws (bidirectionalStreamCopy
      [.ready [{ pollIn := true }], .ready [{}, { pollOut := true }]]
      { writes := [fun _ => .error 32] } { reads := [fun _ => .ok [104, 105]] } {})
      (.unixError "writev" 32) := rfl
  exact ⟨hthrows, copy_throws hthrows⟩

end StreamCopy

end Sponge
