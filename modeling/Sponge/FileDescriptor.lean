import Sponge.Buffer
import Sponge.Lib.Call

/-!
# Sponge.FileDescriptor

File descriptors (`file_descriptor.hh`, `file_descriptor.cc`), the system calls
behind them (`SystemCall` in `util.cc`) and `Socket::shutdown`
(`socket.cc`).

What the kernel does is not up to the code, so every descriptor comes with the
answers its coming system calls will get, in their order, and with a record of
what has gone over it.  An answer may depend on how many bytes the call asks
for or offers.  A theorem about all descriptors is thus one about every kernel.
A call for which there is no answer left is one that blocks for ever.

`write` hands a list of views to the kernel, which takes as much as it likes;
the loop drops what was taken and tries again.  Whatever the kernel takes at a
time, it gets the string once and in order (`write_in_order`).
-/

namespace Sponge

/-- What the code throws, and what a failed system call throws. -/
inductive Failure where
  | exception (e : Exception)
  | unixError (attempt : String) (errno : Nat)
  deriving DecidableEq, Repr

/-- A call that throws exceptions of the code only. -/
def Call.ofExcept (x : Except Exception α) : Call Failure α :=
  ExceptT.mk (some (x.mapError Failure.exception))

@[simp] theorem returns_ofExcept_iff {x : Except Exception α} :
    Returns (Call.ofExcept x) a ↔ x = .ok a := by
  cases x with
  | ok b =>
      show some (Except.ok b) = some (.ok a) ↔ _
      simp
  | error e =>
      show some (Except.error (Failure.exception e)) = some (.ok a) ↔ _
      simp

/-- An exception is passed on. -/
theorem throws_ofExcept_iff {x : Except Exception α} :
    Throws (Call.ofExcept x) e ↔ ∃ e₀, x = .error e₀ ∧ .exception e₀ = e := by
  cases x with
  | ok b =>
      show some (Except.ok b) = some (.error e) ↔ _
      simp
  | error e₀ =>
      show some (Except.error (Failure.exception e₀)) = some (.error e) ↔ _
      simp

/-- The result of a system call, or the `errno` it left.  No caller passes a mask. -/
def systemCall (attempt : String) : Except Nat α → Call Failure α
  | .ok result => pure result
  | .error errno => throw (.unixError attempt errno)

@[simp] theorem returns_systemCall_iff {x : Except Nat α} :
    Returns (systemCall attempt x) a ↔ x = .ok a := by
  cases x <;> simp [systemCall]

/-- A call that fails becomes a `unix_error` with its name. -/
theorem throws_systemCall_iff {x : Except Nat α} :
    Throws (systemCall attempt x) e ↔ ∃ errno, x = .error errno ∧ .unixError attempt errno = e := by
  cases x <;> simp [systemCall]

theorem onlyThrows_ofExcept {F : Failure → Prop} {x : Except Exception α} (h : x = .ok a) :
    OnlyThrows F (Call.ofExcept x) := by
  intro e he
  obtain ⟨e₀, hx, -⟩ := throws_ofExcept_iff.mp he
  rw [h] at hx
  contradiction

/-- The exceptions whose cause is the kernel: a system call fails, or does what it may not. -/
inductive KernelFault : Failure → Prop
  | failed (attempt : String) (errno : Nat) : KernelFault (.unixError attempt errno)
  | readMore : KernelFault (.exception (.runtimeError "read() read more than requested"))
  | wroteNothing : KernelFault
      (.exception (.runtimeError "write returned 0 given non-empty input buffer"))
  | wroteMore : KernelFault
      (.exception (.runtimeError "write wrote more than length of input buffer"))
  | oversized : KernelFault (.exception (.runtimeError "recvfrom (oversized datagram)"))
  | sentLess : KernelFault (.exception (.runtimeError "datagram payload too big for sendmsg()"))

/-- A system call throws a fault of the kernel. -/
theorem onlyThrows_systemCall (attempt : String) (x : Except Nat α) :
    OnlyThrows KernelFault (systemCall attempt x) := by
  intro e he
  obtain ⟨errno, -, rfl⟩ := throws_systemCall_iff.mp he
  exact .failed attempt errno

/-! ## Descriptors -/

/-- The members of `FDWrapper` that the event loop looks at; the counts are
`unsigned`. -/
structure FDWrapper where
  eof : Bool := false
  closed : Bool := false
  readCount : UInt32 := 0
  writeCount : UInt32 := 0
  deriving DecidableEq, Repr

/-- A count that goes up by one changes. -/
theorem add_one_ne (n : UInt32) : n + 1 ≠ n := by
  rw [ne_eq, UInt32.add_eq_left]
  decide

/-- A descriptor with the kernel's side of it. -/
structure FileDescriptor extends FDWrapper where
  /-- What the coming calls to `read` return, given the number of bytes asked for. -/
  reads : List (Nat → Except Nat (List UInt8)) := []
  /-- What the coming calls to `writev` return, given the number of bytes offered. -/
  writes : List (Nat → Except Nat Nat) := []
  /-- The `errno`, if any, of the coming calls to `shutdown` and `close`. -/
  controls : List (Option Nat) := []
  /-- All bytes read so far. -/
  got : List UInt8 := []
  /-- What each call to `writev` has taken so far. -/
  put : List (List UInt8) := []

namespace BufferViewList

/-- What is not longer than the list can be taken off it. -/
theorem exists_removePrefix {l : BufferViewList} (h : n ≤ l.size) :
    ∃ rest, l.removePrefix n = .ok rest ∧ rest.flatten = l.flatten.drop n := by
  have hdrop := l.map_flatten_removePrefix n
  rw [if_pos (size_eq l ▸ h)] at hdrop
  cases hrest : l.removePrefix n with
  | error e => simp [hrest, Except.map] at hdrop
  | ok rest => exact ⟨rest, rfl, by simpa [hrest, Except.map] using hdrop⟩

end BufferViewList

namespace FileDescriptor

def registerRead (fd : FileDescriptor) : FileDescriptor :=
  { fd with readCount := fd.readCount + 1 }

def registerWrite (fd : FileDescriptor) : FileDescriptor :=
  { fd with writeCount := fd.writeCount + 1 }

/-- The most that one `read` asks for. -/
def BUFFER_SIZE : Nat := 1024 * 1024

/-- Sets `eof` when nothing came although something was asked for. -/
def read (fd : FileDescriptor) (limit : Nat) : Call Failure (List UInt8 × FileDescriptor) :=
  let sizeToRead := min BUFFER_SIZE limit
  match fd.reads with
  | [] => .outOfFuel
  | answer :: reads => do
      let data ← systemCall "read" (answer sizeToRead)
      let fd := { fd with reads := reads, got := fd.got ++ data }
      let fd := if limit > 0 && data.length == 0 then { fd with eof := true } else fd
      if data.length > sizeToRead then
        throw (.exception (.runtimeError "read() read more than requested"))
      else return (data, fd.registerRead)

/-- The loop of `write`, over the answers that are left. -/
def writeLoop (writeAll : Bool) : List (Nat → Except Nat Nat) → FileDescriptor → BufferViewList →
    Nat → Call Failure (Nat × FileDescriptor)
  | [], _, _, _ => .outOfFuel
  | answer :: writes, fd, buffer, totalBytesWritten => do
      let bytesWritten ← systemCall "writev" (answer buffer.size)
      if bytesWritten = 0 ∧ buffer.size ≠ 0 then
        throw (.exception (.runtimeError "write returned 0 given non-empty input buffer"))
      else if bytesWritten > buffer.size then
        throw (.exception (.runtimeError "write wrote more than length of input buffer"))
      else
        let fd := { fd with writes := writes, put := fd.put ++ [buffer.flatten.take bytesWritten] }
        let fd := fd.registerWrite
        let buffer ← Call.ofExcept (buffer.removePrefix bytesWritten)
        let totalBytesWritten := totalBytesWritten + bytesWritten
        if writeAll && buffer.size != 0 then writeLoop writeAll writes fd buffer totalBytesWritten
        else return (totalBytesWritten, fd)

/-- With `write_all`, until all is written; otherwise once. -/
def write (fd : FileDescriptor) (buffer : BufferViewList) (writeAll : Bool) :
    Call Failure (Nat × FileDescriptor) :=
  writeLoop writeAll fd.writes fd buffer 0

/-- A descriptor that is closed is at its end, too. -/
def close (fd : FileDescriptor) : Call Failure FileDescriptor :=
  match fd.controls with
  | [] => .outOfFuel
  | some errno :: _ => throw (.unixError "close" errno)
  | none :: controls => return { fd with controls := controls, eof := true, closed := true }

/-- The ways in which a socket is shut down. -/
inductive How where
  | SHUT_RD
  | SHUT_WR
  | SHUT_RDWR
  deriving DecidableEq, Repr

/-- `Socket::shutdown`. -/
def shutdown (fd : FileDescriptor) (how : How) : Call Failure FileDescriptor :=
  match fd.controls with
  | [] => .outOfFuel
  | some errno :: _ => throw (.unixError "shutdown" errno)
  | none :: controls =>
      let fd := { fd with controls := controls }
      match how with
      | .SHUT_RD => return fd.registerRead
      | .SHUT_WR => return fd.registerWrite
      | .SHUT_RDWR => return fd.registerRead.registerWrite

/-! ## One call -/

/-- The descriptor after a read that got `data`. -/
def received (fd : FileDescriptor) (limit : Nat) (data : List UInt8) : FileDescriptor :=
  { fd with
    reads := fd.reads.tail
    got := fd.got ++ data
    eof := fd.eof || decide (limit > 0 ∧ data = [])
    readCount := fd.readCount + 1 }

/-- What is read is the kernel's answer to the size asked for, and no longer than that. -/
theorem read_returns {fd fd' : FileDescriptor} (h : Returns (fd.read limit) (data, fd')) :
    (∃ answer ∈ fd.reads, answer (min BUFFER_SIZE limit) = .ok data) ∧
      data.length ≤ min BUFFER_SIZE limit ∧ fd' = fd.received limit data := by
  unfold read at h
  cases hreads : fd.reads with
  | nil =>
      simp only [hreads] at h
      exact absurd h not_returns_outOfFuel
  | cons answer reads =>
      simp only [hreads] at h
      obtain ⟨d, hd, h⟩ := returns_bind_iff.mp h
      rw [returns_systemCall_iff] at hd
      by_cases hmore : d.length > min BUFFER_SIZE limit
      · rw [if_pos hmore] at h
        exact absurd h not_returns_throw
      · rw [if_neg hmore, returns_pure_iff, Prod.mk.injEq] at h
        obtain ⟨rfl, rfl⟩ := h
        refine ⟨⟨answer, List.mem_cons_self, hd⟩, Nat.le_of_not_lt hmore, ?_⟩
        by_cases hend : limit > 0 ∧ d = []
        · simp [received, registerRead, hreads, hend]
        · have hcond : ¬ (decide (limit > 0) && d.length == 0) = true := by simpa using hend
          simp [received, registerRead, hreads, hend, hcond]

/-- What a read throws comes from the kernel. -/
theorem read_throws {fd : FileDescriptor} (h : Throws (fd.read limit) e) :
    (∃ errno, e = .unixError "read" errno) ∨
      e = .exception (.runtimeError "read() read more than requested") := by
  unfold read at h
  cases hreads : fd.reads with
  | nil =>
      simp only [hreads] at h
      exact absurd h not_throws_outOfFuel
  | cons answer reads =>
      simp only [hreads] at h
      rcases throws_bind_iff.mp h with hcall | ⟨d, -, h⟩
      · obtain ⟨errno, -, rfl⟩ := throws_systemCall_iff.mp hcall
        exact .inl ⟨errno, rfl⟩
      · by_cases hmore : d.length > min BUFFER_SIZE limit
        · rw [if_pos hmore, throws_throw_iff] at h
          exact .inr h.symm
        · rw [if_neg hmore] at h
          exact absurd h not_throws_pure

/-- To shut down the write side counts as a write. -/
theorem shutdown_returns {fd fd' : FileDescriptor} (h : Returns (fd.shutdown .SHUT_WR) fd') :
    fd' = { fd with controls := fd.controls.tail, writeCount := fd.writeCount + 1 } := by
  unfold shutdown at h
  split at h
  · exact absurd h not_returns_outOfFuel
  · exact absurd h not_returns_throw
  · next hcontrols =>
      rw [returns_pure_iff] at h
      rw [← h, hcontrols]
      rfl

/-- To close a descriptor does not count as a read or a write. -/
theorem close_returns {fd fd' : FileDescriptor} (h : Returns fd.close fd') :
    fd' = { fd with controls := fd.controls.tail, eof := true, closed := true } := by
  unfold close at h
  split at h
  · exact absurd h not_returns_outOfFuel
  · exact absurd h not_returns_throw
  · next hcontrols =>
      rw [returns_pure_iff] at h
      rw [← h, hcontrols]
      rfl

/-- The descriptor after writes that took `chunks`. -/
def took (fd : FileDescriptor) (chunks : List (List UInt8)) : FileDescriptor :=
  { fd with
    writes := fd.writes.drop chunks.length
    put := fd.put ++ chunks
    writeCount := fd.writeCount + UInt32.ofNat chunks.length }

/-- Chunks taken one after the other. -/
theorem took_took (fd : FileDescriptor) (chunks chunks' : List (List UInt8)) :
    (fd.took chunks).took chunks' = fd.took (chunks ++ chunks') := by
  simp [took, UInt32.add_assoc]

/-! ## The loop of `write` -/

/-- The calls to `writev` that a returning `write` of `bytes` makes take `chunks`. -/
structure Wrote (writeAll : Bool) (bytes : List UInt8) (total : Nat)
    (chunks : List (List UInt8)) : Prop where
  total_le : total ≤ bytes.length
  flatten_eq : chunks.flatten = bytes.take total
  ne_nil : chunks ≠ []
  all : writeAll = true → total = bytes.length
  one : writeAll = false → chunks.length = 1
  nonempty : bytes ≠ [] → ∀ chunk ∈ chunks, chunk ≠ []

/-- The kernel takes `n` of `size` bytes: some of them, if there are any. -/
def Takes (answer : Nat → Except Nat Nat) (size n : Nat) : Prop :=
  answer size = .ok n ∧ (n = 0 → size = 0) ∧ n ≤ size

/-- A turn of the loop in which the kernel takes something. -/
theorem writeLoop_cons {answer : Nat → Except Nat Nat} {buffer : BufferViewList}
    {fd : FileDescriptor} (writeAll : Bool) (total : Nat) (hfd : fd.writes = answer :: answers)
    (htakes : Takes answer buffer.size n) :
    ∃ rest : BufferViewList, rest.flatten = buffer.flatten.drop n ∧
      writeLoop writeAll (answer :: answers) fd buffer total =
        if writeAll && rest.size != 0 then
          writeLoop writeAll answers (fd.took [buffer.flatten.take n]) rest (total + n)
        else pure (total + n, fd.took [buffer.flatten.take n]) := by
  obtain ⟨hanswer, hpos, hle⟩ := htakes
  obtain ⟨rest, hrest, hflatten⟩ := BufferViewList.exists_removePrefix hle
  have hzero : ¬ (n = 0 ∧ buffer.size ≠ 0) := fun h => h.2 (hpos h.1)
  refine ⟨rest, hflatten, ?_⟩
  rw [writeLoop, hanswer, systemCall, pure_bind, if_neg hzero, if_neg (Nat.not_lt.mpr hle), hrest]
  show (if _ then _ else _) = _
  simp [took, registerWrite, hfd]

/-- The other turns throw. -/
theorem writeLoop_throws {answer : Nat → Except Nat Nat} {buffer : BufferViewList}
    (writeAll : Bool) (answers : List (Nat → Except Nat Nat)) (fd : FileDescriptor) (total : Nat)
    (h : ¬ ∃ n, Takes answer buffer.size n) :
    ∃ e, writeLoop writeAll (answer :: answers) fd buffer total = throw e ∧
      ((∃ errno, e = .unixError "writev" errno) ∨
        e = .exception (.runtimeError "write returned 0 given non-empty input buffer") ∨
        e = .exception (.runtimeError "write wrote more than length of input buffer")) := by
  rw [writeLoop]
  cases hanswer : answer buffer.size with
  | error errno => exact ⟨_, rfl, .inl ⟨errno, rfl⟩⟩
  | ok n =>
      rw [systemCall, pure_bind]
      by_cases hzero : n = 0 ∧ buffer.size ≠ 0
      · rw [if_pos hzero]
        exact ⟨_, rfl, .inr (.inl rfl)⟩
      · by_cases hmore : n > buffer.size
        · rw [if_neg hzero, if_pos hmore]
          exact ⟨_, rfl, .inr (.inr rfl)⟩
        · refine absurd ⟨n, hanswer, fun h0 => ?_, Nat.le_of_not_lt hmore⟩ h
          by_contra hne
          exact hzero ⟨h0, hne⟩

/-- One call to `writev`. -/
theorem wrote_once {bytes : List UInt8} (writeAll : Bool) (hpos : n = 0 → bytes.length = 0) (hle : n ≤ bytes.length)
    (hdone : writeAll = true → n = bytes.length) :
    Wrote writeAll bytes n [bytes.take n] where
  total_le := hle
  flatten_eq := by simp
  ne_nil := by simp
  all := hdone
  one := fun _ => rfl
  nonempty := by
    intro hbytes chunk hchunk
    rw [List.mem_singleton.mp hchunk, ne_eq, List.take_eq_nil_iff, not_or]
    exact ⟨fun h0 => hbytes (List.length_eq_zero_iff.mp (hpos h0)), hbytes⟩

/-- One call to `writev` before the others. -/
theorem Wrote.cons {bytes : List UInt8} (h : Wrote true (bytes.drop n) m chunks)
    (hpos : n = 0 → bytes.length = 0) (hle : n ≤ bytes.length) (hmore : bytes.drop n ≠ []) :
    Wrote true bytes (n + m) (bytes.take n :: chunks) where
  total_le := by
    have := h.total_le
    rw [List.length_drop] at this
    omega
  flatten_eq := by rw [List.flatten_cons, h.flatten_eq, List.take_add]
  ne_nil := by simp
  all := by
    intro hall
    have := h.all hall
    rw [List.length_drop] at this
    omega
  one := by simp
  nonempty := by
    intro hbytes
    have hfirst := (wrote_once false hpos hle (by simp)).nonempty hbytes
    exact List.forall_mem_cons.mpr ⟨hfirst _ List.mem_cons_self, h.nonempty hmore⟩

/-- **What a returning loop has done**, by induction on the answers. -/
theorem writeLoop_returns {fd fd' : FileDescriptor} {buffer : BufferViewList}
    (hfd : fd.writes = answers)
    (h : Returns (writeLoop writeAll answers fd buffer total) (total', fd')) :
    ∃ n chunks, total' = total + n ∧ fd' = fd.took chunks ∧
      Wrote writeAll buffer.flatten n chunks := by
  induction answers generalizing fd buffer total with
  | nil => exact absurd h not_returns_outOfFuel
  | cons answer answers ih =>
      by_cases htakes : ∃ n, Takes answer buffer.size n
      case neg =>
        obtain ⟨e, he, -⟩ := writeLoop_throws writeAll answers fd total htakes
        rw [he] at h
        exact absurd h not_returns_throw
      obtain ⟨n, htakes⟩ := htakes
      obtain ⟨rest, hrest, heq⟩ := writeLoop_cons writeAll total hfd htakes
      obtain ⟨-, hpos, hle⟩ := htakes
      rw [heq] at h
      rw [BufferViewList.size_eq] at hpos hle
      by_cases hmore : (writeAll && rest.size != 0) = true
      · rw [if_pos hmore] at h
        obtain ⟨rfl, hsize⟩ : writeAll = true ∧ rest.size ≠ 0 := by simpa using hmore
        have hne : buffer.flatten.drop n ≠ [] := by
          rw [BufferViewList.size_eq, hrest] at hsize
          exact fun hnil => hsize (by rw [hnil]; rfl)
        have hwrites : (fd.took [buffer.flatten.take n]).writes = answers := by simp [took, hfd]
        obtain ⟨m, chunks, rfl, rfl, hwrote⟩ := ih hwrites h
        rw [hrest] at hwrote
        refine ⟨n + m, _, by omega, ?_, hwrote.cons hpos hle hne⟩
        rw [took_took, List.singleton_append]
      · rw [if_neg hmore, returns_pure_iff, Prod.mk.injEq] at h
        obtain ⟨rfl, rfl⟩ := h
        refine ⟨n, _, rfl, rfl, wrote_once writeAll hpos hle fun hall => ?_⟩
        have hsize : rest.size = 0 := by simpa [hall] using hmore
        rw [BufferViewList.size_eq, hrest, List.length_drop] at hsize
        omega

/-- What a write throws comes from the kernel; there is always enough to remove. -/
theorem writeLoop_throws_cases {fd : FileDescriptor} {buffer : BufferViewList}
    (hfd : fd.writes = answers) (h : Throws (writeLoop writeAll answers fd buffer total) e) :
    (∃ errno, e = .unixError "writev" errno) ∨
      e = .exception (.runtimeError "write returned 0 given non-empty input buffer") ∨
      e = .exception (.runtimeError "write wrote more than length of input buffer") := by
  induction answers generalizing fd buffer total with
  | nil => exact absurd h not_throws_outOfFuel
  | cons answer answers ih =>
      by_cases htakes : ∃ n, Takes answer buffer.size n
      case neg =>
        obtain ⟨e', he, hcases⟩ := writeLoop_throws writeAll answers fd total htakes
        rw [he, throws_throw_iff] at h
        exact h ▸ hcases
      obtain ⟨n, htakes⟩ := htakes
      obtain ⟨rest, hrest, heq⟩ := writeLoop_cons writeAll total hfd htakes
      rw [heq] at h
      by_cases hmore : (writeAll && rest.size != 0) = true
      · rw [if_pos hmore] at h
        exact ih (by simp [took, hfd]) h
      · rw [if_neg hmore] at h
        exact absurd h not_throws_pure

/-- A kernel that takes at least one byte each time gets the loop to its end. -/
theorem exists_writeLoop_returns {fd : FileDescriptor} {buffer : BufferViewList}
    (hfd : fd.writes = answers) (htakes : ∀ answer ∈ answers, ∀ size, ∃ n, Takes answer size n)
    (hlen : max 1 buffer.size ≤ answers.length) :
    ∃ r, Returns (writeLoop writeAll answers fd buffer total) r := by
  induction answers generalizing fd buffer total with
  | nil => simp at hlen
  | cons answer answers ih =>
      obtain ⟨hfirst, hlater⟩ := List.forall_mem_cons.mp htakes
      obtain ⟨n, hn⟩ := hfirst buffer.size
      obtain ⟨rest, hrest, heq⟩ := writeLoop_cons writeAll total hfd hn
      obtain ⟨-, hpos, hle⟩ := hn
      rw [heq]
      by_cases hmore : (writeAll && rest.size != 0) = true
      · rw [if_pos hmore]
        have hsize : rest.size ≠ 0 := by simpa using (Bool.and_eq_true_iff.mp hmore).2
        rw [BufferViewList.size_eq] at hle hpos hlen hsize
        refine ih (by simp [took, hfd]) hlater ?_
        rw [List.length_cons] at hlen
        rw [BufferViewList.size_eq]
        rw [hrest, List.length_drop] at hsize ⊢
        omega
      · rw [if_neg hmore]
        exact ⟨_, returns_pure_iff.mpr rfl⟩

/-- What was written is the front of the buffer, chunk by chunk; with `write_all`, all of it. -/
theorem write_returns {fd fd' : FileDescriptor} {buffer : BufferViewList}
    (h : Returns (fd.write buffer writeAll) (total, fd')) :
    ∃ chunks, fd' = fd.took chunks ∧ Wrote writeAll buffer.flatten total chunks := by
  obtain ⟨n, chunks, hn, hfd', hwrote⟩ := writeLoop_returns rfl h
  rw [Nat.zero_add] at hn
  exact ⟨chunks, hfd', hn ▸ hwrote⟩

/-- The three exceptions of the loop. -/
theorem write_throws {fd : FileDescriptor} {buffer : BufferViewList}
    (h : Throws (fd.write buffer writeAll) e) : (∃ errno, e = .unixError "writev" errno) ∨
      e = .exception (.runtimeError "write returned 0 given non-empty input buffer") ∨
      e = .exception (.runtimeError "write wrote more than length of input buffer") :=
  writeLoop_throws_cases rfl h

/-- Only the kernel makes `read` throw. -/
theorem onlyThrows_read (fd : FileDescriptor) (limit : Nat) :
    OnlyThrows KernelFault (fd.read limit) := by
  intro e h
  rcases read_throws h with ⟨errno, rfl⟩ | rfl
  · exact .failed _ errno
  · exact .readMore

/-- Only the kernel makes `write` throw. -/
theorem onlyThrows_write (fd : FileDescriptor) (buffer : BufferViewList) (writeAll : Bool) :
    OnlyThrows KernelFault (fd.write buffer writeAll) := by
  intro e h
  rcases write_throws h with ⟨errno, rfl⟩ | rfl | rfl
  · exact .failed _ errno
  · exact .wroteNothing
  · exact .wroteMore

/-- Only the kernel makes `shutdown` throw. -/
theorem onlyThrows_shutdown (fd : FileDescriptor) (how : How) :
    OnlyThrows KernelFault (fd.shutdown how) := by
  unfold shutdown
  split
  · exact onlyThrows_outOfFuel
  · exact onlyThrows_throw_iff.mpr (.failed _ _)
  · cases how <;> exact onlyThrows_pure _

/-- Only the kernel makes `close` throw. -/
theorem onlyThrows_close (fd : FileDescriptor) : OnlyThrows KernelFault fd.close := by
  unfold close
  split
  · exact onlyThrows_outOfFuel
  · exact onlyThrows_throw_iff.mpr (.failed _ _)
  · exact onlyThrows_pure _

/-- **Partial writes**: however little the kernel takes at a time, a `write` that returns
has handed it a prefix of the string of the length that is returned, in order and
once, the whole string if `write_all` is set; every call to `writev` is counted
and all else is left alone.  `write` throws only what the kernel gives it cause
for, so `remove_prefix` never does; and it returns if the kernel takes something
whenever there is something to take. -/
theorem write_in_order (fd : FileDescriptor) (buffer : BufferViewList) (writeAll : Bool) :
    (∀ total fd', Returns (fd.write buffer writeAll) (total, fd') →
      ∃ chunks, fd' = { fd with
          put := fd.put ++ chunks
          writes := fd.writes.drop chunks.length
          writeCount := fd.writeCount + UInt32.ofNat chunks.length } ∧
        chunks.flatten = buffer.flatten.take total ∧ total ≤ buffer.size ∧
        (writeAll = true → total = buffer.size) ∧ (writeAll = false → chunks.length = 1)) ∧
    (∀ e, Throws (fd.write buffer writeAll) e → (∃ errno, e = .unixError "writev" errno) ∨
      e = .exception (.runtimeError "write returned 0 given non-empty input buffer") ∨
      e = .exception (.runtimeError "write wrote more than length of input buffer")) ∧
    ((∀ answer ∈ fd.writes, ∀ size, ∃ n, Takes answer size n) →
      max 1 buffer.size ≤ fd.writes.length → ∃ r, Returns (fd.write buffer writeAll) r) := by
  refine ⟨fun total fd' h => ?_, fun e h => write_throws h,
    fun htakes hlen => exists_writeLoop_returns rfl htakes hlen⟩
  obtain ⟨chunks, rfl, hwrote⟩ := write_returns h
  rw [BufferViewList.size_eq]
  exact ⟨chunks, rfl, hwrote.flatten_eq, hwrote.total_le, hwrote.all, hwrote.one⟩

/-- Five bytes in two views, to a kernel that takes at most three at a time. -/
theorem write_in_order_three :
    ∃ fd', Returns (write { writes := List.replicate 5 fun size => .ok (min 3 size) }
        [[1, 2], [3, 4, 5]] true) (5, fd') ∧ fd'.put.flatten = [1, 2, 3, 4, 5] := by
  obtain ⟨hreturns, -, hlive⟩ := write_in_order
    { writes := List.replicate 5 fun size => .ok (min 3 size) } [[1, 2], [3, 4, 5]] true
  obtain ⟨⟨total, fd'⟩, hr⟩ := hlive (by
    intro answer hanswer size
    rw [(List.mem_replicate.mp hanswer).2]
    exact ⟨min 3 size, rfl, by omega, by omega⟩) (by decide)
  obtain ⟨chunks, rfl, hflatten, -, htotal, -⟩ := hreturns total fd' hr
  obtain rfl : total = 5 := htotal rfl
  exact ⟨_, hr, hflatten⟩

end FileDescriptor

end Sponge
