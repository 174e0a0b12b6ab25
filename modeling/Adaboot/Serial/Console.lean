import Adaboot.Framing
import Adaboot.Image.Header
import Mathlib.Data.List.GetD
import Mathlib.Logic.Function.Iterate

/-!
# The serial console in raw mode

Interrupts store bytes in line buffers from a pool and queue them as fragments (`serial_adapter.c`).
`boot_serial_read_console` copies the fragments and hands out complete packets. Interrupts can come between any two
actions of the reader; behind `boot_serial_input` they can not be seen.
-/

namespace Adaboot.RawSerial

open Framing

/-- The options of the console. The bounds are the ranges in `Kconfig.serial_recovery`. -/
structure Build where
  /-- `CONFIG_BOOT_MAX_LINE_INPUT_LEN`. -/
  maxLineInputLen : Nat
  /-- `CONFIG_BOOT_LINE_BUFS`. -/
  numLineBufs : Nat
  /-- `MCUBOOT_SERIAL_MAX_RECEIVE_SIZE`. -/
  maxReceiveSize : Nat
  lineLen_pos : 0 < maxLineInputLen
  lineLen_le : maxLineInputLen ≤ maxReceiveSize
  receiveSize_le : maxReceiveSize ≤ 65535

/-- `sizeof(in_buf)`. -/
def Build.inBufSize (build : Build) : Nat := build.maxReceiveSize + 1

/-! ### The packets -/

/-- `sizeof(struct nmgr_hdr)`. -/
def nmgrHdrSize : Nat := 8

/-- `nh_op`, the low three bits of the first byte. -/
def nhOp (buf : Bytes) : Nat := (buf.getD 0 0).toNat % 8

/-- `nh_len`, in network byte order. -/
def nhLen (buf : Bytes) : Nat := (buf.getD 2 0).toNat * 256 + (buf.getD 3 0).toNat

def nmgrOpRead : Nat := 0
def nmgrOpWrite : Nat := 2

theorem nhOp_append {buf : Bytes} (long : nmgrHdrSize ≤ buf.length) (more : Bytes) : nhOp (buf ++ more) = nhOp buf := by
  unfold nmgrHdrSize at long
  rw [nhOp, nhOp, List.getD_append _ _ _ _ (by omega)]

theorem nhLen_append {buf : Bytes} (long : nmgrHdrSize ≤ buf.length) (more : Bytes) :
    nhLen (buf ++ more) = nhLen buf := by
  unfold nmgrHdrSize at long
  rw [nhLen, nhLen, List.getD_append _ _ _ _ (by omega), List.getD_append _ _ _ _ (by omega)]

/-- How `boot_serial_input_raw` recognises packets. -/
def rawFormat (maxInput : Nat) : Format UInt8 where
  header := nmgrHdrSize
  accepts buf := (nhOp buf == nmgrOpRead || nhOp buf == nmgrOpWrite) && nmgrHdrSize + nhLen buf ≤ maxInput
  size buf := nmgrHdrSize + nhLen buf
  header_pos := by decide
  header_le _ := Nat.le_add_right _ _
  accepts_append buf more long := by rw [nhOp_append long, nhLen_append long]
  size_append buf more long := by rw [nhLen_append long]

/-- `boot_serial_input_raw`: the packets for `boot_serial_input`, and what is left in the buffer. -/
def bootSerialInputRaw (maxInput : Nat) (buf : Bytes) : List Bytes × Bytes := (rawFormat maxInput).split buf.length buf

/-- A request that the receive buffer has room for. -/
structure Packet (build : Build) where
  bytes : Bytes
  op : nhOp bytes = nmgrOpRead ∨ nhOp bytes = nmgrOpWrite
  length_eq : bytes.length = nmgrHdrSize + nhLen bytes
  fits : bytes.length ≤ build.inBufSize

theorem Packet.isFrame {build : Build} (packet : Packet build) : (rawFormat build.inBufSize).IsFrame packet.bytes where
  accepted := by
    have fits := packet.length_eq ▸ packet.fits
    simpa [rawFormat, fits] using packet.op
  size_eq := packet.length_eq.symm

/-! ### The state -/

/-- `struct line_input`. -/
structure LineInput where
  len : Nat
  line : Nat → UInt8

/-- Before `console_read_raw` looks for bytes, before it copies them, and before `boot_serial_input_raw`. -/
inductive Reader where
  | fetch
  | copy
  | input
deriving DecidableEq, Repr

/-- The static variables of `serial_adapter.c` and of the reader. The buffers have numbers. -/
structure Console where
  lineBufs : Nat → LineInput
  availQueue : List Nat
  linesQueue : List Nat
  /-- `cmd` of the callback and `cur`. -/
  filling : Option Nat
  cur : Nat
  /-- `cmd` of `boot_uart_fifo_getline`. -/
  handedOut : Option Nat
  /-- The buffer and the offset that `pending` points to. -/
  pending : Nat × Nat
  pendingLen : Nat
  reader : Reader
  /-- The first `off` bytes of `in_buf`. -/
  inBuf : Bytes
  /-- What `boot_serial_input` was called with. -/
  calls : List Bytes

section Functions

variable (build : Build)

/-- The state that `boot_console_init` leaves. -/
def Console.init : Console where
  lineBufs _ := ⟨0, fun _ => 0⟩
  availQueue := List.range build.numLineBufs
  linesQueue := []
  filling := none
  cur := 0
  handedOut := none
  pending := (0, 0)
  pendingLen := 0
  reader := .fetch
  inBuf := []
  calls := []

/-- The buffer that the callback fills, taken from the pool when there is none. -/
def Console.takeBuffer (s : Console) : Option (Nat × Console) :=
  match s.filling with
  | some cmd => some (cmd, s)
  | none =>
    match s.availQueue with
    | [] => none
    | node :: rest => some (node, { s with availQueue := rest, filling := some node })

/-- `cmd->line[cur++] = byte`. -/
def Console.put (s : Console) (cmd : Nat) (byte : UInt8) : Console :=
  { s with
    lineBufs := Function.update s.lineBufs cmd
      { s.lineBufs cmd with line := Function.update (s.lineBufs cmd).line s.cur byte }
    cur := (s.cur + 1) % 2 ^ 16 }

def Console.deliver (s : Console) (cmd : Nat) : Console :=
  { s with
    lineBufs := Function.update s.lineBufs cmd { s.lineBufs cmd with len := s.cur }
    linesQueue := s.linesQueue ++ [cmd]
    cur := 0
    filling := none }

/-- One round of the callback, after it has read a byte; `none` when there is no buffer for it. -/
def Console.store (s : Console) (byte : UInt8) : Option Console :=
  s.takeBuffer.map fun taken =>
    let s := taken.2.put taken.1 byte
    if s.cur ≥ build.maxLineInputLen then s.deliver taken.1 else s

/-- The loop of the callback. With no buffer left it returns: the byte is lost and the others stay in the FIFO. -/
def callbackLoop : Bytes → Console → Console × Option Bytes
  | [], s => (s, none)
  | byte :: fifo, s =>
    match s.store build byte with
    | none => (s, some fifo)
    | some s => callbackLoop fifo s

/-- `boot_uart_fifo_callback`, with what it left in the FIFO if it ran out of buffers. -/
def bootUartFifoCallback (fifo : Bytes) (s : Console) : Console × Option Bytes :=
  match callbackLoop build fifo s with
  | (s, some left) => (s, some left)
  | (s, none) =>
    match s.filling with
    | some cmd => if 0 < s.cur then (s.deliver cmd, none) else (s, none)
    | none => (s, none)

/-- The pool with the buffer that `boot_uart_fifo_getline` returned the previous time. -/
def Console.recycled (s : Console) : List Nat :=
  match s.handedOut with
  | some cmd => if s.availQueue.getLast? ≠ some cmd then s.availQueue ++ [cmd] else s.availQueue
  | none => s.availQueue

/-- `boot_uart_fifo_getline`, which runs with interrupts locked. -/
def bootUartFifoGetline (s : Console) : Option Nat × Console :=
  match s.linesQueue with
  | [] => (none, { s with availQueue := s.recycled, handedOut := none })
  | node :: rest =>
    (some node, { s with availQueue := s.recycled, linesQueue := rest, handedOut := some node })

/-- The bytes that `pending` points to. -/
def Console.pendingBytes (s : Console) (n : Nat) : Bytes :=
  (List.range n).map fun i => (s.lineBufs s.pending.1).line (s.pending.2 + i)

/-- One action of the reader: `console_read_raw` up to the copy, the copy, and
`boot_serial_input_raw`. -/
def Console.read (s : Console) : Console :=
  match s.reader with
  | .fetch =>
    if s.pendingLen = 0 then
      match bootUartFifoGetline s with
      | (none, s) => s
      | (some node, s) =>
        { s with pending := (node, 0), pendingLen := (s.lineBufs node).len, reader := .copy }
    else { s with reader := .copy }
  | .copy =>
    let n := min s.pendingLen (build.inBufSize - s.inBuf.length)
    { s with
      inBuf := s.inBuf ++ s.pendingBytes n
      pending := (s.pending.1, s.pending.2 + n)
      pendingLen := s.pendingLen - n
      reader := .input }
  | .input =>
    let dispatched := bootSerialInputRaw build.inBufSize s.inBuf
    { s with calls := s.calls ++ dispatched.1, inBuf := dispatched.2, reader := .fetch }

/-- What can happen: an interrupt that finds bytes in the FIFO, or an action of the reader. -/
inductive Step where
  | interrupt (fifo : Bytes)
  | reader

/-- A run of interrupts and actions; `none` once an interrupt found no buffer for a byte. -/
def Console.run (s : Console) : List Step → Option Console
  | [] => some s
  | .interrupt fifo :: steps =>
    match bootUartFifoCallback build fifo s with
    | (_, some _) => none
    | (s, none) => s.run steps
  | .reader :: steps => (s.read build).run steps

def received : List Step → Bytes
  | [] => []
  | .interrupt fifo :: steps => fifo ++ received steps
  | .reader :: steps => received steps

end Functions

/-! ### The bytes between the interrupt and the reader -/

section Waiting

def Console.fragment (s : Console) (node : Nat) : Bytes := (List.range (s.lineBufs node).len).map (s.lineBufs node).line

def Console.filled (s : Console) : Bytes :=
  match s.filling with
  | none => []
  | some cmd => (List.range s.cur).map (s.lineBufs cmd).line

/-- The bytes that have arrived and are not in the receive buffer yet, in their order. -/
def Console.waiting (s : Console) : Bytes := s.pendingBytes s.pendingLen ++ s.linesQueue.flatMap s.fragment ++ s.filled

/-- Every buffer is in one place, and the reader only looks at the one it was handed. -/
structure Console.Owned (s : Console) : Prop where
  nodup : (s.availQueue ++ s.linesQueue ++ s.handedOut.toList ++ s.filling.toList).Nodup
  pending : 0 < s.pendingLen → s.handedOut = some s.pending.1
  cur_zero : s.filling = none → s.cur = 0

/-- The reader's own variables are as before, and the bytes are queued behind the others. -/
structure Console.Queues (s s' : Console) (bytes : Bytes) : Prop where
  waiting : s'.waiting = s.waiting ++ bytes
  reader : s'.reader = s.reader
  inBuf : s'.inBuf = s.inBuf
  calls : s'.calls = s.calls

variable {build : Build} {s s' : Console} {cmd : Nat}

theorem Console.Queues.trans {s'' : Console} {bytes bytes' : Bytes} (first : s.Queues s' bytes)
    (second : s'.Queues s'' bytes') : s.Queues s'' (bytes ++ bytes') where
  waiting := by rw [second.waiting, first.waiting, List.append_assoc]
  reader := second.reader.trans first.reader
  inBuf := second.inBuf.trans first.inBuf
  calls := second.calls.trans first.calls

theorem Console.Owned.apart (owned : s.Owned) (filling : s.filling = some cmd) :
    cmd ∉ s.linesQueue ∧ (0 < s.pendingLen → s.pending.1 ≠ cmd) := by
  have nodup := owned.nodup
  rw [filling, Option.toList_some, List.nodup_append] at nodup
  have elsewhere : ∀ node ∈ s.availQueue ++ s.linesQueue ++ s.handedOut.toList, node ≠ cmd :=
    fun node mem => nodup.2.2 node mem cmd List.mem_cons_self
  constructor
  · intro queued
    exact elsewhere cmd (by simp [queued]) rfl
  · intro waits
    exact elsewhere s.pending.1 (by simp [owned.pending waits])

theorem Console.takeBuffer_spec (owned : s.Owned) (taken : s.takeBuffer = some (cmd, s')) :
    s'.Owned ∧ s'.filling = some cmd ∧ s'.cur = s.cur ∧ s.Queues s' [] := by
  unfold Console.takeBuffer at taken
  cases filling : s.filling with
  | some node =>
    rw [filling] at taken
    cases taken
    exact ⟨owned, filling, rfl, by simp, rfl, rfl, rfl⟩
  | none =>
    cases avail : s.availQueue with
    | nil => simp [filling, avail] at taken
    | cons node rest =>
      rw [filling, avail] at taken
      cases taken
      have cur := owned.cur_zero filling
      refine ⟨⟨?_, owned.pending, by simp⟩, rfl, rfl, ?_, rfl, rfl, rfl⟩
      · have nodup := owned.nodup
        rw [filling, avail] at nodup
        refine (List.Perm.nodup_iff ?_).mp nodup
        simpa using (List.perm_append_singleton cmd (rest ++ s.linesQueue ++ s.handedOut.toList)).symm
      · simp only [Console.waiting, Console.filled, filling, cur, List.range_zero, List.map_nil, List.append_nil]
        rfl

theorem Console.put_spec (owned : s.Owned) (filling : s.filling = some cmd) (small : s.cur + 1 < 2 ^ 16)
    (byte : UInt8) : (s.put cmd byte).Owned ∧ (s.put cmd byte).filling = some cmd ∧ (s.put cmd byte).cur = s.cur + 1 ∧
      s.Queues (s.put cmd byte) [byte] := by
  obtain ⟨unqueued, unread⟩ := owned.apart filling
  have cur : (s.put cmd byte).cur = s.cur + 1 := Nat.mod_eq_of_lt small
  refine ⟨⟨owned.nodup, owned.pending, fun none => ?_⟩, filling, cur, ?_, rfl, rfl, rfl⟩
  · rw [show (s.put cmd byte).filling = some cmd from filling] at none
    exact absurd none (by simp)
  · -- what is queued or being read is in other buffers
    have pending : (s.put cmd byte).pendingBytes s.pendingLen = s.pendingBytes s.pendingLen := by
      apply List.map_congr_left
      intro i mem
      have waits : 0 < s.pendingLen := by have := List.mem_range.mp mem; omega
      simp [Console.put, Function.update_of_ne (unread waits)]
    have queued : s.linesQueue.flatMap (s.put cmd byte).fragment = s.linesQueue.flatMap s.fragment := by
      apply List.flatMap_congr
      intro node mem
      have ne : node ≠ cmd := fun eq => unqueued (eq ▸ mem)
      simp [Console.fragment, Console.put, Function.update_of_ne ne]
    have filled : (s.put cmd byte).filled = s.filled ++ [byte] := by
      rw [Console.filled, show (s.put cmd byte).filling = some cmd from filling, cur, Console.filled, filling]
      dsimp only
      rw [List.range_succ, List.map_append]
      congr 1
      · apply List.map_congr_left
        intro i mem
        have ne : i ≠ s.cur := by have := List.mem_range.mp mem; omega
        simp [Console.put, Function.update_of_ne ne]
      · simp [Console.put]
    rw [Console.waiting, show (s.put cmd byte).pendingLen = s.pendingLen from rfl, pending,
      show (s.put cmd byte).linesQueue = s.linesQueue from rfl, queued, filled, ← List.append_assoc]
    rfl

theorem Console.deliver_spec (owned : s.Owned) (filling : s.filling = some cmd) :
    (s.deliver cmd).Owned ∧ s.Queues (s.deliver cmd) [] := by
  obtain ⟨unqueued, -⟩ := owned.apart filling
  refine ⟨⟨?_, owned.pending, fun _ => rfl⟩, ?_, rfl, rfl, rfl⟩
  · have nodup := owned.nodup
    rw [filling] at nodup
    refine (List.Perm.nodup_iff ?_).mp nodup
    simp only [Console.deliver, Option.toList_some, Option.toList_none, List.append_nil, List.append_assoc]
    exact (List.perm_append_comm.append_left _).append_left _
  · have pending : (s.deliver cmd).pendingBytes s.pendingLen = s.pendingBytes s.pendingLen := by
      apply List.map_congr_left
      by_cases eq : s.pending.1 = cmd
      · simp [Console.deliver, eq]
      · simp [Console.deliver, Function.update_of_ne eq]
    have queued : s.linesQueue.flatMap (s.deliver cmd).fragment = s.linesQueue.flatMap s.fragment := by
      apply List.flatMap_congr
      intro node mem
      have ne : node ≠ cmd := fun eq => unqueued (eq ▸ mem)
      simp [Console.fragment, Console.deliver, Function.update_of_ne ne]
    have last : (s.deliver cmd).fragment cmd = s.filled := by
      simp [Console.fragment, Console.deliver, Console.filled, filling]
    rw [Console.waiting, show (s.deliver cmd).pendingLen = s.pendingLen from rfl, pending,
      show (s.deliver cmd).linesQueue = s.linesQueue ++ [cmd] from rfl, List.flatMap_append, queued,
      List.flatMap_singleton, last, show (s.deliver cmd).filled = [] from rfl, Console.waiting]
    simp

/-- Between two rounds a buffer that is being filled holds a byte and has room for another. -/
structure Console.Filling (build : Build) (s : Console) : Prop where
  owned : s.Owned
  room : s.cur < build.maxLineInputLen
  pos : s.filling ≠ none → 0 < s.cur

theorem Console.Filling.store {byte : UInt8} (filling : s.Filling build) (stored : s.store build byte = some s') :
    s'.Filling build ∧ s.Queues s' [byte] := by
  have room := filling.room
  have small := build.lineLen_le
  have small' := build.receiveSize_le
  obtain ⟨⟨cmd, t⟩, taken, rfl⟩ := Option.map_eq_some_iff.mp stored
  obtain ⟨owned, filling, cur, queues⟩ := takeBuffer_spec filling.owned taken
  obtain ⟨owned', filling', cur', queues'⟩ := put_spec owned filling (by omega) byte
  dsimp only
  split
  next full =>
    obtain ⟨owned'', queues''⟩ := deliver_spec owned' filling'
    exact ⟨⟨owned'', build.lineLen_pos, fun some => absurd rfl some⟩,
      by simpa using (queues.trans queues').trans queues''⟩
  next space => exact ⟨⟨owned', by omega, fun _ => by omega⟩, by simpa using queues.trans queues'⟩

theorem Console.Filling.loop {fifo : Bytes} (filling : s.Filling build)
    (drained : callbackLoop build fifo s = (s', none)) : s'.Filling build ∧ s.Queues s' fifo := by
  induction fifo generalizing s with
  | nil =>
    cases drained
    exact ⟨filling, by simp, rfl, rfl, rfl⟩
  | cons byte fifo ih =>
    rw [callbackLoop] at drained
    cases stored : s.store build byte with
    | none => simp [stored] at drained
    | some t =>
      rw [stored] at drained
      obtain ⟨filling, queues⟩ := filling.store stored
      obtain ⟨filling, queues'⟩ := ih filling drained
      exact ⟨filling, queues.trans queues'⟩

theorem bootUartFifoCallback_spec {fifo : Bytes} (owned : s.Owned) (idle : s.filling = none)
    (drained : bootUartFifoCallback build fifo s = (s', none)) : s'.Owned ∧ s'.filling = none ∧ s.Queues s' fifo := by
  have start : s.Filling build :=
    ⟨owned, by rw [owned.cur_zero idle]; exact build.lineLen_pos, fun some => absurd idle some⟩
  unfold bootUartFifoCallback at drained
  rcases looped : callbackLoop build fifo s with ⟨t, left⟩
  rw [looped] at drained
  cases left with
  | some left => simp at drained
  | none =>
    obtain ⟨ended, queues⟩ := start.loop looped
    dsimp only at drained
    cases filling : t.filling with
    | none =>
      rw [filling] at drained
      cases drained
      exact ⟨ended.owned, filling, queues⟩
    | some cmd =>
      -- the last bytes are delivered as a fragment of their own
      have pos : 0 < t.cur := ended.pos (by simp [filling])
      rw [filling] at drained
      dsimp only at drained
      rw [if_pos pos] at drained
      cases drained
      obtain ⟨owned', queues'⟩ := Console.deliver_spec ended.owned filling
      exact ⟨owned', rfl, by simpa using queues.trans queues'⟩

end Waiting

/-! ### The reader -/

section Reader

variable {build : Build} {s : Console}

theorem Console.Owned.recycled_eq (owned : s.Owned) : s.recycled = s.availQueue ++ s.handedOut.toList := by
  unfold Console.recycled
  cases handed : s.handedOut with
  | none => simp
  | some cmd =>
    have nodup := owned.nodup
    rw [handed, List.append_assoc, List.append_assoc, List.nodup_append] at nodup
    have elsewhere : cmd ∉ s.availQueue := fun mem => nodup.2.2 cmd mem cmd (by simp) rfl
    have last : s.availQueue.getLast? ≠ some cmd := fun last => elsewhere (List.mem_of_getLast? last)
    simp [last]

theorem Console.read_empty (fetching : s.reader = .fetch) (drained : s.pendingLen = 0) (queue : s.linesQueue = []) :
    s.read build = { s with availQueue := s.recycled, handedOut := none } := by
  simp [Console.read, fetching, drained, bootUartFifoGetline, queue]

theorem Console.read_next {node : Nat} {rest : List Nat} (fetching : s.reader = .fetch) (drained : s.pendingLen = 0)
    (queue : s.linesQueue = node :: rest) : s.read build =
      { s with
        availQueue := s.recycled
        linesQueue := rest
        handedOut := some node
        pending := (node, 0)
        pendingLen := (s.lineBufs node).len
        reader := .copy } := by
  simp [Console.read, fetching, drained, bootUartFifoGetline, queue]

theorem Console.read_pending (fetching : s.reader = .fetch) (waits : 0 < s.pendingLen) :
    s.read build = { s with reader := .copy } := by
  simp [Console.read, fetching, Nat.ne_of_gt waits]

def Console.copied (build : Build) (s : Console) : Nat := min s.pendingLen (build.inBufSize - s.inBuf.length)

theorem Console.read_copy (copying : s.reader = .copy) : s.read build = { s with
        inBuf := s.inBuf ++ s.pendingBytes (s.copied build)
        pending := (s.pending.1, s.pending.2 + s.copied build)
        pendingLen := s.pendingLen - s.copied build
        reader := .input } := by
  simp [Console.read, copying, Console.copied]

theorem Console.read_input {frames : List Bytes} {rest : Bytes} (dispatching : s.reader = .input)
    (dispatched : bootSerialInputRaw build.inBufSize s.inBuf = (frames, rest)) :
    s.read build = { s with calls := s.calls ++ frames, inBuf := rest, reader := .fetch } := by
  simp [Console.read, dispatching, dispatched]

theorem Console.pendingBytes_split {n : Nat} (le : n ≤ s.pendingLen) : s.pendingBytes s.pendingLen = s.pendingBytes n ++
      (List.range (s.pendingLen - n)).map fun i => (s.lineBufs s.pending.1).line (s.pending.2 + n + i) := by
  obtain ⟨k, eq⟩ : ∃ k, s.pendingLen = n + k := ⟨s.pendingLen - n, by omega⟩
  rw [Console.pendingBytes, Console.pendingBytes, eq, List.range_add, List.map_append, List.map_map,
    Nat.add_sub_cancel_left]
  simp [Function.comp_def, Nat.add_assoc]

/-- Between the receive buffer and the queue no byte is lost until packets are dispatched. -/
theorem Console.Owned.read (build : Build) (owned : s.Owned) (idle : s.filling = none) :
    (s.read build).Owned ∧ (s.read build).filling = none ∧ (s.reader ≠ .input → (s.read build).calls = s.calls ∧
        (s.read build).inBuf ++ (s.read build).waiting = s.inBuf ++ s.waiting) := by
  have nodup := owned.nodup
  cases at_ : s.reader with
  | fetch =>
    rcases Nat.eq_zero_or_pos s.pendingLen with drained | waits
    · cases queue : s.linesQueue with
      | nil =>
        rw [read_empty at_ drained queue, owned.recycled_eq]
        refine ⟨⟨by simpa [idle, queue] using nodup, fun waits => ?_, owned.cur_zero⟩, idle, fun _ => ⟨rfl, rfl⟩⟩
        exact absurd drained (Nat.ne_of_gt waits)
      | cons node rest =>
        rw [read_next at_ drained queue, owned.recycled_eq]
        rw [queue] at nodup
        refine ⟨⟨?_, fun _ => rfl, owned.cur_zero⟩, idle, fun _ => ⟨rfl, ?_⟩⟩
        · refine (List.Perm.nodup_iff ?_).mp nodup
          simp only [idle, Option.toList_none, Option.toList_some, List.append_nil, List.append_assoc]
          have moved : (node :: rest ++ s.handedOut.toList).Perm (s.handedOut.toList ++ (rest ++ [node])) :=
            List.perm_append_comm.trans ((List.perm_append_singleton node rest).symm.append_left _)
          exact moved.append_left _
        · simp only [Console.waiting, Console.filled, idle, queue, drained, Console.pendingBytes, List.flatMap_cons,
            List.range_zero, List.map_nil, List.nil_append, Nat.zero_add]
          rfl
    · rw [read_pending at_ waits]
      exact ⟨⟨owned.nodup, owned.pending, owned.cur_zero⟩, idle, fun _ => ⟨rfl, rfl⟩⟩
  | copy =>
    have le : s.copied build ≤ s.pendingLen := Nat.min_le_left _ _
    rw [read_copy at_]
    refine ⟨⟨owned.nodup, fun waits => owned.pending (by dsimp only at waits; omega), owned.cur_zero⟩, idle,
      fun _ => ⟨rfl, ?_⟩⟩
    simp only [Console.waiting, Console.filled, idle, pendingBytes_split le, List.append_assoc]
    rfl
  | input =>
    rw [read_input at_ rfl]
    exact ⟨⟨owned.nodup, owned.pending, owned.cur_zero⟩, idle, fun ne => absurd rfl ne⟩

theorem Console.read_fetch (build : Build) (fetching : s.reader = .fetch) :
    (s.read build).inBuf = s.inBuf ∧ (s.read build).reader ≠ .input := by
  rcases Nat.eq_zero_or_pos s.pendingLen with drained | waits
  · cases queue : s.linesQueue with
    | nil => rw [read_empty fetching drained queue]; exact ⟨rfl, by simp [fetching]⟩
    | cons node rest => rw [read_next fetching drained queue]; exact ⟨rfl, by simp⟩
  · rw [read_pending fetching waits]
    exact ⟨rfl, by simp⟩

theorem Console.length_read_copy (copying : s.reader = .copy) :
    (s.read build).inBuf.length = s.inBuf.length + s.copied build := by
  simp [read_copy copying, Console.pendingBytes]

end Reader

/-! ### Delivery -/

def stream {build : Build} (packets : List (Packet build)) : Bytes := (packets.map Packet.bytes).flatten

/-- The first packets have been dispatched, and what has arrived behind them is in the receive buffer or waits. -/
structure Delivering {build : Build} (packets : List (Packet build)) (arrived : Bytes) (s : Console) : Prop where
  owned : s.Owned
  idle : s.filling = none
  room : s.inBuf.length ≤ build.inBufSize
  sent : ∃ todo, packets.map Packet.bytes = s.calls ++ todo ∧ s.calls.flatten ++ (s.inBuf ++ s.waiting) = arrived ∧
    (s.reader ≠ .input → ∀ next ∈ todo.head?, s.inBuf.length < next.length)

section Delivery

variable {build : Build} {packets : List (Packet build)} {arrived : Bytes} {s s' : Console}

theorem delivering_init (packets : List (Packet build)) : Delivering packets [] (.init build) where
  owned := ⟨by simpa [Console.init] using List.nodup_range, fun waits => absurd waits (Nat.lt_irrefl 0), fun _ => rfl⟩
  idle := rfl
  room := Nat.zero_le _
  sent := by
    refine ⟨packets.map Packet.bytes, rfl, rfl, ?_⟩
    intro _ next first
    obtain ⟨packet, -, rfl⟩ := List.mem_map.mp (List.mem_of_mem_head? first)
    rw [packet.length_eq]
    exact Nat.lt_of_lt_of_le (by decide : 0 < nmgrHdrSize) (Nat.le_add_right _ _)

variable (delivering : Delivering packets arrived s)
include delivering

theorem Delivering.interrupt {fifo : Bytes}
    (drained : bootUartFifoCallback build fifo s = (s', none)) : Delivering packets (arrived ++ fifo) s' := by
  obtain ⟨owned, idle, queues⟩ := bootUartFifoCallback_spec delivering.owned delivering.idle drained
  obtain ⟨todo, packets_eq, arrived_eq, incomplete⟩ := delivering.sent
  refine ⟨owned, idle, queues.inBuf ▸ delivering.room, todo, ?_, ?_, ?_⟩
  · rw [queues.calls, packets_eq]
  · rw [queues.calls, queues.inBuf, queues.waiting, ← arrived_eq]
    simp
  · rw [queues.reader, queues.inBuf]
    exact incomplete

theorem Delivering.starts (fits : arrived <+: stream packets) :
    ∃ todo, packets.map Packet.bytes = s.calls ++ todo ∧ s.calls.flatten ++ (s.inBuf ++ s.waiting) = arrived ∧
      (s.inBuf ++ s.waiting <+: todo.flatten) ∧
      (s.reader ≠ .input → ∀ next ∈ todo.head?, s.inBuf.length < next.length) := by
  obtain ⟨todo, packets_eq, arrived_eq, incomplete⟩ := delivering.sent
  refine ⟨todo, packets_eq, arrived_eq, ?_, incomplete⟩
  rwa [stream, packets_eq, List.flatten_append, ← arrived_eq, List.prefix_append_right_inj] at fits

/-- Each action of the reader keeps the order of the bytes and dispatches whole packets only. -/
theorem Delivering.read (fits : arrived <+: stream packets) :
    Delivering packets arrived (s.read build) := by
  obtain ⟨owned, idle, kept⟩ := delivering.owned.read build delivering.idle
  have room := delivering.room
  obtain ⟨todo, packets_eq, arrived_eq, start, incomplete⟩ := delivering.starts fits
  cases at_ : s.reader with
  | fetch =>
    obtain ⟨calls, bytes⟩ := kept (by simp [at_])
    obtain ⟨inBuf, -⟩ := Console.read_fetch build at_
    refine ⟨owned, idle, inBuf ▸ room, todo, ?_, ?_, ?_⟩
    · rw [calls, packets_eq]
    · rw [calls, bytes, arrived_eq]
    · intro _
      rw [inBuf]
      exact incomplete (by simp [at_])
  | copy =>
    obtain ⟨calls, bytes⟩ := kept (by simp [at_])
    have copied : s.copied build ≤ build.inBufSize - s.inBuf.length := Nat.min_le_right _ _
    refine ⟨owned, idle, ?_, todo, ?_, ?_, ?_⟩
    · rw [Console.length_read_copy at_]
      omega
    · rw [calls, packets_eq]
    · rw [calls, bytes, arrived_eq]
    · rw [Console.read_copy at_]
      exact fun ne => absurd rfl ne
  | input =>
    have whole : ∀ frame ∈ todo, (rawFormat build.inBufSize).IsFrame frame := by
      intro frame mem
      have sent : frame ∈ packets.map Packet.bytes := packets_eq ▸ List.mem_append_right _ mem
      obtain ⟨packet, -, rfl⟩ := List.mem_map.mp sent
      exact packet.isFrame
    obtain ⟨done, todo', rest, rfl, dispatched, inBuf_eq, short⟩ :=
      Format.split_of_start whole ((List.prefix_append _ _).trans start) (Nat.le_refl s.inBuf.length)
    rw [Console.read_input at_ dispatched] at owned ⊢
    refine ⟨owned, delivering.idle, ?_, todo', ?_, ?_, fun _ => short.incomplete⟩
    · rw [inBuf_eq, List.length_append] at room
      exact Nat.le_trans (Nat.le_add_left _ _) room
    · rw [packets_eq, List.append_assoc]
    · rw [← arrived_eq, inBuf_eq, List.flatten_append]
      simp only [List.append_assoc]
      rfl

theorem Delivering.run {steps : List Step}
    (fits : arrived ++ received steps <+: stream packets) (ran : s.run build steps = some s') :
    Delivering packets (arrived ++ received steps) s' := by
  induction steps generalizing arrived s with
  | nil =>
    cases ran
    simpa [received] using delivering
  | cons step steps ih =>
    cases step with
    | interrupt fifo =>
      rw [received, ← List.append_assoc] at fits ⊢
      rw [Console.run] at ran
      rcases called : bootUartFifoCallback build fifo s with ⟨t, left⟩
      rw [called] at ran
      cases left with
      | some left => simp at ran
      | none => exact ih (delivering.interrupt called) fits ran
    | reader =>
      have before : arrived <+: stream packets := (List.prefix_append _ _).trans fits
      exact ih (delivering.read before) fits ran

omit delivering

/-! ### Progress -/

/-- The reader has nothing to do. -/
structure Console.Quiet (s : Console) : Prop where
  fetching : s.reader = .fetch
  drained : s.pendingLen = 0
  queue : s.linesQueue = []

theorem Console.Quiet.read (quiet : s.Quiet) : (s.read build).Quiet := by
  rw [read_empty quiet.fetching quiet.drained quiet.queue]
  exact ⟨quiet.fetching, quiet.drained, quiet.queue⟩

theorem Delivering.calls_eq (delivering : Delivering packets (stream packets) s) (quiet : s.Quiet) :
    s.calls = packets.map Packet.bytes := by
  obtain ⟨todo, packets_eq, arrived_eq, incomplete⟩ := delivering.sent
  have nothing : s.waiting = [] := by
    simp [Console.waiting, Console.filled, Console.pendingBytes, quiet.drained, quiet.queue, delivering.idle]
  have left : s.inBuf = todo.flatten := by
    rw [nothing, List.append_nil, stream, packets_eq, List.flatten_append] at arrived_eq
    exact List.append_cancel_left arrived_eq
  cases todo with
  | nil => rw [packets_eq, List.append_nil]
  | cons next rest =>
    -- the buffer would hold the next packet completely
    have short := incomplete (by simp [quiet.fetching]) next rfl
    rw [left, List.flatten_cons, List.length_append] at short
    omega

def Console.backlog (s : Console) : Nat := s.linesQueue.length + s.waiting.length

theorem Delivering.copies (delivering : Delivering packets arrived s) (fits : arrived <+: stream packets)
    (waits : 0 < s.pendingLen) (reading : s.reader ≠ .input) : 0 < s.copied build := by
  obtain ⟨todo, packets_eq, -, start, incomplete⟩ := delivering.starts fits
  have long : 0 < s.waiting.length := by
    simp only [Console.waiting, List.length_append, Console.pendingBytes, List.length_map, List.length_range]
    omega
  cases todo with
  | nil =>
    have nothing : s.inBuf ++ s.waiting = [] := by simpa using start
    rw [(List.append_eq_nil_iff.mp nothing).2] at long
    exact absurd long (Nat.lt_irrefl 0)
  | cons next rest =>
    have short := incomplete reading next rfl
    have sent : next ∈ packets.map Packet.bytes := packets_eq ▸ List.mem_append_right _ List.mem_cons_self
    obtain ⟨packet, -, rfl⟩ := List.mem_map.mp sent
    have fits := packet.fits
    unfold Console.copied
    omega

theorem Delivering.backlog_copy (delivering : Delivering packets arrived s) (copying : s.reader = .copy) :
    (s.read build).backlog + s.copied build = s.backlog ∧ (s.read build).reader = .input := by
  have kept := ((delivering.owned.read build delivering.idle).2.2 (by simp [copying])).2
  have length := congrArg List.length kept
  rw [List.length_append, List.length_append, Console.length_read_copy copying] at length
  have queue : (s.read build).linesQueue = s.linesQueue := by rw [Console.read_copy copying]
  refine ⟨?_, by rw [Console.read_copy copying]⟩
  rw [Console.backlog, Console.backlog, queue]
  omega

theorem Console.backlog_input (build : Build) (dispatching : s.reader = .input) :
    (s.read build).backlog = s.backlog ∧ (s.read build).reader = .fetch := by
  rw [read_input dispatching rfl]
  exact ⟨rfl, rfl⟩

variable (delivering : Delivering packets arrived s)
include delivering

theorem Delivering.fetches (fetching : s.reader = .fetch) :
    s.Quiet ∨ (s.read build).reader = .copy ∧
      ((s.read build).backlog < s.backlog ∨ (s.read build).backlog = s.backlog ∧ 0 < (s.read build).pendingLen) := by
  have kept := ((delivering.owned.read build delivering.idle).2.2 (by simp [fetching])).2
  rw [(Console.read_fetch build fetching).1] at kept
  have waiting := List.append_cancel_left kept
  rcases Nat.eq_zero_or_pos s.pendingLen with drained | waits
  · cases queue : s.linesQueue with
    | nil => exact .inl ⟨fetching, drained, queue⟩
    | cons node rest =>
      have shorter : (s.read build).linesQueue = rest := by rw [Console.read_next fetching drained queue]
      refine .inr ⟨by rw [Console.read_next fetching drained queue], .inl ?_⟩
      rw [Console.backlog, Console.backlog, waiting, shorter, queue, List.length_cons]
      omega
  · refine .inr ⟨by rw [Console.read_pending fetching waits], .inr ⟨?_, ?_⟩⟩
    · rw [Console.read_pending fetching waits]
      rfl
    · rw [Console.read_pending fetching waits]
      exact waits

/-- In three actions a reader that has something to do takes a fragment or a byte. -/
theorem Delivering.round (fits : arrived <+: stream packets)
    (fetching : s.reader = .fetch) (busy : ¬s.Quiet) :
    ∃ t, t = ((s.read build).read build).read build ∧ Delivering packets arrived t ∧ t.reader = .fetch ∧
      t.backlog < s.backlog := by
  obtain ⟨copying, less⟩ := (delivering.fetches fetching).resolve_left busy
  have first := delivering.read fits
  have second := first.read fits
  obtain ⟨copied, dispatching⟩ := first.backlog_copy copying
  obtain ⟨same, fetching'⟩ := Console.backlog_input build dispatching
  refine ⟨_, rfl, second.read fits, fetching', ?_⟩
  rcases less with less | ⟨equal, waits⟩
  · omega
  · have some_copied := first.copies fits waits (by simp [copying])
    omega

/-- A reader that is left alone comes to have nothing to do. -/
theorem Delivering.becomes_quiet (fits : arrived <+: stream packets) :
    ∃ n, ((Console.read build)^[n] s).Quiet := by
  have from_fetch : ∀ k t, Delivering packets arrived t → t.reader = .fetch → t.backlog ≤ k →
      ∃ n, ((Console.read build)^[n] t).Quiet := by
    intro k
    induction k with
    | zero =>
      intro t delivering fetching none
      by_cases quiet : t.Quiet
      · exact ⟨0, quiet⟩
      · obtain ⟨u, -, -, -, less⟩ := delivering.round fits fetching quiet
        omega
    | succ k ih =>
      intro t delivering fetching few
      by_cases quiet : t.Quiet
      · exact ⟨0, quiet⟩
      · obtain ⟨u, rfl, delivering', fetching', less⟩ := delivering.round fits fetching quiet
        obtain ⟨n, ends⟩ := ih _ delivering' fetching' (by omega)
        exact ⟨n + 3, ends⟩
  -- a reader in the middle of a round finishes it first
  cases at_ : s.reader with
  | fetch => exact from_fetch _ s delivering at_ (Nat.le_refl _)
  | copy =>
    obtain ⟨-, dispatching⟩ := delivering.backlog_copy at_
    obtain ⟨-, fetching⟩ := Console.backlog_input build dispatching
    obtain ⟨n, ends⟩ := from_fetch _ _ ((delivering.read fits).read fits) fetching (Nat.le_refl _)
    exact ⟨n + 2, ends⟩
  | input =>
    obtain ⟨-, fetching⟩ := Console.backlog_input build at_
    obtain ⟨n, ends⟩ := from_fetch _ _ (delivering.read fits) fetching (Nat.le_refl _)
    exact ⟨n + 1, ends⟩

omit delivering

theorem Console.Quiet.iterate (quiet : s.Quiet) (n : Nat) : ((Console.read build)^[n] s).Quiet := by
  induction n generalizing s with
  | zero => exact quiet
  | succ n ih => exact ih quiet.read

theorem Delivering.iterate (delivering : Delivering packets arrived s) (fits : arrived <+: stream packets) (n : Nat) :
    Delivering packets arrived ((Console.read build)^[n] s) := by
  induction n generalizing s with
  | zero => exact delivering
  | succ n ih => exact ih (delivering.read fits)

end Delivery

/-- However the packets are cut into fragments and the reader is interrupted: those dispatched are the first ones of
the stream, the buffer does not overflow, and every packet comes to be dispatched. -/
theorem raw_packets_delivered (build : Build) (packets : List (Packet build)) (steps : List Step) (s : Console)
    (ran : (Console.init build).run build steps = some s) (cut : received steps <+: stream packets) :
    s.calls <+: packets.map Packet.bytes ∧ s.inBuf.length ≤ build.inBufSize ∧ (received steps = stream packets →
        ∃ n, ∀ m, n ≤ m → ((Console.read build)^[m] s).calls = packets.map Packet.bytes) := by
  have delivering : Delivering packets (received steps) s := (delivering_init packets).run cut ran
  obtain ⟨todo, packets_eq, -⟩ := delivering.sent
  refine ⟨⟨todo, packets_eq.symm⟩, delivering.room, ?_⟩
  intro complete
  rw [complete] at delivering cut
  obtain ⟨n, quiet⟩ := delivering.becomes_quiet cut
  refine ⟨n, fun m le => ?_⟩
  obtain ⟨k, rfl⟩ := Nat.exists_eq_add_of_le' le
  rw [Function.iterate_add_apply]
  exact ((delivering.iterate cut n).iterate cut k).calls_eq (quiet.iterate k)

def smallBuild : Build := ⟨5, 4, 12, by decide, by decide, by decide⟩

def twoPackets : List (Packet smallBuild) := [⟨[0, 0, 0, 0, 0, 0, 7, 6], by decide, by decide, by decide⟩,
    ⟨[2, 0, 0, 2, 0, 1, 8, 1, 0xa0, 0xff], by decide, by decide, by decide⟩]

/-- The second interrupt comes between the copy of the first fragment and its dispatch, with the end of one packet and
the start of the next. -/
def twoPacketSteps : List Step :=
  [.interrupt [0, 0, 0], .reader, .reader, .interrupt [0, 0, 0, 7, 6, 2, 0, 0], .reader, .reader, .reader,
    .interrupt [2, 0, 1, 8, 1, 0xa0, 0xff]]

theorem raw_packets_delivered_two : ∃ s, (Console.init smallBuild).run smallBuild twoPacketSteps = some s ∧
      s.calls <+: twoPackets.map Packet.bytes ∧ s.inBuf.length ≤ smallBuild.inBufSize ∧
      ∃ n, ∀ m, n ≤ m → ((Console.read smallBuild)^[m] s).calls = twoPackets.map Packet.bytes := by
  obtain ⟨s, ran⟩ := Option.isSome_iff_exists.mp
    (by decide : ((Console.init smallBuild).run smallBuild twoPacketSteps).isSome = true)
  obtain ⟨calls, room, all⟩ := raw_packets_delivered smallBuild twoPackets twoPacketSteps s ran ⟨[], by decide⟩
  exact ⟨s, ran, calls, room, all (by decide)⟩

end Adaboot.RawSerial
