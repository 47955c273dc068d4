import RecoverOS.Base.Bytes
import RecoverOS.Base.Ring
import RecoverOS.Base.Run

set_option autoImplicit false

/-! # The I/O queue and pipes (`device/ioqueue.c`, `pipe/pipe.c`)

The ring of an ioqueue, and the loops of `pipe_read` and `pipe_write` over it. A call runs with
interrupts off. `none` stands for a call that has entered the loop in which `ioq_getchar` or `ioq_putchar`
waits; how the two sides wait for each other is in `Device.Waiting`. -/

namespace RecoverOS

/-- `bufsize`. -/
abbrev bufsize : Nat := 2048

/-- `struct ioqueue`, without the lock; `producer` and `consumer` are `none` for `NULL`. -/
structure Ioqueue (T : Type) where
  producer : Option T
  consumer : Option T
  buf : Nat → Byte
  head : Nat
  tail : Nat

namespace Ioqueue

variable {T : Type}

/-! ## The code -/

/-- `ioqueue_init`; the buffer is as it is. -/
def ioqueueInit (buf : Nat → Byte) : Ioqueue T where
  producer := none
  consumer := none
  buf := buf
  head := 0
  tail := 0

/-- `next_pos`. -/
def nextPos (pos : Nat) : Nat := (pos + 1) % bufsize

/-- `ioq_full`. -/
def ioqFull (ioq : Ioqueue T) : Bool := nextPos ioq.head == ioq.tail

/-- `ioq_empty`. -/
def ioqEmpty (ioq : Ioqueue T) : Bool := ioq.head == ioq.tail

/-- `ioq_getchar` after its loop; it wakes the producer if one waits. -/
def takeByte (ioq : Ioqueue T) : Byte × Ioqueue T :=
  (ioq.buf ioq.tail, { ioq with tail := nextPos ioq.tail, producer := none })

/-- `ioq_putchar` after its loop; it wakes the consumer if one waits. -/
def storeByte (ioq : Ioqueue T) (byte : Byte) : Ioqueue T :=
  { ioq with buf := Function.update ioq.buf ioq.head byte, head := nextPos ioq.head, consumer := none }

/-- `ioq_getchar`. -/
def ioqGetchar (ioq : Ioqueue T) : Option (Byte × Ioqueue T) :=
  if ioqEmpty ioq then none else some (takeByte ioq)

/-- `ioq_putchar`. -/
def ioqPutchar (ioq : Ioqueue T) (byte : Byte) : Option (Ioqueue T) :=
  if ioqFull ioq then none else some (storeByte ioq byte)

/-- `ioq_length`. -/
def ioqLength (ioq : Ioqueue T) : Nat :=
  if ioq.head ≥ ioq.tail then ioq.head - ioq.tail else bufsize - (ioq.tail - ioq.head)

/-- The loop of `pipe_read`: what it puts in the buffer. -/
def readLoop : Nat → Ioqueue T → Option (List Byte × Ioqueue T)
  | 0, ioq => some ([], ioq)
  | n + 1, ioq =>
      match ioqGetchar ioq with
      | none => none
      | some (byte, ioq) => (readLoop n ioq).map fun r => (byte :: r.1, r.2)

/-- The loop of `pipe_write`. -/
def writeLoop : Nat → Buf → Ioqueue T → Option (Ioqueue T)
  | 0, _, ioq => some ioq
  | n + 1, buffer, ioq =>
      match ioqPutchar ioq (buffer 0) with
      | none => none
      | some ioq => writeLoop n (buffer.from 1) ioq

/-- `pipe_read`: the bytes read, whose number it returns. -/
def pipeRead (ioq : Ioqueue T) (count : Nat) : Option (List Byte × Ioqueue T) :=
  let ioq_len := ioqLength ioq
  readLoop (if ioq_len > count then count else ioq_len) ioq

/-- `pipe_write`: the value returned. -/
def pipeWrite (ioq : Ioqueue T) (buf : Buf) (count : Nat) : Option (Nat × Ioqueue T) :=
  let ioq_left := bufsize - ioqLength ioq
  let size := if ioq_left > count then count else ioq_left
  (writeLoop size buf ioq).map fun ioq => (size, ioq)

/-! ## The queue in the ring -/

/-- The ring holds the bytes `l`, oldest first. -/
structure Holds (ioq : Ioqueue T) (l : List Byte) : Prop where
  tail : ioq.tail < bufsize
  len : l.length < bufsize
  head : ioq.head = (ioq.tail + l.length) % bufsize
  bytes : Ring.contents bufsize ioq.buf ioq.tail l.length = l

section Holds

variable {ioq : Ioqueue T} {l rest : List Byte} {b : Byte}

theorem holds_init (buf : Nat → Byte) : Holds (ioqueueInit buf : Ioqueue T) [] where
  tail := (by decide : 0 < bufsize)
  len := (by decide : 0 < bufsize)
  head := rfl
  bytes := rfl

theorem Holds.head_lt (h : Holds ioq l) : ioq.head < bufsize := by
  rw [h.head]
  exact Nat.mod_lt _ (by decide)

theorem Holds.ioqLength (h : Holds ioq l) : ioqLength ioq = l.length := by
  have hdist : Ioqueue.ioqLength ioq = Ring.dist bufsize ioq.head ioq.tail := rfl
  rw [hdist, h.head]
  exact Ring.dist_eq h.tail h.len

theorem Holds.ioqEmpty_iff (h : Holds ioq l) : ioqEmpty ioq = true ↔ l.length = 0 := by
  have hnext := @Ring.next_eq_iff bufsize ioq.tail l.length 0 h.len (by decide) h.tail
  rw [Nat.add_zero, ← h.head] at hnext
  have hlen := h.len
  unfold ioqEmpty
  rw [beq_iff_eq, hnext]
  omega

theorem Holds.ioqFull_iff (h : Holds ioq l) : ioqFull ioq = true ↔ l.length = bufsize - 1 := by
  have hnext := @Ring.next_eq_iff bufsize ioq.tail l.length 1 h.len (by decide) h.tail
  have hpos : nextPos ioq.head = (ioq.tail + l.length + 1) % bufsize := by
    unfold nextPos
    rw [h.head, Nat.mod_add_mod]
  have hlen := h.len
  unfold ioqFull
  rw [beq_iff_eq, hpos, hnext]
  omega

/-- A byte stored is the last of the queue. -/
theorem Holds.storeByte (h : Holds ioq l) (hroom : l.length + 1 < bufsize) (b : Byte) :
    Holds (storeByte ioq b) (l ++ [b]) where
  tail := h.tail
  len := by
    rw [List.length_append]
    exact hroom
  head := by
    show (ioq.head + 1) % bufsize = (ioq.tail + (l ++ [b]).length) % bufsize
    rw [h.head, Nat.mod_add_mod, List.length_append]
    rfl
  bytes := by
    show Ring.contents bufsize (Function.update ioq.buf ioq.head b) ioq.tail (l ++ [b]).length = _
    rw [List.length_append, h.head]
    show Ring.contents bufsize _ ioq.tail (l.length + 1) = _
    rw [Ring.contents_put h.len, h.bytes]

/-- The byte taken is the first of the queue. -/
theorem Holds.takeByte (h : Holds ioq (b :: l)) :
    (takeByte ioq).1 = b ∧ Holds (takeByte ioq).2 l := by
  have hbytes := h.bytes
  rw [List.length_cons, Ring.contents_get h.tail, List.cons.injEq] at hbytes
  refine ⟨hbytes.1, Nat.mod_lt _ (by decide), ?_, ?_, hbytes.2⟩
  · have hlen := h.len
    rw [List.length_cons] at hlen
    omega
  · show ioq.head = ((ioq.tail + 1) % bufsize + l.length) % bufsize
    rw [h.head, List.length_cons, Nat.mod_add_mod]
    congr 1
    omega

theorem Holds.ioqPutchar_room (h : Holds ioq l) (hroom : l.length + 1 < bufsize) (b : Byte) :
    ioqPutchar ioq b = some (Ioqueue.storeByte ioq b) := by
  unfold ioqPutchar
  rw [if_neg]
  rw [h.ioqFull_iff]
  omega

theorem Holds.ioqPutchar_full (h : Holds ioq l) (hfull : l.length = bufsize - 1) (b : Byte) :
    ioqPutchar ioq b = none := by
  unfold ioqPutchar
  rw [if_pos (h.ioqFull_iff.2 hfull)]

theorem Holds.ioqGetchar (h : Holds ioq (b :: l)) :
    ∃ ioq', ioqGetchar ioq = some (b, ioq') ∧ Holds ioq' l := by
  obtain ⟨hb, hl⟩ := h.takeByte
  refine ⟨_, ?_, hl⟩
  unfold Ioqueue.ioqGetchar
  rw [if_neg, ← hb]
  rw [h.ioqEmpty_iff, List.length_cons]
  exact Nat.succ_ne_zero _

/-! ## The loops of a pipe -/

/-- The first `n` bytes at a pointer. -/
def firstBytes (buf : Buf) (n : Nat) : List Byte := (List.range n).map buf

theorem firstBytes_succ (buf : Buf) (n : Nat) :
    firstBytes buf (n + 1) = buf 0 :: firstBytes (buf.from 1) n := by
  unfold firstBytes
  rw [List.range_succ_eq_map, List.map_cons, List.map_map]
  congr 1
  refine List.map_congr_left fun k _ => ?_
  show buf (k + 1) = buf (1 + k)
  rw [Nat.add_comm]

/-- The loop stores its bytes if they all fit; if not, it fills the ring and waits. -/
theorem Holds.writeLoop {n : Nat} (h : Holds ioq l) (buf : Buf) :
    (l.length + n ≤ bufsize - 1 → ∃ ioq', writeLoop n buf ioq = some ioq' ∧
      Holds ioq' (l ++ firstBytes buf n)) ∧
    (bufsize - 1 < l.length + n → writeLoop n buf ioq = none) := by
  induction n generalizing ioq l buf with
  | zero =>
      have hlen := h.len
      refine ⟨fun _ => ⟨ioq, rfl, ?_⟩, fun hlt => absurd hlt (by omega)⟩
      rwa [show firstBytes buf 0 = [] from rfl, List.append_nil]
  | succ n ih =>
      unfold Ioqueue.writeLoop
      by_cases hroom : l.length + 1 < bufsize
      · obtain ⟨hfit, hover⟩ := ih (h.storeByte hroom (buf 0)) (buf.from 1)
        rw [List.length_append, List.length_singleton] at hfit hover
        rw [h.ioqPutchar_room hroom, firstBytes_succ]
        refine ⟨fun hle => ?_, fun hlt => hover (by omega)⟩
        obtain ⟨ioq', hrun, hholds⟩ := hfit (by omega)
        rw [List.append_assoc] at hholds
        exact ⟨ioq', hrun, hholds⟩
      · have hlen := h.len
        rw [h.ioqPutchar_full (by omega)]
        exact ⟨fun hle => absurd hle (by omega), fun _ => rfl⟩

theorem Holds.readLoop (h : Holds ioq (l ++ rest)) :
    ∃ ioq', readLoop l.length ioq = some (l, ioq') ∧ Holds ioq' rest := by
  induction l generalizing ioq with
  | nil => exact ⟨ioq, rfl, h⟩
  | cons b l ih =>
      obtain ⟨ioq1, hget, h1⟩ := h.ioqGetchar
      obtain ⟨ioq2, hloop, h2⟩ := ih h1
      refine ⟨ioq2, ?_, h2⟩
      rw [List.length_cons]
      unfold Ioqueue.readLoop
      rw [hget]
      show (Ioqueue.readLoop l.length ioq1).map _ = _
      rw [hloop]
      rfl

theorem Holds.pipeRead (h : Holds ioq l) (count : Nat) :
    ∃ ioq', pipeRead ioq count = some (l.take count, ioq') ∧ Holds ioq' (l.drop count) := by
  have hsize : (if Ioqueue.ioqLength ioq > count then count else Ioqueue.ioqLength ioq)
      = (l.take count).length := by
    rw [h.ioqLength, List.length_take]
    split <;> omega
  rw [← List.take_append_drop count l] at h
  unfold Ioqueue.pipeRead
  dsimp only
  rw [hsize]
  exact h.readLoop

/-- One byte less than `pipe_write` reckons with fits. -/
theorem Holds.pipeWrite (h : Holds ioq l) (buf : Buf) (count : Nat) :
    (l.length + count ≤ bufsize - 1 → ∃ ioq', pipeWrite ioq buf count = some (count, ioq') ∧
      Holds ioq' (l ++ firstBytes buf count)) ∧
    (bufsize - 1 < l.length + count → pipeWrite ioq buf count = none) := by
  have hlen := h.len
  unfold Ioqueue.pipeWrite
  dsimp only
  rw [h.ioqLength]
  refine ⟨fun hle => ?_, fun hlt => ?_⟩
  · rw [if_pos (by omega)]
    obtain ⟨ioq', hrun, hholds⟩ := (h.writeLoop buf).1 hle
    exact ⟨ioq', by rw [hrun]; rfl, hholds⟩
  · rw [(h.writeLoop buf).2 (by split <;> omega)]
    rfl

end Holds

/-! ## Traffic -/

/-- A call on a queue. A `pipe_write` that has to wait goes on with one `ioq_putchar` after another. -/
inductive Call where
  | putchar (byte : Byte)
  | getchar
  | read (count : Nat)
  | write (buf : Buf) (count : Nat)

/-- A queue with the bytes it has accepted and delivered so far. No code reads these. -/
structure Traffic (T : Type) where
  ioq : Ioqueue T
  accepted : List Byte
  delivered : List Byte

/-- A call that does not wait. -/
inductive Step : Traffic T → Call → Traffic T → Prop where
  | putchar {s byte ioq} (h : ioqPutchar s.ioq byte = some ioq) :
      Step s (.putchar byte) ⟨ioq, s.accepted ++ [byte], s.delivered⟩
  | getchar {s byte ioq} (h : ioqGetchar s.ioq = some (byte, ioq)) :
      Step s .getchar ⟨ioq, s.accepted, s.delivered ++ [byte]⟩
  | read {s count bytes ioq} (h : pipeRead s.ioq count = some (bytes, ioq)) :
      Step s (.read count) ⟨ioq, s.accepted, s.delivered ++ bytes⟩
  | write {s buf count n ioq} (h : pipeWrite s.ioq buf count = some (n, ioq)) :
      Step s (.write buf count) ⟨ioq, s.accepted ++ firstBytes buf n, s.delivered⟩

/-- The queues that calls lead to from `ioqueue_init`. -/
def Reachable (s : Traffic T) : Prop :=
  ∃ buf cs, Run Step ⟨ioqueueInit buf, [], []⟩ cs s

/-- The ring holds what was accepted and is still to be delivered. -/
def InTransit (s : Traffic T) : Prop := ∃ l, Holds s.ioq l ∧ s.accepted = s.delivered ++ l

theorem Step.inTransit {s s' : Traffic T} {c : Call} (h : InTransit s) (hstep : Step s c s') :
    InTransit s' := by
  obtain ⟨l, hl, hacc⟩ := h
  cases hstep with
  | @putchar byte ioq hput =>
      have hlen := hl.len
      by_cases hfull : l.length = bufsize - 1
      · rw [hl.ioqPutchar_full hfull] at hput
        cases hput
      · have hroom : l.length + 1 < bufsize := by omega
        rw [hl.ioqPutchar_room hroom] at hput
        cases hput
        exact ⟨l ++ [byte], hl.storeByte hroom byte, by rw [hacc, List.append_assoc]⟩
  | @getchar byte ioq hget =>
      cases l with
      | nil =>
          unfold ioqGetchar at hget
          rw [if_pos (hl.ioqEmpty_iff.2 rfl)] at hget
          cases hget
      | cons b l =>
          obtain ⟨ioq', hget', hl'⟩ := hl.ioqGetchar
          rw [hget'] at hget
          cases hget
          exact ⟨l, hl', by rw [hacc, List.append_assoc]; rfl⟩
  | @read count bytes ioq hread =>
      obtain ⟨ioq', hread', hl'⟩ := hl.pipeRead count
      rw [hread'] at hread
      cases hread
      exact ⟨l.drop count, hl', by rw [hacc, List.append_assoc, List.take_append_drop]⟩
  | @write buf count n ioq hwrite =>
      by_cases hfit : l.length + count ≤ bufsize - 1
      · obtain ⟨ioq', hwrite', hl'⟩ := (hl.pipeWrite buf count).1 hfit
        rw [hwrite'] at hwrite
        cases hwrite
        exact ⟨_, hl', by rw [hacc, List.append_assoc]⟩
      · rw [(hl.pipeWrite buf count).2 (by omega)] at hwrite
        cases hwrite

theorem Reachable.inTransit {s : Traffic T} (h : Reachable s) : InTransit s := by
  obtain ⟨buf, cs, hrun⟩ := h
  exact hrun.invariant (fun _ _ _ hI hstep => hstep.inTransit hI) ⟨[], holds_init buf, rfl⟩

/-- What was delivered is a prefix of what was accepted, the ring is in bounds, its length is the number
    of bytes in between, and `pipe_read` delivers the next of these. -/
theorem fifo {s : Traffic T} (h : Reachable s) :
    s.delivered <+: s.accepted ∧ s.ioq.head < bufsize ∧ s.ioq.tail < bufsize ∧
    s.delivered.length + ioqLength s.ioq = s.accepted.length ∧ ioqLength s.ioq ≤ bufsize - 1 ∧
    (ioqEmpty s.ioq = true ↔ ioqLength s.ioq = 0) ∧
    (ioqFull s.ioq = true ↔ ioqLength s.ioq = bufsize - 1) ∧
    ∀ count, ∃ bytes ioq, pipeRead s.ioq count = some (bytes, ioq) ∧
      bytes = (s.accepted.drop s.delivered.length).take count ∧
      bytes.length = min count (ioqLength s.ioq) := by
  obtain ⟨l, hl, hacc⟩ := h.inTransit
  have hlen := hl.len
  rw [hl.ioqLength]
  refine ⟨⟨l, hacc.symm⟩, hl.head_lt, hl.tail, ?_, by omega, hl.ioqEmpty_iff, hl.ioqFull_iff,
    fun count => ?_⟩
  · rw [hacc, List.length_append]
  · obtain ⟨ioq, hread, -⟩ := hl.pipeRead count
    refine ⟨_, ioq, hread, ?_, List.length_take⟩
    rw [hacc, List.drop_left]

/-- Two bytes through a new queue. -/
theorem fifo_two : ∃ s : Traffic Unit, s.accepted = [1, 2] ∧ s.delivered = [1] ∧
    s.delivered <+: s.accepted := by
  have h0 := @holds_init Unit fun _ => 0
  have h1 := h0.storeByte (by decide) 1
  have h2 := h1.storeByte (by decide) 2
  obtain ⟨ioq, hget, -⟩ := h2.ioqGetchar
  have hrun : Run Step (⟨ioqueueInit fun _ => 0, [], []⟩ : Traffic Unit)
      ([.putchar 1, .putchar 2] ++ [.getchar]) ⟨ioq, [1, 2], [1]⟩ :=
    .snoc (.snoc (.single (.putchar (h0.ioqPutchar_room (by decide) 1)))
      (.putchar (h1.ioqPutchar_room (by decide) 2))) (.getchar hget)
  exact ⟨_, rfl, rfl, (fifo ⟨_, _, hrun⟩).1⟩

/-! ## The room in a pipe -/

/-- The number of bytes the ring can still hold: one cell stays empty. -/
def freeSpace (ioq : Ioqueue T) : Nat := bufsize - 1 - ioqLength ioq

/-- `pipe_write` does not wait: it stores and returns as many bytes as asked for and as there is room
    for. -/
def WritesAtOnce (ioq : Ioqueue T) (buf : Buf) (count : Nat) : Prop :=
  ∃ ioq' l, pipeWrite ioq buf count = some (min count (freeSpace ioq), ioq') ∧ Holds ioq l ∧
    Holds ioq' (l ++ firstBytes buf (min count (freeSpace ioq)))

/-- `pipe_write` waits if and only if it is asked for more than there is room for: it reckons with the
    cell that stays empty. -/
theorem writes_at_once_iff {s : Traffic T} (h : Reachable s) (buf : Buf) (count : Nat) :
    WritesAtOnce s.ioq buf count ↔ count ≤ freeSpace s.ioq := by
  obtain ⟨l, hl, -⟩ := h.inTransit
  obtain ⟨hfit, hover⟩ := hl.pipeWrite buf count
  have hlen := hl.len
  have hfree : freeSpace s.ioq = bufsize - 1 - l.length := by
    unfold freeSpace
    rw [hl.ioqLength]
  constructor
  · rintro ⟨ioq', l', hrun, -⟩
    by_contra hgt
    rw [hover (by omega)] at hrun
    cases hrun
  · intro hle
    obtain ⟨ioq', hrun, hholds⟩ := hfit (by omega)
    refine ⟨ioq', l, ?_, hl, ?_⟩
    · rw [Nat.min_eq_left hle]
      exact hrun
    · rw [Nat.min_eq_left hle]
      exact hholds

/-- A write of 5 bytes to a new pipe. -/
theorem writes_at_once_five : ∃ s : Traffic Unit, Reachable s ∧ WritesAtOnce s.ioq Buf.zero 5 := by
  have hnew : Reachable (⟨ioqueueInit fun _ => 0, [], []⟩ : Traffic Unit) := ⟨_, [], .nil⟩
  exact ⟨_, hnew, (writes_at_once_iff hnew Buf.zero 5).2 (by decide)⟩

/-- A write of 2048 bytes to a new pipe fills it and waits. -/
theorem not_writes_at_once_2048 : ∃ s : Traffic Unit, Reachable s ∧
    pipeWrite s.ioq Buf.zero 2048 = none ∧ ¬ WritesAtOnce s.ioq Buf.zero 2048 := by
  have hwait := ((@holds_init Unit fun _ => 0).pipeWrite Buf.zero 2048).2 (by decide)
  refine ⟨⟨ioqueueInit fun _ => 0, [], []⟩, ⟨_, [], .nil⟩, hwait, ?_⟩
  rintro ⟨ioq', l, hrun, -⟩
  rw [hwait] at hrun
  cases hrun

end Ioqueue

end RecoverOS
