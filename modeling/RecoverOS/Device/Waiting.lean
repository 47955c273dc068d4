import RecoverOS.Base.Prog
import RecoverOS.Device.Ioqueue

set_option autoImplicit false

/-! # Waiting for an I/O queue (`device/ioqueue.c` over `thread/sync.c`)

One thread that puts bytes into a queue and one that takes them out. Interrupts are off in a call, so a
thread runs until it blocks, in `sema_down` or in `ioq_wait`, or has finished its call: one step. -/

namespace RecoverOS

namespace Waiting

/-- The two threads. -/
inductive Thread where
  | producer
  | consumer
  deriving DecidableEq

/-- Where a thread is when it does not run. -/
inductive Pc where
  /-- Between two calls. -/
  | idle
  /-- In `thread_block` of `sema_down`. -/
  | semaDown
  /-- In `thread_block` of `ioq_wait`, with the lock. -/
  | ioqWait
  deriving DecidableEq

/-- The queue with its lock, and the two threads. A thread that is not ready is blocked. -/
structure State where
  ioq : Ioqueue Thread
  value : Nat
  waiters : List Thread
  holder : Option Thread
  holder_repeat_nr : Nat
  pc : Thread → Pc
  ready : Thread → Bool

open Ioqueue

/-! ## The code -/

/-- `ioqueue_init`; no thread has called anything. -/
def init (buf : Nat → Byte) : State where
  ioq := ioqueueInit buf
  value := 1
  waiters := []
  holder := none
  holder_repeat_nr := 0
  pc := fun _ => .idle
  ready := fun _ => true

/-- `thread_block`, called from `pc`. -/
def threadBlock (t : Thread) (pc : Pc) : Prog State Unit :=
  Prog.modify fun s =>
    { s with pc := Function.update s.pc t pc, ready := Function.update s.ready t false }

/-- `thread_unblock`. -/
def threadUnblock (w : Thread) : Prog State Unit := do
  let s ← Prog.get
  Prog.assert (s.ready w = false)
  Prog.modify fun s => { s with ready := Function.update s.ready w true }

/-- `ioq_wait`, on `&ioq->producer` or on `&ioq->consumer`. -/
def ioqWait (t : Thread) : Prog State Unit := do
  let s ← Prog.get
  match t with
  | .producer => do
      Prog.assert (s.ioq.producer = none)
      Prog.modify fun s => { s with ioq := { s.ioq with producer := some t } }
  | .consumer => do
      Prog.assert (s.ioq.consumer = none)
      Prog.modify fun s => { s with ioq := { s.ioq with consumer := some t } }
  threadBlock t .ioqWait

/-- `lock_acquire` from the test in `sema_down` on, and the `ioq_wait` that follows it. The queue is not
    tested again. -/
def downAndWait (t : Thread) : Prog State Unit := do
  let s ← Prog.get
  if s.value = 0 then do
    Prog.assert (t ∉ s.waiters)
    Prog.modify fun s => { s with waiters := s.waiters ++ [t] }
    threadBlock t .semaDown
  else do
    Prog.assert (s.value - 1 = 0)
    Prog.assert (s.holder_repeat_nr = 0)
    Prog.modify fun s => { s with value := s.value - 1, holder := some t, holder_repeat_nr := 1 }
    ioqWait t

/-- The body of the loop of `ioq_getchar` and `ioq_putchar`, up to where the thread blocks. -/
def lockAndWait (t : Thread) : Prog State Unit := do
  let s ← Prog.get
  if s.holder = some t then do
    Prog.modify fun s => { s with holder_repeat_nr := s.holder_repeat_nr + 1 }
    ioqWait t
  else downAndWait t

/-- `sema_up`. -/
def semaUp : Prog State Unit := do
  let s ← Prog.get
  Prog.assert (s.value = 0)
  match s.waiters with
  | [] => pure ()
  | w :: rest => do
      Prog.modify fun s => { s with waiters := rest }
      threadUnblock w
  Prog.modify fun s => { s with value := s.value + 1 }
  let s ← Prog.get
  Prog.assert (s.value = 1)

/-- `lock_release`. -/
def lockRelease (t : Thread) : Prog State Unit := do
  let s ← Prog.get
  Prog.assert (s.holder = some t)
  if s.holder_repeat_nr > 1 then
    Prog.modify fun s => { s with holder_repeat_nr := s.holder_repeat_nr - 1 }
  else do
    Prog.assert (s.holder_repeat_nr = 1)
    Prog.modify fun s => { s with holder := none, holder_repeat_nr := 0 }
    semaUp

/-- The thread has to wait: the queue is full for the producer, or empty for the consumer. -/
def MustWait (ioq : Ioqueue Thread) : Thread → Bool
  | .producer => ioqFull ioq
  | .consumer => ioqEmpty ioq

/-- The end of a call, which moves a byte and wakes the other side if it waits. -/
def moveByte (t : Thread) (byte : Byte) : Prog State Unit := do
  let s ← Prog.get
  let woken := match t with
    | .producer => s.ioq.consumer
    | .consumer => s.ioq.producer
  Prog.modify fun s => { s with
    ioq := match t with
      | .producer => storeByte s.ioq byte
      | .consumer => (takeByte s.ioq).2
    pc := Function.update s.pc t .idle }
  match woken with
  | none => pure ()
  | some w => threadUnblock w

/-- `ioq_putchar(ioq, byte)` or `ioq_getchar(ioq)` from the test of its loop on. -/
def testQueue (t : Thread) (byte : Byte) : Prog State Unit := do
  let s ← Prog.get
  if MustWait s.ioq t then lockAndWait t else moveByte t byte

/-- What thread `t` does when it is scheduled. -/
def run (t : Thread) (byte : Byte) : Prog State Unit := do
  let s ← Prog.get
  match s.pc t with
  | .idle => testQueue t byte
  | .semaDown => downAndWait t
  | .ioqWait => do
      lockRelease t
      testQueue t byte

/-- A thread that is ready is scheduled. -/
def Step (s : State) (l : Thread × Byte) (s' : State) : Prop :=
  s.ready l.1 = true ∧ run l.1 l.2 s = .ok ((), s')

/-- Both threads are blocked. -/
def Deadlock (s : State) : Prop := ∀ t, s.ready t = false

/-- A thread that has to wait does not find the lock with the other thread. -/
def Uncontended (s : State) (l : Thread × Byte) : Prop :=
  MustWait s.ioq l.1 = true → ∀ u, u ≠ l.1 → s.holder ≠ some u

/-- A step before which the condition holds. -/
def UncontendedStep (s : State) (l : Thread × Byte) (s' : State) : Prop :=
  Uncontended s l ∧ Step s l s'

/-! ## Without contention -/

/-- The lock is free, or its holder is asleep in `ioq_wait`; nobody waits for it. -/
structure Inv (s : State) : Prop where
  waiters : s.waiters = []
  lock : (s.holder = none ∧ s.value = 1 ∧ s.holder_repeat_nr = 0) ∨
    (s.holder ≠ none ∧ s.value = 0 ∧ s.holder_repeat_nr = 1)
  pc : ∀ t, s.pc t ≠ .semaDown
  holder : ∀ t, s.pc t = .ioqWait ↔ s.holder = some t
  blocked : ∀ t, s.ready t = false → s.pc t = .ioqWait

/-- The same while thread `t` runs, which does not hold the lock. -/
structure Running (t : Thread) (s : State) : Prop where
  waiters : s.waiters = []
  lock : (s.holder = none ∧ s.value = 1 ∧ s.holder_repeat_nr = 0) ∨
    (s.holder ≠ none ∧ s.value = 0 ∧ s.holder_repeat_nr = 1)
  ready : s.ready t = true
  other : s.holder ≠ some t
  pc : ∀ u, u ≠ t → s.pc u ≠ .semaDown
  holder : ∀ u, u ≠ t → (s.pc u = .ioqWait ↔ s.holder = some u)
  blocked : ∀ u, u ≠ t → s.ready u = false → s.pc u = .ioqWait

section Steps

variable {s s' : State} {t : Thread} {byte : Byte}

/-- Moving a byte blocks nobody. -/
theorem moveByte_ok (h : moveByte t byte s = .ok ((), s')) :
    s' = { s with ioq := s'.ioq, pc := Function.update s.pc t .idle, ready := s'.ready } ∧
      ∀ u, s'.ready u = false → s.ready u = false := by
  unfold moveByte at h
  rw [Prog.bind_of_ok (a := s) (t := s) rfl] at h
  generalize hwoken : (match t with
    | .producer => s.ioq.consumer
    | .consumer => s.ioq.producer) = woken at h
  rw [Prog.run_modify_bind] at h
  cases woken with
  | none =>
      obtain ⟨-, rfl⟩ := Prog.pure_eq_ok.1 h
      exact ⟨rfl, fun u hu => hu⟩
  | some w =>
      simp only [threadUnblock, Prog.bind_eq_ok, Prog.get_eq_ok, Prog.assert_eq_ok,
        Prog.modify_eq_ok] at h
      obtain ⟨_, _, ⟨rfl, rfl⟩, _, _, ⟨-, rfl⟩, rfl⟩ := h
      refine ⟨rfl, fun u hu => ?_⟩
      have hu' : Function.update s.ready w true u = false := hu
      by_cases huw : u = w
      · rw [huw, Function.update_self] at hu'
        cases hu'
      · rwa [Function.update_of_ne huw] at hu'

theorem ioqWait_ok (h : ioqWait t s = .ok ((), s')) :
    s' = { s with
      ioq := s'.ioq
      pc := Function.update s.pc t .ioqWait
      ready := Function.update s.ready t false } := by
  cases t with
  | producer =>
      simp only [ioqWait, threadBlock, Prog.bind_eq_ok, Prog.get_eq_ok, Prog.assert_eq_ok,
        Prog.modify_eq_ok] at h
      obtain ⟨_, _, ⟨rfl, rfl⟩, _, _, ⟨-, rfl⟩, _, _, rfl, rfl⟩ := h
      rfl
  | consumer =>
      simp only [ioqWait, threadBlock, Prog.bind_eq_ok, Prog.get_eq_ok, Prog.assert_eq_ok,
        Prog.modify_eq_ok] at h
      obtain ⟨_, _, ⟨rfl, rfl⟩, _, _, ⟨-, rfl⟩, _, _, rfl, rfl⟩ := h
      rfl

/-- A free lock is taken, and the thread goes to sleep with it. -/
theorem lockAndWait_free (hholder : s.holder = none) (hvalue : s.value = 1)
    (h : lockAndWait t s = .ok ((), s')) :
    s' = { s with
      ioq := s'.ioq
      value := 0
      holder := some t
      holder_repeat_nr := 1
      pc := Function.update s.pc t .ioqWait
      ready := Function.update s.ready t false } := by
  unfold lockAndWait downAndWait at h
  rw [Prog.bind_of_ok (a := s) (t := s) rfl, if_neg (by rw [hholder]; exact Option.some_ne_none t ∘ Eq.symm),
    Prog.bind_of_ok (a := s) (t := s) rfl, if_neg (by omega)] at h
  obtain ⟨_, _, h1, h⟩ := Prog.bind_eq_ok.1 h
  obtain ⟨-, rfl⟩ := Prog.assert_eq_ok.1 h1
  obtain ⟨_, _, h1, h⟩ := Prog.bind_eq_ok.1 h
  obtain ⟨-, rfl⟩ := Prog.assert_eq_ok.1 h1
  rw [Prog.run_modify_bind, hvalue] at h
  exact ioqWait_ok h

theorem lockRelease_last (hwaiters : s.waiters = []) (hvalue : s.value = 0)
    (hnr : s.holder_repeat_nr = 1) (h : lockRelease t s = .ok ((), s')) :
    s' = { s with value := 1, holder := none, holder_repeat_nr := 0 } := by
  unfold lockRelease at h
  rw [Prog.bind_of_ok (a := s) (t := s) rfl] at h
  obtain ⟨_, _, h1, h⟩ := Prog.bind_eq_ok.1 h
  obtain ⟨-, rfl⟩ := Prog.assert_eq_ok.1 h1
  rw [if_neg (by omega)] at h
  obtain ⟨_, _, h1, h⟩ := Prog.bind_eq_ok.1 h
  obtain ⟨-, rfl⟩ := Prog.assert_eq_ok.1 h1
  rw [Prog.run_modify_bind] at h
  simp only [semaUp, Prog.bind_eq_ok, Prog.get_eq_ok, Prog.assert_eq_ok] at h
  obtain ⟨_, _, ⟨rfl, rfl⟩, _, _, ⟨-, rfl⟩, h⟩ := h
  simp only [hwaiters, Prog.run_modify_bind, Prog.bind_eq_ok, Prog.get_eq_ok,
    Prog.assert_eq_ok] at h
  obtain ⟨_, _, ⟨rfl, rfl⟩, -, rfl⟩ := h
  rw [hvalue, hwaiters]

theorem Running.testQueue (hr : Running t s)
    (hfree : MustWait s.ioq t = true → ∀ u, u ≠ t → s.holder ≠ some u)
    (h : testQueue t byte s = .ok ((), s')) : Inv s' := by
  unfold Waiting.testQueue at h
  rw [Prog.bind_of_ok (a := s) (t := s) rfl] at h
  by_cases hwait : MustWait s.ioq t = true
  · have hnone : s.holder = none := by
      cases hholder : s.holder with
      | none => rfl
      | some u =>
          by_cases hu : u = t
          · exact absurd (hu ▸ hholder) hr.other
          · exact absurd hholder (hfree hwait u hu)
    obtain ⟨-, hvalue, -⟩ | ⟨hne, -⟩ := hr.lock
    · rw [if_pos hwait] at h
      rw [lockAndWait_free hnone hvalue h]
      refine ⟨hr.waiters, .inr ⟨Option.some_ne_none t, rfl, rfl⟩, fun u => ?_, fun u => ?_, fun u hu => ?_⟩
      · by_cases hut : u = t
        · show Function.update s.pc t .ioqWait u ≠ .semaDown
          rw [hut, Function.update_self]
          decide
        · show Function.update s.pc t .ioqWait u ≠ .semaDown
          rw [Function.update_of_ne hut]
          exact hr.pc u hut
      · show Function.update s.pc t .ioqWait u = .ioqWait ↔ some t = some u
        by_cases hut : u = t
        · rw [hut, Function.update_self]
          exact ⟨fun _ => rfl, fun _ => rfl⟩
        · rw [Function.update_of_ne hut, hr.holder u hut, hnone]
          constructor
          · intro hn
            cases hn
          · intro hs
            exact absurd (Option.some.inj hs).symm hut
      · show Function.update s.pc t .ioqWait u = .ioqWait
        by_cases hut : u = t
        · rw [hut, Function.update_self]
        · have hu' : Function.update s.ready t false u = false := hu
          rw [Function.update_of_ne hut] at hu' ⊢
          exact hr.blocked u hut hu'
    · exact absurd hnone hne
  · rw [if_neg hwait] at h
    obtain ⟨hs', hready⟩ := moveByte_ok h
    rw [hs']
    refine ⟨hr.waiters, hr.lock, fun u => ?_, fun u => ?_, fun u hu => ?_⟩
    · show Function.update s.pc t .idle u ≠ .semaDown
      by_cases hut : u = t
      · rw [hut, Function.update_self]
        decide
      · rw [Function.update_of_ne hut]
        exact hr.pc u hut
    · show Function.update s.pc t .idle u = .ioqWait ↔ s.holder = some u
      by_cases hut : u = t
      · rw [hut, Function.update_self]
        constructor
        · intro hp
          cases hp
        · intro hh
          exact absurd hh hr.other
      · rw [Function.update_of_ne hut]
        exact hr.holder u hut
    · show Function.update s.pc t .idle u = .ioqWait
      have hu' := hready u hu
      by_cases hut : u = t
      · rw [hut, hr.ready] at hu'
        cases hu'
      · rw [Function.update_of_ne hut]
        exact hr.blocked u hut hu'

theorem UncontendedStep.inv {l : Thread × Byte} (hinv : Inv s) (h : UncontendedStep s l s') : Inv s' := by
  obtain ⟨t, byte⟩ := l
  obtain ⟨hfree, hready, hrun⟩ := h
  unfold run at hrun
  rw [Prog.bind_of_ok (a := s) (t := s) rfl] at hrun
  cases hpc : s.pc t with
  | idle =>
      rw [hpc] at hrun
      have hother : s.holder ≠ some t := fun hh => by
        rw [(hinv.holder t).2 hh] at hpc
        cases hpc
      exact Running.testQueue ⟨hinv.waiters, hinv.lock, hready, hother, fun u _ => hinv.pc u,
        fun u _ => hinv.holder u, fun u _ => hinv.blocked u⟩ hfree hrun
  | semaDown => exact absurd hpc (hinv.pc t)
  | ioqWait =>
      rw [hpc] at hrun
      obtain ⟨⟨⟩, s1, hrel, htest⟩ := Prog.bind_eq_ok.1 hrun
      have hholder := (hinv.holder t).1 hpc
      obtain ⟨hnone, -⟩ | ⟨-, hvalue, hnr⟩ := hinv.lock
      · rw [hholder] at hnone
        cases hnone
      · have hs1 := lockRelease_last hinv.waiters hvalue hnr hrel
        have hnobody : ∀ u, s1.holder ≠ some u := by
          rw [hs1]
          exact fun u hu => by cases hu
        refine Running.testQueue ?_ (fun _ u _ => hnobody u) htest
        rw [hs1]
        refine ⟨hinv.waiters, .inl ⟨rfl, rfl, rfl⟩, hready, fun hu => (by cases hu),
          fun u _ => hinv.pc u, fun u hut => ?_, fun u _ => hinv.blocked u⟩
        -- the other thread did not hold the lock, and nobody does now
        constructor
        · intro hp
          have hu := (hinv.holder u).1 hp
          rw [hholder] at hu
          exact absurd (Option.some.inj hu).symm hut
        · intro hn
          cases hn

end Steps

theorem inv_init (buf : Nat → Byte) : Inv (init buf) where
  waiters := rfl
  lock := .inl ⟨rfl, rfl, rfl⟩
  pc := fun _ => nofun
  holder := fun _ => ⟨nofun, nofun⟩
  blocked := fun _ => nofun

/-! ## With contention -/

section Fill

variable {s : State} {l : List Byte}

/-- The producer stores `n` bytes, while nobody waits for them. -/
theorem fill (n : Nat) (hready : s.ready .producer = true) (hpc : s.pc .producer = .idle)
    (hcons : s.ioq.consumer = none) (hl : Holds s.ioq l) (hroom : l.length + n < bufsize) :
    ∃ ls ioq l', Run Step s ls { s with ioq := ioq } ∧ Holds ioq l' ∧ l'.length = l.length + n ∧
      ioq.consumer = none ∧ ioq.producer = s.ioq.producer := by
  induction n generalizing s l with
  | zero => exact ⟨[], s.ioq, l, .nil, hl, rfl, hcons, rfl⟩
  | succ n ih =>
      have hfull : ¬ MustWait s.ioq .producer = true := fun h => by
        have hfull := hl.ioqFull_iff.1 h
        omega
      have hidle : Function.update s.pc .producer .idle = s.pc := by
        rw [← hpc]
        exact Function.update_eq_self _ _
      have hstep : Step s (.producer, 0) { s with ioq := storeByte s.ioq 0 } := by
        refine ⟨hready, ?_⟩
        unfold run
        rw [Prog.bind_of_ok (a := s) (t := s) rfl, hpc]
        show testQueue .producer 0 s = _
        unfold testQueue
        rw [Prog.bind_of_ok (a := s) (t := s) rfl, if_neg hfull]
        unfold moveByte
        rw [Prog.bind_of_ok (a := s) (t := s) rfl, Prog.run_modify_bind]
        simp only [hcons, hidle]
        rfl
      obtain ⟨ls, ioq, l', hrun, hl', hlen, hc, hp⟩ := ih (s := { s with ioq := storeByte s.ioq 0 })
        hready hpc rfl (hl.storeByte (by omega) 0) (by rw [List.length_append, List.length_singleton]; omega)
      rw [List.length_append, List.length_singleton] at hlen
      exact ⟨_, ioq, l', .cons hstep hrun, hl', by omega, hc, hp⟩

/-- The consumer takes all bytes, while nobody waits for room. -/
theorem drain (hready : s.ready .consumer = true) (hpc : s.pc .consumer = .idle)
    (hprod : s.ioq.producer = none) (hl : Holds s.ioq l) :
    ∃ ls ioq, Run Step s ls { s with ioq := ioq } ∧ Holds ioq [] ∧ ioq.producer = none ∧
      ioq.consumer = s.ioq.consumer := by
  induction l generalizing s with
  | nil => exact ⟨[], s.ioq, .nil, hl, hprod, rfl⟩
  | cons b l ih =>
      have hempty : ¬ MustWait s.ioq .consumer = true := fun h => by
        have hempty := hl.ioqEmpty_iff.1 h
        rw [List.length_cons] at hempty
        omega
      have hidle : Function.update s.pc .consumer .idle = s.pc := by
        rw [← hpc]
        exact Function.update_eq_self _ _
      have hstep : Step s (.consumer, 0) { s with ioq := (takeByte s.ioq).2 } := by
        refine ⟨hready, ?_⟩
        unfold run
        rw [Prog.bind_of_ok (a := s) (t := s) rfl, hpc]
        show testQueue .consumer 0 s = _
        unfold testQueue
        rw [Prog.bind_of_ok (a := s) (t := s) rfl, if_neg hempty]
        unfold moveByte
        rw [Prog.bind_of_ok (a := s) (t := s) rfl, Prog.run_modify_bind]
        simp only [hprod, hidle]
        rfl
      obtain ⟨ls, ioq, hrun, hl', hp, hc⟩ := ih (s := { s with ioq := (takeByte s.ioq).2 })
        hready hpc rfl hl.takeByte.2
      exact ⟨_, ioq, .cons hstep hrun, hl', hp, hc⟩

end Fill

section Contend

variable {s : State}

/-- The consumer finds the queue empty and the lock free, and goes to sleep with the lock. -/
theorem sleep_step (hready : s.ready .consumer = true) (hpc : s.pc .consumer = .idle)
    (hempty : ioqEmpty s.ioq = true) (hholder : s.holder = none) (hvalue : s.value = 1)
    (hnr : s.holder_repeat_nr = 0) (hcons : s.ioq.consumer = none) :
    Step s (.consumer, 0) { s with
      ioq := { s.ioq with consumer := some .consumer }
      value := 0
      holder := some .consumer
      holder_repeat_nr := 1
      pc := Function.update s.pc .consumer .ioqWait
      ready := Function.update s.ready .consumer false } := by
  refine ⟨hready, ?_⟩
  unfold run
  rw [Prog.bind_of_ok (a := s) (t := s) rfl, hpc]
  show testQueue .consumer 0 s = _
  unfold testQueue
  rw [Prog.bind_of_ok (a := s) (t := s) rfl, if_pos (show MustWait s.ioq .consumer = true from hempty)]
  unfold lockAndWait downAndWait ioqWait
  rw [Prog.bind_of_ok (a := s) (t := s) rfl, if_neg (by rw [hholder]; nofun),
    Prog.bind_of_ok (a := s) (t := s) rfl, if_neg (by omega), Prog.run_assert_bind (by omega),
    Prog.run_assert_bind hnr, Prog.run_modify_bind, Prog.bind_of_ok rfl]
  refine (Prog.run_assert_bind hcons _ _).trans ?_
  rw [hvalue]
  rfl

theorem threadUnblock_run {w : Thread} (h : s.ready w = false) :
    threadUnblock w s = .ok ((), { s with ready := Function.update s.ready w true }) := by
  unfold threadUnblock
  rw [Prog.bind_of_ok (a := s) (t := s) rfl, Prog.run_assert_bind h]
  rfl

/-- The producer stores a byte and wakes the consumer. -/
theorem wake_step (hready : s.ready .producer = true) (hpc : s.pc .producer = .idle)
    (hroom : ioqFull s.ioq = false) (hcons : s.ioq.consumer = some .consumer)
    (hasleep : s.ready .consumer = false) :
    Step s (.producer, 0) { s with
      ioq := storeByte s.ioq 0
      pc := Function.update s.pc .producer .idle
      ready := Function.update s.ready .consumer true } := by
  refine ⟨hready, ?_⟩
  unfold run
  rw [Prog.bind_of_ok (a := s) (t := s) rfl, hpc]
  show testQueue .producer 0 s = _
  unfold testQueue
  rw [Prog.bind_of_ok (a := s) (t := s) rfl,
    if_neg (show ¬ MustWait s.ioq .producer = true from Bool.eq_false_iff.1 hroom)]
  unfold moveByte
  rw [Prog.bind_of_ok (a := s) (t := s) rfl, Prog.run_modify_bind]
  simp only [hcons]
  exact threadUnblock_run hasleep

/-- `sema_down` when the semaphore is taken. -/
theorem downAndWait_taken {t : Thread} (hvalue : s.value = 0) (hwaiters : s.waiters = []) :
    downAndWait t s = .ok ((), { s with
      waiters := [t]
      pc := Function.update s.pc t .semaDown
      ready := Function.update s.ready t false }) := by
  unfold downAndWait
  rw [Prog.bind_of_ok (a := s) (t := s) rfl, if_pos hvalue,
    Prog.run_assert_bind (by rw [hwaiters]; exact List.not_mem_nil), Prog.run_modify_bind, hwaiters]
  rfl

/-- The producer, made ready in `sema_down`, finds the semaphore taken again. -/
theorem resume_step (hready : s.ready .producer = true) (hpc : s.pc .producer = .semaDown)
    (hvalue : s.value = 0) (hwaiters : s.waiters = []) :
    Step s (.producer, 0) { s with
      waiters := [.producer]
      pc := Function.update s.pc .producer .semaDown
      ready := Function.update s.ready .producer false } := by
  refine ⟨hready, ?_⟩
  unfold run
  rw [Prog.bind_of_ok (a := s) (t := s) rfl, hpc]
  exact downAndWait_taken hvalue hwaiters

/-- The producer finds the queue full and the lock with the consumer. -/
theorem contend_step (hready : s.ready .producer = true) (hpc : s.pc .producer = .idle)
    (hfull : ioqFull s.ioq = true) (hholder : s.holder = some .consumer) (hvalue : s.value = 0)
    (hwaiters : s.waiters = []) :
    Step s (.producer, 0) { s with
      waiters := [.producer]
      pc := Function.update s.pc .producer .semaDown
      ready := Function.update s.ready .producer false } := by
  refine ⟨hready, ?_⟩
  unfold run
  rw [Prog.bind_of_ok (a := s) (t := s) rfl, hpc]
  show testQueue .producer 0 s = _
  unfold testQueue
  rw [Prog.bind_of_ok (a := s) (t := s) rfl, if_pos (show MustWait s.ioq .producer = true from hfull)]
  unfold lockAndWait
  rw [Prog.bind_of_ok (a := s) (t := s) rfl, if_neg (by rw [hholder]; decide)]
  exact downAndWait_taken hvalue hwaiters

/-- The consumer, awake, releases the lock to the producer and takes a byte. -/
theorem release_step (hready : s.ready .consumer = true) (hpc : s.pc .consumer = .ioqWait)
    (hholder : s.holder = some .consumer) (hnr : s.holder_repeat_nr = 1) (hvalue : s.value = 0)
    (hwaiters : s.waiters = [.producer]) (hasleep : s.ready .producer = false)
    (hmore : ioqEmpty s.ioq = false) (hprod : s.ioq.producer = none) :
    Step s (.consumer, 0) { s with
      ioq := (takeByte s.ioq).2
      value := 1
      waiters := []
      holder := none
      holder_repeat_nr := 0
      pc := Function.update s.pc .consumer .idle
      ready := Function.update s.ready .producer true } := by
  refine ⟨hready, ?_⟩
  have hrel : lockRelease .consumer s = .ok ((), { s with
      value := 1
      waiters := []
      holder := none
      holder_repeat_nr := 0
      ready := Function.update s.ready .producer true }) := by
    unfold lockRelease semaUp
    rw [Prog.bind_of_ok (a := s) (t := s) rfl, Prog.run_assert_bind hholder, if_neg (by omega),
      Prog.run_assert_bind hnr, Prog.run_modify_bind, Prog.bind_of_ok rfl]
    refine (Prog.run_assert_bind hvalue _ _).trans ?_
    simp only [hwaiters, Prog.run_modify_bind]
    refine (Prog.bind_of_ok (threadUnblock_run
      (s := { s with waiters := [], holder := none, holder_repeat_nr := 0 }) hasleep) _).trans ?_
    rw [Prog.run_modify_bind, hvalue]
    rfl
  unfold run
  rw [Prog.bind_of_ok (a := s) (t := s) rfl, hpc]
  show (lockRelease .consumer >>= fun _ => testQueue .consumer 0) s = _
  rw [Prog.bind_of_ok hrel]
  unfold testQueue
  rw [Prog.bind_of_ok rfl,
    if_neg (show ¬ MustWait s.ioq .consumer = true from Bool.eq_false_iff.1 hmore)]
  unfold moveByte
  rw [Prog.bind_of_ok rfl, Prog.run_modify_bind]
  simp only [hprod]
  rfl

end Contend

/-! ## Deadlock -/

/-- As long as no thread that has to wait finds the lock with the other one, the two are never blocked
    together. -/
theorem no_deadlock_of_uncontended {buf : Nat → Byte} {s : State} {ls : List (Thread × Byte)}
    (h : Run UncontendedStep (init buf) ls s) : ¬ Deadlock s := by
  have hinv := h.invariant (fun _ _ _ hI hstep => hstep.inv hI) (inv_init buf)
  intro hdead
  have hp := (hinv.holder _).1 (hinv.blocked _ (hdead .producer))
  have hc := (hinv.holder _).1 (hinv.blocked _ (hdead .consumer))
  rw [hp] at hc
  cases hc

/-- The consumer finds a new queue empty and goes to sleep. -/
theorem no_deadlock_asleep : ∃ s, s.ready .consumer = false ∧
    Run UncontendedStep (init Buf.zero) [(.consumer, 0)] s ∧ ¬ Deadlock s := by
  have hempty := (@holds_init Thread Buf.zero).ioqEmpty_iff.2 rfl
  have hstep := sleep_step (s := init Buf.zero) rfl rfl hempty rfl rfl rfl rfl
  have hstep' : UncontendedStep (init Buf.zero) (.consumer, 0) _ := ⟨fun _ _ _ => nofun, hstep⟩
  exact ⟨_, rfl, .single hstep', no_deadlock_of_uncontended (.single hstep')⟩

/-- The consumer sleeps with the lock; the producer wakes it, fills the queue and waits for the lock; the
    consumer releases the lock, drains the queue and sleeps with the lock again; and the producer, which
    was made ready, finds the lock taken. -/
theorem deadlock_reached : ∃ ls s, Run Step (init Buf.zero) ls s ∧ Deadlock s := by
  have h0 : Holds (init Buf.zero).ioq [] := holds_init _
  let s1 : State := { init Buf.zero with
    ioq := { (init Buf.zero).ioq with consumer := some .consumer }
    value := 0
    holder := some .consumer
    holder_repeat_nr := 1
    pc := Function.update (init Buf.zero).pc .consumer .ioqWait
    ready := Function.update (init Buf.zero).ready .consumer false }
  have hstep1 : Step (init Buf.zero) (.consumer, 0) s1 :=
    sleep_step rfl rfl (h0.ioqEmpty_iff.2 rfl) rfl rfl rfl rfl
  have h1 : Holds s1.ioq [] := ⟨h0.tail, h0.len, h0.head, h0.bytes⟩
  have hroom : ioqFull s1.ioq = false := Bool.eq_false_iff.2 fun h => by
    exact absurd (h1.ioqFull_iff.1 h) (by decide)
  let s2 : State := { s1 with
    ioq := storeByte s1.ioq 0
    pc := Function.update s1.pc .producer .idle
    ready := Function.update s1.ready .consumer true }
  have hstep2 : Step s1 (.producer, 0) s2 := wake_step rfl rfl hroom rfl rfl
  obtain ⟨ls, ioq, l, hfill, hl, hlen, hcons, hprod⟩ := fill (s := s2) 2046 rfl rfl rfl
    (h1.storeByte (by decide) 0) (by decide)
  let s3 : State := { s2 with ioq := ioq }
  let s4 : State := { s3 with
    waiters := [.producer]
    pc := Function.update s3.pc .producer .semaDown
    ready := Function.update s3.ready .producer false }
  have hstep4 : Step s3 (.producer, 0) s4 := contend_step rfl rfl (hl.ioqFull_iff.2 hlen) rfl rfl rfl
  have hmore : ioqEmpty ioq = false := Bool.eq_false_iff.2 fun h => by
    have hempty := hl.ioqEmpty_iff.1 h
    rw [hempty] at hlen
    cases hlen
  let s5 : State := { s4 with
    ioq := (takeByte ioq).2
    value := 1
    waiters := []
    holder := none
    holder_repeat_nr := 0
    pc := Function.update s4.pc .consumer .idle
    ready := Function.update s4.ready .producer true }
  have hstep5 : Step s4 (.consumer, 0) s5 := release_step rfl rfl rfl rfl rfl rfl rfl hmore hprod
  obtain ⟨b, l, rfl⟩ : ∃ b l', l = b :: l' := List.exists_cons_of_length_pos (by rw [hlen]; decide)
  obtain ⟨ls', ioq', hdrain, hl', -, hcons'⟩ := drain (s := s5) rfl rfl rfl hl.takeByte.2
  let s6 : State := { s5 with ioq := ioq' }
  let s7 : State := { s6 with
    ioq := { ioq' with consumer := some .consumer }
    value := 0
    holder := some .consumer
    holder_repeat_nr := 1
    pc := Function.update s6.pc .consumer .ioqWait
    ready := Function.update s6.ready .consumer false }
  have hstep7 : Step s6 (.consumer, 0) s7 :=
    sleep_step rfl rfl (hl'.ioqEmpty_iff.2 rfl) rfl rfl rfl (hcons'.trans hcons)
  have hstep8 : Step s7 (.producer, 0) { s7 with
      waiters := [.producer]
      pc := Function.update s7.pc .producer .semaDown
      ready := Function.update s7.ready .producer false } := resume_step rfl rfl rfl rfl
  have hrun : Run Step (init Buf.zero) _ _ :=
    .cons hstep1 (.cons hstep2 (hfill.append (.cons hstep4 (.cons hstep5 (hdrain.append
      (.cons hstep7 (.single hstep8)))))))
  refine ⟨_, _, hrun, fun t => ?_⟩
  cases t <;> rfl

end Waiting

end RecoverOS
