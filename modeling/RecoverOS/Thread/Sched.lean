import Mathlib.Logic.Function.Basic
import RecoverOS.Base.Prog
import RecoverOS.Base.Run

set_option autoImplicit false

/-! # The scheduler (`thread/thread.c`, `device/timer.c`)

The ready list and the status of every thread. A call is one step: it runs with interrupts off until
`schedule` has switched to the next thread, and what a thread does when it is resumed touches nothing
that is modelled here but the interrupt flag. -/

namespace RecoverOS

namespace Sched

/-- `enum task_stat`. -/
inductive TaskStat where
  | TASK_RUNNING
  | TASK_READY
  | TASK_BLOCKED
  | TASK_HANGING
  | TASK_WAITING
  | TASK_DIED
  deriving DecidableEq

open TaskStat

/-- What `thread_block` may set, and what `thread_unblock` expects. -/
def TaskStat.sleeping : TaskStat → Bool
  | TASK_BLOCKED | TASK_HANGING | TASK_WAITING => true
  | _ => false

/-- `enum intr_stat`. -/
inductive IntrStat where
  | intr_off
  | intr_on
  deriving DecidableEq

open IntrStat

variable {T : Type} [DecidableEq T]

/-- The threads, by the address of their `struct task_struct`: `stat` is `none` where there is none. -/
structure State (T : Type) where
  stat : T → Option TaskStat
  prio : T → Nat
  ticks : T → Nat
  ready_threads_list : List T
  current : T
  idle_thread : T
  main_thread : T
  intr : IntrStat

/-! ## The code -/

/-- Store the status of a thread. -/
def setStat (t : T) (stat : TaskStat) : Prog (State T) Unit :=
  Prog.modify fun s => { s with stat := Function.update s.stat t (some stat) }

/-- `set_intr_stat`; the old value is restored by the caller. -/
def setIntrStat (intr : IntrStat) : Prog (State T) Unit := Prog.modify fun s => { s with intr := intr }

/-- `list_append(&ready_threads_list, ...)` behind its assertion. -/
def appendReady (t : T) : Prog (State T) Unit := do
  let s ← Prog.get
  Prog.assert (t ∉ s.ready_threads_list)
  Prog.modify fun s => { s with ready_threads_list := s.ready_threads_list ++ [t] }

/-- `thread_unblock`, without the interrupt flag it saves and restores. -/
def threadUnblock (t : T) : Prog (State T) Unit := do
  let s ← Prog.get
  Prog.assert ((s.stat t).any TaskStat.sleeping = true)
  Prog.assert (t ∉ s.ready_threads_list)
  Prog.modify fun s => { s with ready_threads_list := t :: s.ready_threads_list }
  setStat t TASK_READY

/-- The first part of `schedule`: a thread that could go on is put at the end of the list. -/
def requeue : Prog (State T) Unit := do
  let s ← Prog.get
  if s.stat s.current = some TASK_RUNNING then do
    setStat s.current TASK_READY
    Prog.modify fun s => { s with ticks := Function.update s.ticks s.current (s.prio s.current) }
    appendReady s.current
  else pure ()

/-- The last part of `schedule`: take the first thread of the list and switch to it. `list_pop` of an
    empty list takes the tail of the list for a thread. -/
def switchToNext : Prog (State T) Unit := do
  let s ← Prog.get
  match s.ready_threads_list with
  | [] => Prog.fault .undefined
  | next :: rest => do
      Prog.modify fun s => { s with ready_threads_list := rest }
      setStat next TASK_RUNNING
      Prog.modify fun s => { s with current := next }

/-- `schedule`. -/
def schedule : Prog (State T) Unit := do
  let s ← Prog.get
  Prog.assert (s.intr = intr_off)
  requeue
  let s ← Prog.get
  if s.ready_threads_list = [] then threadUnblock s.idle_thread else pure ()
  switchToNext

/-- `intr_time_hdl`: interrupts are off while it runs. -/
def intrTimeHdl : Prog (State T) Unit := do
  setIntrStat intr_off
  let s ← Prog.get
  if s.ticks s.current = 0 then schedule
  else Prog.modify fun s => { s with ticks := Function.update s.ticks s.current (s.ticks s.current - 1) }

/-- `thread_block`. -/
def threadBlock (stat : TaskStat) : Prog (State T) Unit := do
  Prog.assert (stat.sleeping = true)
  setIntrStat intr_off
  let s ← Prog.get
  setStat s.current stat
  schedule

/-- `thread_yield`. -/
def threadYield : Prog (State T) Unit := do
  let s ← Prog.get
  setIntrStat intr_off
  appendReady s.current
  setStat s.current TASK_READY
  schedule

/-- The end of `thread_start` and of `sys_fork`: a new thread joins the ready list. -/
def addReady (t : T) (prio : Nat) : Prog (State T) Unit := do
  setStat t TASK_READY
  Prog.modify fun s =>
    { s with prio := Function.update s.prio t prio, ticks := Function.update s.ticks t prio }
  appendReady t

/-- `thread_start`. -/
def threadStart (t : T) (prio : Nat) : Prog (State T) Unit := addReady t prio

/-- `sys_fork`: the child has the priority of its parent. -/
def sysFork (child : T) : Prog (State T) Unit := do
  let s ← Prog.get
  addReady child (s.prio s.current)

/-- `thread_exit`: the page of the thread is freed unless it is the main thread's. -/
def threadExit (thread_over : T) (need_schedule : Bool) : Prog (State T) Unit := do
  setIntrStat intr_off
  setStat thread_over TASK_DIED
  let s ← Prog.get
  if thread_over ≠ s.main_thread then
    Prog.modify fun s => { s with stat := Function.update s.stat thread_over none }
  else pure ()
  if need_schedule then schedule else pure ()

/-! ## Runs -/

/-- What happens in one step. -/
inductive Call (T : Type) where
  | threadStart (t : T) (prio : Nat)
  | tick
  | block (stat : TaskStat)
  | unblock (t : T)
  | yield
  | fork (child : T)
  | exitMain
  | exit (t : T)

/-- The code of a step. -/
def Call.run : Call T → Prog (State T) Unit
  | threadStart t prio => Sched.threadStart t prio
  | tick => intrTimeHdl
  | block stat => threadBlock stat
  | unblock t => threadUnblock t
  | yield => threadYield
  | fork child => sysFork child
  | exitMain => do
      let s ← Prog.get
      threadExit s.main_thread true
  | exit t => threadExit t false

/-- When a step may happen. The idle thread only ever blocks; timer ticks, and the handlers that wake a
    thread up, come at any time. -/
def Call.Allowed (s : State T) : Call T → Prop
  | threadStart t _ => s.current ≠ s.idle_thread ∧ s.stat t = none
  | tick => True
  | block stat => stat.sleeping = true ∧ (s.current = s.idle_thread → stat = TASK_BLOCKED)
  | unblock t => (s.stat t).any TaskStat.sleeping = true
  | yield => s.current ≠ s.idle_thread
  | fork child => s.current ≠ s.idle_thread ∧ s.stat child = none
  | exitMain => s.current = s.main_thread
  | exit t => s.current ≠ s.idle_thread ∧ s.stat t = some TASK_HANGING

/-- One step; the thread that runs next has the interrupts on or off. -/
def Step (s : State T) (c : Call T) (s' : State T) : Prop :=
  c.Allowed s ∧ ∃ s1 intr, c.run s = .ok ((), s1) ∧ s' = { s1 with intr := intr }

/-- The state `thread_init` leaves: main runs, init and the idle thread are ready. -/
structure Initial (s : State T) (init_proc : T) : Prop where
  distinct : init_proc ≠ s.idle_thread ∧ init_proc ≠ s.main_thread ∧ s.idle_thread ≠ s.main_thread
  current : s.current = s.main_thread
  main : s.stat s.main_thread = some TASK_RUNNING
  idle : s.stat s.idle_thread = some TASK_READY
  init : s.stat init_proc = some TASK_READY
  others : ∀ t, t ≠ s.main_thread → t ≠ s.idle_thread → t ≠ init_proc → s.stat t = none
  ready : s.ready_threads_list = [init_proc, s.idle_thread]

/-- The states that steps lead to after `thread_init`. -/
def Reachable (s : State T) : Prop :=
  ∃ s0 init_proc cs, Initial s0 init_proc ∧ Run Step s0 cs s

/-! ## The invariant -/

/-- The ready list holds the ready threads, at most the current thread runs, and the idle thread does
    nothing but run, wait for its turn or block. -/
structure Sane (s : State T) : Prop where
  nodup : s.ready_threads_list.Nodup
  mem_iff : ∀ t, t ∈ s.ready_threads_list ↔ s.stat t = some TASK_READY
  running : ∀ t, s.stat t = some TASK_RUNNING → t = s.current
  idle : s.stat s.idle_thread = some TASK_READY ∨ s.stat s.idle_thread = some TASK_BLOCKED ∨
    s.stat s.idle_thread = some TASK_RUNNING
  main : s.idle_thread ≠ s.main_thread

/-- Between two steps the current thread is running. -/
structure Inv (s : State T) : Prop extends Sane s where
  current : s.stat s.current = some TASK_RUNNING

section Proofs

variable {s s' : State T} {t : T}

/-- A ready thread joins the list where it was not. -/
theorem appendReady_run (h : t ∉ s.ready_threads_list) :
    appendReady t s
      = .ok ((), { s with ready_threads_list := s.ready_threads_list ++ [t] }) := by
  unfold appendReady
  rw [Prog.bind_of_ok (a := s) (t := s) rfl, Prog.run_assert_bind h]
  rfl

theorem threadUnblock_run (hs : (s.stat t).any TaskStat.sleeping = true)
    (h : t ∉ s.ready_threads_list) :
    threadUnblock t s = .ok ((), { s with
      ready_threads_list := t :: s.ready_threads_list
      stat := Function.update s.stat t (some TASK_READY) }) := by
  unfold threadUnblock
  rw [Prog.bind_of_ok (a := s) (t := s) rfl, Prog.run_assert_bind hs, Prog.run_assert_bind h]
  rfl

/-- A thread that is not ready, and becomes so, joins the list at either end. -/
theorem Sane.ready (h : Sane s) {l : List T} (ticks prio : T → Nat)
    (hl : l = s.ready_threads_list ++ [t] ∨ l = t :: s.ready_threads_list)
    (ht : s.stat t ≠ some TASK_READY) :
    Sane { s with
      stat := Function.update s.stat t (some TASK_READY)
      ready_threads_list := l
      ticks := ticks
      prio := prio } := by
  have hnot : t ∉ s.ready_threads_list := fun hm => ht ((h.mem_iff t).1 hm)
  have hmem : ∀ u, u ∈ l ↔ u ∈ s.ready_threads_list ∨ u = t := by
    intro u
    rcases hl with rfl | rfl
    · simp
    · simp [or_comm]
  constructor
  case nodup =>
    show l.Nodup
    rcases hl with rfl | rfl
    · refine List.nodup_append.2 ⟨h.nodup, List.pairwise_singleton _ t, ?_⟩
      rintro a ha b hb rfl
      exact hnot ((List.mem_singleton.1 hb) ▸ ha)
    · exact List.nodup_cons.2 ⟨hnot, h.nodup⟩
  case mem_iff =>
    intro u
    show u ∈ l ↔ Function.update s.stat t (some TASK_READY) u = some TASK_READY
    rw [hmem, h.mem_iff]
    by_cases hu : u = t
    · simp [hu]
    · simp [hu]
  case running =>
    intro u hu
    by_cases hut : u = t
    · simp [hut] at hu
    · simp only [Function.update_of_ne hut] at hu
      exact h.running u hu
  case idle =>
    by_cases hi : s.idle_thread = t
    · exact Or.inl (by simp [hi])
    · simpa [hi] using h.idle
  case main => exact h.main

/-- The first thread of the list runs next. -/
theorem switchToNext_ok (h : Sane s) (hne : s.ready_threads_list ≠ [])
    (hcur : s.stat s.current ≠ some TASK_RUNNING) :
    ∃ s', switchToNext s = .ok ((), s') ∧ Inv s' := by
  cases hl : s.ready_threads_list with
  | nil => exact absurd hl hne
  | cons next rest =>
      have hnodup := h.nodup
      rw [hl] at hnodup
      obtain ⟨hnext, hrest⟩ := List.nodup_cons.1 hnodup
      refine ⟨{ s with
        ready_threads_list := rest
        stat := Function.update s.stat next (some TASK_RUNNING)
        current := next }, ?_, ?_⟩
      · unfold switchToNext
        rw [Prog.bind_of_ok (a := s) (t := s) rfl, hl]
        rfl
      · constructor
        case toSane =>
          constructor
          case nodup => exact hrest
          case mem_iff =>
            intro u
            show u ∈ rest ↔ Function.update s.stat next (some TASK_RUNNING) u = some TASK_READY
            by_cases hu : u = next
            · subst hu
              simp [hnext]
            · have hiff := h.mem_iff u
              rw [hl, List.mem_cons] at hiff
              simpa [hu] using hiff
          case running =>
            intro u hu
            by_cases hun : u = next
            · exact hun
            · simp only [Function.update_of_ne hun] at hu
              have hcu := h.running u hu
              rw [hcu] at hu
              exact absurd hu hcur
          case idle =>
            by_cases hi : s.idle_thread = next
            · exact Or.inr (Or.inr (by simp [hi]))
            · simpa [hi] using h.idle
          case main => exact h.main
        case current => simp

/-- `schedule` finds a thread to run, and none of its assertions fails. -/
theorem schedule_ok (h : Sane s) (hintr : s.intr = intr_off) :
    ∃ s', schedule s = .ok ((), s') ∧ Inv s' := by
  unfold schedule
  rw [Prog.bind_of_ok (a := s) (t := s) rfl, Prog.run_assert_bind hintr]
  by_cases hcur : s.stat s.current = some TASK_RUNNING
  · -- the current thread goes to the end of the list, which is then not empty
    have hnr : s.stat s.current ≠ some TASK_READY := by
      rw [hcur]
      simp
    have hnot : s.current ∉ s.ready_threads_list := fun hm => hnr ((h.mem_iff _).1 hm)
    let s1 : State T := { s with
      stat := Function.update s.stat s.current (some TASK_READY)
      ready_threads_list := s.ready_threads_list ++ [s.current]
      ticks := Function.update s.ticks s.current (s.prio s.current)
      prio := s.prio }
    have hrun : requeue s = .ok ((), s1) := by
      unfold requeue
      rw [Prog.bind_of_ok (a := s) (t := s) rfl, if_pos hcur]
      simp only [setStat, Prog.run_modify_bind]
      exact appendReady_run hnot
    have hs1 : Sane s1 := h.ready _ _ (Or.inl rfl) hnr
    have hne : s1.ready_threads_list ≠ [] := by simp [s1]
    rw [Prog.bind_of_ok hrun, Prog.bind_of_ok (a := s1) (t := s1) rfl, if_neg hne]
    exact switchToNext_ok hs1 hne (by simp [s1])
  · have hrun : requeue s = .ok ((), s) := by
      unfold requeue
      rw [Prog.bind_of_ok (a := s) (t := s) rfl, if_neg hcur]
      rfl
    rw [Prog.bind_of_ok hrun, Prog.bind_of_ok (a := s) (t := s) rfl]
    by_cases hempty : s.ready_threads_list = []
    · -- nobody is ready, so the idle thread is blocked
      have hidle : s.stat s.idle_thread = some TASK_BLOCKED := by
        rcases h.idle with hi | hi | hi
        · have hm := (h.mem_iff _).2 hi
          rw [hempty] at hm
          cases hm
        · exact hi
        · have hc := h.running _ hi
          rw [hc] at hi
          exact absurd hi hcur
      have hnr : s.stat s.idle_thread ≠ some TASK_READY := by
        rw [hidle]
        simp
      have hnot : s.idle_thread ∉ s.ready_threads_list := by
        rw [hempty]
        exact List.not_mem_nil
      rw [if_pos hempty, Prog.bind_of_ok (threadUnblock_run (by rw [hidle]; rfl) hnot)]
      have hs1 := h.ready (t := s.idle_thread) s.ticks s.prio (Or.inr rfl) hnr
      refine switchToNext_ok hs1 (List.cons_ne_nil _ _) ?_
      show Function.update s.stat s.idle_thread (some TASK_READY) s.current ≠ some TASK_RUNNING
      by_cases hci : s.current = s.idle_thread
      · simp [hci]
      · simpa [hci] using hcur
    · rw [if_neg hempty]
      exact switchToNext_ok h hempty hcur

/-- The current thread stops running without being ready. -/
theorem Inv.leave (h : Inv s) {stat : TaskStat} (hready : stat ≠ TASK_READY)
    (hidle : s.current = s.idle_thread → stat = TASK_BLOCKED) :
    Sane { s with stat := Function.update s.stat s.current (some stat) } where
  nodup := h.nodup
  mem_iff u := by
    show u ∈ s.ready_threads_list ↔ Function.update s.stat s.current (some stat) u = some TASK_READY
    rw [h.mem_iff]
    by_cases hu : u = s.current
    · simp [hu, h.current, hready]
    · simp [hu]
  running u hu := by
    by_cases huc : u = s.current
    · exact huc
    · simp only [Function.update_of_ne huc] at hu
      exact h.running u hu
  idle := by
    by_cases hi : s.idle_thread = s.current
    · exact Or.inr (Or.inl (by simp [hi, hidle hi.symm]))
    · simpa [hi] using h.idle
  main := h.main

omit [DecidableEq T] in
/-- The interrupt flag is no part of the invariant. -/
theorem Inv.intr (h : Inv s) (intr : IntrStat) : Inv { s with intr := intr } where
  nodup := h.nodup
  mem_iff := h.mem_iff
  running := h.running
  idle := h.idle
  main := h.main
  current := h.current

theorem intrTimeHdl_ok (h : Inv s) : ∃ s', intrTimeHdl s = .ok ((), s') ∧ Inv s' := by
  have h1 := h.intr intr_off
  unfold intrTimeHdl setIntrStat
  simp only [Prog.run_modify_bind]
  rw [Prog.bind_of_ok (a := { s with intr := intr_off }) (t := { s with intr := intr_off }) rfl]
  by_cases hz : s.ticks s.current = 0
  · rw [if_pos hz]
    exact schedule_ok h1.toSane rfl
  · rw [if_neg hz]
    refine ⟨_, Prog.run_modify _ _, ?_⟩
    exact ⟨⟨h.nodup, h.mem_iff, h.running, h.idle, h.main⟩, h.current⟩

theorem threadBlock_ok (h : Inv s) {stat : TaskStat} (hs : stat.sleeping = true)
    (hidle : s.current = s.idle_thread → stat = TASK_BLOCKED) :
    ∃ s', threadBlock stat s = .ok ((), s') ∧ Inv s' := by
  have hready : stat ≠ TASK_READY := by
    rintro rfl
    cases hs
  unfold threadBlock setIntrStat setStat
  rw [Prog.run_assert_bind hs]
  simp only [Prog.run_modify_bind]
  rw [Prog.bind_of_ok (a := { s with intr := intr_off }) (t := { s with intr := intr_off }) rfl]
  simp only [Prog.run_modify_bind]
  exact schedule_ok ((h.intr intr_off).leave hready hidle) rfl

theorem threadYield_ok (h : Inv s) : ∃ s', threadYield s = .ok ((), s') ∧ Inv s' := by
  have hnr : s.stat s.current ≠ some TASK_READY := by
    rw [h.current]
    simp
  have hnot : s.current ∉ s.ready_threads_list := fun hm => hnr ((h.mem_iff _).1 hm)
  have h1 := (h.intr intr_off).toSane.ready (t := s.current) s.ticks s.prio (Or.inl rfl) hnr
  unfold threadYield setIntrStat setStat
  rw [Prog.bind_of_ok (a := s) (t := s) rfl]
  simp only [Prog.run_modify_bind]
  rw [Prog.bind_of_ok (appendReady_run (s := { s with intr := intr_off }) hnot)]
  simp only [Prog.run_modify_bind]
  exact schedule_ok h1 rfl

/-- The current thread is not the one that becomes ready, so it goes on. -/
theorem Inv.ready (h : Inv s) {l : List T} (ticks prio : T → Nat)
    (hl : l = s.ready_threads_list ++ [t] ∨ l = t :: s.ready_threads_list)
    (ht : s.stat t ≠ some TASK_READY) (ht' : s.stat t ≠ some TASK_RUNNING) :
    Inv { s with
      stat := Function.update s.stat t (some TASK_READY)
      ready_threads_list := l
      ticks := ticks
      prio := prio } where
  toSane := h.toSane.ready ticks prio hl ht
  current := by
    have hct : s.current ≠ t := by
      rintro rfl
      exact ht' h.current
    simpa [hct] using h.current

theorem addReady_ok (h : Inv s) (ht : s.stat t = none) (prio : Nat) :
    ∃ s', addReady t prio s = .ok ((), s') ∧ Inv s' := by
  have hnr : s.stat t ≠ some TASK_READY := by simp [ht]
  have hnot : t ∉ s.ready_threads_list := fun hm => hnr ((h.mem_iff _).1 hm)
  unfold addReady setStat
  simp only [Prog.run_modify_bind]
  exact ⟨_, appendReady_run hnot, h.ready _ _ (Or.inl rfl) hnr (by simp [ht])⟩

theorem threadUnblock_ok (h : Inv s) (hs : (s.stat t).any TaskStat.sleeping = true) :
    ∃ s', threadUnblock t s = .ok ((), s') ∧ Inv s' := by
  have hnr : s.stat t ≠ some TASK_READY := by
    intro heq
    rw [heq] at hs
    cases hs
  have hnrun : s.stat t ≠ some TASK_RUNNING := by
    intro heq
    rw [heq] at hs
    cases hs
  have hnot : t ∉ s.ready_threads_list := fun hm => hnr ((h.mem_iff _).1 hm)
  exact ⟨_, threadUnblock_run hs hnot, h.ready _ _ (Or.inr rfl) hnr hnrun⟩

theorem threadExit_main_ok (h : Inv s) (hmain : s.current = s.main_thread) :
    ∃ s', threadExit s.main_thread true s = .ok ((), s') ∧ Inv s' := by
  unfold threadExit setIntrStat setStat
  simp only [Prog.run_modify_bind]
  rw [Prog.bind_of_ok rfl]
  simp only [ne_eq, not_true_eq_false, if_false, if_true]
  have hnr : TASK_DIED ≠ TASK_READY := by decide
  have hleave := (h.intr intr_off).leave hnr fun hc => absurd (hc.symm.trans hmain) h.main
  have hupd : Function.update s.stat s.main_thread (some TASK_DIED)
      = Function.update s.stat s.current (some TASK_DIED) := by rw [hmain]
  rw [hupd]
  exact schedule_ok hleave rfl

/-- A hanging thread is taken out of the system; it is neither the current nor the idle thread. -/
theorem threadExit_ok (h : Inv s) (ht : s.stat t = some TASK_HANGING) :
    ∃ s', threadExit t false s = .ok ((), s') ∧ Inv s' := by
  have hct : s.current ≠ t := by
    rintro rfl
    rw [h.current] at ht
    cases ht
  have hit : s.idle_thread ≠ t := by
    intro heq
    have hi := h.idle
    rw [heq, ht] at hi
    simp at hi
  have hgone : ∀ o : Option TaskStat, o ≠ some TASK_READY → o ≠ some TASK_RUNNING →
      Inv { s with stat := Function.update s.stat t o, intr := intr_off } := by
    intro o hready hrunning
    constructor
    case toSane =>
      constructor
      case nodup => exact h.nodup
      case mem_iff =>
        intro u
        show u ∈ s.ready_threads_list ↔ Function.update s.stat t o u = some TASK_READY
        rw [h.mem_iff]
        by_cases hu : u = t
        · simp [hu, ht, hready]
        · simp [hu]
      case running =>
        intro u hu
        by_cases hut : u = t
        · simp [hut, hrunning] at hu
        · simp only [Function.update_of_ne hut] at hu
          exact h.running u hu
      case idle => simpa [hit] using h.idle
      case main => exact h.main
    case current => simpa [hct] using h.current
  unfold threadExit setIntrStat setStat
  simp only [Prog.run_modify_bind]
  rw [Prog.bind_of_ok rfl]
  by_cases hmain : t ≠ s.main_thread
  · rw [if_pos hmain]
    simp only [Prog.run_modify_bind, Function.update_idem]
    exact ⟨_, rfl, hgone none (by simp) (by simp)⟩
  · rw [if_neg hmain]
    exact ⟨_, rfl, hgone (some TASK_DIED) (by simp) (by simp)⟩

/-- Whatever may happen next, happens without a failed assertion and keeps the invariant. -/
theorem Call.run_ok (h : Inv s) {c : Call T} (hc : c.Allowed s) :
    ∃ s', c.run s = .ok ((), s') ∧ Inv s' := by
  cases c with
  | threadStart t prio => exact addReady_ok h hc.2 prio
  | tick => exact intrTimeHdl_ok h
  | block stat => exact threadBlock_ok h hc.1 hc.2
  | unblock t => exact threadUnblock_ok h hc
  | yield => exact threadYield_ok h
  | fork child => exact addReady_ok h hc.2 _
  | exitMain => exact threadExit_main_ok h hc
  | exit t => exact threadExit_ok h hc.2

theorem Step.inv {c : Call T} (h : Inv s) (hstep : Step s c s') : Inv s' := by
  obtain ⟨hallowed, s1, intr, hrun, rfl⟩ := hstep
  obtain ⟨s2, hrun', hinv⟩ := Call.run_ok h hallowed
  rw [hrun] at hrun'
  cases hrun'
  exact hinv.intr intr

theorem Initial.inv {init_proc : T} (h : Initial s init_proc) : Inv s := by
  obtain ⟨hii, him, hidle⟩ := h.distinct
  constructor
  case toSane =>
    constructor
    case nodup =>
      rw [h.ready]
      simp [hii]
    case mem_iff =>
      intro t
      rw [h.ready]
      by_cases h1 : t = init_proc
      · simp [h1, h.init]
      · by_cases h2 : t = s.idle_thread
        · simp [h2, h.idle]
        · by_cases h3 : t = s.main_thread
          · simp [h3, h.main, Ne.symm him, Ne.symm hidle]
          · simp [h1, h2, h.others t h3 h2 h1]
    case running =>
      intro t ht
      rw [h.current]
      by_contra h3
      by_cases h1 : t = init_proc
      · rw [h1, h.init] at ht
        cases ht
      · by_cases h2 : t = s.idle_thread
        · rw [h2, h.idle] at ht
          cases ht
        · rw [h.others t h3 h2 h1] at ht
          cases ht
    case idle => exact Or.inl h.idle
    case main => exact hidle
  case current =>
    rw [h.current]
    exact h.main

theorem Reachable.inv (h : Reachable s) : Inv s := by
  obtain ⟨s0, init_proc, cs, h0, hrun⟩ := h
  exact hrun.invariant (fun _ _ _ hinv hstep => hstep.inv hinv) h0.inv

end Proofs

/-! ## The scheduler never fails -/

/-- In every reachable state the ready list has no duplicates and holds exactly the ready threads, the
    current thread is the only running one, and whatever happens next runs without a failed assertion
    and without popping an empty list. -/
theorem schedule_invariant {s : State T} (h : Reachable s) :
    s.ready_threads_list.Nodup ∧
    (∀ t, t ∈ s.ready_threads_list ↔ s.stat t = some TASK_READY) ∧
    (∀ t, s.stat t = some TASK_RUNNING ↔ t = s.current) ∧
    ∀ c : Call T, c.Allowed s → ∃ s', c.run s = .ok ((), s') := by
  have hinv := h.inv
  refine ⟨hinv.nodup, hinv.mem_iff, fun t => ⟨hinv.running t, ?_⟩, fun c hc => ?_⟩
  · rintro rfl
    exact hinv.current
  · obtain ⟨s', hrun, -⟩ := Call.run_ok hinv hc
    exact ⟨s', hrun⟩

/-- After `thread_init`, with main at 0, the idle thread at 1 and init at 2. -/
def booted : State Nat where
  stat t := if t = 0 then some TASK_RUNNING else if t ≤ 2 then some TASK_READY else none
  prio _ := 31
  ticks _ := 31
  ready_threads_list := [2, 1]
  current := 0
  idle_thread := 1
  main_thread := 0
  intr := intr_off

theorem booted_initial : Initial booted 2 where
  distinct := by decide
  current := rfl
  main := rfl
  idle := rfl
  init := rfl
  others t h0 h1 h2 := by
    have h0' : t ≠ 0 := h0
    have h1' : t ≠ 1 := h1
    have hle : ¬ t ≤ 2 := by omega
    simp [booted, h0', hle]
  ready := rfl

/-- Main blocks, a tick passes, init forks 3, wakes main up and yields to it. -/
theorem exists_unblocked : ∃ s : State Nat, Run Step booted
    [.block TASK_BLOCKED, .tick, .fork 3, .unblock 0, .yield] s ∧ s.current = 0 ∧ s.main_thread = 0 := by
  refine Run.exists_cons_and ⟨⟨rfl, fun _ => rfl⟩, _, intr_on, rfl, rfl⟩ ?_
  refine Run.exists_cons_and ⟨trivial, _, intr_on, rfl, rfl⟩ ?_
  refine Run.exists_cons_and ⟨⟨by decide, rfl⟩, _, intr_on, rfl, rfl⟩ ?_
  refine Run.exists_cons_and ⟨rfl, _, intr_on, rfl, rfl⟩ ?_
  exact ⟨_, .single ⟨(by decide : (2 : Nat) ≠ 1), _, intr_on, rfl, rfl⟩, rfl, rfl⟩

/-- Main may exit then. -/
theorem schedule_invariant_unblocked : ∃ s s' : State Nat, Reachable s ∧ s.ready_threads_list.Nodup ∧
    Call.exitMain.run s = .ok ((), s') := by
  obtain ⟨s, hrun, hcurrent, hmain⟩ := exists_unblocked
  have hreach : Reachable s := ⟨booted, 2, _, booted_initial, hrun⟩
  obtain ⟨hnodup, -, -, hnext⟩ := schedule_invariant hreach
  obtain ⟨s', hexit⟩ := hnext .exitMain (hcurrent.trans hmain.symm)
  exact ⟨s, s', hreach, hnodup, hexit⟩

end Sched

end RecoverOS
