import Mathlib.Algebra.Order.BigOperators.Group.Finset
import Mathlib.Data.Finset.Insert
import RecoverOS.Thread.Sched

set_option autoImplicit false

/-! # How long a thread waits (`thread/thread.c`, `device/timer.c`)

`schedule` takes the first thread of the ready list. `thread_unblock` puts a thread in front of all the
others, so that a ready thread may be passed over any number of times. But a thread that used up its time
slice goes to the end of the list, and it is only there that it gets a new one. -/

namespace RecoverOS

namespace Sched

open TaskStat

variable {T : Type} [DecidableEq T]

/-- The timer interrupt. -/
def Call.isTick : Call T → Bool
  | tick => true
  | _ => false

/-- The number of timer interrupts. -/
def timerTicks (cs : List (Call T)) : Nat := cs.countP Call.isTick

/-- The thread was the current one, at the start, at the end or in between. -/
def RunsDuring (t : T) (s : State T) (cs : List (Call T)) (s' : State T) : Prop :=
  ∃ cs1 cs2 s1, cs = cs1 ++ cs2 ∧ Run Step s cs1 s1 ∧ Run Step s1 cs2 s' ∧ s1.current = t

section Proofs

variable {s s1 s' : State T} {t : T} {c : Call T}

/-! ## What a step does to the ready list and to the time slices -/

/-- What `schedule` does. -/
structure Switched (s s' : State T) : Prop where
  list : s.stat s.current = some TASK_RUNNING ∧
        s.ready_threads_list ++ [s.current] = s'.current :: s'.ready_threads_list ∧
        s'.ticks = Function.update s.ticks s.current (s.prio s.current) ∨
      s.stat s.current ≠ some TASK_RUNNING ∧
        (s.ready_threads_list ≠ [] → s.ready_threads_list = s'.current :: s'.ready_threads_list ∧
          s'.stat = Function.update s.stat s'.current (some TASK_RUNNING)) ∧ s'.ticks = s.ticks
  stat : ∀ u, s'.stat u ≠ none → s.stat u ≠ none ∨ u = s.current ∨ u = s'.current

theorem appendReady_eq (h : appendReady t s = .ok ((), s')) :
    s' = { s with ready_threads_list := s.ready_threads_list ++ [t] } := by
  unfold appendReady at h
  rw [Prog.bind_of_ok (a := s) (t := s) rfl] at h
  obtain ⟨⟨⟩, s1, hassert, h1⟩ := Prog.bind_eq_ok.1 h
  obtain ⟨-, rfl⟩ := Prog.assert_eq_ok.1 hassert
  exact Prog.modify_eq_ok.1 h1

theorem threadUnblock_eq (h : threadUnblock t s = .ok ((), s')) :
    s' = { s with
      ready_threads_list := t :: s.ready_threads_list
      stat := Function.update s.stat t (some TASK_READY) } := by
  unfold threadUnblock setStat at h
  rw [Prog.bind_of_ok (a := s) (t := s) rfl] at h
  obtain ⟨⟨⟩, s1, hassert, h1⟩ := Prog.bind_eq_ok.1 h
  obtain ⟨-, rfl⟩ := Prog.assert_eq_ok.1 hassert
  obtain ⟨⟨⟩, s2, hassert2, h2⟩ := Prog.bind_eq_ok.1 h1
  obtain ⟨-, rfl⟩ := Prog.assert_eq_ok.1 hassert2
  rw [Prog.run_modify_bind] at h2
  exact Prog.modify_eq_ok.1 h2

theorem switchToNext_eq (h : switchToNext s = .ok ((), s')) :
    s.ready_threads_list = s'.current :: s'.ready_threads_list ∧ s'.ticks = s.ticks ∧
      s'.stat = Function.update s.stat s'.current (some TASK_RUNNING) := by
  unfold switchToNext setStat at h
  rw [Prog.bind_of_ok (a := s) (t := s) rfl] at h
  cases hl : s.ready_threads_list with
  | nil =>
      rw [hl] at h
      cases h
  | cons next rest =>
      rw [hl] at h
      simp only [Prog.run_modify_bind] at h
      rw [Prog.modify_eq_ok.1 h]
      exact ⟨rfl, rfl, rfl⟩

/-- Only the thread whose status is stored can be new. -/
theorem ne_none_of_update {stat : T → Option TaskStat} {o : Option TaskStat} {u : T}
    (h : Function.update stat t o u ≠ none) : stat u ≠ none ∨ u = t := by
  by_cases hu : u = t
  · exact .inr hu
  · rw [Function.update_of_ne hu] at h
    exact .inl h

theorem requeue_eq (h : requeue s = .ok ((), s')) :
    s.stat s.current = some TASK_RUNNING ∧ s' = { s with
        stat := Function.update s.stat s.current (some TASK_READY)
        ticks := Function.update s.ticks s.current (s.prio s.current)
        ready_threads_list := s.ready_threads_list ++ [s.current] } ∨
      s.stat s.current ≠ some TASK_RUNNING ∧ s' = s := by
  unfold requeue setStat at h
  rw [Prog.bind_of_ok (a := s) (t := s) rfl] at h
  split at h
  case isTrue hrunning =>
    simp only [Prog.run_modify_bind] at h
    exact .inl ⟨hrunning, appendReady_eq h⟩
  case isFalse hrunning =>
    cases h
    exact .inr ⟨hrunning, rfl⟩

theorem schedule_switched (h : schedule s = .ok ((), s')) : Switched s s' := by
  unfold schedule at h
  rw [Prog.bind_of_ok (a := s) (t := s) rfl] at h
  obtain ⟨⟨⟩, s1, hassert, h1⟩ := Prog.bind_eq_ok.1 h
  obtain ⟨-, rfl⟩ := Prog.assert_eq_ok.1 hassert
  obtain ⟨⟨⟩, s2, hrequeue, h2⟩ := Prog.bind_eq_ok.1 h1
  rw [Prog.bind_of_ok (a := s2) (t := s2) rfl] at h2
  obtain ⟨hrunning, rfl⟩ | ⟨hrunning, rfl⟩ := requeue_eq hrequeue
  · rw [if_neg (List.append_ne_nil_of_right_ne_nil _ (List.cons_ne_nil _ _))] at h2
    obtain ⟨hlist, hticks, hstat⟩ := switchToNext_eq h2
    refine ⟨.inl ⟨hrunning, hlist, hticks⟩, fun u hu => ?_⟩
    rw [hstat] at hu
    obtain hu | rfl := ne_none_of_update hu
    · exact (ne_none_of_update hu).imp_right .inl
    · exact .inr (.inr rfl)
  · split at h2
    case isTrue hempty =>
      obtain ⟨⟨⟩, s3, hwake, h3⟩ := Prog.bind_eq_ok.1 h2
      obtain ⟨hlist, hticks, hstat⟩ := switchToNext_eq h3
      rw [threadUnblock_eq hwake] at hlist hticks hstat
      obtain ⟨hidle, -⟩ := List.cons.inj hlist
      refine ⟨.inr ⟨hrunning, fun hne => absurd hempty hne, hticks⟩, fun u hu => ?_⟩
      rw [hstat] at hu
      obtain hu | rfl := ne_none_of_update hu
      · obtain hu | rfl := ne_none_of_update hu
        · exact .inl hu
        · exact .inr (.inr hidle)
      · exact .inr (.inr rfl)
    case isFalse hne =>
      obtain ⟨hlist, hticks, hstat⟩ := switchToNext_eq h2
      refine ⟨.inr ⟨hrunning, fun _ => ⟨hlist, hstat⟩, hticks⟩, fun u hu => ?_⟩
      rw [hstat] at hu
      exact (ne_none_of_update hu).imp_right .inr

/-- What a step does while some thread is ready: the first of the list is taken, a new thread joins it at the
    end, a thread that was woken up goes in front, or the list stays as it is. -/
inductive Effect (s : State T) (c : Call T) (s' : State T) : Prop where
  | switched (l : List T) (hlist : s.ready_threads_list ++ l = s'.current :: s'.ready_threads_list)
      (htick : c.isTick = true → s.current ∈ l) (hticks : ∀ u, u ∉ l → s'.ticks u = s.ticks u)
      (hstat : ∀ u, s'.stat u ≠ none → s.stat u ≠ none)
  | joined (u : T) (htick : c.isTick = false) (hcur : s'.current = s.current)
      (hlist : s'.ready_threads_list = s.ready_threads_list ++ [u])
      (hticks : ∀ v, v ≠ u → s'.ticks v = s.ticks v) (hstat : ∀ v, s'.stat v ≠ none → s.stat v ≠ none ∨ v = u)
  | woken (u : T) (htick : c.isTick = false) (hcur : s'.current = s.current)
      (hlist : s'.ready_threads_list = u :: s.ready_threads_list) (hticks : s'.ticks = s.ticks)
      (hstat : ∀ v, s'.stat v ≠ none → s.stat v ≠ none)
  | stayed (hcur : s'.current = s.current) (hlist : s'.ready_threads_list = s.ready_threads_list)
      (htick : s'.ticks s.current + c.isTick.toNat = s.ticks s.current)
      (hticks : ∀ u, u ≠ s.current → s'.ticks u = s.ticks u) (hstat : ∀ u, s'.stat u ≠ none → s.stat u ≠ none)

omit [DecidableEq T] in
theorem Inv.ne_none_of_ready (h : Inv s) (ht : t ∈ s.ready_threads_list) : s.stat t ≠ none := by
  rw [(h.mem_iff t).1 ht]
  exact Option.some_ne_none _

omit [DecidableEq T] in
theorem Inv.current_ne_none (h : Inv s) : s.stat s.current ≠ none := by
  rw [h.current]
  exact Option.some_ne_none _

omit [DecidableEq T] in
/-- The thread that `schedule` takes off a list that starts with the ready threads was ready. -/
theorem Inv.taken_ne_none (h : Inv s) {l : List T} (hne : s.ready_threads_list ≠ [])
    (hlist : s.ready_threads_list ++ l = s'.current :: s'.ready_threads_list) : s.stat s'.current ≠ none := by
  cases hl : s.ready_threads_list with
  | nil => exact absurd hl hne
  | cons next rest =>
      rw [hl] at hlist
      obtain ⟨rfl, -⟩ := List.cons.inj hlist
      exact h.ne_none_of_ready (by rw [hl]; exact List.mem_cons_self)

/-- The current thread gives up the processor for good, or until it is woken up. -/
theorem Effect.of_leave (hinv : Inv s) (hne : s.ready_threads_list ≠ []) (h : schedule s1 = .ok ((), s'))
    (htick : c.isTick = false) {l : List T} (hlist : s1.ready_threads_list = s.ready_threads_list ++ l)
    (hticks : s1.ticks = s.ticks) (hcur : s1.current = s.current) {stat : TaskStat}
    (hstat : s1.stat = Function.update s.stat s.current (some stat)) (hleave : stat ≠ TASK_RUNNING) :
    Effect s c s' := by
  have hsw := schedule_switched h
  have hnot : s1.stat s1.current ≠ some TASK_RUNNING := by
    rw [hstat, hcur, Function.update_self]
    exact fun heq => hleave (Option.some.inj heq)
  obtain ⟨hrunning, -, -⟩ | ⟨-, htaken, hticks'⟩ := hsw.list
  · exact absurd hrunning hnot
  · have hne1 : s1.ready_threads_list ≠ [] := by
      rw [hlist]
      exact List.append_ne_nil_of_left_ne_nil hne _
    have heq := hlist.symm.trans (htaken hne1).1
    refine .switched l heq (fun ht => absurd ht (by rw [htick]; decide)) (fun u _ => by rw [hticks', hticks]) ?_
    intro u hu
    obtain hu | rfl | rfl := hsw.stat u hu
    · rw [hstat] at hu
      obtain hu | rfl := ne_none_of_update hu
      · exact hu
      · exact hinv.current_ne_none
    · rw [hcur]
      exact hinv.current_ne_none
    · exact hinv.taken_ne_none hne heq

theorem intrTimeHdl_effect (hinv : Inv s) (hne : s.ready_threads_list ≠ []) (h : intrTimeHdl s = .ok ((), s')) :
    Effect s .tick s' := by
  unfold intrTimeHdl setIntrStat at h
  rw [Prog.run_modify_bind,
    Prog.bind_of_ok (a := { s with intr := .intr_off }) (t := { s with intr := .intr_off }) rfl] at h
  split at h
  case isTrue hz =>
    have hsw := schedule_switched h
    obtain ⟨-, htaken, hticks⟩ | ⟨hnot, -, -⟩ := hsw.list
    · refine .switched [s.current] htaken (fun _ => List.mem_singleton_self _) (fun u hu => ?_) fun u hu => ?_
      · rw [hticks]
        exact Function.update_of_ne (fun heq => hu (List.mem_singleton.2 heq)) _ _
      · obtain hu | rfl | rfl := hsw.stat u hu
        · exact hu
        · exact hinv.current_ne_none
        · exact hinv.taken_ne_none hne htaken
    · exact absurd hinv.current hnot
  case isFalse hz =>
    rw [Prog.modify_eq_ok.1 h]
    refine .stayed rfl rfl ?_ (fun u hu => Function.update_of_ne hu _ _) fun _ hu => hu
    show Function.update s.ticks s.current (s.ticks s.current - 1) s.current + 1 = s.ticks s.current
    rw [Function.update_self]
    exact Nat.sub_add_cancel (Nat.pos_of_ne_zero hz)

/-- Who blocks is followed by the first of the list. -/
theorem threadBlock_taken {stat : TaskStat} (h : threadBlock stat s = .ok ((), s'))
    (hne : s.ready_threads_list ≠ []) :
    s.ready_threads_list = s'.current :: s'.ready_threads_list ∧
      s'.stat =
        Function.update (Function.update s.stat s.current (some stat)) s'.current (some TASK_RUNNING) := by
  unfold threadBlock setIntrStat setStat at h
  obtain ⟨⟨⟩, s1, hassert, h1⟩ := Prog.bind_eq_ok.1 h
  obtain ⟨hsleep, rfl⟩ := Prog.assert_eq_ok.1 hassert
  rw [Prog.run_modify_bind,
    Prog.bind_of_ok (a := { s with intr := .intr_off }) (t := { s with intr := .intr_off }) rfl,
    Prog.run_modify_bind] at h1
  obtain ⟨hrunning, -, -⟩ | ⟨-, htaken, -⟩ := (schedule_switched h1).list
  · have heq : Function.update s.stat s.current (some stat) s.current = some TASK_RUNNING := hrunning
    rw [Function.update_self] at heq
    cases heq
    cases hsleep
  · exact htaken hne

theorem threadBlock_effect {stat : TaskStat} (hinv : Inv s) (hne : s.ready_threads_list ≠ [])
    (h : threadBlock stat s = .ok ((), s')) : Effect s (.block stat) s' := by
  unfold threadBlock setIntrStat setStat at h
  obtain ⟨⟨⟩, s1, hassert, h1⟩ := Prog.bind_eq_ok.1 h
  obtain ⟨hsleep, rfl⟩ := Prog.assert_eq_ok.1 hassert
  rw [Prog.run_modify_bind,
    Prog.bind_of_ok (a := { s with intr := .intr_off }) (t := { s with intr := .intr_off }) rfl,
    Prog.run_modify_bind] at h1
  refine .of_leave hinv hne h1 rfl (List.append_nil _).symm rfl rfl rfl ?_
  rintro rfl
  cases hsleep

theorem threadYield_effect (hinv : Inv s) (hne : s.ready_threads_list ≠ [])
    (h : threadYield s = .ok ((), s')) : Effect s .yield s' := by
  unfold threadYield setIntrStat setStat at h
  rw [Prog.bind_of_ok (a := s) (t := s) rfl, Prog.run_modify_bind] at h
  obtain ⟨⟨⟩, s1, happend, h1⟩ := Prog.bind_eq_ok.1 h
  rw [Prog.run_modify_bind, appendReady_eq happend] at h1
  have hready : TASK_READY ≠ TASK_RUNNING := by decide
  exact .of_leave hinv hne h1 rfl rfl rfl rfl rfl hready

theorem threadExit_main_effect (hinv : Inv s) (hne : s.ready_threads_list ≠ [])
    (hmain : s.current = s.main_thread) (h : threadExit s.main_thread true s = .ok ((), s')) :
    Effect s .exitMain s' := by
  unfold threadExit setIntrStat setStat at h
  simp only [Prog.run_modify_bind] at h
  rw [Prog.bind_of_ok rfl] at h
  simp only [ne_eq, not_true_eq_false, if_false, if_true] at h
  have hdied : TASK_DIED ≠ TASK_RUNNING := by decide
  exact .of_leave hinv hne h rfl (List.append_nil _).symm rfl rfl (by rw [hmain]) hdied

theorem threadExit_effect {u : T} (hu : s.stat u = some TASK_HANGING)
    (h : threadExit u false s = .ok ((), s')) : Effect s (.exit u) s' := by
  have hdied : ∀ v, Function.update s.stat u (some TASK_DIED) v ≠ none → s.stat v ≠ none := by
    intro v hv
    obtain hv | rfl := ne_none_of_update hv
    · exact hv
    · rw [hu]
      exact Option.some_ne_none _
  unfold threadExit setIntrStat setStat at h
  simp only [Prog.run_modify_bind] at h
  rw [Prog.bind_of_ok rfl] at h
  split at h
  · simp only [Prog.run_modify_bind] at h
    cases h
    refine .stayed rfl rfl rfl (fun _ _ => rfl) fun v hv => ?_
    obtain hv | rfl := ne_none_of_update hv
    · exact hdied v hv
    · rw [hu]
      exact Option.some_ne_none _
  · cases h
    exact .stayed rfl rfl rfl (fun _ _ => rfl) hdied

theorem addReady_effect {prio : Nat} (htick : c.isTick = false) (h : addReady t prio s = .ok ((), s')) :
    Effect s c s' := by
  unfold addReady setStat at h
  simp only [Prog.run_modify_bind] at h
  rw [appendReady_eq h]
  exact .joined t htick rfl rfl (fun v hv => Function.update_of_ne hv _ _) fun v hv => ne_none_of_update hv

omit [DecidableEq T] in
/-- The interrupt flag that the next thread restores is no part of the effect. -/
theorem Effect.intr (h : Effect s c s') (intr : IntrStat) : Effect s c { s' with intr := intr } := by
  cases h with
  | switched l hlist htick hticks hstat => exact .switched l hlist htick hticks hstat
  | joined u htick hcur hlist hticks hstat => exact .joined u htick hcur hlist hticks hstat
  | woken u htick hcur hlist hticks hstat => exact .woken u htick hcur hlist hticks hstat
  | stayed hcur hlist htick hticks hstat => exact .stayed hcur hlist htick hticks hstat

theorem Step.effect (hinv : Inv s) (hne : s.ready_threads_list ≠ []) (hstep : Step s c s') : Effect s c s' := by
  obtain ⟨hallowed, s1, intr, hrun, rfl⟩ := hstep
  refine Effect.intr ?_ intr
  cases c with
  | threadStart u prio => exact addReady_effect rfl hrun
  | tick => exact intrTimeHdl_effect hinv hne hrun
  | block stat => exact threadBlock_effect hinv hne hrun
  | unblock u =>
      have hsleep : (s.stat u).any TaskStat.sleeping = true := hallowed
      rw [threadUnblock_eq hrun]
      refine .woken u rfl rfl rfl rfl fun v hv => ?_
      obtain hv | rfl := ne_none_of_update hv
      · exact hv
      · intro heq
        rw [heq] at hsleep
        cases hsleep
  | yield => exact threadYield_effect hinv hne hrun
  | fork child =>
      have hadd : addReady child (s.prio s.current) s = .ok ((), s1) := hrun
      exact addReady_effect rfl hadd
  | exitMain =>
      have hexit : threadExit s.main_thread true s = .ok ((), s1) := hrun
      exact threadExit_main_effect hinv hne hallowed hexit
  | exit u => exact threadExit_effect hallowed.2 hrun

/-! ## The time that is left before a ready thread runs -/

/-- The timer interrupts that the threads of `L` may use up, but those behind the thread that waits. -/
def credit (L : Finset T) (after : List T) (s : State T) : Nat :=
  ∑ u ∈ L, if u ∈ after then 0 else s.ticks u + 1

/-- `t` waits for its turn, and every other thread is behind it or in `L`. -/
structure Waits (L : Finset T) (t : T) (after : List T) (s : State T) : Prop where
  list : ∃ before, s.ready_threads_list = before ++ t :: after
  others : ∀ u, s.stat u ≠ none → u = t ∨ u ∈ after ∨ u ∈ L

variable {L : Finset T} {after after' : List T}

omit [DecidableEq T] in
theorem Waits.mem (h : Waits L t after s) : t ∈ s.ready_threads_list := by
  obtain ⟨before, hlist⟩ := h.list
  rw [hlist]
  exact List.mem_append_right _ List.mem_cons_self

omit [DecidableEq T] in
theorem Waits.not_behind (h : Waits L t after s) (hinv : Inv s) {u : T} (hu : s.stat u ≠ some TASK_READY) :
    u ∉ after := by
  intro hmem
  obtain ⟨before, hlist⟩ := h.list
  apply hu
  rw [← hinv.mem_iff, hlist]
  exact List.mem_append_right _ (List.mem_cons_of_mem _ hmem)

omit [DecidableEq T] in
/-- The current thread still has its time slice. -/
theorem Waits.current (h : Waits L t after s) (hinv : Inv s) : s.current ∈ L ∧ s.current ∉ after := by
  have hready : s.stat s.current ≠ some TASK_READY := by
    rw [hinv.current]
    decide
  have hnot := h.not_behind hinv hready
  refine ⟨?_, hnot⟩
  obtain heq | hmem | hmem := h.others _ hinv.current_ne_none
  · rw [heq] at hready
    exact absurd ((hinv.mem_iff t).1 h.mem) hready
  · exact absurd hmem hnot
  · exact hmem

theorem credit_le (h : ∀ u, u ∉ after' → u ∉ after ∧ s'.ticks u ≤ s.ticks u) :
    credit L after' s' ≤ credit L after s := by
  refine Finset.sum_le_sum fun u _ => ?_
  by_cases hu : u ∈ after'
  · rw [if_pos hu]
    exact Nat.zero_le _
  · obtain ⟨hafter, hticks⟩ := h u hu
    rw [if_neg hu, if_neg hafter]
    exact Nat.succ_le_succ hticks

/-- Who goes to the end of the list, or uses up a part of its time slice, loses it. -/
theorem credit_lt (h : ∀ u, u ∉ after' → u ∉ after ∧ s'.ticks u ≤ s.ticks u) {u : T} (hu : u ∈ L)
    (hafter : u ∉ after) (hless : u ∈ after' ∨ s'.ticks u < s.ticks u) :
    credit L after' s' < credit L after s := by
  refine Finset.sum_lt_sum (fun v _ => ?_) ⟨u, hu, ?_⟩
  · by_cases hv : v ∈ after'
    · rw [if_pos hv]
      exact Nat.zero_le _
    · obtain ⟨hvafter, hticks⟩ := h v hv
      rw [if_neg hv, if_neg hvafter]
      exact Nat.succ_le_succ hticks
  · rw [if_neg hafter]
    obtain hmem | hlt := hless
    · rw [if_pos hmem]
      exact Nat.succ_pos _
    · split
      · exact Nat.succ_pos _
      · exact Nat.succ_lt_succ hlt

/-- The step lemma: whoever is taken, starts or is woken up, only a timer interrupt counts, and it always
    does. -/
theorem Effect.waits (h : Effect s c s') (hinv : Inv s) (hw : Waits L t after s) :
    s'.current = t ∨
      ∃ after', Waits L t after' s' ∧ credit L after' s' + c.isTick.toNat ≤ credit L after s := by
  obtain ⟨before, hready⟩ := hw.list
  obtain ⟨hcurL, hcur_after⟩ := hw.current hinv
  cases h with
  | switched l hlist htick hticks hstat =>
      cases before with
      | nil =>
          rw [hready] at hlist
          exact .inl (List.cons.inj hlist).1.symm
      | cons next before =>
          rw [hready] at hlist
          obtain ⟨-, hrest⟩ := List.cons.inj hlist
          have hle : ∀ u, u ∉ after ++ l → u ∉ after ∧ s'.ticks u ≤ s.ticks u := by
            intro u hu
            rw [List.mem_append, not_or] at hu
            exact ⟨hu.1, (hticks u hu.2).le⟩
          refine .inr ⟨after ++ l, ⟨⟨before, ?_⟩, fun u hu => ?_⟩, ?_⟩
          · exact hrest.symm.trans (List.append_assoc ..)
          · obtain heq | hmem | hmem := hw.others u (hstat u hu)
            · exact .inl heq
            · exact .inr (.inl (List.mem_append_left _ hmem))
            · exact .inr (.inr hmem)
          · cases hc : c.isTick with
            | true => exact credit_lt hle hcurL hcur_after (.inl (List.mem_append_right _ (htick hc)))
            | false => exact credit_le hle
  | joined u htick hcur hlist hticks hstat =>
      refine .inr ⟨after ++ [u], ⟨⟨before, ?_⟩, fun v hv => ?_⟩, ?_⟩
      · rw [hlist, hready, List.append_assoc, List.cons_append]
      · obtain hv | rfl := hstat v hv
        · obtain heq | hmem | hmem := hw.others v hv
          · exact .inl heq
          · exact .inr (.inl (List.mem_append_left _ hmem))
          · exact .inr (.inr hmem)
        · exact .inr (.inl (List.mem_append_right _ (List.mem_singleton_self _)))
      · rw [htick]
        refine credit_le fun v hv => ?_
        rw [List.mem_append, List.mem_singleton, not_or] at hv
        exact ⟨hv.1, (hticks v hv.2).le⟩
  | woken u htick hcur hlist hticks hstat =>
      refine .inr ⟨after, ⟨⟨u :: before, ?_⟩, fun v hv => hw.others v (hstat v hv)⟩, ?_⟩
      · rw [hlist, hready, List.cons_append]
      · rw [htick]
        refine credit_le fun v hv => ⟨hv, ?_⟩
        rw [hticks]
  | stayed hcur hlist htick hticks hstat =>
      have hle : ∀ u, u ∉ after → u ∉ after ∧ s'.ticks u ≤ s.ticks u := by
        intro u hu
        refine ⟨hu, ?_⟩
        by_cases heq : u = s.current
        · rw [heq]
          exact Nat.le.intro htick
        · exact (hticks u heq).le
      refine .inr ⟨after, ⟨⟨before, by rw [hlist, hready]⟩, fun v hv => hw.others v (hstat v hv)⟩, ?_⟩
      cases hc : c.isTick with
      | true =>
          rw [hc] at htick
          exact credit_lt hle hcurL hcur_after (.inr (Nat.lt_of_succ_le htick.le))
      | false => exact credit_le hle

theorem RunsDuring.snoc {cs : List (Call T)} (h : RunsDuring t s cs s1) (hstep : Step s1 c s') :
    RunsDuring t s (cs ++ [c]) s' := by
  obtain ⟨cs1, cs2, s2, rfl, h1, h2, hcur⟩ := h
  exact ⟨cs1, cs2 ++ [c], s2, List.append_assoc .., h1, h2.snoc hstep, hcur⟩

theorem RunsDuring.last {cs : List (Call T)} (hrun : Run Step s cs s') (hcur : s'.current = t) :
    RunsDuring t s cs s' :=
  ⟨cs, [], s', (List.append_nil _).symm, hrun, .nil, hcur⟩

/-- The run lemma. -/
theorem waits_or_runs {cs : List (Call T)} (hinv : Inv s) (hw : Waits L t after s) (hrun : Run Step s cs s') :
    RunsDuring t s cs s' ∨
      ∃ after', Waits L t after' s' ∧ credit L after' s' + timerTicks cs ≤ credit L after s := by
  induction hrun with
  | nil => exact .inr ⟨after, hw, le_refl _⟩
  | snoc hrun hstep ih =>
      rename_i cs s1 s' c
      obtain hruns | ⟨after1, hw1, hle1⟩ := ih
      · exact .inl (hruns.snoc hstep)
      · have hinv1 : Inv s1 := hrun.invariant (fun _ _ _ hi hs => hs.inv hi) hinv
        have heffect := hstep.effect hinv1 (List.ne_nil_of_mem hw1.mem)
        obtain hcur | ⟨after', hw', hle'⟩ := heffect.waits hinv1 hw1
        · exact .inl (.last (hrun.snoc hstep) hcur)
        · refine .inr ⟨after', hw', ?_⟩
          have hcount : timerTicks (cs ++ [c]) = timerTicks cs + c.isTick.toNat := by
            unfold timerTicks
            rw [List.countP_append, List.countP_singleton]
            cases c.isTick <;> rfl
          rw [hcount]
          omega

end Proofs

/-! ## A ready thread gets its turn -/

/-- However many threads are woken up and put in front of it, started, forked or switched to, a ready thread
    is the current one before the timer has counted the time slices, and one interrupt more for each, of the
    threads that were not behind it. -/
theorem runs_within {s s' : State T} {t : T} {before after : List T} {L : Finset T} {cs : List (Call T)}
    (h : Reachable s) (hready : s.ready_threads_list = before ++ t :: after)
    (hL : ∀ u, s.stat u ≠ none → u = t ∨ u ∈ after ∨ u ∈ L) (hrun : Run Step s cs s')
    (hticks : ∑ u ∈ L, (s.ticks u + 1) ≤ timerTicks cs) : RunsDuring t s cs s' := by
  have hinv := h.inv
  have hw : Waits L t after s := ⟨⟨before, hready⟩, hL⟩
  obtain hruns | ⟨after', hw', hle⟩ := waits_or_runs hinv hw hrun
  · exact hruns
  · exfalso
    -- the current thread at the end of the run has not used up its slice
    have hinv' : Inv s' := hrun.invariant (fun _ _ _ hi hs => hs.inv hi) hinv
    obtain ⟨hcurL, hcur_after⟩ := hw'.current hinv'
    have hpos : 0 < credit L after' s' := by
      refine Finset.sum_pos' (fun _ _ => Nat.zero_le _) ⟨s'.current, hcurL, ?_⟩
      rw [if_neg hcur_after]
      exact Nat.succ_pos _
    have hstart : credit L after s ≤ ∑ u ∈ L, (s.ticks u + 1) := by
      refine Finset.sum_le_sum fun u _ => ?_
      split
      · exact Nat.zero_le _
      · exact le_refl _
    omega

theorem exists_ticks {s : State T} (hinv : Inv s) (n : Nat) : ∃ s', Run Step s (List.replicate n .tick) s' := by
  induction n with
  | zero => exact ⟨s, .nil⟩
  | succ n ih =>
      obtain ⟨s1, hrun⟩ := ih
      have hinv1 : Inv s1 := hrun.invariant (fun _ _ _ hi hs => hs.inv hi) hinv
      obtain ⟨s2, htick, -⟩ := Call.run_ok (c := .tick) hinv1 trivial
      rw [List.replicate_succ']
      exact ⟨s2, hrun.snoc ⟨trivial, s2, s2.intr, htick, rfl⟩⟩

/-- After `thread_init` the idle thread waits for main and for init. -/
theorem runs_within_idle : ∃ s', RunsDuring 1 booted (List.replicate 64 .tick) s' := by
  obtain ⟨s', hrun⟩ := exists_ticks booted_initial.inv 64
  have hL : ∀ u, booted.stat u ≠ none → u = 1 ∨ u ∈ [] ∨ u ∈ ({0, 2} : Finset Nat) := by
    intro u hu
    by_contra hnot
    simp at hnot
    exact hu (booted_initial.others u hnot.2.1 hnot.1 hnot.2.2)
  have hready : booted.ready_threads_list = [2] ++ 1 :: [] := rfl
  exact ⟨s', runs_within ⟨booted, 2, [], booted_initial, .nil⟩ hready hL hrun (by decide)⟩

/-! ## A ready thread may be passed over -/

/-- A step after which some other thread than `t` runs. -/
def StepPast (t : T) (s : State T) (c : Call T) (s' : State T) : Prop := Step s c s' ∧ s'.current ≠ t

/-- Two threads that take turns: the one that runs wakes the other up, which goes in front of `t`, and
    blocks. -/
theorem exists_relay {s : State T} {t b : T} (hinv : Inv s) (ht : t ∈ s.ready_threads_list)
    (hb : s.stat b = some TASK_BLOCKED) :
    ∃ s', Run (StepPast t) s [.unblock b, .block TASK_BLOCKED] s' ∧ Inv s' ∧ t ∈ s'.ready_threads_list ∧
      s'.current = b ∧ s'.stat s.current = some TASK_BLOCKED := by
  have hcur_t : s.current ≠ t := by
    rintro rfl
    have hready := (hinv.mem_iff _).1 ht
    rw [hinv.current] at hready
    cases hready
  have hb_t : b ≠ t := by
    rintro rfl
    have hready := (hinv.mem_iff _).1 ht
    rw [hb] at hready
    cases hready
  have hb_cur : s.current ≠ b := by
    rintro rfl
    rw [hinv.current] at hb
    cases hb
  have hwake : (Call.unblock b).Allowed s := by
    show (s.stat b).any TaskStat.sleeping = true
    rw [hb]
    rfl
  obtain ⟨s1, hrun1, hinv1⟩ := Call.run_ok hinv hwake
  have heq1 := threadUnblock_eq hrun1
  have hstep1 : Step s (.unblock b) s1 := ⟨hwake, s1, s1.intr, hrun1, rfl⟩
  have hblock : (Call.block TASK_BLOCKED).Allowed s1 := ⟨rfl, fun _ => rfl⟩
  obtain ⟨s2, hrun2, hinv2⟩ := Call.run_ok hinv1 hblock
  have hstep2 : Step s1 (.block TASK_BLOCKED) s2 := ⟨hblock, s2, s2.intr, hrun2, rfl⟩
  obtain ⟨hlist, hstat⟩ := threadBlock_taken hrun2 (by rw [heq1]; exact List.cons_ne_nil _ _)
  rw [heq1] at hlist hstat
  obtain ⟨rfl, hrest⟩ := List.cons.inj hlist
  refine ⟨s2, .cons ⟨hstep1, ?_⟩ (.single ⟨hstep2, hb_t⟩), hinv2, ?_, rfl, ?_⟩
  · rw [heq1]
    exact hcur_t
  · rw [← hrest]
    exact ht
  · rw [hstat, Function.update_of_ne hb_cur, Function.update_self]

/-- The calls of `n` relays between `a` and `b`. -/
def relays (a b : T) : Nat → List (Call T)
  | 0 => []
  | n + 1 => [.unblock b, .block TASK_BLOCKED] ++ relays b a n

/-- Nothing but the timer bounds the waiting: from every reachable state in which some thread is blocked, the
    current thread and that one can pass the processor to each other any number of times, and a ready thread
    does not run. -/
theorem passed_over {s : State T} {t b : T} (h : Reachable s) (ht : t ∈ s.ready_threads_list)
    (hb : s.stat b = some TASK_BLOCKED) (n : Nat) :
    ∃ s', Run (StepPast t) s (relays s.current b n) s' ∧ t ∈ s'.ready_threads_list := by
  have hinv := h.inv
  clear h
  induction n generalizing s b with
  | zero => exact ⟨s, .nil, ht⟩
  | succ n ih =>
      obtain ⟨s1, hrun1, hinv1, ht1, rfl, hblocked⟩ := exists_relay hinv ht hb
      obtain ⟨s2, hrun2, ht2⟩ := ih ht1 hblocked hinv1
      exact ⟨s2, hrun1.append hrun2, ht2⟩

/-- Main blocks after `thread_init`, and then init and main pass over the idle thread. -/
theorem passed_over_idle : ∃ s1 s', Step booted (.block TASK_BLOCKED) s1 ∧
    Run (StepPast 1) s1 (relays s1.current 0 3) s' ∧ 1 ∈ s'.ready_threads_list := by
  have hallowed : (Call.block TASK_BLOCKED).Allowed booted := ⟨rfl, fun _ => rfl⟩
  obtain ⟨s1, hrun, -⟩ := Call.run_ok booted_initial.inv hallowed
  have hstep : Step booted (.block TASK_BLOCKED) s1 := ⟨hallowed, s1, s1.intr, hrun, rfl⟩
  have hne : booted.ready_threads_list ≠ [] := List.cons_ne_nil _ _
  obtain ⟨hlist, hstat⟩ := threadBlock_taken hrun hne
  have hready : [2, 1] = s1.current :: s1.ready_threads_list := hlist
  obtain ⟨hcur, hrest⟩ := List.cons.inj hready
  have hmain : s1.stat 0 = some TASK_BLOCKED := by
    rw [hstat, ← hcur]
    rfl
  have ht : 1 ∈ s1.ready_threads_list := by
    rw [← hrest]
    exact List.mem_singleton_self 1
  have hreach : Reachable s1 := ⟨booted, 2, [.block TASK_BLOCKED], booted_initial, .single hstep⟩
  obtain ⟨s', hpast, hmem⟩ := passed_over hreach ht hmain 3
  exact ⟨s1, s', hstep, hpast, hmem⟩

end Sched

end RecoverOS
