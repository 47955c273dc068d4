import Mathlib.Logic.Function.Basic
import RecoverOS.Base.Prog
import RecoverOS.Base.Run

set_option autoImplicit false

/-! # Locks (`thread/sync.c`)

One `struct lock` and any number of threads that acquire and release it. A section that runs with
interrupts off is one step; elsewhere every access to the lock is a step of its own, and other threads
may run between any two steps. -/

namespace RecoverOS

namespace Sync

/-- Where a thread is in `lock_acquire` or `lock_release`. -/
inductive Pc where
  /-- In neither. -/
  | out
  /-- `lock_acquire`, before the test of `holder`. -/
  | testHolder
  /-- Before `sema_down`. -/
  | down
  /-- In `thread_block` of `sema_down`: its tag is in `waiters`. -/
  | blocked
  /-- Popped from `waiters` and ready: it will test `value` again. -/
  | woken
  /-- Before `plock->holder = running_thread()`. -/
  | setHolder
  /-- Before `ASSERT(plock->holder_repeat_nr == 0)`. -/
  | assertZero
  /-- Before the load of `++plock->holder_repeat_nr`. -/
  | incr
  /-- Before its store. -/
  | incrTo (n : Nat)
  /-- `lock_release`, before `ASSERT(plock->holder == running_thread())`. -/
  | assertHolder
  /-- Before the test of `holder_repeat_nr > 1`. -/
  | testNested
  /-- Before the load of `--plock->holder_repeat_nr`. -/
  | decr
  /-- Before its store. -/
  | decrTo (n : Nat)
  /-- Before `ASSERT(plock->holder_repeat_nr == 1)`. -/
  | assertOne
  /-- Before `plock->holder = NULL`. -/
  | clearHolder
  /-- Before `plock->holder_repeat_nr = 0`. -/
  | clearNr
  /-- Before `sema_up`. -/
  | up
  deriving DecidableEq

/-- After `sema_down` has taken the semaphore and before `sema_up` has given it back. -/
def Pc.critical : Pc → Bool
  | .out | .testHolder | .down | .blocked | .woken => false
  | _ => true

variable {T : Type} [DecidableEq T]

/-- A `struct lock` with its semaphore, and the threads that use it. `depth` counts the calls of
    `lock_acquire` a thread has completed and not yet released; nothing in the code reads it. -/
structure State (T : Type) where
  value : Nat
  waiters : List T
  holder : Option T
  holder_repeat_nr : Nat
  pc : T → Pc
  depth : T → Nat

namespace State

/-- `lock_init`. -/
def init : State T where
  value := 1
  waiters := []
  holder := none
  holder_repeat_nr := 0
  pc := fun _ => .out
  depth := fun _ => 0

/-- The thread goes on at `pc`. -/
def goto (s : State T) (t : T) (pc : Pc) : State T := { s with pc := Function.update s.pc t pc }

/-- The thread goes on at `pc`, at another nesting depth. -/
def nest (s : State T) (t : T) (pc : Pc) (n : Nat) : State T :=
  { s with pc := Function.update s.pc t pc, depth := Function.update s.depth t n }

end State

open State

/-! ## The code -/

/-- `thread_unblock`: only a blocked thread is made ready. -/
def threadUnblock (w : T) : Prog (State T) Unit := do
  let s ← Prog.get
  Prog.assert (s.pc w = .blocked)
  Prog.modify fun s => s.goto w .woken

/-- `sema_down`, up to the point where the thread is switched out or leaves the function. A thread that
    is resumed in `thread_block` starts again with the test of the loop. -/
def semaDown (t : T) : Prog (State T) Unit := do
  let s ← Prog.get
  if s.value = 0 then do
    Prog.assert (t ∉ s.waiters)
    Prog.modify fun s => { s.goto t .blocked with waiters := s.waiters ++ [t] }
  else do
    Prog.modify fun s => { s with value := s.value - 1 }
    let s ← Prog.get
    Prog.assert (s.value = 0)
    Prog.modify fun s => s.goto t .setHolder

/-- `sema_up`. -/
def semaUp : Prog (State T) Unit := do
  let s ← Prog.get
  Prog.assert (s.value = 0)
  match s.waiters with
  | [] => pure ()
  | w :: rest => do
      Prog.modify fun s => { s with waiters := rest }
      threadUnblock w
  Prog.modify fun s => { s with value := s.value + 1 }
  let s ← Prog.get
  Prog.assert (s.value = 1)

/-- The next step of thread `t` in `lock_acquire` or `lock_release`. -/
def run (t : T) : Prog (State T) Unit := do
  let s ← Prog.get
  match s.pc t with
  | .out | .blocked => pure ()
  | .testHolder => Prog.modify fun s => s.goto t (if s.holder = some t then .incr else .down)
  | .down | .woken => semaDown t
  | .setHolder => Prog.modify fun s => { s.goto t .assertZero with holder := some t }
  | .assertZero => do
      Prog.assert (s.holder_repeat_nr = 0)
      Prog.modify fun s => s.goto t .incr
  | .incr => Prog.modify fun s => s.goto t (.incrTo (s.holder_repeat_nr + 1))
  | .incrTo n => Prog.modify fun s => { s.nest t .out (s.depth t + 1) with holder_repeat_nr := n }
  | .assertHolder => do
      Prog.assert (s.holder = some t)
      Prog.modify fun s => s.goto t .testNested
  | .testNested =>
      Prog.modify fun s => s.goto t (if s.holder_repeat_nr > 1 then .decr else .assertOne)
  | .decr => Prog.modify fun s => s.goto t (.decrTo (s.holder_repeat_nr - 1))
  | .decrTo n => Prog.modify fun s => { s.nest t .out (s.depth t - 1) with holder_repeat_nr := n }
  | .assertOne => do
      Prog.assert (s.holder_repeat_nr = 1)
      Prog.modify fun s => s.goto t .clearHolder
  | .clearHolder => Prog.modify fun s => { s.goto t .clearNr with holder := none }
  | .clearNr => Prog.modify fun s => { s.goto t .up with holder_repeat_nr := 0 }
  | .up => do
      semaUp
      Prog.modify fun s => s.nest t .out 0

/-- One step of one thread: it calls `lock_acquire`, or `lock_release` on a lock it has acquired, or
    goes on in one of them. A blocked thread does not run. -/
inductive Step (s : State T) (t : T) : State T → Prop where
  | acquire : s.pc t = .out → Step s t (s.goto t .testHolder)
  | release : s.pc t = .out → 0 < s.depth t → Step s t (s.goto t .assertHolder)
  | run {s' : State T} : s.pc t ≠ .out → s.pc t ≠ .blocked → run t s = .ok ((), s') → Step s t s'

/-- The states that any interleaving of any threads leads to. -/
def Reachable (s : State T) : Prop := ∃ ts, Run Step State.init ts s

/-! ## The invariant -/

/-- The thread has taken the semaphore and not given it back. -/
def Owns (s : State T) (t : T) : Prop := 0 < s.depth t ∨ (s.pc t).critical = true

/-- What holds of the lock while `t` owns it, by the place where `t` is. -/
def OwnerOk (s : State T) (t : T) : Prop :=
  match s.pc t with
  | .out | .testHolder => 0 < s.depth t ∧ s.holder = some t ∧ s.holder_repeat_nr = s.depth t
  | .down | .blocked | .woken => False
  | .setHolder => s.depth t = 0 ∧ s.holder = none ∧ s.holder_repeat_nr = 0
  | .assertZero => s.depth t = 0 ∧ s.holder = some t ∧ s.holder_repeat_nr = 0
  | .incr => s.holder = some t ∧ s.holder_repeat_nr = s.depth t
  | .incrTo n => s.holder = some t ∧ s.holder_repeat_nr = s.depth t ∧ n = s.depth t + 1
  | .assertHolder | .testNested =>
      0 < s.depth t ∧ s.holder = some t ∧ s.holder_repeat_nr = s.depth t
  | .decr => 1 < s.depth t ∧ s.holder = some t ∧ s.holder_repeat_nr = s.depth t
  | .decrTo n => 1 < s.depth t ∧ s.holder = some t ∧ s.holder_repeat_nr = s.depth t ∧
      n = s.depth t - 1
  | .assertOne | .clearHolder => s.depth t = 1 ∧ s.holder = some t ∧ s.holder_repeat_nr = 1
  | .clearNr => s.depth t = 1 ∧ s.holder = none
  | .up => s.depth t = 1 ∧ s.holder = none ∧ s.holder_repeat_nr = 0

/-- The lock is free, or one thread owns it. -/
structure Inv (s : State T) : Prop where
  lock : (s.value = 1 ∧ s.holder = none ∧ s.holder_repeat_nr = 0 ∧ ∀ t, ¬ Owns s t) ∨
    (s.value = 0 ∧ ∃ t, Owns s t ∧ OwnerOk s t ∧ ∀ u, Owns s u → u = t)
  nodup : s.waiters.Nodup
  mem_iff : ∀ t, t ∈ s.waiters ↔ s.pc t = .blocked
  wake : s.value = 1 → s.waiters ≠ [] → ∃ t, s.pc t = .woken

section Steps

variable {s s' : State T} {t : T} {pc : Pc}

@[simp] theorem goto_pc_self : (s.goto t pc).pc t = pc := by
  simp [State.goto]

theorem goto_pc_of_ne {u : T} (h : u ≠ t) : (s.goto t pc).pc u = s.pc u := by
  simp [State.goto, h]

omit [DecidableEq T] in
theorem Inv.init : Inv (State.init : State T) where
  lock := by
    refine Or.inl ⟨rfl, rfl, rfl, ?_⟩
    rintro t (h | h)
    · exact absurd h (Nat.lt_irrefl 0)
    · cases h
  nodup := List.nodup_nil
  mem_iff t := by
    constructor
    · intro h
      cases h
    · intro h
      cases h
  wake _ h := absurd rfl h

omit [DecidableEq T] in
/-- What the invariant says once a thread is known to own the lock. -/
theorem Inv.owner (h : Inv s) (ho : Owns s t) :
    s.value = 0 ∧ OwnerOk s t ∧ ∀ u, Owns s u → u = t := by
  rcases h.lock with ⟨-, -, -, hfree⟩ | ⟨hv, u, -, hok, hone⟩
  · exact absurd ho (hfree t)
  · have htu := hone t ho
    subst htu
    exact ⟨hv, hok, hone⟩

/-- The owner of the lock goes on: nobody else is touched, and `value` and `waiters` stay. -/
theorem Inv.owner_step (h : Inv s) (ho : Owns s t)
    (hother : ∀ u, u ≠ t → s'.pc u = s.pc u ∧ s'.depth u = s.depth u)
    (hvalue : s'.value = s.value) (hwaiters : s'.waiters = s.waiters) (hpc : s.pc t ≠ .blocked)
    (hpc' : s'.pc t ≠ .blocked) (ho' : Owns s' t) (hok : OwnerOk s' t) : Inv s' := by
  obtain ⟨hv, -, hone⟩ := h.owner ho
  constructor
  case lock =>
    refine Or.inr ⟨by rw [hvalue, hv], t, ho', hok, fun u hu => ?_⟩
    by_contra hne
    obtain ⟨hpcu, hdepthu⟩ := hother u hne
    unfold Owns at hu
    rw [hpcu, hdepthu] at hu
    exact hne (hone u hu)
  case nodup => rw [hwaiters]; exact h.nodup
  case mem_iff =>
    intro u
    rw [hwaiters, h.mem_iff]
    by_cases hu : u = t
    · rw [hu]
      exact iff_of_false hpc hpc'
    · rw [(hother u hu).1]
  case wake =>
    intro h1
    rw [hvalue, hv] at h1
    cases h1

/-- A thread that does not own the lock goes on without touching it. -/
theorem Inv.bystander_step (h : Inv s) (hno : ¬ Owns s t) (hcrit : pc.critical = false)
    (hpc : s.pc t ≠ .blocked) (hpc' : pc ≠ .blocked) (hwoken : s.pc t ≠ .woken) :
    Inv (s.goto t pc) := by
  have howns : ∀ u, Owns (s.goto t pc) u ↔ Owns s u := by
    intro u
    by_cases hu : u = t
    · subst hu
      refine iff_of_false ?_ hno
      rintro (hd | hc)
      · exact hno (Or.inl hd)
      · rw [goto_pc_self, hcrit] at hc
        cases hc
    · unfold Owns
      rw [goto_pc_of_ne hu]
      rfl
  constructor
  case lock =>
    rcases h.lock with ⟨hv, hh, hn, hfree⟩ | ⟨hv, u, ho, hok, hone⟩
    · exact Or.inl ⟨hv, hh, hn, fun u hu => hfree u ((howns u).1 hu)⟩
    · refine Or.inr ⟨hv, u, (howns u).2 ho, ?_, fun w hw => hone w ((howns w).1 hw)⟩
      have hut : u ≠ t := fun heq => hno (heq ▸ ho)
      unfold OwnerOk at hok ⊢
      rw [goto_pc_of_ne hut]
      exact hok
  case nodup => exact h.nodup
  case mem_iff =>
    intro u
    by_cases hu : u = t
    · subst hu
      rw [goto_pc_self]
      exact iff_of_false (fun hmem => hpc ((h.mem_iff u).1 hmem)) hpc'
    · rw [goto_pc_of_ne hu]
      exact h.mem_iff u
  case wake =>
    intro hv hne
    obtain ⟨u, hu⟩ := h.wake hv hne
    have hut : u ≠ t := by
      rintro rfl
      exact hwoken hu
    exact ⟨u, by rwa [goto_pc_of_ne hut]⟩

/-- `sema_down` takes the semaphore or goes to sleep, and no assertion fails. -/
theorem semaDown_ok (h : Inv s) (hpc : s.pc t = .down ∨ s.pc t = .woken) :
    ∃ s', semaDown t s = .ok ((), s') ∧ Inv s' := by
  have hnb : s.pc t ≠ .blocked := by
    rcases hpc with hpc | hpc <;> simp [hpc]
  have hmem : t ∉ s.waiters := fun hm => hnb ((h.mem_iff t).1 hm)
  rcases h.lock with ⟨hv, hh, hn, hfree⟩ | ⟨hv, u, ho, hok, hone⟩
  · -- the semaphore is free: the thread becomes the owner
    have hv0 : s.value ≠ 0 := by omega
    have hd : s.depth t = 0 := by
      by_contra hne
      exact hfree t (Or.inl (Nat.pos_of_ne_zero hne))
    have hvd : s.value - 1 = 0 := by omega
    refine ⟨({ s with value := s.value - 1 } : State T).goto t .setHolder, ?_, ?_⟩
    · unfold semaDown
      rw [Prog.bind_of_ok (a := s) (t := s) rfl, if_neg hv0]
      simp only [Prog.run_modify_bind]
      rw [Prog.bind_of_ok (a := ({ s with value := s.value - 1 } : State T)) rfl,
        Prog.run_assert_bind hvd]
      rfl
    · constructor
      case lock =>
        refine Or.inr ⟨hvd, t, Or.inr ?_, ?_, fun u hu => ?_⟩
        · rw [goto_pc_self]
          rfl
        · unfold OwnerOk
          rw [goto_pc_self]
          exact ⟨hd, hh, hn⟩
        · by_contra hne
          unfold Owns at hu
          rw [goto_pc_of_ne hne] at hu
          exact hfree u hu
      case nodup => exact h.nodup
      case mem_iff =>
        intro u
        by_cases hu : u = t
        · subst hu
          rw [goto_pc_self]
          exact iff_of_false hmem (by simp)
        · rw [goto_pc_of_ne hu]
          exact h.mem_iff u
      case wake =>
        intro h1
        have h1' : s.value - 1 = 1 := h1
        omega
  · -- somebody owns it: the thread joins the waiters
    have htu : t ≠ u := by
      rintro rfl
      unfold OwnerOk at hok
      rcases hpc with hpc | hpc <;> rw [hpc] at hok <;> exact hok
    refine ⟨{ s.goto t .blocked with waiters := s.waiters ++ [t] }, ?_, ?_⟩
    · unfold semaDown
      rw [Prog.bind_of_ok (a := s) (t := s) rfl, if_pos hv, Prog.run_assert_bind hmem]
      rfl
    · constructor
      case lock =>
        refine Or.inr ⟨hv, u, ?_, ?_, fun w hw => ?_⟩
        · unfold Owns at ho ⊢
          have hu := @goto_pc_of_ne T _ s t .blocked u (Ne.symm htu)
          exact ho.imp id fun hc => (congrArg Pc.critical hu).trans hc
        · unfold OwnerOk at hok ⊢
          have hu := @goto_pc_of_ne T _ s t .blocked u (Ne.symm htu)
          simp only [hu]
          exact hok
        · by_cases hwt : w = t
          · subst hwt
            exfalso
            rcases hw with hd | hc
            · exact htu (hone w (Or.inl hd))
            · have hself := @goto_pc_self T _ s w .blocked
              simp only [hself] at hc
              cases hc
          · have hw' := @goto_pc_of_ne T _ s t .blocked w hwt
            refine hone w ?_
            unfold Owns at hw ⊢
            simp only [hw'] at hw
            exact hw
      case nodup => exact List.nodup_append.2 ⟨h.nodup, List.pairwise_singleton _ t, by
        rintro a ha b hb rfl
        exact hmem ((List.mem_singleton.1 hb) ▸ ha)⟩
      case mem_iff =>
        intro w
        show w ∈ s.waiters ++ [t] ↔ (s.goto t .blocked).pc w = .blocked
        by_cases hwt : w = t
        · subst hwt
          simp
        · rw [goto_pc_of_ne hwt, List.mem_append, List.mem_singleton, h.mem_iff]
          simp [hwt]
      case wake =>
        intro h1
        have h1' : s.value = 1 := h1
        omega

theorem semaUp_nil (hv : s.value = 0) (hw : s.waiters = []) :
    semaUp s = .ok ((), { s with waiters := [], value := s.value + 1 }) := by
  have hval : s.value + 1 = 1 := by omega
  unfold semaUp
  rw [Prog.bind_of_ok (a := s) (t := s) rfl, Prog.run_assert_bind hv, hw]
  simp only [Prog.run_modify_bind]
  rw [Prog.bind_of_ok (a := ({ s with value := s.value + 1 } : State T)) rfl]
  rw [← hw]
  exact Prog.run_assert hval _

theorem semaUp_cons {w : T} {rest : List T} (hv : s.value = 0) (hw : s.waiters = w :: rest)
    (hpc : s.pc w = .blocked) :
    semaUp s = .ok ((), { s.goto w .woken with waiters := rest, value := s.value + 1 }) := by
  have hun : threadUnblock w { s with waiters := rest }
      = .ok ((), ({ s with waiters := rest } : State T).goto w .woken) := by
    unfold threadUnblock
    rw [Prog.bind_of_ok (a := ({ s with waiters := rest } : State T)) rfl, Prog.run_assert_bind hpc]
    rfl
  have hval : s.value + 1 = 1 := by omega
  unfold semaUp
  rw [Prog.bind_of_ok (a := s) (t := s) rfl, Prog.run_assert_bind hv, hw]
  simp only [Prog.run_modify_bind]
  rw [Prog.bind_of_ok hun]
  simp only [Prog.run_modify_bind]
  rw [Prog.bind_of_ok (a := ({ s.goto w .woken with waiters := rest, value := s.value + 1 } : State T))
    rfl]
  exact Prog.run_assert hval _

/-- The owner leaves, and nobody owns the lock. -/
theorem Inv.free (h : Inv s) (ho : Owns s t) (hv : s'.value = 1) (hh : s'.holder = none)
    (hn : s'.holder_repeat_nr = 0) (hd : s'.depth t = 0) (hpc : s'.pc t = .out)
    (hdepth : ∀ u, u ≠ t → s'.depth u = s.depth u)
    (hcrit : ∀ u, u ≠ t → (s'.pc u).critical = (s.pc u).critical) (hnodup : s'.waiters.Nodup)
    (hmem : ∀ u, u ∈ s'.waiters ↔ s'.pc u = .blocked)
    (hwake : s'.waiters ≠ [] → ∃ u, s'.pc u = .woken) : Inv s' where
  lock := by
    refine Or.inl ⟨hv, hh, hn, fun u hu => ?_⟩
    by_cases hut : u = t
    · subst hut
      rcases hu with hu | hu
      · omega
      · rw [hpc] at hu
        cases hu
    · unfold Owns at hu
      rw [hdepth u hut, hcrit u hut] at hu
      exact hut ((h.owner ho).2.2 u hu)
  nodup := hnodup
  mem_iff := hmem
  wake _ := hwake

/-- `sema_up` gives the semaphore back, wakes a waiter if there is one, and no assertion fails. -/
theorem semaUp_ok (h : Inv s) (hpc : s.pc t = .up) :
    ∃ s', (do semaUp; Prog.modify fun s => s.nest t .out 0 : Prog (State T) Unit) s = .ok ((), s') ∧
      Inv s' := by
  have ho : Owns s t := Or.inr (by rw [hpc]; rfl)
  obtain ⟨hv, hok, -⟩ := h.owner ho
  unfold OwnerOk at hok
  rw [hpc] at hok
  obtain ⟨-, hh, hn⟩ := hok
  have hval : s.value + 1 = 1 := by omega
  cases hw : s.waiters with
  | nil =>
      refine ⟨_, Prog.bind_of_ok (semaUp_nil hv hw) _, ?_⟩
      have hnb : ∀ u, s.pc u ≠ .blocked := fun u hu => by
        have hm := (h.mem_iff u).2 hu
        rw [hw] at hm
        cases hm
      refine h.free (t := t) ho hval hh hn (by simp [State.nest]) (by simp [State.nest])
        (fun u hu => by simp [State.nest, hu]) (fun u hu => by simp [State.nest, hu])
        List.nodup_nil (fun u => ?_) fun hne => absurd rfl hne
      refine iff_of_false (fun hm => by cases hm) fun hb => ?_
      by_cases hut : u = t
      · subst hut
        simp [State.nest] at hb
      · simp only [State.nest, Function.update_of_ne hut] at hb
        exact hnb u hb
  | cons w rest =>
      have hwb : s.pc w = .blocked := (h.mem_iff w).1 (by rw [hw]; exact List.mem_cons_self)
      have hwt : w ≠ t := by
        rintro rfl
        rw [hpc] at hwb
        cases hwb
      have hnodup := h.nodup
      rw [hw] at hnodup
      obtain ⟨hwr, hrest⟩ := List.nodup_cons.1 hnodup
      refine ⟨_, Prog.bind_of_ok (semaUp_cons hv hw hwb) _, ?_⟩
      refine h.free (t := t) ho hval hh hn (by simp [State.nest]) (by simp [State.nest])
        (fun u hu => by simp [State.nest, State.goto, hu]) (fun u hu => ?_) hrest (fun u => ?_)
        fun _ => ⟨w, ?_⟩
      · by_cases huw : u = w
        · subst huw
          simp [State.nest, State.goto, hu, hwb, Pc.critical]
        · simp [State.nest, State.goto, hu, huw]
      · by_cases hut : u = t
        · subst hut
          refine iff_of_false (fun hm => ?_) (by simp [State.nest])
          have hb := (h.mem_iff u).1 (by rw [hw]; exact List.mem_cons_of_mem _ hm)
          rw [hpc] at hb
          cases hb
        · by_cases huw : u = w
          · subst huw
            exact iff_of_false hwr (by simp [State.nest, State.goto, hut])
          · have hiff := h.mem_iff u
            rw [hw, List.mem_cons] at hiff
            simpa [State.nest, State.goto, hut, huw] using hiff
      · simp [State.nest, State.goto, hwt]

/-- The owner goes on at `pc`, and may change `holder` and `holder_repeat_nr`. -/
theorem Inv.owner_goto (h : Inv s) (ho : Owns s t) (hblocked : s.pc t ≠ .blocked)
    (hpc : pc ≠ .blocked) (hcrit : pc.critical = true) (hold : Option T) (nr : Nat)
    (hok : OwnerOk { s.goto t pc with holder := hold, holder_repeat_nr := nr } t) :
    Inv { s.goto t pc with holder := hold, holder_repeat_nr := nr } := by
  have hself : (s.goto t pc).pc t = pc := goto_pc_self
  refine h.owner_step ho (fun u hu => ⟨goto_pc_of_ne hu, rfl⟩) rfl rfl hblocked ?_ (Or.inr ?_) hok
  · exact fun heq => hpc (hself.symm.trans heq)
  · exact (congrArg Pc.critical hself).trans hcrit

/-- The owner leaves `lock_acquire` or `lock_release` and still owns the lock. -/
theorem Inv.owner_out (h : Inv s) (ho : Owns s t) (hblocked : s.pc t ≠ .blocked) {d nr : Nat}
    (hd : 0 < d) (hh : s.holder = some t) (hnr : nr = d) :
    Inv { s.nest t .out d with holder_repeat_nr := nr } := by
  have hdt : (s.nest t .out d).depth t = d := by simp [State.nest]
  have hpt : (s.nest t .out d).pc t = .out := by simp [State.nest]
  refine h.owner_step (t := t) ho (fun u hu => by simp [State.nest, hu]) rfl rfl hblocked
    (by simp [State.nest]) (Or.inl (by simp [State.nest, hd])) ?_
  unfold OwnerOk
  simp only [hpt]
  exact ⟨by rw [hdt]; exact hd, hh, by rw [hdt]; exact hnr⟩

/-- A step of a thread inside `lock_acquire` or `lock_release`: no assertion fails. -/
theorem run_ok (h : Inv s) (hout : s.pc t ≠ .out) (hblocked : s.pc t ≠ .blocked) :
    ∃ s', run t s = .ok ((), s') ∧ Inv s' := by
  have hself : ∀ pc, (s.goto t pc).pc t = pc := fun pc => goto_pc_self
  unfold run
  rw [Prog.bind_of_ok (a := s) (t := s) rfl]
  -- what is known where the thread owns the lock
  have hown : (s.pc t).critical = true → Owns s t ∧ OwnerOk s t := fun hc =>
    ⟨Or.inr hc, (h.owner (Or.inr hc)).2.1⟩
  unfold OwnerOk at hown
  cases hpc : s.pc t with
  | out => exact absurd hpc hout
  | blocked => exact absurd hpc hblocked
  | testHolder =>
      refine ⟨_, Prog.run_modify _ _, ?_⟩
      by_cases ho : Owns s t
      · have hok := (h.owner ho).2.1
        unfold OwnerOk at hok
        rw [hpc] at hok
        rw [if_pos hok.2.1]
        refine h.owner_goto ho hblocked (by decide) rfl s.holder s.holder_repeat_nr ?_
        unfold OwnerOk
        simp only [hself]
        exact hok.2
      · have hh : s.holder ≠ some t := by
          intro hh
          rcases h.lock with ⟨-, hnone, -⟩ | ⟨-, u, hou, hok, -⟩
          · rw [hnone] at hh
            cases hh
          · have hut : u ≠ t := fun heq => ho (heq ▸ hou)
            unfold OwnerOk at hok
            rw [hh] at hok
            cases hpu : s.pc u <;> rw [hpu] at hok <;> simp_all
        rw [if_neg hh]
        exact h.bystander_step ho rfl hblocked (by decide) (by rw [hpc]; decide)
  | down => exact semaDown_ok h (Or.inl hpc)
  | woken => exact semaDown_ok h (Or.inr hpc)
  | setHolder =>
      rw [hpc] at hown
      obtain ⟨ho, hd, -, hn⟩ := hown rfl
      refine ⟨_, Prog.run_modify _ _, ?_⟩
      refine h.owner_goto ho hblocked (by decide) rfl (some t) s.holder_repeat_nr ?_
      unfold OwnerOk
      simp only [hself]
      exact ⟨hd, trivial, hn⟩
  | assertZero =>
      rw [hpc] at hown
      obtain ⟨ho, hd, hh, hn⟩ := hown rfl
      refine ⟨_, (Prog.run_assert_bind hn _ _).trans (Prog.run_modify _ _), ?_⟩
      refine h.owner_goto ho hblocked (by decide) rfl s.holder s.holder_repeat_nr ?_
      unfold OwnerOk
      simp only [hself]
      exact ⟨hh, hn.trans hd.symm⟩
  | incr =>
      rw [hpc] at hown
      obtain ⟨ho, hh, hn⟩ := hown rfl
      refine ⟨_, Prog.run_modify _ _, ?_⟩
      refine h.owner_goto ho hblocked (by simp) rfl s.holder s.holder_repeat_nr ?_
      unfold OwnerOk
      simp only [hself]
      exact ⟨hh, hn, congrArg (· + 1) hn⟩
  | incrTo n =>
      rw [hpc] at hown
      obtain ⟨ho, hh, -, hn⟩ := hown rfl
      exact ⟨_, Prog.run_modify _ _, h.owner_out ho hblocked (Nat.succ_pos _) hh hn⟩
  | assertHolder =>
      rw [hpc] at hown
      obtain ⟨ho, hd, hh, hn⟩ := hown rfl
      refine ⟨_, (Prog.run_assert_bind hh _ _).trans (Prog.run_modify _ _), ?_⟩
      refine h.owner_goto ho hblocked (by decide) rfl s.holder s.holder_repeat_nr ?_
      unfold OwnerOk
      simp only [hself]
      exact ⟨hd, hh, hn⟩
  | testNested =>
      rw [hpc] at hown
      obtain ⟨ho, hd, hh, hn⟩ := hown rfl
      refine ⟨_, Prog.run_modify _ _, ?_⟩
      by_cases hnest : s.holder_repeat_nr > 1
      · rw [if_pos hnest]
        refine h.owner_goto ho hblocked (by decide) rfl s.holder s.holder_repeat_nr ?_
        unfold OwnerOk
        simp only [hself]
        exact ⟨Nat.lt_of_lt_of_eq hnest hn, hh, hn⟩
      · rw [if_neg hnest]
        have hone : s.holder_repeat_nr = 1 := by omega
        refine h.owner_goto ho hblocked (by decide) rfl s.holder s.holder_repeat_nr ?_
        unfold OwnerOk
        simp only [hself]
        exact ⟨hn.symm.trans hone, hh, hone⟩
  | decr =>
      rw [hpc] at hown
      obtain ⟨ho, hd, hh, hn⟩ := hown rfl
      refine ⟨_, Prog.run_modify _ _, ?_⟩
      refine h.owner_goto ho hblocked (by simp) rfl s.holder s.holder_repeat_nr ?_
      unfold OwnerOk
      simp only [hself]
      exact ⟨hd, hh, hn, congrArg (· - 1) hn⟩
  | decrTo n =>
      rw [hpc] at hown
      obtain ⟨ho, hd, hh, -, hn⟩ := hown rfl
      exact ⟨_, Prog.run_modify _ _, h.owner_out ho hblocked (Nat.sub_pos_of_lt hd) hh hn⟩
  | assertOne =>
      rw [hpc] at hown
      obtain ⟨ho, hd, hh, hn⟩ := hown rfl
      refine ⟨_, (Prog.run_assert_bind hn _ _).trans (Prog.run_modify _ _), ?_⟩
      refine h.owner_goto ho hblocked (by decide) rfl s.holder s.holder_repeat_nr ?_
      unfold OwnerOk
      simp only [hself]
      exact ⟨hd, hh, hn⟩
  | clearHolder =>
      rw [hpc] at hown
      obtain ⟨ho, hd, hh, hn⟩ := hown rfl
      refine ⟨_, Prog.run_modify _ _, ?_⟩
      refine h.owner_goto ho hblocked (by decide) rfl none s.holder_repeat_nr ?_
      unfold OwnerOk
      simp only [hself]
      exact ⟨hd, trivial⟩
  | clearNr =>
      rw [hpc] at hown
      obtain ⟨ho, hd, hh⟩ := hown rfl
      refine ⟨_, Prog.run_modify _ _, ?_⟩
      refine h.owner_goto ho hblocked (by decide) rfl s.holder 0 ?_
      unfold OwnerOk
      simp only [hself]
      exact ⟨hd, hh, trivial⟩
  | up => exact semaUp_ok h hpc

/-- One step of one thread keeps the invariant. -/
theorem Step.inv (h : Inv s) (hstep : Step s t s') : Inv s' := by
  cases hstep with
  | acquire hpc =>
      by_cases ho : Owns s t
      · have hok := (h.owner ho).2.1
        unfold OwnerOk at hok
        rw [hpc] at hok
        refine h.owner_step (t := t) ho (fun u hu => ⟨goto_pc_of_ne hu, rfl⟩) rfl rfl
          (by rw [hpc]; decide) (by rw [goto_pc_self]; decide) (Or.inl hok.1) ?_
        unfold OwnerOk
        rw [goto_pc_self]
        exact hok
      · exact h.bystander_step ho rfl (by rw [hpc]; decide) (by decide) (by rw [hpc]; decide)
  | release hpc hd =>
      have ho : Owns s t := Or.inl hd
      have hok := (h.owner ho).2.1
      unfold OwnerOk at hok
      rw [hpc] at hok
      refine h.owner_goto ho (by rw [hpc]; decide) (by decide) rfl s.holder s.holder_repeat_nr ?_
      unfold OwnerOk
      simp only [goto_pc_self]
      exact hok
  | run hout hblocked hrun =>
      obtain ⟨s'', hrun', hinv⟩ := run_ok h hout hblocked
      rw [hrun] at hrun'
      cases hrun'
      exact hinv

theorem Reachable.inv (h : Reachable s) : Inv s := by
  obtain ⟨ts, hrun⟩ := h
  exact hrun.invariant (fun _ _ _ hinv hstep => hstep.inv hinv) Inv.init

omit [DecidableEq T] in
/-- The holder is the owner, and the count is its nesting depth. -/
theorem Inv.holder_nr (h : Inv s) (hh : s.holder = some t) : s.holder_repeat_nr = s.depth t := by
  rcases h.lock with ⟨-, hnone, -⟩ | ⟨-, u, hou, hok, -⟩
  · rw [hnone] at hh
    cases hh
  · unfold OwnerOk at hok
    rw [hh] at hok
    cases hpu : s.pc u <;> rw [hpu] at hok <;> simp_all

end Steps

/-! ## The lock is safe and loses no wake-up -/

/-- In every reachable state at most one thread is inside the lock, `value` is 0 or 1, no assertion of
    the code fails at the next step of any thread, `holder_repeat_nr` is the nesting depth of the
    holder, and a free semaphore with waiters has a thread that is about to test it. -/
theorem lock_excludes {s : State T} (h : Reachable s) :
    (∀ t u, 0 < s.depth t → 0 < s.depth u → t = u) ∧
    (s.value = 0 ∨ s.value = 1) ∧
    (∀ t, s.pc t ≠ .out → s.pc t ≠ .blocked → ∃ s', run t s = .ok ((), s')) ∧
    (∀ t, s.holder = some t → s.holder_repeat_nr = s.depth t) ∧
    (s.value = 1 → s.waiters ≠ [] → ∃ t, s.pc t = .woken) := by
  have hinv := h.inv
  refine ⟨fun t u ht hu => ?_, ?_, fun t hout hblocked => ?_, fun t => hinv.holder_nr, hinv.wake⟩
  · exact (hinv.owner (Or.inl hu)).2.2 t (Or.inl ht)
  · rcases hinv.lock with ⟨hv, -⟩ | ⟨hv, -⟩
    · exact Or.inr hv
    · exact Or.inl hv
  · obtain ⟨s', hrun, -⟩ := run_ok hinv hout hblocked
    exact ⟨s', hrun⟩

/-- Thread 0 takes the lock, thread 1 goes to sleep on it, and thread 0 releases it. -/
theorem exists_handed_over : ∃ s : State Nat, Run Step State.init
    [0, 0, 0, 0, 0, 0, 0, 1, 1, 1, 0, 0, 0, 0, 0, 0, 0] s ∧ s.pc 1 = .woken ∧ s.value = 1 := by
  refine Run.exists_cons_and (.acquire rfl) ?_
  iterate 6 refine Run.exists_cons_and (.run (by decide) (by decide) rfl) ?_
  refine Run.exists_cons_and (.acquire rfl) ?_
  iterate 2 refine Run.exists_cons_and (.run (by decide) (by decide) rfl) ?_
  refine Run.exists_cons_and (.release rfl (by decide)) ?_
  iterate 5 refine Run.exists_cons_and (.run (by decide) (by decide) rfl) ?_
  exact ⟨_, .single (.run (by decide) (by decide) rfl), rfl, rfl⟩

/-- Thread 1 goes on without a failed assertion. -/
theorem lock_excludes_handed_over : ∃ s s' : State Nat, Reachable s ∧ s.pc 1 = .woken ∧ s.value = 1 ∧
    run 1 s = .ok ((), s') := by
  obtain ⟨s, hrun, hpc, hvalue⟩ := exists_handed_over
  have hnext := (lock_excludes ⟨_, hrun⟩).2.2.1 1 (by rw [hpc]; nofun) (by rw [hpc]; nofun)
  obtain ⟨s', hstep⟩ := hnext
  exact ⟨s, s', ⟨_, hrun⟩, hpc, hvalue, hstep⟩

end Sync

end RecoverOS
