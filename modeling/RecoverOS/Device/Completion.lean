import RecoverOS.Device.Ide
import RecoverOS.Thread.Sync

set_option autoImplicit false

/-! # Waiting for the disk (`device/ide.c` over `thread/sync.c`)

The threads that call `ide_read` and `ide_write` on the disks of one channel, and its interrupts. The lock of
the channel is the one of `Thread.Sync`, step for step. A section that runs with interrupts off is one step, as
is the handler; an interrupt may come between any two steps, whether a command is under way or not. -/

namespace RecoverOS

/-! ## The lock, seen from a call -/

namespace Sync

/-- Inside `lock_acquire`. -/
def Pc.acquiring : Pc → Bool
  | .testHolder | .down | .blocked | .woken | .setHolder | .assertZero | .incr | .incrTo _ => true
  | _ => false

/-- Inside `lock_release`. -/
def Pc.releasing : Pc → Bool
  | .assertHolder | .testNested | .decr | .decrTo _ | .assertOne | .clearHolder | .clearNr | .up => true
  | _ => false

section Frame

variable {T : Type} [DecidableEq T] {s s' : State T} {t : T}

/-- A step in `lock_acquire` stays there or ends it, and moves nobody else. -/
theorem run_acquiring (hpc : (s.pc t).acquiring = true) (hrun : run t s = .ok ((), s')) :
    ((s'.pc t).acquiring = true ∧ s'.depth t = s.depth t ∨ s'.pc t = .out ∧ s'.depth t = s.depth t + 1) ∧
      ∀ u, u ≠ t → s'.pc u = s.pc u ∧ s'.depth u = s.depth u := by
  have hgoto : ∀ (pc : Pc) (v : State T), pc.acquiring = true → v.pc = (s.goto t pc).pc → v.depth = s.depth →
      ((v.pc t).acquiring = true ∧ v.depth t = s.depth t ∨ v.pc t = .out ∧ v.depth t = s.depth t + 1) ∧
        ∀ u, u ≠ t → v.pc u = s.pc u ∧ v.depth u = s.depth u := by
    intro pc v hacq hvpc hvd
    rw [hvpc, hvd, goto_pc_self]
    exact ⟨.inl ⟨hacq, rfl⟩, fun u hu => ⟨goto_pc_of_ne hu, rfl⟩⟩
  have hdown : semaDown t s = .ok ((), s') →
      ((s'.pc t).acquiring = true ∧ s'.depth t = s.depth t ∨ s'.pc t = .out ∧ s'.depth t = s.depth t + 1) ∧
        ∀ u, u ≠ t → s'.pc u = s.pc u ∧ s'.depth u = s.depth u := by
    intro hsema
    unfold semaDown at hsema
    rw [Prog.bind_of_ok (a := s) (t := s) rfl] at hsema
    split at hsema
    · obtain ⟨⟨⟩, _, hassert, hsema⟩ := Prog.bind_eq_ok.1 hsema
      obtain ⟨-, rfl⟩ := Prog.assert_eq_ok.1 hassert
      rw [Prog.modify_eq_ok.1 hsema]
      exact hgoto .blocked _ rfl rfl rfl
    · rw [Prog.run_modify_bind] at hsema
      obtain ⟨_, _, hget, hsema⟩ := Prog.bind_eq_ok.1 hsema
      obtain ⟨rfl, rfl⟩ := Prog.get_eq_ok.1 hget
      obtain ⟨⟨⟩, _, hassert, hsema⟩ := Prog.bind_eq_ok.1 hsema
      obtain ⟨-, rfl⟩ := Prog.assert_eq_ok.1 hassert
      rw [Prog.modify_eq_ok.1 hsema]
      exact hgoto .setHolder _ rfl rfl rfl
  unfold run at hrun
  rw [Prog.bind_of_ok (a := s) (t := s) rfl] at hrun
  cases hcase : s.pc t with
  | testHolder =>
      rw [hcase] at hrun
      rw [Prog.modify_eq_ok.1 hrun]
      refine hgoto (if s.holder = some t then .incr else .down) _ ?_ rfl rfl
      split <;> rfl
  | down =>
      rw [hcase] at hrun
      exact hdown hrun
  | woken =>
      rw [hcase] at hrun
      exact hdown hrun
  | blocked =>
      rw [hcase] at hrun
      obtain ⟨-, rfl⟩ := Prog.pure_eq_ok.1 hrun
      exact ⟨.inl ⟨hpc, rfl⟩, fun u _ => ⟨rfl, rfl⟩⟩
  | setHolder =>
      rw [hcase] at hrun
      rw [Prog.modify_eq_ok.1 hrun]
      exact hgoto .assertZero _ rfl rfl rfl
  | assertZero =>
      rw [hcase] at hrun
      obtain ⟨⟨⟩, _, hassert, hrun⟩ := Prog.bind_eq_ok.1 hrun
      obtain ⟨-, rfl⟩ := Prog.assert_eq_ok.1 hassert
      rw [Prog.modify_eq_ok.1 hrun]
      exact hgoto .incr _ rfl rfl rfl
  | incr =>
      rw [hcase] at hrun
      rw [Prog.modify_eq_ok.1 hrun]
      exact hgoto (.incrTo _) _ rfl rfl rfl
  | incrTo n =>
      rw [hcase] at hrun
      rw [Prog.modify_eq_ok.1 hrun]
      exact ⟨.inr ⟨by simp [State.nest], by simp [State.nest]⟩, fun u hu => by simp [State.nest, hu]⟩
  | _ =>
      rw [hcase] at hpc
      cases hpc

/-- `sema_up` wakes a thread that was blocked, if any. -/
theorem semaUp_frame (hrun : semaUp s = .ok ((), s')) : s'.depth = s.depth ∧
    ∀ u, s'.pc u = s.pc u ∨ s.pc u = .blocked ∧ s'.pc u = .woken := by
  unfold semaUp at hrun
  rw [Prog.bind_of_ok (a := s) (t := s) rfl] at hrun
  obtain ⟨⟨⟩, _, hassert, hrun⟩ := Prog.bind_eq_ok.1 hrun
  obtain ⟨-, rfl⟩ := Prog.assert_eq_ok.1 hassert
  cases hw : s.waiters with
  | nil =>
      rw [hw] at hrun
      simp only [Prog.run_modify_bind, Prog.bind_eq_ok, Prog.get_eq_ok, Prog.assert_eq_ok] at hrun
      obtain ⟨_, _, ⟨rfl, rfl⟩, -, rfl⟩ := hrun
      exact ⟨rfl, fun u => .inl rfl⟩
  | cons w rest =>
      rw [hw] at hrun
      simp only [threadUnblock, Prog.run_modify_bind, Prog.bind_eq_ok, Prog.get_eq_ok, Prog.assert_eq_ok,
        Prog.modify_eq_ok] at hrun
      obtain ⟨_, _, ⟨_, _, ⟨rfl, rfl⟩, _, _, ⟨hblocked, rfl⟩, rfl⟩, _, _, ⟨rfl, rfl⟩, -, rfl⟩ := hrun
      refine ⟨rfl, fun u => ?_⟩
      by_cases hu : u = w
      · subst hu
        exact .inr ⟨hblocked, Function.update_self ..⟩
      · exact .inl (Function.update_of_ne hu ..)

/-- A step in `lock_release` stays there or ends it; somebody else may be woken. -/
theorem run_releasing (hpc : (s.pc t).releasing = true) (hrun : run t s = .ok ((), s')) :
    ((s'.pc t).releasing = true ∧ s'.depth t = s.depth t ∨ s'.pc t = .out ∧ s'.depth t ≤ s.depth t - 1) ∧
      ∀ u, u ≠ t → (s'.pc u = s.pc u ∨ s.pc u = .blocked ∧ s'.pc u = .woken) ∧ s'.depth u = s.depth u := by
  have hgoto : ∀ (pc : Pc) (v : State T), pc.releasing = true → v.pc = (s.goto t pc).pc → v.depth = s.depth →
      ((v.pc t).releasing = true ∧ v.depth t = s.depth t ∨ v.pc t = .out ∧ v.depth t ≤ s.depth t - 1) ∧
        ∀ u, u ≠ t → (v.pc u = s.pc u ∨ s.pc u = .blocked ∧ v.pc u = .woken) ∧ v.depth u = s.depth u := by
    intro pc v hrel hvpc hvd
    rw [hvpc, hvd, goto_pc_self]
    exact ⟨.inl ⟨hrel, rfl⟩, fun u hu => ⟨.inl (goto_pc_of_ne hu), rfl⟩⟩
  unfold run at hrun
  rw [Prog.bind_of_ok (a := s) (t := s) rfl] at hrun
  cases hcase : s.pc t with
  | assertHolder =>
      rw [hcase] at hrun
      obtain ⟨⟨⟩, _, hassert, hrun⟩ := Prog.bind_eq_ok.1 hrun
      obtain ⟨-, rfl⟩ := Prog.assert_eq_ok.1 hassert
      rw [Prog.modify_eq_ok.1 hrun]
      exact hgoto .testNested _ rfl rfl rfl
  | testNested =>
      rw [hcase] at hrun
      rw [Prog.modify_eq_ok.1 hrun]
      refine hgoto (if s.holder_repeat_nr > 1 then .decr else .assertOne) _ ?_ rfl rfl
      split <;> rfl
  | decr =>
      rw [hcase] at hrun
      rw [Prog.modify_eq_ok.1 hrun]
      exact hgoto (.decrTo _) _ rfl rfl rfl
  | decrTo n =>
      rw [hcase] at hrun
      rw [Prog.modify_eq_ok.1 hrun]
      exact ⟨.inr ⟨by simp [State.nest], by simp [State.nest]⟩, fun u hu => by simp [State.nest, hu]⟩
  | assertOne =>
      rw [hcase] at hrun
      obtain ⟨⟨⟩, _, hassert, hrun⟩ := Prog.bind_eq_ok.1 hrun
      obtain ⟨-, rfl⟩ := Prog.assert_eq_ok.1 hassert
      rw [Prog.modify_eq_ok.1 hrun]
      exact hgoto .clearHolder _ rfl rfl rfl
  | clearHolder =>
      rw [hcase] at hrun
      rw [Prog.modify_eq_ok.1 hrun]
      exact hgoto .clearNr _ rfl rfl rfl
  | clearNr =>
      rw [hcase] at hrun
      rw [Prog.modify_eq_ok.1 hrun]
      exact hgoto .up _ rfl rfl rfl
  | up =>
      rw [hcase] at hrun
      obtain ⟨⟨⟩, v, hup, hrun⟩ := Prog.bind_eq_ok.1 hrun
      obtain ⟨hdepth, hmoved⟩ := semaUp_frame hup
      rw [Prog.modify_eq_ok.1 hrun]
      refine ⟨.inr ⟨by simp [State.nest], by simp [State.nest]⟩, fun u hu => ?_⟩
      simp only [State.nest, Function.update_of_ne hu]
      exact ⟨hmoved u, congrFun hdepth u⟩
  | _ =>
      rw [hcase] at hpc
      cases hpc

end Frame

end Sync

/-! ## The channel -/

namespace Completion

/-- The call is `ide_read` or `ide_write`. -/
inductive Op where
  | read
  | write
  deriving DecidableEq

/-- Where a thread is in `ide_read` or `ide_write`. -/
inductive Place where
  /-- In neither. -/
  | idle
  /-- In `lock_acquire`, or just after it. -/
  | acquire
  /-- Before `select_disk`. -/
  | select
  /-- Before the test of the loop, and `select_sector` after it. -/
  | head
  /-- `cmd_out`, before `channel->expecting_intr = true`. -/
  | expect
  /-- Before its `outb`. -/
  | issue
  /-- Before `sema_down`. -/
  | down
  /-- In `thread_block` of `sema_down`: its tag is in `waiters`. -/
  | blocked
  /-- Popped from `waiters` and ready: it will test `value` again. -/
  | woken
  /-- Before `busy_wait`. -/
  | busyWait
  /-- Before `read_from_sector` or `write2sector`. -/
  | transfer
  /-- Before `secs_done += secs_op`. -/
  | next
  /-- In `lock_release`, or just after it. -/
  | release
  deriving DecidableEq

/-- The arguments and the variable of a call that the protocol depends on. -/
structure Call where
  op : Op
  sec_cnt : Nat
  secs_done : Nat

variable {T : Type} [DecidableEq T]

/-- A `struct ide_channel` and the threads that use it; `value` and `waiters` are those of `disk_done`.
    `issuer` is the thread whose command was begun and not yet completed; nothing in the code reads it. -/
structure Channel (T : Type) where
  lock : Sync.State T
  expecting_intr : Bool
  value : Nat
  waiters : List T
  place : T → Place
  call : T → Call
  issuer : Option T

namespace Channel

/-- A channel after `channels_init`, which nobody has used. -/
def init : Channel T where
  lock := Sync.State.init
  expecting_intr := false
  value := 0
  waiters := []
  place := fun _ => .idle
  call := fun _ => ⟨.read, 0, 0⟩
  issuer := none

/-- The thread goes on at `place`. -/
def goto (s : Channel T) (t : T) (place : Place) : Channel T :=
  { s with place := Function.update s.place t place }

/-- The thread goes on at `place` in a call with another `secs_done`. -/
def advance (s : Channel T) (t : T) (place : Place) (secs_done : Nat) : Channel T :=
  { s with
    place := Function.update s.place t place
    call := Function.update s.call t { s.call t with secs_done := secs_done } }

end Channel

open Channel

/-! ## The code -/

/-- Run a computation on the lock. -/
def onLock (m : Prog (Sync.State T) Unit) : Prog (Channel T) Unit :=
  Prog.zoom Channel.lock (fun lock s => { s with lock := lock }) m

/-- `thread_unblock`: only a blocked thread is made ready. -/
def threadUnblock (w : T) : Prog (Channel T) Unit := do
  let s ← Prog.get
  Prog.assert (s.place w = .blocked)
  Prog.modify fun s => s.goto w .woken

/-- Where a call goes on after `sema_down(&disk_done)`. -/
def afterDown : Op → Place
  | .read => .busyWait
  | .write => .next

/-- Where a call goes on after `cmd_out`. -/
def afterIssue : Op → Place
  | .read => .down
  | .write => .busyWait

/-- Where a call goes on after `read_from_sector` or `write2sector`. -/
def afterTransfer : Op → Place
  | .read => .next
  | .write => .down

/-- `sema_down(&channel->disk_done)`, up to the point where the thread is switched out or leaves the
    function. The command of the thread is completed then. -/
def semaDown (t : T) : Prog (Channel T) Unit := do
  let s ← Prog.get
  if s.value = 0 then do
    Prog.assert (t ∉ s.waiters)
    Prog.modify fun s => { s.goto t .blocked with waiters := s.waiters ++ [t] }
  else do
    Prog.modify fun s => { s with value := s.value - 1 }
    let s ← Prog.get
    Prog.assert (s.value = 0)
    Prog.modify fun s => { s.goto t (afterDown (s.call t).op) with issuer := none }

/-- `sema_up(&channel->disk_done)`. -/
def semaUp : Prog (Channel T) Unit := do
  let s ← Prog.get
  Prog.assert (s.value = 0)
  match s.waiters with
  | [] => pure ()
  | w :: rest => do
      Prog.modify fun s => { s with waiters := rest }
      threadUnblock w
  Prog.modify fun s => { s with value := s.value + 1 }
  let s ← Prog.get
  Prog.assert (s.value = 1)

/-- `intr_hd_hdl`. -/
def intrHdHdl : Prog (Channel T) Unit := do
  let s ← Prog.get
  if s.expecting_intr = true then do
    Prog.modify fun s => { s with expecting_intr := false }
    semaUp
  else pure ()

/-- The next step of thread `t` in `ide_read` or `ide_write`; `ready` is what `busy_wait` returns. -/
def run (t : T) (ready : Bool) : Prog (Channel T) Unit := do
  let s ← Prog.get
  match s.place t with
  | .idle | .blocked => pure ()
  | .acquire =>
      if s.lock.pc t = .out then Prog.modify fun s => s.goto t .select else onLock (Sync.run t)
  | .select => Prog.modify fun s => s.goto t .head
  | .head =>
      if (s.call t).secs_done < (s.call t).sec_cnt then Prog.modify fun s => s.goto t .expect
      else Prog.modify fun s => { s.goto t .release with lock := s.lock.goto t .assertHolder }
  | .expect => Prog.modify fun s => { s.goto t .issue with expecting_intr := true, issuer := some t }
  | .issue => Prog.modify fun s => s.goto t (afterIssue (s.call t).op)
  | .down | .woken => semaDown t
  | .busyWait => do
      Prog.assert (ready = true)
      Prog.modify fun s => s.goto t .transfer
  | .transfer => Prog.modify fun s => s.goto t (afterTransfer (s.call t).op)
  | .next => Prog.modify fun s =>
      s.advance t .head (Ide.u32 ((s.call t).secs_done + Ide.secsOp (s.call t).secs_done (s.call t).sec_cnt))
  | .release =>
      if s.lock.pc t = .out then Prog.modify fun s => s.goto t .idle else onLock (Sync.run t)

/-- What happens next: a call, a step of a thread, or an interrupt of the channel. -/
inductive Label (T : Type) where
  | call (t : T) (op : Op) (sec_cnt : Nat)
  | run (t : T) (ready : Bool)
  | interrupt

/-- A blocked thread does not run; an interrupt may always come. -/
inductive Step (s : Channel T) : Label T → Channel T → Prop where
  | call {t : T} {op : Op} {sec_cnt : Nat} : s.place t = .idle → 0 < sec_cnt →
      Step s (.call t op sec_cnt) { s.goto t .acquire with
        lock := s.lock.goto t .testHolder
        call := Function.update s.call t ⟨op, sec_cnt, 0⟩ }
  | run {t : T} {ready : Bool} {s' : Channel T} : s.place t ≠ .blocked → s.lock.pc t ≠ .blocked →
      run t ready s = .ok ((), s') → Step s (.run t ready) s'
  | interrupt {s' : Channel T} : intrHdHdl s = .ok ((), s') → Step s .interrupt s'

/-- The states that any interleaving of any calls and interrupts leads to. -/
def Reachable (s : Channel T) : Prop := ∃ ls, Run Step Channel.init ls s

/-- The thread has begun a command and not completed it: it is between the first store of `cmd_out` and the
    end of `sema_down`. -/
def Outstanding (s : Channel T) (t : T) : Prop :=
  match s.place t with
  | .issue | .down | .blocked | .woken => True
  | .busyWait | .transfer => (s.call t).op = .write
  | _ => False

/-- The thread is between `lock_acquire` and `lock_release`. -/
def Place.inside : Place → Bool
  | .idle | .acquire | .release => false
  | _ => true

/-! ## The invariant -/

/-- Where a thread is in the lock, by the place where it is in its call. -/
def LockAt (place : Place) (pc : Sync.Pc) (depth : Nat) : Prop :=
  match place with
  | .idle => pc = .out ∧ depth = 0
  | .acquire => pc.acquiring = true ∧ depth = 0 ∨ pc = .out ∧ depth = 1
  | .release => pc.releasing = true ∧ depth = 1 ∨ pc = .out ∧ depth = 0
  | _ => pc = .out ∧ depth = 1

/-- The command of thread `t` is under way, or completed by the interrupt. -/
def Status (s : Channel T) (t : T) : Prop :=
  s.expecting_intr = true ∧ s.value = 0 ∧ s.place t ≠ .woken ∧
      s.waiters = (if s.place t = .blocked then [t] else []) ∨
    s.expecting_intr = false ∧ s.value = 1 ∧ s.waiters = [] ∧ s.place t ≠ .blocked

/-- The lock is in order, a command is outstanding for its issuer only, and without one the channel is at
    rest. -/
structure Inv (s : Channel T) : Prop where
  lock : Sync.Inv s.lock
  place : ∀ t, LockAt (s.place t) (s.lock.pc t) (s.lock.depth t)
  issuer : ∀ t, s.issuer = some t ↔ Outstanding s t
  rest : s.issuer = none → s.expecting_intr = false ∧ s.value = 0 ∧ s.waiters = []
  status : ∀ t, s.issuer = some t → Status s t

section Steps

variable {s s' : Channel T} {t u : T} {place : Place} {ready : Bool}

@[simp] theorem goto_place_self : (s.goto t place).place t = place := by
  simp [Channel.goto]

theorem goto_place_of_ne (h : u ≠ t) : (s.goto t place).place u = s.place u := by
  simp [Channel.goto, h]

omit [DecidableEq T] in
theorem Inv.init : Inv (Channel.init : Channel T) where
  lock := Sync.Inv.init
  place _ := ⟨rfl, rfl⟩
  issuer _ := ⟨nofun, nofun⟩
  rest _ := ⟨rfl, rfl, rfl⟩
  status _ := nofun

omit [DecidableEq T] in
theorem Outstanding.inside (h : Outstanding s t) : (s.place t).inside = true := by
  unfold Outstanding at h
  cases hp : s.place t <;> rw [hp] at h <;> first | rfl | exact h.elim

omit [DecidableEq T] in
theorem outstanding_congr (hplace : s'.place t = s.place t) (hcall : s'.call t = s.call t) :
    Outstanding s' t ↔ Outstanding s t := by
  unfold Outstanding
  rw [hplace, hcall]

omit [DecidableEq T] in
/-- Once `sema_down` has returned the command is completed. -/
theorem not_outstanding_afterDown (hplace : s.place t = afterDown (s.call t).op) : ¬ Outstanding s t := by
  intro hout
  unfold Outstanding at hout
  rw [hplace] at hout
  cases hop : (s.call t).op with
  | read =>
      rw [hop] at hout
      cases hout
  | write =>
      rw [hop] at hout
      exact hout

omit [DecidableEq T] in
theorem Inv.depth_of_inside (h : Inv s) (hin : (s.place t).inside = true) :
    s.lock.pc t = .out ∧ s.lock.depth t = 1 := by
  have hlock := h.place t
  cases hp : s.place t <;> rw [hp] at hlock hin <;> first | exact hlock | cases hin

omit [DecidableEq T] in
/-- One thread at most is between `lock_acquire` and `lock_release`. -/
theorem Inv.inside_unique (h : Inv s) (ht : (s.place t).inside = true) (hu : (s.place u).inside = true) :
    u = t :=
  (h.lock.owner (.inl (by rw [(h.depth_of_inside ht).2]; exact Nat.one_pos))).2.2 u
    (.inl (by rw [(h.depth_of_inside hu).2]; exact Nat.one_pos))

/-- A waiter of the lock that is woken is still in `lock_acquire`. -/
theorem LockAt.woken {depth : Nat} (h : LockAt place .blocked depth) : LockAt place .woken depth := by
  cases place with
  | acquire =>
      obtain ⟨-, hd⟩ | ⟨hpc, -⟩ := h
      · exact .inl ⟨rfl, hd⟩
      · cases hpc
  | release =>
      obtain ⟨hpc, -⟩ | ⟨hpc, -⟩ := h <;> cases hpc
  | _ =>
      obtain ⟨hpc, -⟩ := h
      cases hpc

omit [DecidableEq T] in
/-- A step that leaves `disk_done`, the flag and the outstanding command alone. -/
theorem Inv.quiet (h : Inv s) (hlock : Sync.Inv s'.lock)
    (hplace : ∀ u, LockAt (s'.place u) (s'.lock.pc u) (s'.lock.depth u))
    (hflag : s'.expecting_intr = s.expecting_intr) (hvalue : s'.value = s.value)
    (hwaiters : s'.waiters = s.waiters) (hissuer : s'.issuer = s.issuer)
    (hout : ∀ u, Outstanding s' u ↔ Outstanding s u)
    (hblocked : ∀ u, s'.place u = .blocked ↔ s.place u = .blocked)
    (hwoken : ∀ u, s'.place u = .woken ↔ s.place u = .woken) : Inv s' where
  lock := hlock
  place := hplace
  issuer u := by rw [hissuer, hout, h.issuer]
  rest hnone := by
    rw [hflag, hvalue, hwaiters]
    exact h.rest (hissuer ▸ hnone)
  status u hu := by
    rw [hissuer] at hu
    have hstatus := h.status u hu
    unfold Status at hstatus ⊢
    simp only [hflag, hvalue, hwaiters, hblocked, hwoken, ne_eq] at hstatus ⊢
    exact hstatus

/-- Thread `t` goes on to another place, with or without a step of the lock. -/
theorem Inv.move (h : Inv s) (lock : Sync.State T) (call : T → Call) (hlock : Sync.Inv lock)
    (hself : LockAt place (lock.pc t) (lock.depth t))
    (hother : ∀ u, u ≠ t → (lock.pc u = s.lock.pc u ∨ s.lock.pc u = .blocked ∧ lock.pc u = .woken) ∧
      lock.depth u = s.lock.depth u)
    (hcall : ∀ u, u ≠ t → call u = s.call u)
    (hout : Outstanding { s.goto t place with lock := lock, call := call } t ↔ Outstanding s t)
    (hfrom : s.place t ≠ .blocked ∧ s.place t ≠ .woken) (hto : place ≠ .blocked ∧ place ≠ .woken) :
    Inv { s.goto t place with lock := lock, call := call } := by
  have hplace : ∀ u, u ≠ t → (s.goto t place).place u = s.place u := fun u hu => goto_place_of_ne hu
  refine h.quiet hlock (fun u => ?_) rfl rfl rfl rfl (fun u => ?_) (fun u => ?_) fun u => ?_
  · by_cases hu : u = t
    · subst hu
      show LockAt ((s.goto u place).place u) _ _
      rw [goto_place_self]
      exact hself
    · show LockAt ((s.goto t place).place u) (lock.pc u) (lock.depth u)
      rw [hplace u hu, (hother u hu).2]
      obtain hpc | ⟨hblocked, hwoken⟩ := (hother u hu).1
      · rw [hpc]
        exact h.place u
      · rw [hwoken]
        exact (hblocked ▸ h.place u).woken
  · by_cases hu : u = t
    · subst hu
      exact hout
    · unfold Outstanding
      dsimp only
      rw [hplace u hu, hcall u hu]
  · by_cases hu : u = t
    · subst hu
      show (s.goto u place).place u = .blocked ↔ _
      rw [goto_place_self]
      exact iff_of_false hto.1 hfrom.1
    · show (s.goto t place).place u = .blocked ↔ _
      rw [hplace u hu]
  · by_cases hu : u = t
    · subst hu
      show (s.goto u place).place u = .woken ↔ _
      rw [goto_place_self]
      exact iff_of_false hto.2 hfrom.2
    · show (s.goto t place).place u = .woken ↔ _
      rw [hplace u hu]

/-- The same between two places inside the lock. -/
theorem Inv.move_inside (h : Inv s) (hin : (s.place t).inside = true) (hin' : place.inside = true)
    (hout : Outstanding (s.goto t place) t ↔ Outstanding s t)
    (hfrom : s.place t ≠ .blocked ∧ s.place t ≠ .woken) (hto : place ≠ .blocked ∧ place ≠ .woken) :
    Inv (s.goto t place) := by
  have hself : LockAt place (s.lock.pc t) (s.lock.depth t) := by
    have hd := h.depth_of_inside hin
    cases place <;> first | exact hd | cases hin'
  exact h.move s.lock s.call h.lock hself (fun u _ => ⟨.inl rfl, rfl⟩) (fun u _ => rfl)
    hout hfrom hto

/-! ## `disk_done` -/

omit [DecidableEq T] in
/-- The thread inside the lock is the issuer if there is one. -/
theorem Inv.issuer_of_inside (h : Inv s) (hin : (s.place t).inside = true) (hu : s.issuer = some u) : u = t :=
  h.inside_unique hin ((h.issuer u).1 hu).inside

/-- `cmd_out` begins a command on a channel that is at rest. -/
theorem Inv.expect (h : Inv s) (hp : s.place t = .expect) :
    Inv { s.goto t .issue with expecting_intr := true, issuer := some t } := by
  have hin : (s.place t).inside = true := by rw [hp]; rfl
  have hnot : ¬ Outstanding s t := by
    unfold Outstanding
    rw [hp]
    exact id
  have hnone : s.issuer = none := by
    cases hi : s.issuer with
    | none => rfl
    | some u =>
        have hu := h.issuer_of_inside hin hi
        exact absurd ((h.issuer t).1 (hu ▸ hi)) hnot
  obtain ⟨-, hvalue, hwaiters⟩ := h.rest hnone
  have hplace : ∀ u, u ≠ t → (s.goto t .issue).place u = s.place u := fun u hu => goto_place_of_ne hu
  have hself : (s.goto t .issue).place t = .issue := goto_place_self
  constructor
  case lock => exact h.lock
  case place =>
    intro u
    by_cases hu : u = t
    · subst hu
      show LockAt ((s.goto u .issue).place u) _ _
      rw [hself]
      exact h.depth_of_inside hin
    · show LockAt ((s.goto t .issue).place u) _ _
      rw [hplace u hu]
      exact h.place u
  case issuer =>
    intro u
    show some t = some u ↔ _
    by_cases hu : u = t
    · subst hu
      refine iff_of_true rfl ?_
      unfold Outstanding
      dsimp only
      rw [hself]
      trivial
    · refine iff_of_false (fun heq => hu (Option.some.inj heq).symm) fun ho => hu ?_
      have hou : Outstanding s u := by
        unfold Outstanding at ho ⊢
        dsimp only at ho
        rw [hplace u hu] at ho
        exact ho
      exact h.inside_unique hin hou.inside
  case rest => exact nofun
  case status =>
    intro u hu
    obtain rfl : t = u := Option.some.inj hu
    refine .inl ⟨rfl, hvalue, ?_, ?_⟩
    · show (s.goto t .issue).place t ≠ .woken
      rw [hself]
      decide
    · show s.waiters = if (s.goto t .issue).place t = .blocked then [t] else []
      rw [hself, hwaiters]
      rfl

/-- The issuer starts to wait or is woken; its command is outstanding as before. -/
theorem Inv.stay {expecting_intr : Bool} {value : Nat} {waiters : List T} (h : Inv s) (hi : s.issuer = some t)
    (hp : place = .blocked ∨ place = .woken)
    (hstatus : Status { s.goto t place with
      expecting_intr := expecting_intr, value := value, waiters := waiters } t) :
    Inv { s.goto t place with expecting_intr := expecting_intr, value := value, waiters := waiters } := by
  have hself : (s.goto t place).place t = place := goto_place_self
  have hplace : ∀ u, u ≠ t → (s.goto t place).place u = s.place u := fun u hu => goto_place_of_ne hu
  constructor
  case lock => exact h.lock
  case place =>
    intro u
    by_cases hu : u = t
    · subst hu
      show LockAt ((s.goto u place).place u) _ _
      rw [hself]
      have hd := h.depth_of_inside ((h.issuer u).1 hi).inside
      obtain rfl | rfl := hp <;> exact hd
    · show LockAt ((s.goto t place).place u) _ _
      rw [hplace u hu]
      exact h.place u
  case issuer =>
    intro u
    show s.issuer = some u ↔ _
    by_cases hu : u = t
    · subst hu
      refine iff_of_true hi ?_
      unfold Outstanding
      dsimp only
      rw [hself]
      obtain rfl | rfl := hp <;> trivial
    · rw [h.issuer]
      unfold Outstanding
      dsimp only
      rw [hplace u hu]
      rfl
  case rest =>
    intro hnone
    have hnone' : s.issuer = none := hnone
    rw [hi] at hnone'
    cases hnone'
  case status =>
    intro u hu
    obtain rfl : t = u := Option.some.inj (hi.symm.trans hu)
    exact hstatus

/-- `sema_down` waits for the command of the thread, or completes it. -/
theorem semaDown_ok (h : Inv s) (hp : s.place t = .down ∨ s.place t = .woken) :
    ∃ s', semaDown t s = .ok ((), s') ∧ Inv s' := by
  have hin : (s.place t).inside = true := by rcases hp with hp | hp <;> rw [hp] <;> rfl
  have ho : Outstanding s t := by
    unfold Outstanding
    rcases hp with hp | hp <;> rw [hp] <;> trivial
  have hnb : s.place t ≠ .blocked := by rcases hp with hp | hp <;> rw [hp] <;> decide
  have hi : s.issuer = some t := (h.issuer t).2 ho
  have hd := h.depth_of_inside hin
  obtain ⟨hflag, hvalue, hnw, hwaiters⟩ | ⟨hflag, hvalue, hwaiters, -⟩ := h.status t hi
  · -- the interrupt has not come
    rw [if_neg hnb] at hwaiters
    have hmem : t ∉ s.waiters := by rw [hwaiters]; exact List.not_mem_nil
    refine ⟨{ s.goto t .blocked with waiters := s.waiters ++ [t] }, ?_, ?_⟩
    · unfold semaDown
      rw [Prog.bind_of_ok (a := s) (t := s) rfl, if_pos hvalue, Prog.run_assert_bind hmem]
      rfl
    · refine h.stay hi (.inl rfl) (.inl ⟨hflag, hvalue, ?_, ?_⟩)
      · show (s.goto t .blocked).place t ≠ .woken
        rw [goto_place_self]
        decide
      · show s.waiters ++ [t] = if (s.goto t .blocked).place t = .blocked then [t] else []
        rw [goto_place_self, hwaiters]
        rfl
  · -- the interrupt has come
    have hv0 : s.value ≠ 0 := by omega
    have hvd : s.value - 1 = 0 := by omega
    refine ⟨{ ({ s with value := s.value - 1 } : Channel T).goto t (afterDown (s.call t).op) with
      issuer := none }, ?_, ?_⟩
    · unfold semaDown
      rw [Prog.bind_of_ok (a := s) (t := s) rfl, if_neg hv0]
      simp only [Prog.run_modify_bind]
      rw [Prog.bind_of_ok (a := ({ s with value := s.value - 1 } : Channel T)) rfl, Prog.run_assert_bind hvd]
      rfl
    · have hself : (s.goto t (afterDown (s.call t).op)).place t = afterDown (s.call t).op := goto_place_self
      have hplace : ∀ u, u ≠ t → (s.goto t (afterDown (s.call t).op)).place u = s.place u :=
        fun u hu => goto_place_of_ne hu
      constructor
      case lock => exact h.lock
      case place =>
        intro u
        by_cases hu : u = t
        · subst hu
          show LockAt ((s.goto u (afterDown (s.call u).op)).place u) _ _
          rw [hself]
          cases (s.call u).op <;> exact hd
        · show LockAt ((s.goto t (afterDown (s.call t).op)).place u) _ _
          rw [hplace u hu]
          exact h.place u
      case issuer =>
        intro u
        refine iff_of_false (Option.some_ne_none u).symm fun hou => ?_
        by_cases hu : u = t
        · subst hu
          exact not_outstanding_afterDown hself hou
        · have hold : Outstanding s u := (outstanding_congr (hplace u hu) rfl).1 hou
          exact hu (h.inside_unique hin hold.inside)
      case rest => exact fun _ => ⟨hflag, hvd, hwaiters⟩
      case status =>
        intro u hu
        cases hu

theorem semaUp_nil (hvalue : s.value = 0) (hwaiters : s.waiters = []) :
    semaUp s = .ok ((), { s with value := s.value + 1 }) := by
  have hval : s.value + 1 = 1 := by omega
  unfold semaUp
  rw [Prog.bind_of_ok (a := s) (t := s) rfl, Prog.run_assert_bind hvalue, hwaiters]
  simp only [Prog.run_modify_bind]
  rw [Prog.bind_of_ok (a := ({ s with value := s.value + 1 } : Channel T)) rfl]
  rw [← hwaiters]
  exact Prog.run_assert hval _

theorem semaUp_waiter (hvalue : s.value = 0) (hwaiters : s.waiters = [t]) (hp : s.place t = .blocked) :
    semaUp s = .ok ((), { s.goto t .woken with waiters := [], value := s.value + 1 }) := by
  have hval : s.value + 1 = 1 := by omega
  have hun : threadUnblock t { s with waiters := [] } =
      .ok ((), ({ s with waiters := [] } : Channel T).goto t .woken) := by
    unfold threadUnblock
    rw [Prog.bind_of_ok (a := ({ s with waiters := [] } : Channel T)) rfl, Prog.run_assert_bind hp]
    rfl
  unfold semaUp
  rw [Prog.bind_of_ok (a := s) (t := s) rfl, Prog.run_assert_bind hvalue, hwaiters]
  simp only [Prog.run_modify_bind]
  rw [Prog.bind_of_ok hun]
  simp only [Prog.run_modify_bind]
  rw [Prog.bind_of_ok (a := ({ s.goto t .woken with waiters := [], value := s.value + 1 } : Channel T)) rfl]
  exact Prog.run_assert hval _

omit [DecidableEq T] in
/-- The interrupt comes before the issuer waits. -/
theorem Inv.complete (h : Inv s) (hi : s.issuer = some t) (hvalue : s.value = 0) (hwaiters : s.waiters = [])
    (hnb : s.place t ≠ .blocked) : Inv { s with expecting_intr := false, value := s.value + 1 } where
  lock := h.lock
  place := h.place
  issuer := h.issuer
  rest hnone := by
    have hnone' : s.issuer = none := hnone
    rw [hi] at hnone'
    cases hnone'
  status u hu := by
    obtain rfl : t = u := Option.some.inj (hi.symm.trans hu)
    refine .inr ⟨rfl, ?_, hwaiters, hnb⟩
    show s.value + 1 = 1
    omega

/-- The interrupt wakes the issuer. -/
theorem Inv.wake (h : Inv s) (hi : s.issuer = some t) (hvalue : s.value = 0) :
    Inv { s.goto t .woken with expecting_intr := false, waiters := [], value := s.value + 1 } := by
  refine h.stay hi (.inr rfl) (.inr ⟨rfl, ?_, rfl, ?_⟩)
  · show s.value + 1 = 1
    omega
  · show (s.goto t .woken).place t ≠ .blocked
    rw [goto_place_self]
    decide

/-- The handler finds `value` 0 and wakes the issuer if it waits. -/
theorem intrHdHdl_ok (h : Inv s) : ∃ s', intrHdHdl s = .ok ((), s') ∧ Inv s' := by
  by_cases hflag : s.expecting_intr = true
  · have hrun : intrHdHdl s = semaUp { s with expecting_intr := false } := by
      unfold intrHdHdl
      rw [Prog.bind_of_ok (a := s) (t := s) rfl, if_pos hflag, Prog.run_modify_bind]
    obtain ⟨t, hi⟩ : ∃ t, s.issuer = some t := by
      refine Option.ne_none_iff_exists'.1 fun hnone => ?_
      have hrest := (h.rest hnone).1
      rw [hflag] at hrest
      cases hrest
    have hstatus := h.status t hi
    unfold Status at hstatus
    rw [hflag] at hstatus
    obtain ⟨-, hvalue, -, hwaiters⟩ | ⟨hno, -⟩ := hstatus
    · by_cases hb : s.place t = .blocked
      · rw [if_pos hb] at hwaiters
        have hup := @semaUp_waiter T _ { s with expecting_intr := false } t hvalue hwaiters hb
        exact ⟨_, hrun.trans hup, h.wake hi hvalue⟩
      · rw [if_neg hb] at hwaiters
        have hup := @semaUp_nil T _ { s with expecting_intr := false } hvalue hwaiters
        exact ⟨_, hrun.trans hup, h.complete hi hvalue hwaiters hb⟩
    · cases hno
  · refine ⟨s, ?_, h⟩
    unfold intrHdHdl
    rw [Prog.bind_of_ok (a := s) (t := s) rfl, if_neg hflag]
    rfl

/-! ## The steps -/

/-- A step of the lock that `lock_acquire` takes is a step of a thread in the lock. -/
theorem Inv.acquire (h : Inv s) (hp : s.place t = .acquire) (hout : s.lock.pc t ≠ .out)
    (hblocked : s.lock.pc t ≠ .blocked) : ∃ s', onLock (Sync.run t) s = .ok ((), s') ∧ Inv s' := by
  obtain ⟨lock, hrun, hlock⟩ := Sync.run_ok h.lock hout hblocked
  have hat := h.place t
  rw [hp] at hat
  obtain ⟨hacq, hd⟩ | ⟨hpc, -⟩ := hat
  · obtain ⟨hself, hother⟩ := Sync.run_acquiring hacq hrun
    refine ⟨{ s with lock := lock }, Prog.zoom_eq_ok.2 ⟨lock, hrun, rfl⟩, ?_⟩
    refine h.quiet hlock (fun u => ?_) rfl rfl rfl rfl (fun _ => Iff.rfl) (fun _ => Iff.rfl) fun _ => Iff.rfl
    show LockAt (s.place u) (lock.pc u) (lock.depth u)
    by_cases hu : u = t
    · subst hu
      rw [hp]
      exact hself.imp (fun hs => ⟨hs.1, hs.2.trans hd⟩) fun hs => ⟨hs.1, by rw [hs.2, hd]⟩
    · rw [(hother u hu).1, (hother u hu).2]
      exact h.place u
  · exact absurd hpc hout

theorem Inv.release (h : Inv s) (hp : s.place t = .release) (hout : s.lock.pc t ≠ .out)
    (hblocked : s.lock.pc t ≠ .blocked) : ∃ s', onLock (Sync.run t) s = .ok ((), s') ∧ Inv s' := by
  obtain ⟨lock, hrun, hlock⟩ := Sync.run_ok h.lock hout hblocked
  have hat := h.place t
  rw [hp] at hat
  obtain ⟨hrel, hd⟩ | ⟨hpc, -⟩ := hat
  · obtain ⟨hself, hother⟩ := Sync.run_releasing hrel hrun
    refine ⟨{ s with lock := lock }, Prog.zoom_eq_ok.2 ⟨lock, hrun, rfl⟩, ?_⟩
    refine h.quiet hlock (fun u => ?_) rfl rfl rfl rfl (fun _ => Iff.rfl) (fun _ => Iff.rfl) fun _ => Iff.rfl
    show LockAt (s.place u) (lock.pc u) (lock.depth u)
    by_cases hu : u = t
    · subst hu
      rw [hp]
      exact hself.imp (fun hs => ⟨hs.1, hs.2.trans hd⟩) fun hs => ⟨hs.1, by omega⟩
    · rw [(hother u hu).2]
      obtain hpc | ⟨hb, hw⟩ := (hother u hu).1
      · rw [hpc]
        exact h.place u
      · rw [hw]
        exact (hb ▸ h.place u).woken
  · exact absurd hpc hout

/-- A thread that is not asleep goes on, and no assertion but the one on `busy_wait` fails. -/
theorem run_ok (h : Inv s) (hnb : s.place t ≠ .blocked) (hlb : s.lock.pc t ≠ .blocked)
    (hready : s.place t = .busyWait → ready = true) : ∃ s', run t ready s = .ok ((), s') ∧ Inv s' := by
  unfold run
  rw [Prog.bind_of_ok (a := s) (t := s) rfl]
  have hat := h.place t
  have hgoto : ∀ place : Place, place.inside = true → (s.place t).inside = true →
      (Outstanding (s.goto t place) t ↔ Outstanding s t) → s.place t ≠ .woken →
      place ≠ .blocked → place ≠ .woken →
      ∃ s', Prog.modify (fun s : Channel T => s.goto t place) s = .ok ((), s') ∧ Inv s' :=
    fun place hin' hin hout hnw hpb hpw =>
      ⟨_, Prog.run_modify _ _, h.move_inside hin hin' hout ⟨hnb, hnw⟩ ⟨hpb, hpw⟩⟩
  cases hp : s.place t with
  | idle => exact ⟨s, rfl, h⟩
  | blocked => exact absurd hp hnb
  | acquire =>
      dsimp only
      split
      · next hout =>
          rw [hp] at hat
          obtain ⟨hacq, -⟩ | hdone := hat
          · rw [hout] at hacq
            cases hacq
          · refine ⟨_, Prog.run_modify _ _, ?_⟩
            refine h.move s.lock s.call h.lock hdone (fun u _ => ⟨.inl rfl, rfl⟩)
              (fun u _ => rfl) ?_ ⟨hnb, by rw [hp]; decide⟩ ⟨by decide, by decide⟩
            simp [Outstanding, Channel.goto, hp]
      · next hout => exact h.acquire hp hout hlb
  | release =>
      dsimp only
      split
      · next hout =>
          rw [hp] at hat
          obtain ⟨hrel, -⟩ | hdone := hat
          · rw [hout] at hrel
            cases hrel
          · refine ⟨_, Prog.run_modify _ _, ?_⟩
            refine h.move s.lock s.call h.lock hdone (fun u _ => ⟨.inl rfl, rfl⟩)
              (fun u _ => rfl) ?_ ⟨hnb, by rw [hp]; decide⟩ ⟨by decide, by decide⟩
            simp [Outstanding, Channel.goto, hp]
      · next hout => exact h.release hp hout hlb
  | select =>
      refine hgoto .head rfl (by rw [hp]; rfl) ?_ (by rw [hp]; decide) (by decide) (by decide)
      simp [Outstanding, Channel.goto, hp]
  | head =>
      dsimp only
      split
      · refine hgoto .expect rfl (by rw [hp]; rfl) ?_ (by rw [hp]; decide) (by decide) (by decide)
        simp [Outstanding, Channel.goto, hp]
      · have hd := h.depth_of_inside (t := t) (by rw [hp]; rfl)
        have hrel : Sync.Inv (s.lock.goto t .assertHolder) :=
          Sync.Step.inv h.lock (.release hd.1 (by rw [hd.2]; exact Nat.one_pos))
        refine ⟨_, Prog.run_modify _ _, ?_⟩
        refine h.move _ s.call hrel (.inl ⟨?_, hd.2⟩)
          (fun u hu => ⟨.inl (Sync.goto_pc_of_ne hu), rfl⟩) (fun u _ => rfl) ?_ ⟨hnb, by rw [hp]; decide⟩
          ⟨by decide, by decide⟩
        · rw [Sync.goto_pc_self]
          rfl
        · simp [Outstanding, Channel.goto, hp]
  | expect => exact ⟨_, Prog.run_modify _ _, h.expect hp⟩
  | issue =>
      refine ⟨_, Prog.run_modify _ _, ?_⟩
      have hin : (s.place t).inside = true := by rw [hp]; rfl
      have hnw : s.place t ≠ .woken := by rw [hp]; decide
      cases hop : (s.call t).op with
      | read =>
          refine h.move_inside hin rfl ?_ ⟨hnb, hnw⟩ ⟨by decide, by decide⟩
          simp [Outstanding, Channel.goto, hp, afterIssue]
      | write =>
          refine h.move_inside hin rfl ?_ ⟨hnb, hnw⟩ ⟨by decide, by decide⟩
          simp [Outstanding, Channel.goto, hp, hop, afterIssue]
  | down => exact semaDown_ok h (.inl hp)
  | woken => exact semaDown_ok h (.inr hp)
  | busyWait =>
      dsimp only
      rw [Prog.run_assert_bind (hready hp)]
      refine hgoto .transfer rfl (by rw [hp]; rfl) ?_ (by rw [hp]; decide) (by decide) (by decide)
      simp [Outstanding, Channel.goto, hp]
  | transfer =>
      refine ⟨_, Prog.run_modify _ _, ?_⟩
      have hin : (s.place t).inside = true := by rw [hp]; rfl
      have hnw : s.place t ≠ .woken := by rw [hp]; decide
      cases hop : (s.call t).op with
      | read =>
          refine h.move_inside hin rfl ?_ ⟨hnb, hnw⟩ ⟨by decide, by decide⟩
          simp [Outstanding, Channel.goto, hp, hop, afterTransfer]
      | write =>
          refine h.move_inside hin rfl ?_ ⟨hnb, hnw⟩ ⟨by decide, by decide⟩
          simp [Outstanding, Channel.goto, hp, hop, afterTransfer]
  | next =>
      refine ⟨_, Prog.run_modify _ _, ?_⟩
      refine h.move s.lock _ h.lock (h.depth_of_inside (by rw [hp]; rfl))
        (fun u _ => ⟨.inl rfl, rfl⟩) (fun u hu => Function.update_of_ne hu ..) ?_
        ⟨hnb, by rw [hp]; decide⟩ ⟨by decide, by decide⟩
      simp [Outstanding, Channel.goto, hp]

/-- One step keeps the invariant. -/
theorem Step.inv {l : Label T} (h : Inv s) (hstep : Step s l s') : Inv s' := by
  cases hstep with
  | @call t op sec_cnt hp hpos =>
      have hat := h.place t
      rw [hp] at hat
      have hlock : Sync.Inv (s.lock.goto t .testHolder) := Sync.Step.inv h.lock (.acquire hat.1)
      refine h.move _ _ hlock (.inl ⟨?_, hat.2⟩) (fun u hu => ⟨.inl (Sync.goto_pc_of_ne hu), rfl⟩)
        (fun u hu => Function.update_of_ne hu ..) ?_ ⟨by rw [hp]; decide, by rw [hp]; decide⟩
        ⟨by decide, by decide⟩
      · rw [Sync.goto_pc_self]
        rfl
      · simp [Outstanding, Channel.goto, hp]
  | @run t ready s' hnb hlb hrun =>
      have hready : s.place t = .busyWait → ready = true := by
        intro hp
        unfold Completion.run at hrun
        rw [Prog.bind_of_ok (a := s) (t := s) rfl, hp] at hrun
        obtain ⟨⟨⟩, _, hassert, -⟩ := Prog.bind_eq_ok.1 hrun
        exact (Prog.assert_eq_ok.1 hassert).1
      obtain ⟨s'', hrun', hinv⟩ := run_ok h hnb hlb hready
      rw [hrun] at hrun'
      cases hrun'
      exact hinv
  | interrupt hrun =>
      obtain ⟨s'', hrun', hinv⟩ := intrHdHdl_ok h
      rw [hrun] at hrun'
      cases hrun'
      exact hinv

theorem Reachable.inv (h : Reachable s) : Inv s := by
  obtain ⟨ls, hrun⟩ := h
  exact hrun.invariant (fun _ _ _ hinv hstep => hstep.inv hinv) Inv.init

/-- Only `sema_down` takes from `disk_done`. -/
theorem run_value (hrun : run t ready s = .ok ((), s')) (hdown : s.place t ≠ .down)
    (hwoken : s.place t ≠ .woken) : s'.value = s.value := by
  unfold run at hrun
  rw [Prog.bind_of_ok (a := s) (t := s) rfl] at hrun
  have honLock : ∀ m : Prog (Sync.State T) Unit, onLock m s = .ok ((), s') → s'.value = s.value := by
    intro m hm
    obtain ⟨lock, -, rfl⟩ := Prog.zoom_eq_ok.1 hm
    rfl
  cases hp : s.place t with
  | idle | blocked =>
      rw [hp] at hrun
      obtain ⟨-, rfl⟩ := Prog.pure_eq_ok.1 hrun
      rfl
  | acquire | release =>
      rw [hp] at hrun
      dsimp only at hrun
      split at hrun
      · rw [Prog.modify_eq_ok.1 hrun]
        rfl
      · exact honLock _ hrun
  | select | expect | issue | transfer | next =>
      rw [hp] at hrun
      rw [Prog.modify_eq_ok.1 hrun]
      rfl
  | head =>
      rw [hp] at hrun
      dsimp only at hrun
      split at hrun
      · rw [Prog.modify_eq_ok.1 hrun]
        rfl
      · rw [Prog.modify_eq_ok.1 hrun]
        rfl
  | busyWait =>
      rw [hp] at hrun
      obtain ⟨⟨⟩, _, hassert, hrun⟩ := Prog.bind_eq_ok.1 hrun
      obtain ⟨-, rfl⟩ := Prog.assert_eq_ok.1 hassert
      rw [Prog.modify_eq_ok.1 hrun]
      rfl
  | down => exact absurd hp hdown
  | woken => exact absurd hp hwoken

end Steps

/-! ## The protocol -/

/-- In every reachable state: between two commands the channel is at rest; an interrupt never finds `value` 1
    in `sema_up`; at most one command is outstanding, and only its issuer waits on `disk_done`, goes on to wait
    on it or takes from it. -/
theorem disk_protocol {s : Channel T} (h : Reachable s) :
    ((∀ t, ¬ Outstanding s t) → s.expecting_intr = false ∧ s.value = 0) ∧
    (s.expecting_intr = true → s.value = 0) ∧ (∃ s', intrHdHdl s = .ok ((), s')) ∧
    (∀ t u, Outstanding s t → Outstanding s u → u = t) ∧
    (∀ t, s.issuer = some t ↔ Outstanding s t) ∧
    (∀ t, t ∈ s.waiters ∨ s.place t = .down ∨ s.place t = .blocked ∨ s.place t = .woken → s.issuer = some t) ∧
    (∀ t ready s', run t ready s = .ok ((), s') → s'.value < s.value → s.issuer = some t) := by
  have hinv := h.inv
  have hplace : ∀ t, s.place t = .down ∨ s.place t = .blocked ∨ s.place t = .woken → s.issuer = some t := by
    intro t hp
    refine (hinv.issuer t).2 ?_
    unfold Outstanding
    obtain hp | hp | hp := hp <;> rw [hp] <;> trivial
  refine ⟨fun hnone => ?_, fun hflag => ?_, ?_, fun t u ht hu => ?_, hinv.issuer, fun t ht => ?_,
    fun t ready s' hrun hlt => ?_⟩
  · have hi : s.issuer = none :=
      Option.eq_none_iff_forall_ne_some.2 fun t hi => hnone t ((hinv.issuer t).1 hi)
    exact ⟨(hinv.rest hi).1, (hinv.rest hi).2.1⟩
  · cases hi : s.issuer with
    | none => exact (hinv.rest hi).2.1
    | some t =>
        obtain ⟨-, hvalue, -⟩ | ⟨hno, -⟩ := hinv.status t hi
        · exact hvalue
        · rw [hflag] at hno
          cases hno
  · obtain ⟨s', hrun, -⟩ := intrHdHdl_ok hinv
    exact ⟨s', hrun⟩
  · exact hinv.inside_unique ht.inside hu.inside
  · obtain hmem | hp := ht
    · cases hi : s.issuer with
      | none =>
          rw [(hinv.rest hi).2.2] at hmem
          cases hmem
      | some u =>
          obtain ⟨-, -, -, hwaiters⟩ | ⟨-, -, hwaiters, -⟩ := hinv.status u hi
          · rw [hwaiters] at hmem
            split at hmem
            · rw [List.mem_singleton.1 hmem]
            · cases hmem
          · rw [hwaiters] at hmem
            cases hmem
    · exact hplace t hp
  · by_cases hdown : s.place t = .down
    · exact hplace t (.inl hdown)
    · by_cases hwoken : s.place t = .woken
      · exact hplace t (.inr (.inr hwoken))
      · have hsame := run_value hrun hdown hwoken
        omega

/-- Thread 0 of the threads 0, 1, 2, … has called `ide_read`, and an interrupt comes. -/
theorem disk_protocol_called : ∃ s' : Channel Nat, Run Step Channel.init [.call 0 .read 1, .interrupt] s' ∧
    s'.expecting_intr = false ∧ s'.value = 0 := by
  have hcall := @Step.call Nat _ Channel.init 0 .read 1 rfl Nat.one_pos
  have hrun := (Run.single hcall).append (Run.single (Step.interrupt rfl))
  refine ⟨_, hrun, (disk_protocol ⟨_, hrun⟩).1 fun t ht => ?_⟩
  by_cases h0 : t = 0
  · subst h0
    exact ht
  · simp [Outstanding, Channel.goto, Channel.init, h0] at ht

end Completion

end RecoverOS
