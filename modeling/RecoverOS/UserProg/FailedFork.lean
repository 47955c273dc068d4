import RecoverOS.Pipe.AllOrNothing
import RecoverOS.UserProg.WaitExit

set_option autoImplicit false

/-! # A fork that fails (`userprog/fork.c`, `userprog/process.c`)

`sys_fork` with its four allocations. A thread goes by the address of its `struct task_struct`, which is the
page that `sys_fork` allocates; of the PCB there are the fields of `WaitExit.Task`, the `fd_table` and the
`pml4`. The copying of the user stack and of the user pages comes after the last way out that returns -1. -/

namespace RecoverOS

open Paging
open Tables (Host onTables onKernel)
open Kernel (MAX_FILES_OPEN_PER_PROC)
open WaitExit (taskAt setTask allocPid)
open Sched.TaskStat

namespace Forking

/-- `STACK_PAGE_CNT`. -/
abbrev STACK_PAGE_CNT : Nat := 2

/-- What `sys_fork` works on. -/
structure Sys where
  host : Host Nat
  tree : WaitExit.State
  ready_threads_list : List Nat
  pml4 : Nat → Option Nat

/-- Run a computation on the tables and `k_v_pool`. -/
def onHost {α : Type} (m : Prog (Host Nat) α) : Prog Sys α :=
  Prog.zoom Sys.host (fun host s => { s with host := host }) m

/-- Run a computation on the threads. -/
def onTree {α : Type} (m : Prog WaitExit.State α) : Prog Sys α :=
  Prog.zoom Sys.tree (fun tree s => { s with tree := tree }) m

/-- `alloc_pages(&k_v_pool, cnt)`. -/
def kernelPages (cnt : Nat) : Prog Sys (Option Nat) := onHost (onKernel (allocPages cnt))

/-- `memcpy` of `n` words. -/
def copyWords (dst src : Nat) : Nat → Prog Memory Unit
  | 0 => pure ()
  | n + 1 => do
      copyWords dst src n
      let e ← load (src + 8 * n)
      store (dst + 8 * n) e

/-- What `create_pml4` stores in its page: nothing below, the kernel half of the table in use, and the entry
    that leads to the page itself. -/
def fillPml4 (pml4 : Nat) : Prog Memory Unit := do
  memsetPage pml4
  copyWords (pml4 + 8 * 256) (0xfffffffffffff000 + 8 * 256) 256
  let paddr ← addrV2p pml4
  store (pml4 + 8 * 511) (paddr + 7)

/-- `create_pml4`; `none` stands for `NULL`. -/
def createPml4 : Prog Sys (Option Nat) := do
  let pml4 ← kernelPages 1
  match pml4 with
  | none => pure none
  | some v => do
      onHost (onKernel (onMem (fillPml4 v)))
      pure (some v)

/-- `copy_pcb`. -/
def copyPcb (child_thread parent_thread : Nat) : Prog Sys Unit := do
  let a ← onTree (taskAt parent_thread)
  onHost (onTables (Prog.modify fun t => { t with
    fd_table := Function.update t.fd_table child_thread (t.fd_table parent_thread)
    live := insert child_thread t.live }))
  let pid ← onTree allocPid
  onTree (setTask child_thread { a with pid := pid, stat := TASK_READY, parent_pid := some a.pid })

/-- `copy_process`; `false` stands for -1. `copy_body_stack` is whatever `copyBodyStack` does. -/
def copyProcess (copyBodyStack : Nat → Nat → Nat → Prog Sys Unit) (child_thread parent_thread : Nat) :
    Prog Sys Bool := do
  let buf_page ← kernelPages STACK_PAGE_CNT
  match buf_page with
  | none => pure false
  | some buf_page => do
      copyPcb child_thread parent_thread
      let pml4 ← createPml4
      Prog.modify fun s => { s with pml4 := Function.update s.pml4 child_thread pml4 }
      if pml4 = none then pure false
      else do
        let tmp_stack ← kernelPages 1
        match tmp_stack with
        | none => pure false
        | some tmp_stack => do
            copyBodyStack child_thread parent_thread buf_page
            let s ← Prog.get
            onHost (onKernel (freePages (s.pml4 parent_thread) tmp_stack 1))
            onHost (onTables (Tables.updateInodeOpenCnts child_thread
              (List.range' 3 (MAX_FILES_OPEN_PER_PROC - 3))))
            onHost (onKernel (freePages (s.pml4 parent_thread) buf_page STACK_PAGE_CNT))
            pure true

/-- `sys_fork`: the pid of the child, or `none` for -1. -/
def sysFork (copyBodyStack : Nat → Nat → Nat → Prog Sys Unit) (parent_thread : Nat) :
    Prog Sys (Option Nat) := do
  let child_thread ← kernelPages 1
  match child_thread with
  | none => pure none
  | some child_thread => do
      let s ← Prog.get
      Prog.assert (s.pml4 parent_thread ≠ none)
      let copied ← copyProcess copyBodyStack child_thread parent_thread
      if copied = false then pure none
      else do
        let s ← Prog.get
        Prog.assert (child_thread ∉ s.ready_threads_list)
        Prog.modify fun s => { s with ready_threads_list := s.ready_threads_list ++ [child_thread] }
        Prog.assert (child_thread ∉ s.tree.all_threads_list)
        onTree (Prog.modify fun t => { t with all_threads_list := t.all_threads_list ++ [child_thread] })
        let a ← onTree (taskAt child_thread)
        pure (some a.pid)

/-! ## What a failed call leaves -/

/-- The bitmap of `k_v_pool`. -/
def Sys.pool (s : Sys) : Bitmap := s.host.kernel.vpool.pool_bitmap

/-- The pids, the pages of `k_v_pool`, the lists of threads and the references are as before. -/
structure NoTrace (s s' : Sys) : Prop where
  pid_bitmap : s.tree.pid_bitmap.Same s'.tree.pid_bitmap
  k_v_pool : s.pool.Same s'.pool
  all_threads_list : s'.tree.all_threads_list = s.tree.all_threads_list
  ready_threads_list : s'.ready_threads_list = s.ready_threads_list
  i_open_cnts : ∀ p, (s'.host.tables.fs.inodes p).map Inode.i_open_cnts =
    (s.host.tables.fs.inodes p).map Inode.i_open_cnts
  pipes : ∀ g, (s'.host.tables.file_table g).fd_pos = (s.host.tables.file_table g).fd_pos

theorem NoTrace.refl (s : Sys) : NoTrace s s :=
  ⟨.refl _, .refl _, rfl, rfl, fun _ => rfl, fun _ => rfl⟩

/-- Pages of `k_v_pool` were taken and none was given back. -/
def Takes (s s' : Sys) : Prop := ∀ i, bitmapRead s.pool i = true → bitmapRead s'.pool i = true

theorem Takes.refl (s : Sys) : Takes s s := fun _ h => h

theorem Takes.trans {s t u : Sys} (h : Takes s t) (h' : Takes t u) : Takes s u := fun i hi => h' i (h i hi)

theorem Takes.of_eq {s s' : Sys} (h : s'.pool = s.pool) : Takes s s' := fun i hi => by rwa [h]

/-! ## Allocating only takes -/

section Takes

variable {s s' : Sys} {r : Option Nat} {cnt : Nat}

/-- `alloc_pages` found nothing and changed nothing, or took a page that was free. -/
theorem kernelPages_cases (h : kernelPages cnt s = .ok (r, s')) (hcnt : 0 < cnt) :
    (r = none ∧ ¬ s.pool.FreeRun cnt ∧ s' = s) ∨
      Takes s s' ∧ s.pool.FreeRun cnt ∧
        ∃ i < s.pool.size, bitmapRead s.pool i = false ∧ bitmapRead s'.pool i = true := by
  unfold kernelPages at h
  obtain ⟨host, hhost, rfl⟩ := Prog.zoom_eq_ok.1 h
  obtain ⟨kernel, halloc, rfl⟩ := Prog.zoom_eq_ok.1 hhost
  obtain ⟨rfl, hnone, rfl⟩ | ⟨k, -, hin, hpool, hclear⟩ := Space.allocPages_cases halloc hcnt
  · exact .inl ⟨rfl, hnone, rfl⟩
  · have hset := congrArg VirtPool.pool_bitmap hpool
    have hbit := hclear 0 hcnt
    have hbit' := bitmapSetRun_read s.host.kernel.vpool.pool_bitmap k cnt hcnt
    dsimp only at hset
    rw [← hset] at hbit'
    refine .inr ⟨fun i hi => ?_, ⟨k, hin, hclear⟩, k + 0, ?_, hbit, hbit'⟩
    · change bitmapRead kernel.vpool.pool_bitmap i = true
      rw [hset]
      exact bitmapSetRun_keeps _ k cnt hi
    · change k + 0 < s.host.kernel.vpool.pool_bitmap.size
      omega

theorem run_kernelPages (s : Sys) {kernel : Space} (h : allocPages cnt s.host.kernel = .ok (r, kernel)) :
    kernelPages cnt s = .ok (r, { s with host := { s.host with kernel := kernel } }) := by
  unfold kernelPages
  exact Prog.zoom_eq_ok.2 ⟨_, Prog.zoom_eq_ok.2 ⟨kernel, h, rfl⟩, rfl⟩

theorem kernelPages_takes (h : kernelPages cnt s = .ok (r, s')) (hcnt : 0 < cnt) : Takes s s' := by
  obtain ⟨-, -, rfl⟩ | ⟨htakes, -⟩ := kernelPages_cases h hcnt
  · exact .refl _
  · exact htakes

theorem copyPcb_takes {child parent : Nat} {u : Unit} (h : copyPcb child parent s = .ok (u, s')) :
    Takes s s' := by
  obtain ⟨a, s1, h1, h⟩ := Prog.bind_eq_ok.1 h
  obtain ⟨tree1, -, rfl⟩ := Prog.zoom_eq_ok.1 h1
  obtain ⟨⟨⟩, s2, h2, h⟩ := Prog.bind_eq_ok.1 h
  obtain ⟨host, hhost, rfl⟩ := Prog.zoom_eq_ok.1 h2
  obtain ⟨tables, -, rfl⟩ := Prog.zoom_eq_ok.1 hhost
  obtain ⟨pid, s3, h3, h⟩ := Prog.bind_eq_ok.1 h
  obtain ⟨tree2, -, rfl⟩ := Prog.zoom_eq_ok.1 h3
  obtain ⟨tree3, -, rfl⟩ := Prog.zoom_eq_ok.1 h
  exact .of_eq rfl

theorem createPml4_takes (h : createPml4 s = .ok (r, s')) : Takes s s' := by
  obtain ⟨v, s1, h1, h⟩ := Prog.bind_eq_ok.1 h
  have htakes := kernelPages_takes h1 Nat.one_pos
  cases v with
  | none =>
      obtain ⟨-, rfl⟩ := Prog.pure_eq_ok.1 h
      exact htakes
  | some v =>
      obtain ⟨⟨⟩, s2, h2, h⟩ := Prog.bind_eq_ok.1 h
      obtain ⟨-, rfl⟩ := Prog.pure_eq_ok.1 h
      obtain ⟨host, hhost, rfl⟩ := Prog.zoom_eq_ok.1 h2
      obtain ⟨kernel, hkernel, rfl⟩ := Prog.zoom_eq_ok.1 hhost
      obtain ⟨mem, -, rfl⟩ := Prog.zoom_eq_ok.1 hkernel
      exact htakes.trans (.of_eq rfl)

/-- No way out of `copy_process` that returns -1 gives a page back. -/
theorem copyProcess_takes {copyBodyStack : Nat → Nat → Nat → Prog Sys Unit} {child parent : Nat}
    (h : copyProcess copyBodyStack child parent s = .ok (false, s')) : Takes s s' := by
  obtain ⟨buf, s1, h1, h⟩ := Prog.bind_eq_ok.1 h
  have hbuf := kernelPages_takes h1 Nat.two_pos
  cases buf with
  | none =>
      obtain ⟨-, rfl⟩ := Prog.pure_eq_ok.1 h
      exact hbuf
  | some buf_page =>
      obtain ⟨⟨⟩, s2, h2, h⟩ := Prog.bind_eq_ok.1 h
      obtain ⟨pml4, s3, h3, h⟩ := Prog.bind_eq_ok.1 h
      obtain ⟨⟨⟩, s4, h4, h⟩ := Prog.bind_eq_ok.1 h
      have hpml4 := (hbuf.trans (copyPcb_takes h2)).trans (createPml4_takes h3)
      obtain rfl := Prog.modify_eq_ok.1 h4
      have hset : Takes s3 { s3 with pml4 := Function.update s3.pml4 child pml4 } := .of_eq rfl
      split at h
      · obtain ⟨-, rfl⟩ := Prog.pure_eq_ok.1 h
        exact hpml4.trans hset
      · obtain ⟨tmp, s5, h5, h⟩ := Prog.bind_eq_ok.1 h
        have htmp := kernelPages_takes h5 Nat.one_pos
        cases tmp with
        | none =>
            obtain ⟨-, rfl⟩ := Prog.pure_eq_ok.1 h
            exact (hpml4.trans hset).trans htmp
        | some tmp_stack =>
            -- from here on the call returns 0
            dsimp only at h
            obtain ⟨_, _, _, h⟩ := Prog.bind_eq_ok.1 h
            obtain ⟨_, _, _, h⟩ := Prog.bind_eq_ok.1 h
            obtain ⟨_, _, _, h⟩ := Prog.bind_eq_ok.1 h
            obtain ⟨_, _, _, h⟩ := Prog.bind_eq_ok.1 h
            obtain ⟨_, _, _, h⟩ := Prog.bind_eq_ok.1 h
            obtain ⟨heq, -⟩ := Prog.pure_eq_ok.1 h
            cases heq

end Takes

/-! ## Failed calls -/

/-- A call of `sys_fork` that returns -1 leaves no trace exactly when there was no free page for the PCB: every
    other way out keeps at least that page. -/
theorem failed_fork_iff {copyBodyStack : Nat → Nat → Nat → Prog Sys Unit} {parent : Nat} {s s' : Sys}
    (h : sysFork copyBodyStack parent s = .ok (none, s')) : NoTrace s s' ↔ ¬ s.pool.FreeRun 1 := by
  obtain ⟨child, s1, h1, hrun⟩ := Prog.bind_eq_ok.1 h
  clear h
  obtain ⟨rfl, hnone, rfl⟩ | ⟨htakes, hfree, i, hi, hclear, hset⟩ := kernelPages_cases h1 Nat.one_pos
  · obtain ⟨-, rfl⟩ := Prog.pure_eq_ok.1 hrun
    exact ⟨fun _ => hnone, fun _ => .refl _⟩
  · have hrest : Takes s1 s' := by
      cases child with
      | none =>
          obtain ⟨-, rfl⟩ := Prog.pure_eq_ok.1 hrun
          exact .refl _
      | some child =>
          obtain ⟨s2, s3, hget, hrun⟩ := Prog.bind_eq_ok.1 hrun
          obtain ⟨rfl, rfl⟩ := Prog.get_eq_ok.1 hget
          obtain ⟨⟨⟩, s4, hassert, hrun⟩ := Prog.bind_eq_ok.1 hrun
          obtain ⟨-, rfl⟩ := Prog.assert_eq_ok.1 hassert
          obtain ⟨copied, s5, hcopy, hrun⟩ := Prog.bind_eq_ok.1 hrun
          cases copied with
          | false =>
              obtain ⟨-, rfl⟩ := Prog.pure_eq_ok.1 hrun
              exact copyProcess_takes hcopy
          | true =>
              rw [if_neg (by decide)] at hrun
              obtain ⟨_, _, _, hrun⟩ := Prog.bind_eq_ok.1 hrun
              obtain ⟨_, _, _, hrun⟩ := Prog.bind_eq_ok.1 hrun
              obtain ⟨_, _, _, hrun⟩ := Prog.bind_eq_ok.1 hrun
              obtain ⟨_, _, _, hrun⟩ := Prog.bind_eq_ok.1 hrun
              obtain ⟨_, _, _, hrun⟩ := Prog.bind_eq_ok.1 hrun
              obtain ⟨_, _, _, hrun⟩ := Prog.bind_eq_ok.1 hrun
              obtain ⟨heq, -⟩ := Prog.pure_eq_ok.1 hrun
              cases heq
    refine ⟨fun htrace => ?_, fun hnone => absurd hfree hnone⟩
    have hsame := htrace.k_v_pool.bits i hi
    rw [hclear, hrest i hset] at hsame
    cases hsame

/-! ## Without frames -/

/-- The first process, on a machine all of whose frames are taken. -/
def noFrames : Sys where
  host := {
    tables := {
      fs := FS.boot Buf.zero
      file_table := fun _ => ⟨0, 0, none⟩
      fd_table := fun _ fd => if fd < 3 then some fd else none
      pages := fun _ => none
      page_size := fun _ => 0
      next_page := 0
      freed := fun _ => 0
      kbd_buf := Ioqueue.ioqueueInit fun _ => 0
      screen := []
      live := {1} }
    kernel := Space.noFrames }
  tree := {
    tasks := fun p => if p = 1 then some ⟨1, none, TASK_RUNNING, 0, false⟩ else none
    all_threads_list := [1]
    pid_bitmap := bitmapSet ⟨128, Buf.zero⟩ 0 true
    next := 2
    init_proc := 1
    parent := fun _ => 1 }
  ready_threads_list := []
  pml4 := fun _ => some 0

theorem noFrames_fork (copyBodyStack : Nat → Nat → Nat → Prog Sys Unit) :
    ∃ s', sysFork copyBodyStack 1 noFrames = .ok (none, s') := by
  obtain ⟨kernel, halloc⟩ := Space.noFrames_alloc
  unfold sysFork
  rw [Prog.bind_of_ok (run_kernelPages noFrames halloc)]
  exact ⟨_, rfl⟩

theorem failed_fork_noFrames : ∃ s', sysFork (fun _ _ _ => pure ()) 1 noFrames = .ok (none, s') ∧
    (NoTrace noFrames s' ↔ ¬ noFrames.pool.FreeRun 1) := by
  obtain ⟨s', h⟩ := noFrames_fork fun _ _ _ => pure ()
  exact ⟨s', h, failed_fork_iff h⟩

/-- The page for the PCB stays taken. -/
theorem not_failed_fork_noFrames :
    ∃ s', sysFork (fun _ _ _ => pure ()) 1 noFrames = .ok (none, s') ∧ ¬ NoTrace noFrames s' := by
  obtain ⟨s', h⟩ := noFrames_fork fun _ _ _ => pure ()
  refine ⟨s', h, fun htrace => ?_⟩
  obtain ⟨kernel, halloc⟩ := Space.noFrames_alloc
  have hrun := h
  unfold sysFork at hrun
  rw [Prog.bind_of_ok (run_kernelPages noFrames halloc)] at hrun
  obtain ⟨-, rfl⟩ := Prog.pure_eq_ok.1 hrun
  obtain ⟨hnone, -⟩ | ⟨k, hin, hset⟩ := Space.allocPages_none halloc Nat.one_pos
  · exact hnone ⟨0, by decide, fun j hj => bitmapRead_of_zero rfl⟩
  · have hbits := htrace.k_v_pool.bits (k + 0) (Nat.lt_of_succ_le hin)
    have hbits' : bitmapRead kernel.vpool.pool_bitmap (k + 0) =
        bitmapRead Space.noFrames.vpool.pool_bitmap (k + 0) := hbits
    rw [(hset 0 Nat.one_pos).1, (hset 0 Nat.one_pos).2] at hbits'
    cases hbits'

end Forking

end RecoverOS
