import RecoverOS.Memory.Pages
import RecoverOS.UserProg.WaitExit

set_option autoImplicit false

/-! # The memory of a process that exits (`userprog/wait_exit.c`, `thread/thread.c`)

`sys_exit` releases the pages of the virtual pool of the process and the tables that lead to them;
`sys_wait` of its parent releases the pml4 and the page of the `struct task_struct` through
`free_pages`. The process tree is that of `WaitExit`, and threads go by its addresses; what closing the
descriptors does is left open. -/

namespace RecoverOS

open WaitExit (WaitResult)

/-- Memory and the threads. `pml4` is the field of that name, `none` standing for `NULL`, and `page` is
    the page of the `struct task_struct`. -/
structure Machine where
  mem : Memory
  k_v_pool : VirtPool
  pml4 : Nat → Option Nat
  u_v_pool : Nat → VirtPool
  page : Nat → Nat
  tree : WaitExit.State

namespace Machine

/-! ## The code -/

/-- Run a computation on the machine and `k_v_pool`. -/
def onKernelPool {α : Type} (m : Prog Space α) : Prog Machine α :=
  Prog.zoom (fun s => { mem := s.mem, vpool := s.k_v_pool })
    (fun t s => { s with mem := t.mem, k_v_pool := t.vpool }) m

/-- Run a computation on the machine and the pool of a thread. -/
def onUserPool {α : Type} (p : Nat) (m : Prog Space α) : Prog Machine α :=
  Prog.zoom (fun s => { mem := s.mem, vpool := s.u_v_pool p })
    (fun t s => { s with mem := t.mem, u_v_pool := Function.update s.u_v_pool p t.vpool }) m

def onTree {α : Type} (m : Prog WaitExit.State α) : Prog Machine α :=
  Prog.zoom Machine.tree (fun tree s => { s with tree := tree }) m

/-- `sys_exit`. `release_prog_resource` releases the memory and then closes the descriptors, which is
    `closing`; neither touches what the rest of `sys_exit` reads and writes. -/
def sysExit (closing : Prog Machine Unit) (child_thread : Nat) (status : BitVec 32) :
    Prog Machine Unit := do
  let s ← Prog.get
  onUserPool child_thread (releaseProgMem (s.pml4 child_thread))
  closing
  onTree (WaitExit.sysExit child_thread status)

/-- What `thread_exit` frees of a process, called by the thread `cur`. -/
def threadExitMem (cur thread_over : Nat) : Prog Machine Unit := do
  let s ← Prog.get
  match s.pml4 thread_over with
  | none => pure ()
  | some pml4 => onKernelPool (freePages (s.pml4 cur) pml4 1)
  onKernelPool (freePages (s.pml4 cur) (s.page thread_over) 1)

/-- `sys_wait` collects the child it has found, if it has. -/
def collect (parent_thread : Nat) : WaitResult → Prog Machine Unit
  | .child c _ _ => threadExitMem parent_thread c
  | _ => pure ()

/-- One turn of the loop of `sys_wait`. -/
def waitTurn (parent_thread : Nat) : Prog Machine WaitResult := do
  let r ← onTree (WaitExit.waitTurn parent_thread)
  collect parent_thread r
  pure r

/-! ## What should be free afterwards -/

/-- The frames of a process that runs with the pml4 in `cr3`: its pml4, the page of its
    `struct task_struct`, and every table and page of the lower half of its address space. -/
def Holds (s : Machine) (p g : Nat) : Prop :=
  g = s.mem.cr3 ∨ s.mem.translate (s.page p) = some (4096 * g) ∨
    ∃ v < 2 ^ 47, ∃ k ≤ 4, 0 < k ∧ s.mem.table v k = some g

/-- The frame is marked free in `phy_pool`. -/
def Free (s : Machine) (g : Nat) : Prop :=
  bitmapRead s.mem.phy_pool.pool_bitmap (phyIdx s.mem (4096 * g)) = false

/-- A frame that an address space still uses, as a table or as a page. -/
def InUse (s : Machine) (g : Nat) : Prop := ∃ v, ∃ k ≤ 4, s.mem.table v k = some g

/-- The memory of `p` in `s` has been returned in `s'`, and no frame in use is free. -/
def Returned (s s' : Machine) (p : Nat) : Prop :=
  (∀ g, s.Holds p g → s'.Free g) ∧ ∀ g, s'.InUse g → ¬ s'.Free g

/-- `p` runs in `s`, with its pml4 in `cr3`, and exits; later its parent collects it, which gives `s'`.
    Whatever ran between has left the pml4 of `p` where it was. -/
structure Ended (s s' : Machine) (p : Nat) : Prop where
  runs : ∃ pml4, s.pml4 p = some pml4 ∧ addrV2p pml4 s.mem = .ok (4096 * s.mem.cr3, s.mem) ∧
    ∃ status closing s1 parent s2 pid st,
    sysExit closing p status s = .ok ((), s1) ∧
    s2.pml4 p = some pml4 ∧ addrV2p pml4 s2.mem = .ok (4096 * s.mem.cr3, s2.mem) ∧
    waitTurn parent s2 = .ok (.child p pid st, s')

/-! ## The pml4 is never returned -/

section Never

variable {s s' : Machine} {p cur pml4 paddr : Nat}

theorem onKernelPool_keeps {α : Type} {c : Prog Space α}
    (h : c.Extends fun s s' => s.mem.KeepsUsed s'.mem) :
    (onKernelPool c).Extends fun s s' => s.mem.KeepsUsed s'.mem := by
  intro s a s' hrun
  obtain ⟨t, ht, rfl⟩ := Prog.zoom_eq_ok.1 hrun
  exact h _ _ _ ht

/-- After `thread_exit` the frame of the pml4 is marked as in use. -/
theorem threadExitMem_used (h : threadExitMem cur p s = .ok ((), s')) (hpml4 : s.pml4 p = some pml4)
    (hpaddr : addrV2p pml4 s.mem = .ok (paddr, s.mem)) :
    bitmapRead s'.mem.phy_pool.pool_bitmap (phyIdx s'.mem paddr) = true := by
  rw [threadExitMem, Prog.bind_of_ok (Prog.get_eq_ok.2 ⟨rfl, rfl⟩), hpml4] at h
  obtain ⟨⟨⟩, s1, hfree, h⟩ := Prog.bind_eq_ok.1 h
  have hkeep1 := onKernelPool_keeps (freePages_keeps _ _ _) _ _ _ hfree
  have hkeep2 := onKernelPool_keeps (freePages_keeps _ _ _) _ _ _ h
  obtain ⟨t, ht, rfl⟩ := Prog.zoom_eq_ok.1 hfree
  have hused := freePages_used ht hpaddr
  have hidx : phyIdx s'.mem paddr = phyIdx s.mem paddr := by
    rw [phyIdx, phyIdx, hkeep2.1, hkeep1.1]
  rw [hidx]
  exact hkeep2.2 _ hused

/-- When the parent has collected a process, the frame of its pml4 is marked as in use. -/
theorem Ended.pml4_used (h : Ended s s' p) : ¬ s'.Free s.mem.cr3 := by
  obtain ⟨pml4, -, -, status, closing, s1, parent, s2, pid, st, -, hpml4, hpaddr, hwait⟩ := h.runs
  obtain ⟨r, s3, htree, hwait⟩ := Prog.bind_eq_ok.1 hwait
  obtain ⟨t, -, rfl⟩ := Prog.zoom_eq_ok.1 htree
  obtain ⟨⟨⟩, s4, hexit, hwait⟩ := Prog.bind_eq_ok.1 hwait
  obtain ⟨rfl, rfl⟩ := Prog.pure_eq_ok.1 hwait
  rw [Free, threadExitMem_used hexit hpml4 hpaddr]
  decide

end Never

/-! ## A process with nothing but its stack -/

/-- A pool whose pages all lie under the first pml4 entry, which is absent, has nothing to release. -/
theorem releaseProgMemFrom_empty {t : Space} (pml4 : Option Nat)
    (hself : Paging.SelfMapped t.mem.word t.mem.cr3) (habs : t.mem.word t.mem.cr3 0 % 2 = 0) (n : Nat) :
    ∀ i, t.vpool.start + (i + n) * 4096 ≤ 0x8000000000 → releaseProgMemFrom pml4 n i t = .ok ((), t) := by
  induction n with
  | zero => intro i _; rfl
  | succ n ih =>
      intro i hi
      have hle : t.vpool.start + (i + 1 + n) * 4096 ≤ 0x8000000000 := by
        rwa [Nat.add_assoc i 1 n, Nat.add_comm 1 n]
      have hnext := ih (i + 1) hle
      have hidx : Paging.index (t.vpool.start + i * 4096) 0 = 0 := by
        simp only [Paging.index]
        omega
      have hload := load_fu (k := 0) (v := t.vpool.start + i * 4096) hself (by decide) rfl
      rw [hidx] at hload
      have hstat : onMem (mapStat (t.vpool.start + i * 4096)) t = .ok (0, t) := by
        refine Prog.zoom_eq_ok.2 ⟨t.mem, ?_, rfl⟩
        rw [mapStat, mapStatFrom, Prog.bind_of_ok hload, Nat.and_one_is_mod, if_pos habs, Prog.run_pure]
      have hpage : releasePage pml4 (t.vpool.start + i * 4096) t = .ok ((), t) := by
        rw [releasePage, Prog.bind_of_ok hstat, if_neg (by decide)]
        exact Prog.zoom_eq_ok.2 ⟨t.mem, rfl, rfl⟩
      simp only [releaseProgMemFrom, Prog.bind_eq_ok]
      exact ⟨t, t, Prog.get_eq_ok.2 ⟨rfl, rfl⟩, (), t, hpage, hnext⟩

/-- Thread 1, a child of init (thread 0), runs before its first `sys_execv`: of its lower half only the
    two pages of the stack are mapped. -/
def stackOnly : Machine where
  mem := {
    word := fun t j =>
      if t = 0x104 ∨ t = 0x107 then
        if j = 255 then 4096 * (t + (if t = 0x104 then 4 else 6)) + 7
        else if j = 256 then 0x101007 else if j = 511 then 4096 * t + 7 else 0
      else if (t = 0x101 ∨ t = 0x102) ∧ j = 0 then 4096 * (t + 1) + 7
      else if t = 0x103 then
        if j < 256 then 4096 * j + 7
        else if j = 256 then 0x105007 else if j = 257 then 0x104007
        else if j = 258 then 0x106007 else if j = 259 then 0x107007 else 0
      else if (t = 0x108 ∨ t = 0x109 ∨ t = 0x10d ∨ t = 0x10e) ∧ j = 511 then 4096 * (t + 1) + 7
      else if (t = 0x10a ∨ t = 0x10f) ∧ 510 ≤ j then 4096 * (t + j - 509) + 7
      else 0
    cr3 := 0x104
    phy_pool := {
      start := 0x104000
      pool_bitmap := { bytes_len := 32735, bits := fun a => if a = 0 then 0xff else if a = 1 then 0x3f else 0 } } }
  k_v_pool := {
    start := 0xffff800000100000
    pool_bitmap := { bytes_len := 256, bits := fun a => if a = 0 then 0x0f else 0 } }
  pml4 := fun p => if p = 0 then some 0xffff800000103000 else if p = 1 then some 0xffff800000101000 else none
  u_v_pool := fun _ => { start := 0x1000, pool_bitmap := { bytes_len := 256, bits := Buf.zero } }
  page := fun p => if p = 0 then 0xffff800000102000 else 0xffff800000100000
  tree := {
    tasks := fun p =>
      if p = 0 then some ⟨1, none, .TASK_BLOCKED, 0, true⟩
      else if p = 1 then some ⟨2, some 1, .TASK_RUNNING, 0, false⟩ else none
    all_threads_list := [0, 1]
    pid_bitmap := { bytes_len := 128, bits := fun a => if a = 0 then 3 else 0 }
    next := 2
    init_proc := 0
    parent := fun _ => 0 }

theorem stackOnly_release :
    onUserPool 1 (releaseProgMem (stackOnly.pml4 1)) stackOnly = .ok ((), stackOnly) := by
  refine Prog.zoom_eq_ok.2 ⟨⟨stackOnly.mem, stackOnly.u_v_pool 1⟩, ?_, ?_⟩
  · rw [releaseProgMem, Prog.run_assert_bind (by decide), Prog.bind_of_ok (Prog.get_eq_ok.2 ⟨rfl, rfl⟩)]
    exact releaseProgMemFrom_empty (t := ⟨stackOnly.mem, stackOnly.u_v_pool 1⟩) _ rfl rfl _ 0 (by decide)
  · rw [Function.update_eq_self]

/-- The process tree once it has exited. -/
def stackOnlyLeft : WaitExit.State :=
  match WaitExit.sysExit 1 0 stackOnly.tree with
  | .ok (_, t) => t
  | .error _ => stackOnly.tree

theorem stackOnly_exit :
    sysExit (pure ()) 1 0 stackOnly = .ok ((), { stackOnly with tree := stackOnlyLeft }) := by
  rw [sysExit, Prog.bind_of_ok (Prog.get_eq_ok.2 ⟨rfl, rfl⟩), Prog.bind_of_ok stackOnly_release,
    Prog.run_pure_bind]
  exact Prog.zoom_eq_ok.2 ⟨stackOnlyLeft, rfl, rfl⟩

/-- Init runs, with its own pml4 in `cr3`. -/
def stackOnlyInit : Machine :=
  { stackOnly with
    mem := { stackOnly.mem with cr3 := 0x107 }
    tree := stackOnlyLeft }

/-- The thread that `sys_wait` of init collects then, and the frames it was started with that are free
    afterwards. -/
def stackOnlyCollected : Option (Nat × List Nat) :=
  match waitTurn 0 stackOnlyInit with
  | .ok (.child c _ _, s') =>
      some (c, (List.range 14).filter fun i => !bitmapRead s'.mem.phy_pool.pool_bitmap i)
  | _ => none

theorem stackOnly_collected : stackOnlyCollected = some (1, []) := by decide +kernel

/-- It exits, and init collects it. -/
theorem stackOnly_ended : ∃ s', Ended stackOnly s' 1 := by
  have h := stackOnly_collected
  unfold stackOnlyCollected at h
  split at h
  · next c pid st s' hwait =>
      obtain rfl : c = 1 := congrArg Prod.fst (Option.some.inj h)
      exact ⟨s', ⟨0xffff800000101000, rfl, rfl, 0, pure (), _, 0, stackOnlyInit, pid, st,
        stackOnly_exit, rfl, rfl, hwait⟩⟩
  · cases h

/-- No process gets all its memory back: the frame of its pml4 stays marked as in use. -/
theorem not_returned (s s' : Machine) (p : Nat) (h : Ended s s' p) : ¬ Returned s s' p :=
  fun hreturned => h.pml4_used (hreturned.1 s.mem.cr3 (Or.inl rfl))

theorem not_returned_stack : ∃ s', Ended stackOnly s' 1 ∧ ¬ Returned stackOnly s' 1 := by
  obtain ⟨s', h⟩ := stackOnly_ended
  exact ⟨s', h, not_returned stackOnly s' 1 h⟩

/-- The pml4 and the two pages of the stack are frames of that process, and the pml4 is not free when
    init has collected it. -/
theorem stackOnly_not_freed : stackOnly.Holds 1 0x104 ∧ stackOnly.Holds 1 0x10b ∧
    stackOnly.Holds 1 0x10c ∧ ∃ s', Ended stackOnly s' 1 ∧ ¬ s'.Free 0x104 ∧ ¬ Returned stackOnly s' 1 := by
  obtain ⟨s', h⟩ := stackOnly_ended
  have hused : ¬ s'.Free 0x104 := h.pml4_used
  exact ⟨Or.inl rfl, Or.inr (Or.inr ⟨0x7fffffffe000, by decide, 4, by decide, by decide, rfl⟩),
    Or.inr (Or.inr ⟨0x7ffffffff000, by decide, 4, by decide, by decide, rfl⟩),
    s', h, hused, fun hreturned => hused (hreturned.1 0x104 (Or.inl rfl))⟩

end Machine

end RecoverOS
