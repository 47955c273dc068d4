import RecoverOS.Memory.FailedAlloc
import RecoverOS.Pipe.Lifetime

set_option autoImplicit false

/-! # A pipe when something runs out (`pipe/pipe.c`)

`sys_pipe` once more, with the page from `alloc_pages(&k_v_pool, 1)`. It needs a slot of `file_table`, the page
and two descriptors, and checks the page only. -/

namespace RecoverOS

open Paging

/-! ## One page -/

section OnePage

variable {s s' : Space} {v : Nat}

/-- `alloc_pages(vpool, 1)` takes a free page of the pool and a free frame. -/
theorem allocPages_one_some (h : allocPages 1 s = .ok (some v, s')) :
    s.vpool.pool_bitmap.FreeRun 1 ∧ 0 < s.mem.freeFrames := by
  obtain ⟨vaddr, s1, hv, h⟩ := Prog.bind_eq_ok.1 h
  obtain ⟨idx, s2, hidx, hv⟩ := Prog.bind_eq_ok.1 hv
  obtain ⟨b, hb, rfl⟩ := Prog.zoom_eq_ok.1 hidx
  obtain ⟨s3, s4, hget, hv⟩ := Prog.bind_eq_ok.1 hv
  obtain ⟨rfl, rfl⟩ := Prog.get_eq_ok.1 hget
  obtain ⟨rfl, rfl⟩ := Prog.pure_eq_ok.1 hv
  obtain ⟨rfl, rfl, -⟩ | ⟨k, rfl, rfl, hin, hclear⟩ := bitmapAlloc_cases hb Nat.one_pos
  · obtain ⟨heq, -⟩ := Prog.pure_eq_ok.1 h
    cases heq
  · refine ⟨⟨k, hin, hclear⟩, ?_⟩
    obtain ⟨ok, s5, hrun, h⟩ := Prog.bind_eq_ok.1 h
    obtain ⟨mem, hmem, rfl⟩ := Prog.zoom_eq_ok.1 hrun
    obtain ⟨paddr, m1, hpalloc, hmem⟩ := Prog.bind_eq_ok.1 hmem
    cases paddr with
    | none =>
        obtain ⟨rfl, -⟩ := Prog.pure_eq_ok.1 hmem
        obtain ⟨heq, -⟩ := Prog.pure_eq_ok.1 h
        cases heq
    | some p => exact palloc_eq_some hpalloc

/-- `alloc_pages(vpool, 1)` returns `NULL` without a free page or without a free frame. -/
theorem allocPages_one_none (h : allocPages 1 s = .ok (none, s')) :
    ¬ s.vpool.pool_bitmap.FreeRun 1 ∨ s.mem.freeFrames = 0 := by
  obtain ⟨vaddr, s1, hv, h⟩ := Prog.bind_eq_ok.1 h
  obtain ⟨idx, s2, hidx, hv⟩ := Prog.bind_eq_ok.1 hv
  obtain ⟨b, hb, rfl⟩ := Prog.zoom_eq_ok.1 hidx
  obtain ⟨s3, s4, hget, hv⟩ := Prog.bind_eq_ok.1 hv
  obtain ⟨rfl, rfl⟩ := Prog.get_eq_ok.1 hget
  obtain ⟨rfl, rfl⟩ := Prog.pure_eq_ok.1 hv
  obtain ⟨rfl, rfl, hnone⟩ | ⟨k, rfl, rfl, -, -⟩ := bitmapAlloc_cases hb Nat.one_pos
  · exact .inl hnone
  · obtain ⟨ok, s5, hrun, h⟩ := Prog.bind_eq_ok.1 h
    obtain ⟨mem, hmem, rfl⟩ := Prog.zoom_eq_ok.1 hrun
    obtain ⟨paddr, m1, hpalloc, hmem⟩ := Prog.bind_eq_ok.1 hmem
    cases paddr with
    | none => exact .inr (palloc_eq_none hpalloc)
    | some p =>
        obtain ⟨⟨⟩, m2, -, hmem⟩ := Prog.bind_eq_ok.1 hmem
        obtain ⟨rfl, rfl⟩ := Prog.pure_eq_ok.1 hmem
        obtain ⟨heq, -⟩ := Prog.pure_eq_ok.1 h
        cases heq

end OnePage

namespace Tables

open Kernel (MAX_FILES_OPEN MAX_FILES_OPEN_PER_PROC)

variable {P : Type} [DecidableEq P]

/-- The tables with the machine and `k_v_pool`. -/
structure Host (P : Type) where
  tables : Tables P
  kernel : Space

/-- Run a computation on the tables. -/
def onTables {α : Type} (m : Prog (Tables P) α) : Prog (Host P) α :=
  Prog.zoom Host.tables (fun tables s => { s with tables := tables }) m

/-- Run a computation on `k_v_pool`. -/
def onKernel {α : Type} (m : Prog Space α) : Prog (Host P) α :=
  Prog.zoom Host.kernel (fun kernel s => { s with kernel := kernel }) m

/-- `sys_pipe`: `pipefd` with the value 0, or `none` for -1. Index -1 is not in `file_table`. -/
def sysPipeIn (p : P) (buf : Nat → Byte) : Prog (Host P) (Option (Option Nat × Option Nat)) := do
  let s ← Prog.get
  let global_fd ← Prog.ofOption (getFreeSlotInGlobal s.tables)
  let fd_inode ← onKernel (allocPages 1)
  onTables (setFile global_fd { s.tables.file_table global_fd with fd_inode := fd_inode })
  match fd_inode with
  | none => pure none
  | some page => do
      onTables (Prog.modify fun t =>
        { t with pages := Function.update t.pages page (some (Ioqueue.ioqueueInit buf)) })
      onTables (setFile global_fd ⟨2, PIPE_FLAG, some page⟩)
      let fd0 ← onTables (pcbFdInstall p global_fd)
      let fd1 ← onTables (pcbFdInstall p global_fd)
      pure (some (fd0, fd1))

/-- What a call of `sys_pipe` should do: with 0 there are two new descriptors of a fresh slot with an empty
    queue and two references, and with -1 nothing has changed. -/
def Made (p : P) (s s' : Host P) : Option (Option Nat × Option Nat) → Prop
  | some (fd0, fd1) => ∃ a b g page ioq, fd0 = some a ∧ fd1 = some b ∧ a ≠ b ∧ a ∈ localFds ∧ b ∈ localFds ∧
      s.tables.fd_table p a = none ∧ s.tables.fd_table p b = none ∧
      s'.tables.fd_table p a = some g ∧ s'.tables.fd_table p b = some g ∧
      (s.tables.file_table g).fd_inode = none ∧ 3 ≤ g ∧ g < MAX_FILES_OPEN ∧
      s'.tables.file_table g = ⟨2, PIPE_FLAG, some page⟩ ∧
      s'.tables.pages page = some ioq ∧ ioq.ioqEmpty = true
  | none => s'.tables.file_table = s.tables.file_table ∧ s'.tables.fd_table = s.tables.fd_table ∧
      s.kernel.vpool.pool_bitmap.Same s'.kernel.vpool.pool_bitmap

/-- `sys_pipe` stays inside its tables and makes a pipe or changes nothing. -/
def AllOrNothing (p : P) (buf : Nat → Byte) (s : Host P) : Prop :=
  ∃ r s', sysPipeIn p buf s = .ok (r, s') ∧ Made p s s' r

/-- There is a slot, and either no page or a page with a frame for it and two descriptors. -/
def Room (p : P) (s : Host P) : Prop :=
  (∃ g, 3 ≤ g ∧ g < MAX_FILES_OPEN ∧ (s.tables.file_table g).fd_inode = none) ∧
    (¬ s.kernel.vpool.pool_bitmap.FreeRun 1 ∨ 0 < s.kernel.mem.freeFrames ∧ s.tables.TwoFree p)

section Pipe

variable {s s' : Host P} {p : P} {buf : Nat → Byte} {g : Nat} {page : Option Nat} {k' : Space}

omit [DecidableEq P] in
theorem getFreeSlotInGlobal_iff {s : Tables P} : (∃ g, getFreeSlotInGlobal s = some g) ↔
    ∃ g, 3 ≤ g ∧ g < MAX_FILES_OPEN ∧ (s.file_table g).fd_inode = none := by
  constructor
  · rintro ⟨g, hslot⟩
    have hmem := List.mem_range'_1.1 (List.mem_of_find?_eq_some hslot)
    exact ⟨g, hmem.1, by omega, (getFreeSlotInGlobal_eq_some hslot).2⟩
  · rintro ⟨g, h3, hlt, hfree⟩
    cases hslot : getFreeSlotInGlobal s with
    | some g => exact ⟨g, rfl⟩
    | none =>
        have hno := List.find?_eq_none.1 hslot g (List.mem_range'_1.2 ⟨h3, by omega⟩)
        rw [hfree] at hno
        exact absurd rfl hno

/-- Without a slot the call leaves `file_table`. -/
theorem not_allOrNothing_slot (hslot : getFreeSlotInGlobal s.tables = none) : ¬ AllOrNothing p buf s := by
  rintro ⟨r, s', hrun, -⟩
  unfold sysPipeIn at hrun
  rw [Prog.bind_of_ok (a := s) (t := s) rfl, hslot] at hrun
  cases hrun

/-- A free slot that gets `NULL` stays as it is. -/
theorem run_sysPipeIn_none (hslot : getFreeSlotInGlobal s.tables = some g)
    (h : allocPages 1 s.kernel = .ok (none, k')) :
    sysPipeIn p buf s = .ok (none, { s with kernel := k' }) := by
  have halloc : onKernel (allocPages 1) s = .ok (none, { s with kernel := k' }) :=
    Prog.zoom_eq_ok.2 ⟨_, h, rfl⟩
  unfold sysPipeIn
  rw [Prog.bind_of_ok (a := s) (t := s) rfl, hslot, Prog.bind_of_ok (a := g) (t := s) rfl,
    Prog.bind_of_ok halloc]
  have hsame : { s.tables.file_table g with fd_inode := none } = s.tables.file_table g := by
    rw [← (getFreeSlotInGlobal_eq_some hslot).2]
  rw [hsame]
  have hset : onTables (setFile g (s.tables.file_table g)) { s with kernel := k' } =
      .ok ((), { s with kernel := k' }) := by
    refine Prog.zoom_eq_ok.2 ⟨s.tables, ?_, rfl⟩
    refine Prog.modify_eq_ok.2 ?_
    rw [Function.update_eq_self]
  rw [Prog.bind_of_ok hset]
  rfl

/-- The tables once the slot has the page. -/
def withPage (s : Tables P) (g page : Nat) (buf : Nat → Byte) : Tables P :=
  { s with
    file_table := Function.update s.file_table g ⟨2, PIPE_FLAG, some page⟩
    pages := Function.update s.pages page (some (Ioqueue.ioqueueInit buf)) }

/-- With a slot and a page, the call returns 0 whatever `pcb_fd_install` returns. -/
theorem run_sysPipeIn_some {v : Nat} (hslot : getFreeSlotInGlobal s.tables = some g)
    (h : allocPages 1 s.kernel = .ok (some v, k')) {fd0 fd1 : Option Nat} {t t' : Tables P}
    (h0 : pcbFdInstall p g (s.tables.withPage g v buf) = .ok (fd0, t))
    (h1 : pcbFdInstall p g t = .ok (fd1, t')) :
    sysPipeIn p buf s = .ok (some (fd0, fd1), ⟨t', k'⟩) := by
  have halloc : onKernel (allocPages 1) s = .ok (some v, { s with kernel := k' }) :=
    Prog.zoom_eq_ok.2 ⟨_, h, rfl⟩
  have h0' : onTables (pcbFdInstall p g) ⟨s.tables.withPage g v buf, k'⟩ = .ok (fd0, ⟨t, k'⟩) :=
    Prog.zoom_eq_ok.2 ⟨_, h0, rfl⟩
  have h1' : onTables (pcbFdInstall p g) ⟨t, k'⟩ = .ok (fd1, ⟨t', k'⟩) := Prog.zoom_eq_ok.2 ⟨_, h1, rfl⟩
  have hset : onTables (setFile g ⟨2, PIPE_FLAG, some v⟩) ⟨{ s.tables with
      file_table := Function.update s.tables.file_table g { s.tables.file_table g with fd_inode := some v }
      pages := Function.update s.tables.pages v (some (Ioqueue.ioqueueInit buf)) }, k'⟩ =
      .ok ((), ⟨s.tables.withPage g v buf, k'⟩) := by
    refine Prog.zoom_eq_ok.2 ⟨s.tables.withPage g v buf, Prog.modify_eq_ok.2 ?_, rfl⟩
    unfold withPage
    rw [Function.update_idem]
  unfold sysPipeIn
  rw [Prog.bind_of_ok (a := s) (t := s) rfl, hslot, Prog.bind_of_ok (a := g) (t := s) rfl,
    Prog.bind_of_ok halloc, Prog.bind_of_ok (a := ()) rfl]
  dsimp only
  rw [Prog.bind_of_ok (a := ()) rfl, Prog.bind_of_ok hset, Prog.bind_of_ok h0', Prog.bind_of_ok h1']
  rfl

theorem pcbFdInstall_total (s : Tables P) (p : P) (g : Nat) : ∃ fd t, pcbFdInstall p g s = .ok (fd, t) := by
  unfold pcbFdInstall
  rw [Prog.bind_of_ok (a := s) (t := s) rfl]
  cases (List.range' 3 (MAX_FILES_OPEN_PER_PROC - 3)).find? fun fd => (s.fd_table p fd).isNone with
  | none => exact ⟨none, s, rfl⟩
  | some fd => exact ⟨some fd, _, rfl⟩

/-- `pcb_fd_install` does not ask for the next page. -/
theorem pcbFdInstall_next_page {s t : Tables P} {fd : Option Nat} (h : pcbFdInstall p g s = .ok (fd, t))
    (n : Nat) : pcbFdInstall p g { s with next_page := n } = .ok (fd, { t with next_page := n }) := by
  unfold pcbFdInstall at h ⊢
  rw [Prog.bind_of_ok (a := s) (t := s) rfl] at h
  rw [Prog.bind_of_ok (a := { s with next_page := n }) (t := { s with next_page := n }) rfl]
  dsimp only at h ⊢
  cases hfind : (List.range' 3 (MAX_FILES_OPEN_PER_PROC - 3)).find? fun fd => (s.fd_table p fd).isNone with
  | none =>
      rw [hfind] at h
      cases h
      rfl
  | some fd' =>
      rw [hfind] at h
      cases h
      rfl

/-- A call that gets the page which `sysPipe` supposes there does what `sysPipe` does. -/
theorem sysPipe_of_page (hslot : getFreeSlotInGlobal s.tables = some g)
    (h : allocPages 1 s.kernel = .ok (some s.tables.next_page, k')) :
    ∃ fds t, sysPipeIn p buf s = .ok (some fds, ⟨t, k'⟩) ∧
      sysPipe p buf s.tables = .ok (fds, { t with next_page := s.tables.next_page + 1 }) := by
  obtain ⟨fd0, t, h0⟩ := pcbFdInstall_total (s.tables.withPage g s.tables.next_page buf) p g
  obtain ⟨fd1, t', h1⟩ := pcbFdInstall_total t p g
  refine ⟨(fd0, fd1), t', run_sysPipeIn_some hslot h h0 h1, ?_⟩
  unfold sysPipe
  rw [Prog.bind_of_ok (a := s.tables) (t := s.tables) rfl, hslot, Prog.bind_of_ok (a := g) (t := s.tables) rfl,
    Prog.bind_of_ok (a := ()) rfl, Prog.bind_of_ok (a := ()) (t := s.tables.withPipe g buf) rfl]
  have h0' : pcbFdInstall p g (s.tables.withPipe g buf) =
      .ok (fd0, { t with next_page := s.tables.next_page + 1 }) :=
    pcbFdInstall_next_page h0 (s.tables.next_page + 1)
  have h1' := pcbFdInstall_next_page h1 (s.tables.next_page + 1)
  rw [Prog.bind_of_ok h0', Prog.bind_of_ok h1']
  rfl

omit [DecidableEq P] in
/-- Descriptors that are free in the table before are two free ones. -/
theorem Made.twoFree {fds : Option Nat × Option Nat} (h : Made p s s' (some fds)) : s.tables.TwoFree p := by
  obtain ⟨a, b, g, page, ioq, -, -, hne, ha, hb, hfa, hfb, -⟩ := h
  have ha' := mem_localFds.1 ha
  have hb' := mem_localFds.1 hb
  obtain hlt | hgt := Nat.lt_or_gt_of_ne hne
  · exact ⟨a, b, ha'.1, hlt, hb'.2, hfa, hfb⟩
  · exact ⟨b, a, hb'.1, hgt, ha'.2, hfb, hfa⟩

/-- With a slot, a page and two descriptors there is a pipe. -/
theorem made_pipe {v : Nat} (hslot : getFreeSlotInGlobal s.tables = some g)
    (h : allocPages 1 s.kernel = .ok (some v, k')) (hfds : s.tables.TwoFree p) : AllOrNothing p buf s := by
  have hfds' : (s.tables.withPage g v buf).TwoFree p := hfds
  obtain ⟨fd, hmem, fd', hmem', hne, hfree, hfree', t, hinstall, hinstall'⟩ := pcbFdInstall_twice hfds' g
  obtain ⟨h3, hnone⟩ := getFreeSlotInGlobal_eq_some hslot
  have hlt := List.mem_range'_1.1 (List.mem_of_find?_eq_some hslot)
  refine ⟨_, _, run_sysPipeIn_some hslot h hinstall hinstall', fd, fd', g, v, Ioqueue.ioqueueInit buf, rfl, rfl,
    hne.symm, hmem, hmem', hfree, hfree', ?_, ?_, hnone, h3, by omega, ?_, ?_, rfl⟩
  · dsimp only
    rw [withFds_self, Function.update_of_ne hne.symm, Function.update_self]
  · dsimp only
    rw [withFds_self, Function.update_self]
  · exact Function.update_self ..
  · exact Function.update_self ..

/-- `sys_pipe` is all or nothing exactly when there is room, or no free page in `k_v_pool` either. -/
theorem allOrNothing_iff (h : allocPages 1 s.kernel = .ok (page, k')) :
    AllOrNothing p buf s ↔ Room p s := by
  cases hslot : getFreeSlotInGlobal s.tables with
  | none =>
      refine ⟨fun hall => absurd hall (not_allOrNothing_slot hslot), fun hroom => ?_⟩
      obtain ⟨g, hg⟩ := getFreeSlotInGlobal_iff.2 hroom.1
      rw [hslot] at hg
      cases hg
  | some g =>
      have hfree := getFreeSlotInGlobal_iff.1 ⟨g, hslot⟩
      cases page with
      | none =>
          have hrun : sysPipeIn p buf s = .ok (none, { s with kernel := k' }) := run_sysPipeIn_none hslot h
          obtain ⟨hnone, rfl⟩ | ⟨k, hin, hset⟩ := Space.allocPages_none h Nat.one_pos
          · exact ⟨fun _ => ⟨hfree, .inl hnone⟩, fun _ => ⟨_, _, hrun, rfl, rfl, .refl _⟩⟩
          · -- the bit of the page is set, though there is no frame for it
            have hpool : s.kernel.vpool.pool_bitmap.FreeRun 1 := ⟨k, hin, fun j hj => (hset j hj).1⟩
            have hframe := (allocPages_one_none h).resolve_left (not_not_intro hpool)
            constructor
            · rintro ⟨r, s', hrun', hmade⟩
              rw [hrun] at hrun'
              cases hrun'
              have hbits := hmade.2.2.bits (k + 0) (by omega)
              rw [(hset 0 Nat.one_pos).1, (hset 0 Nat.one_pos).2] at hbits
              cases hbits
            · rintro ⟨-, hnone | ⟨hpos, -⟩⟩
              · exact absurd hpool hnone
              · omega
      | some v =>
          obtain ⟨hpool, hframe⟩ := allocPages_one_some h
          constructor
          · rintro ⟨r, s', hrun, hmade⟩
            obtain ⟨fd0, t, h0⟩ := pcbFdInstall_total (s.tables.withPage g v buf) p g
            obtain ⟨fd1, t', h1⟩ := pcbFdInstall_total t p g
            rw [run_sysPipeIn_some hslot h h0 h1] at hrun
            cases hrun
            exact ⟨hfree, .inr ⟨hframe, hmade.twoFree⟩⟩
          · rintro ⟨-, hnone | ⟨-, hfds⟩⟩
            · exact absurd hpool hnone
            · exact made_pipe hslot h hfds

/-! ## The first process -/

/-- One process, with `k_v_pool` as `mem_init` leaves it. -/
def firstHost : Host Unit := ⟨started (FS.boot Buf.zero), Space.kernelPool⟩

theorem allOrNothing_firstHost : AllOrNothing () (fun _ => 0) firstHost ↔ Room () firstHost := by
  have halloc : ∃ k', allocPages 1 firstHost.kernel = .ok (some 0xffff800000100000, k') := ⟨_, rfl⟩
  obtain ⟨k', h⟩ := halloc
  exact allOrNothing_iff h

/-- The same process with all its descriptors in use: the call returns 0 and stores -1 in `pipefd`. -/
def fullHost : Host Unit :=
  { firstHost with tables := { firstHost.tables with fd_table := fun _ _ => some 3 } }

theorem not_allOrNothing_fullHost : (∃ s', sysPipeIn () (fun _ => 0) fullHost = .ok (some (none, none), s')) ∧
    ¬ AllOrNothing () (fun _ => 0) fullHost := by
  have halloc : ∃ k', allocPages 1 fullHost.kernel = .ok (some 0xffff800000100000, k') := ⟨_, rfl⟩
  obtain ⟨k', h⟩ := halloc
  have hrun : sysPipeIn () (fun _ => 0) fullHost =
      .ok (some (none, none), ⟨fullHost.tables.withPage 3 0xffff800000100000 fun _ => 0, k'⟩) :=
    run_sysPipeIn_some rfl h rfl rfl
  refine ⟨⟨_, hrun⟩, ?_⟩
  rintro ⟨r, s', hrun', hmade⟩
  rw [hrun] at hrun'
  cases hrun'
  obtain ⟨fd, fd', -, -, -, hfd, -⟩ := hmade.twoFree
  cases hfd

end Pipe

end Tables

end RecoverOS
