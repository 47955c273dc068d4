import RecoverOS.Base.Run
import RecoverOS.Fs.PathCalls
import RecoverOS.Pipe.Calls

set_option autoImplicit false

/-! # Pipes and files (`pipe/pipe.c`, `fs/file.c`)

A slot of `file_table` is a pipe if its flag is `PIPE_FLAG`, and the flag of a file is what the process
passed to `sys_open`. What a slot was last filled with is kept beside the tables. -/

namespace RecoverOS

namespace Tables

open Kernel (MAX_FILES_OPEN O_CREAT)

variable {P : Type} [DecidableEq P]

/-! ## Opening -/

/-- A call of the layers below. -/
def openFs {α : Type} (m : Prog FS α) : Prog (Tables P) α :=
  Prog.zoom Tables.fs (fun fs s => { s with fs := fs }) m

/-- `file_create`; every process has its working directory. -/
def fileCreate (p : P) (cwd_i_no : Nat) (pathname : List Byte) (flag : Nat) :
    Prog (Tables P) (Option Nat) := do
  let s ← Prog.get
  match getFreeSlotInGlobal s with
  | none => pure none
  | some fd_idx => do
      let created ← openFs (createFileOrDirectory cwd_i_no pathname FT_REGULAR)
      match created with
      | none => pure none
      | some inode => do
          setFile fd_idx ⟨0, flag, some inode⟩
          pcbFdInstall p fd_idx

/-- `file_open`. -/
def fileOpen (p : P) (cwd_i_no : Nat) (pathname : List Byte) (flag : Nat) :
    Prog (Tables P) (Option Nat) := do
  let found ← openFs (searchFile cwd_i_no pathname false)
  match found with
  | none => pure none
  | some inode => do
      let s ← Prog.get
      match getFreeSlotInGlobal s with
      | none => pure none
      | some fd_idx => do
          setFile fd_idx ⟨0, flag, some inode⟩
          pcbFdInstall p fd_idx

/-- `sys_open`. -/
def sysOpen (p : P) (cwd_i_no : Nat) (pathname : List Byte) (flag : Nat) : Prog (Tables P) (Option Nat) :=
  if flag &&& O_CREAT = O_CREAT then fileCreate p cwd_i_no pathname flag
  else fileOpen p cwd_i_no pathname flag

/-! ## Runs -/

/-- What a slot was filled with: the page of a pipe, or an inode. -/
inductive Filling where
  | pipe (page : Nat)
  | file (inode : Nat)

/-- The tables, with what every slot was last filled with. -/
structure Filled (P : Type) where
  tables : Tables P
  last : Nat → Option Filling

/-- A call that fills slots or empties them. `sys_pipe` may get no page. -/
inductive SlotCall (P : Type) where
  | open (p : P) (cwd_i_no : Nat) (pathname : List Byte) (flag : Nat)
  | pipe (p : P) (buf : Nat → Byte)
  | pipeNoPage (p : P)
  | close (p : P) (fd : Int)
  | fork (p child : P)

namespace SlotCall

/-- What the call does; the value it returns is dropped. Without a page `sys_pipe` stores `NULL` in the slot,
    which was free. -/
def run : SlotCall P → Prog (Tables P) Unit
  | .open p cwd_i_no pathname flag => do let _ ← sysOpen p cwd_i_no pathname flag; pure ()
  | pipe p buf => do let _ ← sysPipe p buf; pure ()
  | pipeNoPage _ => do
      let s ← Prog.get
      let global_fd ← Prog.ofOption (getFreeSlotInGlobal s)
      setFile global_fd { s.file_table global_fd with fd_inode := none }
  | close p fd => do let _ ← sysClose p fd; pure ()
  | fork p child => sysFork p child

/-- What the call fills slots with, if it does. -/
def filling : SlotCall P → Nat → Filling
  | pipe _ _, page => .pipe page
  | _, inode => .file inode

/-- One call. A slot was filled if it was free and is not. -/
def Step (h : Filled P) (c : SlotCall P) (h' : Filled P) : Prop :=
  c.run h.tables = .ok ((), h'.tables) ∧ ∀ g, h'.last g =
    match (h.tables.file_table g).fd_inode, (h'.tables.file_table g).fd_inode with
    | none, some x => some (c.filling x)
    | _, _ => h.last g

/-- The flag that is passed to `sys_open` is not `PIPE_FLAG`. -/
def Distinct : SlotCall P → Prop
  | .open _ _ _ flag => flag ≠ PIPE_FLAG
  | _ => True

/-- One call that does not pass `PIPE_FLAG`. -/
def DistinctStep (h : Filled P) (c : SlotCall P) (h' : Filled P) : Prop := c.Distinct ∧ c.Step h h'

end SlotCall

/-- The slot was last filled by `sys_pipe`. -/
def Filled.ByPipe (h : Filled P) (g : Nat) : Prop := ∃ page, h.last g = some (.pipe page)

/-- No slot was filled. -/
structure Empty (h : Filled P) : Prop where
  file_table : ∀ g, h.tables.file_table g = ⟨0, 0, none⟩
  last : ∀ g, h.last g = none

/-- Every descriptor is told apart as what its slot was filled with, and leads to what was stored then, or
    to nothing. -/
def ToldApart (h : Filled P) : Prop :=
  ∀ p fd g, h.tables.Slot p fd g → ∃ b, isPipe p fd h.tables = .ok (b, h.tables) ∧ (b = true ↔ h.ByPipe g) ∧
    ∀ x, (h.tables.file_table g).fd_inode = some x → h.last g = some (if b then .pipe x else .file x)

/-! ## What the calls do to slots -/

/-- The slots keep their flags, and are as they were or empty. -/
def Emptied (s t : Tables P) : Prop :=
  ∀ g, (t.file_table g).flag = (s.file_table g).flag ∧
    ((t.file_table g).fd_inode = (s.file_table g).fd_inode ∨ (t.file_table g).fd_inode = none)

omit [DecidableEq P] in
theorem Emptied.of_eq {s t : Tables P} (h : t.file_table = s.file_table) : Emptied s t := by
  intro g
  rw [h]
  exact ⟨rfl, .inl rfl⟩

instance : IsPreorder (Tables P) Emptied where
  refl _ := .of_eq rfl
  trans s t u h h' g := by
    obtain ⟨hflag, hino⟩ := h g
    obtain ⟨hflag', hino'⟩ := h' g
    refine ⟨hflag'.trans hflag, ?_⟩
    obtain hino' | hino' := hino'
    · rw [hino']
      exact hino
    · exact .inr hino'

section Effects

variable {s t : Tables P} {p : P} {g : Nat}

omit [DecidableEq P] in
theorem Emptied.setFile {f : File} (hflag : f.flag = (s.file_table g).flag)
    (hino : f.fd_inode = (s.file_table g).fd_inode ∨ f.fd_inode = none) :
    Emptied s { s with file_table := Function.update s.file_table g f } := by
  intro g'
  by_cases hg : g' = g
  · subst hg
    have hself : Function.update s.file_table g' f g' = f := Function.update_self ..
    exact ⟨(congrArg File.flag hself).trans hflag,
      hino.imp (congrArg File.fd_inode hself).trans (congrArg File.fd_inode hself).trans⟩
  · have hother : Function.update s.file_table g f g' = s.file_table g' := Function.update_of_ne hg ..
    exact ⟨congrArg File.flag hother, .inl (congrArg File.fd_inode hother)⟩

theorem setFd_emptied (p : P) (fd : Nat) (v : Option Nat) : (setFd p fd v).Extends Emptied :=
  .modify fun _ => .of_eq rfl

theorem pcbFdInstall_file_table {r : Option Nat} (h : pcbFdInstall p g s = .ok (r, t)) :
    t.file_table = s.file_table := by
  obtain ⟨s1, s2, hget, h1⟩ := Prog.bind_eq_ok.1 h
  obtain ⟨rfl, rfl⟩ := Prog.get_eq_ok.1 hget
  cases hfind : (List.range' 3 (Kernel.MAX_FILES_OPEN_PER_PROC - 3)).find? fun fd => (s.fd_table p fd).isNone with
  | none =>
      rw [hfind] at h1
      cases h1
      rfl
  | some fd =>
      rw [hfind] at h1
      obtain ⟨⟨⟩, s3, hset, h2⟩ := Prog.bind_eq_ok.1 h1
      cases h2
      rw [Prog.modify_eq_ok.1 hset]

omit [DecidableEq P] in
theorem releasePipe_emptied (g : Nat) : (releasePipe g : Prog (Tables P) Bool).Extends Emptied := by
  intro s r t h
  obtain ⟨s1, _, hget, h1⟩ := Prog.bind_eq_ok.1 h
  obtain ⟨rfl, rfl⟩ := Prog.get_eq_ok.1 hget
  obtain ⟨⟨⟩, s2, hset, h2⟩ := Prog.bind_eq_ok.1 h1
  have hs2 := Prog.modify_eq_ok.1 hset
  have hfirst : Emptied s s2 := hs2 ▸ Emptied.setFile rfl (.inl rfl)
  split at h2
  · obtain ⟨page, s3, hpage, h3⟩ := Prog.bind_eq_ok.1 h2
    obtain ⟨-, rfl⟩ := Prog.ofOption_eq_ok.1 hpage
    obtain ⟨⟨⟩, s4, hfree, h4⟩ := Prog.bind_eq_ok.1 h3
    obtain ⟨⟨⟩, s5, hset', h5⟩ := Prog.bind_eq_ok.1 h4
    cases h5
    have hs4 : Emptied s2 s4 := Prog.modify_eq_ok.1 hfree ▸ .of_eq rfl
    have hflag : (s4.file_table g).flag = (s.file_table g).flag :=
      (hs4 g).1.trans (hfirst g).1
    have hlast : Emptied s4 t := Prog.modify_eq_ok.1 hset' ▸ Emptied.setFile hflag.symm (.inr rfl)
    exact trans_of Emptied (trans_of Emptied hfirst hs4) hlast
  · cases h2
    exact hfirst

omit [DecidableEq P] in
theorem onFs_emptied {α : Type} (m : Prog FS α) : (onFs m : Prog (Tables P) (Outcome α)).Extends Emptied := by
  intro s r t h
  unfold onFs at h
  split at h <;> cases h <;> exact .of_eq rfl

omit [DecidableEq P] in
theorem fdInode_emptied (g : Nat) : (fdInode g : Prog (Tables P) Nat).Extends Emptied :=
  .bind .get fun _ => .bind (.ofOption _) fun _ => .bind .require fun _ => .pure _

omit [DecidableEq P] in
theorem fileClose_emptied (g : Nat) : (fileClose g : Prog (Tables P) Unit).Extends Emptied :=
  .bind (fdInode_emptied g) fun _ => .bind (onFs_emptied _) fun _ =>
    .modify fun _ => .setFile rfl (.inr rfl)

omit [DecidableEq P] in
theorem fdLocal2Global_emptied (p : P) (fd : Nat) : (fdLocal2Global p fd).Extends Emptied := by
  refine .bind .require fun _ => .bind .get fun s => ?_
  split
  · exact .fault _
  · exact .bind .assert fun _ => .pure _

omit [DecidableEq P] in
theorem isPipe_emptied (p : P) (fd : Nat) : (isPipe p fd).Extends Emptied :=
  .bind (fdLocal2Global_emptied p fd) fun _ => .bind .get fun _ => .pure _

theorem sysClose_emptied (p : P) (fd : Int) : (sysClose p fd).Extends Emptied := by
  refine .bind .assert fun _ => .bind (fdLocal2Global_emptied p _) fun g => .bind (isPipe_emptied p _) fun b => ?_
  exact .ite (.bind (releasePipe_emptied g) fun _ => .bind (setFd_emptied _ _ _) fun _ => .pure _)
    (.bind (fileClose_emptied g) fun _ => .bind (setFd_emptied _ _ _) fun _ => .pure _)

omit [DecidableEq P] in
theorem updateInodeOpenCnts_emptied (p : P) (fds : List Nat) : (updateInodeOpenCnts p fds).Extends Emptied := by
  induction fds with
  | nil => exact .pure _
  | cons fd fds ih =>
      intro s r t h
      obtain ⟨s1, _, hget, h1⟩ := Prog.bind_eq_ok.1 h
      obtain ⟨rfl, rfl⟩ := Prog.get_eq_ok.1 hget
      cases hentry : s.fd_table p fd with
      | none =>
        rw [hentry] at h1
        exact ih _ _ _ h1
      | some g =>
        rw [hentry] at h1
        obtain ⟨⟨⟩, s2, hassert, h2⟩ := Prog.bind_eq_ok.1 h1
        obtain ⟨-, rfl⟩ := Prog.assert_eq_ok.1 hassert
        obtain ⟨b, s3, hpipe, h3⟩ := Prog.bind_eq_ok.1 h2
        obtain ⟨g', -, -, rfl⟩ := isPipe_eq_ok.1 hpipe
        split at h3
        · obtain ⟨⟨⟩, s4, hset, h4⟩ := Prog.bind_eq_ok.1 h3
          have hs4 : Emptied s3 s4 := Prog.modify_eq_ok.1 hset ▸ Emptied.setFile rfl (.inl rfl)
          exact trans_of Emptied hs4 (ih _ _ _ h4)
        · have hrest : (do
              let inode ← fdInode g
              let _ ← onFs (do
                let i ← inodeAt inode
                setInode inode { i with i_open_cnts := i.i_open_cnts + 1 })
              updateInodeOpenCnts p fds : Prog (Tables P) Unit).Extends Emptied :=
            .bind (fdInode_emptied g) fun _ => .bind (onFs_emptied _) fun _ => ih
          exact hrest _ _ _ h3

theorem sysFork_emptied (p child : P) : (sysFork p child).Extends Emptied :=
  .bind (.modify fun _ => .of_eq rfl) fun _ => updateInodeOpenCnts_emptied _ _

/-- A slot that was free was filled, with this flag. -/
def Fills (s t : Tables P) (flag : Nat) : Prop :=
  ∃ g f, (s.file_table g).fd_inode = none ∧ f.flag = flag ∧ f.fd_inode ≠ none ∧
    t.file_table = Function.update s.file_table g f

omit [DecidableEq P] in
theorem free_of_getFreeSlot (h : getFreeSlotInGlobal s = some g) : (s.file_table g).fd_inode = none := by
  have hfree := List.find?_some h
  exact Option.isNone_iff_eq_none.1 hfree

omit [DecidableEq P] in
theorem openFs_file_table {α : Type} {m : Prog FS α} {a : α} (h : openFs m s = .ok (a, t)) :
    t.file_table = s.file_table := by
  obtain ⟨fs, -, rfl⟩ := Prog.zoom_eq_ok.1 h
  rfl

theorem fill_install {f : File} {r : Option Nat} (hfree : (s.file_table g).fd_inode = none)
    (hf : f.fd_inode ≠ none) (hrun : (do setFile g f; pcbFdInstall p g : Prog (Tables P) _) s = .ok (r, t)) :
    Fills s t f.flag := by
  obtain ⟨⟨⟩, s1, hset, h1⟩ := Prog.bind_eq_ok.1 hrun
  rw [Prog.modify_eq_ok.1 hset] at h1
  exact ⟨g, f, hfree, rfl, hf, pcbFdInstall_file_table h1⟩

/-- `sys_open` fills one slot with the flag it was given, or none. -/
theorem sysOpen_cases {cwd flag : Nat} {pathname : List Byte} {r : Option Nat}
    (h : sysOpen p cwd pathname flag s = .ok (r, t)) : Emptied s t ∨ Fills s t flag := by
  unfold sysOpen at h
  split at h
  · obtain ⟨s1, _, hget, h1⟩ := Prog.bind_eq_ok.1 h
    obtain ⟨rfl, rfl⟩ := Prog.get_eq_ok.1 hget
    cases hslot : getFreeSlotInGlobal s with
    | none =>
        rw [hslot] at h1
        cases h1
        exact .inl (refl_of Emptied s)
    | some g =>
        rw [hslot] at h1
        obtain ⟨created, s2, hcreate, h2⟩ := Prog.bind_eq_ok.1 h1
        have htable := openFs_file_table hcreate
        cases created with
        | none =>
            cases h2
            exact .inl (.of_eq htable)
        | some inode =>
            obtain ⟨g', f, hfree, hflag, hf, hupdate⟩ :=
              fill_install (by rw [htable]; exact free_of_getFreeSlot hslot) (Option.some_ne_none inode) h2
            exact .inr ⟨g', f, htable ▸ hfree, hflag, hf, htable ▸ hupdate⟩
  · obtain ⟨found, s1, hsearch, h1⟩ := Prog.bind_eq_ok.1 h
    have htable := openFs_file_table hsearch
    cases found with
    | none =>
        cases h1
        exact .inl (.of_eq htable)
    | some inode =>
        obtain ⟨s2, _, hget, h2⟩ := Prog.bind_eq_ok.1 h1
        obtain ⟨rfl, rfl⟩ := Prog.get_eq_ok.1 hget
        cases hslot : getFreeSlotInGlobal s1 with
        | none =>
            rw [hslot] at h2
            cases h2
            exact .inl (.of_eq htable)
        | some g =>
            rw [hslot] at h2
            obtain ⟨g', f, hfree, hflag, hf, hupdate⟩ :=
              fill_install (free_of_getFreeSlot hslot) (Option.some_ne_none inode) h2
            exact .inr ⟨g', f, htable ▸ hfree, hflag, hf, htable ▸ hupdate⟩

theorem sysPipe_fills {buf : Nat → Byte} {r : Option Nat × Option Nat} (h : sysPipe p buf s = .ok (r, t)) :
    Fills s t PIPE_FLAG := by
  obtain ⟨s1, _, hget, h1⟩ := Prog.bind_eq_ok.1 h
  obtain ⟨rfl, rfl⟩ := Prog.get_eq_ok.1 hget
  obtain ⟨g, s2, hfind, h2⟩ := Prog.bind_eq_ok.1 h1
  obtain ⟨hslot, rfl⟩ := Prog.ofOption_eq_ok.1 hfind
  obtain ⟨⟨⟩, s3, hpage, h3⟩ := Prog.bind_eq_ok.1 h2
  obtain ⟨⟨⟩, s4, hset, h4⟩ := Prog.bind_eq_ok.1 h3
  obtain ⟨fd0, s5, hfd0, h5⟩ := Prog.bind_eq_ok.1 h4
  obtain ⟨fd1, s6, hfd1, h6⟩ := Prog.bind_eq_ok.1 h5
  cases h6
  refine ⟨g, ⟨2, PIPE_FLAG, some s.next_page⟩, free_of_getFreeSlot hslot, rfl, Option.some_ne_none _, ?_⟩
  rw [pcbFdInstall_file_table hfd1, pcbFdInstall_file_table hfd0, Prog.modify_eq_ok.1 hset,
    Prog.modify_eq_ok.1 hpage]

end Effects

/-! ## The invariant -/

/-- The flag of a slot is `PIPE_FLAG` just when it was last filled by `sys_pipe`, and it holds what was stored
    then, or nothing. -/
def Consistent (h : Filled P) : Prop :=
  ∀ g, ((h.tables.file_table g).flag = PIPE_FLAG ↔ h.ByPipe g) ∧
    ∀ x, (h.tables.file_table g).fd_inode = some x →
      h.last g = some (if (h.tables.file_table g).flag = PIPE_FLAG then .pipe x else .file x)

section Invariant

variable {h h' : Filled P} {c : SlotCall P}

omit [DecidableEq P] in
theorem Filled.byPipe_congr {g : Nat} (hlast : h'.last g = h.last g) : h'.ByPipe g ↔ h.ByPipe g := by
  unfold Filled.ByPipe
  rw [hlast]

theorem Consistent.emptied (hc : Consistent h) (hstep : c.Step h h') (he : Emptied h.tables h'.tables) :
    Consistent h' := by
  intro g
  obtain ⟨hflag, hino⟩ := he g
  have hlast : h'.last g = h.last g := by
    rw [hstep.2 g]
    obtain hino | hino := hino
    · rw [hino]
      cases (h.tables.file_table g).fd_inode <;> rfl
    · rw [hino]
      cases (h.tables.file_table g).fd_inode <;> rfl
  obtain ⟨hby, hx⟩ := hc g
  refine ⟨by rw [hflag, hby, Filled.byPipe_congr hlast], fun x hsome => ?_⟩
  rw [hlast, hflag]
  obtain hino | hino := hino
  · exact hx x (hino ▸ hsome)
  · rw [hino] at hsome
    cases hsome

theorem Consistent.fills {flag : Nat} (hc : Consistent h) (hstep : c.Step h h')
    (hf : Fills h.tables h'.tables flag)
    (hkind : ∀ x, c.filling x = if flag = PIPE_FLAG then .pipe x else .file x) : Consistent h' := by
  obtain ⟨g, f, hfree, rfl, hsome, hupdate⟩ := hf
  obtain ⟨x, hx⟩ := Option.ne_none_iff_exists'.1 hsome
  intro g'
  have hlast := hstep.2 g'
  by_cases hg : g' = g
  · subst hg
    have hslot : h'.tables.file_table g' = f := by rw [hupdate, Function.update_self]
    rw [hslot, hfree, hx] at hlast
    have hlast' : h'.last g' = some (if f.flag = PIPE_FLAG then .pipe x else .file x) :=
      hlast.trans (congrArg some (hkind x))
    rw [hslot]
    refine ⟨⟨fun hpipe => ⟨x, by rw [hlast', if_pos hpipe]⟩, fun ⟨page, hpage⟩ => ?_⟩, fun y hy => ?_⟩
    · by_contra hfile
      rw [hlast', if_neg hfile] at hpage
      cases hpage
    · rw [hx] at hy
      cases hy
      exact hlast'
  · have hslot : h'.tables.file_table g' = h.tables.file_table g' := by rw [hupdate, Function.update_of_ne hg]
    rw [hslot] at hlast ⊢
    have hsame : h'.last g' = h.last g' := by
      rw [hlast]
      cases (h.tables.file_table g').fd_inode <;> rfl
    rw [hsame, Filled.byPipe_congr hsame]
    exact hc g'

theorem Consistent.step (hc : Consistent h) (hstep : c.DistinctStep h h') : Consistent h' := by
  obtain ⟨hdistinct, hstep⟩ := hstep
  obtain ⟨hrun, -⟩ := id hstep
  cases c with
  | «open» p cwd pathname flag =>
      obtain ⟨r, hcall⟩ := drop_eq_ok hrun
      obtain he | hf := sysOpen_cases hcall
      · exact hc.emptied hstep he
      · exact hc.fills hstep hf fun x => (if_neg hdistinct).symm
  | pipe p buf =>
      obtain ⟨r, hcall⟩ := drop_eq_ok hrun
      exact hc.fills hstep (sysPipe_fills hcall) fun x => (if_pos rfl).symm
  | pipeNoPage p =>
      refine hc.emptied hstep ?_
      obtain ⟨s1, _, hget, h1⟩ := Prog.bind_eq_ok.1 hrun
      obtain ⟨rfl, rfl⟩ := Prog.get_eq_ok.1 hget
      obtain ⟨g, s2, hslot, h2⟩ := Prog.bind_eq_ok.1 h1
      obtain ⟨-, rfl⟩ := Prog.ofOption_eq_ok.1 hslot
      rw [Prog.modify_eq_ok.1 h2]
      exact .setFile rfl (.inr rfl)
  | close p fd =>
      obtain ⟨r, hcall⟩ := drop_eq_ok hrun
      exact hc.emptied hstep (sysClose_emptied p fd _ _ _ hcall)
  | fork p child => exact hc.emptied hstep (sysFork_emptied p child _ _ _ hrun)

omit [DecidableEq P] in
theorem Empty.consistent (he : Empty h) : Consistent h := by
  intro g
  rw [he.file_table g]
  refine ⟨⟨nofun, fun ⟨page, hpage⟩ => ?_⟩, nofun⟩
  rw [he.last g] at hpage
  cases hpage

omit [DecidableEq P] in
theorem Consistent.toldApart (hc : Consistent h) : ToldApart h := by
  intro p fd g hslot
  obtain ⟨hby, hx⟩ := hc g
  refine ⟨_, hslot.isPipe, by rw [beq_iff_eq, hby], fun x hsome => ?_⟩
  rw [hx x hsome]
  by_cases hpipe : (h.tables.file_table g).flag = PIPE_FLAG
  · rw [if_pos hpipe, if_pos (beq_iff_eq.2 hpipe)]
  · rw [if_neg hpipe, if_neg fun heq => hpipe (beq_iff_eq.1 heq)]

/-- As long as nobody passes `PIPE_FLAG` to `sys_open`, every descriptor is told apart as what it is. -/
theorem told_apart {cs : List (SlotCall P)} (he : Empty h) (hrun : Run SlotCall.DistinctStep h cs h') :
    ToldApart h' :=
  (hrun.invariant (fun _ _ _ hI hstep => hI.step hstep) he.consistent).toldApart

/-- The tables of a new process, no slot of which was filled. -/
def emptyStart (fs : FS) : Filled Unit := ⟨started fs, fun _ => none⟩

theorem emptyStart_empty (fs : FS) : Empty (emptyStart fs) := ⟨fun _ => rfl, fun _ => rfl⟩

/-- What the ghost field is after a call. -/
def refill (h : Filled P) (c : SlotCall P) (t : Tables P) : Filled P where
  tables := t
  last g :=
    match (h.tables.file_table g).fd_inode, (t.file_table g).fd_inode with
    | none, some x => some (c.filling x)
    | _, _ => h.last g

/-- A process makes a pipe. -/
theorem told_apart_pipe : ∃ h : Filled Unit,
    Run SlotCall.DistinctStep (emptyStart (FS.boot Buf.zero)) [.pipe () fun _ => 0] h ∧ h.ByPipe 3 ∧
      ToldApart h := by
  obtain ⟨t, hrun, hslot⟩ : ∃ t, sysPipe () (fun _ => 0) (started (FS.boot Buf.zero)) =
      .ok ((some 3, some 4), t) ∧ (t.file_table 3).fd_inode = some 0 := ⟨_, rfl, rfl⟩
  have hcall : (SlotCall.pipe () fun _ => 0).run (started (FS.boot Buf.zero)) = .ok ((), t) :=
    (Prog.bind_of_ok hrun _).trans rfl
  have hsteps : Run SlotCall.DistinctStep (emptyStart (FS.boot Buf.zero)) [.pipe () fun _ => 0]
      (refill (emptyStart (FS.boot Buf.zero)) (.pipe () fun _ => 0) t) :=
    .single ⟨trivial, hcall, fun _ => rfl⟩
  refine ⟨_, hsteps, ⟨0, ?_⟩, told_apart (emptyStart_empty _) hsteps⟩
  show (match (none : Option Nat), (t.file_table 3).fd_inode with
    | none, some x => some (Filling.pipe x)
    | _, _ => none) = _
  rw [hslot]

/-- Right after the start a file is created with the flag `PIPE_FLAG`, which has the bit of `O_CREAT`. -/
theorem not_told_apart_flag : ∃ (fs : FS) (h : Filled Unit),
    (∃ part disk, filesysInit part (FS.boot disk) = .ok ((), fs)) ∧
    Run SlotCall.Step (emptyStart fs) [.open () 0 [97] PIPE_FLAG] h ∧ ¬ ToldApart h := by
  obtain ⟨s, hs⟩ := Kernel.exists_booted
  have hfit : FitsPath [97] := Kernel.fitsPath_of_length (by decide)
  obtain ⟨fd, t, hcreate⟩ : ∃ fd t, Kernel.fileCreate () [97] PIPE_FLAG s = .ok (some fd, t) :=
    hs.fileCreate () hfit (by decide) (Option.some_ne_none (0, [97])) (by decide) (by decide)
  obtain ⟨inode, u, hrun⟩ : ∃ inode u, createFileOrDirectory 0 [97] FT_REGULAR s.fs = .ok (some inode, u) := by
    obtain ⟨s1, _, hget, h1⟩ := Prog.bind_eq_ok.1 hcreate
    obtain ⟨rfl, rfl⟩ := Prog.get_eq_ok.1 hget
    cases hslot : s.getFreeSlotInGlobal with
    | none =>
        rw [hslot] at h1
        cases h1
    | some idx =>
        rw [hslot] at h1
        obtain ⟨created, s2, hfs, h2⟩ := Prog.bind_eq_ok.1 h1
        obtain ⟨u, hcall, -⟩ := Kernel.onFs_eq_ok.1 hfs
        rw [hs.cwd_i_no] at hcall
        cases created with
        | none => cases h2
        | some inode => exact ⟨inode, u, hcall⟩
  have hfs : openFs (createFileOrDirectory 0 [97] FT_REGULAR) (started s.fs) =
      .ok (some inode, { started s.fs with fs := u }) := Prog.zoom_eq_ok.2 ⟨u, hrun, rfl⟩
  obtain ⟨t1, hopen, hslot, hflag, hino⟩ : ∃ t1, sysOpen () 0 [97] PIPE_FLAG (started s.fs) = .ok (some 3, t1) ∧
      t1.Slot () 3 3 ∧ (t1.file_table 3).flag = PIPE_FLAG ∧ (t1.file_table 3).fd_inode = some inode := by
    unfold sysOpen
    rw [if_pos (by decide)]
    unfold fileCreate
    rw [Prog.bind_of_ok (a := started s.fs) (t := started s.fs) rfl]
    show ∃ t1, (openFs (createFileOrDirectory 0 [97] FT_REGULAR) >>= _) (started s.fs) = _ ∧ _
    rw [Prog.bind_of_ok hfs]
    exact ⟨_, rfl, ⟨by decide, rfl, by decide⟩, rfl, rfl⟩
  have hcall : (SlotCall.open () 0 [97] PIPE_FLAG).run (started s.fs) = .ok ((), t1) :=
    (Prog.bind_of_ok hopen _).trans rfl
  refine ⟨s.fs, refill (emptyStart s.fs) (.open () 0 [97] PIPE_FLAG) t1, hs.mounted,
    .single ⟨hcall, fun _ => rfl⟩, fun htold => ?_⟩
  obtain ⟨b, hpipe, hby, -⟩ := htold () 3 3 hslot
  obtain ⟨g, hslot', hb, -⟩ := isPipe_eq_ok.1 hpipe
  obtain rfl := hslot.unique hslot'
  obtain ⟨page, hpage⟩ := hby.1 (hb.symm.trans (beq_iff_eq.2 hflag))
  have hlast : (refill (emptyStart s.fs) (.open () 0 [97] PIPE_FLAG) t1).last 3 = some (.file inode) := by
    show (match (none : Option Nat), (t1.file_table 3).fd_inode with
      | none, some x => some (Filling.file x)
      | _, _ => none) = _
    rw [hino]
  rw [hlast] at hpage
  cases hpage

end Invariant

end Tables

end RecoverOS
