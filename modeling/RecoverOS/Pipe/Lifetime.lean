import Mathlib.Algebra.Order.BigOperators.Group.Finset
import RecoverOS.Base.Count
import RecoverOS.Pipe.Calls

set_option autoImplicit false

/-! # How long a pipe lives

Runs of `sys_pipe`, `sys_fd_redirect`, `sys_fork`, `sys_close` and `sys_exit` by any number of processes.
The count in `fd_pos` is right as long as `sys_fd_redirect`, which does not count, replaces no descriptor
from 3 on by one of another pipe; and the page outlives every descriptor as long as the last counted one is
not closed before the copies at descriptors 0 to 2, which nobody counts. -/

namespace RecoverOS

namespace Tables

open Kernel (MAX_FILES_OPEN MAX_FILES_OPEN_PER_PROC)

variable {P : Type} [DecidableEq P]

/-! ## Runs -/

/-- The tables, and the slot that `sys_pipe` put a page in. No code reads the latter. -/
structure PipeState (P : Type) where
  tables : Tables P
  slot : Nat → Option Nat

inductive PipeCall (P : Type) where
  | pipe (p : P)
  | redirect (p : P) (old_local_fd new_local_fd : Nat)
  | fork (p child : P)
  | close (p : P) (fd : Int)
  | exit (p : P)

/-- Two descriptors of the process are free. -/
def TwoFree (s : Tables P) (p : P) : Prop :=
  ∃ fd fd', 3 ≤ fd ∧ fd < fd' ∧ fd' < MAX_FILES_OPEN_PER_PROC ∧ s.fd_table p fd = none ∧ s.fd_table p fd' = none

/-- The calls of processes that exist, with free slots and pages. A process takes a page, so there are fewer
    than `2 ^ 52`. -/
inductive PipeStep : PipeState P → PipeCall P → PipeState P → Prop where
  | pipe {h p buf g r t} (hlive : p ∈ h.tables.live) (hfds : h.tables.TwoFree p)
      (hslot : getFreeSlotInGlobal h.tables = some g) (hrun : sysPipe p buf h.tables = .ok (r, t)) :
      PipeStep h (.pipe p) ⟨t, Function.update h.slot h.tables.next_page (some g)⟩
  | redirect {h p old new t} (hlive : p ∈ h.tables.live)
      (hrun : sysFdRedirect p old new h.tables = .ok ((), t)) :
      PipeStep h (.redirect p old new) ⟨t, h.slot⟩
  | fork {h p child t} (hlive : p ∈ h.tables.live) (hchild : child ∉ h.tables.live)
      (hroom : h.tables.live.card < 2 ^ 52) (hrun : sysFork p child h.tables = .ok ((), t)) :
      PipeStep h (.fork p child) ⟨t, h.slot⟩
  | close {h p fd r t} (hlive : p ∈ h.tables.live) (hrun : sysClose p fd h.tables = .ok (r, t)) :
      PipeStep h (.close p fd) ⟨t, h.slot⟩
  | exit {h p t} (hlive : p ∈ h.tables.live) (hrun : sysExit p h.tables = .ok ((), t)) :
      PipeStep h (.exit p) ⟨t, h.slot⟩

/-- Processes as `init_thread` leaves them, and no slot in use. -/
structure PipeBooted (h : PipeState P) : Prop where
  file_table : ∀ g, h.tables.file_table g = ⟨0, 0, none⟩
  fd_table : ∀ p ∈ h.tables.live, ∀ fd, h.tables.fd_table p fd = if fd < 3 then some fd else none
  freed : ∀ page, h.tables.freed page = 0
  slot : ∀ page, h.slot page = none
  few : h.tables.live.card ≤ 2 ^ 52

/-- Some live process has a descriptor that leads to slot `g`. -/
def Referred (s : Tables P) (g : Nat) : Prop :=
  ∃ p ∈ s.live, ∃ fd < MAX_FILES_OPEN_PER_PROC, s.fd_table p fd = some g

/-- The newest pipe in a slot has its page as long as the slot is referred to, and then the page is freed
    once and the slot is free; the pages of older pipes are freed once. -/
structure Lives (h : PipeState P) : Prop where
  reachable : ∀ page g, h.slot page = some g → (∀ page', h.slot page' = some g → page' ≤ page) →
    h.tables.Referred g → (h.tables.file_table g).fd_inode = some page ∧ h.tables.freed page = 0
  gone : ∀ page g, h.slot page = some g → (∀ page', h.slot page' = some g → page' ≤ page) →
    ¬ h.tables.Referred g → (h.tables.file_table g).fd_inode = none ∧ h.tables.freed page = 1
  older : ∀ page page' g, h.slot page = some g → h.slot page' = some g → page < page' →
    h.tables.freed page = 1

/-! ## Counting descriptors -/

/-- The descriptors from 3 on. -/
abbrev localFds : List Nat := List.range' 3 (MAX_FILES_OPEN_PER_PROC - 3)

/-- The number of descriptors of `p` from 3 on that lead to slot `g`. -/
def own (s : Tables P) (p : P) (g : Nat) : Nat := countTo (s.fd_table p) localFds g

/-- The descriptors from 3 on of all processes but `p` that lead to slot `g`. -/
def others (s : Tables P) (p : P) (g : Nat) : Nat := ∑ q ∈ s.live.erase p, s.own q g

/-- The descriptors from 3 on that lead to slot `g`. -/
def refs (s : Tables P) (g : Nat) : Nat := ∑ q ∈ s.live, s.own q g

/-- What `sys_fd_redirect` puts in the table. -/
def redirected (s : Tables P) (p : P) (new_local_fd : Nat) : Option Nat :=
  if new_local_fd < 3 then some new_local_fd else s.fd_table p new_local_fd

/-- The entry leads to a pipe. -/
def ToPipe (s : Tables P) (entry : Option Nat) : Prop :=
  ∃ g, entry = some g ∧ (s.file_table g).flag = PIPE_FLAG

/-- What keeps the counts right: a redirection of a descriptor from 3 on changes nothing or has nothing to do
    with a pipe, and the last counted reference to a pipe goes after the redirected descriptors 0 to 2. -/
def Counts (s : Tables P) : PipeCall P → Prop
  | .redirect p old new => old < 3 ∨ s.redirected p new = s.fd_table p old ∨
      (¬ s.ToPipe (s.fd_table p old) ∧ ¬ s.ToPipe (s.redirected p new))
  | .close p fd => ∀ g, s.fd_table p fd.toNat = some g → (s.file_table g).fd_pos = 1 →
      ∀ q ∈ s.live, ∀ fd' < 3, s.fd_table q fd' ≠ some g
  | .exit p => ∀ g, 0 < s.own p g → (s.file_table g).fd_pos = s.own p g →
      ∀ q ∈ s.live, q ≠ p → ∀ fd' < 3, s.fd_table q fd' ≠ some g
  | _ => True

/-- A step before which the condition holds. -/
def CountedStep (h : PipeState P) (c : PipeCall P) (h' : PipeState P) : Prop :=
  h.tables.Counts c ∧ PipeStep h c h'

/-! ## The slots against a count -/

section Slots

omit [DecidableEq P]

/-- Slots 0 to 2 are free; any other slot is free or holds the newest page put in it, with `cnt` references
    to it. A page that is no longer in its slot was freed once. -/
structure Slots (put : Nat → Option Nat) (s : Tables P) (cnt : Nat → Nat) : Prop where
  std : ∀ g < 3, (s.file_table g).flag ≠ PIPE_FLAG ∧ (s.file_table g).fd_inode = none
  flag : ∀ g page, (s.file_table g).fd_inode = some page → (s.file_table g).flag = PIPE_FLAG
  count : ∀ g page, (s.file_table g).fd_inode = some page → (s.file_table g).fd_pos = cnt g ∧ 0 < cnt g
  placed : ∀ g page, (s.file_table g).fd_inode = some page → put page = some g ∧ s.freed page = 0
  newest : ∀ g page, (s.file_table g).fd_inode = some page → ∀ page', put page' = some g → page' ≤ page
  high : ∀ page g, put page = some g → 3 ≤ g
  dead : ∀ page g, put page = some g → (s.file_table g).fd_inode ≠ some page → s.freed page = 1
  counted : ∀ g, 3 ≤ g → 0 < cnt g → (s.file_table g).fd_inode ≠ none
  fresh : ∀ page, s.next_page ≤ page → put page = none ∧ s.freed page = 0
  fits : ∀ g, cnt g < 2 ^ 64

variable {put : Nat → Option Nat} {s t : Tables P} {cnt cnt' : Nat → Nat} {p : P} {g page : Nat}

theorem Slots.three_le (h : Slots put s cnt) (hg : (s.file_table g).flag = PIPE_FLAG) : 3 ≤ g := by
  by_contra hlt
  exact (h.std g (by omega)).1 hg

/-- The counts of slots 0 to 2 do not matter. -/
theorem Slots.congr (h : Slots put s cnt) (hcnt : ∀ g, 3 ≤ g → cnt' g = cnt g) (hfits : ∀ g, cnt' g < 2 ^ 64) :
    Slots put s cnt' where
  std := h.std
  flag := h.flag
  count g page hp := by
    rw [hcnt g (h.three_le (h.flag g page hp))]
    exact h.count g page hp
  placed := h.placed
  newest := h.newest
  high := h.high
  dead := h.dead
  counted g h3 hpos := h.counted g h3 (by rwa [hcnt g h3] at hpos)
  fresh := h.fresh
  fits := hfits

/-- Nothing in the slots depends on the descriptors of a process. -/
theorem Slots.tables (h : Slots put s cnt) (ft : P → Nat → Option Nat) (live : Finset P) :
    Slots put { s with fd_table := ft, live := live } cnt :=
  ⟨h.std, h.flag, h.count, h.placed, h.newest, h.high, h.dead, h.counted, h.fresh, h.fits⟩

/-- Another number in `fd_pos` of a slot in use. -/
theorem Slots.setPos (h : Slots put s cnt) (hpage : (s.file_table g).fd_inode = some page)
    (hself : 0 < cnt' g) (hother : ∀ g' ≠ g, cnt' g' = cnt g') (hfits : ∀ g, cnt' g < 2 ^ 64) :
    Slots put { s with
      file_table := Function.update s.file_table g { s.file_table g with fd_pos := cnt' g } } cnt' := by
  have hself' : Function.update s.file_table g { s.file_table g with fd_pos := cnt' g } g =
      { s.file_table g with fd_pos := cnt' g } := Function.update_self _ _ _
  have hother' : ∀ g' ≠ g, Function.update s.file_table g { s.file_table g with fd_pos := cnt' g } g' =
      s.file_table g' := fun g' hne => Function.update_of_ne hne _ _
  have hinode : ∀ g', (Function.update s.file_table g { s.file_table g with fd_pos := cnt' g } g').fd_inode =
      (s.file_table g').fd_inode := fun g' => by
    by_cases hne : g' = g
    · rw [hne, hself']
    · rw [hother' g' hne]
  have hflag : ∀ g', (Function.update s.file_table g { s.file_table g with fd_pos := cnt' g } g').flag =
      (s.file_table g').flag := fun g' => by
    by_cases hne : g' = g
    · rw [hne, hself']
    · rw [hother' g' hne]
  constructor
  case std =>
    intro g' hg'
    dsimp only
    rw [hinode, hflag]
    exact h.std g' hg'
  case flag =>
    intro g' page' hp
    dsimp only at hp ⊢
    rw [hinode] at hp
    rw [hflag]
    exact h.flag g' page' hp
  case count =>
    intro g' page' hp
    dsimp only at hp ⊢
    rw [hinode] at hp
    by_cases hne : g' = g
    · rw [hne, hself']
      exact ⟨rfl, hself⟩
    · rw [hother' g' hne, hother g' hne]
      exact h.count g' page' hp
  case placed =>
    intro g' page' hp
    dsimp only at hp
    rw [hinode] at hp
    exact h.placed g' page' hp
  case newest =>
    intro g' page' hp
    dsimp only at hp
    rw [hinode] at hp
    exact h.newest g' page' hp
  case high => exact h.high
  case dead =>
    intro page' g' hs hp
    dsimp only at hp
    rw [hinode] at hp
    exact h.dead page' g' hs hp
  case counted =>
    intro g' h3 hpos
    dsimp only
    rw [hinode]
    by_cases hne : g' = g
    · rw [hne, hpage]
      nofun
    · exact h.counted g' h3 (by rwa [hother g' hne] at hpos)
  case fresh => exact h.fresh
  case fits => exact hfits

/-- The last reference to a slot goes, and its page with it. -/
theorem Slots.drop (h : Slots put s cnt) (hpage : (s.file_table g).fd_inode = some page)
    (hself : cnt' g = 0) (hother : ∀ g' ≠ g, cnt' g' = cnt g') (f : File)
    (hnone : f.fd_inode = none) :
    Slots put { s with
      file_table := Function.update s.file_table g f
      pages := Function.update s.pages page none
      freed := Function.update s.freed page (s.freed page + 1) } cnt' := by
  have hcases : ∀ g' page', (Function.update s.file_table g f g').fd_inode = some page' →
      g' ≠ g ∧ (s.file_table g').fd_inode = some page' ∧ page' ≠ page := by
    intro g' page' hp
    by_cases hne : g' = g
    · rw [hne, Function.update_self, hnone] at hp
      cases hp
    · rw [Function.update_of_ne hne] at hp
      refine ⟨hne, hp, ?_⟩
      rintro rfl
      have h1 := (h.placed g' page' hp).1
      rw [(h.placed g page' hpage).1] at h1
      exact hne (Option.some.inj h1).symm
  have h3 := h.three_le (h.flag g page hpage)
  constructor
  case std =>
    intro g' hg'
    dsimp only
    rw [Function.update_of_ne (by omega)]
    exact h.std g' hg'
  case flag =>
    intro g' page' hp
    obtain ⟨hne, hp', -⟩ := hcases g' page' hp
    dsimp only
    rw [Function.update_of_ne hne]
    exact h.flag g' page' hp'
  case count =>
    intro g' page' hp
    obtain ⟨hne, hp', -⟩ := hcases g' page' hp
    dsimp only
    rw [Function.update_of_ne hne, hother g' hne]
    exact h.count g' page' hp'
  case placed =>
    intro g' page' hp
    obtain ⟨hne, hp', hpne⟩ := hcases g' page' hp
    dsimp only
    rw [Function.update_of_ne hpne]
    exact h.placed g' page' hp'
  case newest =>
    intro g' page' hp
    exact h.newest g' page' (hcases g' page' hp).2.1
  case high => exact h.high
  case dead =>
    intro page' g' hs hp
    dsimp only at hp ⊢
    by_cases hpne : page' = page
    · rw [hpne, Function.update_self, (h.placed g page hpage).2]
    · rw [Function.update_of_ne hpne]
      refine h.dead page' g' hs fun hp' => hp ?_
      have hne : g' ≠ g := by
        rintro rfl
        rw [hpage] at hp'
        exact hpne (Option.some.inj hp').symm
      rw [Function.update_of_ne hne]
      exact hp'
  case counted =>
    intro g' h3' hpos
    dsimp only
    have hne : g' ≠ g := by
      rintro rfl
      omega
    rw [Function.update_of_ne hne]
    exact h.counted g' h3' (by rwa [hother g' hne] at hpos)
  case fresh =>
    intro page' hle
    dsimp only
    have hpne : page' ≠ page := by
      rintro rfl
      have h1 := (h.fresh page' hle).1
      rw [(h.placed g page' hpage).1] at h1
      cases h1
    rw [Function.update_of_ne hpne]
    exact h.fresh page' hle
  case fits =>
    intro g'
    by_cases hne : g' = g
    · rw [hne, hself]
      decide
    · rw [hother g' hne]
      exact h.fits g'

theorem releasePipe_more {n : Nat} (hpos : (s.file_table g).fd_pos = n + 1) (hn : 0 < n)
    (hfit : n + 1 < 2 ^ 64) : releasePipe g s = .ok (false, { s with
      file_table := Function.update s.file_table g { s.file_table g with fd_pos := n } }) := by
  have hsub : sub64 (s.file_table g).fd_pos 1 = n := by
    rw [hpos, sub64_of_le (by omega) hfit]
    omega
  unfold releasePipe
  rw [Prog.bind_of_ok (a := s) (t := s) rfl]
  dsimp only
  rw [Prog.bind_of_ok (a := ()) rfl, hsub, if_neg (Nat.ne_of_gt hn)]
  rfl

theorem releasePipe_last (hpos : (s.file_table g).fd_pos = 1) (hpage : (s.file_table g).fd_inode = some page) :
    releasePipe g s = .ok (true, { s with
      file_table := Function.update s.file_table g { s.file_table g with fd_pos := 0, fd_inode := none }
      pages := Function.update s.pages page none
      freed := Function.update s.freed page (s.freed page + 1) }) := by
  have hsub : sub64 (s.file_table g).fd_pos 1 = 0 := by
    rw [hpos, sub64_of_le (Nat.le_refl _) (by decide)]
  unfold releasePipe
  rw [Prog.bind_of_ok (a := s) (t := s) rfl]
  dsimp only
  rw [Prog.bind_of_ok (a := ()) rfl, hsub, if_pos rfl, hpage]
  rw [← Function.update_idem]
  rfl

/-- `releasePipe` on a slot with a counted reference: the count drops with it. -/
theorem Slots.release {b : Bool} (h : Slots put s cnt) (h3 : 3 ≤ g) (hself : cnt g = cnt' g + 1)
    (hother : ∀ g' ≠ g, cnt' g' = cnt g') (hrun : releasePipe g s = .ok (b, t)) :
    Slots put t cnt' ∧ t.fd_table = s.fd_table ∧ t.live = s.live := by
  obtain ⟨page, hpage⟩ := Option.ne_none_iff_exists'.1 (h.counted g h3 (by omega))
  have hpos : (s.file_table g).fd_pos = cnt' g + 1 := (h.count g page hpage).1.trans hself
  have hfits := h.fits g
  by_cases h0 : cnt' g = 0
  · rw [releasePipe_last (by rw [hpos, h0]) hpage] at hrun
    cases hrun
    exact ⟨h.drop hpage h0 hother _ rfl, rfl, rfl⟩
  · rw [releasePipe_more hpos (Nat.pos_of_ne_zero h0) (by omega)] at hrun
    cases hrun
    refine ⟨h.setPos hpage (Nat.pos_of_ne_zero h0) hother fun g' => ?_, rfl, rfl⟩
    by_cases hne : g' = g
    · rw [hne]
      omega
    · rw [hother g' hne]
      exact h.fits g'

theorem fdInode_eq_ok {inode : Nat} (h : fdInode g s = .ok (inode, t)) : (s.file_table g).fd_inode ≠ none := by
  obtain ⟨s1, _, hget, h1⟩ := Prog.bind_eq_ok.1 h
  obtain ⟨rfl, rfl⟩ := Prog.get_eq_ok.1 hget
  obtain ⟨q, s2, hptr, -⟩ := Prog.bind_eq_ok.1 h1
  rw [(Prog.ofOption_eq_ok.1 hptr).1]
  nofun

/-- What `sys_close` has done when it returns. -/
theorem sysClose_cases [DecidableEq P] {fd : Int} {r : Outcome Int} (hrun : sysClose p fd s = .ok (r, t)) :
    2 < fd ∧ ∃ g, s.Slot p fd.toNat g ∧
      ((s.file_table g).flag = PIPE_FLAG ∧ (∃ b t1, releasePipe g s = .ok (b, t1) ∧
        t = { t1 with
          fd_table := Function.update t1.fd_table p (Function.update (t1.fd_table p) fd.toNat none) }) ∨
        (s.file_table g).flag ≠ PIPE_FLAG ∧ (s.file_table g).fd_inode ≠ none) := by
  obtain ⟨⟨⟩, s1, hassert, h1⟩ := Prog.bind_eq_ok.1 hrun
  obtain ⟨h2, rfl⟩ := Prog.assert_eq_ok.1 hassert
  obtain ⟨g, s2, hlocal, h3⟩ := Prog.bind_eq_ok.1 h1
  obtain ⟨hslot, rfl⟩ := fdLocal2Global_eq_ok.1 hlocal
  rw [Prog.bind_of_ok hslot.isPipe] at h3
  refine ⟨h2, g, hslot, ?_⟩
  by_cases hflag : (s2.file_table g).flag = PIPE_FLAG
  · rw [if_pos (beq_iff_eq.2 hflag)] at h3
    obtain ⟨b, t1, hrel, h4⟩ := Prog.bind_eq_ok.1 h3
    cases h4
    exact .inl ⟨hflag, b, t1, hrel, rfl⟩
  · rw [if_neg fun heq => hflag (beq_iff_eq.1 heq)] at h3
    obtain ⟨⟨⟩, s3, hclose, -⟩ := Prog.bind_eq_ok.1 h3
    obtain ⟨inode, s4, hinode, -⟩ := Prog.bind_eq_ok.1 hclose
    exact .inr ⟨hflag, fdInode_eq_ok hinode⟩

theorem sysClose_pipe_run [DecidableEq P] {fd : Int} {b : Bool} (h2 : 2 < fd) (hslot : s.Slot p fd.toNat g)
    (hflag : (s.file_table g).flag = PIPE_FLAG) (hrel : releasePipe g s = .ok (b, t)) :
    sysClose p fd s = .ok (.returned (if b = true then 0 else -1), { t with
      fd_table := Function.update t.fd_table p (Function.update (t.fd_table p) fd.toNat none) }) := by
  unfold sysClose
  rw [Prog.run_assert_bind h2, Prog.bind_of_ok hslot.run, Prog.bind_of_ok hslot.isPipe,
    if_pos (beq_iff_eq.2 hflag), Prog.bind_of_ok hrel]
  rfl

/-- Only pipes are closed: the other slots have no inode. -/
theorem Slots.piped_of_inode (h : Slots put s cnt) (hg : (s.file_table g).fd_inode ≠ none) :
    (s.file_table g).flag = PIPE_FLAG := by
  obtain ⟨page, hpage⟩ := Option.ne_none_iff_exists'.1 hg
  exact h.flag g page hpage

/-- The loop of `release_prog_resource` takes the references of the process away. -/
theorem Slots.closeAll [DecidableEq P] {base : Nat → Nat} (fds : List Nat)
    (h : Slots put s fun g => base g + countTo (s.fd_table p) fds g)
    (hrun : closeAll p fds s = .ok ((), t)) :
    Slots put t base ∧ t.fd_table = s.fd_table ∧ t.live = s.live := by
  induction fds generalizing s with
  | nil =>
      cases hrun
      exact ⟨h, rfl, rfl⟩
  | cons fd fds ih =>
      unfold Tables.closeAll at hrun
      rw [Prog.bind_of_ok (a := s) (t := s) rfl] at hrun
      cases hentry : s.fd_table p fd with
      | none =>
          rw [if_neg fun hne => hne hentry] at hrun
          simp only [countTo_cons_none hentry] at h
          exact ih h hrun
      | some g =>
          rw [if_pos (by rw [hentry]; nofun)] at hrun
          obtain ⟨piped, s1, hpipe, h1⟩ := Prog.bind_eq_ok.1 hrun
          obtain ⟨g', hslot, hpiped, rfl⟩ := isPipe_eq_ok.1 hpipe
          have hgg : g' = g := Option.some.inj (hslot.entry.symm.trans hentry)
          subst hgg
          by_cases hflag : (s1.file_table g').flag = PIPE_FLAG
          · rw [← hpiped, if_pos (beq_iff_eq.2 hflag), Prog.bind_of_ok hslot.run] at h1
            obtain ⟨b, s2, hrel, h2⟩ := Prog.bind_eq_ok.1 h1
            have hself : base g' + countTo (s1.fd_table p) (fd :: fds) g' =
                base g' + countTo (s1.fd_table p) fds g' + 1 := by
              rw [countTo_cons_self hentry, Nat.add_assoc]
            obtain ⟨hs2, hft, hlive⟩ :
                Slots put s2 (fun g => base g + countTo (s1.fd_table p) fds g) ∧
                  s2.fd_table = s1.fd_table ∧ s2.live = s1.live :=
              h.release (h.three_le hflag) hself (fun g hne => by rw [countTo_cons_of_ne hentry hne]) hrel
            rw [← hft] at hs2
            obtain ⟨ht, hft', hlive'⟩ := ih hs2 h2
            exact ⟨ht, hft'.trans hft, hlive'.trans hlive⟩
          · rw [← hpiped, if_neg fun heq => hflag (beq_iff_eq.1 heq)] at h1
            obtain ⟨r, s2, hclose, -⟩ := Prog.bind_eq_ok.1 h1
            obtain ⟨-, g, hslot', hcases⟩ := sysClose_cases hclose
            rw [Int.toNat_natCast] at hslot'
            rw [hslot.unique hslot'] at hflag
            rcases hcases with ⟨hflag', -⟩ | ⟨-, hinode⟩
            · exact absurd hflag' hflag
            · exact absurd (h.piped_of_inode hinode) hflag

/-- `update_inode_open_cnts` adds the references of the child. -/
theorem Slots.updateInodeOpenCnts {base : Nat → Nat} (fds : List Nat) (h : Slots put s base)
    (hused : ∀ fd ∈ fds, ∀ g, s.fd_table p fd = some g → 3 ≤ g → (s.file_table g).fd_inode ≠ none)
    (hfits : ∀ g, base g + countTo (s.fd_table p) fds g < 2 ^ 64)
    (hrun : updateInodeOpenCnts p fds s = .ok ((), t)) :
    Slots put t (fun g => base g + countTo (s.fd_table p) fds g) ∧ t.fd_table = s.fd_table ∧
      t.live = s.live := by
  induction fds generalizing s base with
  | nil =>
      cases hrun
      exact ⟨h, rfl, rfl⟩
  | cons fd fds ih =>
      have hused' : ∀ fd ∈ fds, ∀ g, s.fd_table p fd = some g → 3 ≤ g → (s.file_table g).fd_inode ≠ none :=
        fun fd' hmem => hused fd' (List.mem_cons_of_mem _ hmem)
      unfold Tables.updateInodeOpenCnts at hrun
      rw [Prog.bind_of_ok (a := s) (t := s) rfl] at hrun
      cases hentry : s.fd_table p fd with
      | none =>
          rw [hentry] at hrun
          simp only [countTo_cons_none hentry] at hfits ⊢
          exact ih h hused' hfits hrun
      | some g =>
          rw [hentry] at hrun
          obtain ⟨⟨⟩, s1, hassert, h1⟩ := Prog.bind_eq_ok.1 hrun
          obtain ⟨-, rfl⟩ := Prog.assert_eq_ok.1 hassert
          obtain ⟨piped, s2, hpipe, h2⟩ := Prog.bind_eq_ok.1 h1
          obtain ⟨g', hslot, hpiped, rfl⟩ := isPipe_eq_ok.1 hpipe
          have hgg : g' = g := Option.some.inj (hslot.entry.symm.trans hentry)
          subst hgg
          by_cases hflag : (s2.file_table g').flag = PIPE_FLAG
          · rw [← hpiped, if_pos (beq_iff_eq.2 hflag)] at h2
            obtain ⟨page, hpage⟩ := Option.ne_none_iff_exists'.1
              (hused fd List.mem_cons_self g' hentry (h.three_le hflag))
            have hroom := hfits g'
            rw [countTo_cons_self hentry] at hroom
            have hpos : u64 ((s2.file_table g').fd_pos + 1) =
                Function.update base g' (base g' + 1) g' := by
              rw [Function.update_self, (h.count g' page hpage).1, u64_of_lt (by omega)]
            have hother : ∀ g ≠ g', Function.update base g' (base g' + 1) g = base g :=
              fun g hne => Function.update_of_ne hne _ _
            have hsum : ∀ g, Function.update base g' (base g' + 1) g + countTo (s2.fd_table p) fds g =
                base g + countTo (s2.fd_table p) (fd :: fds) g := fun g => by
              by_cases hne : g = g'
              · rw [hne, Function.update_self, countTo_cons_self hentry]
                omega
              · rw [hother g hne, countTo_cons_of_ne hentry hne]
            have hset : Slots put { s2 with
                file_table := Function.update s2.file_table g'
                  { s2.file_table g' with fd_pos := Function.update base g' (base g' + 1) g' } }
                (Function.update base g' (base g' + 1)) :=
              h.setPos hpage (by rw [Function.update_self]; omega) hother
                (fun g => Nat.lt_of_le_of_lt (Nat.le_add_right _ _) ((hsum g).symm ▸ hfits g))
            rw [hpos, Prog.bind_of_ok (a := ()) rfl] at h2
            have hused2 : ∀ fd ∈ fds, ∀ g, s2.fd_table p fd = some g → 3 ≤ g →
                (Function.update s2.file_table g' { s2.file_table g' with
                  fd_pos := Function.update base g' (base g' + 1) g' } g).fd_inode ≠ none := by
              intro fd' hmem g hg h3
              by_cases hne : g = g'
              · rw [hne, Function.update_self]
                exact Option.ne_none_iff_exists'.2 ⟨page, hpage⟩
              · rw [Function.update_of_ne hne]
                exact hused' fd' hmem g hg h3
            obtain ⟨ht, hft, hlive⟩ := ih hset hused2 (fun g => (hsum g).symm ▸ hfits g) h2
            exact ⟨ht.congr (fun g _ => (hsum g).symm) hfits, hft, hlive⟩
          · rw [← hpiped, if_neg fun heq => hflag (beq_iff_eq.1 heq)] at h2
            obtain ⟨inode, s3, hinode, -⟩ := Prog.bind_eq_ok.1 h2
            exact absurd (h.piped_of_inode (fdInode_eq_ok hinode)) hflag

/-- A page is put in a free slot, with two references. -/
theorem Slots.make (h : Slots put s cnt) (h3 : 3 ≤ g) (hfree : (s.file_table g).fd_inode = none)
    (hself : cnt' g = 2) (hother : ∀ g' ≠ g, cnt' g' = cnt g') (pages : Nat → Option (Ioqueue P)) :
    Slots (Function.update put s.next_page (some g)) { s with
      file_table := Function.update s.file_table g ⟨2, PIPE_FLAG, some s.next_page⟩
      pages := pages
      next_page := s.next_page + 1 } cnt' := by
  have hput : ∀ page g', put page = some g' → page < s.next_page := by
    intro page g' hp
    by_contra hle
    rw [(h.fresh page (by omega)).1] at hp
    cases hp
  have hcases : ∀ g' page', (Function.update s.file_table g ⟨2, PIPE_FLAG, some s.next_page⟩ g').fd_inode =
      some page' → (g' = g ∧ page' = s.next_page) ∨
        (g' ≠ g ∧ (s.file_table g').fd_inode = some page' ∧ page' ≠ s.next_page) := by
    intro g' page' hp
    by_cases hne : g' = g
    · rw [hne, Function.update_self] at hp
      exact .inl ⟨hne, (Option.some.inj hp).symm⟩
    · rw [Function.update_of_ne hne] at hp
      have hlt := hput page' g' (h.placed g' page' hp).1
      exact .inr ⟨hne, hp, by omega⟩
  constructor
  case std =>
    intro g' hg'
    dsimp only
    rw [Function.update_of_ne (by omega)]
    exact h.std g' hg'
  case flag =>
    intro g' page' hp
    dsimp only
    rcases hcases g' page' hp with ⟨rfl, -⟩ | ⟨hne, hp', -⟩
    · rw [Function.update_self]
    · rw [Function.update_of_ne hne]
      exact h.flag g' page' hp'
  case count =>
    intro g' page' hp
    dsimp only
    rcases hcases g' page' hp with ⟨rfl, -⟩ | ⟨hne, hp', -⟩
    · rw [Function.update_self, hself]
      exact ⟨rfl, by decide⟩
    · rw [Function.update_of_ne hne, hother g' hne]
      exact h.count g' page' hp'
  case placed =>
    intro g' page' hp
    dsimp only
    rcases hcases g' page' hp with ⟨rfl, rfl⟩ | ⟨hne, hp', hpne⟩
    · rw [Function.update_self]
      exact ⟨rfl, (h.fresh _ (Nat.le_refl _)).2⟩
    · rw [Function.update_of_ne hpne]
      exact h.placed g' page' hp'
  case newest =>
    intro g' page' hp page'' hs
    rcases hcases g' page' hp with ⟨rfl, rfl⟩ | ⟨hne, hp', hpne⟩
    · by_cases hnew : page'' = s.next_page
      · exact Nat.le_of_eq hnew
      · rw [Function.update_of_ne hnew] at hs
        exact Nat.le_of_lt (hput page'' g' hs)
    · by_cases hnew : page'' = s.next_page
      · rw [hnew, Function.update_self] at hs
        exact absurd (Option.some.inj hs).symm hne
      · rw [Function.update_of_ne hnew] at hs
        exact h.newest g' page' hp' page'' hs
  case high =>
    intro page' g' hs
    by_cases hnew : page' = s.next_page
    · rw [hnew, Function.update_self] at hs
      exact (Option.some.inj hs) ▸ h3
    · rw [Function.update_of_ne hnew] at hs
      exact h.high page' g' hs
  case dead =>
    intro page' g' hs hp
    dsimp only at hp ⊢
    by_cases hnew : page' = s.next_page
    · rw [hnew, Function.update_self] at hs
      rw [← Option.some.inj hs, Function.update_self, hnew] at hp
      exact absurd rfl hp
    · rw [Function.update_of_ne hnew] at hs
      refine h.dead page' g' hs fun hp' => ?_
      by_cases hne : g' = g
      · rw [hne, hfree] at hp'
        cases hp'
      · rw [Function.update_of_ne hne] at hp
        exact hp hp'
  case counted =>
    intro g' h3' hpos
    dsimp only
    by_cases hne : g' = g
    · rw [hne, Function.update_self]
      nofun
    · rw [Function.update_of_ne hne]
      exact h.counted g' h3' (by rwa [hother g' hne] at hpos)
  case fresh =>
    intro page' hle
    dsimp only at hle
    rw [Function.update_of_ne (by omega)]
    exact h.fresh page' (by omega)
  case fits =>
    intro g'
    by_cases hne : g' = g
    · rw [hne, hself]
      decide
    · rw [hother g' hne]
      exact h.fits g'

end Slots

/-! ## Counts under the calls -/

section Count

omit [DecidableEq P]

variable {s t : Tables P} {p : P} {g fd : Nat} {entry : Nat → Option Nat} {fds : List Nat} {v : Option Nat}

theorem mem_localFds : fd ∈ localFds ↔ 3 ≤ fd ∧ fd < MAX_FILES_OPEN_PER_PROC := List.mem_range'_1

theorem own_le (s : Tables P) (p : P) (g : Nat) : s.own p g ≤ 5 := List.countP_le_length

theorem refs_lt (h : s.live.card ≤ 2 ^ 52) (g : Nat) : s.refs g < 2 ^ 64 := by
  have hle : s.refs g ≤ s.live.card * 5 := Finset.sum_le_card_nsmul _ _ _ fun q _ => s.own_le q g
  omega

theorem exists_of_refs_pos (h : 0 < s.refs g) : s.Referred g := by
  obtain ⟨p, hp, hown⟩ := Finset.exists_ne_zero_of_sum_ne_zero (Nat.ne_of_gt h)
  obtain ⟨fd, hmem, hfd⟩ := exists_of_countTo_pos (Nat.pos_of_ne_zero hown)
  exact ⟨p, hp, fd, (mem_localFds.1 hmem).2, hfd⟩

theorem refs_pos (hp : p ∈ s.live) (hmem : fd ∈ localFds) (h : s.fd_table p fd = some g) : 0 < s.refs g :=
  Nat.lt_of_lt_of_le (countTo_pos hmem h) (Finset.single_le_sum (f := fun q => s.own q g)
    (fun _ _ => Nat.zero_le _) hp)

end Count

theorem refs_eq {s : Tables P} {p : P} (hp : p ∈ s.live) (g : Nat) : s.refs g = s.others p g + s.own p g :=
  (Finset.sum_erase_add _ _ hp).symm

theorem others_congr {s t : Tables P} {p : P} (h : ∀ q ≠ p, t.fd_table q = s.fd_table q)
    (hlive : t.live = s.live) (g : Nat) : t.others p g = s.others p g := by
  unfold others
  rw [hlive]
  refine Finset.sum_congr rfl fun q hq => ?_
  unfold own
  rw [h q (Finset.ne_of_mem_erase hq)]

omit [DecidableEq P] in
theorem refs_congr {s t : Tables P} (hft : t.fd_table = s.fd_table) (hlive : t.live = s.live) :
    t.refs = s.refs := by
  funext g
  unfold refs own
  rw [hft, hlive]

/-- The tables with other descriptors for one process. -/
def withFds (s : Tables P) (p : P) (entry : Nat → Option Nat) : Tables P :=
  { s with fd_table := Function.update s.fd_table p entry }

theorem withFds_self (s : Tables P) (p : P) (entry : Nat → Option Nat) :
    (s.withFds p entry).fd_table p = entry := Function.update_self _ _ _

theorem withFds_other (s : Tables P) {p q : P} (entry : Nat → Option Nat) (hq : q ≠ p) :
    (s.withFds p entry).fd_table q = s.fd_table q := Function.update_of_ne hq _ _

theorem refs_withFds {s : Tables P} {p : P} (hp : p ∈ s.live) (entry : Nat → Option Nat) (g : Nat) :
    (s.withFds p entry).refs g = s.others p g + countTo entry localFds g := by
  have hothers : (s.withFds p entry).others p g = s.others p g :=
    others_congr (fun q hq => s.withFds_other entry hq) rfl g
  have hlive : p ∈ (s.withFds p entry).live := hp
  rw [refs_eq hlive, hothers]
  unfold own
  rw [withFds_self]

/-! ## The invariant -/

/-- `fd_pos` counts the descriptors from 3 on, and descriptors 0 to 2 lead to pipes that are there. -/
structure Counted (h : PipeState P) : Prop where
  slots : Slots h.slot h.tables h.tables.refs
  std : ∀ p ∈ h.tables.live, ∀ fd < 3, ∀ g, h.tables.fd_table p fd = some g → 3 ≤ g →
    (h.tables.file_table g).fd_inode ≠ none
  few : h.tables.live.card ≤ 2 ^ 52

section Counted

variable {h h' : PipeState P} {p : P} {g fd : Nat} {c : PipeCall P}

omit [DecidableEq P] in
/-- Every descriptor that leads to a pipe leads to one that is there. -/
theorem Counted.used (hc : Counted h) (hp : p ∈ h.tables.live) (hfd : fd < MAX_FILES_OPEN_PER_PROC)
    (hentry : h.tables.fd_table p fd = some g) (h3 : 3 ≤ g) : (h.tables.file_table g).fd_inode ≠ none := by
  by_cases hstd : fd < 3
  · exact hc.std p hp fd hstd g hentry h3
  · exact hc.slots.counted g h3 (refs_pos hp (mem_localFds.2 ⟨by omega, hfd⟩) hentry)

omit [DecidableEq P] in
theorem Counted.lives (hc : Counted h) : Lives h where
  reachable page g hs hnew href := by
    obtain ⟨p, hp, fd, hfd, hentry⟩ := href
    obtain ⟨page', hpage⟩ := Option.ne_none_iff_exists'.1
      (hc.used hp hfd hentry (hc.slots.high page g hs))
    have hle := hc.slots.newest g page' hpage page hs
    have hle' := hnew page' (hc.slots.placed g page' hpage).1
    have heq : page' = page := by omega
    subst heq
    exact ⟨hpage, (hc.slots.placed g page' hpage).2⟩
  gone page g hs hnew href := by
    have hnone : (h.tables.file_table g).fd_inode = none := by
      by_contra hne
      obtain ⟨page', hpage⟩ := Option.ne_none_iff_exists'.1 hne
      exact href (exists_of_refs_pos (hc.slots.count g page' hpage).2)
    refine ⟨hnone, hc.slots.dead page g hs ?_⟩
    rw [hnone]
    nofun
  older page page' g hs hs' hlt := by
    refine hc.slots.dead page g hs fun hpage => ?_
    have hle := hc.slots.newest g page hpage page' hs'
    omega

omit [DecidableEq P] in
theorem PipeBooted.counted (hb : PipeBooted h) : Counted h where
  slots := by
    have hnone : ∀ g, (h.tables.file_table g).fd_inode = none := fun g => by rw [hb.file_table]
    have hno : ∀ g page, (h.tables.file_table g).fd_inode = some page → False := fun g page hp => by
      rw [hnone] at hp
      cases hp
    have hput : ∀ page g, h.slot page = some g → False := fun page g hs => by
      rw [hb.slot] at hs
      cases hs
    exact {
      std := fun g _ => ⟨by rw [hb.file_table]; decide, hnone g⟩
      flag := fun g page hp => (hno g page hp).elim
      count := fun g page hp => (hno g page hp).elim
      placed := fun g page hp => (hno g page hp).elim
      newest := fun g page hp => (hno g page hp).elim
      high := fun page g hs => (hput page g hs).elim
      dead := fun page g hs => (hput page g hs).elim
      counted := fun g h3 hpos => by
        obtain ⟨p, hp, hown⟩ := Finset.exists_ne_zero_of_sum_ne_zero (Nat.ne_of_gt hpos)
        obtain ⟨fd, hmem, hfd⟩ := exists_of_countTo_pos (Nat.pos_of_ne_zero hown)
        have hlo := (mem_localFds.1 hmem).1
        rw [hb.fd_table p hp, if_neg (by omega)] at hfd
        cases hfd
      fresh := fun page _ => ⟨hb.slot page, hb.freed page⟩
      fits := refs_lt hb.few }
  std p hp fd hfd g hentry h3 := by
    rw [hb.fd_table p hp, if_pos hfd] at hentry
    have := Option.some.inj hentry
    omega
  few := hb.few

/-! ## The calls -/

theorem sysFdRedirect_cases {s t : Tables P} {old new : Nat} (hrun : sysFdRedirect p old new s = .ok ((), t)) :
    old < MAX_FILES_OPEN_PER_PROC ∧ (3 ≤ new → new < MAX_FILES_OPEN_PER_PROC) ∧
      t = s.withFds p (Function.update (s.fd_table p) old (s.redirected p new)) := by
  obtain ⟨⟨⟩, s1, hreq, h1⟩ := Prog.bind_eq_ok.1 hrun
  obtain ⟨hold, rfl⟩ := Prog.require_eq_ok.1 hreq
  unfold redirected
  by_cases hnew : new < 3
  · rw [if_pos hnew] at h1
    cases h1
    rw [if_pos hnew]
    exact ⟨hold, fun h3 => by omega, rfl⟩
  · rw [if_neg hnew] at h1
    obtain ⟨⟨⟩, s2, hreq', h2⟩ := Prog.bind_eq_ok.1 h1
    obtain ⟨hlt, rfl⟩ := Prog.require_eq_ok.1 hreq'
    cases h2
    rw [if_neg hnew]
    exact ⟨hold, fun _ => hlt, rfl⟩

theorem Counted.redirect {old new : Nat} {t : Tables P} (hc : Counted h) (hp : p ∈ h.tables.live)
    (hcond : h.tables.Counts (.redirect p old new)) (hrun : sysFdRedirect p old new h.tables = .ok ((), t)) :
    Counted ⟨t, h.slot⟩ := by
  obtain ⟨hold, hnew, rfl⟩ := sysFdRedirect_cases hrun
  -- what is put in the table leads to a standard slot or to a pipe that is there
  have htarget : ∀ g, h.tables.redirected p new = some g → 3 ≤ g →
      (h.tables.file_table g).fd_inode ≠ none := by
    intro g hg h3
    unfold redirected at hg
    by_cases hlt : new < 3
    · rw [if_pos hlt] at hg
      have := Option.some.inj hg
      omega
    · rw [if_neg hlt] at hg
      exact hc.used hp (hnew (by omega)) hg h3
  have hpipe : ∀ g, (h.tables.file_table g).fd_inode ≠ none → (h.tables.file_table g).flag = PIPE_FLAG :=
    fun g hne => hc.slots.piped_of_inode hne
  have hown : ∀ g, 3 ≤ g →
      countTo (Function.update (h.tables.fd_table p) old (h.tables.redirected p new)) localFds g =
        h.tables.own p g := by
    intro g h3
    by_cases hmem : old ∈ localFds
    · have hupd : countTo (Function.update (h.tables.fd_table p) old (h.tables.redirected p new)) localFds g +
          (if h.tables.fd_table p old = some g then 1 else 0) =
            h.tables.own p g + if h.tables.redirected p new = some g then 1 else 0 :=
        countTo_update List.nodup_range' hmem
      rcases hcond with hlt | heq | ⟨hno, hno'⟩
      · have := (mem_localFds.1 hmem).1
        omega
      · rw [heq, Function.update_eq_self]
        rfl
      · rw [if_neg fun hg => hno ⟨g, hg, hpipe g (hc.used hp hold hg h3)⟩,
          if_neg fun hg => hno' ⟨g, hg, hpipe g (htarget g hg h3)⟩] at hupd
        exact hupd
    · exact countTo_update_of_notMem hmem
  have hrefs : ∀ g, 3 ≤ g → (h.tables.withFds p
      (Function.update (h.tables.fd_table p) old (h.tables.redirected p new))).refs g = h.tables.refs g := by
    intro g h3
    rw [refs_withFds hp, hown g h3, refs_eq hp]
  refine ⟨(hc.slots.congr hrefs (refs_lt hc.few)).tables _ _, fun q hq fd' hfd' g hentry h3 => ?_, hc.few⟩
  dsimp only at hentry
  by_cases hqp : q = p
  · rw [hqp, withFds_self] at hentry
    by_cases hfd : fd' = old
    · rw [hfd, Function.update_self] at hentry
      exact htarget g hentry h3
    · rw [Function.update_of_ne hfd] at hentry
      exact hc.std p hp fd' hfd' g hentry h3
  · rw [withFds_other _ _ hqp] at hentry
    exact hc.std q hq fd' hfd' g hentry h3

omit [DecidableEq P] in
theorem getFreeSlotInGlobal_eq_some {s : Tables P} (hslot : getFreeSlotInGlobal s = some g) :
    3 ≤ g ∧ (s.file_table g).fd_inode = none := by
  have hmem := List.mem_of_find?_eq_some hslot
  have hfree := List.find?_some hslot
  rw [List.mem_range'_1] at hmem
  exact ⟨hmem.1, Option.isNone_iff_eq_none.1 hfree⟩

theorem pcbFdInstall_run {s : Tables P} (hfree : ∃ fd ∈ localFds, s.fd_table p fd = none) (g : Nat) :
    ∃ fd ∈ localFds, s.fd_table p fd = none ∧ pcbFdInstall p g s =
      .ok (some fd, s.withFds p (Function.update (s.fd_table p) fd (some g))) := by
  cases hfind : localFds.find? fun fd => (s.fd_table p fd).isNone with
  | none =>
      obtain ⟨fd, hmem, hfd⟩ := hfree
      have hno := List.find?_eq_none.1 hfind fd hmem
      rw [hfd] at hno
      exact absurd rfl hno
  | some fd =>
      have hfd := List.find?_some hfind
      refine ⟨fd, List.mem_of_find?_eq_some hfind, Option.isNone_iff_eq_none.1 hfd, ?_⟩
      unfold pcbFdInstall
      rw [Prog.bind_of_ok (a := s) (t := s) rfl, hfind]
      rfl

/-- The tables after `sys_pipe` took slot `g`, before it installs descriptors. -/
def withPipe (s : Tables P) (g : Nat) (buf : Nat → Byte) : Tables P :=
  { s with
    file_table := Function.update s.file_table g ⟨2, PIPE_FLAG, some s.next_page⟩
    pages := Function.update s.pages s.next_page (some (Ioqueue.ioqueueInit buf))
    next_page := s.next_page + 1 }

/-- Two calls of `pcb_fd_install` take two descriptors that were free. -/
theorem pcbFdInstall_twice {s : Tables P} (hfds : s.TwoFree p) (g : Nat) :
    ∃ fd ∈ localFds, ∃ fd' ∈ localFds, fd' ≠ fd ∧ s.fd_table p fd = none ∧ s.fd_table p fd' = none ∧
      ∃ t, pcbFdInstall p g s = .ok (some fd, t) ∧
        pcbFdInstall p g t = .ok (some fd', s.withFds p
          (Function.update (Function.update (s.fd_table p) fd (some g)) fd' (some g))) := by
  obtain ⟨a, b, ha, hab, hb, hfa, hfb⟩ := hfds
  have hmema : a ∈ localFds := mem_localFds.2 ⟨ha, by omega⟩
  have hmemb : b ∈ localFds := mem_localFds.2 ⟨by omega, hb⟩
  obtain ⟨fd, hmem, hfree, hinstall⟩ := pcbFdInstall_run ⟨a, hmema, hfa⟩ g
  have hleft : ∃ fd' ∈ localFds,
      (s.withFds p (Function.update (s.fd_table p) fd (some g))).fd_table p fd' = none := by
    rw [withFds_self]
    by_cases hafd : a = fd
    · exact ⟨b, hmemb, by rw [Function.update_of_ne (by omega), hfb]⟩
    · exact ⟨a, hmema, by rw [Function.update_of_ne hafd, hfa]⟩
  obtain ⟨fd', hmem', hfree', hinstall'⟩ := pcbFdInstall_run hleft g
  rw [withFds_self] at hfree' hinstall'
  have hne : fd' ≠ fd := by
    rintro rfl
    rw [Function.update_self] at hfree'
    cases hfree'
  rw [Function.update_of_ne hne] at hfree'
  refine ⟨fd, hmem, fd', hmem', hne, hfree, hfree', _, hinstall, ?_⟩
  rw [hinstall']
  unfold withFds
  dsimp only
  rw [Function.update_idem]

/-- With room for them, `sys_pipe` installs two descriptors that were free. -/
theorem sysPipe_cases {s t : Tables P} {buf : Nat → Byte} {r : Option Nat × Option Nat} (hfds : s.TwoFree p)
    (hslot : getFreeSlotInGlobal s = some g) (hrun : sysPipe p buf s = .ok (r, t)) :
    ∃ fd ∈ localFds, ∃ fd' ∈ localFds, fd' ≠ fd ∧ s.fd_table p fd = none ∧ s.fd_table p fd' = none ∧
      t = (s.withPipe g buf).withFds p
        (Function.update (Function.update (s.fd_table p) fd (some g)) fd' (some g)) := by
  have hfds' : (s.withPipe g buf).TwoFree p := hfds
  obtain ⟨fd, hmem, fd', hmem', hne, hfree, hfree', t', hinstall, hinstall'⟩ := pcbFdInstall_twice hfds' g
  refine ⟨fd, hmem, fd', hmem', hne, hfree, hfree', ?_⟩
  unfold sysPipe at hrun
  rw [Prog.bind_of_ok (a := s) (t := s) rfl, hslot, Prog.bind_of_ok (a := g) (t := s) rfl,
    Prog.bind_of_ok (a := ()) rfl, Prog.bind_of_ok (a := ()) (t := s.withPipe g buf) rfl,
    Prog.bind_of_ok hinstall, Prog.bind_of_ok hinstall'] at hrun
  cases hrun
  rfl

theorem Counted.pipe {buf : Nat → Byte} {r : Option Nat × Option Nat} {t : Tables P} (hc : Counted h)
    (hp : p ∈ h.tables.live) (hfds : h.tables.TwoFree p) (hslot : getFreeSlotInGlobal h.tables = some g)
    (hrun : sysPipe p buf h.tables = .ok (r, t)) :
    Counted ⟨t, Function.update h.slot h.tables.next_page (some g)⟩ := by
  obtain ⟨h3, hfree⟩ := getFreeSlotInGlobal_eq_some hslot
  obtain ⟨fd, hmem, fd', hmem', hne, hfd, hfd', rfl⟩ := sysPipe_cases hfds hslot hrun
  have hp' : p ∈ (h.tables.withPipe g buf).live := hp
  have hcount : ∀ g', ((h.tables.withPipe g buf).withFds p
      (Function.update (Function.update (h.tables.fd_table p) fd (some g)) fd' (some g))).refs g' =
        h.tables.refs g' + if some g = some g' then 2 else 0 := by
    intro g'
    have h1 : countTo (Function.update (h.tables.fd_table p) fd (some g)) localFds g' +
        (if h.tables.fd_table p fd = some g' then 1 else 0) =
          h.tables.own p g' + if some g = some g' then 1 else 0 :=
      countTo_update List.nodup_range' hmem
    have h2 : countTo (Function.update (Function.update (h.tables.fd_table p) fd (some g)) fd' (some g))
        localFds g' + (if Function.update (h.tables.fd_table p) fd (some g) fd' = some g' then 1 else 0) =
          countTo (Function.update (h.tables.fd_table p) fd (some g)) localFds g' +
            if some g = some g' then 1 else 0 :=
      countTo_update List.nodup_range' hmem'
    rw [hfd, if_neg nofun] at h1
    rw [Function.update_of_ne hne, hfd', if_neg nofun] at h2
    have hothers : (h.tables.withPipe g buf).others p g' = h.tables.others p g' := rfl
    rw [refs_withFds hp', hothers, refs_eq hp]
    by_cases hg : some g = some g'
    · rw [if_pos hg] at h1 h2 ⊢
      omega
    · rw [if_neg hg] at h1 h2 ⊢
      omega
  have hzero : h.tables.refs g = 0 := by
    by_contra hpos
    exact hc.slots.counted g h3 (Nat.pos_of_ne_zero hpos) hfree
  have hslots : Slots (Function.update h.slot h.tables.next_page (some g)) (h.tables.withPipe g buf)
      ((h.tables.withPipe g buf).withFds p
        (Function.update (Function.update (h.tables.fd_table p) fd (some g)) fd' (some g))).refs :=
    hc.slots.make h3 hfree (by rw [hcount, if_pos rfl, hzero])
      (fun g' hg => by rw [hcount, if_neg fun heq => hg (Option.some.inj heq).symm, Nat.add_zero]) _
  refine ⟨hslots.tables _ _, fun q hq fd0 hfd0 g' hentry hg3 => ?_, hc.few⟩
  have hlo := (mem_localFds.1 hmem).1
  have hlo' := (mem_localFds.1 hmem').1
  have hentry' : h.tables.fd_table q fd0 = some g' := by
    dsimp only at hentry
    by_cases hqp : q = p
    · rw [hqp, withFds_self, Function.update_of_ne (by omega), Function.update_of_ne (by omega)] at hentry
      rw [hqp]
      exact hentry
    · rw [withFds_other _ _ hqp] at hentry
      exact hentry
  show (Function.update h.tables.file_table g ⟨2, PIPE_FLAG, some h.tables.next_page⟩ g').fd_inode ≠ none
  by_cases hg : g' = g
  · rw [hg, Function.update_self]
    nofun
  · rw [Function.update_of_ne hg]
    exact hc.std q hq fd0 hfd0 g' hentry' hg3

theorem Counted.close {fd : Int} {r : Outcome Int} {t : Tables P} (hc : Counted h) (hp : p ∈ h.tables.live)
    (hcond : h.tables.Counts (.close p fd)) (hrun : sysClose p fd h.tables = .ok (r, t)) :
    Counted ⟨t, h.slot⟩ := by
  obtain ⟨h2, g, hslot, ⟨hflag, b, t1, hrel, rfl⟩ | ⟨hflag, hinode⟩⟩ := sysClose_cases hrun
  · have h3 := hc.slots.three_le hflag
    have hmem : fd.toNat ∈ localFds := mem_localFds.2 ⟨by omega, hslot.local_lt⟩
    have hupd : ∀ g', countTo (Function.update (h.tables.fd_table p) fd.toNat none) localFds g' +
        (if h.tables.fd_table p fd.toNat = some g' then 1 else 0) =
          h.tables.own p g' + if (none : Option Nat) = some g' then 1 else 0 :=
      fun g' => countTo_update List.nodup_range' hmem
    have hself : h.tables.refs g =
        (h.tables.withFds p (Function.update (h.tables.fd_table p) fd.toNat none)).refs g + 1 := by
      have hg := hupd g
      rw [if_pos hslot.entry, if_neg nofun] at hg
      rw [refs_withFds hp, refs_eq hp]
      omega
    have hother : ∀ g' ≠ g, (h.tables.withFds p
        (Function.update (h.tables.fd_table p) fd.toNat none)).refs g' = h.tables.refs g' := by
      intro g' hne
      have hg := hupd g'
      rw [hslot.entry, if_neg fun heq => hne (Option.some.inj heq).symm, if_neg nofun] at hg
      rw [refs_withFds hp, refs_eq hp]
      omega
    obtain ⟨hs, hft, hlive⟩ := hc.slots.release h3 hself hother hrel
    have hrefs : (t1.withFds p (Function.update (t1.fd_table p) fd.toNat none)).refs =
        (h.tables.withFds p (Function.update (h.tables.fd_table p) fd.toNat none)).refs :=
      refs_congr (by unfold withFds; rw [hft]) hlive
    have hslots : Slots h.slot (t1.withFds p (Function.update (t1.fd_table p) fd.toNat none))
        (t1.withFds p (Function.update (t1.fd_table p) fd.toNat none)).refs := by
      rw [hrefs]
      exact hs.tables _ _
    refine ⟨hslots, fun q hq fd' hfd' g' hentry hg3 => ?_, ?_⟩
    · have hq' : q ∈ h.tables.live := hlive ▸ hq
      have hentry' : h.tables.fd_table q fd' = some g' := by
        by_cases hqp : q = p
        · rw [hqp] at hentry ⊢
          have hne : fd' ≠ fd.toNat := by omega
          rw [← hft]
          exact (Function.update_of_ne hne _ _).symm.trans
            ((congrFun (withFds_self t1 p _) fd').symm.trans hentry)
        · rw [← hft]
          exact (congrFun (withFds_other t1 _ hqp) fd').symm.trans hentry
      obtain ⟨page, hpage⟩ := Option.ne_none_iff_exists'.1 (hc.std q hq' fd' hfd' g' hentry' hg3)
      obtain ⟨hpos, hcnt⟩ := hc.slots.count g' page hpage
      refine hslots.counted g' hg3 ?_
      rw [hrefs]
      by_cases hne : g' = g
      · subst hne
        have hmore : (h.tables.file_table g').fd_pos ≠ 1 := fun h1 =>
          hcond g' hslot.entry h1 q hq' fd' hfd' hentry'
        omega
      · rw [hother g' hne]
        exact hcnt
    · show t1.live.card ≤ _
      rw [hlive]
      exact hc.few
  · exact absurd (hc.slots.piped_of_inode hinode) hflag

theorem Counted.exit {t : Tables P} (hc : Counted h) (hp : p ∈ h.tables.live)
    (hcond : h.tables.Counts (.exit p)) (hrun : sysExit p h.tables = .ok ((), t)) :
    Counted ⟨t, h.slot⟩ := by
  obtain ⟨⟨⟩, t1, hclose, h1⟩ := Prog.bind_eq_ok.1 hrun
  cases h1
  have hsplit : Slots h.slot h.tables fun g => h.tables.others p g + h.tables.own p g :=
    hc.slots.congr (fun g _ => (refs_eq hp g).symm) fun g => refs_eq hp g ▸ refs_lt hc.few g
  obtain ⟨hs, hft, hlive⟩ := Slots.closeAll localFds hsplit hclose
  have hrefs : ({ t1 with live := t1.live.erase p } : Tables P).refs = h.tables.others p := by
    funext g
    unfold refs others own
    dsimp only
    rw [hft, hlive]
  have hslots : Slots h.slot { t1 with live := t1.live.erase p }
      ({ t1 with live := t1.live.erase p } : Tables P).refs := by
    rw [hrefs]
    exact hs.tables t1.fd_table _
  refine ⟨hslots, fun q hq fd hfd g hentry hg3 => ?_, ?_⟩
  · have hq' : q ∈ h.tables.live := hlive ▸ Finset.mem_of_mem_erase hq
    have hqp : q ≠ p := Finset.ne_of_mem_erase hq
    have hentry' : h.tables.fd_table q fd = some g := hft ▸ hentry
    obtain ⟨page, hpage⟩ := Option.ne_none_iff_exists'.1 (hc.std q hq' fd hfd g hentry' hg3)
    obtain ⟨hpos, hcnt⟩ := hc.slots.count g page hpage
    refine hslots.counted g hg3 ?_
    rw [hrefs]
    have heq := refs_eq hp g
    by_cases h0 : h.tables.own p g = 0
    · omega
    · have hmore : (h.tables.file_table g).fd_pos ≠ h.tables.own p g := fun h1 =>
        hcond g (Nat.pos_of_ne_zero h0) h1 q hq' hqp fd hfd hentry'
      omega
  · show (t1.live.erase p).card ≤ _
    rw [hlive]
    exact Nat.le_trans (Finset.card_le_card (Finset.erase_subset _ _)) hc.few

theorem Counted.fork {child : P} {t : Tables P} (hc : Counted h) (hp : p ∈ h.tables.live)
    (hchild : child ∉ h.tables.live) (hroom : h.tables.live.card < 2 ^ 52)
    (hrun : sysFork p child h.tables = .ok ((), t)) : Counted ⟨t, h.slot⟩ := by
  obtain ⟨⟨⟩, s1, hmodify, h1⟩ := Prog.bind_eq_ok.1 hrun
  have hs1 : s1 = { h.tables.withFds child (h.tables.fd_table p) with
      live := insert child h.tables.live } := Prog.modify_eq_ok.1 hmodify
  have hself : s1.fd_table child = h.tables.fd_table p := by
    rw [hs1]
    exact withFds_self _ _ _
  have hother : ∀ q ∈ h.tables.live, s1.fd_table q = h.tables.fd_table q := by
    intro q hq
    rw [hs1]
    exact withFds_other _ _ fun heq => hchild (heq ▸ hq)
  have hlive1 : s1.live = insert child h.tables.live := by rw [hs1]
  have hcard : s1.live.card ≤ 2 ^ 52 := by
    rw [hlive1, Finset.card_insert_of_notMem hchild]
    exact hroom
  have hsum : ∀ g, h.tables.refs g + countTo (s1.fd_table child) localFds g = s1.refs g := by
    intro g
    unfold refs
    rw [hlive1, Finset.sum_insert hchild, Nat.add_comm]
    congr 1
    refine Finset.sum_congr rfl fun q hq => ?_
    unfold own
    rw [hother q hq]
  have hstart : Slots h.slot s1 h.tables.refs := by
    rw [hs1]
    exact hc.slots.tables _ _
  have hfile : s1.file_table = h.tables.file_table := by rw [hs1]; rfl
  obtain ⟨hs, hft, hlive⟩ := Slots.updateInodeOpenCnts localFds hstart
    (fun fd hmem g hentry h3 => by
      rw [hself] at hentry
      rw [hfile]
      exact hc.used hp (mem_localFds.1 hmem).2 hentry h3)
    (fun g => hsum g ▸ refs_lt hcard g) h1
  have hrefs : t.refs = s1.refs := refs_congr hft hlive
  have hslots : Slots h.slot t t.refs := hs.congr (fun g _ => by rw [hrefs, hsum])
    (refs_lt (by rw [hlive]; exact hcard))
  refine ⟨hslots, fun q hq fd hfd g hentry hg3 => ?_, by rw [hlive]; exact hcard⟩
  -- the entry is one of the tables before the call, of the parent if the process is the child
  have hold : (h.tables.file_table g).fd_inode ≠ none := by
    dsimp only at hq hentry
    rw [hlive, hlive1] at hq
    rw [hft] at hentry
    rcases Finset.mem_insert.1 hq with rfl | hq
    · rw [hself] at hentry
      exact hc.std p hp fd hfd g hentry hg3
    · rw [hother q hq] at hentry
      exact hc.std q hq fd hfd g hentry hg3
  obtain ⟨page, hpage⟩ := Option.ne_none_iff_exists'.1 hold
  have hcnt := (hc.slots.count g page hpage).2
  refine hslots.counted g hg3 ?_
  rw [hrefs, ← hsum]
  omega

/-- Every step that keeps the counts right keeps the invariant. -/
theorem Counted.step (hc : Counted h) (hstep : CountedStep h c h') : Counted h' := by
  obtain ⟨hcond, hstep⟩ := hstep
  cases hstep with
  | pipe hlive hfds hslot hrun => exact hc.pipe hlive hfds hslot hrun
  | redirect hlive hrun => exact hc.redirect hlive hcond hrun
  | fork hlive hchild hroom hrun => exact hc.fork hlive hchild hroom hrun
  | close hlive hrun => exact hc.close hlive hcond hrun
  | exit hlive hrun => exact hc.exit hlive hcond hrun

end Counted

/-- A pipe has its page as long as a process has a descriptor for it, and no longer. -/
theorem pipe_lives {h h' : PipeState P} {cs : List (PipeCall P)} (hb : PipeBooted h)
    (hrun : Run CountedStep h cs h') : Lives h' :=
  (hrun.invariant (fun _ _ _ hc hstep => hc.step hstep) hb.counted).lives

/-- One new process. -/
def pipeStart : PipeState Unit := ⟨started (FS.boot Buf.zero), fun _ => none⟩

theorem pipeStart_booted : PipeBooted pipeStart where
  file_table _ := rfl
  fd_table _ _ _ := rfl
  freed _ := rfl
  slot _ := rfl
  few := by decide

/-- The process has called `sys_pipe` and got descriptors 3 and 4. -/
def pipeMade : PipeState Unit where
  tables :=
    let s := (pipeStart.tables.withPipe 3 fun _ => 0).withFds ()
      (Function.update (pipeStart.tables.fd_table ()) 3 (some 3))
    s.withFds () (Function.update (s.fd_table ()) 4 (some 3))
  slot := Function.update pipeStart.slot 0 (some 3)

theorem pipeStart_pipe : PipeStep pipeStart (.pipe ()) pipeMade := by
  have hfds : pipeStart.tables.TwoFree () := ⟨3, 4, by decide, by decide, by decide, rfl, rfl⟩
  have hrun : sysPipe () (fun _ => 0) pipeStart.tables = .ok ((some 3, some 4), pipeMade.tables) := rfl
  exact .pipe (Finset.mem_singleton_self ()) hfds rfl hrun

theorem pipe_lives_made : Run CountedStep pipeStart [.pipe ()] pipeMade ∧ Lives pipeMade := by
  have hrun : Run CountedStep pipeStart [.pipe ()] pipeMade := .single ⟨trivial, pipeStart_pipe⟩
  exact ⟨hrun, pipe_lives pipeStart_booted hrun⟩

/-- Standard output is redirected to the pipe, and both descriptors of the pipe are closed. -/
theorem not_pipe_lives_redirected : ∃ h, Run PipeStep pipeStart
    [.pipe (), .redirect () 1 4, .close () 3, .close () 4] h ∧ h.tables.fd_table () 1 = some 3 ∧
      h.tables.freed 0 = 1 ∧ ¬ Lives h := by
  have hmem : () ∈ pipeStart.tables.live := Finset.mem_singleton_self ()
  let s1 := pipeMade.tables.withFds () (Function.update (pipeMade.tables.fd_table ()) 1 (some 3))
  have hredirect : sysFdRedirect () 1 4 pipeMade.tables = .ok ((), s1) := rfl
  obtain ⟨s2, hclose3, hfile2, hfd12, hfd42, hlive2, hfreed2⟩ : ∃ s2, sysClose () 3 s1 = .ok (.returned (-1), s2) ∧
      s2.file_table 3 = ⟨1, PIPE_FLAG, some 0⟩ ∧ s2.fd_table () 1 = some 3 ∧ s2.fd_table () 4 = some 3 ∧
      s2.live = {()} ∧ s2.freed 0 = 0 :=
    ⟨_, sysClose_pipe_run (by decide) ⟨by decide, rfl, by decide⟩ rfl
      (releasePipe_more (n := 1) rfl (by decide) (by decide)), rfl, rfl, rfl, rfl, rfl⟩
  have hslot : s2.Slot () 4 3 := ⟨by decide, hfd42, by decide⟩
  have hpage : (s2.file_table 3).fd_inode = some 0 := by rw [hfile2]
  have hclose4 : sysClose () 4 s2 = .ok (.returned 0, _) :=
    sysClose_pipe_run (by decide) hslot (by rw [hfile2]) (releasePipe_last (by rw [hfile2]) hpage)
  have hrun := (((Run.single pipeStart_pipe).snoc (.redirect hmem hredirect)).snoc
    (.close (h := ⟨s1, pipeMade.slot⟩) hmem hclose3)).snoc
    (.close (h := ⟨s2, pipeMade.slot⟩) (hlive2 ▸ Finset.mem_singleton_self ()) hclose4)
  generalize hs3 : ({ s2 with
    file_table := _, fd_table := _, pages := _, freed := _ } : Tables Unit) = s3 at hrun
  have hfd13 : s3.fd_table () 1 = some 3 := by
    rw [← hs3]
    show Function.update s2.fd_table () (Function.update (s2.fd_table ()) 4 none) () 1 = some 3
    rw [Function.update_self, Function.update_of_ne (by decide)]
    exact hfd12
  have hfreed3 : s3.freed 0 = 1 := by
    rw [← hs3]
    show Function.update s2.freed 0 (s2.freed 0 + 1) 0 = 1
    rw [Function.update_self, hfreed2]
  have hlive3 : s3.live = {()} := by rw [← hs3, hlive2]
  refine ⟨_, hrun, hfd13, hfreed3, fun hlives => ?_⟩
  have hnew : ∀ page, pipeMade.slot page = some 3 → page ≤ 0 := by
    intro page hpage
    by_contra hne
    rw [show pipeMade.slot page = pipeStart.slot page from Function.update_of_ne (by omega) _ _] at hpage
    cases hpage
  have hreach := hlives.reachable 0 3 rfl hnew
    ⟨(), hlive3 ▸ Finset.mem_singleton_self (), 1, by decide, hfd13⟩
  have h0 := hreach.2
  rw [hfreed3] at h0
  cases h0

end Tables

end RecoverOS
