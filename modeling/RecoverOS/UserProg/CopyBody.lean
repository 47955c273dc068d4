import RecoverOS.UserProg.CopyPages

set_option autoImplicit false

/-! # The memory of a child (`userprog/fork.c`)

The loop of `copy_body_stack` over the pool, and what the child and its parent have when it is done. -/

namespace RecoverOS

open Paging

namespace Forking

/-! ## One page after the other -/

section Loop

variable {L S : Nat → Prop} {m0 m : Memory} {P C child_pml4 parent_pml4 buf_page a v n i cnt : Nat}

/-- The pages in `done` have been copied, and the child has no others. -/
structure CopiedSoFar (L S : Nat → Prop) (P C buf_page : Nat) (m0 m : Memory) (done : Nat → Prop) : Prop where
  apart : Apart L S P C buf_page m0 m
  cr3_eq : m.cr3 = P
  copies : ∀ a, Lower a → done (a / 4096) → HasCopy P C m0 m a
  none : ∀ a, Lower a → ¬ done (a / 4096) → (m.under C).table a 4 = none

theorem HasCopy.of_page {b : Nat} (h : HasCopy P C m0 m b) (hpage : a / 4096 = b / 4096) :
    HasCopy P C m0 m a := by
  obtain ⟨f, g, hf, hg, hword⟩ := h
  exact ⟨f, g, (Memory.table_page hpage).trans hf, (Memory.table_page hpage).trans hg, hword⟩

/-- The step lemma. -/
theorem CopiedSoFar.copyPages {done : Nat → Prop} (h : CopiedSoFar L S P C buf_page m0 m done)
    (hr : ReadyToCopy L S P C child_pml4 parent_pml4 buf_page m0) (hcnt : cnt ≤ STACK_PAGE_CNT)
    (hv : v % 4096 = 0) (hlower : ∀ j < cnt, Lower (v + 4096 * j))
    (hparent : ∀ j < cnt, ∃ f, (m0.under P).table (v + 4096 * j) 4 = some f)
    (hnew : ∀ j < cnt, ¬ done (v / 4096 + j)) (hfree : 4 * cnt ≤ m.freeFrames) :
    ∃ m', Forking.copyPages child_pml4 parent_pml4 buf_page v cnt m = .ok ((), m') ∧
      CopiedSoFar L S P C buf_page m0 m' (fun p => done p ∨ ∃ j < cnt, p = v / 4096 + j) ∧
      m.freeFrames ≤ m'.freeFrames + 4 * cnt := by
  have hpage : ∀ j, (v + 4096 * j) / 4096 = v / 4096 + j := fun j => by omega
  obtain ⟨m', hrun, hapart, hcopied⟩ := h.apart.copyPages hr h.cr3_eq hcnt hv hlower hparent
    (fun j hj => h.none _ (hlower j hj) (by rw [hpage]; exact hnew j hj)) hfree
  refine ⟨m', hrun, ⟨hapart, hcopied.cr3_eq, fun a ha hdone => ?_, fun a ha hnot => ?_⟩, hcopied.frames⟩
  · obtain hold | ⟨j, hj, heq⟩ := hdone
    · have hne : ∀ j < cnt, a / 4096 ≠ v / 4096 + j := fun j hj heq => hnew j hj (heq ▸ hold)
      obtain ⟨htable, hword⟩ := hcopied.others a ha hne
      obtain ⟨f, g, hf, hg, hsame⟩ := h.copies a ha hold
      exact ⟨f, g, hf, htable.trans hg, fun i hi => (congrFun (hword g hg) i).trans (hsame i hi)⟩
    · exact (hcopied.copies j hj).of_page (heq.trans (hpage j).symm)
  · obtain ⟨htable, -⟩ := hcopied.others a ha fun j hj heq => hnot (.inr ⟨j, hj, heq⟩)
    exact htable.trans (h.none a ha fun hdone => hnot (.inl hdone))

/-- Bit `k` of the pool is set, for some `k` from `i` on with `n` left, and `p` is its page. -/
def PoolPage (pool : VirtPool) (i n p : Nat) : Prop :=
  ∃ k, i ≤ k ∧ k < i + n ∧ bitmapRead pool.pool_bitmap k = true ∧ p = pool.start / 4096 + k

/-- The number of bits that are set from `i` on with `n` left. -/
def bitsSet (pool : VirtPool) : Nat → Nat → Nat
  | 0, _ => 0
  | n + 1, i => (bitmapRead pool.pool_bitmap i).toNat + bitsSet pool n (i + 1)

theorem CopiedSoFar.congr {done done' : Nat → Prop} (h : CopiedSoFar L S P C buf_page m0 m done)
    (hiff : ∀ p, done' p ↔ done p) : CopiedSoFar L S P C buf_page m0 m done' where
  apart := h.apart
  cr3_eq := h.cr3_eq
  copies := fun a ha hdone => h.copies a ha ((hiff _).1 hdone)
  none := fun a ha hnot => h.none a ha fun hdone => hnot ((hiff _).2 hdone)

theorem poolPage_succ {pool : VirtPool} {p : Nat} : PoolPage pool i (n + 1) p ↔
    (bitmapRead pool.pool_bitmap i = true ∧ p = pool.start / 4096 + i) ∨ PoolPage pool (i + 1) n p := by
  constructor
  · rintro ⟨k, hk, hlt, hset, rfl⟩
    by_cases hki : k = i
    · subst hki
      exact .inl ⟨hset, rfl⟩
    · exact .inr ⟨k, by omega, by omega, hset, rfl⟩
  · rintro (⟨hset, rfl⟩ | ⟨k, hk, hlt, hset, rfl⟩)
    · exact ⟨i, Nat.le_refl i, by omega, hset, rfl⟩
    · exact ⟨k, by omega, by omega, hset, rfl⟩

/-- The run lemma: the loop of `copy_body_stack`. -/
theorem CopiedSoFar.copyPoolFrom {done : Nat → Prop} {pool : VirtPool}
    (h : CopiedSoFar L S P C buf_page m0 m done)
    (hr : ReadyToCopy L S P C child_pml4 parent_pml4 buf_page m0) (hstart : pool.start % 4096 = 0)
    (hlower : Lower (pool.start + 4096 * (i + n)))
    (hparent : ∀ k, i ≤ k → k < i + n → bitmapRead pool.pool_bitmap k = true →
      ∃ f, (m0.under P).table (pool.start + 4096 * k) 4 = some f)
    (hnew : ∀ k, i ≤ k → k < i + n → ¬ done (pool.start / 4096 + k))
    (hfree : 4 * bitsSet pool n i ≤ m.freeFrames) :
    ∃ m', Forking.copyPoolFrom child_pml4 parent_pml4 buf_page pool n i m = .ok ((), m') ∧
      CopiedSoFar L S P C buf_page m0 m' fun p => done p ∨ PoolPage pool i n p := by
  induction n generalizing m i done with
  | zero =>
      refine ⟨m, rfl, h.apart, h.cr3_eq, fun a ha hdone => ?_, fun a ha hnot => ?_⟩
      · obtain hold | ⟨k, hk, hlt, -⟩ := hdone
        · exact h.copies a ha hold
        · omega
      · exact h.none a ha fun hdone => hnot (.inl hdone)
  | succ n ih =>
      rw [Forking.copyPoolFrom]
      by_cases hset : bitmapRead pool.pool_bitmap i = true
      · rw [if_pos hset]
        have hbits : bitsSet pool (n + 1) i = 1 + bitsSet pool n (i + 1) := by
          rw [bitsSet, hset]
          rfl
        have hpage : (i * 4096 + pool.start) / 4096 = pool.start / 4096 + i := by omega
        have hmapped : ∀ j < 1, ∃ f, (m0.under P).table (i * 4096 + pool.start + 4096 * j) 4 = some f := by
          intro j hj
          obtain ⟨f, hf⟩ := hparent i (Nat.le_refl i) (by omega) hset
          have heq : i * 4096 + pool.start + 4096 * j = pool.start + 4096 * i := by omega
          exact ⟨f, by rw [heq, hf]⟩
        have hlow : ∀ j < 1, Lower (i * 4096 + pool.start + 4096 * j) := fun j hj => hlower.mono (by omega)
        have hnone : ∀ j < 1, ¬ done ((i * 4096 + pool.start) / 4096 + j) := by
          intro j hj
          obtain rfl : j = 0 := by omega
          rw [hpage]
          exact hnew i (Nat.le_refl i) (by omega)
        obtain ⟨m1, hrun1, h1, hframes1⟩ :=
          h.copyPages hr (by decide) (by omega) hlow hmapped hnone (by omega)
        obtain ⟨m', hrun, h'⟩ := ih (i := i + 1) h1 (hlower.mono (by omega))
          (fun k hk hlt => hparent k (by omega) (by omega))
          (fun k hk hlt hdone => by
            obtain hold | ⟨j, hj, heq⟩ := hdone
            · exact hnew k (by omega) (by omega) hold
            · omega)
          (by omega)
        refine ⟨m', (Prog.bind_of_ok hrun1 _).trans hrun, h'.congr fun p => ?_⟩
        rw [poolPage_succ, hpage, or_assoc]
        refine or_congr_right (or_congr_left ⟨fun hp => ⟨0, Nat.one_pos, hp.2⟩, ?_⟩)
        rintro ⟨j, hj, rfl⟩
        obtain rfl : j = 0 := by omega
        exact ⟨hset, rfl⟩
      · rw [if_neg hset]
        have hbits : bitsSet pool (n + 1) i = bitsSet pool n (i + 1) := by
          rw [bitsSet, Bool.eq_false_iff.2 hset]
          exact Nat.zero_add _
        obtain ⟨m', hrun, h'⟩ := ih (i := i + 1) h (hlower.mono (by omega))
          (fun k hk hlt => hparent k (by omega) (by omega)) (fun k hk hlt => hnew k (by omega) (by omega))
          (by omega)
        refine ⟨m', hrun, h'.congr fun p => or_congr_right ?_⟩
        rw [poolPage_succ]
        exact ⟨fun hp => hp.resolve_left fun hc => hset hc.1, .inr⟩

end Loop

/-! ## The pml4 of the child -/

section Pml4

variable {L S : Nat → Prop} {m m' : Memory} {P C v parent_pml4 buf_page : Nat}

/-- Only frame `C` has been written to. -/
structure OnlyFrame (C : Nat) (m m' : Memory) : Prop where
  cr3_eq : m'.cr3 = m.cr3
  pool_eq : m'.phy_pool = m.phy_pool
  word : ∀ t, t ≠ C → m'.word t = m.word t

theorem OnlyFrame.table (h : OnlyFrame C m m') (hC : Fresh m.word m.cr3 C) (a : Nat) :
    ∀ j ≤ 4, m'.table a j = m.table a j := by
  unfold Memory.table
  rw [h.cr3_eq]
  exact table_congr fun j hj t ht =>
    congrFun (h.word t fun heq => hC a j (by omega) (ht.trans (congrArg _ heq))) _

theorem OnlyFrame.kernelPage {a f : Nat} (h : OnlyFrame C m m') (hC : Fresh m.word m.cr3 C)
    (ha : KernelPage L m a f) : KernelPage L m' a f where
  mem := ha.mem
  upper := ha.upper
  page := (h.table hC a 4 (Nat.le_refl 4)).trans ha.page
  entry := by
    obtain ⟨e, he, hentry⟩ := ha.entry
    obtain ⟨t, ht, rfl⟩ := Option.map_eq_some_iff.1 hentry
    refine ⟨_, he, Option.map_eq_some_iff.2 ⟨t, (h.table hC a 3 (by omega)).trans ht, ?_⟩⟩
    exact congrFun (h.word t fun heq => hC a 3 (Nat.le_refl 3) (ht.trans (congrArg _ heq))) _

/-- The stores of `create_pml4` make the address space of a child: the kernel half of the parent, and a lower
    half without pages. -/
theorem fillPml4_childRoot (hp : m.Pages L S) (hsmall : ∀ t i, m.word t i < 2 ^ 64)
    (hv : KernelPage L m v C) (hv0 : v % 4096 = 0) (hlt : C < 2 ^ 40) (hC : Fresh m.word m.cr3 C) :
    ∃ m', fillPml4 v m = .ok ((), m') ∧ OnlyFrame C m m' ∧ m'.ChildRoot m.cr3 C ∧
      ∀ t i, m'.word t i < 2 ^ 64 := by
  have hcan := hp.canonical v hv.mem
  have hself := hp.layout.self
  -- an empty table
  let m1 : Memory := { m with word := zeroFrame m.word C }
  have hrun1 : memsetPage v m = .ok ((), m1) := by
    have htrans : m.translate v = some (4096 * C) := by
      have hword := translate_word (n := 0) hcan hv0 (by omega) hv.page
      exact hword
    have hframe : 4096 * C / 4096 = C := by omega
    simp [memsetPage, htrans, hframe, m1]
  have h1 : OnlyFrame C m m1 := ⟨rfl, rfl, fun t ht => Function.update_of_ne ht _ _⟩
  have hC1 : Fresh m1.word m1.cr3 C :=
    fun a j hj hread => hC a j hj ((h1.table hC a j (by omega)).symm.trans hread)
  have hsmall1 : ∀ t i, m1.word t i < 2 ^ 64 := fun t i => by
    show zeroFrame m.word C t i < 2 ^ 64
    rw [zeroFrame_apply]
    split
    · exact Nat.two_pow_pos 64
    · exact hsmall t i
  have hPC : m.cr3 ≠ C := fun heq => hC 0 0 (by omega) (congrArg some heq)
  have hself1 : SelfMapped m1.word m1.cr3 := by
    unfold SelfMapped
    show leads 0 (m1.word m.cr3 511) = some m.cr3
    rw [h1.word _ hPC]
    exact hself
  -- the kernel half, read through the last entry of the table in use
  have hwindow : m1.table 0xfffffffffffff000 4 = some m1.cr3 := by
    refine table_window hself1 fun j hj => ?_
    interval_cases j <;> rfl
  have hrun2 : copyWords (v + 8 * 256) (0xfffffffffffff000 + 8 * 256) 256 m1 =
      .ok ((), copied m1 C m1.cr3 256 256) :=
    copyWords_page hcan (by decide) hv0 (by decide) ((h1.table hC v 4 (Nat.le_refl 4)).trans hv.page) hwindow
      hC1 (hsmall1 _) (Nat.le_refl 512)
  have h2 : OnlyFrame C m (copied m1 C m1.cr3 256 256) :=
    ⟨rfl, rfl, fun t ht => (copied_other ht).trans (h1.word t ht)⟩
  have hv2 := h2.kernelPage hC hv
  obtain ⟨e, he, hentry⟩ := hv2.entry
  have hself2 : SelfMapped (copied m1 C m1.cr3 256 256).word (copied m1 C m1.cr3 256 256).cr3 := by
    unfold SelfMapped
    show leads 0 ((copied m1 C m1.cr3 256 256).word m.cr3 511) = some m.cr3
    rw [h2.word _ hPC]
    exact hself
  have hrun3 : addrV2p v (copied m1 C m1.cr3 256 256) = .ok (4096 * C, copied m1 C m1.cr3 256 256) :=
    addrV2p_of_translate hself2 (translate_word (n := 0) hcan hv0 (by omega) hv2.page) hentry he
  have hrun4 := store_word (n := 511) (e := 4096 * C + 7) hcan hv0 (by omega) hv2.page
  have hval : (4096 * C + 7) % 2 ^ 64 = 4096 * C + 7 := Nat.mod_eq_of_lt (by omega)
  rw [hval] at hrun4
  let m4 : Memory := { copied m1 C m1.cr3 256 256 with
    word := setWord (copied m1 C m1.cr3 256 256).word C 511 (4096 * C + 7) }
  refine ⟨m4, ?_, ⟨rfl, rfl, fun t ht => ?_⟩, ⟨hlt, fun i hi => ?_, fun i hi hi' => ?_, ?_⟩, fun t i => ?_⟩
  · rw [fillPml4, Prog.bind_of_ok hrun1, Prog.bind_of_ok hrun2, Prog.bind_of_ok hrun3]
    exact hrun4
  · funext i
    exact (setWord_ne fun hc => ht hc.1).trans (congrFun (h2.word t ht) i)
  · refine (setWord_ne (by omega)).trans ?_
    rw [copied_apply, if_neg (by omega)]
    show zeroFrame m.word C C i = 0
    rw [zeroFrame_apply, if_pos rfl]
  · have hupper : setWord (copied m1 C m1.cr3 256 256).word C 511 (4096 * C + 7) C i = m1.word m.cr3 i := by
      rw [setWord_ne (by omega), copied_apply, if_pos (by omega)]
    refine hupper.trans ?_
    rw [h1.word _ hPC]
    exact ((setWord_ne fun hc => hPC hc.1).trans (congrFun (h2.word _ hPC) i)).symm
  · exact (setWord_apply _ _ _ _ _ _).trans (if_pos ⟨rfl, rfl⟩)
  · show setWord (copied m1 C m1.cr3 256 256).word C 511 (4096 * C + 7) t i < 2 ^ 64
    rw [setWord_apply]
    split
    · omega
    · rw [copied_apply]
      split
      · exact hsmall1 _ i
      · exact hsmall1 t i

/-- After `create_pml4` everything is ready for `copy_body_stack`. -/
theorem fillPml4_ready (hL : Memory.Halves L) (hS : ∀ a, Lower a → S a) (hp : m.Pages L S)
    (hown : m.LowerOwn m.cr3) (hsmall : ∀ t i, m.word t i < 2 ^ 64) (hv : KernelPage L m v C)
    (hv0 : v % 4096 = 0) (hlt : C < 2 ^ 40) (hC : Fresh m.word m.cr3 C)
    (hpage : ∀ b, S b → m.table b 4 ≠ some C) (hparent : KernelPage L m parent_pml4 m.cr3)
    (haligned : buf_page % 4096 = 0)
    (hbuf : ∀ j < STACK_PAGE_CNT, S (buf_page + 4096 * j) ∧ index (buf_page + 4096 * j) 0 = 256 ∧
      ∃ g, m.table (buf_page + 4096 * j) 4 = some g) :
    ∃ m', fillPml4 v m = .ok ((), m') ∧ OnlyFrame C m m' ∧
      ReadyToCopy L S m.cr3 C v parent_pml4 buf_page m' := by
  obtain ⟨m', hrun, honly, hroot, hsmall'⟩ := fillPml4_childRoot hp hsmall hv hv0 hlt hC
  have hunder : m'.under m.cr3 = m' := by rw [← honly.cr3_eq, Memory.under_self]
  have htable := honly.table hC
  have hpool : m.Shrinks m' := by
    have heq := honly.pool_eq
    exact ⟨by rw [heq], by rw [heq], fun i hi => by rwa [heq]⟩
  have hpages : m'.Pages L S := hp.congr honly.cr3_eq hpool fun a j hj t ht =>
    honly.word t fun heq => hC a j hj (ht.trans (congrArg _ heq))
  have hown' : m'.LowerOwn m.cr3 := hown.of_tables fun a j hj => by
    rw [hunder, htable a j (by omega)]
    rfl
  have hC' : Fresh m'.word m.cr3 C := by
    have hfresh : Fresh m'.word m'.cr3 C :=
      fun a j hj hread => hC a j hj ((htable a j (by omega)).symm.trans hread)
    rwa [honly.cr3_eq] at hfresh
  have hfree : ¬ m'.FreeIn C := fun hc => hp.taken v C hv.mem hv.page (hpool.freeIn hc)
  refine ⟨m', hrun, honly, {
    forked := ?_
    cr3_eq := honly.cr3_eq
    small := hsmall'
    child_pml4 := ?_
    parent_pml4 := ?_
    aligned := haligned
    buffer := fun j hj => ?_
    root := hroot }⟩
  · refine hroot.forked hL hS (by rwa [hunder]) hown' hC' hfree fun b hb hread => ?_
    rw [hunder, htable b 4 (Nat.le_refl 4)] at hread
    exact hpage b hb hread
  · rw [hunder]
    exact honly.kernelPage hC hv
  · rw [hunder]
    exact honly.kernelPage hC hparent
  · obtain ⟨hb, hup, g, hg⟩ := hbuf j hj
    rw [hunder, htable _ 4 (Nat.le_refl 4)]
    exact ⟨hb, hup, g, hg⟩

end Pml4

/-! ## The child gets a copy -/

/-- The first page of the user stack. -/
abbrev USER_STACK_PAGE : Nat := (USER_STACK_VADDR - STACK_PAGE_CNT * 4096) / 4096

/-- The pages of a process: its stack, and what its pool has handed out. -/
def UserPage (pool : VirtPool) (p : Nat) : Prop :=
  (∃ j < STACK_PAGE_CNT, p = USER_STACK_PAGE + j) ∨ PoolPage pool 0 pool.pool_bitmap.size p

section Main

variable {L S : Nat → Prop} {P C child_pml4 parent_pml4 buf_page : Nat} {pool : VirtPool} {m : Memory}

theorem exists_copyBodyStack (hr : ReadyToCopy L S P C child_pml4 parent_pml4 buf_page m)
    (hstart : pool.start % 4096 = 0)
    (hinside : pool.start + 4096 * pool.pool_bitmap.size ≤ USER_STACK_VADDR - STACK_PAGE_CNT * 4096)
    (hmapped : ∀ a, UserPage pool (a / 4096) → (m.under P).table a 4 ≠ none)
    (hfree : 4 * (STACK_PAGE_CNT + bitsSet pool pool.pool_bitmap.size 0) ≤ m.freeFrames) :
    ∃ m', copyBodyStack child_pml4 parent_pml4 pool buf_page m = .ok ((), m') ∧
      CopiedSoFar L S P C buf_page m m' (UserPage pool) := by
  have hlow : ∀ j < STACK_PAGE_CNT, Lower (USER_STACK_VADDR - STACK_PAGE_CNT * 4096 + 4096 * j) :=
    fun j hj => by
      simp only [Lower, USER_STACK_VADDR, STACK_PAGE_CNT] at hj ⊢
      omega
  have hpage : ∀ j, (USER_STACK_VADDR - STACK_PAGE_CNT * 4096 + 4096 * j) / 4096 = USER_STACK_PAGE + j := by
    intro j
    simp only [USER_STACK_PAGE, USER_STACK_VADDR, STACK_PAGE_CNT]
    omega
  have hbefore : CopiedSoFar L S P C buf_page m m fun _ => False := {
    apart := hr.start
    cr3_eq := hr.cr3_eq
    copies := fun _ _ hdone => hdone.elim
    none := fun a ha _ => hr.root.lower_none ha 3 }
  -- the stack
  obtain ⟨m1, hrun1, h1, hframes1⟩ := hbefore.copyPages hr (Nat.le_refl STACK_PAGE_CNT) rfl hlow
    (fun j hj => Option.ne_none_iff_exists'.1 (hmapped _ (.inl ⟨j, hj, hpage j⟩))) (fun _ _ hdone => hdone)
    (by omega)
  -- the pool
  have hstack : pool.start / 4096 + pool.pool_bitmap.size ≤ USER_STACK_PAGE := by
    simp only [USER_STACK_PAGE, USER_STACK_VADDR, STACK_PAGE_CNT] at hinside ⊢
    omega
  have hend : Lower (pool.start + 4096 * (0 + pool.pool_bitmap.size)) := by
    simp only [Lower, USER_STACK_VADDR, STACK_PAGE_CNT] at hinside ⊢
    omega
  obtain ⟨m', hrun, h'⟩ := h1.copyPoolFrom (n := pool.pool_bitmap.size) (i := 0) hr hstart hend
    (fun k _ hk hset => by
      refine Option.ne_none_iff_exists'.1 (hmapped _ (.inr ⟨k, Nat.zero_le k, hk, hset, ?_⟩))
      omega)
    (fun k _ hk hdone => by
      obtain hfalse | ⟨j, -, heq⟩ := hdone
      · exact hfalse
      · have heq' : pool.start / 4096 + k = USER_STACK_PAGE + j := heq
        omega)
    (by omega)
  refine ⟨m', (Prog.bind_of_ok hrun1 _).trans hrun, h'.congr fun p => ?_⟩
  rw [false_or]
  exact Iff.rfl

/-- With four frames for every page, `copy_body_stack` returns. The child then has a page of its own for every
    page of the parent, in a frame that was free, with the same content, and no others; the parent's page table
    is loaded, every walk of it ends where it did, and of the frames that were in use only the pml4 of the child
    and the buffer have been written to. -/
theorem copyBodyStack_copies (hr : ReadyToCopy L S P C child_pml4 parent_pml4 buf_page m)
    (hstart : pool.start % 4096 = 0)
    (hinside : pool.start + 4096 * pool.pool_bitmap.size ≤ USER_STACK_VADDR - STACK_PAGE_CNT * 4096)
    (hmapped : ∀ a, UserPage pool (a / 4096) → (m.under P).table a 4 ≠ none)
    (hfree : 4 * (STACK_PAGE_CNT + bitsSet pool pool.pool_bitmap.size 0) ≤ m.freeFrames) :
    ∃ m', copyBodyStack child_pml4 parent_pml4 pool buf_page m = .ok ((), m') ∧ m'.cr3 = P ∧
      (∀ a, ∀ j ≤ 4, (m'.under P).table a j = (m.under P).table a j) ∧
      (∀ t, ¬ m.FreeIn t → t ≠ C → ¬ InBuffer buf_page (m.under P) t → m'.word t = m.word t) ∧
      (∀ a, Lower a → UserPage pool (a / 4096) → ∃ f g, (m.under P).table a 4 = some f ∧
        (m'.under C).table a 4 = some g ∧ m.FreeIn g ∧ ∀ i < 512, m'.word g i = m.word f i) ∧
      (∀ a, Lower a → ¬ UserPage pool (a / 4096) → (m'.under C).table a 4 = none) ∧
      ∀ a b g, Lower a → Lower b → (m'.under C).table a 4 = some g → (m'.under C).table b 4 = some g →
        a / 4096 = b / 4096 := by
  obtain ⟨m', hrun, hdone⟩ := exists_copyBodyStack hr hstart hinside hmapped hfree
  have hforked := hdone.apart.forked
  refine ⟨m', hrun, hdone.cr3_eq, hdone.apart.walks, hdone.apart.kept, fun a ha huser => ?_, hdone.none,
    fun a b g ha hb hga hgb => ?_⟩
  · obtain ⟨f, g, hf, hg, hword⟩ := hdone.copies a ha huser
    exact ⟨f, g, hf, hg, hdone.apart.new a ha 3 (Nat.le_refl 3) g hg, hword⟩
  · exact hforked.child.apart a b g (hforked.user a ha) (hforked.halves.lower b hb) hga hgb

end Main

/-! ## A parent with one page and a stack -/

/-- The present entries of the parent's tables, as table, index and frame: three tables for page 1, for the
    stack and for the kernel pages, whose last table maps the buffer, the new pml4 and the pml4 in use. -/
def forkEdges : List (Nat × Nat × Nat) :=
  [(1, 0, 8), (8, 0, 9), (9, 0, 10), (10, 1, 25), (1, 255, 2), (2, 511, 3), (3, 511, 4), (4, 510, 20),
    (4, 511, 21), (1, 256, 5), (5, 0, 6), (6, 0, 7), (7, 0, 22), (7, 1, 23), (7, 2, 24), (7, 3, 1), (1, 511, 1)]

/-- The memory before the fork, with 41 all over page 1 and 64 free frames from frame 32 on. -/
def forkMemory : Memory where
  word t j :=
    if t = 25 then 41
    else ((forkEdges.find? fun e => e.1 = t ∧ e.2.1 = j).map fun e => 4096 * e.2.2 + 7).getD 0
  cr3 := 1
  phy_pool := { start := 4096 * 32, pool_bitmap := { bytes_len := 8, bits := Buf.zero } }

/-- The indices that lead to a table. -/
def forkPath : Nat → List Nat
  | 2 => [255]
  | 3 => [255, 511]
  | 4 => [255, 511, 511]
  | 5 => [256]
  | 6 => [256, 0]
  | 7 => [256, 0, 0]
  | 8 => [0]
  | 9 => [0, 0]
  | 10 => [0, 0, 0]
  | _ => []

/-- The addresses of the four kernel pages, and of the buffer. -/
def forkKernel (a : Nat) : Prop := 0xffff800000000000 ≤ a ∧ a < 0xffff800000004000

def forkBuffer (a : Nat) : Prop := 0xffff800000000000 ≤ a ∧ a < 0xffff800000002000

theorem forkMemory_word {f : Nat} (hf : f ≠ 25) (i : Nat) : forkMemory.word f i =
    ((forkEdges.find? fun e => e.1 = f ∧ e.2.1 = i).map fun e => 4096 * e.2.2 + 7).getD 0 := if_neg hf

theorem forkMemory_edge {k f i t : Nat} (hf : f ≠ 25) (h : leads k (forkMemory.word f i) = some t) :
    (f, i, t) ∈ forkEdges := by
  cases hfind : forkEdges.find? fun e => e.1 = f ∧ e.2.1 = i with
  | none =>
      have hword : forkMemory.word f i = 0 := by
        rw [forkMemory_word hf, hfind]
        rfl
      rw [hword, leads_absent (by omega)] at h
      cases h
  | some e =>
      have hword : forkMemory.word f i = 4096 * e.2.2 + 7 := by
        rw [forkMemory_word hf, hfind]
        rfl
      have hmem := List.mem_of_find?_eq_some hfind
      have hkey := List.find?_some hfind
      simp only [decide_eq_true_eq] at hkey
      rw [hword] at h
      obtain ⟨-, -, hframe⟩ := leads_eq_some.1 h
      have hsmall : ∀ e ∈ forkEdges, e.2.2 < 32 := by decide
      have hlt := hsmall e hmem
      obtain rfl : e.2.2 = t := by omega
      obtain ⟨rfl, rfl⟩ := hkey
      exact hmem

theorem forkMemory_leads {k f i t : Nat} (h : (f, i, t) ∈ forkEdges) :
    leads k (forkMemory.word f i) = some t := by
  have hall : ∀ e ∈ forkEdges, forkMemory.word e.1 e.2.1 = 4096 * e.2.2 + 7 ∧ e.2.2 < 32 := by decide
  obtain ⟨hword, hlt⟩ := hall _ h
  have hword' : forkMemory.word f i = 4096 * t + 7 := hword
  have hlt' : t < 32 := hlt
  rw [hword']
  exact leads_eq_some.2 (by omega)

/-- No walk meets a table earlier than its path is long. -/
theorem forkMemory_level {a j t : Nat} (hj : j ≤ 3) (h : forkMemory.table a j = some t) :
    1 ≤ t ∧ t ≤ 10 ∧ (forkPath t).length ≤ j := by
  have hstep : ∀ e ∈ forkEdges, (forkPath e.1).length ≤ 2 →
      1 ≤ e.2.2 ∧ e.2.2 ≤ 10 ∧ (forkPath e.2.2).length ≤ (forkPath e.1).length + 1 := by decide
  induction j generalizing t with
  | zero =>
      cases h
      decide
  | succ j ih =>
      obtain ⟨f, hf, hlead⟩ := table_succ.1 h
      obtain ⟨-, hf10, hlen⟩ := ih (by omega) hf
      obtain ⟨h1, h10, hlen'⟩ := hstep _ (forkMemory_edge (by omega) hlead) (by dsimp only; omega)
      exact ⟨h1, h10, by dsimp only at hlen'; omega⟩

/-- But by its last entry, the pml4 is met at the start only. -/
theorem forkMemory_path {a j t : Nat} (ha : index a 0 < 511) (hj : j ≤ 3) (h : forkMemory.table a j = some t) :
    1 ≤ t ∧ t ≤ 10 ∧ forkPath t = (List.range j).map (index a) := by
  have hstep : ∀ e ∈ forkEdges, (forkPath e.1).length ≤ 2 → (e.1 = 1 → e.2.1 < 511) →
      forkPath e.2.2 = forkPath e.1 ++ [e.2.1] := by decide
  induction j generalizing t with
  | zero =>
      cases h
      exact ⟨by decide, by decide, rfl⟩
  | succ j ih =>
      have hlevel := forkMemory_level hj h
      obtain ⟨f, hf, hlead⟩ := table_succ.1 h
      obtain ⟨-, hf10, hpath⟩ := ih (by omega) hf
      have hlen : (forkPath f).length = j := by rw [hpath, List.length_map, List.length_range]
      refine ⟨hlevel.1, hlevel.2.1, ?_⟩
      rw [List.range_succ, List.map_append, ← hpath]
      refine hstep _ (forkMemory_edge (by omega) hlead) (by dsimp only; omega) fun hf1 => ?_
      have hf1' : f = 1 := hf1
      subst hf1'
      obtain rfl : j = 0 := hlen.symm
      exact ha

/-- The lower half and the four kernel pages. -/
def forkAddr (a : Nat) : Prop := Lower a ∨ forkKernel a

/-- The lower half and the buffer. -/
def forkPage (a : Nat) : Prop := Lower a ∨ forkBuffer a

theorem forkKernel.index_eq {a : Nat} (h : forkKernel a) : index a 0 = 256 := by
  obtain ⟨hle, hlt⟩ := h
  simp only [index]
  omega

theorem forkAddr.index_lt {a : Nat} (h : forkAddr a) : index a 0 < 511 := by
  obtain hlow | hup := h
  · have hlt := hlow.index_lt
    omega
  · rw [hup.index_eq]
    decide

theorem forkAddr.canonical {a : Nat} (h : forkAddr a) : Canonical a := by
  obtain hlow | ⟨hle, hlt⟩ := h
  · exact .inl hlow
  · exact .inr (by omega)

theorem forkMemory_free {g : Nat} (h : forkMemory.FreeIn g) : 32 ≤ g := by
  obtain ⟨i, -, -, hstart⟩ := h
  have hstart' : 4096 * 32 + 4096 * i = 4096 * g := hstart
  omega

theorem forkMemory_halves : Memory.Halves forkAddr where
  lower := fun _ ha => .inl ha
  upper := fun _ ha => ha.imp_right forkKernel.index_eq

theorem forkMemory_layout : forkMemory.Layout forkAddr where
  self := forkMemory_leads (by decide)
  unused := fun i hi _ => by
    have hi' : i < 64 := hi
    refine ⟨32 + i, by omega, ?_, fun a j hj hread => ?_⟩
    · show 4096 * 32 + 4096 * i = 4096 * (32 + i)
      omega
    · have hlevel := forkMemory_level hj hread
      omega
  plain := fun a _ k hk f hread hpres => by
    have hf : f ≠ 25 := by
      have hlevel := forkMemory_level (by omega) hread
      omega
    cases hfind : forkEdges.find? fun e => e.1 = f ∧ e.2.1 = index a k with
    | none =>
        rw [forkMemory_word hf, hfind] at hpres
        cases hpres
    | some e =>
        have hkey := List.find?_some hfind
        simp only [decide_eq_true_eq] at hkey
        obtain ⟨rfl, hi⟩ := hkey
        have hmem : (e.1, index a k, e.2.2) ∈ forkEdges := hi ▸ List.mem_of_find?_eq_some hfind
        have hnext : forkMemory.table a (k + 1) = some e.2.2 := table_succ.2 ⟨_, hread, forkMemory_leads hmem⟩
        rw [hnext]
        exact Option.some_ne_none _
  separate := fun a b ha hb j hj k hk f hfa hfb => by
    have ha' := (forkMemory_path ha.index_lt hj hfa).2.2
    have hb' := (forkMemory_path hb.index_lt hk hfb).2.2
    have hlen := congrArg List.length (ha'.symm.trans hb')
    simp only [List.length_map, List.length_range] at hlen
    subst hlen
    refine ⟨rfl, fun i hi => ?_⟩
    exact List.map_inj_left.1 (ha'.symm.trans hb') i (List.mem_range.2 hi)
  deep := fun b hb k hk f hfb a j hj hfa => by
    have hb' := congrArg List.length (forkMemory_path hb.index_lt hk hfb).2.2
    have ha' := (forkMemory_level hj hfa).2.2
    simp only [List.length_map, List.length_range] at hb'
    omega

/-- The last table of a page, and the entry in it. -/
theorem forkMemory_page {a g : Nat} (ha : forkAddr a) (h : forkMemory.table a 4 = some g) :
    ∃ f, forkPath f = [index a 0, index a 1, index a 2] ∧ (f, index a 3, g) ∈ forkEdges := by
  obtain ⟨f, hf, hlead⟩ := table_succ.1 h
  have hpath := forkMemory_path ha.index_lt (Nat.le_refl 3) hf
  exact ⟨f, hpath.2.2, forkMemory_edge (by omega) hlead⟩

/-- The pages of the stack, of the pool and of the buffer are no tables, and none is one of the two other
    pml4s. -/
theorem forkMemory_frame {a g : Nat} (ha : forkPage a) (h : forkMemory.table a 4 = some g) :
    20 ≤ g ∧ g ≠ 24 ∧ g ≠ 26 := by
  have hframe : ∀ e ∈ forkEdges, (forkPath e.1).length = 3 →
      (20 ≤ e.2.2 ∧ e.2.2 ≠ 24 ∧ e.2.2 ≠ 26) ∨ forkPath e.1 = [256, 0, 0] ∧ 2 ≤ e.2.1 := by decide
  have haddr : forkAddr a := ha.imp_right fun h => ⟨h.1, by have hlt := h.2; omega⟩
  obtain ⟨f, hpath, hmem⟩ := forkMemory_page haddr h
  obtain hok | ⟨hkernel, hidx⟩ := hframe _ hmem (congrArg List.length hpath)
  · exact hok
  · exfalso
    have hlist : [index a 0, index a 1, index a 2] = [256, 0, 0] := hpath.symm.trans hkernel
    have h0 : index a 0 = 256 := (List.cons.inj hlist).1
    have h3 : 2 ≤ index a 3 := hidx
    obtain hlow | ⟨hle, hlt⟩ := ha
    · have hindex := hlow.index_lt
      omega
    · simp only [index] at h3
      omega

theorem forkMemory_pages : forkMemory.Pages forkAddr forkPage where
  layout := forkMemory_layout
  canonical := fun _ ha => ha.canonical
  sub := fun a ha => ha.imp_right fun h => ⟨h.1, by have hlt := h.2; omega⟩
  fresh := fun a g ha hg b j hj hread => by
    have hframe := forkMemory_frame ha hg
    have hlevel := forkMemory_level hj hread
    omega
  taken := fun a g ha hg hfree => by
    obtain ⟨f, -, hmem⟩ := forkMemory_page ha hg
    have hsmall : ∀ e ∈ forkEdges, e.2.2 < 32 := by decide
    have hlt : g < 32 := hsmall _ hmem
    have hle := forkMemory_free hfree
    omega
  apart := fun a b g ha hb hga hgb => by
    have hone : ∀ e ∈ forkEdges, ∀ e' ∈ forkEdges, 20 ≤ e.2.2 → e.2.2 = e'.2.2 → e = e' := by decide
    have haddr : forkAddr a := ha.imp_right fun h => ⟨h.1, by have hlt := h.2; omega⟩
    obtain ⟨f, hpath, hmem⟩ := forkMemory_page haddr hga
    obtain ⟨f', hpath', hmem'⟩ := forkMemory_page hb hgb
    have heq := hone _ hmem _ hmem' (forkMemory_frame ha hga).1 rfl
    simp only [Prod.mk.injEq] at heq
    obtain ⟨rfl, h3, -⟩ := heq
    have hlist := hpath.symm.trans hpath'
    simp only [List.cons.injEq] at hlist
    obtain ⟨h0, h1, h2, -⟩ := hlist
    refine page_eq_of_index haddr.canonical hb.canonical fun i hi => ?_
    interval_cases i
    · exact h0
    · exact h1
    · exact h2
    · exact h3

theorem forkMemory_lowerOwn : forkMemory.LowerOwn 1 := by
  intro a ha j hj t ht b i hi hread k hk hroot hkernel
  have hunder : forkMemory.under 1 = forkMemory := rfl
  rw [hunder] at ht hread hroot
  have hlow := ha.index_lt
  have hpath := (forkMemory_path (by omega) hj ht).2.2
  have hhead : ∀ e ∈ forkEdges, e.1 = 1 → 256 ≤ e.2.1 → e.2.1 < 511 → e.2.2 = 5 := by decide
  have hnext : ∀ e ∈ forkEdges, e.1 = 5 ∨ e.1 = 6 → e.2.2 = 6 ∨ e.2.2 = 7 := by decide
  -- behind the kernel entry come the three kernel tables
  have hdown : ∀ d, k + 1 + d ≤ 3 → ∀ f, forkMemory.table b (k + 1 + d) = some f → (f = 5 ∨ f = 6 ∨ f = 7) := by
    intro d
    induction d with
    | zero =>
        intro _ f hf
        obtain ⟨f0, hf0, hlead⟩ := table_succ.1 hf
        obtain rfl : 1 = f0 := Option.some.inj (hroot.symm.trans hf0)
        exact .inl (hhead _ (forkMemory_edge (by decide) hlead) rfl hkernel.1 hkernel.2)
    | succ d ih =>
        intro hd f hf
        obtain ⟨f0, hf0, hlead⟩ := table_succ.1 hf
        have hread0 : forkMemory.table b (k + 1 + d) = some f0 := hf0
        have hlevel := (forkMemory_level (by omega) hread0).2.2
        obtain rfl | rfl | rfl := ih (by omega) f0 hread0
        · exact .inr (hnext _ (forkMemory_edge (by decide) hlead) (.inl rfl))
        · exact .inr (hnext _ (forkMemory_edge (by decide) hlead) (.inr rfl))
        · have hlen : (forkPath 7).length = 3 := rfl
          omega
  have hti : forkMemory.table b (k + 1 + (i - k - 1)) = some t := by
    have heq : k + 1 + (i - k - 1) = i := by omega
    rw [heq, hread]
  have hlist : ∃ l, forkPath t = 256 :: l := by
    obtain rfl | rfl | rfl := hdown (i - k - 1) (by omega) t hti
    · exact ⟨[], rfl⟩
    · exact ⟨[0], rfl⟩
    · exact ⟨[0, 0], rfl⟩
  obtain ⟨l, hl⟩ := hlist
  rw [hl] at hpath
  cases j with
  | zero => cases hpath
  | succ j =>
      rw [List.range_succ_eq_map, List.map_cons] at hpath
      have h0 := (List.cons.inj hpath).1
      omega

theorem forkMemory_small (t i : Nat) : forkMemory.word t i < 2 ^ 64 := by
  by_cases ht : t = 25
  · have hword : forkMemory.word t i = 41 := if_pos ht
    omega
  rw [forkMemory_word ht]
  cases hfind : forkEdges.find? fun e => e.1 = t ∧ e.2.1 = i with
  | none => exact Nat.two_pow_pos 64
  | some e =>
      have hsmall : ∀ e ∈ forkEdges, e.2.2 < 32 := by decide
      have hlt := hsmall e (List.mem_of_find?_eq_some hfind)
      show 4096 * e.2.2 + 7 < 2 ^ 64
      omega

theorem forkMemory_freeFrames : forkMemory.freeFrames = 64 := by
  have hall : (Finset.range forkMemory.phy_pool.pool_bitmap.size).filter
      (fun i => bitmapRead forkMemory.phy_pool.pool_bitmap i = false) =
        Finset.range forkMemory.phy_pool.pool_bitmap.size :=
    Finset.filter_true_of_mem fun i _ => bitmapRead_of_zero rfl
  rw [Memory.freeFrames, hall, Finset.card_range]
  rfl

/-- The pool of the parent: the first page is taken. -/
def forkPool : VirtPool where
  start := USER_START_ADDR
  pool_bitmap := { bytes_len := 1, bits := fun i => if i = 0 then 1 else 0 }

/-- The same memory, with a process in frame 26 that has the kernel half and nothing else. -/
def forkBeside : Memory :=
  { forkMemory with
    word := Function.update forkMemory.word 26 fun i =>
      if i < 256 then 0 else if i = 511 then 4096 * 26 + 7 else forkMemory.word 1 i }

theorem forkBeside_only : OnlyFrame 26 forkMemory forkBeside :=
  ⟨rfl, rfl, fun _ ht => Function.update_of_ne ht _ _⟩

theorem forkBeside_root (i : Nat) : forkBeside.word 26 i =
    if i < 256 then 0 else if i = 511 then 4096 * 26 + 7 else forkMemory.word 1 i := by
  unfold forkBeside
  dsimp only
  rw [Function.update_self]

theorem forkMemory_fresh {g : Nat} (hg : 10 < g) : Fresh forkMemory.word 1 g := fun a j hj hread => by
  have hlevel := forkMemory_level hj hread
  omega

theorem forkBeside_table (a : Nat) : ∀ j ≤ 4, forkBeside.table a j = forkMemory.table a j :=
  forkBeside_only.table (forkMemory_fresh (by decide)) a

theorem forkBeside_fresh {g : Nat} (hg : 10 < g) : Fresh forkBeside.word 1 g :=
  Memory.fresh_of_tables (fun a j hj => forkBeside_table a j (by omega)) (forkMemory_fresh hg)

theorem forkBeside_pages : forkBeside.Pages forkAddr forkPage :=
  forkMemory_pages.congr rfl ⟨rfl, rfl, fun _ hi => hi⟩ fun a j hj t ht => by
    have hlevel := forkMemory_level hj ht
    exact forkBeside_only.word t (by omega)

theorem forkBeside_lowerOwn : forkBeside.LowerOwn 1 := by
  refine forkMemory_lowerOwn.of_tables fun a j hj => ?_
  exact forkBeside_table a j (by omega)

theorem forkBeside_small (t i : Nat) : forkBeside.word t i < 2 ^ 64 := by
  by_cases ht : t = 26
  · subst ht
    have hold := forkMemory_small 1 i
    rw [forkBeside_root]
    split_ifs <;> omega
  · rw [forkBeside_only.word t ht]
    exact forkMemory_small t i

/-- After `create_pml4` everything is there that `copy_body_stack` needs. -/
theorem forkBeside_prepared : ∃ m1, fillPml4 0xffff800000002000 forkBeside = .ok ((), m1) ∧
    OnlyFrame 24 forkBeside m1 ∧
    ReadyToCopy forkAddr forkPage 1 24 0xffff800000002000 0xffff800000003000 0xffff800000000000 m1 ∧
    (∀ a, UserPage forkPool (a / 4096) → (m1.under 1).table a 4 ≠ none) ∧
    (m1.under 1).table 0x1000 4 = some 25 ∧
    4 * (STACK_PAGE_CNT + bitsSet forkPool forkPool.pool_bitmap.size 0) ≤ m1.freeFrames := by
  have hv : KernelPage forkAddr forkBeside 0xffff800000002000 24 :=
    forkBeside_only.kernelPage (forkMemory_fresh (by decide))
      ⟨.inr ⟨by decide, by decide⟩, by decide, rfl, _, by decide, rfl⟩
  have hparent : KernelPage forkAddr forkBeside 0xffff800000003000 1 :=
    forkBeside_only.kernelPage (forkMemory_fresh (by decide))
      ⟨.inr ⟨by decide, by decide⟩, by decide, rfl, _, by decide, rfl⟩
  have hbuf : ∀ j < STACK_PAGE_CNT, forkPage (0xffff800000000000 + 4096 * j) ∧
      index (0xffff800000000000 + 4096 * j) 0 = 256 ∧
      ∃ g, forkBeside.table (0xffff800000000000 + 4096 * j) 4 = some g := by
    intro j hj
    have hj' : j < 2 := hj
    rw [forkBeside_table _ 4 (Nat.le_refl 4)]
    interval_cases j
    · exact ⟨.inr ⟨by decide, by decide⟩, by decide, 22, rfl⟩
    · exact ⟨.inr ⟨by decide, by decide⟩, by decide, 23, rfl⟩
  have hC : Fresh forkBeside.word 1 24 := forkBeside_fresh (by decide)
  obtain ⟨m1, hrun1, honly, hready⟩ := fillPml4_ready forkMemory_halves (fun _ ha => .inl ha) forkBeside_pages
    forkBeside_lowerOwn forkBeside_small hv (by decide) (by decide) hC (fun b hb hread => by
      rw [forkBeside_table b 4 (Nat.le_refl 4)] at hread
      exact (forkMemory_frame hb hread).2.1 rfl) hparent (by decide) hbuf
  have hunder : m1.under 1 = m1 := by
    have hcr3 : m1.cr3 = 1 := honly.cr3_eq
    rw [← hcr3, Memory.under_self]
  have htable : ∀ a, (m1.under 1).table a 4 = forkMemory.table a 4 := fun a => by
    rw [hunder, honly.table hC a 4 (Nat.le_refl 4), forkBeside_table a 4 (Nat.le_refl 4)]
  refine ⟨m1, hrun1, honly, hready, fun a huser => ?_, (htable 0x1000).trans rfl, ?_⟩
  · rw [htable]
    obtain ⟨j, hj, heq⟩ | ⟨k, -, hk, hset, heq⟩ := huser
    · have hj' : j < 2 := hj
      interval_cases j
      · rw [Memory.table_page (b := 0x7fffffffe000) (heq.trans rfl)]
        exact Option.some_ne_none 20
      · rw [Memory.table_page (b := 0x7ffffffff000) (heq.trans rfl)]
        exact Option.some_ne_none 21
    · have hk' : k < 0 + 8 := hk
      have hzero : k = 0 := by
        interval_cases k <;> first | rfl | cases hset
      rw [hzero] at heq
      rw [Memory.table_page (b := 0x1000) (heq.trans rfl)]
      exact Option.some_ne_none 25
  · rw [freeFrames_of_pool honly.pool_eq, freeFrames_of_pool forkBeside_only.pool_eq, forkMemory_freeFrames]
    decide

/-- Page 1 of the child is then in a frame of its own, with 41 all over it. -/
theorem copyBodyStack_copies_fork : ∃ m1 m' g, fillPml4 0xffff800000002000 forkBeside = .ok ((), m1) ∧
    copyBodyStack 0xffff800000002000 0xffff800000003000 forkPool 0xffff800000000000 m1 = .ok ((), m') ∧
    (m'.under 24).table 0x1000 4 = some g ∧ 32 ≤ g ∧ ∀ i < 512, m'.word g i = 41 := by
  obtain ⟨m1, hrun1, honly, hready, hmapped, hpage1, hframes⟩ := forkBeside_prepared
  obtain ⟨m', hrun, -, -, -, hcopies, -⟩ :=
    copyBodyStack_copies hready (by decide) (by decide) hmapped hframes
  have hpage : UserPage forkPool (0x1000 / 4096) := .inr ⟨0, by decide, by decide, by decide, by decide⟩
  have hlow : Lower 0x1000 := by
    unfold Lower
    decide
  obtain ⟨f, g, hf, hg, hfree, hword⟩ := hcopies 0x1000 hlow hpage
  obtain rfl : f = 25 := Option.some.inj (hf.symm.trans hpage1)
  refine ⟨m1, m', g, hrun1, hrun, hg, ?_, fun i hi => (hword i hi).trans ?_⟩
  · obtain ⟨i, -, -, hstart⟩ := hfree
    rw [honly.pool_eq] at hstart
    have hstart' : 4096 * 32 + 4096 * i = 4096 * g := hstart
    omega
  · rw [honly.word 25 (by decide)]
    rfl

end Forking

end RecoverOS
