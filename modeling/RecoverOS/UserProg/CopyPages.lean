import RecoverOS.UserProg.TwoSpaces
import RecoverOS.UserProg.FailedFork

set_option autoImplicit false

/-! # Copying pages to a child (`userprog/fork.c`)

`copy_body_stack` copies the user stack and the pages of the user pool into the address space of the child.
Nobody sees both spaces at once, so every page goes through a buffer in the kernel half, with the pml4 of the
child in `cr3` while its page is mapped and filled. -/

namespace RecoverOS

open Paging

namespace Forking

/-- `USER_STACK_VADDR`. -/
abbrev USER_STACK_VADDR : Nat := 0x800000000000

/-- `movq %0,%%cr3`, of `addr_v2p(pml4)`. -/
def loadCr3 (pml4 : Nat) : Prog Memory Unit := do
  let paddr ← addrV2p pml4
  Prog.modify fun m => m.under (paddr / 4096)

/-- `get_pages`, whose loop is that of `alloc_pages`; `false` stands for `NULL`. -/
def getPages (vaddr cnt : Nat) : Prog Memory Bool := allocPagesFrom vaddr cnt 0

/-- What `copy_body_stack` does with the stack, and with every page of the pool. -/
def copyPages (child_pml4 parent_pml4 buf_page vaddr cnt : Nat) : Prog Memory Unit := do
  copyWords buf_page vaddr (512 * cnt)
  loadCr3 child_pml4
  let _ ← getPages vaddr cnt
  copyWords vaddr buf_page (512 * cnt)
  loadCr3 parent_pml4

/-- The loop of `copy_body_stack`, with `n` bits left from bit `i` on. -/
def copyPoolFrom (child_pml4 parent_pml4 buf_page : Nat) (pool : VirtPool) : Nat → Nat → Prog Memory Unit
  | 0, _ => pure ()
  | n + 1, i => do
      if bitmapRead pool.pool_bitmap i = true then
        copyPages child_pml4 parent_pml4 buf_page (i * 4096 + pool.start) 1
      else pure ()
      copyPoolFrom child_pml4 parent_pml4 buf_page pool n (i + 1)

/-- `copy_body_stack`, for the pml4s of the two threads and the user pool of the child, which is that of its
    parent. -/
def copyBodyStack (child_pml4 parent_pml4 : Nat) (pool : VirtPool) (buf_page : Nat) : Prog Memory Unit := do
  copyPages child_pml4 parent_pml4 buf_page (USER_STACK_VADDR - STACK_PAGE_CNT * 4096) STACK_PAGE_CNT
  copyPoolFrom child_pml4 parent_pml4 buf_page pool pool.pool_bitmap.size 0

/-! ## Copying pages -/

section Words

variable {L S : Nat → Prop} {m m1 m' : Memory} {dst src f g o n k cnt : Nat}

/-- `n` words of frame `f`, from word `o` on, copied to frame `g`. -/
def copied (m : Memory) (g f o n : Nat) : Memory :=
  { m with
    word := Function.update m.word g fun i => if o ≤ i ∧ i < o + n then m.word f i else m.word g i }

theorem copied_apply (t i : Nat) :
    (copied m g f o n).word t i = if t = g ∧ o ≤ i ∧ i < o + n then m.word f i else m.word t i := by
  show Function.update m.word g (fun i => if o ≤ i ∧ i < o + n then m.word f i else m.word g i) t i = _
  by_cases ht : t = g
  · subst ht
    simp
  · simp [ht]

theorem copied_other {t : Nat} (h : t ≠ g) : (copied m g f o n).word t = m.word t := by
  funext i
  rw [copied_apply, if_neg fun hc => h hc.1]

/-- A frame that is no table may be written to. -/
theorem table_copied (hg : Fresh m.word m.cr3 g) (a : Nat) :
    ∀ j ≤ 4, (copied m g f o n).table a j = m.table a j :=
  table_congr fun j hj t ht =>
    congrFun (copied_other fun heq => hg a j (by omega) (ht.trans (congrArg _ heq))) _

theorem canonical_page {a : Nat} (ha : Canonical a) (haligned : a % 4096 = 0) (hn : n < 512) :
    Canonical (a + 8 * n) := by
  unfold Canonical at ha ⊢
  omega

theorem translate_word (ha : Canonical dst) (haligned : dst % 4096 = 0) (hn : n < 512)
    (hg : m.table dst 4 = some g) : m.translate (dst + 8 * n) = some (4096 * g + 8 * n) := by
  have hpage : (dst + 8 * n) / 4096 = dst / 4096 := by omega
  have hoff : (dst + 8 * n) % 4096 = 8 * n := by omega
  have htable : m.table (dst + 8 * n) 4 = some g := (Memory.table_page hpage).trans hg
  show Paging.translate m.word m.cr3 (dst + 8 * n) = _
  rw [Paging.translate, if_pos (canonical_page ha haligned hn), hoff]
  exact congrArg (Option.map _) htable

theorem load_word (ha : Canonical dst) (haligned : dst % 4096 = 0) (hn : n < 512)
    (hg : m.table dst 4 = some g) : load (dst + 8 * n) m = .ok (m.word g n, m) := by
  have hframe : (4096 * g + 8 * n) / 4096 = g := by omega
  have hidx : 8 * n % 4096 / 8 = n := by omega
  simp [load, translate_word ha haligned hn hg, hframe, hidx]

theorem store_word {e : Nat} (ha : Canonical dst) (haligned : dst % 4096 = 0) (hn : n < 512)
    (hg : m.table dst 4 = some g) :
    store (dst + 8 * n) e m = .ok ((), { m with word := setWord m.word g n (e % 2 ^ 64) }) := by
  have hframe : (4096 * g + 8 * n) / 4096 = g := by omega
  have hidx : 8 * n % 4096 / 8 = n := by omega
  simp [store, translate_word ha haligned hn hg, hframe, hidx]

/-- `memcpy` inside one page. -/
theorem copyWords_page (hdst : Canonical dst) (hsrc : Canonical src) (hdst0 : dst % 4096 = 0)
    (hsrc0 : src % 4096 = 0) (hg : m.table dst 4 = some g) (hf : m.table src 4 = some f)
    (hfresh : Fresh m.word m.cr3 g) (hsmall : ∀ i, m.word f i < 2 ^ 64) (hn : o + n ≤ 512) :
    copyWords (dst + 8 * o) (src + 8 * o) n m = .ok ((), copied m g f o n) := by
  induction n with
  | zero =>
      have hsame : (copied m g f o 0).word = m.word := by
        funext t i
        rw [copied_apply, if_neg (by omega)]
      show Except.ok ((), m) = Except.ok ((), { m with word := (copied m g f o 0).word })
      rw [hsame]
  | succ n ih =>
      have hg' : (copied m g f o n).table dst 4 = some g := (table_copied hfresh dst 4 (Nat.le_refl 4)).trans hg
      have hf' : (copied m g f o n).table src 4 = some f := (table_copied hfresh src 4 (Nat.le_refl 4)).trans hf
      have hread : (copied m g f o n).word f (o + n) = m.word f (o + n) := by
        rw [copied_apply, if_neg (by omega)]
      have hstored : setWord (copied m g f o n).word g (o + n) (m.word f (o + n)) =
          (copied m g f o (n + 1)).word := by
        funext t i
        rw [setWord_apply, copied_apply, copied_apply]
        by_cases ht : t = g
        · by_cases hi : i = o + n
          · rw [if_pos ⟨ht, hi⟩, if_pos (by omega), hi]
          · have hiff : t = g ∧ o ≤ i ∧ i < o + n ↔ t = g ∧ o ≤ i ∧ i < o + (n + 1) := by omega
            rw [if_neg fun hc => hi hc.2, if_congr hiff rfl rfl]
        · rw [if_neg fun hc => ht hc.1, if_neg fun hc => ht hc.1, if_neg fun hc => ht hc.1]
      have hdstn : dst + 8 * o + 8 * n = dst + 8 * (o + n) := by omega
      have hsrcn : src + 8 * o + 8 * n = src + 8 * (o + n) := by omega
      rw [copyWords, Prog.bind_of_ok (ih (by omega)), hdstn, hsrcn,
        Prog.bind_of_ok (load_word hsrc hsrc0 (by omega) hf'), store_word hdst hdst0 (by omega) hg', hread,
        Nat.mod_eq_of_lt (hsmall (o + n)), hstored]
      rfl

theorem copyWords_add (h : copyWords dst src n m = .ok ((), m1))
    (h' : copyWords (dst + 8 * n) (src + 8 * n) k m1 = .ok ((), m')) :
    copyWords dst src (n + k) m = .ok ((), m') := by
  induction k generalizing m' with
  | zero =>
      cases h'
      exact h
  | succ k ih =>
      rw [copyWords] at h'
      obtain ⟨⟨⟩, m2, h2, h'⟩ := Prog.bind_eq_ok.1 h'
      have hdst : dst + 8 * n + 8 * k = dst + 8 * (n + k) := by omega
      have hsrc : src + 8 * n + 8 * k = src + 8 * (n + k) := by omega
      rw [hdst, hsrc] at h'
      rw [← Nat.add_assoc, copyWords, Prog.bind_of_ok (ih h2)]
      exact h'

/-- The pages from `src` on can be copied to those from `dst` on. -/
structure CanCopy (L S : Nat → Prop) (m : Memory) (dst src cnt : Nat) : Prop where
  dst_mem : ∀ j < cnt, S (dst + 4096 * j)
  src_mem : ∀ j < cnt, L (src + 4096 * j)
  dst_page : ∀ j < cnt, ∃ g, m.table (dst + 4096 * j) 4 = some g
  src_page : ∀ j < cnt, ∃ f, m.table (src + 4096 * j) 4 = some f
  apart : ∀ j < cnt, ∀ k < cnt, dst / 4096 + j ≠ src / 4096 + k
  dst_aligned : dst % 4096 = 0
  src_aligned : src % 4096 = 0

/-- They were. -/
structure CopiedTo (m m' : Memory) (dst src cnt : Nat) : Prop where
  cr3_eq : m'.cr3 = m.cr3
  pool_eq : m'.phy_pool = m.phy_pool
  others : ∀ t, (∀ j < cnt, m.table (dst + 4096 * j) 4 ≠ some t) → m'.word t = m.word t
  words : ∀ j < cnt, ∀ g f, m.table (dst + 4096 * j) 4 = some g → m.table (src + 4096 * j) 4 = some f →
    ∀ i < 512, m'.word g i = m.word f i
  small : (∀ t i, m.word t i < 2 ^ 64) → ∀ t i, m'.word t i < 2 ^ 64

theorem CopiedTo.table (h : CopiedTo m m' dst src cnt)
    (hfresh : ∀ j < cnt, ∀ t, m.table (dst + 4096 * j) 4 = some t → Fresh m.word m.cr3 t) (a : Nat) :
    ∀ j ≤ 4, m'.table a j = m.table a j := by
  unfold Memory.table
  rw [h.cr3_eq]
  refine table_congr fun j hj t ht => congrFun (h.others t fun k hk hread => ?_) _
  exact hfresh k hk t hread a j (by omega) ht

theorem CanCopy.le {cnt' : Nat} (h : CanCopy L S m dst src cnt) (hle : cnt' ≤ cnt) :
    CanCopy L S m dst src cnt' where
  dst_mem := fun j hj => h.dst_mem j (by omega)
  src_mem := fun j hj => h.src_mem j (by omega)
  dst_page := fun j hj => h.dst_page j (by omega)
  src_page := fun j hj => h.src_page j (by omega)
  apart := fun j hj k hk => h.apart j (by omega) k (by omega)
  dst_aligned := h.dst_aligned
  src_aligned := h.src_aligned

/-- `memcpy` of whole pages. -/
theorem CanCopy.copyWords (h : CanCopy L S m dst src cnt) (hp : m.Pages L S)
    (hsmall : ∀ t i, m.word t i < 2 ^ 64) :
    ∃ m', Forking.copyWords dst src (512 * cnt) m = .ok ((), m') ∧ CopiedTo m m' dst src cnt := by
  induction cnt with
  | zero =>
      exact ⟨m, rfl, rfl, rfl, fun _ _ => rfl, fun j hj => absurd hj (Nat.not_lt_zero j), id⟩
  | succ cnt ih =>
      obtain ⟨m1, hrun, h1⟩ := ih (h.le (Nat.le_succ cnt))
      obtain ⟨g, hg⟩ := h.dst_page cnt (Nat.lt_succ_self cnt)
      obtain ⟨f, hf⟩ := h.src_page cnt (Nat.lt_succ_self cnt)
      have hS := h.dst_mem cnt (Nat.lt_succ_self cnt)
      have hL := h.src_mem cnt (Nat.lt_succ_self cnt)
      have haligned := h.dst_aligned
      have haligned' := h.src_aligned
      have hfreshes : ∀ j < cnt, ∀ t, m.table (dst + 4096 * j) 4 = some t → Fresh m.word m.cr3 t :=
        fun j hj t ht => hp.fresh _ t (h.dst_mem j (by omega)) ht
      have htable := h1.table hfreshes
      have hfresh1 : Fresh m1.word m1.cr3 g :=
        fun a j hj hread => hp.fresh _ g hS hg a j hj ((htable a j (by omega)).symm.trans hread)
      have hpage : Forking.copyWords (dst + 8 * (512 * cnt)) (src + 8 * (512 * cnt)) 512 m1 =
          .ok ((), copied m1 g f 0 512) := by
        have hdst : dst + 8 * (512 * cnt) = dst + 4096 * cnt := by omega
        have hsrc : src + 8 * (512 * cnt) = src + 4096 * cnt := by omega
        rw [hdst, hsrc]
        have hdst0 : (dst + 4096 * cnt) % 4096 = 0 := by omega
        have hsrc0 : (src + 4096 * cnt) % 4096 = 0 := by omega
        exact copyWords_page (o := 0) (hp.canonical _ (hp.sub _ hS)) (hp.canonical _ hL) hdst0 hsrc0
          ((htable _ 4 (Nat.le_refl 4)).trans hg) ((htable _ 4 (Nat.le_refl 4)).trans hf) hfresh1
          (h1.small hsmall f) (Nat.le_refl 512)
      -- the frame that is read is none of those written to, and those are different
      have hsource : m1.word f = m.word f := by
        refine h1.others f fun j hj hread => ?_
        have hne := h.apart j (by omega) cnt (Nat.lt_succ_self cnt)
        have heq := hp.apart _ _ f (h.dst_mem j (by omega)) hL hread hf
        omega
      refine ⟨copied m1 g f 0 512, copyWords_add hrun hpage, h1.cr3_eq, h1.pool_eq, fun t ht => ?_,
        fun j hj g' f' hg' hf' i hi => ?_, fun _ t i => ?_⟩
      · have htg : t ≠ g := by
          rintro rfl
          exact ht cnt (Nat.lt_succ_self cnt) hg
        rw [copied_other htg]
        exact h1.others t fun j hj => ht j (by omega)
      · by_cases hjc : j = cnt
        · subst hjc
          obtain rfl : g = g' := Option.some.inj (hg.symm.trans hg')
          obtain rfl : f = f' := Option.some.inj (hf.symm.trans hf')
          rw [copied_apply, if_pos ⟨rfl, Nat.zero_le i, by omega⟩, hsource]
        · have hgg : g' ≠ g := by
            rintro rfl
            have heq := hp.apart _ _ g' (h.dst_mem j (by omega)) (hp.sub _ hS) hg' hg
            omega
          rw [copied_other hgg]
          exact h1.words j (by omega) g' f' hg' hf' i hi
      · rw [copied_apply]
        split
        · exact h1.small hsmall f i
        · exact h1.small hsmall t i

end Words

/-! ## Two spaces at once -/

/-- Page `a` of the kernel half is in frame `f`, and `addr_v2p` can tell. -/
structure KernelPage (L : Nat → Prop) (m : Memory) (a f : Nat) : Prop where
  mem : L a
  upper : index a 0 = 256
  page : m.table a 4 = some f
  entry : ∃ e < 2 ^ 52, m.entry a 3 = some e

/-- Before `copy_body_stack`: the child has the kernel half of its parent and nothing else, and the pml4s and
    the buffer are in it. -/
structure ReadyToCopy (L S : Nat → Prop) (P C child_pml4 parent_pml4 buf_page : Nat) (m : Memory) : Prop where
  forked : m.Forked L S P C
  cr3_eq : m.cr3 = P
  small : ∀ t i, m.word t i < 2 ^ 64
  child_pml4 : KernelPage L (m.under P) child_pml4 C
  parent_pml4 : KernelPage L (m.under P) parent_pml4 P
  aligned : buf_page % 4096 = 0
  buffer : ∀ j < STACK_PAGE_CNT, S (buf_page + 4096 * j) ∧ index (buf_page + 4096 * j) 0 = 256 ∧
    ∃ g, (m.under P).table (buf_page + 4096 * j) 4 = some g
  root : m.ChildRoot P C

/-- Frame `t` is in the buffer. -/
def InBuffer (buf_page : Nat) (m : Memory) (t : Nat) : Prop :=
  ∃ j < STACK_PAGE_CNT, m.table (buf_page + 4096 * j) 4 = some t

/-- While the pages are copied: the parent has its pages, and of the frames that were in use, only the pml4 of
    the child and the buffer are written to. -/
structure Apart (L S : Nat → Prop) (P C buf_page : Nat) (m0 m : Memory) : Prop where
  forked : m.Forked L S P C
  small : ∀ t i, m.word t i < 2 ^ 64
  pool : m0.Shrinks m
  walks : ∀ a, ∀ j ≤ 4, (m.under P).table a j = (m0.under P).table a j
  kept : ∀ t, ¬ m0.FreeIn t → t ≠ C → ¬ InBuffer buf_page (m0.under P) t → m.word t = m0.word t
  new : ∀ a, Lower a → ∀ j ≤ 3, ∀ t, (m.under C).table a (j + 1) = some t → m0.FreeIn t
  tables : ∀ a, ∀ j ≤ 3, ∀ t, (m.under C).table a j = some t → (m0.under C).table a j = some t ∨ m0.FreeIn t

section Copy

variable {L S : Nat → Prop} {m0 m m' : Memory} {P C child_pml4 parent_pml4 buf_page a r f g t v n i cnt : Nat}

theorem ReadyToCopy.start (h : ReadyToCopy L S P C child_pml4 parent_pml4 buf_page m) :
    Apart L S P C buf_page m m where
  forked := h.forked
  small := h.small
  pool := .refl m
  walks := fun _ _ _ => rfl
  kept := fun _ _ _ _ => rfl
  new := fun a ha j _ t ht => by
    rw [h.root.lower_none ha j] at ht
    cases ht
  tables := fun _ _ _ _ ht => .inl ht

/-- The pml4 of the child is no table and no page of its parent. -/
theorem root_apart (h : m.Forked L S P C) :
    Fresh m.word P C ∧ ∀ b, S b → (m.under P).table b 4 ≠ some C :=
  h.childOwn 0 (by unfold Lower; omega) 0 (by omega) C rfl

/-- A table or a page of the parent that is no page of the buffer is as it was. -/
theorem Apart.table_kept (h : Apart L S P C buf_page m0 m)
    (hr : ReadyToCopy L S P C child_pml4 parent_pml4 buf_page m0) {j : Nat} (hj : j ≤ 3)
    (ht : (m0.under P).table a j = some t) : m.word t = m0.word t := by
  refine h.kept t (hr.forked.parent_not_free hj ht) ?_ ?_
  · rintro rfl
    exact (root_apart hr.forked).1 a j hj ht
  · rintro ⟨k, hk, hread⟩
    exact hr.forked.parent.fresh _ t (hr.buffer k hk).1 hread a j hj ht

theorem Apart.page_kept (h : Apart L S P C buf_page m0 m)
    (hr : ReadyToCopy L S P C child_pml4 parent_pml4 buf_page m0) (ha : Lower a)
    (ht : (m0.under P).table a 4 = some t) : m.word t = m0.word t := by
  have hL := hr.forked.halves.lower a ha
  refine h.kept t (hr.forked.parent.taken a t hL ht) ?_ ?_
  · rintro rfl
    exact (root_apart hr.forked).2 a (hr.forked.user a ha) ht
  · rintro ⟨k, hk, hread⟩
    obtain ⟨hS, hup, -⟩ := hr.buffer k hk
    have heq := hr.forked.parent.apart _ a t hS hL hread ht
    have hlow := ha.index_lt
    have hindex : index (buf_page + 4096 * k) 0 = index a 0 := by
      simp only [index]
      omega
    omega

/-- `addr_v2p` of the address of a pml4, under either of the two. -/
theorem Apart.loadCr3 (h : Apart L S P C buf_page m0 m)
    (hr : ReadyToCopy L S P C child_pml4 parent_pml4 buf_page m0) (ha : KernelPage L (m0.under P) a f)
    (hroot : r = P ∨ r = C) : Forking.loadCr3 a (m.under r) = .ok ((), m.under f) := by
  obtain ⟨e, he, hentry⟩ := ha.entry
  obtain ⟨t, ht, rfl⟩ := Option.map_eq_some_iff.1 hentry
  have hword : m.word t = m0.word t := h.table_kept hr (Nat.le_refl 3) ht
  have hpageP : (m.under P).table a 4 = some f := (h.walks a 4 (Nat.le_refl 4)).trans ha.page
  have htableP : (m.under P).table a 3 = some t := (h.walks a 3 (by omega)).trans ht
  have hcan := hr.forked.parent.canonical a ha.mem
  have hkernel : ∀ n, (m.under C).table a (n + 1) = (m.under P).table a (n + 1) :=
    Memory.kernel_table h.forked.entry ha.upper
  have hself : SelfMapped (m.under r).word (m.under r).cr3 := by
    obtain rfl | rfl := hroot
    · exact h.forked.parent.layout.self
    · exact h.forked.child.layout.self
  have hpage : (m.under r).table a 4 = some f := by
    obtain rfl | rfl := hroot
    · exact hpageP
    · exact (hkernel 3).trans hpageP
  have htable : (m.under r).table a 3 = some t := by
    obtain rfl | rfl := hroot
    · exact htableP
    · exact (hkernel 2).trans htableP
  have htrans : (m.under r).translate a = some (4096 * f + a % 4096) := by
    show Paging.translate _ _ a = _
    rw [Paging.translate, if_pos hcan]
    exact congrArg (Option.map _) hpage
  have hentry' : (m.under r).entry a 3 = some (m0.word t (index a 3)) :=
    Option.map_eq_some_iff.2 ⟨t, htable, congrFun hword _⟩
  rw [Forking.loadCr3, Prog.bind_of_ok (addrV2p_of_translate hself htrans hentry' he)]
  have hframe : (4096 * f + a % 4096) / 4096 = f := by omega
  rw [hframe]
  rfl

theorem Apart.under (h : Apart L S P C buf_page m0 m) (r : Nat) : Apart L S P C buf_page m0 (m.under r) where
  forked := h.forked.under r
  small := h.small
  pool := ⟨h.pool.start, h.pool.size, h.pool.bits⟩
  walks := h.walks
  kept := h.kept
  new := h.new
  tables := h.tables

/-- Filling frames that are no tables changes no walk. -/
theorem walks_of_copiedTo {dst src root : Nat} (hcopy : CopiedTo (m.under r) m' dst src cnt)
    (hdst : ∀ j < cnt, ∀ t, (m.under r).table (dst + 4096 * j) 4 = some t → Fresh m.word root t) (a : Nat) :
    ∀ j ≤ 4, (m'.under root).table a j = (m.under root).table a j :=
  Memory.table_of_words fun j hj t ht => hcopy.others t fun k hk hread => hdst k hk t hread a j hj ht

/-- Pages are copied to frames that are tables of nobody: the buffer, or pages of the child. -/
theorem Apart.copiedTo (h : Apart L S P C buf_page m0 m) {dst src : Nat}
    (hcopy : CopiedTo (m.under r) m' dst src cnt)
    (hdst : ∀ j < cnt, ∀ t, (m.under r).table (dst + 4096 * j) 4 = some t →
      Fresh m.word P t ∧ Fresh m.word C t ∧ (m0.FreeIn t ∨ InBuffer buf_page (m0.under P) t)) :
    Apart L S P C buf_page m0 m' := by
  have hpool : m.Shrinks m' := by
    have heq : m'.phy_pool = m.phy_pool := hcopy.pool_eq
    exact ⟨by rw [heq], by rw [heq], fun i hi => by rwa [heq]⟩
  have hP : ∀ a, ∀ j ≤ 3, ∀ t, (m.under P).table a j = some t → m'.word t = m.word t := by
    intro a j hj t ht
    exact hcopy.others t fun k hk hread => (hdst k hk t hread).1 a j hj ht
  have hC : ∀ a, ∀ j ≤ 3, ∀ t, (m.under C).table a j = some t → m'.word t = m.word t := by
    intro a j hj t ht
    exact hcopy.others t fun k hk hread => (hdst k hk t hread).2.1 a j hj ht
  exact {
    forked := h.forked.congr hpool hP hC
    small := hcopy.small h.small
    pool := h.pool.trans hpool
    walks := fun a j hj => (Memory.table_of_words (hP a) j hj).trans (h.walks a j hj)
    kept := fun t hfree hne hbuf => by
      refine Eq.trans ?_ (h.kept t hfree hne hbuf)
      exact hcopy.others t fun k hk hread => (hdst k hk t hread).2.2.elim hfree hbuf
    new := fun a ha j hj t ht =>
      h.new a ha j hj t ((Memory.table_of_words (hC a) (j + 1) (by omega)).symm.trans ht)
    tables := fun a j hj t ht =>
      h.tables a j hj t ((Memory.table_of_words (hC a) j (by omega)).symm.trans ht) }

/-- A page of the child is mapped. -/
theorem Apart.mapsPage (h : Apart L S P C buf_page m0 m) (hv : Lower v)
    (hmaps : (m.under C).MapsPage L S m' v g) : Apart L S P C buf_page m0 m' := by
  have hfills := hmaps.fills
  have hpool : m.Shrinks m' := ⟨hfills.pool.start, hfills.pool.size, hfills.pool.bits⟩
  have hunder : m'.under C = m' := by
    have hcr3 : m'.cr3 = C := hfills.cr3_eq
    rw [← hcr3, Memory.under_self]
  exact {
    forked := h.forked.mapsPage hv hmaps
    small := hfills.small h.small
    pool := h.pool.trans hpool
    walks := fun a j hj => by
      have hsame : (m'.under P).table a j = (m.under P).table a j :=
        Memory.table_of_words (fun k hk t ht => h.forked.parent_words hv hfills hk ht) j hj
      exact hsame.trans (h.walks a j hj)
    kept := fun t hfree hne hbuf => by
      funext i
      rw [← h.kept t hfree hne hbuf]
      obtain hword | ⟨-, k, hk, hread, -⟩ := hfills.words t i fun hc => hfree (h.pool.freeIn hc)
      · exact hword
      · cases k with
        | zero =>
            cases hread
            exact absurd rfl hne
        | succ k => exact absurd (h.new v hv k (by omega) t hread) hfree
    new := fun a ha j hj t ht => by
      rw [hunder] at ht
      by_cases hj3 : j + 1 ≤ 3
      · obtain hread | hfree := hfills.tables a (j + 1) hj3 t ht
        · exact h.new a ha j hj t hread
        · exact h.pool.freeIn hfree
      · obtain rfl : j = 3 := by omega
        by_cases hpage : a / 4096 = v / 4096
        · rw [Memory.table_page hpage, hmaps.page] at ht
          cases ht
          exact h.pool.freeIn hmaps.was_free
        · rw [hmaps.others a (h.forked.halves.lower a ha) hpage] at ht
          exact h.new a ha 3 hj t ht
    tables := fun a j hj t ht => by
      rw [hunder] at ht
      obtain hread | hfree := hfills.tables a j hj t ht
      · exact h.tables a j hj t hread
      · exact .inr (h.pool.freeIn hfree) }

theorem allocPagesFrom_succ {m1 : Memory} (h : getPage (v + i * 4096) m = .ok (true, m1)) :
    allocPagesFrom v (n + 1) i m = allocPagesFrom v n (i + 1) m1 := by
  unfold getPage at h
  obtain ⟨paddr, m2, hpalloc, h⟩ := Prog.bind_eq_ok.1 h
  rw [allocPagesFrom, Prog.bind_of_ok hpalloc]
  cases paddr with
  | none =>
      obtain ⟨hfalse, -⟩ := Prog.pure_eq_ok.1 h
      cases hfalse
  | some p =>
      obtain ⟨⟨⟩, m3, hmap, h⟩ := Prog.bind_eq_ok.1 h
      obtain ⟨-, rfl⟩ := Prog.pure_eq_ok.1 h
      exact Prog.bind_of_ok hmap _

/-- What mapping `n` pages of the child from page `i` of `v` on does to the rest. -/
structure Mapped (C v n i : Nat) (m m' : Memory) : Prop where
  cr3_eq : m'.cr3 = C
  frames : m.freeFrames ≤ m'.freeFrames + 4 * n
  new : ∀ j, i ≤ j → j < i + n → ∃ g, m'.table (v + 4096 * j) 4 = some g
  others : ∀ a, Lower a → (∀ j, i ≤ j → j < i + n → a / 4096 ≠ v / 4096 + j) → m'.table a 4 = m.table a 4
  words : ∀ t, Fresh m.word C t → ¬ m.FreeIn t → Fresh m'.word C t ∧ ¬ m'.FreeIn t ∧ m'.word t = m.word t

/-- `get_pages` under the pml4 of the child, with frames enough. -/
theorem Apart.allocPagesFrom (h : Apart L S P C buf_page m0 m) (hcr3 : m.cr3 = C) (hv : v % 4096 = 0)
    (hlower : ∀ j, i ≤ j → j < i + n → Lower (v + 4096 * j))
    (hnone : ∀ j, i ≤ j → j < i + n → m.table (v + 4096 * j) 4 = none) (hfree : 4 * n ≤ m.freeFrames) :
    ∃ m', RecoverOS.allocPagesFrom v n i m = .ok (true, m') ∧ Apart L S P C buf_page m0 m' ∧
      Mapped C v n i m m' := by
  induction n generalizing m i with
  | zero =>
      exact ⟨m, rfl, h, {
        cr3_eq := hcr3
        frames := by omega
        new := fun j hj hlt => absurd hlt (by omega)
        others := fun _ _ _ => rfl
        words := fun _ ht hfree => ⟨ht, hfree, rfl⟩ }⟩
  | succ n ih =>
      have hunder : m.under C = m := by rw [← hcr3, Memory.under_self]
      have hchild : m.Pages L S := by
        have hpages := h.forked.child
        rwa [hunder] at hpages
      have hlow : Lower (v + 4096 * i) := hlower i (Nat.le_refl i) (by omega)
      obtain ⟨m1, g, hget, hmaps, hframes⟩ :=
        hchild.exists_getPage (h.forked.halves.lower _ hlow) (hnone i (Nat.le_refl i) (by omega)) (by omega)
      have hmaps' : (m.under C).MapsPage L S m1 (v + 4096 * i) g := by rwa [hunder]
      have h1 := h.mapsPage hlow hmaps'
      have hcr31 : m1.cr3 = C := hmaps.fills.cr3_eq.trans hcr3
      have hother : ∀ a, Lower a → a / 4096 ≠ v / 4096 + i → m1.table a 4 = m.table a 4 :=
        fun a ha hne => hmaps.others a (h.forked.halves.lower a ha) (by omega)
      obtain ⟨m', hrun, h', hmapped⟩ := ih (i := i + 1) h1 hcr31
        (fun j hj hlt => hlower j (by omega) (by omega))
        (fun j hj hlt => (hother _ (hlower j (by omega) (by omega)) (by omega)).trans
          (hnone j (by omega) (by omega))) (by omega)
      have hget' : getPage (v + i * 4096) m = .ok (true, m1) := by rwa [Nat.mul_comm i]
      refine ⟨m', (allocPagesFrom_succ hget').trans hrun, h', {
        cr3_eq := hmapped.cr3_eq
        frames := by
          have hle := hmapped.frames
          omega
        new := fun j hj hlt => ?_
        others := fun a ha hne => ?_
        words := fun t ht hnot => ?_ }⟩
      · by_cases hji : j = i
        · subst hji
          refine ⟨g, (hmapped.others _ hlow fun k hk hklt => ?_).trans hmaps.page⟩
          omega
        · exact hmapped.new j (by omega) (by omega)
      · rw [hmapped.others a ha fun j hj hlt => hne j (by omega) (by omega)]
        exact hother a ha (hne i (Nat.le_refl i) (by omega))
      · have ht' : Fresh m.word m.cr3 t := by rwa [hcr3]
        have hfresh1 : Fresh m1.word C t := by
          have hfresh := hmaps.fills.fresh ht' hnot
          rwa [hcr31] at hfresh
        obtain ⟨hfresh', hnot', hword'⟩ := hmapped.words t hfresh1 fun hc => hnot (hmaps.fills.pool.freeIn hc)
        exact ⟨hfresh', hnot', hword'.trans (hmaps.fills.word_eq ht' hnot)⟩

/-- The child has a page of its own for `a`, with the content of the parent's. -/
def HasCopy (P C : Nat) (m0 m : Memory) (a : Nat) : Prop :=
  ∃ f g, (m0.under P).table a 4 = some f ∧ (m.under C).table a 4 = some g ∧ ∀ i < 512, m.word g i = m0.word f i

theorem freeFrames_of_pool (h : m'.phy_pool = m.phy_pool) : m'.freeFrames = m.freeFrames := by
  unfold Memory.freeFrames
  rw [h]

/-- What copying `cnt` pages from `v` on does. -/
structure PagesCopied (P C v cnt : Nat) (m0 m m' : Memory) : Prop where
  cr3_eq : m'.cr3 = P
  frames : m.freeFrames ≤ m'.freeFrames + 4 * cnt
  copies : ∀ j < cnt, HasCopy P C m0 m' (v + 4096 * j)
  others : ∀ a, Lower a → (∀ j < cnt, a / 4096 ≠ v / 4096 + j) →
    (m'.under C).table a 4 = (m.under C).table a 4 ∧ ∀ g, (m.under C).table a 4 = some g → m'.word g = m.word g

theorem index_of_page {b : Nat} (h : a / 4096 = b / 4096) : index a 0 = index b 0 := by
  simp only [index]
  omega

/-- A page of the buffer and one of the lower half. -/
theorem buffer_ne_lower {b : Nat} {j k : Nat} (ha : index (a + 4096 * j) 0 = 256) (hb : Lower (b + 4096 * k)) :
    a / 4096 + j ≠ b / 4096 + k := by
  intro heq
  have hlow := hb.index_lt
  have hindex := index_of_page (a := a + 4096 * j) (b := b + 4096 * k) (by omega)
  omega

/-- The pages from `v` on, through the buffer. -/
theorem Apart.copyPages (h : Apart L S P C buf_page m0 m)
    (hr : ReadyToCopy L S P C child_pml4 parent_pml4 buf_page m0) (hcr3 : m.cr3 = P)
    (hcnt : cnt ≤ STACK_PAGE_CNT) (hv : v % 4096 = 0) (hlower : ∀ j < cnt, Lower (v + 4096 * j))
    (hparent : ∀ j < cnt, ∃ f, (m0.under P).table (v + 4096 * j) 4 = some f)
    (hnone : ∀ j < cnt, (m.under C).table (v + 4096 * j) 4 = none) (hfree : 4 * cnt ≤ m.freeFrames) :
    ∃ m', Forking.copyPages child_pml4 parent_pml4 buf_page v cnt m = .ok ((), m') ∧
      Apart L S P C buf_page m0 m' ∧ PagesCopied P C v cnt m0 m m' := by
  have hunder : m.under P = m := by rw [← hcr3, Memory.under_self]
  have hhalf : ∀ j < cnt, L (v + 4096 * j) := fun j hj => h.forked.halves.lower _ (hlower j hj)
  -- the buffer, in both spaces
  have hbuf : ∀ j < cnt, S (buf_page + 4096 * j) ∧ index (buf_page + 4096 * j) 0 = 256 ∧
      ∃ g, (m0.under P).table (buf_page + 4096 * j) 4 = some g := fun j hj => hr.buffer j (by omega)
  have hbufP : ∀ j < cnt, ∀ g, (m0.under P).table (buf_page + 4096 * j) 4 = some g →
      (m.under P).table (buf_page + 4096 * j) 4 = some g :=
    fun j hj g hg => (h.walks _ 4 (Nat.le_refl 4)).trans hg
  have hbufC : ∀ m1 : Memory, Apart L S P C buf_page m0 m1 → ∀ j < cnt, ∀ g,
      (m0.under P).table (buf_page + 4096 * j) 4 = some g →
        (m1.under C).table (buf_page + 4096 * j) 4 = some g :=
    fun m1 h1 j hj g hg =>
      (Memory.kernel_table h1.forked.entry (hbuf j hj).2.1 3).trans ((h1.walks _ 4 (Nat.le_refl 4)).trans hg)
  -- the pages into the buffer
  have hcan1 : CanCopy L S (m.under P) buf_page v cnt := {
    dst_mem := fun j hj => (hbuf j hj).1
    src_mem := hhalf
    dst_page := fun j hj => by
      obtain ⟨-, -, g, hg⟩ := hbuf j hj
      exact ⟨g, hbufP j hj g hg⟩
    src_page := fun j hj => by
      obtain ⟨f, hf⟩ := hparent j hj
      exact ⟨f, (h.walks _ 4 (Nat.le_refl 4)).trans hf⟩
    apart := fun j hj k hk => buffer_ne_lower (hbuf j hj).2.1 (hlower k hk)
    dst_aligned := hr.aligned
    src_aligned := hv }
  obtain ⟨m1, hrun1, hcopy1⟩ := hcan1.copyWords h.forked.parent h.small
  have hframes1 : ∀ j < cnt, ∀ t, (m.under P).table (buf_page + 4096 * j) 4 = some t →
      Fresh m.word P t ∧ Fresh m.word C t ∧ (m0.FreeIn t ∨ InBuffer buf_page (m0.under P) t) := by
    intro j hj t ht
    have ht0 : (m0.under P).table (buf_page + 4096 * j) 4 = some t :=
      (h.walks _ 4 (Nat.le_refl 4)).symm.trans ht
    exact ⟨h.forked.parent.fresh _ t (hbuf j hj).1 ht,
      h.forked.child.fresh _ t (hbuf j hj).1 (hbufC m h j hj t ht0), .inr ⟨j, by omega, ht0⟩⟩
  have h1 := h.copiedTo hcopy1 hframes1
  have hwalk1 : ∀ a, ∀ j ≤ 4, (m1.under C).table a j = (m.under C).table a j :=
    walks_of_copiedTo hcopy1 fun j hj t ht => (hframes1 j hj t ht).2.1
  have hcr31 : m1.cr3 = P := hcopy1.cr3_eq
  have hload1 : Forking.loadCr3 child_pml4 m1 = .ok ((), m1.under C) := by
    have hload := h1.loadCr3 hr hr.child_pml4 (.inl rfl)
    rwa [← hcr31, Memory.under_self] at hload
  -- the new pages
  have hsame1 : (m1.under C).freeFrames = m.freeFrames := freeFrames_of_pool hcopy1.pool_eq
  obtain ⟨m3, hrun3, h3, hmapped⟩ := (h1.under C).allocPagesFrom (n := cnt) (i := 0) rfl hv
    (fun j _ hj => hlower j (by omega))
    (fun j _ hj => (hwalk1 _ 4 (Nat.le_refl 4)).trans (hnone j (by omega))) (by omega)
  have hcr33 := hmapped.cr3_eq
  have hunder3 : m3.under C = m3 := by rw [← hcr33, Memory.under_self]
  -- the buffer into the new pages
  have hcan3 : CanCopy L S (m3.under C) v buf_page cnt := {
    dst_mem := fun j hj => h.forked.user _ (hlower j hj)
    src_mem := fun j hj => h.forked.parent.sub _ (hbuf j hj).1
    dst_page := fun j hj => by
      rw [hunder3]
      exact hmapped.new j (Nat.zero_le j) (by omega)
    src_page := fun j hj => by
      obtain ⟨-, -, g, hg⟩ := hbuf j hj
      exact ⟨g, hbufC m3 h3 j hj g hg⟩
    apart := fun j hj k hk => Ne.symm (buffer_ne_lower (hbuf k hk).2.1 (hlower j hj))
    dst_aligned := hv
    src_aligned := hr.aligned }
  obtain ⟨m4, hrun4, hcopy4⟩ := hcan3.copyWords h3.forked.child h3.small
  have hframes4 : ∀ j < cnt, ∀ t, (m3.under C).table (v + 4096 * j) 4 = some t →
      Fresh m3.word P t ∧ Fresh m3.word C t ∧ (m0.FreeIn t ∨ InBuffer buf_page (m0.under P) t) := by
    intro j hj t ht
    have hlow := hlower j hj
    exact ⟨(h3.forked.childOwn _ hlow 4 (Nat.le_refl 4) t ht).1,
      h3.forked.child.fresh _ t (h.forked.user _ hlow) ht, .inl (h3.new _ hlow 3 (Nat.le_refl 3) t ht)⟩
  have h4 := h3.copiedTo hcopy4 hframes4
  have hwalk4 : ∀ a, ∀ j ≤ 4, (m4.under C).table a j = (m3.under C).table a j :=
    walks_of_copiedTo hcopy4 fun j hj t ht => (hframes4 j hj t ht).2.1
  have hcr34 : m4.cr3 = C := hcopy4.cr3_eq
  have hload4 : Forking.loadCr3 parent_pml4 m4 = .ok ((), m4.under P) := by
    have hload := h4.loadCr3 hr hr.parent_pml4 (.inr rfl)
    rwa [← hcr34, Memory.under_self] at hload
  have hrun1' : copyWords buf_page v (512 * cnt) m = .ok ((), m1) := by rwa [hunder] at hrun1
  have hrun3' : getPages v cnt (m1.under C) = .ok (true, m3) := hrun3
  have hrun4' : copyWords v buf_page (512 * cnt) m3 = .ok ((), m4) := by rwa [hunder3] at hrun4
  refine ⟨m4.under P, ?_, h4.under P, {
    cr3_eq := rfl
    frames := ?_
    copies := fun j hj => ?_
    others := fun a ha hne => ?_ }⟩
  · rw [Forking.copyPages, Prog.bind_of_ok hrun1', Prog.bind_of_ok hload1, Prog.bind_of_ok hrun3',
      Prog.bind_of_ok hrun4', hload4]
  · have hsame4 : (m4.under P).freeFrames = m3.freeFrames := freeFrames_of_pool hcopy4.pool_eq
    have hle := hmapped.frames
    omega
  · obtain ⟨f, hf⟩ := hparent j hj
    obtain ⟨-, -, b, hb⟩ := hbuf j hj
    obtain ⟨g, hg⟩ := hmapped.new j (Nat.zero_le j) (by omega)
    have hg3 : (m3.under C).table (v + 4096 * j) 4 = some g := by rwa [hunder3]
    have hbC := hbufC m1 h1 j hj b hb
    have hbS := (hbuf j hj).1
    have hbuffer : m3.word b = m1.word b :=
      (hmapped.words b (h1.forked.child.fresh _ b hbS hbC)
        (h1.forked.child.taken _ b (h1.forked.child.sub _ hbS) hbC)).2.2
    refine ⟨f, g, hf, (hwalk4 _ 4 (Nat.le_refl 4)).trans hg3, fun i hi => ?_⟩
    calc m4.word g i
        = m3.word b i := hcopy4.words j hj g b hg3 (hbufC m3 h3 j hj b hb) i hi
      _ = m1.word b i := congrFun hbuffer i
      _ = m.word f i := hcopy1.words j hj b f (hbufP j hj b hb) ((h.walks _ 4 (Nat.le_refl 4)).trans hf) i hi
      _ = m0.word f i := congrFun (h.page_kept hr (hlower j hj) hf) i
  · have htable3 : m3.table a 4 = (m.under C).table a 4 :=
      (hmapped.others a ha fun j _ hj => hne j (by omega)).trans (hwalk1 a 4 (Nat.le_refl 4))
    refine ⟨(hwalk4 a 4 (Nat.le_refl 4)).trans (by rw [hunder3, htable3]), fun g hg => ?_⟩
    have hSa := h.forked.user a ha
    have hg1 : (m1.under C).table a 4 = some g := (hwalk1 a 4 (Nat.le_refl 4)).trans hg
    have hg3 : (m3.under C).table a 4 = some g := by rw [hunder3, htable3, hg]
    -- its frame is none of the new pages, no table, and not in the buffer
    have hword4 : m4.word g = m3.word g := by
      refine hcopy4.others g fun j hj hread => hne j hj ?_
      have heq := h3.forked.child.apart _ _ g hSa (h.forked.halves.lower _ (hlower j hj)) hg3 hread
      omega
    have hword3 : m3.word g = m1.word g :=
      (hmapped.words g (h1.forked.child.fresh a g hSa hg1)
        (h1.forked.child.taken a g (h1.forked.child.sub a hSa) hg1)).2.2
    have hword1 : m1.word g = m.word g := by
      refine hcopy1.others g fun j hj hread => ?_
      have hread0 : (m0.under P).table (buf_page + 4096 * j) 4 = some g :=
        (h.walks _ 4 (Nat.le_refl 4)).symm.trans hread
      have hreadC := hbufC m h j hj g hread0
      have heq := h.forked.child.apart _ _ g hSa (h.forked.child.sub _ (hbuf j hj).1) hg hreadC
      have hindex := index_of_page heq
      have hlow := ha.index_lt
      have hup := (hbuf j hj).2.1
      omega
    exact hword4.trans (hword3.trans hword1)

end Copy

end Forking

end RecoverOS
