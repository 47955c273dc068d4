import RecoverOS.Base.Run
import RecoverOS.UserProg.CopyBody
import RecoverOS.UserProg.FreedPages

set_option autoImplicit false

/-! # Processes after a fork (`userprog/fork.c`)

The processes run with the same addresses, each with its own pml4 loaded: they store words, and the kernel gives
them pages and takes pages back. To each of them its memory is private, and a fork adds a process that starts
with what its parent has. -/

namespace RecoverOS

open Paging

namespace Forking

/-! ## What processes do to the memory -/

/-- A store of the process, or one turn of the loops over its pages in the kernel. -/
inductive Act where
  | store (addr value : Nat)
  | map (vaddr : Nat) (ok : Bool)
  | unmap (vaddr : Nat)

/-- The steps of the process that runs on the pml4 `root`. -/
inductive ActStep (root : Nat) (m : Memory) : Act → Memory → Prop where
  /-- A word is stored at a mapped address. -/
  | store {addr value : Nat} {m' : Memory} : Lower addr → addr % 8 = 0 →
      RecoverOS.store addr value (m.under root) = .ok ((), m') → ActStep root m (.store addr value) m'
  /-- The loop of `alloc_pages` and `get_pages` maps a page, or `palloc` has returned `NULL`. -/
  | map {vaddr : Nat} {ok : Bool} {m' : Memory} : Lower vaddr →
      getPage vaddr (m.under root) = .ok (ok, m') → ActStep root m (.map vaddr ok) m'
  /-- The loop of `free_pages` takes a mapped page away. -/
  | unmap {vaddr : Nat} {pml4 : Option Nat} {m' : Memory} : Lower vaddr →
      (m.under root).table vaddr 4 ≠ none →
      freePage pml4 vaddr (m.under root) = .ok ((), m') → ActStep root m (.unmap vaddr) m'

/-- One of the processes does something. -/
structure Event (ι : Type) where
  proc : ι
  act : Act

/-- A step of the processes together; `root` is the pml4 that is loaded while a process runs. -/
def UserStep {ι : Type} (root : ι → Nat) (m : Memory) (e : Event ι) (m' : Memory) : Prop :=
  ActStep (root e.proc) m e.act m'

/-- The pml4s after a fork; `none` is the child. -/
def forkRoot {ι : Type} (root : ι → Nat) (C : Nat) : Option ι → Nat
  | none => C
  | some i => root i

/-! ## The memory of one process -/

/-- What a process knows of its memory: the pages that it has, and the words it can rely on. -/
structure UserMem where
  mapped : Nat → Prop
  word : Nat → Option Nat

namespace UserMem

/-- Memory of its own after something it did; a new page holds what its frame held before. -/
def act (u : UserMem) : Act → UserMem
  | .store addr value => { u with word := Function.update u.word (addr / 8) (some (value % 2 ^ 64)) }
  | .map vaddr true =>
      { mapped := fun p => p = vaddr / 4096 ∨ u.mapped p
        word := fun w => if 8 * w / 4096 = vaddr / 4096 then none else u.word w }
  | .map _ false => u
  | .unmap vaddr => { u with mapped := fun p => p ≠ vaddr / 4096 ∧ u.mapped p }

/-- What other processes do changes nothing. -/
def own {ι : Type} [DecidableEq ι] (i : ι) (u : UserMem) (e : Event ι) : UserMem :=
  if e.proc = i then u.act e.act else u

end UserMem

/-- Word `w` of an address space. -/
def userWord (m : Memory) (root w : Nat) : Option Nat :=
  ((m.under root).table (8 * w) 4).map fun g => m.word g (8 * w % 4096 / 8)

/-- The address space under `root` is that memory. -/
structure Sees (m : Memory) (root : Nat) (u : UserMem) : Prop where
  pages : ∀ a, Lower a → ((m.under root).table a 4 ≠ none ↔ u.mapped (a / 4096))
  words : ∀ w x y, Lower (8 * w) → userWord m root w = some x → u.word w = some y → x = y

theorem userWord_page {m : Memory} {root w f : Nat} (h : (m.under root).table (8 * w) 4 = some f) :
    userWord m root w = some (m.word f (8 * w % 4096 / 8)) :=
  congrArg (Option.map _) h

/-- All there is to know of an address space. -/
def memoryOf (m : Memory) (root : Nat) : UserMem where
  mapped := fun p => (m.under root).table (4096 * p) 4 ≠ none
  word := userWord m root

theorem sees_memoryOf (m : Memory) (root : Nat) : Sees m root (memoryOf m root) where
  pages := fun a _ => by
    show _ ↔ (m.under root).table (4096 * (a / 4096)) 4 ≠ none
    rw [Memory.table_page (show a / 4096 = 4096 * (a / 4096) / 4096 by omega)]
  words := fun _ _ _ _ hx hy => Option.some.inj (hx.symm.trans hy)

/-- A known word of a page that is mapped is there to be read. -/
theorem Sees.userWord {m : Memory} {root w y : Nat} {u : UserMem} (h : Sees m root u) (hw : Lower (8 * w))
    (hmapped : u.mapped (8 * w / 4096)) (hy : u.word w = some y) : userWord m root w = some y := by
  obtain ⟨f, hf⟩ := Option.ne_none_iff_exists'.1 ((h.pages (8 * w) hw).2 hmapped)
  have hread := userWord_page hf
  rw [hread, h.words w _ y hw hread hy]

section Proofs

variable {L S : Nat → Prop} {m m' : Memory} {A B P C a v f : Nat} {act : Act} {u : UserMem}

/-! ## The three steps -/

theorem store_cases {addr value : Nat} (h : store addr value (m.under B) = .ok ((), m')) :
    ∃ g, (m.under B).table addr 4 = some g ∧
      m' = { m.under B with word := setWord m.word g (addr % 4096 / 8) (value % 2 ^ 64) } := by
  unfold store at h
  obtain ⟨m1, _, hget, h⟩ := Prog.bind_eq_ok.1 h
  obtain ⟨rfl, rfl⟩ := Prog.get_eq_ok.1 hget
  obtain ⟨p, _, hoption, h⟩ := Prog.bind_eq_ok.1 h
  obtain ⟨htrans, rfl⟩ := Prog.ofOption_eq_ok.1 hoption
  unfold Memory.translate Paging.translate at htrans
  split at htrans
  case isFalse => cases htrans
  case isTrue =>
    obtain ⟨g, hg, rfl⟩ := Option.map_eq_some_iff.1 htrans
    have hframe : (4096 * g + addr % 4096) / 4096 = g := by omega
    have hidx : (4096 * g + addr % 4096) % 4096 / 8 = addr % 4096 / 8 := by omega
    rw [Prog.modify_eq_ok.1 h, hframe, hidx]
    exact ⟨g, hg, rfl⟩

theorem palloc_null {m1 : Memory} (h : palloc m = .ok (none, m1)) : m1 = m := by
  unfold palloc at h
  obtain ⟨m2, _, hget, hrest⟩ := Prog.bind_eq_ok.1 h
  obtain ⟨rfl, rfl⟩ := Prog.get_eq_ok.1 hget
  cases halloc : bitmapAllocABit m.phy_pool.pool_bitmap with
  | none =>
      rw [halloc] at hrest
      exact (Prog.pure_eq_ok.1 hrest).2.symm
  | some r =>
      rw [halloc] at hrest
      obtain ⟨_, m3, -, hpure⟩ := Prog.bind_eq_ok.1 hrest
      cases (Prog.pure_eq_ok.1 hpure).1

theorem getPage_cases {ok : Bool} (hp : m.Pages L S) (hv : L v) (h : getPage v m = .ok (ok, m')) :
    ok = false ∧ m' = m ∨ ok = true ∧ ∃ g, m.MapsPage L S m' v g := by
  unfold getPage at h
  obtain ⟨paddr, m1, hpalloc, hrest⟩ := Prog.bind_eq_ok.1 h
  cases paddr with
  | none =>
      obtain ⟨rfl, rfl⟩ := Prog.pure_eq_ok.1 hrest
      exact .inl ⟨rfl, palloc_null hpalloc⟩
  | some p =>
      obtain ⟨_, m2, hmap, hpure⟩ := Prog.bind_eq_ok.1 hrest
      obtain ⟨rfl, rfl⟩ := Prog.pure_eq_ok.1 hpure
      exact .inr ⟨rfl, hp.pageMap hv hpalloc hmap⟩

/-- A turn of `free_pages` clears the entry of the page. -/
theorem freePage_cases {pml4 : Option Nat} (hself : SelfMapped m.word B) (hv : (m.under B).table v 4 ≠ none)
    (h : freePage pml4 v (m.under B) = .ok ((), m')) :
    ∃ f, (m.under B).table v 3 = some f ∧ m.Clears m' f (index v 3) := by
  obtain ⟨g, hg⟩ := Option.ne_none_iff_exists'.1 hv
  obtain ⟨f, hf, -⟩ := table_succ.1 hg
  have hclears := freePage_clears (m := m.under B) hself hf h
  exact ⟨f, hf, ⟨hclears.pool.start, hclears.pool.size, hclears.pool.bits⟩, hclears.absent, hclears.word⟩

/-- A store to a page of one process changes no table of the two. -/
theorem store_words (h : m.Forked L S A B) (ha : Lower a) (hf : (m.under B).table a 4 = some f) (i e : Nat) :
    (∀ b, ∀ j ≤ 3, ∀ t, (m.under A).table b j = some t → setWord m.word f i e t = m.word t) ∧
      ∀ b, ∀ j ≤ 3, ∀ t, (m.under B).table b j = some t → setWord m.word f i e t = m.word t := by
  have hother : ∀ t, t ≠ f → setWord m.word f i e t = m.word t :=
    fun t ht => funext fun i' => setWord_ne fun hc => ht hc.1
  have hA := (h.childOwn a ha 4 (Nat.le_refl 4) f hf).1
  have hB := h.child.fresh a f (h.user a ha) hf
  exact ⟨fun b j hj t ht => hother t fun heq => hA b j hj (ht.trans (congrArg some heq)),
    fun b j hj t ht => hother t fun heq => hB b j hj (ht.trans (congrArg some heq))⟩

/-! ## The other process -/

/-- The pages of an address space are where they were, with the words they had. -/
structure Untouched (m m' : Memory) (A : Nat) : Prop where
  walks : ∀ a, ∀ j ≤ 4, (m'.under A).table a j = (m.under A).table a j
  word : ∀ a f, Lower a → (m.under A).table a 4 = some f → m'.word f = m.word f

theorem Untouched.sees (h : Untouched m m' A) (hu : Sees m A u) : Sees m' A u where
  pages := fun a ha => by
    rw [h.walks a 4 (Nat.le_refl 4)]
    exact hu.pages a ha
  words := fun w x y hw hx hy => by
    obtain ⟨f, hf, rfl⟩ := Option.map_eq_some_iff.1 hx
    rw [h.walks _ 4 (Nat.le_refl 4)] at hf
    rw [h.word _ f hw hf]
    exact hu.words w _ y hw (userWord_page hf) hy

/-- Whatever a process does, the tables and the pages of the other one are not touched, and the two address
    spaces stay apart. -/
theorem ActStep.other (h : m.Forked L S A B) (hstep : ActStep B m act m') :
    (∀ a, ∀ j ≤ 3, ∀ t, (m.under A).table a j = some t → m'.word t = m.word t) ∧
      (∀ a f, Lower a → (m.under A).table a 4 = some f → m'.word f = m.word f) ∧
      m.Shrinks m' ∧ m'.Forked L S A B := by
  cases hstep with
  | store hlow _ hrun =>
      obtain ⟨g, hg, rfl⟩ := store_cases hrun
      obtain ⟨hA, hB⟩ := store_words h hlow hg _ _
      refine ⟨hA, fun a f ha hf => funext fun i => setWord_ne ?_, ⟨rfl, rfl, fun _ hi => hi⟩,
        h.congr ⟨rfl, rfl, fun _ hi => hi⟩ hA hB⟩
      rintro ⟨rfl, -⟩
      exact (h.childOwn _ hlow 4 (Nat.le_refl 4) f hg).2 a (h.user a ha) hf
  | map hlow hrun =>
      obtain ⟨-, rfl⟩ | ⟨-, g, hmaps⟩ := getPage_cases h.child (h.halves.lower _ hlow) hrun
      · exact ⟨fun _ _ _ _ _ => rfl, fun _ _ _ _ => rfl, ⟨rfl, rfl, fun _ hi => hi⟩, h.under B⟩
      · have hpool := hmaps.fills.pool
        refine ⟨fun a j hj t ht => h.parent_words hlow hmaps.fills hj ht, fun a f ha hf => ?_,
          ⟨hpool.start, hpool.size, hpool.bits⟩, h.mapsPage hlow hmaps⟩
        exact hmaps.fills.word_eq (h.parentOwn a ha 4 (Nat.le_refl 4) f hf)
          (h.parent.taken a f (h.halves.lower a ha) hf)
  | unmap hlow hmapped hrun =>
      have hself : SelfMapped m.word B := h.child.layout.self
      obtain ⟨t, ht, hclears⟩ := freePage_cases hself hmapped hrun
      obtain ⟨hfresh, hpage⟩ := h.childOwn _ hlow 3 (by omega) t ht
      have hother : ∀ f, f ≠ t → m'.word f = m.word f :=
        fun f hf => funext fun i => hclears.word f i fun hc => hf hc.1
      refine ⟨fun a j hj f hf => hother f ?_, fun a f ha hf => hother f ?_, hclears.pool,
        h.clears hlow ht hclears⟩
      · rintro rfl
        exact hfresh a j hj hf
      · rintro rfl
        exact hpage a (h.user a ha) hf

/-! ## The process itself -/

theorem ActStep.self (h : m.Forked L S A B) (hstep : ActStep B m act m') (hu : Sees m B u) :
    Sees m' B (u.act act) := by
  have hL := h.halves.lower
  cases hstep with
  | @store addr value _ hlow haligned hrun =>
      obtain ⟨g, hg, hm'⟩ := store_cases hrun
      have hstored : m'.word = setWord m.word g (addr % 4096 / 8) (value % 2 ^ 64) := by rw [hm']
      have hwalks : ∀ a, ∀ j ≤ 4, (m'.under B).table a j = (m.under B).table a j := by
        intro a
        refine Memory.table_of_words ?_
        rw [hstored]
        exact (store_words h hlow hg _ _).2 a
      refine ⟨fun a ha => ?_, fun w x y hw hx hy => ?_⟩
      · rw [hwalks a 4 (Nat.le_refl 4)]
        exact hu.pages a ha
      · obtain ⟨f, hf, rfl⟩ := Option.map_eq_some_iff.1 hx
        rw [hwalks _ 4 (Nat.le_refl 4)] at hf
        rw [hstored]
        have hword : Function.update u.word (addr / 8) (some (value % 2 ^ 64)) w = some y := hy
        by_cases hwaddr : w = addr / 8
        · -- the word that was stored
          have haddr : 8 * w = addr := by omega
          rw [hwaddr, Function.update_self] at hword
          rw [haddr, hg] at hf
          obtain rfl : g = f := Option.some.inj hf
          rw [haddr, setWord_apply, if_pos ⟨rfl, rfl⟩]
          exact Option.some.inj hword
        · rw [Function.update_of_ne hwaddr] at hword
          refine (setWord_ne ?_).trans (hu.words w _ y hw (userWord_page hf) hword)
          rintro ⟨rfl, hi⟩
          have hpage := h.child.apart _ _ f (h.user _ hw) (hL _ hlow) hf hg
          omega
  | @map vaddr ok _ hlow hrun =>
      obtain ⟨rfl, rfl⟩ | ⟨rfl, g, hmaps⟩ := getPage_cases h.child (hL _ hlow) hrun
      · exact ⟨hu.pages, hu.words⟩
      · have hunder : m'.under B = m' := by
          have hcr3 : m'.cr3 = B := hmaps.fills.cr3_eq
          rw [← hcr3, Memory.under_self]
        refine ⟨fun a ha => ?_, fun w x y hw hx hy => ?_⟩
        · show _ ↔ a / 4096 = vaddr / 4096 ∨ u.mapped (a / 4096)
          by_cases hpage : a / 4096 = vaddr / 4096
          · rw [hunder, Memory.table_page hpage, hmaps.page]
            exact ⟨fun _ => .inl hpage, fun _ => Option.some_ne_none g⟩
          · rw [hunder, hmaps.others a (hL a ha) hpage, hu.pages a ha]
            exact (or_iff_right hpage).symm
        · have hword : (if 8 * w / 4096 = vaddr / 4096 then none else u.word w) = some y := hy
          split at hword
          case isTrue => cases hword
          case isFalse hpage =>
            obtain ⟨f, hf, rfl⟩ := Option.map_eq_some_iff.1 hx
            rw [hunder, hmaps.others _ (hL _ hw) hpage] at hf
            rw [hmaps.fills.word_eq (h.child.fresh _ f (h.user _ hw) hf) (h.child.taken _ f (hL _ hw) hf)]
            exact hu.words w _ y hw (userWord_page hf) hword
  | @unmap vaddr _ _ hlow hmapped hrun =>
      have hself : SelfMapped m.word B := h.child.layout.self
      obtain ⟨t, ht, hclears⟩ := freePage_cases hself hmapped hrun
      refine ⟨fun a ha => ?_, fun w x y hw hx hy => ?_⟩
      · show _ ↔ a / 4096 ≠ vaddr / 4096 ∧ u.mapped (a / 4096)
        by_cases hpage : a / 4096 = vaddr / 4096
        · rw [Memory.table_page hpage, hclears.none h.child.layout (hL _ hlow) ht]
          exact ⟨fun hne => absurd rfl hne, fun hne => absurd hpage hne.1⟩
        · rw [hclears.page h.child (hL _ hlow) ht (hL a ha) hpage, hu.pages a ha]
          exact (and_iff_right hpage).symm
      · obtain ⟨f, hf, rfl⟩ := Option.map_eq_some_iff.1 hx
        have hold := hclears.page_of h.child (hL _ hlow) ht (hL _ hw) hf
        have hne : f ≠ t := by
          rintro rfl
          exact h.child.fresh _ f (h.user _ hw) hold _ 3 (Nat.le_refl 3) ht
        rw [hclears.word f _ fun hc => hne hc.1]
        exact hu.words w _ y hw (userWord_page hold) hy

/-! ## All together -/

/-- Any two of the address spaces are apart. -/
def AllApart {ι : Type} (L S : Nat → Prop) (root : ι → Nat) (m : Memory) : Prop :=
  ∀ i j, i ≠ j → m.Forked L S (root i) (root j)

variable {ι : Type} [DecidableEq ι] {root : ι → Nat} {e : Event ι}

omit [DecidableEq ι] in
theorem AllApart.step (h : AllApart L S root m) (hstep : UserStep root m e m') : AllApart L S root m' := by
  intro i j hij
  by_cases hj : j = e.proc
  · subst hj
    exact (ActStep.other (h i _ hij) hstep).2.2.2
  by_cases hi : i = e.proc
  · subst hi
    exact (ActStep.other (h j _ hj) hstep).2.2.2.symm
  · obtain ⟨htables, -, hpool, -⟩ := ActStep.other (h i _ hi) hstep
    exact (h i j hij).congr hpool htables (ActStep.other (h j _ hj) hstep).1

/-- The step lemma. -/
theorem UserStep.sees (h : AllApart L S root m) (hothers : ∀ i : ι, ∃ j, j ≠ i) (hstep : UserStep root m e m')
    (i : ι) (hu : Sees m (root i) u) : Sees m' (root i) (u.own i e) := by
  unfold UserMem.own
  by_cases hi : e.proc = i
  · rw [if_pos hi]
    subst hi
    obtain ⟨j, hj⟩ := hothers e.proc
    exact ActStep.self (h j _ hj) hstep hu
  · rw [if_neg hi]
    obtain ⟨htables, hword, -⟩ := ActStep.other (h i _ (Ne.symm hi)) hstep
    have huntouched : Untouched m m' (root i) := ⟨fun a => Memory.table_of_words (htables a), hword⟩
    exact huntouched.sees hu

/-- The run lemma. -/
theorem run_sees {es : List (Event ι)} (h : AllApart L S root m) (hothers : ∀ i : ι, ∃ j, j ≠ i)
    (hrun : Run (UserStep root) m es m') : AllApart L S root m' ∧
      ∀ (i : ι) (u : UserMem), Sees m (root i) u → Sees m' (root i) (es.foldl (UserMem.own i) u) := by
  induction hrun with
  | nil => exact ⟨h, fun _ _ hu => hu⟩
  | snoc _ hstep ih =>
      obtain ⟨hapart, hsees⟩ := ih
      refine ⟨hapart.step hstep, fun i u hu => ?_⟩
      rw [List.foldl_append]
      exact hstep.sees hapart hothers i (hsees i u hu)

/-! ## The other processes while one forks -/

variable {Q child_pml4 parent_pml4 buf_page : Nat} {m0 : Memory}

/-- A process beside the parent, before the fork. -/
structure Bystander (L S : Nat → Prop) (P C : Nat) (m : Memory) (Q : Nat) : Prop where
  forked : m.Forked L S Q P
  fresh : Fresh m.word Q C
  page : ∀ b, S b → (m.under Q).table b 4 ≠ some C

/-- Its pages are not in the buffer. -/
theorem Bystander.not_inBuffer {t : Nat} (b : Bystander L S P C m Q)
    (hr : ReadyToCopy L S P C child_pml4 parent_pml4 buf_page m) (h : InBuffer buf_page (m.under P) t) :
    Fresh m.word Q t ∧ ∀ a, Lower a → (m.under Q).table a 4 ≠ some t := by
  obtain ⟨k, hk, hread⟩ := h
  obtain ⟨hS, hup, -⟩ := hr.buffer k hk
  have hreadQ : (m.under Q).table (buf_page + 4096 * k) 4 = some t :=
    (Memory.kernel_table b.forked.entry hup 3).symm.trans hread
  refine ⟨b.forked.parent.fresh _ t hS hreadQ, fun a ha hpage => ?_⟩
  have heq := b.forked.parent.apart _ a t hS (b.forked.halves.lower a ha) hreadQ hpage
  have hlow := ha.index_lt
  have hindex := index_of_page heq
  omega

theorem Bystander.table_kept {j t : Nat} (b : Bystander L S P C m0 Q) (h : Apart L S P C buf_page m0 m)
    (hr : ReadyToCopy L S P C child_pml4 parent_pml4 buf_page m0) (hj : j ≤ 3)
    (ht : (m0.under Q).table a j = some t) : m.word t = m0.word t := by
  refine h.kept t (b.forked.parent_not_free hj ht) ?_ fun hbuf => (b.not_inBuffer hr hbuf).1 a j hj ht
  rintro rfl
  exact b.fresh a j hj ht

theorem Bystander.untouched (b : Bystander L S P C m0 Q) (h : Apart L S P C buf_page m0 m)
    (hr : ReadyToCopy L S P C child_pml4 parent_pml4 buf_page m0) : Untouched m0 m Q where
  walks := fun a => Memory.table_of_words fun j hj t ht => b.table_kept h hr hj ht
  word := fun a t ha ht => by
    have hL := b.forked.halves.lower a ha
    refine h.kept t (b.forked.parent.taken a t hL ht) ?_ fun hbuf => (b.not_inBuffer hr hbuf).2 a ha ht
    rintro rfl
    exact b.page a (b.forked.user a ha) ht

/-- The child is apart from it too. -/
theorem Bystander.forked_child (b : Bystander L S P C m0 Q) (h : Apart L S P C buf_page m0 m)
    (hr : ReadyToCopy L S P C child_pml4 parent_pml4 buf_page m0) : m.Forked L S Q C := by
  have hwalks := (b.untouched h hr).walks
  have hQP : m.Forked L S Q P :=
    b.forked.congr h.pool (fun _ _ hj _ ht => b.table_kept h hr hj ht) fun _ _ hj _ ht => h.table_kept hr hj ht
  have htables : ∀ t, Fresh m0.word Q t → Fresh m.word Q t :=
    fun _ => Memory.fresh_of_tables fun a j hj => hwalks a j (by omega)
  have hpages : ∀ t, (∀ a, S a → (m0.under Q).table a 4 ≠ some t) → ∀ a, S a → (m.under Q).table a 4 ≠ some t :=
    fun t ht a ha hread => ht a ha ((hwalks a 4 (Nat.le_refl 4)).symm.trans hread)
  exact {
    halves := hQP.halves
    user := hQP.user
    parent := hQP.parent
    child := h.forked.child
    entry := h.forked.entry.trans hQP.entry
    childOwn := fun a ha j hj t ht => by
      cases j with
      | zero =>
          cases ht
          exact ⟨htables _ b.fresh, hpages _ b.page⟩
      | succ j =>
          -- a frame that was free
          have hfree := h.new a ha j (by omega) t ht
          exact ⟨htables t (b.forked.parent.layout.fresh_freeIn hfree), hpages t fun c hc hread =>
            b.forked.parent.taken c t (b.forked.parent.sub c hc) hread hfree⟩
    parentOwn := fun a ha j hj t ht c i hi hread => by
      rw [hwalks a j hj] at ht
      obtain hold | hfree := h.tables c i hi t hread
      · have hne : t ≠ C := by
          rintro rfl
          by_cases hj3 : j ≤ 3
          · exact b.fresh a j hj3 ht
          · obtain rfl : j = 4 := by omega
            exact b.page a (b.forked.user a ha) ht
        exact hr.root.fresh hr.forked.parent.layout.self (root_apart hr.forked).1 hne
          (b.forked.parentOwn a ha j hj t ht) c i hi hold
      · by_cases hj3 : j ≤ 3
        · exact b.forked.parent_not_free hj3 ht hfree
        · obtain rfl : j = 4 := by omega
          exact b.forked.parent.taken a t (b.forked.halves.lower a ha) ht hfree }

omit [DecidableEq ι] in
/-- Afterwards all of them are apart, the child among them. -/
theorem AllApart.fork {p : ι} (hall : AllApart L S root m0)
    (hbeside : ∀ i, i ≠ p → Bystander L S (root p) C m0 (root i)) (h : Apart L S (root p) C buf_page m0 m)
    (hr : ReadyToCopy L S (root p) C child_pml4 parent_pml4 buf_page m0) :
    AllApart L S (forkRoot root C) m := by
  have htables : ∀ i a, ∀ j ≤ 3, ∀ t, (m0.under (root i)).table a j = some t → m.word t = m0.word t := by
    intro i a j hj t ht
    by_cases hi : i = p
    · subst hi
      exact h.table_kept hr hj ht
    · exact (hbeside i hi).table_kept h hr hj ht
  have hchild : ∀ i, m.Forked L S (root i) C := by
    intro i
    by_cases hi : i = p
    · subst hi
      exact h.forked
    · exact (hbeside i hi).forked_child h hr
  intro i j hij
  cases i with
  | none =>
      cases j with
      | none => exact absurd rfl hij
      | some j => exact (hchild j).symm
  | some i =>
      cases j with
      | none => exact hchild i
      | some j => exact (hall i j fun heq => hij (congrArg some heq)).congr h.pool (htables i) (htables j)

end Proofs

/-! ## Private memories -/

/-- A fork among any number of processes makes one more memory. When `copy_body_stack` has returned, the child
    has the pages of the stack and of the pool with the words that its parent has there; and in whatever order
    the processes then store words, get pages and give pages back, the memory of each is what it has made of it
    alone. -/
theorem copyBodyStack_isolates {ι : Type} [DecidableEq ι] {L S : Nat → Prop} {root : ι → Nat} {p : ι}
    {C child_pml4 parent_pml4 buf_page : Nat} {pool : VirtPool} {m : Memory} {u : ι → UserMem}
    (hall : AllApart L S root m) (hbeside : ∀ i, i ≠ p → Bystander L S (root p) C m (root i))
    (hr : ReadyToCopy L S (root p) C child_pml4 parent_pml4 buf_page m) (hstart : pool.start % 4096 = 0)
    (hinside : pool.start + 4096 * pool.pool_bitmap.size ≤ USER_STACK_VADDR - STACK_PAGE_CNT * 4096)
    (hmapped : ∀ a, UserPage pool (a / 4096) → (m.under (root p)).table a 4 ≠ none)
    (hfree : 4 * (STACK_PAGE_CNT + bitsSet pool pool.pool_bitmap.size 0) ≤ m.freeFrames)
    (hu : ∀ i, Sees m (root i) (u i)) :
    ∃ m1, copyBodyStack child_pml4 parent_pml4 pool buf_page m = .ok ((), m1) ∧
      ∀ es m2, Run (UserStep (forkRoot root C)) m1 es m2 →
        (∀ i, Sees m2 (root i) (es.foldl (UserMem.own (some i)) (u i))) ∧
        Sees m2 C (es.foldl (UserMem.own none) { u p with mapped := UserPage pool }) := by
  obtain ⟨m1, hrun, hdone⟩ := exists_copyBodyStack hr hstart hinside hmapped hfree
  have hothers : ∀ i : Option ι, ∃ j, j ≠ i := by
    intro i
    cases i with
    | none => exact ⟨some p, Option.some_ne_none p⟩
    | some i => exact ⟨none, (Option.some_ne_none i).symm⟩
  refine ⟨m1, hrun, fun es m2 hevents => ?_⟩
  obtain ⟨-, hsees⟩ := run_sees (hall.fork hbeside hdone.apart hr) hothers hevents
  have hprocs : ∀ i, Sees m1 (root i) (u i) := by
    intro i
    by_cases hi : i = p
    · subst hi
      have huntouched : Untouched m m1 (root i) :=
        ⟨hdone.apart.walks, fun a f ha hf => hdone.apart.page_kept hr ha hf⟩
      exact huntouched.sees (hu i)
    · exact ((hbeside i hi).untouched hdone.apart hr).sees (hu i)
  have hchild : Sees m1 C { u p with mapped := UserPage pool } := by
    refine ⟨fun a ha => ⟨fun hne => ?_, fun huser => ?_⟩, fun w x y hw hx hy => ?_⟩
    · by_contra huser
      exact hne (hdone.none a ha huser)
    · obtain ⟨f, g, -, hg, -⟩ := hdone.copies a ha huser
      rw [hg]
      exact Option.some_ne_none g
    · obtain ⟨g, hg, rfl⟩ := Option.map_eq_some_iff.1 hx
      by_cases huser : UserPage pool (8 * w / 4096)
      · obtain ⟨f, g', hf, hg', hword⟩ := hdone.copies (8 * w) hw huser
        obtain rfl : g = g' := Option.some.inj (hg.symm.trans hg')
        rw [hword _ (by omega)]
        exact (hu p).words w _ y hw (userWord_page hf) hy
      · rw [hdone.none (8 * w) hw huser] at hg
        cases hg
  exact ⟨fun i => hsees (some i) (u i) (hprocs i), hsees none _ hchild⟩

theorem forkBeside_bystander {m1 : Memory} (honly : OnlyFrame 24 forkBeside m1)
    (hr : ReadyToCopy forkAddr forkPage 1 24 0xffff800000002000 0xffff800000003000 0xffff800000000000 m1) :
    Bystander forkAddr forkPage 1 24 m1 26 := by
  have hroot : forkBeside.ChildRoot 1 26 := by
    refine ⟨by decide, fun i hi => ?_, fun i hi hi' => ?_, rfl⟩
    · rw [forkBeside_root, if_pos hi]
    · rw [forkBeside_root, if_neg (by omega), if_neg (by omega), forkBeside_only.word 1 (by decide)]
  have hstart : forkBeside.Forked forkAddr forkPage 1 26 := by
    refine hroot.forked forkMemory_halves (fun _ ha => .inl ha) forkBeside_pages forkBeside_lowerOwn
      (forkBeside_fresh (by decide)) (fun hfree => ?_) fun b hb hread => ?_
    · have hle : 32 ≤ 26 := forkMemory_free hfree
      omega
    · exact (forkMemory_frame hb ((forkBeside_table b 4 (Nat.le_refl 4)).symm.trans hread)).2.2 rfl
  have h24 : Fresh forkBeside.word 26 24 := hroot.fresh hstart.parent.layout.self (forkBeside_fresh (by decide))
    (by decide) (forkBeside_fresh (by decide))
  have hword : ∀ {root : Nat}, Fresh forkBeside.word root 24 → ∀ a, ∀ j ≤ 3, ∀ t,
      (forkBeside.under root).table a j = some t → m1.word t = forkBeside.word t :=
    fun hfresh a j hj t ht => honly.word t fun heq => hfresh a j hj (ht.trans (congrArg some heq))
  have hwalks : ∀ a, ∀ j ≤ 4, (m1.under 26).table a j = (forkBeside.under 26).table a j :=
    fun a => Memory.table_of_words (hword h24 a)
  have hforked : m1.Forked forkAddr forkPage 1 26 := by
    have hpool := honly.pool_eq
    exact hstart.congr ⟨by rw [hpool], by rw [hpool], fun i hi => by rwa [hpool]⟩
      (hword (forkBeside_fresh (by decide))) (hword h24)
  refine ⟨hforked.symm, Memory.fresh_of_tables (fun a j hj => hwalks a j (by omega)) h24, fun b hb hread => ?_⟩
  obtain hlow | hup := forkMemory_halves.upper b (forkBeside_pages.sub b hb)
  · rw [hwalks b 4 (Nat.le_refl 4), hroot.lower_none hlow] at hread
    cases hread
  · rw [Memory.kernel_table hforked.entry hup] at hread
    exact (root_apart hr.forked).2 b hb hread

/-- A fork with a third process beside. After the child has stored 7 at 0x1000, the parent still reads 41
    there. -/
theorem copyBodyStack_isolates_fork : ∃ m m1 m2,
    copyBodyStack 0xffff800000002000 0xffff800000003000 forkPool 0xffff800000000000 m = .ok ((), m1) ∧
    Run (UserStep (forkRoot (fun i : Bool => if i = true then 1 else 26) 24)) m1 [⟨none, .store 0x1000 7⟩] m2 ∧
    userWord m2 1 512 = some 41 ∧ userWord m2 24 512 = some 7 := by
  obtain ⟨m, -, honly, hready, hmapped, hpage1, hframes⟩ := forkBeside_prepared
  have hlow : Lower (8 * 512) := by
    unfold Lower
    decide
  have hpage : UserPage forkPool (8 * 512 / 4096) := .inr ⟨0, by decide, by decide, by decide, by decide⟩
  have hword : userWord m 1 512 = some 41 := by
    have h41 : m.word 25 0 = 41 := by
      rw [honly.word 25 (by decide), forkBeside_only.word 25 (by decide)]
      rfl
    rw [userWord_page (w := 512) hpage1, h41]
  have hbystander := forkBeside_bystander honly hready
  have hall : AllApart forkAddr forkPage (fun i : Bool => if i = true then 1 else 26) m := by
    intro i j hij
    cases i <;> cases j
    · exact absurd rfl hij
    · exact hbystander.forked
    · exact hbystander.forked.symm
    · exact absurd rfl hij
  have hbeside : ∀ i : Bool, i ≠ true → Bystander forkAddr forkPage 1 24 m (if i = true then 1 else 26) := by
    intro i hi
    rw [if_neg hi]
    exact hbystander
  obtain ⟨m1, hrun, hisolated⟩ := copyBodyStack_isolates hall hbeside hready (by decide) (by decide) hmapped
    hframes fun i => sees_memoryOf m _
  obtain ⟨-, hchild⟩ := hisolated [] m1 .nil
  obtain ⟨g, hg⟩ := Option.ne_none_iff_exists'.1 ((hchild.pages (8 * 512) hlow).2 hpage)
  obtain ⟨m2, hstore⟩ : ∃ m2, store 0x1000 7 (m1.under 24) = .ok ((), m2) :=
    ⟨_, store_word (n := 0) (.inl hlow) (by decide) (by decide) hg⟩
  have hevents : Run (UserStep (forkRoot (fun i : Bool => if i = true then 1 else 26) 24)) m1
      ([] ++ [⟨none, .store 0x1000 7⟩]) m2 := Run.snoc Run.nil (ActStep.store hlow (by decide) hstore)
  obtain ⟨hparent2, hchild2⟩ := hisolated _ m2 hevents
  refine ⟨m, m1, m2, hrun, hevents, (hparent2 true).userWord hlow ?_ hword, hchild2.userWord hlow hpage ?_⟩
  · show (m.under 1).table 0x1000 4 ≠ none
    rw [hpage1]
    exact Option.some_ne_none 25
  · show Function.update (userWord m 1) 512 (some 7) 512 = some 7
    exact Function.update_self _ _ _

end Forking

end RecoverOS
