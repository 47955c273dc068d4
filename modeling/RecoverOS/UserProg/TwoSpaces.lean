import RecoverOS.UserProg.MappedPages

set_option autoImplicit false

/-! # Two address spaces with one kernel half

The address space of a process and one that was made from it: the entry of the kernel half is the same in both
pml4s, the lower halves share nothing. -/

namespace RecoverOS

open Paging

/-- An address of the lower half. -/
def Lower (a : Nat) : Prop := a < 2 ^ 47

theorem Lower.index_lt {a : Nat} (h : Lower a) : index a 0 < 256 := by
  unfold Lower at h
  simp only [index]
  omega

theorem Lower.mono {a b : Nat} (h : Lower b) (hle : a ≤ b) : Lower a := Nat.lt_of_le_of_lt hle h

namespace Memory

/-- The same memory, with another pml4 loaded. -/
def under (m : Memory) (root : Nat) : Memory := { m with cr3 := root }

@[simp] theorem under_word (m : Memory) (r : Nat) : (m.under r).word = m.word := rfl

@[simp] theorem under_cr3 (m : Memory) (r : Nat) : (m.under r).cr3 = r := rfl

theorem under_self (m : Memory) : m.under m.cr3 = m := rfl

/-- The addresses looked at: the lower half, and addresses behind entry 256 of the pml4. -/
structure Halves (L : Nat → Prop) : Prop where
  lower : ∀ a, Lower a → L a
  upper : ∀ a, L a → Lower a ∨ index a 0 = 256

/-- No entry of the kernel half leads to a table of the lower half. -/
def LowerOwn (m : Memory) (P : Nat) : Prop :=
  ∀ a, Lower a → ∀ j ≤ 3, ∀ t, (m.under P).table a j = some t →
    ∀ b, ∀ i ≤ 3, (m.under P).table b i = some t →
      ∀ k < i, (m.under P).table b k = some P → ¬ (256 ≤ index b k ∧ index b k < 511)

theorem LowerOwn.of_tables {m m' : Memory} {P : Nat}
    (htables : ∀ a, ∀ j ≤ 3, (m'.under P).table a j = (m.under P).table a j) (h : m.LowerOwn P) :
    m'.LowerOwn P := by
  intro a ha j hj t ht b i hi hread k hk hroot
  rw [htables a j hj] at ht
  rw [htables b i hi] at hread
  rw [htables b k (by omega)] at hroot
  exact h a ha j hj t ht b i hi hread k hk hroot

/-- What `create_pml4` makes of frame `C`. -/
structure ChildRoot (m : Memory) (P C : Nat) : Prop where
  lt : C < 2 ^ 40
  lower : ∀ i < 256, m.word C i = 0
  upper : ∀ i, 256 ≤ i → i < 511 → m.word C i = m.word P i
  last : m.word C 511 = 4096 * C + 7

/-- The two address spaces. -/
structure Forked (L S : Nat → Prop) (P C : Nat) (m : Memory) : Prop where
  halves : Halves L
  user : ∀ a, Lower a → S a
  parent : (m.under P).Pages L S
  child : (m.under C).Pages L S
  entry : m.word C 256 = m.word P 256
  /-- The tables and the pages in the lower half of the child are neither tables nor pages of the parent. -/
  childOwn : ∀ a, Lower a → ∀ j ≤ 4, ∀ t, (m.under C).table a j = some t →
    Fresh m.word P t ∧ ∀ b, S b → (m.under P).table b 4 ≠ some t
  /-- Those of the parent are no tables of the child. -/
  parentOwn : ∀ a, Lower a → ∀ j ≤ 4, ∀ t, (m.under P).table a j = some t → Fresh m.word C t

section New

variable {L S : Nat → Prop} {m m' : Memory} {P C a b j t v g : Nat}

/-- A walk from the new pml4 is one from the old pml4, past one of its kernel entries. -/
theorem ChildRoot.walk (h : ChildRoot m P C) (hself : SelfMapped m.word P) (hC : Fresh m.word P C)
    (hj : j ≤ 3) (ht : (m.under C).table a j = some t) :
    (t = C ∧ (m.under P).table a j = some P) ∨
      (t ≠ C ∧ (m.under P).table a j = some t ∧
        ∃ k < j, (m.under P).table a k = some P ∧ 256 ≤ index a k ∧ index a k < 511) := by
  induction j generalizing t with
  | zero =>
      cases ht
      exact .inl ⟨rfl, rfl⟩
  | succ j ih =>
      obtain ⟨f, hf, hlead⟩ := table_succ.1 ht
      have hi := index_lt a j
      obtain ⟨rfl, hP⟩ | ⟨hne, hP, k, hk, hkP, hkernel⟩ := ih (by omega) hf
      · by_cases hlow : index a j < 256
        · have hword : (m.under f).word f (index a j) = 0 := h.lower _ hlow
          rw [hword, leads_absent (by omega)] at hlead
          cases hlead
        · by_cases hlast : index a j = 511
          · left
            have hword : (m.under f).word f (index a j) = 4096 * f + 7 := by
              rw [hlast]
              exact h.last
            have hlt := h.lt
            rw [hword] at hlead
            obtain ⟨-, -, hframe⟩ := leads_eq_some.1 hlead
            refine ⟨by omega, table_succ.2 ⟨P, hP, ?_⟩⟩
            rw [hlast]
            exact leads_mono hself (Nat.zero_le j)
          · right
            have hword : (m.under f).word f (index a j) = m.word P (index a j) :=
              h.upper _ (by omega) (by omega)
            rw [hword] at hlead
            have hnext : (m.under P).table a (j + 1) = some t := table_succ.2 ⟨P, hP, hlead⟩
            exact ⟨fun heq => hC a (j + 1) hj (heq ▸ hnext), hnext, j, Nat.lt_succ_self j, hP, by omega⟩
      · right
        have hnext : (m.under P).table a (j + 1) = some t := table_succ.2 ⟨f, hP, hlead⟩
        exact ⟨fun heq => hC a (j + 1) hj (heq ▸ hnext), hnext, k, by omega, hkP, hkernel⟩

/-- Behind entry 256 the walks are the same. -/
theorem kernel_table (hentry : m.word C 256 = m.word P 256) (ha : index a 0 = 256) (n : Nat) :
    (m.under C).table a (n + 1) = (m.under P).table a (n + 1) := by
  induction n with
  | zero =>
      simp only [Memory.table, under_word, under_cr3, Paging.table, Option.bind_some, ha, hentry]
  | succ n ih =>
      unfold Memory.table at ih ⊢
      rw [Paging.table, Paging.table.eq_2 (m.under P).word, ih]
      rfl

theorem ChildRoot.lower_none (h : ChildRoot m P C) (ha : Lower a) (n : Nat) :
    (m.under C).table a (n + 1) = none := by
  cases hread : (m.under C).table a (n + 1) with
  | none => rfl
  | some t =>
      obtain ⟨f, hf⟩ := table_of_le hread (show 1 ≤ n + 1 by omega)
      obtain ⟨f', hf', hlead⟩ := table_succ.1 hf
      cases hf'
      have hword : (m.under C).word (m.under C).cr3 (index a 0) = 0 := h.lower _ ha.index_lt
      rw [hword, leads_absent (by omega)] at hlead
      cases hlead

/-- What is no table of the old address space is none of the new one. -/
theorem ChildRoot.fresh (h : ChildRoot m P C) (hself : SelfMapped m.word P) (hC : Fresh m.word P C)
    (hne : t ≠ C) (ht : Fresh m.word P t) : Fresh m.word C t := by
  intro b i hi hread
  obtain ⟨heq, -⟩ | ⟨-, hP, -⟩ := h.walk hself hC hi hread
  · exact hne heq
  · exact ht b i hi hP

/-- The new address space, next to the one that it was made from. -/
theorem ChildRoot.forked (h : ChildRoot m P C) (hL : Halves L) (hS : ∀ a, Lower a → S a)
    (hp : (m.under P).Pages L S) (hown : m.LowerOwn P) (hC : Fresh m.word P C) (hfree : ¬ m.FreeIn C)
    (hpage : ∀ b, S b → (m.under P).table b 4 ≠ some C) : m.Forked L S P C := by
  have hself : SelfMapped m.word P := hp.layout.self
  have hentry := h.upper 256 (by omega) (by omega)
  have hkernel : ∀ a, L a → ∀ n t, (m.under C).table a (n + 1) = some t →
      (m.under P).table a (n + 1) = some t := by
    intro a ha n t ht
    obtain hlow | hup := hL.upper a ha
    · rw [h.lower_none hlow] at ht
      cases ht
    · rwa [kernel_table hentry hup] at ht
  have hfresh : ∀ t, t ≠ C → Fresh m.word P t → Fresh m.word C t := fun _ => h.fresh hself hC
  -- two walks that meet from the new pml4 meet from the old one
  have hmeet : ∀ a b, ∀ j ≤ 3, ∀ k ≤ 3, ∀ f, (m.under C).table a j = some f →
      (m.under C).table b k = some f → ∃ f', (m.under P).table a j = some f' ∧
        (m.under P).table b k = some f' := by
    intro a b j hj k hk f ha hb
    obtain ⟨rfl, hPa⟩ | ⟨hne, hPa, -⟩ := h.walk hself hC hj ha
    · obtain ⟨-, hPb⟩ | ⟨hne', -⟩ := h.walk hself hC hk hb
      · exact ⟨P, hPa, hPb⟩
      · exact absurd rfl hne'
    · obtain ⟨rfl, -⟩ | ⟨-, hPb, -⟩ := h.walk hself hC hk hb
      · exact absurd rfl hne
      · exact ⟨f, hPa, hPb⟩
  exact {
    halves := hL
    user := hS
    parent := hp
    child := {
      layout := {
        self := by
          have hlt := h.lt
          show leads 0 (m.word C 511) = some C
          rw [h.last]
          exact leads_eq_some.2 (by omega)
        unused := fun i hi hclear => by
          obtain ⟨g, hg, hstart, hun⟩ := hp.layout.unused i hi hclear
          refine ⟨g, hg, hstart, hfresh g ?_ hun⟩
          rintro rfl
          exact hfree ⟨i, hi, hclear, hstart⟩
        plain := fun a ha k hk f hf hpres => by
          cases k with
          | zero =>
              cases hf
              obtain hlow | hup := hL.upper a ha
              · have hword : (m.under C).word (m.under C).cr3 (index a 0) = 0 := h.lower _ hlow.index_lt
                omega
              · rw [kernel_table hentry hup 0]
                refine hp.layout.plain a ha 0 hk P rfl ?_
                have hword : (m.under C).word (m.under C).cr3 (index a 0) =
                    (m.under P).word P (index a 0) := by
                  rw [hup]
                  exact hentry
                exact hword ▸ hpres
          | succ k =>
              obtain hlow | hup := hL.upper a ha
              · rw [h.lower_none hlow] at hf
                cases hf
              · rw [kernel_table hentry hup] at hf ⊢
                exact hp.layout.plain a ha (k + 1) hk f hf hpres
        separate := fun a b ha hb j hj k hk f hfa hfb => by
          obtain ⟨f', hPa, hPb⟩ := hmeet a b j hj k hk f hfa hfb
          exact hp.layout.separate a b ha hb j hj k hk f' hPa hPb
        deep := fun b hb k hk f hfb a j hj hfa => by
          obtain ⟨f', hPa, hPb⟩ := hmeet a b j hj k hk f hfa hfb
          exact hp.layout.deep b hb k hk f' hPb a j hj hPa }
      canonical := hp.canonical
      sub := hp.sub
      fresh := fun a g ha hg => by
        have hP := hkernel a (hp.sub a ha) 3 g hg
        exact hfresh g (fun heq => hpage a ha (heq ▸ hP)) (hp.fresh a g ha hP)
      taken := fun a g ha hg => hp.taken a g ha (hkernel a ha 3 g hg)
      apart := fun a b g ha hb hga hgb =>
        hp.apart a b g ha hb (hkernel a (hp.sub a ha) 3 g hga) (hkernel b hb 3 g hgb) }
    entry := hentry
    childOwn := fun a ha j _ t ht => by
      cases j with
      | zero =>
          cases ht
          exact ⟨hC, hpage⟩
      | succ j =>
          rw [h.lower_none ha] at ht
          cases ht
    parentOwn := fun a ha j hj t ht b i hi hread => by
      obtain ⟨rfl, -⟩ | ⟨-, hP, k, hk, hroot, hkern⟩ := h.walk hself hC hi hread
      · by_cases hj4 : j = 4
        · subst hj4
          exact hpage a (hS a ha) ht
        · exact hC a j (by omega) ht
      · by_cases hj4 : j = 4
        · subst hj4
          exact hp.fresh a t (hS a ha) ht b i hi hP
        · exact hown a ha j (by omega) t ht b i hi hP k hk hroot hkern }

end New

/-! ## Changing one of them -/

section Change

variable {L S : Nat → Prop} {m m' : Memory} {P C a b j t v g : Nat}

/-- No table of the parent is free. -/
theorem Forked.parent_not_free (h : m.Forked L S P C) (hj : j ≤ 3) (ht : (m.under P).table a j = some t) :
    ¬ m.FreeIn t := h.parent.layout.not_freeIn hj ht

/-- Walks do not depend on what is no table. -/
theorem table_of_words {r : Nat} (h : ∀ j ≤ 3, ∀ t, (m.under r).table a j = some t → m'.word t = m.word t) :
    ∀ j ≤ 4, (m'.under r).table a j = (m.under r).table a j :=
  table_congr fun j hj t ht => congrFun (h j (by omega) t ht) _

/-- It does not matter which of the two is loaded. -/
theorem Forked.under (h : m.Forked L S P C) (r : Nat) : (m.under r).Forked L S P C where
  halves := h.halves
  user := h.user
  parent := h.parent
  child := h.child
  entry := h.entry
  childOwn := h.childOwn
  parentOwn := h.parentOwn

/-- Nor which of them was made from the other. -/
theorem Forked.symm (h : m.Forked L S P C) : m.Forked L S C P where
  halves := h.halves
  user := h.user
  parent := h.child
  child := h.parent
  entry := h.entry.symm
  childOwn := fun a ha j hj t ht => by
    refine ⟨h.parentOwn a ha j hj t ht, fun b hb hread => ?_⟩
    obtain hlow | hup := h.halves.upper b (h.child.sub b hb)
    · have hpage := (h.childOwn b hlow 4 (Nat.le_refl 4) t hread).2 a (h.user a ha)
      by_cases hj3 : j ≤ 3
      · exact (h.childOwn b hlow 4 (Nat.le_refl 4) t hread).1 a j hj3 ht
      · obtain rfl : j = 4 := by omega
        exact hpage ht
    · rw [kernel_table h.entry hup] at hread
      by_cases hj3 : j ≤ 3
      · exact h.parent.fresh b t hb hread a j hj3 ht
      · obtain rfl : j = 4 := by omega
        have hsame := h.parent.apart b a t hb (h.halves.lower a ha) hread ht
        have hlow := ha.index_lt
        have hcan := h.parent.canonical b (h.parent.sub b hb)
        have hcan' := h.parent.canonical a (h.halves.lower a ha)
        simp only [index] at hup hlow
        omega
  parentOwn := fun a ha j hj t ht => (h.childOwn a ha j hj t ht).1

/-- Words outside the tables may change, and fewer frames may be free. -/
theorem Forked.congr (h : m.Forked L S P C) (hpool : m.Shrinks m')
    (hP : ∀ a, ∀ j ≤ 3, ∀ t, (m.under P).table a j = some t → m'.word t = m.word t)
    (hC : ∀ a, ∀ j ≤ 3, ∀ t, (m.under C).table a j = some t → m'.word t = m.word t) :
    m'.Forked L S P C := by
  have hwalkP : ∀ a, ∀ j ≤ 4, (m'.under P).table a j = (m.under P).table a j := fun a => table_of_words (hP a)
  have hwalkC : ∀ a, ∀ j ≤ 4, (m'.under C).table a j = (m.under C).table a j := fun a => table_of_words (hC a)
  have hfreshP : ∀ t, Fresh m.word P t → Fresh m'.word P t :=
    fun _ => fresh_of_tables fun a j hj => hwalkP a j (by omega)
  have hfreshC : ∀ t, Fresh m.word C t → Fresh m'.word C t :=
    fun _ => fresh_of_tables fun a j hj => hwalkC a j (by omega)
  have hshrinkP : (m.under P).Shrinks (m'.under P) := ⟨hpool.start, hpool.size, hpool.bits⟩
  have hshrinkC : (m.under C).Shrinks (m'.under C) := ⟨hpool.start, hpool.size, hpool.bits⟩
  exact {
    halves := h.halves
    user := h.user
    parent := h.parent.congr rfl hshrinkP hP
    child := h.child.congr rfl hshrinkC hC
    entry := by
      rw [hC 0 0 (by omega) C rfl, hP 0 0 (by omega) P rfl]
      exact h.entry
    childOwn := fun a ha j hj t ht => by
      obtain ⟨hfresh, hpage⟩ := h.childOwn a ha j hj t ((hwalkC a j hj).symm.trans ht)
      refine ⟨hfreshP t hfresh, fun b hb hread => hpage b hb ?_⟩
      exact (hwalkP b 4 (Nat.le_refl 4)).symm.trans hread
    parentOwn := fun a ha j hj t ht => hfreshC t (h.parentOwn a ha j hj t ((hwalkP a j hj).symm.trans ht)) }

/-- A page of the child that is filled in changes no walk of the parent. -/
theorem Forked.parent_words (h : m.Forked L S P C) (hv : Lower v) (hfills : (m.under C).Fills m' v)
    (hj : j ≤ 3) (ht : (m.under P).table a j = some t) : m'.word t = m.word t := by
  funext i
  obtain hword | ⟨-, k, hk, hread, -⟩ := hfills.words t i (h.parent_not_free hj ht)
  · exact hword
  · exact absurd ht ((h.childOwn v hv k (by omega) t hread).1 a j hj)

/-- A new page of the child. -/
theorem Forked.mapsPage (h : m.Forked L S P C) (hv : Lower v) (hmaps : (m.under C).MapsPage L S m' v g) :
    m'.Forked L S P C := by
  have hfills := hmaps.fills
  have hcr3 : m'.cr3 = C := hfills.cr3_eq
  have hunder : m'.under C = m' := by rw [← hcr3, under_self]
  have hpool : m.Shrinks m' := ⟨hfills.pool.start, hfills.pool.size, hfills.pool.bits⟩
  have hP : ∀ a, ∀ j ≤ 3, ∀ t, (m.under P).table a j = some t → m'.word t = m.word t :=
    fun a j hj t ht => h.parent_words hv hfills hj ht
  have hwalkP : ∀ a, ∀ j ≤ 4, (m'.under P).table a j = (m.under P).table a j := fun a => table_of_words (hP a)
  have hfreshP : ∀ t, Fresh m.word P t → Fresh m'.word P t :=
    fun _ => fresh_of_tables fun a j hj => hwalkP a j (by omega)
  have hfreshC : ∀ t, Fresh m.word C t → ¬ m.FreeIn t → Fresh m'.word C t := by
    intro t ht hfree
    have hfresh := hfills.fresh ht hfree
    rwa [hcr3] at hfresh
  have hshrinkP : (m.under P).Shrinks (m'.under P) := ⟨hpool.start, hpool.size, hpool.bits⟩
  -- a frame that was free is no table and no page of the parent
  have hnew : ∀ t, m.FreeIn t → Fresh m.word P t ∧ ∀ b, S b → (m.under P).table b 4 ≠ some t :=
    fun t hfree => ⟨h.parent.layout.fresh_freeIn hfree,
      fun b hb hread => h.parent.taken b t (h.parent.sub b hb) hread hfree⟩
  exact {
    halves := h.halves
    user := h.user
    parent := h.parent.congr rfl hshrinkP hP
    child := by
      rw [hunder]
      exact hmaps.pages.mono fun a ha => .inl ha
    entry := by
      have hroot : ¬ (m.under C).FreeIn C := h.child.layout.not_freeIn (a := 0) (j := 0) (by omega) rfl
      have hlow := hv.index_lt
      rw [hP 0 0 (by omega) P rfl, ← h.entry]
      obtain hword | ⟨-, k, hk, hread, hi⟩ := hfills.words C 256 hroot
      · exact hword
      · obtain ⟨hdeep, -⟩ := h.child.layout.separate v v (h.halves.lower v hv) (h.halves.lower v hv) k hk 0
          (by omega) C hread rfl
        rw [hdeep] at hi
        omega
    childOwn := fun a ha j hj t ht => by
      rw [hunder] at ht
      have hold : Fresh m.word P t ∧ ∀ b, S b → (m.under P).table b 4 ≠ some t := by
        by_cases hj3 : j ≤ 3
        · obtain hread | hfree := hfills.tables a j hj3 t ht
          · exact h.childOwn a ha j hj t hread
          · exact hnew t hfree
        · obtain rfl : j = 4 := by omega
          by_cases hpage : a / 4096 = v / 4096
          · rw [table_page hpage, hmaps.page] at ht
            cases ht
            exact hnew _ hmaps.was_free
          · rw [hmaps.others a (h.halves.lower a ha) hpage] at ht
            exact h.childOwn a ha 4 hj t ht
      refine ⟨hfreshP t hold.1, fun b hb hread => hold.2 b hb ?_⟩
      exact (hwalkP b 4 (Nat.le_refl 4)).symm.trans hread
    parentOwn := fun a ha j hj t ht => by
      rw [hwalkP a j hj] at ht
      refine hfreshC t (h.parentOwn a ha j hj t ht) ?_
      by_cases hj3 : j ≤ 3
      · exact h.parent_not_free hj3 ht
      · obtain rfl : j = 4 := by omega
        exact h.parent.taken a t (h.halves.lower a ha) ht }

end Change

end Memory

end RecoverOS
