import RecoverOS.UserProg.TwoSpaces

set_option autoImplicit false

/-! # Giving pages back (`kernel/memory.c`)

`free_pages` takes the present bit from the entry of a page. The tables on the way stay. -/

namespace RecoverOS

open Paging

/-! ## One turn of the loop -/

section FreePage

variable {m m' : Memory} {v f x : Nat} {pml4 : Option Nat}

theorem load_state (h : load v m = .ok (x, m')) : m' = m := by
  unfold load at h
  obtain ⟨m1, _, hget, h⟩ := Prog.bind_eq_ok.1 h
  obtain ⟨rfl, rfl⟩ := Prog.get_eq_ok.1 hget
  obtain ⟨p, _, hoption, h⟩ := Prog.bind_eq_ok.1 h
  obtain ⟨-, rfl⟩ := Prog.ofOption_eq_ok.1 hoption
  exact (Prog.pure_eq_ok.1 h).2.symm

theorem flushTlbForce_under (h : flushTlbForce pml4 m = .ok ((), m')) : ∃ r, m' = m.under r := by
  cases pml4 with
  | none =>
      obtain ⟨cr3, m1, hnone, hset⟩ := Prog.bind_eq_ok.1 h
      obtain ⟨-, rfl⟩ := Prog.pure_eq_ok.1 hnone
      exact ⟨_, Prog.modify_eq_ok.1 hset⟩
  | some p =>
      obtain ⟨cr3, m1, haddr, hset⟩ := Prog.bind_eq_ok.1 h
      unfold addrV2p at haddr
      obtain ⟨pte, m2, hload, hpte⟩ := Prog.bind_eq_ok.1 haddr
      obtain ⟨-, rfl⟩ := Prog.pure_eq_ok.1 hpte
      obtain rfl := load_state hload
      exact ⟨_, Prog.modify_eq_ok.1 hset⟩

namespace Memory

/-- Word `i` of frame `f` is an absent entry, and no other word has changed. -/
structure Clears (m m' : Memory) (f i : Nat) : Prop where
  pool : m.Shrinks m'
  absent : m'.word f i % 2 = 0
  word : ∀ t j, ¬ (t = f ∧ j = i) → m'.word t j = m.word t j

end Memory

/-- The entry of the page is cleared, then `CR3` is loaded, and then the bit of the frame is set. -/
theorem freePage_flush (hself : SelfMapped m.word m.cr3) (htab : m.table v 3 = some f)
    (h : freePage pml4 v m = .ok ((), m')) : ∃ m1 m2, m.Clears m1 f (index v 3) ∧ m1.cr3 = m.cr3 ∧
      flushTlbForce pml4 m1 = .ok ((), m2) ∧ m'.cr3 = m2.cr3 ∧ m.Clears m' f (index v 3) := by
  have hload : load (ptePtr v) m = .ok (m.word f (index v 3), m) := load_fu hself (Nat.le_refl 3) htab
  have haddr : addrV2p v m = .ok (_, m) := Prog.bind_of_ok hload _
  have hget : Prog.get m = .ok (m, m) := rfl
  rw [freePage, Prog.bind_of_ok haddr, Prog.bind_of_ok hget, Prog.bind_of_ok hload] at h
  obtain ⟨⟨⟩, m1, hassert, h⟩ := Prog.bind_eq_ok.1 h
  obtain ⟨hpres, rfl⟩ := Prog.assert_eq_ok.1 hassert
  rw [Nat.and_one_is_mod] at hpres
  have hstore : store (ptePtr v) _ m = .ok ((), _) :=
    store_fu (e := m.word f (index v 3) + 2 ^ 64 - 1) hself (Nat.le_refl 3) htab
  rw [Prog.bind_of_ok hstore] at h
  obtain ⟨⟨⟩, m2, hflush, h⟩ := Prog.bind_eq_ok.1 h
  have habs : setWord m.word f (index v 3) ((m.word f (index v 3) + 2 ^ 64 - 1) % 2 ^ 64) f (index v 3) % 2 = 0 := by
    rw [setWord_apply, if_pos ⟨rfl, rfl⟩]
    omega
  refine ⟨{ m with word := setWord m.word f (index v 3) ((m.word f (index v 3) + 2 ^ 64 - 1) % 2 ^ 64) }, m2,
    ⟨⟨rfl, rfl, fun _ hi => hi⟩, habs, fun t j hne => setWord_ne hne⟩, rfl, hflush, ?_⟩
  obtain ⟨r, rfl⟩ := flushTlbForce_under hflush
  simp only [setPhy, Prog.bind_eq_ok, Prog.get_eq_ok, Prog.require_eq_ok, Prog.modify_eq_ok] at h
  obtain ⟨t, t', ⟨rfl, rfl⟩, -, t'', ⟨-, rfl⟩, rfl⟩ := h
  refine ⟨rfl, ⟨rfl, rfl, fun i hi => ?_⟩, habs, fun t j hne => setWord_ne hne⟩
  show bitmapRead (bitmapSet m.phy_pool.pool_bitmap _ true) i = true
  rw [bitmapRead_bitmapSet]
  split
  · rfl
  · exact hi

theorem freePage_clears (hself : SelfMapped m.word m.cr3) (htab : m.table v 3 = some f)
    (h : freePage pml4 v m = .ok ((), m')) : m.Clears m' f (index v 3) := by
  obtain ⟨-, -, -, -, -, -, hclears⟩ := freePage_flush hself htab h
  exact hclears

end FreePage

namespace Memory

/-! ## The address space without the page -/

section Clears

variable {L S : Nat → Prop} {m m' : Memory} {R P C v f a g : Nat}

/-- The tables stay where they are. -/
theorem Clears.tables (hc : m.Clears m' f (index v 3)) (hl : (m.under R).Layout L) (hv : L v)
    (htab : (m.under R).table v 3 = some f) (a : Nat) :
    ∀ j ≤ 3, (m'.under R).table a j = (m.under R).table a j :=
  table_congr fun j hj t ht => hc.word t _ fun heq => by
    have hdeep := hl.deep v hv 3 (Nat.le_refl 3) f htab a j (by omega) (heq.1 ▸ ht)
    omega

theorem Clears.none (hc : m.Clears m' f (index v 3)) (hl : (m.under R).Layout L) (hv : L v)
    (htab : (m.under R).table v 3 = some f) : (m'.under R).table v 4 = none := by
  cases hread : (m'.under R).table v 4 with
  | none => rfl
  | some g =>
      obtain ⟨f', hf', hlead⟩ := table_succ.1 hread
      have hsame : (m'.under R).table v 3 = some f := (hc.tables hl hv htab v 3 (Nat.le_refl 3)).trans htab
      obtain rfl : f' = f := Option.some.inj (hf'.symm.trans hsame)
      have habs : (m'.under R).word f' (index v 3) % 2 = 0 := hc.absent
      rw [leads_absent habs] at hlead
      cases hlead

/-- The other pages stay too. -/
theorem Clears.page (hc : m.Clears m' f (index v 3)) (hp : (m.under R).Pages L S) (hv : L v)
    (htab : (m.under R).table v 3 = some f) (ha : L a) (hne : a / 4096 ≠ v / 4096) :
    (m'.under R).table a 4 = (m.under R).table a 4 := by
  refine table_congr (fun j hj t ht => hc.word t _ ?_) 4 (Nat.le_refl 4)
  rintro ⟨rfl, hi⟩
  obtain ⟨rfl, hpath⟩ := hp.layout.separate a v ha hv j (by omega) 3 (Nat.le_refl 3) t ht htab
  refine hne (page_eq_of_index (hp.canonical a ha) (hp.canonical v hv) fun i hi' => ?_)
  by_cases hlt : i < 3
  · exact hpath i hlt
  · obtain rfl : i = 3 := by omega
    exact hi

theorem Clears.page_of (hc : m.Clears m' f (index v 3)) (hp : (m.under R).Pages L S) (hv : L v)
    (htab : (m.under R).table v 3 = some f) (ha : L a) (hread : (m'.under R).table a 4 = some g) :
    (m.under R).table a 4 = some g := by
  by_cases hpage : a / 4096 = v / 4096
  · rw [table_page hpage, hc.none hp.layout hv htab] at hread
    cases hread
  · rwa [hc.page hp hv htab ha hpage] at hread

theorem Pages.clears (hp : (m.under R).Pages L S) (hv : L v) (htab : (m.under R).table v 3 = some f)
    (hc : m.Clears m' f (index v 3)) : (m'.under R).Pages L S := by
  have hl := hp.layout
  refine hp.of_tables rfl ⟨hc.pool.start, hc.pool.size, hc.pool.bits⟩ (fun a => hc.tables hl hv htab a)
    (fun a k hk t ht => ?_) fun a g ha hread => hc.page_of hp hv htab ha hread
  -- no walk meets the last table of `v` so early
  funext i
  refine hc.word t i fun heq => ?_
  have hdeep := hl.deep v hv 3 (Nat.le_refl 3) f htab a k (by omega) (heq.1 ▸ ht)
  omega

/-- A page of the child that is given back. -/
theorem Forked.clears (h : m.Forked L S P C) (hv : Lower v) (htab : (m.under C).table v 3 = some f)
    (hc : m.Clears m' f (index v 3)) : m'.Forked L S P C := by
  have hvL := h.halves.lower v hv
  have hown := (h.childOwn v hv 3 (by omega) f htab).1
  have hword : ∀ t, t ≠ f → m'.word t = m.word t :=
    fun t ht => funext fun i => hc.word t i fun heq => ht heq.1
  have hP : ∀ a, ∀ j ≤ 3, ∀ t, (m.under P).table a j = some t → m'.word t = m.word t :=
    fun a j hj t ht => hword t fun heq => hown a j hj (ht.trans (congrArg some heq))
  have hwalkP : ∀ a, ∀ j ≤ 4, (m'.under P).table a j = (m.under P).table a j := fun a => table_of_words (hP a)
  have htablesC := fun a => hc.tables h.child.layout hvL htab a
  have hroot : C ≠ f := fun heq => by
    have hdeep := h.child.layout.deep v hvL 3 (Nat.le_refl 3) f htab 0 0 (by omega) (congrArg some heq)
    omega
  have hpageC : ∀ a, Lower a → ∀ j ≤ 4, ∀ t, (m'.under C).table a j = some t →
      (m.under C).table a j = some t := by
    intro a ha j hj t ht
    by_cases hj3 : j ≤ 3
    · exact (htablesC a j hj3).symm.trans ht
    · obtain rfl : j = 4 := by omega
      exact hc.page_of h.child hvL htab (h.halves.lower a ha) ht
  exact {
    halves := h.halves
    user := h.user
    parent := h.parent.congr rfl ⟨hc.pool.start, hc.pool.size, hc.pool.bits⟩ hP
    child := h.child.clears hvL htab hc
    entry := by
      rw [hword C hroot, hP 0 0 (by omega) P rfl]
      exact h.entry
    childOwn := fun a ha j hj t ht => by
      obtain ⟨hfresh, hpage⟩ := h.childOwn a ha j hj t (hpageC a ha j hj t ht)
      exact ⟨fresh_of_tables (fun b i hi => hwalkP b i (by omega)) hfresh,
        fun b hb hread => hpage b hb ((hwalkP b 4 (Nat.le_refl 4)).symm.trans hread)⟩
    parentOwn := fun a ha j hj t ht =>
      fresh_of_tables htablesC (h.parentOwn a ha j hj t ((hwalkP a j hj).symm.trans ht)) }

end Clears

end Memory

end RecoverOS
