import RecoverOS.Memory.Accounting
import RecoverOS.UserProg.Exec

set_option autoImplicit false

/-! # Pages of an address space

What `page_map` does to one page of an address space whose tables are in order: which words it writes, and what
every other walk still finds. The addresses `L` have tables in order; the pages of `S` are no tables and share
their frames with no other page. -/

namespace RecoverOS

open Paging

namespace Memory

/-- Frame `g` is one that `palloc` may still return. -/
def FreeIn (m : Memory) (g : Nat) : Prop :=
  ∃ i < m.phy_pool.pool_bitmap.size, bitmapRead m.phy_pool.pool_bitmap i = false ∧
    m.phy_pool.start + 4096 * i = 4096 * g

section Frames

variable {P : Nat → Prop} {m : Memory} {v s f g idx : Nat}

theorem Unused.freeIn (h : m.Unused idx g) : m.FreeIn g := ⟨idx, h.inside, h.clear, h.start_eq⟩

theorem freeIn_takeFrame {g' : Nat} (hun : m.Unused idx g) :
    (m.takeFrame idx).FreeIn g' ↔ m.FreeIn g' ∧ g' ≠ g := by
  constructor
  · rintro ⟨i, hi, hclear, hstart⟩
    have hbit : ¬ (bitmapRead m.phy_pool.pool_bitmap i = true ∨ g' = g) := fun hset => by
      rw [(bit_takeFrame m hun hstart).2 hset] at hclear
      cases hclear
    rw [not_or, Bool.not_eq_true] at hbit
    exact ⟨⟨i, hi, hbit.1, hstart⟩, hbit.2⟩
  · rintro ⟨⟨i, hi, hclear, hstart⟩, hne⟩
    refine ⟨i, hi, ?_, hstart⟩
    rw [← Bool.not_eq_true]
    intro hset
    obtain hold | heq := (bit_takeFrame m hun hstart).1 hset
    · rw [hclear] at hold
      cases hold
    · exact hne heq

/-- Linking a table moves no page. -/
theorem Layout.table_linkFrame (hl : m.Layout P) (hv : P v) (hs : s < 3) (htab : m.table v s = some f)
    (habs : m.word f (index v s) % 2 = 0) (hun : m.Unused idx g) {a : Nat} (ha : P a) :
    (m.linkFrame idx f (index v s) g).table a 4 = m.table a 4 := by
  have hg := hun.lt
  have hlead : leads s (4096 * g + 7) = some g := leads_eq_some.2 (by omega)
  exact (follows_link hs htab habs hun.fresh hlead (hl.follows hv ha (by omega))).1

end Frames

theorem table_page {m : Memory} {a b : Nat} (h : a / 4096 = b / 4096) : m.table a 4 = m.table b 4 := by
  have hindex : ∀ k < 4, index a k = index b k := by
    intro k hk
    simp only [index]
    interval_cases k <;> omega
  have hwalk : ∀ k ≤ 4, Paging.table m.word m.cr3 a k = Paging.table m.word m.cr3 b k := by
    intro k
    induction k with
    | zero => exact fun _ => rfl
    | succ k ih =>
        intro hk
        simp only [Paging.table]
        rw [ih (by omega), hindex k (by omega)]
  exact hwalk 4 (Nat.le_refl 4)

/-- The pool is where it was, and no frame has become free. -/
structure Shrinks (m m' : Memory) : Prop where
  start : m'.phy_pool.start = m.phy_pool.start
  size : m'.phy_pool.pool_bitmap.size = m.phy_pool.pool_bitmap.size
  bits : ∀ i, bitmapRead m.phy_pool.pool_bitmap i = true → bitmapRead m'.phy_pool.pool_bitmap i = true

theorem Shrinks.refl (m : Memory) : m.Shrinks m := ⟨rfl, rfl, fun _ h => h⟩

theorem Shrinks.trans {m m1 m2 : Memory} (h : m.Shrinks m1) (h' : m1.Shrinks m2) : m.Shrinks m2 :=
  ⟨h'.start.trans h.start, h'.size.trans h.size, fun i hi => h'.bits i (h.bits i hi)⟩

theorem Shrinks.clear {m m' : Memory} (h : m.Shrinks m') {i : Nat}
    (hi : bitmapRead m'.phy_pool.pool_bitmap i = false) : bitmapRead m.phy_pool.pool_bitmap i = false := by
  rw [← Bool.not_eq_true] at hi ⊢
  exact fun hset => hi (h.bits i hset)

theorem Shrinks.freeIn {m m' : Memory} (h : m.Shrinks m') {g : Nat} (hg : m'.FreeIn g) : m.FreeIn g := by
  obtain ⟨i, hi, hclear, hstart⟩ := hg
  exact ⟨i, h.size ▸ hi, h.clear hclear, h.start ▸ hstart⟩

theorem shrinks_takeFrame (m : Memory) (idx : Nat) : m.Shrinks (m.takeFrame idx) := by
  refine ⟨rfl, rfl, fun i hi => ?_⟩
  show bitmapRead (bitmapSet m.phy_pool.pool_bitmap idx true) i = true
  rw [bitmapRead_bitmapSet]
  split
  · rfl
  · exact hi

/-- What filling absent entries on the way of `v` changes: other tables are frames that were free, and a word of
    a frame that was not free is an absent entry of `v`. -/
structure Fills (m m' : Memory) (v : Nat) : Prop where
  cr3_eq : m'.cr3 = m.cr3
  pool : m.Shrinks m'
  tables : ∀ a, ∀ j ≤ 3, ∀ t, m'.table a j = some t → m.table a j = some t ∨ m.FreeIn t
  words : ∀ t i, ¬ m.FreeIn t → m'.word t i = m.word t i ∨
    m.word t i % 2 = 0 ∧ ∃ j ≤ 3, m.table v j = some t ∧ i = index v j
  small : (∀ t i, m.word t i < 2 ^ 64) → ∀ t i, m'.word t i < 2 ^ 64

section Fills

variable {L S S' : Nat → Prop} {m m' : Memory} {v s f g t a n : Nat}

theorem Fills.refl (m : Memory) (v : Nat) : m.Fills m v :=
  ⟨rfl, .refl m, fun _ _ _ _ h => .inl h, fun _ _ _ => .inl rfl, id⟩

theorem Fills.trans {m1 : Memory} (h : m.Fills m1 v) (h' : m1.Fills m' v) : m.Fills m' v where
  cr3_eq := h'.cr3_eq.trans h.cr3_eq
  pool := h.pool.trans h'.pool
  tables := fun a j hj t ht => by
    obtain hold | hfree := h'.tables a j hj t ht
    · exact h.tables a j hj t hold
    · exact .inr (h.pool.freeIn hfree)
  words := fun t i hfree => by
    obtain hword' | ⟨hword', j, hj, ht, rfl⟩ := h'.words t i fun hc => hfree (h.pool.freeIn hc)
    · rw [hword']
      exact h.words t i hfree
    · obtain hword | habs := h.words t (index v j) hfree
      · obtain hold | hnew := h.tables v j hj t ht
        · exact .inr ⟨hword ▸ hword', j, hj, hold, rfl⟩
        · exact absurd hnew hfree
      · exact .inr habs
  small := fun hsmall => h'.small (h.small hsmall)

/-- A frame that is no table and not free stays one. -/
theorem Fills.fresh (h : m.Fills m' v) (ht : Fresh m.word m.cr3 t) (hfree : ¬ m.FreeIn t) :
    Fresh m'.word m'.cr3 t := fun a j hj hread => by
  obtain hold | hnew := h.tables a j hj t hread
  · exact ht a j hj hold
  · exact hfree hnew

/-- It is not written to. -/
theorem Fills.word_eq (h : m.Fills m' v) (ht : Fresh m.word m.cr3 t) (hfree : ¬ m.FreeIn t) :
    m'.word t = m.word t := by
  funext i
  obtain hword | ⟨-, j, hj, hread, -⟩ := h.words t i hfree
  · exact hword
  · exact absurd hread (ht v j hj)

theorem fills_takeFrame (m : Memory) (idx v : Nat) : m.Fills (m.takeFrame idx) v :=
  ⟨rfl, shrinks_takeFrame m idx, fun _ _ _ _ h => .inl h, fun _ _ _ => .inl rfl, id⟩

theorem fills_linkFrame {idx : Nat} (hun : m.Unused idx g) (htab : m.table v s = some f)
    (habs : m.word f (index v s) % 2 = 0) (hs : s ≤ 3) : m.Fills (m.linkFrame idx f (index v s) g) v where
  cr3_eq := rfl
  pool := ⟨rfl, rfl, (shrinks_takeFrame m idx).bits⟩
  tables := fun a j _ t ht => by
    have hg := hun.lt
    have hlead : leads 0 (4096 * g + 7) = some g := leads_eq_some.2 (by omega)
    obtain rfl | hold := table_link ht hlead
    · exact .inr hun.freeIn
    · exact .inl hold
  words := fun t i hfree => by
    have htg : t ≠ g := by
      rintro rfl
      exact hfree hun.freeIn
    by_cases hfi : t = f ∧ i = index v s
    · obtain ⟨rfl, rfl⟩ := hfi
      exact .inr ⟨habs, s, hs, htab, rfl⟩
    · left
      show link m.word f (index v s) (4096 * g + 7) g t i = m.word t i
      rw [link_apply, if_neg htg, if_neg hfi]
  small := fun hsmall t i => by
    have hg := hun.lt
    have hold := hsmall t i
    show link m.word f (index v s) (4096 * g + 7) g t i < 2 ^ 64
    rw [link_apply]
    split_ifs <;> omega

end Fills

/-! ## Pages -/

/-- The tables of `L` are in order, the frames behind it are not free, and the pages of `S` have frames to
    themselves that are no tables. -/
structure Pages (L S : Nat → Prop) (m : Memory) : Prop where
  layout : m.Layout L
  canonical : ∀ a, L a → Canonical a
  sub : ∀ a, S a → L a
  fresh : ∀ a g, S a → m.table a 4 = some g → Fresh m.word m.cr3 g
  taken : ∀ a g, L a → m.table a 4 = some g → ¬ m.FreeIn g
  apart : ∀ a b g, S a → L b → m.table a 4 = some g → m.table b 4 = some g → a / 4096 = b / 4096

/-- The page of `v` is mapped to frame `g`. -/
structure MapsPage (L S : Nat → Prop) (m m' : Memory) (v g : Nat) : Prop where
  fills : m.Fills m' v
  pages : m'.Pages L fun a => S a ∨ L a ∧ a / 4096 = v / 4096
  was_free : m.FreeIn g
  page : m'.table v 4 = some g
  entry : m'.entry v 3 = some (4096 * g + 7)
  others : ∀ a, L a → a / 4096 ≠ v / 4096 → m'.table a 4 = m.table a 4

section Pages

variable {L S S' : Nat → Prop} {m m' : Memory} {v s f g t a n : Nat}

theorem Pages.mono (h : m.Pages L S) (hsub : ∀ a, S' a → S a) : m.Pages L S' where
  layout := h.layout
  canonical := h.canonical
  sub := fun a ha => h.sub a (hsub a ha)
  fresh := fun a g ha => h.fresh a g (hsub a ha)
  taken := h.taken
  apart := fun a b g ha => h.apart a b g (hsub a ha)

/-- No table is free. -/
theorem Layout.not_freeIn (h : m.Layout L) {j : Nat} (hj : j ≤ 3) (ht : m.table a j = some t) :
    ¬ m.FreeIn t := by
  rintro ⟨i, hi, hclear, hstart⟩
  obtain ⟨g, -, hstart', hfresh⟩ := h.unused i hi hclear
  obtain rfl : g = t := by omega
  exact hfresh a j hj ht

theorem Layout.fresh_freeIn (h : m.Layout L) (hfree : m.FreeIn t) : Fresh m.word m.cr3 t :=
  fun _ _ hj ht => h.not_freeIn hj ht hfree

/-- A frame that is no table is none where the tables are the same. -/
theorem fresh_of_tables {w w' : Phys} {root root' : Nat}
    (h : ∀ a, ∀ j ≤ 3, Paging.table w' root' a j = Paging.table w root a j) (ht : Fresh w root t) :
    Fresh w' root' t := fun a j hj hread => ht a j hj ((h a j hj).symm.trans hread)

/-- The tables stay where they are, and no page has come or moved. -/
theorem Pages.of_tables (h : m.Pages L S) (hcr3 : m'.cr3 = m.cr3) (hpool : m.Shrinks m')
    (htables : ∀ a, ∀ j ≤ 3, m'.table a j = m.table a j)
    (hword : ∀ a, ∀ k < 3, ∀ t, m.table a k = some t → m'.word t = m.word t)
    (hpage : ∀ a g, L a → m'.table a 4 = some g → m.table a 4 = some g) : m'.Pages L S where
  layout := {
    self := by
      unfold SelfMapped
      rw [hcr3, hword 0 0 (by omega) m.cr3 rfl]
      exact h.layout.self
    unused := fun i hi hclear => by
      obtain ⟨g, hg, hstart, hun⟩ := h.layout.unused i (hpool.size ▸ hi) (hpool.clear hclear)
      exact ⟨g, hg, hpool.start ▸ hstart, fresh_of_tables htables hun⟩
    plain := fun a ha k hk f hf hpres => by
      rw [htables a k (by omega)] at hf
      rw [htables a (k + 1) (by omega)]
      exact h.layout.plain a ha k hk f hf (by rwa [hword a k hk f hf] at hpres)
    separate := fun a b ha hb j hj k hk f hfa hfb =>
      h.layout.separate a b ha hb j hj k hk f ((htables a j hj).symm.trans hfa)
        ((htables b k hk).symm.trans hfb)
    deep := fun b hb k hk f hfb a j hj hfa =>
      h.layout.deep b hb k hk f ((htables b k hk).symm.trans hfb) a j hj ((htables a j hj).symm.trans hfa) }
  canonical := h.canonical
  sub := h.sub
  fresh := fun a g ha hg => fresh_of_tables htables (h.fresh a g ha (hpage a g (h.sub a ha) hg))
  taken := fun a g ha hg hfree => h.taken a g ha (hpage a g ha hg) (hpool.freeIn hfree)
  apart := fun a b g ha hb hga hgb => h.apart a b g ha hb (hpage a g (h.sub a ha) hga) (hpage b g hb hgb)

/-- The state between two calls may differ in what is no table, and fewer frames may be free. -/
theorem Pages.congr (h : m.Pages L S) (hcr3 : m'.cr3 = m.cr3) (hpool : m.Shrinks m')
    (hword : ∀ a, ∀ j ≤ 3, ∀ t, m.table a j = some t → m'.word t = m.word t) : m'.Pages L S := by
  have htable : ∀ a, ∀ j ≤ 4, m'.table a j = m.table a j := by
    intro a
    unfold Memory.table
    rw [hcr3]
    exact table_congr fun j hj t ht => congrFun (hword a j (by omega) t ht) _
  exact h.of_tables hcr3 hpool (fun a j hj => htable a j (by omega)) (fun a k hk => hword a k (by omega))
    fun a g _ hg => (htable a 4 (Nat.le_refl 4)).symm.trans hg

/-- `page_map` with a frame that `palloc` returned. -/
theorem Pages.pageMap {m1 : Memory} {p : Nat} (hp : m.Pages L S) (hv : L v)
    (hpalloc : palloc m = .ok (some p, m1)) (h : RecoverOS.pageMap v p m1 = .ok ((), m')) :
    ∃ g, m.MapsPage L S m' v g := by
  have hl := hp.layout
  by_cases hfree : m.freeFrames = 0
  · rw [palloc_none hfree] at hpalloc
    cases hpalloc
  obtain ⟨idx, g, hrun, hun⟩ := palloc_spec hl.unused (Nat.pos_of_ne_zero hfree)
  obtain ⟨rfl, rfl⟩ : 4096 * g = p ∧ m.takeFrame idx = m1 := by
    rw [hrun] at hpalloc
    cases hpalloc
    exact ⟨rfl, rfl⟩
  have hl1 := hl.takeFrame hun
  have hg := hun.lt
  obtain ⟨m4, f4, hl4, ⟨hfills, hsame⟩, htab4, habs4, rfl⟩ := hl1.pageMap_run
    (C := fun m4 => (m.takeFrame idx).Fills m4 v ∧ ∀ a, L a → m4.table a 4 = m.table a 4) hv
    ⟨.refl _ v, fun _ _ => rfl⟩
    (fun hl hC hs htab habs hun => ⟨hC.1.trans (fills_linkFrame hun htab habs (by omega)),
      fun a ha => (hl.table_linkFrame hv hs htab habs hun ha).trans (hC.2 a ha)⟩) hg h
  have htables : ∀ a, ∀ j ≤ 3, (m4.mapped f4 (index v 3) (4096 * g)).table a j = m4.table a j :=
    table_mapped hl4 hv htab4
  have hlast : m4.Fills (m4.mapped f4 (index v 3) (4096 * g)) v := {
    cr3_eq := rfl
    pool := ⟨rfl, rfl, fun _ h => h⟩
    tables := fun a j hj t ht => .inl ((htables a j hj).symm.trans ht)
    words := fun t i _ => by
      by_cases hfi : t = f4 ∧ i = index v 3
      · obtain ⟨rfl, rfl⟩ := hfi
        exact .inr ⟨habs4, 3, Nat.le_refl 3, htab4, rfl⟩
      · exact .inl (setWord_ne hfi)
    small := fun hsmall t i => by
      have hold := hsmall t i
      show setWord m4.word f4 (index v 3) (4096 * g + 7) t i < 2 ^ 64
      rw [setWord_apply]
      split_ifs <;> omega }
  have hall := hfills.trans hlast
  have hlead : leads 3 (4096 * g + 7) = some g := leads_eq_some.2 (by omega)
  have hpage : (m4.mapped f4 (index v 3) (4096 * g)).table v 4 = some g :=
    table_setWord_next htab4 habs4 hlead
  have hentry : (m4.mapped f4 (index v 3) (4096 * g)).entry v 3 = some (4096 * g + 7) := by
    refine Option.map_eq_some_iff.2 ⟨f4, (htables v 3 (Nat.le_refl 3)).trans htab4, ?_⟩
    exact (setWord_apply _ _ _ _ _ _).trans (if_pos ⟨rfl, rfl⟩)
  have hothers : ∀ a, L a → a / 4096 ≠ v / 4096 →
      (m4.mapped f4 (index v 3) (4096 * g)).table a 4 = m.table a 4 := by
    intro a ha hpage
    refine Eq.trans ?_ (hsame a ha)
    refine table_setWord_of_ne (fun j hj hread hi => hpage ?_) 4 (Nat.le_refl 4)
    exact page_eq_of_index (hp.canonical a ha) (hp.canonical v hv)
      (hl4.follows hv ha (Nat.le_refl 3) f4 htab4 j hj hread hi).2
  have hnot : ¬ (m.takeFrame idx).FreeIn g := fun hc => ((freeIn_takeFrame hun).1 hc).2 rfl
  have hgone : ¬ (m4.mapped f4 (index v 3) (4096 * g)).FreeIn g := fun hc => hnot (hall.pool.freeIn hc)
  have hfresh : Fresh (m4.mapped f4 (index v 3) (4096 * g)).word m4.cr3 g := hall.fresh hun.fresh hnot
  have hfrom : m.Fills (m4.mapped f4 (index v 3) (4096 * g)) v := (fills_takeFrame m idx v).trans hall
  -- a page of the new memory is the new one or an old one
  have hcases : ∀ a t, L a → (m4.mapped f4 (index v 3) (4096 * g)).table a 4 = some t →
      (a / 4096 = v / 4096 ∧ t = g) ∨ (a / 4096 ≠ v / 4096 ∧ m.table a 4 = some t) := by
    intro a t ha hread
    by_cases hav : a / 4096 = v / 4096
    · rw [table_page hav, hpage] at hread
      exact .inl ⟨hav, (Option.some.inj hread).symm⟩
    · rw [hothers a ha hav] at hread
      exact .inr ⟨hav, hread⟩
  have hsub : ∀ a, (S a ∨ L a ∧ a / 4096 = v / 4096) → L a := fun a ha => ha.elim (hp.sub a) And.left
  refine ⟨g, hfrom, {
    layout := hl4.mapped hv htab4 habs4
    canonical := hp.canonical
    sub := hsub
    fresh := fun a t ha hread => ?_
    taken := fun a t ha hread => ?_
    apart := fun a b t ha hb hreada hreadb => ?_ }, hun.freeIn, hpage, hentry, hothers⟩
  · obtain ⟨-, rfl⟩ | ⟨hne', hold⟩ := hcases a t (hsub a ha) hread
    · exact hfresh
    · have haS := ha.resolve_right fun hc => hne' hc.2
      exact hfrom.fresh (hp.fresh a t haS hold) (hp.taken a t (hp.sub a haS) hold)
  · obtain ⟨-, rfl⟩ | ⟨-, hold⟩ := hcases a t ha hread
    · exact hgone
    · exact fun hc => hp.taken a t ha hold (hfrom.pool.freeIn hc)
  · obtain ⟨hav, rfl⟩ | ⟨hav, holda⟩ := hcases a t (hsub a ha) hreada
    · obtain ⟨hbv, -⟩ | ⟨-, holdb⟩ := hcases b t hb hreadb
      · rw [hav, hbv]
      · exact absurd hun.freeIn (hp.taken b t hb holdb)
    · obtain ⟨-, rfl⟩ | ⟨-, holdb⟩ := hcases b t hb hreadb
      · exact absurd hun.freeIn (hp.taken a t (hsub a ha) holda)
      · exact hp.apart a b t (ha.resolve_right fun hc => hav hc.2) hb holda holdb

/-! ## There are frames enough -/

theorem freeFrames_takeFrame {idx : Nat} (hun : m.Unused idx g) :
    (m.takeFrame idx).freeFrames + 1 = m.freeFrames := Bitmap.card_clear_set hun.inside hun.clear

theorem pageMapFrom_freeFrames (hself : SelfMapped m.word m.cr3) (hpool : m.PoolUnused)
    (htab : m.table v s = some f) (habs : m.word f (index v s) % 2 = 0) (hn : n + s = 3)
    (h : pageMapFrom v n s m = .ok ((), m')) : m.freeFrames = m'.freeFrames + n := by
  induction n generalizing m s f with
  | zero =>
      cases h
      rfl
  | succ n ih =>
      by_cases hfree : m.freeFrames = 0
      · rw [pageMapFrom, Prog.bind_of_ok (palloc_none hfree), Prog.run_assert_bind_not (by simp)] at h
        cases h
      · obtain ⟨idx, g, hun, hrun⟩ :=
          pageMapFrom_succ (n := n) hself htab habs (by omega) hpool (Nat.pos_of_ne_zero hfree)
        have hg := hun.lt
        have hlead : leads s (4096 * g + 7) = some g := leads_eq_some.2 (by omega)
        have habs1 : link m.word f (index v s) (4096 * g + 7) g g (index v (s + 1)) % 2 = 0 := by
          rw [link_apply, if_pos rfl]
        rw [hrun] at h
        have hrest := ih (selfMapped_link hself habs hun.fresh) (poolUnused_linkFrame hpool hun)
          (table_link_next (by omega) htab habs hun.fresh hlead) habs1 (by omega) h
        have htaken : (m.linkFrame idx f (index v s) g).freeFrames + 1 = m.freeFrames :=
          freeFrames_takeFrame hun
        omega

/-- `map_stat` finds the absent entry on the way of a page that is not mapped. -/
theorem Layout.mapStatFrom_absent (hl : m.Layout L) (hv : L v) (hnone : m.table v 4 = none) {i : Nat}
    (hn : n + i = 4) (htab : m.table v i = some f) :
    ∃ stat f', mapStatFrom v n i m = .ok (stat, m) ∧ i ≤ stat ∧ stat ≤ 3 ∧ m.table v stat = some f' ∧
      m.word f' (index v stat) % 2 = 0 := by
  induction n generalizing i f with
  | zero =>
      obtain rfl : i = 4 := by omega
      rw [hnone] at htab
      cases htab
  | succ n ih =>
      rw [mapStatFrom, Prog.bind_of_ok (load_fu hl.self (by omega) htab)]
      by_cases he : m.word f (index v i) &&& 1 = 0
      · rw [if_pos he]
        rw [Nat.and_one_is_mod] at he
        exact ⟨i, f, rfl, Nat.le_refl i, by omega, htab, he⟩
      · rw [if_neg he]
        rw [Nat.and_one_is_mod] at he
        have hpres : m.word f (index v i) % 2 = 1 := by omega
        have hnext : m.table v (i + 1) ≠ none := by
          by_cases hi : i < 3
          · exact hl.plain v hv i hi f htab hpres
          · have hlead : leads i (m.word f (index v i)) = some (m.word f (index v i) / 4096 % 2 ^ 40) :=
              leads_eq_some.2 ⟨hpres, fun hlt => absurd hlt hi, rfl⟩
            have hread : m.table v (i + 1) = some _ := table_succ.2 ⟨f, htab, hlead⟩
            rw [hread]
            exact Option.some_ne_none _
        obtain ⟨f1, hf1⟩ := Option.ne_none_iff_exists'.1 hnext
        obtain ⟨stat, f', hrun, hle, hrest⟩ := ih (by omega) hf1
        exact ⟨stat, f', hrun, by omega, hrest⟩

/-- With four frames, a page that is not mapped gets mapped, and takes no more than these. -/
theorem Pages.exists_getPage (hp : m.Pages L S) (hv : L v) (hnone : m.table v 4 = none)
    (hfree : 4 ≤ m.freeFrames) :
    ∃ m' g, getPage v m = .ok (true, m') ∧ m.MapsPage L S m' v g ∧ m.freeFrames ≤ m'.freeFrames + 4 := by
  have hl := hp.layout
  obtain ⟨idx, g, hpalloc, hun⟩ := palloc_spec hl.unused (by omega)
  have htaken := freeFrames_takeFrame hun
  have hl1 := hl.takeFrame hun
  obtain ⟨stat, f, hstat, -, hle, htab, habs⟩ :=
    hl1.mapStatFrom_absent (n := 4) (i := 0) (f := m.cr3) hv hnone rfl rfl
  obtain ⟨m1, hloop, hlinked⟩ :=
    pageMapFrom_spec hl1.self htab habs (n := 3 - stat) (by omega) hl1.unused (by omega)
  obtain ⟨f1, htab1, habs1⟩ := hlinked.reaches
  have hframes := pageMapFrom_freeFrames hl1.self hl1.unused htab habs (by omega) hloop
  have hstore := store_fu (e := 4096 * g + 7) hlinked.self (Nat.le_refl 3) htab1
  have hstat' : mapStat v (m.takeFrame idx) = .ok (stat, m.takeFrame idx) := hstat
  have hne : stat ≠ 4 := by omega
  have hmap : RecoverOS.pageMap v (4096 * g) (m.takeFrame idx) = .ok ((), { m1 with
      word := setWord m1.word f1 (index v 3) ((4096 * g + 7) % 2 ^ 64) }) := by
    rw [RecoverOS.pageMap, Prog.bind_of_ok hstat', Prog.run_assert_bind hne, Prog.bind_of_ok hloop, hstore]
  obtain ⟨g', hmaps⟩ := hp.pageMap hv hpalloc hmap
  refine ⟨_, g', ?_, hmaps, ?_⟩
  · rw [getPage, Prog.bind_of_ok hpalloc]
    exact Prog.bind_of_ok hmap _
  · have hsame : ({ m1 with word := setWord m1.word f1 (index v 3) ((4096 * g + 7) % 2 ^ 64) } :
        Memory).freeFrames = m1.freeFrames := rfl
    omega

end Pages

end Memory

end RecoverOS
