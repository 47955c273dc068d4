import RecoverOS.Memory.Pages

set_option autoImplicit false

/-! # Frames and their bits

One virtual pool and the frames of `phy_pool`. While nothing is freed, the bit of a frame is set exactly
when an address of the pool reaches the frame, as a page or as a table on the way. -/

namespace RecoverOS

open Paging

namespace Memory

/-- What the page tables must be like around the addresses `P` of a pool. -/
structure Layout (P : Nat → Prop) (m : Memory) : Prop where
  self : SelfMapped m.word m.cr3
  /-- The frames that are marked free are no tables. -/
  unused : m.PoolUnused
  /-- There are no large pages. -/
  plain : ∀ a, P a → ∀ k < 3, ∀ f, m.table a k = some f → m.word f (index a k) % 2 = 1 →
    m.table a (k + 1) ≠ none
  /-- Two addresses of the pool share a table only as long as their indices agree. -/
  separate : ∀ a v, P a → P v → ∀ j ≤ 3, ∀ k ≤ 3, ∀ f, m.table a j = some f → m.table v k = some f →
    j = k ∧ ∀ i < j, index a i = index v i
  /-- No walk meets a table of the pool earlier than the pool does. -/
  deep : ∀ v, P v → ∀ k ≤ 3, ∀ f, m.table v k = some f → ∀ a, ∀ j ≤ 3, m.table a j = some f → k ≤ j

/-- The frame is a page of the pool, or a table that leads to one of its addresses. -/
def Used (P : Nat → Prop) (m : Memory) (g : Nat) : Prop := ∃ a, P a ∧ ∃ k ≤ 4, m.table a k = some g

/-- The bit of a frame is set exactly when the pool uses the frame; `pending` is a frame that has been
    taken and is not mapped yet. -/
def Accounts (P : Nat → Prop) (m : Memory) (pending : Option Nat) : Prop :=
  ∀ i < m.phy_pool.pool_bitmap.size, ∀ g, m.phy_pool.start + 4096 * i = 4096 * g →
    (bitmapRead m.phy_pool.pool_bitmap i = true ↔ Used P m g ∨ pending = some g)

section Steps

variable {P : Nat → Prop} {m m' : Memory} {v s f g idx p : Nat} {pending : Option Nat}

theorem Layout.follows (h : m.Layout P) {a : Nat} (hv : P v) (ha : P a) (hs : s ≤ 3) :
    Follows m.word m.cr3 v s a := by
  intro f hf j hj hread hi
  obtain ⟨rfl, hpath⟩ := h.separate a v ha hv j hj s hs f hread hf
  refine ⟨rfl, fun i hle => ?_⟩
  by_cases hij : i = j
  · rw [hij, hi]
  · exact hpath i (by omega)

/-! ## Taking a frame -/

theorem Layout.takeFrame (h : m.Layout P) (hun : m.Unused idx g) : (m.takeFrame idx).Layout P where
  self := h.self
  unused := fun _ hi hread => by
    obtain ⟨g', hg', -, hrest⟩ := hun.rest h.unused hi hread
    exact ⟨g', hg', hrest⟩
  plain := h.plain
  separate := h.separate
  deep := h.deep

theorem bit_takeFrame (m : Memory) (hun : m.Unused idx g) {i g' : Nat}
    (hstart : m.phy_pool.start + 4096 * i = 4096 * g') :
    bitmapRead (m.takeFrame idx).phy_pool.pool_bitmap i = true ↔
      bitmapRead m.phy_pool.pool_bitmap i = true ∨ g' = g := by
  have heq := hun.start_eq
  show bitmapRead (bitmapSet m.phy_pool.pool_bitmap idx true) i = true ↔ _
  rw [bitmapRead_bitmapSet]
  by_cases hi : i = idx
  · rw [if_pos hi]
    exact ⟨fun _ => Or.inr (by omega), fun _ => rfl⟩
  · rw [if_neg hi]
    exact ⟨Or.inl, fun h => h.resolve_right (by omega)⟩

theorem Accounts.takeFrame (h : m.Accounts P none) (hun : m.Unused idx g) :
    (m.takeFrame idx).Accounts P (some g) := by
  intro i hi g' hstart
  rw [bit_takeFrame m hun hstart, h i hi g' hstart]
  simp only [reduceCtorEq, or_false, Option.some.injEq, eq_comm]
  exact Iff.rfl

/-! ## Linking a table -/

variable (hl : m.Layout P) (hv : P v) (habs : m.word f (index v s) % 2 = 0) (hun : m.Unused idx g)

include hl hv habs hun in
theorem used_linkFrame (hs : s < 3) (htab : m.table v s = some f) (g' : Nat) :
    Used P (m.linkFrame idx f (index v s) g) g' ↔ Used P m g' ∨ g' = g := by
  have hg := hun.lt
  have hlead : leads s (4096 * g + 7) = some g := leads_eq_some.2 (by omega)
  constructor
  · rintro ⟨a, ha, k, hk, hread⟩
    obtain rfl | hold := table_link hread hlead
    · exact Or.inr rfl
    · exact Or.inl ⟨a, ha, k, hk, hold⟩
  · rintro (⟨a, ha, k, hk, hread⟩ | rfl)
    · exact ⟨a, ha, k, hk, table_link_mono hs htab habs hun.fresh hlead
        (hl.follows hv ha (by omega)) hk hread⟩
    · exact ⟨v, hv, s + 1, by omega, table_link_next hs htab habs hun.fresh hlead⟩

include hl hv habs hun in
theorem Accounts.linkFrame (hs : s < 3) (htab : m.table v s = some f) (h : m.Accounts P pending) :
    (m.linkFrame idx f (index v s) g).Accounts P pending := by
  intro i hi g' hstart
  have hbit : bitmapRead (m.linkFrame idx f (index v s) g).phy_pool.pool_bitmap i = true ↔ _ :=
    bit_takeFrame m hun hstart
  rw [hbit, h i hi g' hstart, used_linkFrame hl hv habs hun hs htab]
  tauto

include hl hv habs hun in
theorem Layout.linkFrame (hs : s < 3) (htab : m.table v s = some f) :
    (m.linkFrame idx f (index v s) g).Layout P := by
  have hg := hun.lt
  have hlead : leads s (4096 * g + 7) = some g := leads_eq_some.2 (by omega)
  have hany : ∀ k, leads k (4096 * g + 7) = some g := fun k => leads_eq_some.2 (by omega)
  exact {
    self := selfMapped_link hl.self habs hun.fresh
    unused := poolUnused_linkFrame hl.unused hun
    plain := by
      intro a ha k hk t hread hpres
      change link m.word f (index v s) (4096 * g + 7) g t (index a k) % 2 = 1 at hpres
      by_cases htg : t = g
      · rw [link_apply, if_pos htg] at hpres
        omega
      · have hold := (table_link hread hlead).resolve_left htg
        have hnext : ∃ x, leads k (link m.word f (index v s) (4096 * g + 7) g t (index a k)) = some x := by
          rw [link_apply, if_neg htg] at hpres ⊢
          by_cases hfi : t = f ∧ index a k = index v s
          · rw [if_pos hfi]
            exact ⟨g, hany k⟩
          · rw [if_neg hfi] at hpres ⊢
            obtain ⟨x, hx⟩ := Option.ne_none_iff_exists'.1 (hl.plain a ha k hk t hold hpres)
            obtain ⟨t', ht', hx'⟩ := table_succ.1 hx
            obtain rfl : t' = t := Option.some.inj (ht'.symm.trans hold)
            exact ⟨x, hx'⟩
        obtain ⟨x, hx⟩ := hnext
        exact Option.ne_none_iff_exists'.2 ⟨x, table_succ.2 ⟨t, hread, hx⟩⟩
    separate := by
      intro a b ha hb j hj k hk t hreada hreadb
      by_cases htg : t = g
      · subst htg
        obtain ⟨rfl, hpatha⟩ := table_link_new hs htab habs hun.fresh hlead
          (hl.follows hv ha (by omega)) hj hreada
        obtain ⟨rfl, hpathb⟩ := table_link_new hs htab habs hun.fresh hlead
          (hl.follows hv hb (by omega)) hk hreadb
        exact ⟨rfl, fun i hi => (hpatha i (by omega)).trans (hpathb i (by omega)).symm⟩
      · exact hl.separate a b ha hb j hj k hk t ((table_link hreada hlead).resolve_left htg)
          ((table_link hreadb hlead).resolve_left htg)
    deep := by
      intro b hb k hk t hreadb a j hj hreada
      by_cases htg : t = g
      · subst htg
        obtain ⟨rfl, -⟩ := table_link_new hs htab habs hun.fresh hlead
          (hl.follows hv hb (by omega)) hk hreadb
        -- whoever reads the new table has come through the entry that links it
        cases j with
        | zero => exact absurd (Option.some.inj hreada).symm hun.fresh.ne_root
        | succ j =>
            obtain ⟨t', ht', hlead'⟩ := table_succ.1 hreada
            change leads j (link m.word f (index v s) (4096 * t + 7) t t' (index a j)) = some t at hlead'
            rw [link_apply] at hlead'
            by_cases ht't : t' = t
            · rw [if_pos ht't, leads_absent (by omega)] at hlead'
              cases hlead'
            · rw [if_neg ht't] at hlead'
              have hold := (table_link ht' hlead).resolve_left ht't
              by_cases hfi : t' = f ∧ index a j = index v s
              · have := hl.deep v hv s (by omega) f htab a j (by omega) (hfi.1 ▸ hold)
                omega
              · rw [if_neg hfi] at hlead'
                exact absurd (table_succ.2 ⟨t', hold, hlead'⟩) (hun.fresh a (j + 1) hj)
      · exact hl.deep b hb k hk t ((table_link hreadb hlead).resolve_left htg) a j hj
          ((table_link hreada hlead).resolve_left htg) }

/-! ## Filling the last entry -/

/-- The state once the page of `v` is mapped to `p`. -/
def mapped (m : Memory) (f i p : Nat) : Memory := { m with word := setWord m.word f i (p + 7) }

omit hun

include hl hv in
/-- The tables are as before: the entry that is filled is in no table above the last level. -/
theorem table_mapped (htab : m.table v 3 = some f) (a : Nat) :
    ∀ j ≤ 3, (m.mapped f (index v 3) p).table a j = m.table a j := by
  refine table_congr fun j hj t ht => setWord_ne ?_
  rintro ⟨rfl, -⟩
  have := hl.deep v hv 3 (Nat.le_refl 3) t htab a j (by omega) ht
  omega

include hl hv in
theorem Layout.mapped (htab : m.table v 3 = some f) (habs : m.word f (index v 3) % 2 = 0) :
    (m.mapped f (index v 3) p).Layout P := by
  have hsame := fun a => table_mapped (p := p) hl hv htab a
  exact {
    self := selfMapped_setWord hl.self habs
    unused := by
      intro i hi hread
      obtain ⟨g', hg', hstart, hfresh⟩ := hl.unused i hi hread
      exact ⟨g', hg', hstart, fun a j hj h => hfresh a j hj ((hsame a j hj).symm.trans h)⟩
    plain := by
      intro a ha k hk t hread hpres
      have hold : m.table a k = some t := (hsame a k (by omega)).symm.trans hread
      have hne : ¬ (t = f ∧ index a k = index v 3) := by
        rintro ⟨rfl, -⟩
        have := hl.deep v hv 3 (Nat.le_refl 3) t htab a k (by omega) hold
        omega
      have hword : (m.mapped f (index v 3) p).word t (index a k) = m.word t (index a k) :=
        setWord_ne hne
      rw [hword] at hpres
      rw [hsame a (k + 1) (by omega)]
      exact hl.plain a ha k hk t hold hpres
    separate := by
      intro a b ha hb j hj k hk t hreada hreadb
      rw [hsame a j hj] at hreada
      rw [hsame b k hk] at hreadb
      exact hl.separate a b ha hb j hj k hk t hreada hreadb
    deep := by
      intro b hb k hk t hreadb a j hj hreada
      rw [hsame a j hj] at hreada
      rw [hsame b k hk] at hreadb
      exact hl.deep b hb k hk t hreadb a j hj hreada }

include hl hv in
theorem used_mapped (htab : m.table v 3 = some f) (habs : m.word f (index v 3) % 2 = 0)
    (hlt : g < 2 ^ 40) (g' : Nat) :
    Used P (m.mapped f (index v 3) (4096 * g)) g' ↔ Used P m g' ∨ g' = g := by
  have hsame := fun a => table_mapped (p := 4096 * g) hl hv htab a
  have hlead : leads 3 (4096 * g + 7) = some g := leads_eq_some.2 (by omega)
  have hword : ∀ t i, (m.mapped f (index v 3) (4096 * g)).word t i
      = if t = f ∧ i = index v 3 then 4096 * g + 7 else m.word t i := setWord_apply _ _ _ _
  constructor
  · rintro ⟨a, ha, k, hk, hread⟩
    by_cases hk3 : k ≤ 3
    · exact Or.inl ⟨a, ha, k, hk, (hsame a k hk3).symm.trans hread⟩
    · obtain rfl : k = 4 := by omega
      obtain ⟨t, ht, hlead'⟩ := table_succ.1 hread
      have hold : m.table a 3 = some t := (hsame a 3 (Nat.le_refl 3)).symm.trans ht
      rw [hword] at hlead'
      split at hlead'
      · exact Or.inr (Option.some.inj (hlead'.symm.trans hlead))
      · exact Or.inl ⟨a, ha, 4, hk, table_succ.2 ⟨t, hold, hlead'⟩⟩
  · rintro (⟨a, ha, k, hk, hread⟩ | rfl)
    · by_cases hk3 : k ≤ 3
      · exact ⟨a, ha, k, hk, (hsame a k hk3).trans hread⟩
      · obtain rfl : k = 4 := by omega
        obtain ⟨t, ht, hlead'⟩ := table_succ.1 hread
        have hne : ¬ (t = f ∧ index a 3 = index v 3) := by
          rintro ⟨rfl, hi⟩
          rw [hi, leads_absent habs] at hlead'
          cases hlead'
        refine ⟨a, ha, 4, hk, table_succ.2 ⟨t, (hsame a 3 (Nat.le_refl 3)).trans ht, ?_⟩⟩
        rw [hword, if_neg hne]
        exact hlead'
    · refine ⟨v, hv, 4, Nat.le_refl 4, table_succ.2 ⟨f, (hsame v 3 (Nat.le_refl 3)).trans htab, ?_⟩⟩
      rw [hword, if_pos ⟨rfl, rfl⟩]
      exact hlead

include hl hv in
theorem Accounts.mapped (htab : m.table v 3 = some f) (habs : m.word f (index v 3) % 2 = 0)
    (hlt : g < 2 ^ 40) (h : m.Accounts P (some g)) :
    (m.mapped f (index v 3) (4096 * g)).Accounts P none := by
  intro i hi g' hstart
  rw [used_mapped hl hv htab habs hlt]
  have hbit := h i hi g' hstart
  simp only [Option.some.injEq, reduceCtorEq, or_false] at hbit ⊢
  rw [eq_comm (a := g')]
  exact hbit

end Steps

/-! ## The functions -/

section Runs

variable {P : Nat → Prop} {m m' : Memory} {v s f g p stat : Nat} {pending : Option Nat}

/-- Without large pages, the level that `map_stat` returns is reached. -/
theorem Layout.table_mapStatFrom (hl : m.Layout P) (hv : P v) {n i : Nat}
    (h : mapStatFrom v n i m = .ok (stat, m')) (hn : n + i = 4) (hne : stat ≠ 4)
    (htab : n ≠ 0 → m.table v i = some f) : ∃ f, m.table v stat = some f := by
  induction n generalizing i f with
  | zero =>
      cases h
      exact absurd rfl hne
  | succ n ih =>
      have hi := htab (by omega)
      rw [mapStatFrom, Prog.bind_of_ok (load_fu hl.self (by omega) hi)] at h
      by_cases he : m.word f (index v i) &&& 1 = 0
      · rw [if_pos he, Prog.pure_eq_ok] at h
        exact ⟨f, h.1 ▸ hi⟩
      · rw [if_neg he] at h
        rw [Nat.and_one_is_mod] at he
        by_cases hn0 : n = 0
        · subst hn0
          cases h
          exact absurd rfl hne
        · obtain ⟨x, hx⟩ := Option.ne_none_iff_exists'.1
            (hl.plain v hv i (by omega) f hi (by omega))
          exact ih h (by omega) fun _ => hx

/-- The loop of `page_map`: what linking a table keeps holds at the end of the loop, where the last table of `v`
    is there. -/
theorem Layout.pageMapFrom_run {C : Memory → Prop} (hl : m.Layout P) (hv : P v) (hC : C m)
    (hstep : ∀ {m : Memory} {s f idx g : Nat}, m.Layout P → C m → s < 3 → m.table v s = some f →
      m.word f (index v s) % 2 = 0 → m.Unused idx g → C (m.linkFrame idx f (index v s) g)) {n : Nat}
    (h : RecoverOS.pageMapFrom v n s m = .ok ((), m')) (hn : n + s = 3) (htab : m.table v s = some f)
    (habs : m.word f (index v s) % 2 = 0) :
    m'.Layout P ∧ C m' ∧ ∃ f, m'.table v 3 = some f ∧ m'.word f (index v 3) % 2 = 0 := by
  induction n generalizing m s f with
  | zero =>
      obtain rfl : s = 3 := by omega
      cases h
      exact ⟨hl, hC, f, htab, habs⟩
  | succ n ih =>
      by_cases hfree : m.freeFrames = 0
      · rw [RecoverOS.pageMapFrom, Prog.bind_of_ok (palloc_none hfree),
          Prog.run_assert_bind_not (by simp)] at h
        cases h
      · obtain ⟨idx, g, hun, hrun⟩ :=
          pageMapFrom_succ (n := n) hl.self htab habs (by omega) hl.unused (Nat.pos_of_ne_zero hfree)
        have hg := hun.lt
        have hlead : leads s (4096 * g + 7) = some g := leads_eq_some.2 (by omega)
        have habs1 : link m.word f (index v s) (4096 * g + 7) g g (index v (s + 1)) % 2 = 0 := by
          rw [link_apply, if_pos rfl]
        rw [hrun] at h
        exact ih (hl.linkFrame hv habs hun (by omega) htab) (hstep hl hC (by omega) htab habs hun) h (by omega)
          (table_link_next (by omega) htab habs hun.fresh hlead) habs1

/-- What a call of `page_map` that returns did: it linked the missing tables and filled the last entry. -/
theorem Layout.pageMap_run {C : Memory → Prop} (hl : m.Layout P) (hv : P v) (hC : C m)
    (hstep : ∀ {m : Memory} {s f idx g : Nat}, m.Layout P → C m → s < 3 → m.table v s = some f →
      m.word f (index v s) % 2 = 0 → m.Unused idx g → C (m.linkFrame idx f (index v s) g))
    (hg : g < 2 ^ 40) (h : RecoverOS.pageMap v (4096 * g) m = .ok ((), m')) :
    ∃ m1 f, m1.Layout P ∧ C m1 ∧ m1.table v 3 = some f ∧ m1.word f (index v 3) % 2 = 0 ∧
      m' = m1.mapped f (index v 3) (4096 * g) := by
  obtain ⟨stat, m1, hstat, h⟩ := Prog.bind_eq_ok.1 h
  obtain ⟨⟨⟩, m2, hassert, h⟩ := Prog.bind_eq_ok.1 h
  obtain ⟨hne, rfl⟩ := Prog.assert_eq_ok.1 hassert
  obtain ⟨⟨⟩, m3, hloop, hstore⟩ := Prog.bind_eq_ok.1 h
  obtain ⟨f, htab⟩ := hl.table_mapStatFrom hv hstat rfl hne fun _ => rfl
  have hle := le_of_mapStatFrom hstat rfl hne
  obtain ⟨rfl, habs⟩ := mapStatFrom_spec hl.self hstat rfl hne htab
  obtain ⟨hl3, hC3, f3, htab3, habs3⟩ := hl.pageMapFrom_run hv hC hstep hloop (by omega) htab habs
  rw [store_fu hl3.self (Nat.le_refl 3) htab3, Nat.mod_eq_of_lt (by omega)] at hstore
  exact ⟨m3, f3, hl3, hC3, htab3, habs3, (congrArg Prod.snd (Except.ok.inj hstore)).symm⟩

/-- `page_map` maps the frame that is pending. -/
theorem Layout.pageMap (hl : m.Layout P) (hv : P v) (hacc : m.Accounts P (some g)) (hg : g < 2 ^ 40)
    (h : RecoverOS.pageMap v (4096 * g) m = .ok ((), m')) : m'.Layout P ∧ m'.Accounts P none := by
  obtain ⟨m1, f, hl1, hacc1, htab, habs, rfl⟩ := hl.pageMap_run
    (C := fun m => m.Accounts P (some g)) hv hacc (fun hl hacc hs htab habs hun => hacc.linkFrame hl hv habs hun hs htab) hg h
  exact ⟨hl1.mapped hv htab habs, hacc1.mapped hl1 hv htab habs hg⟩

theorem Layout.allocPagesFrom (hl : m.Layout P) (hacc : m.Accounts P none) {n i : Nat} {ok : Bool}
    (hv : ∀ j, i ≤ j → j < i + n → P (v + j * 4096))
    (h : RecoverOS.allocPagesFrom v n i m = .ok (ok, m')) : m'.Layout P ∧ m'.Accounts P none := by
  induction n generalizing m i with
  | zero =>
      cases h
      exact ⟨hl, hacc⟩
  | succ n ih =>
      by_cases hfree : m.freeFrames = 0
      · rw [RecoverOS.allocPagesFrom, Prog.bind_of_ok (palloc_none hfree)] at h
        cases h
        exact ⟨hl, hacc⟩
      · obtain ⟨idx, g, hrun, hun⟩ := palloc_spec hl.unused (Nat.pos_of_ne_zero hfree)
        rw [RecoverOS.allocPagesFrom, Prog.bind_of_ok hrun] at h
        obtain ⟨⟨⟩, m1, hmap, h⟩ := Prog.bind_eq_ok.1 h
        obtain ⟨hl1, hacc1⟩ := (hl.takeFrame hun).pageMap (hv i (Nat.le_refl i) (by omega))
          (hacc.takeFrame hun) hun.lt hmap
        exact ih hl1 hacc1 (fun j hj hlt => hv j (by omega) (by omega)) h

end Runs

end Memory

/-! ## Runs of a pool -/

/-- The inner loop of `bitmap_alloc` stays inside the bitmap. -/
theorem bitmapRunFrom_le {b t t' : Bitmap} {i n j j' : Nat}
    (h : bitmapRunFrom b i n j t = .ok (j', t')) : t' = t ∧ j ≤ j' ∧ (j < j' → i + j' ≤ b.size) := by
  induction n generalizing j with
  | zero =>
      cases h
      exact ⟨rfl, Nat.le_refl _, fun hlt => absurd hlt (by omega)⟩
  | succ n ih =>
      obtain ⟨⟨⟩, t1, hreq, h⟩ := Prog.bind_eq_ok.1 h
      obtain ⟨hin, rfl⟩ := Prog.require_eq_ok.1 hreq
      split at h
      · cases h
        exact ⟨rfl, Nat.le_refl _, fun hlt => absurd hlt (by omega)⟩
      · obtain ⟨ht, hle, hsize⟩ := ih h
        exact ⟨ht, by omega, fun _ => by omega⟩

theorem bitmapSetRun_size (b : Bitmap) (i : Nat) (value : Bool) (cnt : Nat) :
    (bitmapSetRun b i value cnt).size = b.size := by
  induction cnt with
  | zero => rfl
  | succ cnt ih => rw [bitmapSetRun, bitmapSet_size, ih]

/-- The run that `bitmap_alloc` returns is inside the bitmap. -/
theorem bitmapAllocFrom_inside {b t' : Bitmap} {cnt n i : Nat} {r : Option Nat}
    (h : bitmapAllocFrom b cnt n i b = .ok (r, t')) :
    t'.size = b.size ∧ ∀ k, r = some k → k + cnt ≤ b.size := by
  induction n generalizing i with
  | zero =>
      cases h
      exact ⟨rfl, nofun⟩
  | succ n ih =>
      rw [bitmapAllocFrom] at h
      split at h
      · next hi =>
          split at h
          · obtain ⟨j, t, hrun, h⟩ := Prog.bind_eq_ok.1 h
            obtain ⟨rfl, -, hle⟩ := bitmapRunFrom_le hrun
            split at h
            · next hj =>
                cases h
                refine ⟨bitmapSetRun_size _ _ _ _, fun k hk => ?_⟩
                cases hk
                by_cases h0 : j = 0
                · omega
                · have := hle (by omega)
                  omega
            · exact ih h
          · exact ih h
      · cases h
        exact ⟨rfl, nofun⟩

namespace Space

/-- The addresses of the pool. -/
def Addr (s : Space) (a : Nat) : Prop :=
  s.vpool.start ≤ a ∧ a < s.vpool.start + 4096 * s.vpool.pool_bitmap.size

/-- The calls on a pool; `pml4` is that of the running thread. -/
inductive Call where
  | alloc (cnt : Nat)
  | free (pml4 : Option Nat) (ptr cnt : Nat)

/-- One call that returns. -/
inductive Step : Space → Call → Space → Prop where
  | alloc {s s' : Space} {cnt : Nat} {r : Option Nat} (h : allocPages cnt s = .ok (r, s')) :
      Step s (.alloc cnt) s'
  | free {s s' : Space} {pml4 : Option Nat} {ptr cnt : Nat}
      (h : freePages pml4 ptr cnt s = .ok ((), s')) : Step s (.free pml4 ptr cnt) s'

/-- A sequence of calls. -/
inductive Runs : Space → List Call → Space → Prop where
  | nil {s : Space} : Runs s [] s
  | cons {s s1 s' : Space} {c : Call} {calls : List Call} (h : Step s c s1) (hrest : Runs s1 calls s') :
      Runs s (c :: calls) s'

/-- The call frees a page. -/
def Call.Frees : Call → Prop
  | .alloc _ => False
  | .free _ _ cnt => 0 < cnt

/-- The frames marked as in use are those of the pool. -/
def Accounted (s : Space) : Prop := s.mem.Accounts s.Addr none

section Runs

variable {s s' : Space} {c : Call} {calls : List Call}

theorem allocPages_accounted {cnt : Nat} {r : Option Nat} (hl : s.mem.Layout s.Addr)
    (hacc : s.Accounted) (h : allocPages cnt s = .ok (r, s')) :
    s'.mem.Layout s'.Addr ∧ s'.Accounted := by
  obtain ⟨vaddr, s1, hv, h⟩ := Prog.bind_eq_ok.1 h
  obtain ⟨idx, s2, hidx, hv⟩ := Prog.bind_eq_ok.1 hv
  obtain ⟨b, hb, rfl⟩ := Prog.zoom_eq_ok.1 hidx
  obtain ⟨hsize, hinside⟩ := bitmapAllocFrom_inside hb
  obtain ⟨s3, s4, hget, hv⟩ := Prog.bind_eq_ok.1 hv
  obtain ⟨rfl, rfl⟩ := Prog.get_eq_ok.1 hget
  obtain ⟨rfl, rfl⟩ := Prog.pure_eq_ok.1 hv
  -- the bits of the virtual pool are new, its addresses are not
  have haddr : ∀ mem, Space.Addr ⟨mem, { s.vpool with pool_bitmap := b }⟩ = s.Addr := by
    intro mem
    funext a
    show (_ ∧ a < s.vpool.start + 4096 * b.size) = _
    rw [hsize]
    rfl
  cases idx with
  | none =>
      cases h
      rw [Accounted, haddr]
      exact ⟨hl, hacc⟩
  | some k =>
      have hk := hinside k rfl
      obtain ⟨ok, s5, hrun, h⟩ := Prog.bind_eq_ok.1 h
      obtain ⟨-, rfl⟩ := Prog.pure_eq_ok.1 h
      obtain ⟨mem, hmem, rfl⟩ := Prog.zoom_eq_ok.1 hrun
      rw [Accounted, haddr]
      refine hl.allocPagesFrom hacc (fun j _ hj => ?_) hmem
      have hsize' : s.vpool.pool_bitmap.size = b.size := hsize.symm
      refine ⟨?_, ?_⟩
      · show s.vpool.start ≤ k * 4096 + s.vpool.start + j * 4096
        omega
      · show k * 4096 + s.vpool.start + j * 4096 < s.vpool.start + 4096 * s.vpool.pool_bitmap.size
        omega

/-- As long as no page is freed, the frames marked as in use are the frames of the pool. -/
theorem accounted (hl : s.mem.Layout s.Addr) (hacc : s.Accounted) (hrun : Runs s calls s')
    (hnone : ∀ c ∈ calls, ¬ c.Frees) : s'.Accounted := by
  induction hrun with
  | nil => exact hacc
  | cons h hrest ih =>
      have hrest' := fun c hc => hnone c (List.mem_cons_of_mem _ hc)
      cases h with
      | alloc h =>
          obtain ⟨hl1, hacc1⟩ := allocPages_accounted hl hacc h
          exact ih hl1 hacc1 hrest'
      | @free _ pml4 ptr cnt h =>
          have hcnt : cnt = 0 := Nat.eq_zero_of_not_pos (hnone _ (List.mem_cons_self ..))
          subst hcnt
          cases h
          exact ih hl hacc hrest'

end Runs

/-! ## The kernel's pool after `mem_init` -/

/-- The machine and `k_v_pool` as `mem_init` leaves them. -/
def kernelPool : Space where
  mem := bootMemory
  vpool := {
    start := 0xffff800000100000
    pool_bitmap := { bytes_len := 256, bits := Buf.zero } }

theorem kernelPool_index {a : Nat} (ha : kernelPool.Addr a) :
    index a 0 = 256 ∧ index a 1 = 0 ∧ (index a 2 = 0 → 256 ≤ index a 3) := by
  have hlo : 0xffff800000100000 ≤ a := ha.1
  have hhi : a < 0xffff800000100000 + 4096 * 2048 := ha.2
  simp only [index]
  omega

/-- The tables of its addresses are the four of `boot.asm`, and none of its pages is mapped. -/
theorem kernelPool_table {a k t : Nat} (ha : kernelPool.Addr a) (hk : k ≤ 4)
    (h : bootMemory.table a k = some t) : t = 0x100 + k ∧ k ≤ 3 ∧ (k = 3 → index a 2 = 0) := by
  obtain ⟨h0, h1, h3⟩ := kernelPool_index ha
  have t1 : bootMemory.table a 1 = some 0x101 := table_succ.2 ⟨0x100, rfl, by rw [h0]; rfl⟩
  have t2 : bootMemory.table a 2 = some 0x102 := table_succ.2 ⟨0x101, t1, by rw [h1]; rfl⟩
  have t3 : ∀ t, bootMemory.table a 3 = some t → t = 0x103 ∧ index a 2 = 0 := by
    intro t ht
    obtain ⟨f, hf, hlead⟩ := table_succ.1 ht
    obtain rfl : f = 0x102 := Option.some.inj (hf.symm.trans t2)
    by_cases h2 : index a 2 = 0
    · rw [h2] at hlead
      exact ⟨(Option.some.inj hlead).symm, h2⟩
    · have hzero : bootMemory.word 0x102 (index a 2) = 0 := by simp [bootMemory, h2]
      rw [hzero] at hlead
      cases hlead
  have t4 : bootMemory.table a 4 = none := by
    cases ht : bootMemory.table a 4 with
    | none => rfl
    | some t =>
        obtain ⟨f, hf, hlead⟩ := table_succ.1 ht
        obtain ⟨rfl, h2⟩ := t3 f hf
        have hge := h3 h2
        have hzero : bootMemory.word 0x103 (index a 3) = 0 := by simp [bootMemory, hge]
        rw [hzero] at hlead
        cases hlead
  interval_cases k
  · cases h
    exact ⟨rfl, by decide, fun hk => absurd hk (by decide)⟩
  · rw [t1] at h
    cases h
    exact ⟨rfl, by decide, fun hk => absurd hk (by decide)⟩
  · rw [t2] at h
    cases h
    exact ⟨rfl, by decide, fun hk => absurd hk (by decide)⟩
  · obtain ⟨rfl, h2⟩ := t3 t h
    exact ⟨rfl, Nat.le_refl 3, fun _ => h2⟩
  · rw [t4] at h
    cases h

theorem kernelPool_layout : kernelPool.mem.Layout kernelPool.Addr where
  self := bootMemory_selfMapped
  unused := bootMemory_poolUnused
  plain := by
    intro a ha k hk f hf hpres
    obtain ⟨rfl, -, -⟩ := kernelPool_table ha (by omega) hf
    obtain ⟨h0, h1, -⟩ := kernelPool_index ha
    have hsome : ∃ g, leads k (bootMemory.word (0x100 + k) (index a k)) = some g := by
      interval_cases k
      · rw [h0]
        exact ⟨_, rfl⟩
      · rw [h1]
        exact ⟨_, rfl⟩
      · by_cases h2 : index a 2 = 0
        · rw [h2]
          exact ⟨_, rfl⟩
        · have hzero : bootMemory.word 0x102 (index a 2) = 0 := by simp [bootMemory, h2]
          change bootMemory.word 0x102 (index a 2) % 2 = 1 at hpres
          omega
    obtain ⟨g, hg⟩ := hsome
    exact Option.ne_none_iff_exists'.2 ⟨g, table_succ.2 ⟨_, hf, hg⟩⟩
  separate := by
    intro a v ha hv j hj k hk f hfa hfv
    obtain ⟨rfl, -, h2a⟩ := kernelPool_table ha (by omega) hfa
    obtain ⟨hjk, -, h2v⟩ := kernelPool_table hv (by omega) hfv
    obtain rfl : j = k := by omega
    obtain ⟨h0a, h1a, -⟩ := kernelPool_index ha
    obtain ⟨h0v, h1v, -⟩ := kernelPool_index hv
    refine ⟨rfl, fun i hi => ?_⟩
    have hi3 : i < 3 := by omega
    interval_cases i
    · rw [h0a, h0v]
    · rw [h1a, h1v]
    · rw [h2a (by omega), h2v (by omega)]
  deep := by
    intro v hv k hk f hfv a j hj hfa
    obtain ⟨rfl, -, -⟩ := kernelPool_table hv (by omega) hfv
    have := bootMemory_table hj hfa
    omega

/-- The addresses of the pool reach no frame of `phy_pool`. -/
theorem kernelPool_unused {i g : Nat} (hstart : bootMemory.phy_pool.start + 4096 * i = 4096 * g) :
    ¬ bootMemory.Used kernelPool.Addr g := by
  rintro ⟨a, ha, k, hk, h⟩
  have hg := kernelPool_table ha hk h
  have hstart' : 0x104000 + 4096 * i = 4096 * g := hstart
  omega

theorem kernelPool_accounted : kernelPool.Accounted := by
  intro i _ g hstart
  have hclear : bitmapRead kernelPool.mem.phy_pool.pool_bitmap i = false := bootMemory_clear i
  have hnot : ¬ kernelPool.mem.Used kernelPool.Addr g := kernelPool_unused hstart
  simp [hclear, hnot]

theorem accounted_kernelPool : ∃ s, Runs kernelPool [.alloc 1] s ∧ s.Accounted := by
  have hrun : ∃ s, Step kernelPool (.alloc 1) s := ⟨_, .alloc rfl⟩
  obtain ⟨s, h⟩ := hrun
  have hruns := Runs.cons h .nil
  refine ⟨s, hruns, accounted kernelPool_layout kernelPool_accounted hruns ?_⟩
  intro c hc
  rw [List.mem_singleton.1 hc]
  exact id

set_option maxRecDepth 10000 in
/-- A page that has been allocated and freed is mapped nowhere, and its frame is still marked. -/
theorem not_accounted_freed : ∃ s, Runs kernelPool [.alloc 1, .free none 0xffff800000100000 1] s ∧
    ¬ s.Accounted := by
  have hrun : ∃ s, Runs kernelPool [.alloc 1, .free none 0xffff800000100000 1] s ∧
      s.mem.word = setWord (setWord bootMemory.word 0x103 256 0x104007) 0x103 256 0x104006 ∧
      s.mem.cr3 = 0x100 ∧ s.mem.phy_pool.start = 0x104000 ∧ 0 < s.mem.phy_pool.pool_bitmap.size ∧
      bitmapRead s.mem.phy_pool.pool_bitmap 0 = true ∧ s.Addr = kernelPool.Addr :=
    ⟨_, .cons (.alloc rfl) (.cons (.free rfl) .nil), rfl, rfl, rfl, by decide, rfl, rfl⟩
  obtain ⟨s, hrun, hword, hcr3, hstart, hsize, hbit, haddr⟩ := hrun
  refine ⟨s, hrun, fun hacc => ?_⟩
  have hacc0 := hacc 0 hsize 0x104 (by rw [hstart])
  obtain ⟨a, ha, k, hk, h⟩ := (hacc0.1 hbit).resolve_right nofun
  rw [haddr] at ha
  -- the entry was absent and is absent again
  have hsame : ∀ n, s.mem.table a n = bootMemory.table a n := by
    intro n
    show Paging.table s.mem.word s.mem.cr3 a n = _
    rw [hword, hcr3]
    induction n with
    | zero => rfl
    | succ n ih =>
        show (Paging.table _ 0x100 a n).bind _ = (bootMemory.table a n).bind _
        rw [ih]
        congr 1
        funext t
        rw [setWord_apply]
        split
        · next hti =>
            rw [hti.1, hti.2]
            rfl
        · next hti => rw [setWord_apply, if_neg hti]
  rw [hsame] at h
  exact kernelPool_unused (i := 0) rfl ⟨a, ha, k, hk, h⟩

end Space

end RecoverOS
