import RecoverOS.UserProg.FreedPages

set_option autoImplicit false

/-! # The pages of a process

What `get_pages` and `free_pages` do for one page of the user pool of a process: the page gets a frame that was
free, whose content stays what it was, or it is gone; every other page keeps its frame and its content. -/

namespace RecoverOS

open Paging

/-- An address of the user pool. -/
def InPool (a : Nat) : Prop := USER_START_ADDR ≤ a ∧ a < USER_START_ADDR + POOL_LEN_MAX

theorem InPool.canonical {a : Nat} (h : InPool a) : Canonical a := by
  have hlt := h.2
  simp only [USER_START_ADDR, POOL_LEN_MAX, V_POOL_BITS_MAX] at hlt
  exact Or.inl (by omega)

/-! ## Bytes of physical memory -/

/-- The byte at physical address `p`. -/
def byteAt (m : Memory) (p : Nat) : Byte := leBytes (m.word (p / 4096) (p % 4096 / 8)) (p % 8)

/-- Digit `k` of a word is replaced, and the others stay. -/
theorem leBytes_setDigit (old k j : Nat) (b : Byte) :
    leBytes ((old / (256 * 256 ^ k) * 256 + b.toNat) * 256 ^ k + old % 256 ^ k) j =
      if j = k then b else leBytes old j := by
  have hb : b.toNat < 256 := b.isLt
  have hlow : old % 256 ^ k < 256 ^ k := Nat.mod_lt _ (by positivity)
  apply BitVec.eq_of_toNat_eq
  rcases Nat.lt_trichotomy j k with hjk | rfl | hkj
  · -- below the digit both words have the same remainder
    rw [if_neg (by omega)]
    simp only [leBytes, BitVec.toNat_ofNat]
    have hmod : ∀ n, n / 256 ^ j % 2 ^ 8 = n % 256 ^ (j + 1) / 256 ^ j := fun n => by
      rw [show 256 ^ (j + 1) = 256 ^ j * 256 from Nat.pow_succ .., Nat.mod_mul_right_div_self]
      rfl
    obtain ⟨d, hd⟩ : 256 ^ (j + 1) ∣ 256 ^ k := Nat.pow_dvd_pow 256 hjk
    rw [hmod, hmod, hd, ← Nat.mul_assoc, Nat.mul_comm _ (256 ^ (j + 1)), Nat.mul_assoc,
      Nat.mul_add_mod, Nat.mod_mul_right_mod]
  · rw [if_pos rfl]
    simp only [leBytes, BitVec.toNat_ofNat]
    rw [Nat.mul_comm _ (256 ^ j), Nat.mul_add_div (by positivity), Nat.div_eq_of_lt hlow]
    omega
  · -- above it both have the same quotient
    rw [if_neg (by omega)]
    simp only [leBytes, BitVec.toNat_ofNat]
    have hquot : ((old / (256 * 256 ^ k) * 256 + b.toNat) * 256 ^ k + old % 256 ^ k) / 256 ^ (k + 1) =
        old / 256 ^ (k + 1) := by
      rw [Nat.pow_succ, ← Nat.div_div_eq_div_mul, Nat.mul_comm _ (256 ^ k),
        Nat.mul_add_div (by positivity), Nat.div_eq_of_lt hlow, Nat.mul_comm 256 (256 ^ k)]
      omega
    obtain ⟨d, rfl⟩ : ∃ d, j = k + 1 + d := ⟨j - (k + 1), by omega⟩
    generalize (old / (256 * 256 ^ k) * 256 + b.toNat) * 256 ^ k + old % 256 ^ k = new at hquot ⊢
    rw [Nat.pow_add, ← Nat.div_div_eq_div_mul, ← Nat.div_div_eq_div_mul, hquot]

theorem byteAt_setByte (m : Memory) (p q : Nat) (b : Byte) :
    byteAt (setByte m p b) q = if q = p then b else byteAt m q := by
  unfold byteAt setByte
  dsimp only
  rw [setWord_apply]
  by_cases hword : q / 4096 = p / 4096 ∧ q % 4096 / 8 = p % 4096 / 8
  · rw [if_pos hword, leBytes_setDigit, hword.1, hword.2]
    have hiff : q % 8 = p % 8 ↔ q = p := by omega
    simp only [hiff]
  · rw [if_neg hword, if_neg]
    rintro rfl
    exact hword ⟨rfl, rfl⟩

namespace Memory

/-! ## Pages with frames of their own -/

/-- Frames were taken and tables were linked; of the other frames, those that are no tables are as before. -/
structure Grown (m m' : Memory) : Prop where
  free : ∀ g, m'.FreeIn g → m.FreeIn g
  word_eq : ∀ g, Fresh m.word m.cr3 g → (m.FreeIn g → m'.FreeIn g) → m'.word g = m.word g
  fresh : ∀ g, Fresh m.word m.cr3 g → (m.FreeIn g → m'.FreeIn g) → Fresh m'.word m'.cr3 g

theorem Grown.refl (m : Memory) : m.Grown m := ⟨fun _ h => h, fun _ _ _ => rfl, fun _ h _ => h⟩

theorem Grown.trans {m m1 m2 : Memory} (h : m.Grown m1) (h' : m1.Grown m2) : m.Grown m2 where
  free := fun g hg => h.free g (h'.free g hg)
  word_eq := fun g hfresh hkeep => by
    have hkeep1 : m.FreeIn g → m1.FreeIn g := fun hg => h'.free g (hkeep hg)
    exact (h'.word_eq g (h.fresh g hfresh hkeep1) fun hg => hkeep (h.free g hg)).trans
      (h.word_eq g hfresh hkeep1)
  fresh := fun g hfresh hkeep =>
    h'.fresh g (h.fresh g hfresh fun hg => h'.free g (hkeep hg)) fun hg => hkeep (h.free g hg)

section Step

variable {m m' : Memory} {v s f g idx : Nat}

theorem grown_takeFrame (hun : m.Unused idx g) : m.Grown (m.takeFrame idx) where
  free := fun _ hg => ((freeIn_takeFrame hun).1 hg).1
  word_eq := fun _ _ _ => rfl
  fresh := fun _ h _ => h

/-- A table that is linked is a frame that was taken. -/
theorem grown_linkFrame (hun : m.Unused idx g) (hs : s ≤ 3) (htab : m.table v s = some f) (i : Nat) :
    m.Grown (m.linkFrame idx f i g) where
  free := fun _ hg => ((freeIn_takeFrame hun).1 hg).1
  word_eq := fun t hfresh hkeep => by
    have htg : t ≠ g := by
      rintro rfl
      exact ((freeIn_takeFrame hun).1 (hkeep hun.freeIn)).2 rfl
    have htf : t ≠ f := fun heq => hfresh v s hs (heq ▸ htab)
    funext j
    show link m.word f i (4096 * g + 7) g t j = m.word t j
    rw [link_apply, if_neg htg, if_neg fun hc => htf hc.1]
  fresh := fun t hfresh hkeep => by
    have htg : t ≠ g := by
      rintro rfl
      exact ((freeIn_takeFrame hun).1 (hkeep hun.freeIn)).2 rfl
    have hg := hun.lt
    have hlead : leads 0 (4096 * g + 7) = some g := leads_eq_some.2 (by omega)
    exact hfresh.link htg hlead

end Step

/-- The user pool, and the address of the `pml4` of the process. -/
def Home (p a : Nat) : Prop := InPool a ∨ a = p

/-- The tables of the user pool are in order, and every page of it has a frame to itself that is no table and
    is not free. The `pml4` that is loaded is the one at `p`, in another part of the address space. -/
structure UserSpace (p : Nat) (m : Memory) : Prop where
  pages : m.Pages (Home p) InPool
  home : m.table p 4 = some m.cr3
  far : ∀ a, InPool a → a / 4096 ≠ p / 4096

section UserSpace

variable {m m' : Memory} {a f g p q v x : Nat} {b : Byte}

/-- What a new page for `v`, in frame `g`, leaves of the rest. -/
structure NewPage (p : Nat) (m m' : Memory) (v g : Nat) : Prop where
  user : m'.UserSpace p
  was_free : m.FreeIn g
  page : m'.table v 4 = some g
  others : ∀ a, InPool a → a / 4096 ≠ v / 4096 → m'.table a 4 = m.table a 4
  free : ∀ h, m'.FreeIn h → m.FreeIn h
  word_page : m'.word g = m.word g
  word_free : ∀ h, m'.FreeIn h → m'.word h = m.word h
  word_old : ∀ a h, InPool a → m.table a 4 = some h → m'.word h = m.word h

/-- `get_pages` for a page that is not mapped; for one that is `page_map` panics. -/
theorem UserSpace.getPage (hu : m.UserSpace p) (hv : InPool v)
    (h : RecoverOS.getPage v m = .ok (true, m')) : m.table v 4 = none ∧ ∃ g, NewPage p m m' v g := by
  have hp := hu.pages
  have hl := hp.layout
  have hvL : Home p v := .inl hv
  by_cases hfree : m.freeFrames = 0
  · rw [RecoverOS.getPage, Prog.bind_of_ok (palloc_none hfree)] at h
    cases h
  -- the frame of the page first, then the tables on the way to it
  obtain ⟨idx, g, hpalloc, hun⟩ := palloc_spec hl.unused (Nat.pos_of_ne_zero hfree)
  rw [RecoverOS.getPage, Prog.bind_of_ok hpalloc] at h
  obtain ⟨⟨⟩, m1, hmap, h⟩ := Prog.bind_eq_ok.1 h
  obtain ⟨-, rfl⟩ := Prog.pure_eq_ok.1 h
  have hl1 := hl.takeFrame hun
  have hg := hun.lt
  obtain ⟨m4, f4, hl4, ⟨⟨hgrown, hcr3⟩, hsame⟩, htab4, habs4, rfl⟩ := hl1.pageMap_run
    (C := fun m4 => ((m.takeFrame idx).Grown m4 ∧ m4.cr3 = m.cr3) ∧ ∀ a, Home p a → m4.table a 4 = m.table a 4) hvL
    ⟨⟨.refl _, rfl⟩, fun _ _ => rfl⟩
    (fun hl hC hs htab habs hun => ⟨⟨hC.1.1.trans (grown_linkFrame hun (by omega) htab _), hC.1.2⟩,
      fun a ha => (hl.table_linkFrame hvL hs htab habs hun ha).trans (hC.2 a ha)⟩) hg hmap
  have htables : ∀ a, ∀ j ≤ 3, (m4.mapped f4 (index v 3) (4096 * g)).table a j = m4.table a j :=
    table_mapped hl4 hvL htab4
  have hlead : leads 3 (4096 * g + 7) = some g := leads_eq_some.2 (by omega)
  have hpage : (m4.mapped f4 (index v 3) (4096 * g)).table v 4 = some g :=
    table_setWord_next htab4 habs4 hlead
  have hothers : ∀ a, Home p a → a / 4096 ≠ v / 4096 →
      (m4.mapped f4 (index v 3) (4096 * g)).table a 4 = m.table a 4 := by
    intro a ha hpage
    refine Eq.trans ?_ (hsame a ha)
    refine table_setWord_of_ne (fun j hj hread hi => hpage ?_) 4 (Nat.le_refl 4)
    exact page_eq_of_index (hp.canonical a ha) hv.canonical
      (hl4.follows hvL ha (Nat.le_refl 3) f4 htab4 j hj hread hi).2
  -- filling the last entry touches a table only
  have hgrown' : (m.takeFrame idx).Grown (m4.mapped f4 (index v 3) (4096 * g)) := by
    refine hgrown.trans ⟨fun _ hfree => hfree, fun t hfresh _ => ?_, fun t hfresh _ a j hj hread => ?_⟩
    · have htf : t ≠ f4 := fun heq => hfresh v 3 (Nat.le_refl 3) (heq ▸ htab4)
      funext j
      exact setWord_ne fun hc => htf hc.1
    · exact hfresh a j hj ((htables a j hj).symm.trans hread)
  have hall := (grown_takeFrame hun).trans hgrown'
  have hnot : ¬ (m.takeFrame idx).FreeIn g := fun hc => ((freeIn_takeFrame hun).1 hc).2 rfl
  have hfreshg := hgrown'.fresh g hun.fresh fun hc => absurd hc hnot
  have hgone : ¬ (m4.mapped f4 (index v 3) (4096 * g)).FreeIn g := fun hc => hnot (hgrown'.free g hc)
  -- a page of the new memory is the new one or an old one
  have hcases : ∀ a t, Home p a → (m4.mapped f4 (index v 3) (4096 * g)).table a 4 = some t →
      (a / 4096 = v / 4096 ∧ t = g) ∨ (a / 4096 ≠ v / 4096 ∧ m.table a 4 = some t) := by
    intro a t ha hread
    by_cases hav : a / 4096 = v / 4096
    · rw [table_page hav, hpage] at hread
      exact .inl ⟨hav, (Option.some.inj hread).symm⟩
    · rw [hothers a ha hav] at hread
      exact .inr ⟨hav, hread⟩
  have hnone : m.table v 4 = none := by
    rw [← hsame v hvL]
    by_contra hsome
    obtain ⟨t, ht⟩ := Option.ne_none_iff_exists'.1 hsome
    have hpres := present_of_lt ht (show 3 < 4 by omega) htab4
    omega
  refine ⟨hnone, g, {
    user := {
      pages := {
        layout := hl4.mapped hvL htab4 habs4
        canonical := hp.canonical
        sub := hp.sub
        fresh := fun a t ha hread => ?_
        taken := fun a t ha hread => ?_
        apart := fun a b t ha hb hreada hreadb => ?_ }
      home := (hothers p (.inr rfl) (Ne.symm (hu.far v hv))).trans (hu.home.trans (congrArg some hcr3.symm))
      far := hu.far }
    was_free := hun.freeIn
    page := hpage
    others := fun a ha => hothers a (.inl ha)
    free := hall.free
    word_page := hgrown'.word_eq g hun.fresh fun hc => absurd hc hnot
    word_free := fun h hfree' => ?_
    word_old := fun a h ha hread =>
      hall.word_eq h (hp.fresh a h ha hread) fun hc => absurd hc (hp.taken a h (.inl ha) hread) }⟩
  · obtain ⟨-, rfl⟩ | ⟨-, hold⟩ := hcases a t (.inl ha) hread
    · exact hfreshg
    · exact hall.fresh t (hp.fresh a t ha hold) fun hc => absurd hc (hp.taken a t (.inl ha) hold)
  · obtain ⟨-, rfl⟩ | ⟨-, hold⟩ := hcases a t ha hread
    · exact hgone
    · exact fun hc => hp.taken a t ha hold (hall.free t hc)
  · obtain ⟨hav, rfl⟩ | ⟨hav, holda⟩ := hcases a t (.inl ha) hreada
    · obtain ⟨hbv, -⟩ | ⟨-, holdb⟩ := hcases b t hb hreadb
      · rw [hav, hbv]
      · exact absurd hun.freeIn (hp.taken b t hb holdb)
    · obtain ⟨-, rfl⟩ | ⟨-, holdb⟩ := hcases b t hb hreadb
      · exact absurd hun.freeIn (hp.taken a t (.inl ha) holda)
      · exact hp.apart a b t ha hb holda holdb
  · -- what is free now was free, and no table
    obtain ⟨i, hi, hclear, hstart⟩ := hall.free h hfree'
    obtain ⟨g', -, hstart', hfresh'⟩ := hl.unused i hi hclear
    obtain rfl : g' = h := by omega
    exact hall.word_eq g' hfresh' fun _ => hfree'

/-- `map_stat` of a page that is mapped. -/
theorem mapStatFrom_present {n i : Nat} (hself : SelfMapped m.word m.cr3) (hpage : m.table v 4 = some g)
    (hn : n + i = 4) : mapStatFrom v n i m = .ok (4, m) := by
  induction n generalizing i with
  | zero => rfl
  | succ n ih =>
      obtain ⟨t, ht⟩ := table_of_le hpage (show i ≤ 4 by omega)
      have hpres := present_of_lt hpage (show i < 4 by omega) ht
      have hbit : ¬ m.word t (index v i) &&& 1 = 0 := by
        rw [Nat.and_one_is_mod, hpres]
        exact one_ne_zero
      rw [mapStatFrom, Prog.bind_of_ok (load_fu hself (by omega) ht), if_neg hbit]
      exact ih (by omega)

/-! ## A page that is given back -/

/-- `addr_v2p` of a page that is mapped, up to the bits that `CR3` does not take. -/
theorem addrV2p_frame (hself : SelfMapped m.word m.cr3) (hpage : m.table v 4 = some g) :
    ∃ q, addrV2p v m = .ok (q, m) ∧ q / 4096 % 2 ^ 40 = g := by
  obtain ⟨t, ht, hlead⟩ := table_succ.1 hpage
  obtain ⟨-, -, hframe⟩ := leads_eq_some.1 hlead
  have hload : load (ptePtr v) m = .ok (m.word t (index v 3), m) := load_fu hself (Nat.le_refl 3) ht
  refine ⟨_, Prog.bind_of_ok hload _, ?_⟩
  have hmask : (0xfffffffffffff000 : Nat) = (2 ^ 64 - 1) &&& 0xfffffffffffff000 := by decide
  have hword : m.word t (index v 3) &&& 0xfffffffffffff000 =
      4096 * (m.word t (index v 3) % 2 ^ 64 / 4096) := by
    rw [hmask, ← Nat.and_assoc, Nat.and_two_pow_sub_one_eq_mod]
    exact and_page_mask (Nat.mod_lt _ (by decide))
  have hoff : v &&& 0xfff = v % 4096 := Nat.and_two_pow_sub_one_eq_mod v 12
  rw [hword, hoff]
  omega

/-- `free_pages` loads the `pml4` again that was loaded. -/
theorem UserSpace.freePage_cr3 (hu : m.UserSpace p) (hv : InPool v) (hf : m.table v 3 = some f)
    (h : RecoverOS.freePage (some p) v m = .ok ((), m')) : m'.cr3 = m.cr3 := by
  obtain ⟨m1, m2, hc, hcr3, hflush, hsame, -⟩ := freePage_flush hu.pages.layout.self hf h
  have hunder : m1.under m.cr3 = m1 := by rw [← hcr3, under_self]
  have hpages := hu.pages.clears (m := m) (.inl hv) hf hc
  have hpage := hc.page (m := m) (a := p) hu.pages (.inl hv) hf (.inr rfl) (Ne.symm (hu.far v hv))
  rw [hunder] at hpages hpage
  obtain ⟨q, hq, hframe⟩ := addrV2p_frame hpages.layout.self (hpage.trans hu.home)
  obtain ⟨cr3, m3, haddr, hset⟩ := Prog.bind_eq_ok.1 hflush
  obtain ⟨rfl, rfl⟩ := Prod.mk.inj (Except.ok.inj (hq.symm.trans haddr))
  rw [hsame, Prog.modify_eq_ok.1 hset]
  exact hframe

/-- What a page that is given back leaves of the rest. -/
structure GonePage (p : Nat) (m m' : Memory) (v : Nat) : Prop where
  user : m'.UserSpace p
  page : m'.table v 4 = none
  others : ∀ a, InPool a → a / 4096 ≠ v / 4096 → m'.table a 4 = m.table a 4
  free : ∀ h, m'.FreeIn h → m.FreeIn h
  word_free : ∀ h, m.FreeIn h → m'.word h = m.word h
  word_old : ∀ a h, InPool a → m.table a 4 = some h → m'.word h = m.word h

/-- `free_pages` for a page that is mapped. Its frame does not become free. -/
theorem UserSpace.freePage (hu : m.UserSpace p) (hv : InPool v) (hpage : m.table v 4 = some g)
    (h : RecoverOS.freePage (some p) v m = .ok ((), m')) : GonePage p m m' v := by
  have hp := hu.pages
  obtain ⟨f, hf, -⟩ := table_succ.1 hpage
  have hc := freePage_clears hp.layout.self hf h
  have hcr3 := hu.freePage_cr3 hv hf h
  have hunder : m'.under m.cr3 = m' := by rw [← hcr3, under_self]
  have hpages := hp.clears (m := m) (.inl hv) hf hc
  have hothers : ∀ a, Home p a → a / 4096 ≠ v / 4096 → m'.table a 4 = m.table a 4 := fun a ha hne => by
    have hsame := hc.page (m := m) hp (.inl hv) hf ha hne
    rwa [hunder] at hsame
  have hnone := hc.none (m := m) hp.layout (.inl hv) hf
  rw [hunder] at hpages hnone
  -- only the table of the page is written to
  have hword : ∀ t, t ≠ f → m'.word t = m.word t :=
    fun t ht => funext fun i => hc.word t i fun heq => ht heq.1
  exact {
    user := {
      pages := hpages
      home := (hothers p (.inr rfl) (Ne.symm (hu.far v hv))).trans (hu.home.trans (congrArg some hcr3.symm))
      far := hu.far }
    page := hnone
    others := fun a ha => hothers a (.inl ha)
    free := fun t ht => hc.pool.freeIn ht
    word_free := fun t ht => hword t fun heq => hp.layout.not_freeIn (Nat.le_refl 3) hf (heq ▸ ht)
    word_old := fun a t ha ht => hword t fun heq => hp.fresh a t ha ht v 3 (Nat.le_refl 3) (heq ▸ hf) }

/-! ## Bytes of the user pool -/

/-- The byte at an address of the user pool, if its page is mapped. -/
def byte (m : Memory) (a : Nat) : Option Byte := (m.table a 4).map fun g => byteAt m (4096 * g + a % 4096)

theorem byte_of_table (h : m.table a 4 = some g) : m.byte a = some (byteAt m (4096 * g + a % 4096)) := by
  rw [byte, h, Option.map_some]

theorem isSome_of_byte (h : m.byte a = some b) : (m.table a 4).isSome := by
  obtain ⟨g, hg, -⟩ := Option.map_eq_some_iff.1 h
  rw [hg]
  rfl

/-- Where the frame of a page is the same, and its words, so are the bytes. -/
theorem byte_congr (htable : m'.table a 4 = m.table a 4) (hword : ∀ g, m.table a 4 = some g → m'.word g = m.word g) :
    m'.byte a = m.byte a := by
  cases hread : m.table a 4 with
  | none => rw [byte, byte, htable, hread, Option.map_none, Option.map_none]
  | some g =>
      rw [byte_of_table hread, byte_of_table (htable.trans hread), byteAt, byteAt,
        show (4096 * g + a % 4096) / 4096 = g by omega, hword g hread]

theorem translate_of_inPool (hx : InPool x) (h : m.translate x = some q) :
    ∃ g, m.table x 4 = some g ∧ q = 4096 * g + x % 4096 := by
  unfold Memory.translate Paging.translate at h
  rw [if_pos hx.canonical] at h
  obtain ⟨g, hg, rfl⟩ := Option.map_eq_some_iff.1 h
  exact ⟨g, hg, rfl⟩

/-- A store to a page that is no table changes no walk. -/
theorem table_setByte (hfresh : Fresh m.word m.cr3 (q / 4096)) (a : Nat) :
    ∀ j ≤ 4, (RecoverOS.setByte m q b).table a j = m.table a j :=
  table_congr fun j hj t ht => setWord_ne fun heq => hfresh a j (by omega) (heq.1 ▸ ht)

/-- A store to an address of the pool changes the byte there and no other of the pool. -/
theorem UserSpace.setByte (hu : m.UserSpace p) (hx : InPool x) (hq : m.translate x = some q) :
    (RecoverOS.setByte m q b).UserSpace p ∧ (∀ a, (RecoverOS.setByte m q b).table a 4 = m.table a 4) ∧
      (∀ g, m.FreeIn g → (RecoverOS.setByte m q b).word g = m.word g) ∧
      ∀ a, InPool a → (RecoverOS.setByte m q b).byte a = (m.byte a).map fun old => if x = a then b else old := by
  have hp := hu.pages
  obtain ⟨g, hg, rfl⟩ := translate_of_inPool hx hq
  have hpage : (4096 * g + x % 4096) / 4096 = g := by omega
  have hfresh : Fresh m.word m.cr3 ((4096 * g + x % 4096) / 4096) := hpage.symm ▸ hp.fresh x g hx hg
  have htables := table_setByte (b := b) hfresh
  have hword : ∀ t, t ≠ g → (RecoverOS.setByte m (4096 * g + x % 4096) b).word t = m.word t :=
    fun t ht => funext fun j => setWord_ne fun heq => ht (heq.1.trans hpage)
  refine ⟨⟨hp.congr rfl ⟨rfl, rfl, fun _ hi => hi⟩ fun a j hj t ht => hword t fun heq => ?_, ?_, hu.far⟩,
    fun a => htables a 4 (Nat.le_refl 4), fun t ht => hword t fun heq => ?_, fun a ha => ?_⟩
  · exact hp.fresh x g hx hg a j hj (heq ▸ ht)
  · exact (htables p 4 (Nat.le_refl 4)).trans hu.home
  · exact hp.taken x g (.inl hx) hg (heq ▸ ht)
  · cases hread : m.table a 4 with
    | none =>
        rw [byte, byte, htables a 4 (Nat.le_refl 4), hread, Option.map_none, Option.map_none, Option.map_none]
    | some h =>
        rw [byte_of_table ((htables a 4 (Nat.le_refl 4)).trans hread), byte_of_table hread,
          Option.map_some, byteAt_setByte]
        congr 1
        by_cases hxa : x = a
        · subst hxa
          obtain rfl : h = g := Option.some.inj (hread.symm.trans hg)
          rw [if_pos rfl, if_pos rfl]
        · rw [if_neg hxa, if_neg]
          intro heq
          obtain rfl : h = g := by omega
          have hsame := hp.apart x a h hx (.inl ha) hg hread
          omega

end UserSpace

end Memory

end RecoverOS
