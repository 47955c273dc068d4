import RecoverOS.UserProg.UserPages

set_option autoImplicit false

/-! # The image that `load` leaves (`userprog/exec.c`)

The pages that `segment_load` goes over are those of the bytes in the file: it does not look at `p_memsz`, and
`get_pages` hands out frames as they are. What the bytes of the user pool are after `load` follows from that,
byte by byte. The pages of a read buffer come and go in between. -/

namespace RecoverOS

open Paging

/-! ## Pages and stores -/

/-- The last byte stored to `a`, or `old`. -/
def lastByte (L : List (Nat × Byte)) (a : Nat) (old : Byte) : Byte :=
  L.foldl (fun b x => if x.1 = a then x.2 else b) old

theorem lastByte_append (L L' : List (Nat × Byte)) (a : Nat) (old : Byte) :
    lastByte (L ++ L') a old = lastByte L' a (lastByte L a old) := List.foldl_append

theorem lastByte_of_not_mem {L : List (Nat × Byte)} {a : Nat} (h : ∀ x ∈ L, x.1 ≠ a) (old : Byte) :
    lastByte L a old = old := by
  induction L generalizing old with
  | nil => rfl
  | cons x L ih =>
      rw [lastByte, List.foldl_cons, if_neg (h x (List.mem_cons_self ..))]
      exact ih (fun y hy => h y (List.mem_cons_of_mem _ hy)) old

/-- Where all bytes stored to `a` are `b`, and there is one. -/
theorem lastByte_eq {L : List (Nat × Byte)} {a : Nat} {b : Byte} (hmem : (a, b) ∈ L)
    (h : ∀ x ∈ L, x.1 = a → x.2 = b) (old : Byte) : lastByte L a old = b := by
  have hkeep : ∀ L : List (Nat × Byte), (∀ x ∈ L, x.1 = a → x.2 = b) → lastByte L a b = b := by
    intro L
    induction L with
    | nil => exact fun _ => rfl
    | cons x L ih =>
        intro h
        rw [lastByte, List.foldl_cons]
        have hrest := ih fun y hy => h y (List.mem_cons_of_mem _ hy)
        split
        · next hx =>
            rw [h x (List.mem_cons_self ..) hx]
            exact hrest
        · exact hrest
  obtain ⟨L1, L2, rfl⟩ := List.append_of_mem hmem
  rw [lastByte_append, lastByte, List.foldl_cons, if_pos rfl]
  exact hkeep L2 fun x hx => h x (List.mem_append_right _ (List.mem_cons_of_mem _ hx))

/-- The pages that a loop of `segment_load` goes over. -/
def pagesFrom : Nat → Nat → List Nat
  | 0, _ => []
  | n + 1, vaddr_page => vaddr_page :: pagesFrom n (u64 (vaddr_page + 4096))

theorem mem_pagesFrom {n v w : Nat} (hmax : v + 4096 * n < 2 ^ 64) (h : w ∈ pagesFrom n v) :
    v ≤ w ∧ w < v + 4096 * n := by
  induction n generalizing v with
  | zero => cases h
  | succ n ih =>
      rw [Nat.mul_succ, Nat.add_comm (4096 * n), ← Nat.add_assoc] at hmax ⊢
      have hlt : v + 4096 < 2 ^ 64 := Nat.lt_of_le_of_lt (Nat.le_add_right _ _) hmax
      have hnext : u64 (v + 4096) = v + 4096 := u64_of_lt hlt
      rw [pagesFrom, List.mem_cons, hnext] at h
      obtain rfl | h := h
      · omega
      · obtain ⟨hle, hlt'⟩ := ih hmax h
        exact ⟨Nat.le_trans (Nat.le_add_right _ _) hle, hlt'⟩

theorem pagesFrom_covers {n v x : Nat} (hv : v % 4096 = 0) (hmax : v + 4096 * n < 2 ^ 64) (hlow : v ≤ x)
    (hhigh : x < v + 4096 * n) : ∃ w ∈ pagesFrom n v, w / 4096 = x / 4096 := by
  induction n generalizing v with
  | zero => omega
  | succ n ih =>
      rw [Nat.mul_succ, Nat.add_comm (4096 * n), ← Nat.add_assoc] at hmax hhigh
      have hnext : u64 (v + 4096) = v + 4096 := u64_of_lt (by omega)
      rw [pagesFrom, hnext]
      by_cases hx : x < v + 4096
      · exact ⟨v, List.mem_cons_self .., by omega⟩
      · obtain ⟨w, hw, hpage⟩ := ih (by omega) hmax (by omega) hhigh
        exact ⟨w, List.mem_cons_of_mem _ hw, hpage⟩

/-- The pages `vaddr + 4096 * j`, from number `i` on. -/
def runFrom (vaddr i n : Nat) : List Nat := (List.range' i n).map fun j => vaddr + j * 4096

theorem runFrom_succ (vaddr i n : Nat) :
    runFrom vaddr i (n + 1) = (vaddr + i * 4096) :: runFrom vaddr (i + 1) n := by
  rw [runFrom, List.range'_succ, List.map_cons]
  rfl

theorem ne_of_mem_runFrom {vaddr i n v : Nat} (h : v ∈ runFrom vaddr (i + 1) n) :
    v / 4096 ≠ (vaddr + i * 4096) / 4096 := by
  obtain ⟨j, hj, rfl⟩ := List.mem_map.1 h
  have hle := (List.mem_range'_1.1 hj).1
  omega

/-- The pages of a read buffer. -/
def ReadBuf.pagesOf : ReadBuf → List Nat
  | .block => []
  | .pages arena cnt => runFrom arena 0 cnt

/-- The pages of a run lie in the pool. -/
theorem InRun.inPool {vaddr cnt idx : Nat} (h : InRun vaddr cnt idx) : ∀ v ∈ runFrom vaddr 0 cnt, InPool v := by
  intro v hv
  obtain ⟨j, hj, rfl⟩ := List.mem_map.1 hv
  have hlt := (List.mem_range'_1.1 hj).2
  obtain ⟨rfl, hfits⟩ := h
  unfold InPool
  simp only [USER_START_ADDR, POOL_LEN_MAX, V_POOL_BITS_MAX]
  omega

/-! ## What has been done so far -/

/-- From memory `m0`, the pages `W` have been gone over, or belong to a read buffer, and the stores `L` have been
    made: a page that was mapped has its old bytes below the stores; a page that is new has those of a frame that
    was free. -/
structure Loaded (p : Nat) (m0 m : Memory) (W : List Nat) (L : List (Nat × Byte)) : Prop where
  user : m.UserSpace p
  free : ∀ g, m.FreeIn g → m0.FreeIn g ∧ m.word g = m0.word g
  inPool : ∀ w ∈ W, InPool w
  stored : ∀ x ∈ L, InPool x.1 ∧ (m.table x.1 4).isSome
  mapped : ∀ a old, InPool a → m0.byte a = some old → m.byte a = some (lastByte L a old)
  new : ∀ a, InPool a → m0.table a 4 = none → (∃ w ∈ W, w / 4096 = a / 4096) →
    ∃ g, m0.FreeIn g ∧ m.byte a = some (lastByte L a (byteAt m0 (4096 * g + a % 4096)))
  rest : ∀ a, InPool a → m0.table a 4 = none → (∀ w ∈ W, w / 4096 ≠ a / 4096) → m.table a 4 = none

namespace Loaded

/-- A page that has just come: it was not mapped, and nothing was stored to it. -/
structure Unseen (m0 : Memory) (W : List Nat) (L : List (Nat × Byte)) (v : Nat) : Prop where
  absent : m0.table v 4 = none
  pages : ∀ w ∈ W, w / 4096 ≠ v / 4096
  stores : ∀ x ∈ L, x.1 / 4096 ≠ v / 4096

variable {p : Nat} {m0 m m' : Memory} {W V : List Nat} {L : List (Nat × Byte)} {v g x q : Nat} {b : Byte}

theorem refl (hu : m0.UserSpace p) : Loaded p m0 m0 [] [] where
  user := hu
  free := fun _ h => ⟨h, rfl⟩
  inPool := nofun
  stored := nofun
  mapped := fun _ _ _ h => h
  new := by
    rintro a - - ⟨w, hw, -⟩
    cases hw
  rest := fun _ _ h _ => h

/-- The pages are there. -/
theorem isSome (h : Loaded p m0 m W L) {w : Nat} (hw : w ∈ W) : (m.table w 4).isSome := by
  cases hread : m0.table w 4 with
  | some g => exact Memory.isSome_of_byte (h.mapped w _ (h.inPool w hw) (Memory.byte_of_table hread))
  | none =>
      obtain ⟨g, -, hbyte⟩ := h.new w (h.inPool w hw) hread ⟨w, hw, rfl⟩
      exact Memory.isSome_of_byte hbyte

/-- A page that is not mapped is none of those. -/
theorem unseen (h : Loaded p m0 m W L) (hv : InPool v) (hnone : m.table v 4 = none) : Unseen m0 W L v where
  absent := by
    by_contra hsome
    obtain ⟨g, hg⟩ := Option.ne_none_iff_exists'.1 hsome
    have hbyte := Memory.isSome_of_byte (h.mapped v _ hv (Memory.byte_of_table hg))
    rw [hnone] at hbyte
    cases hbyte
  pages := fun w hw heq => by
    have hsome := h.isSome hw
    rw [Memory.table_page heq, hnone] at hsome
    cases hsome
  stores := fun y hy heq => by
    have hsome := (h.stored y hy).2
    rw [Memory.table_page heq, hnone] at hsome
    cases hsome

theorem store (h : Loaded p m0 m W L) (hx : InPool x) (hq : m.translate x = some q) :
    Loaded p m0 (setByte m q b) W (L ++ [(x, b)]) := by
  obtain ⟨g, hg, -⟩ := Memory.translate_of_inPool hx hq
  obtain ⟨huser, htable, hfree, hbyte⟩ := h.user.setByte (b := b) hx hq
  have hlast : ∀ a old, lastByte (L ++ [(x, b)]) a old = if x = a then b else lastByte L a old := by
    intro a old
    rw [lastByte_append]
    rfl
  exact {
    user := huser
    free := fun t ht => by
      obtain ⟨hfree0, hword⟩ := h.free t ht
      exact ⟨hfree0, (hfree t ht).trans hword⟩
    inPool := h.inPool
    stored := fun y hy => by
      rw [htable y.1]
      obtain hold | hnew := List.mem_append.1 hy
      · exact h.stored y hold
      · rw [List.mem_singleton.1 hnew, hg]
        exact ⟨hx, rfl⟩
    mapped := fun a old ha hold => by
      rw [hbyte a ha, h.mapped a old ha hold, Option.map_some, hlast]
    new := fun a ha hnone hw => by
      obtain ⟨t, hfree, hread⟩ := h.new a ha hnone hw
      exact ⟨t, hfree, by rw [hbyte a ha, hread, Option.map_some, hlast]⟩
    rest := fun a ha hnone hw => by
      rw [htable a]
      exact h.rest a ha hnone hw }

/-- A page that is mapped is gone over. -/
theorem skip (h : Loaded p m0 m W L) (hv : InPool v) (hsome : (m.table v 4).isSome) :
    Loaded p m0 m (W ++ [v]) L where
  user := h.user
  free := h.free
  inPool := fun w hw => by
    obtain hw | hw := List.mem_append.1 hw
    · exact h.inPool w hw
    · rwa [List.mem_singleton.1 hw]
  stored := h.stored
  mapped := h.mapped
  new := by
    rintro a ha hnone ⟨w, hw, hwa⟩
    by_cases hold : ∃ w ∈ W, w / 4096 = a / 4096
    · exact h.new a ha hnone hold
    · obtain hw | hw := List.mem_append.1 hw
      · exact absurd ⟨w, hw, hwa⟩ hold
      · rw [List.mem_singleton.1 hw] at hwa
        have habsent := h.rest a ha hnone fun w hw hc => hold ⟨w, hw, hc⟩
        rw [Memory.table_page hwa, habsent] at hsome
        cases hsome
  rest := fun a ha hnone hw => h.rest a ha hnone fun w hmem => hw w (List.mem_append_left _ hmem)

/-- A page that is not mapped gets a frame with whatever is in it. -/
theorem map (h : Loaded p m0 m W L) (hv : InPool v) (hnone : m.table v 4 = none)
    (hnew : Memory.NewPage p m m' v g) : Loaded p m0 m' (W ++ [v]) L := by
  have hun := h.unseen hv hnone
  have hbyte : ∀ a b, InPool a → m.byte a = some b → m'.byte a = some b := by
    intro a b ha hb
    have hne : a / 4096 ≠ v / 4096 := by
      intro heq
      have hsome := Memory.isSome_of_byte hb
      rw [Memory.table_page heq, hnone] at hsome
      cases hsome
    rw [Memory.byte_congr (hnew.others a ha hne) (fun t ht => hnew.word_old a t ha ht), hb]
  exact {
    user := hnew.user
    free := fun t ht => by
      obtain ⟨hfree0, hword⟩ := h.free t (hnew.free t ht)
      exact ⟨hfree0, (hnew.word_free t ht).trans hword⟩
    inPool := fun w hw => by
      obtain hw | hw := List.mem_append.1 hw
      · exact h.inPool w hw
      · rwa [List.mem_singleton.1 hw]
    stored := fun y hy => by
      obtain ⟨hin, hsome⟩ := h.stored y hy
      rw [hnew.others y.1 hin (hun.stores y hy)]
      exact ⟨hin, hsome⟩
    mapped := fun a old ha hread => hbyte a _ ha (h.mapped a old ha hread)
    new := by
      rintro a ha hnone0 ⟨w, hw, hwa⟩
      by_cases hcov : ∃ w ∈ W, w / 4096 = a / 4096
      · -- the page came earlier
        obtain ⟨t, hfree, hread⟩ := h.new a ha hnone0 hcov
        exact ⟨t, hfree, hbyte a _ ha hread⟩
      · obtain hw | hw := List.mem_append.1 hw
        · exact absurd ⟨w, hw, hwa⟩ hcov
        · rw [List.mem_singleton.1 hw] at hwa
          obtain ⟨hfree0, hword⟩ := h.free g hnew.was_free
          have hpage := (Memory.table_page (m := m') hwa).symm.trans hnew.page
          -- nothing was stored to a page that was not there
          have hlast : lastByte L a (byteAt m0 (4096 * g + a % 4096)) = byteAt m0 (4096 * g + a % 4096) :=
            lastByte_of_not_mem (fun y hy hya => hun.stores y hy (by rw [hya, hwa])) _
          refine ⟨g, hfree0, ?_⟩
          rw [hlast, Memory.byte_of_table hpage, byteAt, byteAt,
            show (4096 * g + a % 4096) / 4096 = g by omega, hnew.word_page, hword]
    rest := fun a ha hnone0 hw => by
      have hne : a / 4096 ≠ v / 4096 := fun heq =>
        hw v (List.mem_append_right _ (List.mem_singleton.2 rfl)) heq.symm
      rw [hnew.others a ha hne]
      exact h.rest a ha hnone0 fun w hmem => hw w (List.mem_append_left _ hmem) }

/-- A page of a read buffer is given back. -/
theorem unmap (h : Loaded p m0 m (W ++ v :: V) L) (hun : Unseen m0 W L v) (hV : ∀ w ∈ V, w / 4096 ≠ v / 4096)
    (hrun : freePage (some p) v m = .ok ((), m')) : Loaded p m0 m' (W ++ V) L := by
  have hmem : v ∈ W ++ v :: V := List.mem_append_right _ (List.mem_cons_self ..)
  have hv : InPool v := h.inPool v hmem
  obtain ⟨g, hg⟩ := Option.isSome_iff_exists.1 (h.isSome hmem)
  have hgone := h.user.freePage hv hg hrun
  have hW : ∀ w ∈ W ++ V, w / 4096 ≠ v / 4096 := fun w hw => (List.mem_append.1 hw).elim (hun.pages w) (hV w)
  have hsub : ∀ w ∈ W ++ V, w ∈ W ++ v :: V := fun w hw => by
    obtain hw | hw := List.mem_append.1 hw
    · exact List.mem_append_left _ hw
    · exact List.mem_append_right _ (List.mem_cons_of_mem _ hw)
  have hbyte : ∀ a, InPool a → a / 4096 ≠ v / 4096 → m'.byte a = m.byte a := fun a ha hne =>
    Memory.byte_congr (hgone.others a ha hne) fun t ht => hgone.word_old a t ha ht
  exact {
    user := hgone.user
    free := fun t ht => by
      obtain ⟨hfree0, hword⟩ := h.free t (hgone.free t ht)
      exact ⟨hfree0, (hgone.word_free t (hgone.free t ht)).trans hword⟩
    inPool := fun w hw => h.inPool w (hsub w hw)
    stored := fun y hy => by
      obtain ⟨hin, hsome⟩ := h.stored y hy
      rw [hgone.others y.1 hin (hun.stores y hy)]
      exact ⟨hin, hsome⟩
    mapped := fun a old ha hread => by
      have hne : a / 4096 ≠ v / 4096 := fun heq => by
        have hsome := Memory.isSome_of_byte hread
        rw [Memory.table_page heq, hun.absent] at hsome
        cases hsome
      rw [hbyte a ha hne]
      exact h.mapped a old ha hread
    new := by
      rintro a ha hnone0 ⟨w, hw, hwa⟩
      rw [hbyte a ha (hwa ▸ hW w hw)]
      exact h.new a ha hnone0 ⟨w, hsub w hw, hwa⟩
    rest := fun a ha hnone0 hw => by
      by_cases hav : a / 4096 = v / 4096
      · rw [Memory.table_page hav]
        exact hgone.page
      · rw [hgone.others a ha hav]
        refine h.rest a ha hnone0 fun w hmem => ?_
        obtain hmem | hmem := List.mem_append.1 hmem
        · exact hw w (List.mem_append_left _ hmem)
        · obtain rfl | hmem := List.mem_cons.1 hmem
          · exact Ne.symm hav
          · exact hw w (List.mem_append_right _ hmem) }

/-! ## The read buffer -/

section Buffer

variable {c : Caller} {f : ElfFile} {s s' : Exec} {vaddr cnt idx n i : Nat}

theorem bufferPagesFrom (h : Loaded p m0 s.space.mem W L) (hin : ∀ v ∈ runFrom vaddr i n, InPool v)
    (hrun : RecoverOS.bufferPagesFrom vaddr n i s = .ok (true, s')) :
    Loaded p m0 s'.space.mem (W ++ runFrom vaddr i n) L ∧
      ∀ v ∈ runFrom vaddr i n, s.space.mem.table v 4 = none := by
  induction n generalizing i s W with
  | zero =>
      obtain ⟨-, rfl⟩ := Prog.pure_eq_ok.1 hrun
      rw [runFrom, List.range'_zero, List.map_nil, List.append_nil]
      exact ⟨h, nofun⟩
  | succ n ih =>
      rw [runFrom_succ] at hin ⊢
      obtain ⟨got, s1, hgot, hrun⟩ := Prog.bind_eq_ok.1 hrun
      obtain ⟨mem, hmem, rfl⟩ := Exec.onMem_run hgot
      cases got with
      | false =>
          obtain ⟨heq, -⟩ := Prog.pure_eq_ok.1 hrun
          cases heq
      | true =>
          simp only [if_true, record, Prog.run_modify_bind] at hrun
          have hv := hin _ (List.mem_cons_self ..)
          obtain ⟨hnone, g, hnew⟩ := h.user.getPage hv hmem
          obtain ⟨hrest, habsent⟩ := ih (h.map hv hnone hnew) (fun v hv => hin v (List.mem_cons_of_mem _ hv)) hrun
          rw [List.append_assoc, List.singleton_append] at hrest
          refine ⟨hrest, fun v hmem => ?_⟩
          obtain rfl | hmem := List.mem_cons.1 hmem
          · exact hnone
          · rw [← hnew.others v (hin v (List.mem_cons_of_mem _ hmem)) (ne_of_mem_runFrom hmem)]
            exact habsent v hmem

theorem bufferPages (h : Loaded p m0 s.space.mem W L) (hs : s.Contained) (hroom : s'.HadRoom) (hcnt : 0 < cnt)
    (hrun : RecoverOS.bufferPages cnt s = .ok (some v, s')) :
    Loaded p m0 s'.space.mem (W ++ runFrom v 0 cnt) L ∧ ∀ w ∈ runFrom v 0 cnt, s.space.mem.table w 4 = none := by
  obtain ⟨-, -, hcase⟩ := Exec.bufferPages_leads hcnt hrun
  obtain ⟨idx, hidx⟩ := hcase v rfl hroom hs
  obtain ⟨s1, s2, hget, hrun⟩ := Prog.bind_eq_ok.1 hrun
  obtain ⟨rfl, rfl⟩ := Prog.get_eq_ok.1 hget
  rw [record, Prog.run_modify_bind] at hrun
  obtain ⟨found, s3, hv, hrun⟩ := Prog.bind_eq_ok.1 hrun
  obtain ⟨t, ht, rfl⟩ := Prog.zoom_eq_ok.1 hv
  obtain ⟨k, t1, hbits, ht⟩ := Prog.bind_eq_ok.1 ht
  obtain ⟨bits, -, rfl⟩ := Prog.zoom_eq_ok.1 hbits
  obtain ⟨t2, t3, hget, ht⟩ := Prog.bind_eq_ok.1 ht
  obtain ⟨rfl, rfl⟩ := Prog.get_eq_ok.1 hget
  obtain ⟨rfl, rfl⟩ := Prog.pure_eq_ok.1 ht
  cases k with
  | none =>
      obtain ⟨heq, -⟩ := Prog.pure_eq_ok.1 hrun
      cases heq
  | some k =>
      simp only [Option.map_some, record, Prog.run_modify_bind] at hrun
      obtain ⟨ok, s4, hpages, hrun⟩ := Prog.bind_eq_ok.1 hrun
      obtain ⟨heq, rfl⟩ := Prog.pure_eq_ok.1 hrun
      cases ok with
      | false => cases heq
      | true =>
          obtain rfl := Option.some.inj heq
          have hall := bufferPagesFrom (by exact h) hidx.inPool hpages
          exact hall

theorem mallocReadBuf {size : Nat} {b : ReadBuf} (h : Loaded p m0 s.space.mem W L) (hs : s.Contained)
    (hroom : s'.HadRoom) (hrun : RecoverOS.mallocReadBuf c size s = .ok (some b, s')) :
    Loaded p m0 s'.space.mem (W ++ b.pagesOf) L ∧ ∀ v ∈ b.pagesOf, Unseen m0 W L v := by
  have hpages : ∀ {cnt v : Nat}, 0 < cnt → RecoverOS.bufferPages cnt s = .ok (some v, s') →
      Loaded p m0 s'.space.mem (W ++ runFrom v 0 cnt) L ∧ ∀ w ∈ runFrom v 0 cnt, Unseen m0 W L w := by
    intro cnt v hcnt hrun
    obtain ⟨hloaded, hnone⟩ := h.bufferPages hs hroom hcnt hrun
    exact ⟨hloaded, fun w hw => h.unseen (hloaded.inPool w (List.mem_append_right _ hw)) (hnone w hw)⟩
  unfold RecoverOS.mallocReadBuf at hrun
  split at hrun
  · obtain ⟨⟨⟩, s1, hreq, hrun⟩ := Prog.bind_eq_ok.1 hrun
    obtain ⟨hcnt, rfl⟩ := Prog.require_eq_ok.1 hreq
    obtain ⟨a, s2, halloc, hrun⟩ := Prog.bind_eq_ok.1 hrun
    obtain ⟨hb, rfl⟩ := Prog.pure_eq_ok.1 hrun
    obtain ⟨v, rfl, rfl⟩ := Option.map_eq_some_iff.1 hb
    exact hpages hcnt halloc
  · split at hrun
    · obtain ⟨heq, rfl⟩ := Prog.pure_eq_ok.1 hrun
      cases heq
      rw [ReadBuf.pagesOf, List.append_nil]
      exact ⟨h, nofun⟩
    · obtain ⟨a, s2, halloc, hrun⟩ := Prog.bind_eq_ok.1 hrun
      cases a with
      | none => cases hrun
      | some v =>
          obtain ⟨heq, rfl⟩ := Prog.pure_eq_ok.1 hrun
          cases heq
          exact hpages Nat.one_pos halloc

theorem freePagesFrom (h : Loaded p m0 m (W ++ runFrom vaddr i n) L) (hun : ∀ v ∈ runFrom vaddr i n, Unseen m0 W L v)
    (hrun : RecoverOS.freePagesFrom (some p) vaddr n i m = .ok ((), m')) : Loaded p m0 m' W L := by
  induction n generalizing i m with
  | zero =>
      obtain ⟨-, rfl⟩ := Prog.pure_eq_ok.1 hrun
      rwa [runFrom, List.range'_zero, List.map_nil, List.append_nil] at h
  | succ n ih =>
      rw [runFrom_succ] at h hun
      obtain ⟨⟨⟩, m1, hpage, hrun⟩ := Prog.bind_eq_ok.1 hrun
      have h1 := h.unmap (hun _ (List.mem_cons_self ..)) (fun w hw => ne_of_mem_runFrom hw) hpage
      exact ih h1 (fun v hv => hun v (List.mem_cons_of_mem _ hv)) hrun

theorem freeReadBuf {b : ReadBuf} (hpml4 : c.pml4 = some p) (h : Loaded p m0 s.space.mem (W ++ b.pagesOf) L)
    (hun : ∀ v ∈ b.pagesOf, Unseen m0 W L v) (hrun : RecoverOS.freeReadBuf c b s = .ok ((), s')) :
    Loaded p m0 s'.space.mem W L := by
  cases b with
  | block =>
      obtain ⟨-, rfl⟩ := Prog.pure_eq_ok.1 hrun
      rwa [ReadBuf.pagesOf, List.append_nil] at h
  | pages arena cnt =>
      obtain ⟨s1, s2, hget, hrun⟩ := Prog.bind_eq_ok.1 hrun
      obtain ⟨rfl, rfl⟩ := Prog.get_eq_ok.1 hget
      rw [record, Prog.run_modify_bind] at hrun
      obtain ⟨t, ht, rfl⟩ := Prog.zoom_eq_ok.1 hrun
      obtain ⟨⟨⟩, t1, hmem, hpool⟩ := Prog.bind_eq_ok.1 ht
      obtain ⟨mem, hfree, rfl⟩ := Prog.zoom_eq_ok.1 hmem
      obtain ⟨t2, t3, hget, hpool⟩ := Prog.bind_eq_ok.1 hpool
      obtain ⟨rfl, rfl⟩ := Prog.get_eq_ok.1 hget
      obtain ⟨bits, -, rfl⟩ := Prog.zoom_eq_ok.1 hpool
      rw [hpml4] at hfree
      exact h.freePagesFrom hun hfree

/-- `sys_read` leaves what it does with the bytes; the pages of its buffer are gone. -/
theorem readFile {count n : Nat} {copy : Nat → Prog Exec Unit} {N : List (Nat × Byte)} {r : Option Nat}
    (hread : f.readBytes count s.fd_pos = some n) (hpml4 : c.pml4 = some p) (h : Loaded p m0 s.space.mem W L)
    (hs : s.Contained) (hroom : s'.HadRoom) (hserved : .refused ∉ s'.events)
    (hgrows : ∀ t t', copy n t = .ok ((), t') → t.Leads t')
    (hcopy : ∀ t t' V, t.fd_pos = s.fd_pos → Loaded p m0 t.space.mem (W ++ V) L → copy n t = .ok ((), t') →
      Loaded p m0 t'.space.mem (W ++ V) (L ++ N))
    (hN : ∀ x ∈ N, ∃ w ∈ W, w / 4096 = x.1 / 4096)
    (hrun : RecoverOS.readFile c f count copy s = .ok (r, s')) : Loaded p m0 s'.space.mem W (L ++ N) := by
  obtain ⟨s1, s2, hget, hrun⟩ := Prog.bind_eq_ok.1 hrun
  obtain ⟨rfl, rfl⟩ := Prog.get_eq_ok.1 hget
  rw [hread] at hrun
  obtain ⟨read_buf, s3, hmalloc, hrun⟩ := Prog.bind_eq_ok.1 hrun
  cases read_buf with
  | none =>
      obtain ⟨rfl, rfl⟩ := Prog.pure_eq_ok.1 hrun
      exact absurd (List.mem_append_right _ (List.mem_singleton.2 rfl)) hserved
  | some b =>
      obtain ⟨⟨⟩, s4, hcopied, hrun⟩ := Prog.bind_eq_ok.1 hrun
      obtain ⟨⟨⟩, s5, hfree, hrun⟩ := Prog.bind_eq_ok.1 hrun
      obtain ⟨rfl, rfl⟩ := Prog.pure_eq_ok.1 hrun
      obtain ⟨-, hpos, -⟩ := Exec.mallocReadBuf_leads hmalloc
      have hroom3 : s3.HadRoom := (hgrows s3 s4 hcopied).hadRoom fun e he =>
        hroom e ((Exec.freeReadBuf_leads hfree).1 e he)
      obtain ⟨hlent, hun⟩ := h.mallocReadBuf hs hroom3 hmalloc
      have hstored := hcopy s3 s4 b.pagesOf hpos hlent hcopied
      have hunseen : ∀ v ∈ b.pagesOf, Unseen m0 W (L ++ N) v := fun v hv =>
        ⟨(hun v hv).absent, (hun v hv).pages, fun x hx => by
          obtain hx | hx := List.mem_append.1 hx
          · exact (hun v hv).stores x hx
          · obtain ⟨w, hw, hpage⟩ := hN x hx
            exact hpage ▸ (hun v hv).pages w hw⟩
      have hfreed := hstored.freeReadBuf hpml4 hunseen hfree
      exact hfreed

/-- The buffer of a header leaves no trace. -/
theorem readHeader {count : Nat} {r : Option Nat} (hpml4 : c.pml4 = some p) (h : Loaded p m0 s.space.mem W L)
    (hs : s.Contained) (hroom : s'.HadRoom) (hserved : .refused ∉ s'.events)
    (hrun : RecoverOS.readFile c f count (fun _ => pure ()) s = .ok (r, s')) : Loaded p m0 s'.space.mem W L := by
  cases hread : f.readBytes count s.fd_pos with
  | none =>
      obtain ⟨s1, s2, hget, hrun⟩ := Prog.bind_eq_ok.1 hrun
      obtain ⟨rfl, rfl⟩ := Prog.get_eq_ok.1 hget
      rw [hread] at hrun
      obtain ⟨-, rfl⟩ := Prog.pure_eq_ok.1 hrun
      exact h
  | some n =>
      have hall := h.readFile (N := []) hread hpml4 hs hroom hserved
        (fun _ _ hcopy => by
          obtain ⟨-, rfl⟩ := Prog.pure_eq_ok.1 hcopy
          exact .refl _)
        (fun _ _ _ _ hloaded hcopy => by
          obtain ⟨-, rfl⟩ := Prog.pure_eq_ok.1 hcopy
          rwa [List.append_nil])
        (fun x hx => absurd hx List.not_mem_nil) hrun
      rwa [List.append_nil] at hall

end Buffer

/-! ## The loops of `segment_load` and `memcpy` -/

section Loops

variable {s s' : Exec} {n : Nat}

theorem page (h : Loaded p m0 s.space.mem W L) (hv : InPool v) (hrun : segmentPage v s = .ok (true, s')) :
    Loaded p m0 s'.space.mem (W ++ [v]) L := by
  obtain ⟨stat, s1, hstat, hrun⟩ := Prog.bind_eq_ok.1 hrun
  obtain ⟨mem, hmem, rfl⟩ := Exec.onMem_run hstat
  have hl := h.user.pages.layout
  cases hread : s.space.mem.table v 4 with
  | some g =>
      have hfour : mapStat v s.space.mem = .ok (4, s.space.mem) :=
        Memory.mapStatFrom_present (n := 4) (i := 0) hl.self hread rfl
      obtain ⟨rfl, rfl⟩ := Prod.mk.inj (Except.ok.inj (hfour.symm.trans hmem))
      rw [if_neg (not_not.2 rfl)] at hrun
      obtain ⟨-, rfl⟩ := Prog.pure_eq_ok.1 hrun
      exact h.skip hv (by rw [hread]; rfl)
  | none =>
      obtain ⟨stat', -, hstat', -, hle, -, -⟩ :=
        hl.mapStatFrom_absent (n := 4) (i := 0) (f := s.space.mem.cr3) (.inl hv : Memory.Home p v) hread rfl rfl
      obtain ⟨rfl, rfl⟩ : stat' = stat ∧ s.space.mem = mem :=
        Prod.mk.inj (Except.ok.inj (hstat'.symm.trans hmem))
      rw [if_pos (by omega)] at hrun
      obtain ⟨got, s2, hgot, hrun⟩ := Prog.bind_eq_ok.1 hrun
      obtain ⟨mem2, hmem2, rfl⟩ := Exec.onMem_run hgot
      cases got with
      | false =>
          obtain ⟨heq, -⟩ := Prog.pure_eq_ok.1 hrun
          cases heq
      | true =>
          have hne : v ≠ 0 := fun heq => by
            have hlow := hv.1
            rw [heq] at hlow
            cases hlow
          rw [if_pos rfl, record, Prog.run_modify_bind, if_neg hne] at hrun
          obtain ⟨s3, s4, hget, hrun⟩ := Prog.bind_eq_ok.1 hrun
          obtain ⟨rfl, rfl⟩ := Prog.get_eq_ok.1 hget
          simp only [record, Prog.run_modify_bind] at hrun
          obtain ⟨⟨⟩, s5, hset, hrun⟩ := Prog.bind_eq_ok.1 hrun
          obtain ⟨-, rfl⟩ := Prog.pure_eq_ok.1 hrun
          obtain ⟨space5, hspace5, rfl⟩ := Prog.zoom_eq_ok.1 hset
          obtain ⟨bits, -, rfl⟩ := Prog.zoom_eq_ok.1 hspace5
          obtain ⟨-, g, hnew⟩ := h.user.getPage hv hmem2
          exact h.map hv hread hnew

theorem pages (h : Loaded p m0 s.space.mem W L) (hin : ∀ w ∈ pagesFrom n v, InPool w)
    (hrun : segmentPages n v s = .ok (true, s')) : Loaded p m0 s'.space.mem (W ++ pagesFrom n v) L := by
  induction n generalizing s v W with
  | zero =>
      obtain ⟨-, rfl⟩ := Prog.pure_eq_ok.1 hrun
      rwa [pagesFrom, List.append_nil]
  | succ n ih =>
      obtain ⟨ok, s1, hpage, hrun⟩ := Prog.bind_eq_ok.1 hrun
      cases ok with
      | false =>
          obtain ⟨heq, -⟩ := Prog.pure_eq_ok.1 hrun
          cases heq
      | true =>
          rw [pagesFrom] at hin ⊢
          have h1 := h.page (hin v (List.mem_cons_self ..)) hpage
          have h2 := ih h1 (fun w hw => hin w (List.mem_cons_of_mem _ hw)) hrun
          rwa [List.append_assoc, List.singleton_append] at h2

theorem stores {src : Buf} {i : Nat} (h : Loaded p m0 m W L)
    (hin : ∀ x ∈ (List.range' i n).map fun i => (u64 (v + i), src i), InPool x.1)
    (hrun : storeBytes v src n i m = .ok ((), m')) :
    Loaded p m0 m' W (L ++ (List.range' i n).map fun i => (u64 (v + i), src i)) := by
  induction n generalizing m L i with
  | zero =>
      obtain ⟨-, rfl⟩ := Prog.pure_eq_ok.1 hrun
      rwa [List.range'_zero, List.map_nil, List.append_nil]
  | succ n ih =>
      simp only [storeBytes, Prog.bind_eq_ok, Prog.get_eq_ok, Prog.ofOption_eq_ok,
        Prog.modify_eq_ok] at hrun
      obtain ⟨t, t', ⟨rfl, rfl⟩, q, _, ⟨hq, rfl⟩, _, _, rfl, hrun⟩ := hrun
      rw [List.range'_succ, List.map_cons] at hin ⊢
      have hone := h.store (b := src i) (hin _ (List.mem_cons_self ..)) hq
      have hrest := ih hone (fun x hx => hin x (List.mem_cons_of_mem _ hx)) hrun
      rwa [List.append_assoc, List.singleton_append] at hrest

end Loops

end Loaded

/-! ## The headers of a well-formed file -/

namespace ElfFile

variable (f : ElfFile)

/-- `p_memsz` of the program header at `q`, which `load` does not look at. -/
def p_memsz (q : Nat) : Nat := f.content.getLE (q + 40) 8

/-- There is a `PT_LOAD` header at `q`. -/
def LoadAt (q : Nat) : Prop :=
  ∃ k < f.e_phnum, q = f.e_phoff + 56 * k ∧ (f.phdrAt q).p_type = PT_LOAD

/-- The header table and the segments are inside the file, the segments lie in the user pool, and no two of
    them share a byte. -/
structure WellFormed : Prop where
  size_lt : f.i_size < 2 ^ 63
  table : f.e_phoff + 56 * f.e_phnum ≤ f.i_size
  inPool : ∀ q, f.LoadAt q → InPool (f.phdrAt q).p_vaddr ∧
    (f.phdrAt q).p_vaddr + f.p_memsz q ≤ USER_START_ADDR + POOL_LEN_MAX
  filesz : ∀ q, f.LoadAt q → (f.phdrAt q).p_filesz ≤ f.p_memsz q
  inFile : ∀ q, f.LoadAt q → (f.phdrAt q).p_offset + (f.phdrAt q).p_filesz ≤ f.i_size
  apart : ∀ q q', f.LoadAt q → f.LoadAt q' → q ≠ q' → ∀ i < f.p_memsz q, ∀ i' < f.p_memsz q',
    (f.phdrAt q).p_vaddr + i ≠ (f.phdrAt q').p_vaddr + i'

/-- The pages gone over for the header at `q`. -/
def pagesOf (q : Nat) : List Nat :=
  pagesFrom (occupyPages (f.phdrAt q).p_filesz (f.phdrAt q).p_vaddr) ((f.phdrAt q).p_vaddr &&& 0xfffffffffffff000)

/-- The bytes stored for it, with their addresses. -/
def storesOf (q : Nat) : List (Nat × Byte) :=
  (List.range' 0 (f.phdrAt q).p_filesz).map fun i =>
    (u64 ((f.phdrAt q).p_vaddr + i), f.content.from (f.phdrAt q).p_offset i)

/-- The `PT_LOAD` headers among `n` from `q` on. -/
def loads : Nat → Nat → List Nat
  | 0, _ => []
  | n + 1, q => if (f.phdrAt q).p_type = PT_LOAD then q :: loads n (q + 56) else loads n (q + 56)

/-- Every byte of every segment is what the file says: those in the file are its bytes, the others zero. -/
def RightImage (m : Memory) : Prop :=
  ∀ q, f.LoadAt q →
    (∀ i < (f.phdrAt q).p_filesz,
      m.byte ((f.phdrAt q).p_vaddr + i) = some (f.content ((f.phdrAt q).p_offset + i))) ∧
    ∀ i, (f.phdrAt q).p_filesz ≤ i → i < f.p_memsz q → m.byte ((f.phdrAt q).p_vaddr + i) = some 0

/-- No byte of a segment is an arena header, a link or a read buffer of the heap. -/
def ApartFromHeap (c : Caller) : Prop :=
  ∀ q, f.LoadAt q → ∀ i < f.p_memsz q,
    c.own ((f.phdrAt q).p_vaddr + i) = false ∧ c.block ((f.phdrAt q).p_vaddr + i) = false

/-- A page of `a` is gone over for some segment. -/
def Covers (a : Nat) : Prop := ∃ q, f.LoadAt q ∧ ∃ w ∈ f.pagesOf q, w / 4096 = a / 4096

/-- Every byte behind the ones in the file is zero before the call, or its page is not mapped then and is
    gone over. -/
def ZeroOrNew (m : Memory) : Prop :=
  ∀ q, f.LoadAt q → ∀ i, (f.phdrAt q).p_filesz ≤ i → i < f.p_memsz q →
    m.byte ((f.phdrAt q).p_vaddr + i) = some 0 ∨
      m.table ((f.phdrAt q).p_vaddr + i) 4 = none ∧ f.Covers ((f.phdrAt q).p_vaddr + i)

/-- Where the page of such a byte is not mapped, the frames that may become the page hold zero there. -/
def CleanFrames (m : Memory) : Prop :=
  ∀ q, f.LoadAt q → ∀ i, (f.phdrAt q).p_filesz ≤ i → i < f.p_memsz q →
    m.table ((f.phdrAt q).p_vaddr + i) 4 = none → ∀ g, m.FreeIn g →
      byteAt m (4096 * g + ((f.phdrAt q).p_vaddr + i) % 4096) = 0

variable {f : ElfFile} {c : Caller} {n q off offset count pos : Nat}

theorem lseek_of_le (hsize : f.i_size < 2 ^ 63) (h : offset ≤ f.i_size) (pos : Nat) :
    f.lseek offset pos = offset := by
  unfold lseek
  rw [s64_of_lt (Nat.lt_of_le_of_lt h hsize), s64_of_lt hsize, if_neg (by omega)]

/-- Inside the file, `sys_read` stores all that is asked for. -/
theorem readBytes_inside (hsize : f.i_size < 2 ^ 63) (h : pos + count ≤ f.i_size) :
    f.readBytes count pos = some count := by
  have hcount : realCount f.i_size count pos = count := by
    rw [realCount_inside hsize (by omega) (by omega), Nat.min_eq_left (by omega)]
  have hpos : u64 (pos + count) = pos + count := u64_of_lt (by omega)
  unfold readBytes
  dsimp only
  rw [hcount, hpos, if_neg (by omega), u64OfInt_natCast (by omega)]

theorem loads_tail (f : ElfFile) (h : q ∈ f.loads n (off + 56)) : q ∈ f.loads (n + 1) off := by
  rw [loads]
  split
  · exact List.mem_cons_of_mem _ h
  · exact h

theorem mem_loads : q ∈ f.loads n off ↔ ∃ k < n, q = off + 56 * k ∧ (f.phdrAt q).p_type = PT_LOAD := by
  induction n generalizing off with
  | zero => simp [loads]
  | succ n ih =>
      have hrest : q ∈ f.loads n (off + 56) ↔
          ∃ k < n, q = off + 56 * (k + 1) ∧ (f.phdrAt q).p_type = PT_LOAD := by
        rw [ih]
        simp only [Nat.mul_succ, Nat.add_assoc, Nat.add_comm 56]
      have hsplit : (∃ k < n + 1, q = off + 56 * k ∧ (f.phdrAt q).p_type = PT_LOAD) ↔
          (q = off ∧ (f.phdrAt q).p_type = PT_LOAD) ∨ q ∈ f.loads n (off + 56) := by
        rw [hrest]
        constructor
        · rintro ⟨_ | k, hk, h⟩
          · exact .inl h
          · exact .inr ⟨k, by omega, h⟩
        · rintro (h | ⟨k, hk, h⟩)
          · exact ⟨0, by omega, h⟩
          · exact ⟨k + 1, by omega, h⟩
      rw [hsplit, loads]
      by_cases htype : (f.phdrAt off).p_type = PT_LOAD
      · rw [if_pos htype, List.mem_cons]
        refine or_congr ⟨?_, And.left⟩ Iff.rfl
        rintro rfl
        exact ⟨rfl, htype⟩
      · rw [if_neg htype]
        exact ⟨.inr, fun h => h.resolve_left fun hq => htype (hq.1 ▸ hq.2)⟩

/-- What `load` may come to are the segments of the table. -/
theorem mem_segmentsFrom {rets : List (Option Nat)} {g : Segment} (hsize : f.i_size < 2 ^ 63)
    (hoff : off + 56 * n ≤ f.i_size) (h : g ∈ f.segmentsFrom rets n off pos) :
    ∃ q ∈ f.loads n off, ∃ pos', g = f.segmentAt (f.phdrAt q) pos' := by
  induction n generalizing rets off pos with
  | zero => cases h
  | succ n ih =>
      rw [segmentsFrom] at h
      dsimp only at h
      rw [lseek_of_le hsize (by omega), u64_of_lt (by omega)] at h
      split at h
      · cases h
      · split at h
        · next htype =>
            rw [loads, if_pos htype]
            obtain rfl | h := List.mem_cons.1 h
            · exact ⟨off, List.mem_cons_self .., _, rfl⟩
            · obtain ⟨q, hq, hg⟩ := ih (by omega) h
              exact ⟨q, List.mem_cons_of_mem _ hq, hg⟩
        · next htype =>
            rw [loads, if_neg htype]
            exact ih (by omega) h

/-- The pages of the bytes in the file do not reach beyond the pool. -/
theorem occupyPages_end {filesz vaddr : Nat} (hlt : vaddr < USER_START_ADDR + POOL_LEN_MAX)
    (hend : vaddr + filesz ≤ USER_START_ADDR + POOL_LEN_MAX) :
    4096 * (vaddr / 4096) + 4096 * occupyPages filesz vaddr ≤ USER_START_ADDR + POOL_LEN_MAX := by
  have hoff : vaddr &&& 0xfff = vaddr % 4096 := Nat.and_two_pow_sub_one_eq_mod vaddr 12
  unfold occupyPages
  dsimp only
  rw [hoff]
  simp only [USER_START_ADDR, POOL_LEN_MAX, V_POOL_BITS_MAX] at *
  split_ifs <;> omega

/-- They reach as far as the bytes. -/
theorem le_occupyPages {filesz vaddr : Nat} (hlt : filesz < 2 ^ 31) :
    vaddr + filesz ≤ 4096 * (vaddr / 4096) + 4096 * occupyPages filesz vaddr := by
  have hoff : vaddr &&& 0xfff = vaddr % 4096 := Nat.and_two_pow_sub_one_eq_mod vaddr 12
  unfold occupyPages
  dsimp only
  rw [hoff]
  split_ifs <;> omega

variable (hw : f.WellFormed)

include hw in
/-- The numbers of a segment are small. -/
theorem WellFormed.bounds (hq : f.LoadAt q) : (f.phdrAt q).p_vaddr < 2 ^ 32 ∧
    (f.phdrAt q).p_vaddr + (f.phdrAt q).p_filesz ≤ USER_START_ADDR + POOL_LEN_MAX ∧
    (f.phdrAt q).p_vaddr &&& 0xfffffffffffff000 = 4096 * ((f.phdrAt q).p_vaddr / 4096) ∧
    (f.phdrAt q).p_filesz < 2 ^ 31 := by
  obtain ⟨⟨-, hhigh⟩, hend⟩ := hw.inPool q hq
  have hle := hw.filesz q hq
  simp only [USER_START_ADDR, POOL_LEN_MAX, V_POOL_BITS_MAX] at *
  exact ⟨by omega, by omega, and_page_mask (by omega), by omega⟩

include hw in
theorem WellFormed.fits (hq : f.LoadAt q) (pos : Nat) : (f.segmentAt (f.phdrAt q) pos).Fits where
  low := by
    obtain ⟨⟨hlow, -⟩, -⟩ := hw.inPool q hq
    obtain ⟨-, -, hmask, -⟩ := hw.bounds hq
    show USER_START_ADDR ≤ (f.phdrAt q).p_vaddr &&& 0xfffffffffffff000
    rw [hmask]
    simp only [USER_START_ADDR] at *
    omega
  high := by
    obtain ⟨-, hend, hmask, -⟩ := hw.bounds hq
    show ((f.phdrAt q).p_vaddr &&& 0xfffffffffffff000) + 4096 * occupyPages _ _ ≤ _
    rw [hmask]
    exact occupyPages_end (hw.inPool q hq).1.2 hend
  room := by
    obtain ⟨hlt, -, hmask, hsz⟩ := hw.bounds hq
    have hin := hw.inFile q hq
    show (f.phdrAt q).p_vaddr + (f.readBytes _ (f.lseek _ pos)).getD 0 ≤
      ((f.phdrAt q).p_vaddr &&& 0xfffffffffffff000) + 4096 * occupyPages _ _
    rw [lseek_of_le hw.size_lt (by omega), readBytes_inside hw.size_lt hin, Option.getD_some, hmask]
    exact le_occupyPages hsz

include hw in
theorem WellFormed.stored (hq : f.LoadAt q) (pos : Nat) :
    (f.segmentAt (f.phdrAt q) pos).stored = (f.phdrAt q).p_filesz := by
  have hin := hw.inFile q hq
  show (f.readBytes _ (f.lseek _ pos)).getD 0 = _
  rw [lseek_of_le hw.size_lt (by omega), readBytes_inside hw.size_lt hin, Option.getD_some]

include hw in
theorem WellFormed.spares (hheap : f.ApartFromHeap c) (hq : f.LoadAt q) (pos : Nat) :
    c.hits (f.segmentAt (f.phdrAt q) pos).vaddr (f.segmentAt (f.phdrAt q) pos).stored = false := by
  obtain ⟨hlt, -, -, hsz⟩ := hw.bounds hq
  rw [hw.stored hq, Caller.hits, List.any_eq_false]
  intro i hi
  have hi' := List.mem_range.1 hi
  have hle := hw.filesz q hq
  show ¬ c.own (u64 ((f.phdrAt q).p_vaddr + i)) = true
  rw [u64_of_lt (by omega), (hheap q hq i (by omega)).1]
  exact Bool.false_ne_true

include hw in
/-- A byte that is stored for the header at `q` is one of the segment. -/
theorem WellFormed.mem_stores (hq : f.LoadAt q) {x : Nat × Byte} : x ∈ f.storesOf q ↔
    ∃ i < (f.phdrAt q).p_filesz, x = ((f.phdrAt q).p_vaddr + i, f.content ((f.phdrAt q).p_offset + i)) := by
  obtain ⟨hlt, -, -, hsz⟩ := hw.bounds hq
  have hstore : ∀ i < (f.phdrAt q).p_filesz, (u64 ((f.phdrAt q).p_vaddr + i), f.content.from (f.phdrAt q).p_offset i) =
      ((f.phdrAt q).p_vaddr + i, f.content ((f.phdrAt q).p_offset + i)) := fun i hi => by
    rw [u64_of_lt (by omega), Buf.from_apply]
  unfold storesOf
  constructor
  · intro hx
    obtain ⟨i, hi, rfl⟩ := List.mem_map.1 hx
    have hlt := (List.mem_range'_1.1 hi).2
    exact ⟨i, by omega, hstore i (by omega)⟩
  · rintro ⟨i, hi, rfl⟩
    exact List.mem_map.2 ⟨i, List.mem_range'_1.2 ⟨Nat.zero_le _, by omega⟩, hstore i hi⟩

include hw in
theorem WellFormed.inPool_byte {i : Nat} (hq : f.LoadAt q) (hi : i < f.p_memsz q) :
    InPool ((f.phdrAt q).p_vaddr + i) := by
  obtain ⟨⟨hlow, -⟩, hend⟩ := hw.inPool q hq
  exact ⟨Nat.le_trans hlow (Nat.le_add_right _ _), by omega⟩

include hw in
theorem WellFormed.inPool_stores (hq : f.LoadAt q) : ∀ x ∈ f.storesOf q, InPool x.1 := by
  intro x hx
  obtain ⟨i, hi, rfl⟩ := (hw.mem_stores hq).1 hx
  exact hw.inPool_byte hq (Nat.lt_of_lt_of_le hi (hw.filesz q hq))

include hw in
theorem WellFormed.inPool_pages (hq : f.LoadAt q) : ∀ w ∈ f.pagesOf q, InPool w := by
  intro w hwp
  have hfits := hw.fits hq 0
  have hlow : USER_START_ADDR ≤ (f.phdrAt q).p_vaddr &&& 0xfffffffffffff000 := hfits.low
  have hhigh : ((f.phdrAt q).p_vaddr &&& 0xfffffffffffff000) + 4096 * occupyPages _ _ ≤
    USER_START_ADDR + POOL_LEN_MAX := hfits.high
  simp only [USER_START_ADDR, POOL_LEN_MAX, V_POOL_BITS_MAX] at hlow hhigh
  have hrange := mem_pagesFrom (by omega) hwp
  unfold InPool
  simp only [USER_START_ADDR, POOL_LEN_MAX, V_POOL_BITS_MAX]
  omega

include hw in
/-- Every byte that is stored has its page gone over. -/
theorem WellFormed.covers (hq : f.LoadAt q) : ∀ x ∈ f.storesOf q, ∃ w ∈ f.pagesOf q, w / 4096 = x.1 / 4096 := by
  intro x hx
  obtain ⟨i, hi, rfl⟩ := (hw.mem_stores hq).1 hx
  obtain ⟨hlt, hend, hmask, hsz⟩ := hw.bounds hq
  have hfar : (f.phdrAt q).p_vaddr + (f.phdrAt q).p_filesz ≤ 4096 * ((f.phdrAt q).p_vaddr / 4096) +
      4096 * occupyPages (f.phdrAt q).p_filesz (f.phdrAt q).p_vaddr := le_occupyPages hsz
  have hlast := occupyPages_end (hw.inPool q hq).1.2 hend
  unfold pagesOf
  rw [hmask]
  simp only [USER_START_ADDR, POOL_LEN_MAX, V_POOL_BITS_MAX] at hlast
  exact pagesFrom_covers (by omega) (by omega) (by dsimp only; omega) (by dsimp only; omega)

end ElfFile

/-! ## The run -/

namespace Loaded

variable {p : Nat} {m0 : Memory} {W : List Nat} {L : List (Nat × Byte)} {c : Caller} {f : ElfFile} {s s' : Exec}
  {n off q : Nat}

theorem readSegment_leads {r : Option Nat} (hw : f.WellFormed) (hheap : f.ApartFromHeap c) (hq : f.LoadAt q)
    (hpos : s.fd_pos = (f.phdrAt q).p_offset)
    (hrun : RecoverOS.readFile c f (f.phdrAt q).p_filesz (copySegment c f (f.phdrAt q).p_vaddr
      ((f.phdrAt q).p_vaddr &&& 0xfffffffffffff000)
      (occupyPages (f.phdrAt q).p_filesz (f.phdrAt q).p_vaddr)) s = .ok (r, s')) : s.Leads s' := by
  have hcount : ∀ n, f.readBytes (f.phdrAt q).p_filesz s.fd_pos = some n →
      (f.segmentAt (f.phdrAt q) s.fd_pos).stored = n := fun n hn => by
    rw [hpos, ElfFile.readBytes_inside hw.size_lt (hw.inFile q hq)] at hn
    rw [hw.stored hq]
    exact Option.some.inj hn
  exact (Exec.readSegment_leads (hw.fits hq s.fd_pos) Nat.and_le_left (hw.spares hheap hq s.fd_pos) hcount hrun).1

/-- The `sys_read` of a segment leaves the bytes of the segment. -/
theorem readSegment {r : Option Nat} (hw : f.WellFormed) (hheap : f.ApartFromHeap c) (hpml4 : c.pml4 = some p)
    (hq : f.LoadAt q) (hW : ∀ w ∈ f.pagesOf q, w ∈ W) (hpos : s.fd_pos = (f.phdrAt q).p_offset)
    (h : Loaded p m0 s.space.mem W L) (hs : s.Contained) (hroom : s'.HadRoom) (hserved : .refused ∉ s'.events)
    (hrun : RecoverOS.readFile c f (f.phdrAt q).p_filesz (copySegment c f (f.phdrAt q).p_vaddr
      ((f.phdrAt q).p_vaddr &&& 0xfffffffffffff000)
      (occupyPages (f.phdrAt q).p_filesz (f.phdrAt q).p_vaddr)) s = .ok (r, s')) :
    Loaded p m0 s'.space.mem W (L ++ f.storesOf q) := by
  have hstored := hw.stored hq s.fd_pos
  have hspare := hw.spares hheap hq s.fd_pos
  have hread : f.readBytes (f.phdrAt q).p_filesz s.fd_pos = some (f.phdrAt q).p_filesz := by
    rw [hpos]
    exact ElfFile.readBytes_inside hw.size_lt (hw.inFile q hq)
  rw [hstored] at hspare
  have hnot : c.hits (f.phdrAt q).p_vaddr (f.phdrAt q).p_filesz = false := hspare
  refine h.readFile hread hpml4 hs hroom hserved (fun t t' hcopy => ?_) (fun t t' V htpos hloaded hcopy => ?_)
    (fun x hx => ?_) hrun
  · refine (Exec.copySegment_leads (c := c) (f := f) (hw.fits hq s.fd_pos) Nat.and_le_left ?_ ?_).1
    · rw [hstored]
      exact hspare
    · rw [hstored]
      exact hcopy
  · obtain ⟨t1, t2, hget, hcopy⟩ := Prog.bind_eq_ok.1 hcopy
    obtain ⟨rfl, rfl⟩ := Prog.get_eq_ok.1 hget
    rw [record, Prog.run_modify_bind, hnot, if_neg Bool.false_ne_true] at hcopy
    obtain ⟨mem, hmem, rfl⟩ := Exec.onMem_run hcopy
    rw [htpos, hpos] at hmem
    exact hloaded.stores (hw.inPool_stores hq) hmem
  · obtain ⟨w, hwq, hpage⟩ := hw.covers hq x hx
    exact ⟨w, hW w hwq, hpage⟩

/-- The segment of a header is mapped and copied. -/
theorem segment (hw : f.WellFormed) (hheap : f.ApartFromHeap c) (hpml4 : c.pml4 = some p) (hq : f.LoadAt q)
    (h : Loaded p m0 s.space.mem W L) (hs : s.Contained) (hroom : s'.HadRoom) (hserved : .refused ∉ s'.events)
    (hrun : segmentLoad c f (f.phdrAt q).p_offset (f.phdrAt q).p_filesz (f.phdrAt q).p_vaddr s = .ok (true, s')) :
    Loaded p m0 s'.space.mem (W ++ f.pagesOf q) (L ++ f.storesOf q) := by
  obtain ⟨ok, s1, hpages, hrun⟩ := Prog.bind_eq_ok.1 hrun
  cases ok with
  | false =>
      obtain ⟨heq, -⟩ := Prog.pure_eq_ok.1 hrun
      cases heq
  | true =>
      have hin := hw.inFile q hq
      have hfits := hw.fits hq s.fd_pos
      obtain ⟨hleads, -⟩ := Exec.segmentPages_leads hfits.low hfits.high hpages
      rw [if_pos rfl, Prog.run_modify_bind, ElfFile.lseek_of_le hw.size_lt (by omega)] at hrun
      obtain ⟨⟨⟩, s2, hassert, hrun⟩ := Prog.bind_eq_ok.1 hrun
      obtain ⟨-, rfl⟩ := Prog.assert_eq_ok.1 hassert
      obtain ⟨ret, s3, hfile, hrun⟩ := Prog.bind_eq_ok.1 hrun
      obtain ⟨-, rfl⟩ := Prog.pure_eq_ok.1 hrun
      -- the pages are there before the buffer is
      have hgone := h.pages (hw.inPool_pages hq) hpages
      have hseek : s1.Leads { s1 with fd_pos := (f.phdrAt q).p_offset } := .of_space rfl rfl rfl
      have hfd : ({ s1 with fd_pos := (f.phdrAt q).p_offset } : Exec).fd_pos = (f.phdrAt q).p_offset := rfl
      have hcopied := readSegment_leads hw hheap hq hfd hfile
      have hs1 := (hleads.trans hseek).contained (hcopied.hadRoom hroom) hs
      exact readSegment hw hheap hpml4 hq (fun w hwq => List.mem_append_right _ hwq) hfd hgone hs1 hroom hserved hfile

theorem segmentLoad_leads {r : Bool} (hw : f.WellFormed) (hheap : f.ApartFromHeap c) (hq : f.LoadAt q)
    (hrun : segmentLoad c f (f.phdrAt q).p_offset (f.phdrAt q).p_filesz (f.phdrAt q).p_vaddr s = .ok (r, s')) :
    s.Leads s' :=
  (Exec.segmentLoad_leads (hw.fits hq _) (hw.spares hheap hq _) hrun).1

theorem loadSegments_leads {r : Bool} (hw : f.WellFormed) (hheap : f.ApartFromHeap c)
    (hload : ∀ q ∈ f.loads n off, f.LoadAt q) (hoff : off + 56 * n ≤ f.i_size)
    (hrun : loadSegments c f n off s = .ok (r, s')) : s.Leads s' := by
  refine Exec.loadSegments_leads (fun rets g hg => ?_) hrun
  obtain ⟨q, hq, pos, rfl⟩ := ElfFile.mem_segmentsFrom hw.size_lt hoff hg
  exact ⟨hw.fits (hload q hq) pos, hw.spares hheap (hload q hq) pos⟩

/-- The loop over the headers leaves the pages and the bytes of the segments, and nothing of the buffers. -/
theorem segments (hw : f.WellFormed) (hheap : f.ApartFromHeap c) (hpml4 : c.pml4 = some p)
    (hload : ∀ q ∈ f.loads n off, f.LoadAt q) (hoff : off + 56 * n ≤ f.i_size)
    (h : Loaded p m0 s.space.mem W L) (hs : s.Contained) (hroom : s'.HadRoom) (hserved : .refused ∉ s'.events)
    (hrun : loadSegments c f n off s = .ok (true, s')) :
    Loaded p m0 s'.space.mem (W ++ (f.loads n off).flatMap f.pagesOf) (L ++ (f.loads n off).flatMap f.storesOf) := by
  induction n generalizing s off W L with
  | zero =>
      obtain ⟨-, rfl⟩ := Prog.pure_eq_ok.1 hrun
      rwa [ElfFile.loads, List.flatMap_nil, List.flatMap_nil, List.append_nil, List.append_nil]
  | succ n ih =>
      have hsize := hw.size_lt
      rw [loadSegments, Prog.run_modify_bind] at hrun
      obtain ⟨t, t', hget, hrun⟩ := Prog.bind_eq_ok.1 hrun
      obtain ⟨rfl, rfl⟩ := Prog.get_eq_ok.1 hget
      dsimp only at hrun
      rw [ElfFile.lseek_of_le hsize (by omega)] at hrun
      obtain ⟨ret, s1, hread, hrun⟩ := Prog.bind_eq_ok.1 hrun
      by_cases hret : ret ≠ some 56
      · rw [if_pos hret] at hrun
        obtain ⟨heq, -⟩ := Prog.pure_eq_ok.1 hrun
        cases heq
      · rw [if_neg hret] at hrun
        obtain ⟨ok, s2, hseg, hrun⟩ := Prog.bind_eq_ok.1 hrun
        cases ok with
        | false =>
            obtain ⟨heq, -⟩ := Prog.pure_eq_ok.1 hrun
            cases heq
        | true =>
            rw [if_pos rfl, u64_of_lt (by omega)] at hrun
            obtain ⟨hheader, -, -⟩ := Exec.readHeader_leads hread
            have hrest : ∀ q ∈ f.loads n (off + 56), f.LoadAt q := fun q hq =>
              hload q (f.loads_tail hq)
            have hlast := loadSegments_leads hw hheap hrest (by omega) hrun
            have hroom2 := hlast.hadRoom hroom
            have hserved2 : .refused ∉ s2.events := fun he => hserved (hlast.grows _ he)
            have hseek : s.Leads { s with fd_pos := off } := .of_space rfl rfl rfl
            by_cases htype : (f.phdrAt off).p_type = PT_LOAD
            · have hq : f.LoadAt off := hload off (by
                rw [ElfFile.loads, if_pos htype]
                exact List.mem_cons_self ..)
              rw [loadHeader, if_pos htype] at hseg
              have hgrow := segmentLoad_leads hw hheap hq hseg
              have hroom1 := hgrow.hadRoom hroom2
              have hserved1 : .refused ∉ s1.events := fun he => hserved2 (hgrow.grows _ he)
              have hs0 := hseek.contained (hheader.hadRoom hroom1) hs
              have hs1 := hheader.contained hroom1 hs0
              -- the header, the segment, and the headers behind it
              have h1 := readHeader (s := { s with fd_pos := off }) hpml4 h hs0 hroom1 hserved1 hread
              have h2 := segment hw hheap hpml4 hq h1 hs1 hroom2 hserved2 hseg
              have h3 := ih hrest (by omega) h2 (hgrow.contained hroom2 hs1) hrun
              rwa [ElfFile.loads, if_pos htype, List.flatMap_cons, List.flatMap_cons, ← List.append_assoc,
                ← List.append_assoc]
            · rw [loadHeader, if_neg htype] at hseg
              obtain ⟨-, rfl⟩ := Prog.pure_eq_ok.1 hseg
              have hs0 := hseek.contained (hheader.hadRoom hroom2) hs
              have h1 := readHeader (s := { s with fd_pos := off }) hpml4 h hs0 hroom2 hserved2 hread
              have h2 := ih hrest (by omega) h1 (hheader.contained hroom2 hs0) hrun
              rwa [ElfFile.loads, if_neg htype]

end Loaded

/-! ## The image -/

section Image

variable {f : ElfFile} {c : Caller} {s s' : Exec} {p q i entry : Nat} {m0 m : Memory} {W : List Nat}
  {L : List (Nat × Byte)} (hw : f.WellFormed) (h : Loaded p m0 m W L)
  (hW : ∀ w, w ∈ W ↔ ∃ q, f.LoadAt q ∧ w ∈ f.pagesOf q) (hL : ∀ x, x ∈ L ↔ ∃ q, f.LoadAt q ∧ x ∈ f.storesOf q)

include h hW in
/-- A byte that was there is what was stored last; a byte of a new page was in a free frame. -/
theorem byte_cases {a : Nat} (ha : InPool a) :
    (∃ old, m0.byte a = some old ∧ m.byte a = some (lastByte L a old)) ∨
    (m0.table a 4 = none ∧ f.Covers a ∧
      ∃ g, m0.FreeIn g ∧ m.byte a = some (lastByte L a (byteAt m0 (4096 * g + a % 4096)))) ∨
    (m0.table a 4 = none ∧ ¬ f.Covers a ∧ m.table a 4 = none) := by
  cases hread : m0.table a 4 with
  | some g => exact .inl ⟨_, Memory.byte_of_table hread, h.mapped a _ ha (Memory.byte_of_table hread)⟩
  | none =>
      have hcovers : f.Covers a ↔ ∃ w ∈ W, w / 4096 = a / 4096 := by
        constructor
        · rintro ⟨q, hq, w, hwq, hwa⟩
          exact ⟨w, (hW w).2 ⟨q, hq, hwq⟩, hwa⟩
        · rintro ⟨w, hwW, hwa⟩
          obtain ⟨q, hq, hwq⟩ := (hW w).1 hwW
          exact ⟨q, hq, w, hwq, hwa⟩
      by_cases hcov : f.Covers a
      · exact .inr (.inl ⟨rfl, hcov, h.new a ha hread (hcovers.1 hcov)⟩)
      · have habsent := h.rest a ha hread fun w hwW hwa => hcov (hcovers.2 ⟨w, hwW, hwa⟩)
        exact .inr (.inr ⟨rfl, hcov, habsent⟩)

include hw hL in
/-- Nothing is stored behind the bytes in the file. -/
theorem lastByte_behind (hq : f.LoadAt q) (hle : (f.phdrAt q).p_filesz ≤ i) (hi : i < f.p_memsz q) (old : Byte) :
    lastByte L ((f.phdrAt q).p_vaddr + i) old = old := by
  refine lastByte_of_not_mem (fun x hx heq => ?_) old
  obtain ⟨q', hq', hstore⟩ := (hL x).1 hx
  obtain ⟨i', hi', rfl⟩ := (hw.mem_stores hq').1 hstore
  dsimp only at heq
  by_cases hqq : q' = q
  · subst hqq
    omega
  · exact hw.apart q' q hq' hq hqq i' (Nat.lt_of_lt_of_le hi' (hw.filesz q' hq')) i hi heq

include hw hL in
/-- A byte of the file is stored, and nothing else where it is. -/
theorem lastByte_file (hq : f.LoadAt q) (hi : i < (f.phdrAt q).p_filesz) (old : Byte) :
    lastByte L ((f.phdrAt q).p_vaddr + i) old = f.content ((f.phdrAt q).p_offset + i) := by
  refine lastByte_eq ((hL _).2 ⟨q, hq, (hw.mem_stores hq).2 ⟨i, hi, rfl⟩⟩) (fun x hx heq => ?_) old
  obtain ⟨q', hq', hstore⟩ := (hL x).1 hx
  obtain ⟨i', hi', rfl⟩ := (hw.mem_stores hq').1 hstore
  dsimp only at heq ⊢
  by_cases hqq : q' = q
  · subst hqq
    rw [Nat.add_left_cancel heq]
  · have hlt := Nat.lt_of_lt_of_le hi (hw.filesz q hq)
    exact absurd heq (hw.apart q' q hq' hq hqq i' (Nat.lt_of_lt_of_le hi' (hw.filesz q' hq')) i hlt)

include hw h hW hL in
theorem rightImage_of_zeroOrNew (hclean : f.CleanFrames m0) (hzero : f.ZeroOrNew m0) : f.RightImage m := by
  intro q hq
  constructor
  · intro i hi
    have hlt := Nat.lt_of_lt_of_le hi (hw.filesz q hq)
    obtain ⟨old, -, hbyte⟩ | ⟨-, -, g, -, hbyte⟩ | ⟨-, -, hnone⟩ := byte_cases h hW (hw.inPool_byte hq hlt)
    · rw [hbyte, lastByte_file hw hL hq hi]
    · rw [hbyte, lastByte_file hw hL hq hi]
    · -- its byte was stored, so that the page is there
      have hsome := (h.stored _ ((hL _).2 ⟨q, hq, (hw.mem_stores hq).2 ⟨i, hi, rfl⟩⟩)).2
      rw [hnone] at hsome
      cases hsome
  · intro i hle hi
    obtain ⟨old, hold, hbyte⟩ | ⟨hnone, -, g, hfree, hbyte⟩ | ⟨hnone, hcov, -⟩ :=
      byte_cases h hW (hw.inPool_byte hq hi)
    · obtain hz | ⟨hnone, -⟩ := hzero q hq i hle hi
      · rw [hbyte, lastByte_behind hw hL hq hle hi, ← hold, hz]
      · rw [Memory.byte, hnone] at hold
        cases hold
    · rw [hbyte, lastByte_behind hw hL hq hle hi, hclean q hq i hle hi hnone g hfree]
    · obtain hz | ⟨-, hc⟩ := hzero q hq i hle hi
      · rw [Memory.byte, hnone] at hz
        cases hz
      · exact absurd hc hcov

include hw h hW hL in
theorem zeroOrNew_of_rightImage (hright : f.RightImage m) : f.ZeroOrNew m0 := by
  intro q hq i hle hi
  have hbyte := (hright q hq).2 i hle hi
  obtain ⟨old, hold, hlast⟩ | ⟨hnone, hcov, -⟩ | ⟨-, -, hnone⟩ := byte_cases h hW (hw.inPool_byte hq hi)
  · rw [hlast, lastByte_behind hw hL hq hle hi] at hbyte
    exact .inl (hold.trans hbyte)
  · exact .inr ⟨hnone, hcov⟩
  · rw [Memory.byte, hnone] at hbyte
    cases hbyte

end Image

/-- The file with one segment at `0x1000`, whose one byte is followed by zeros up to `p_memsz`. -/
def withMemsz (p_memsz : Nat) : ElfFile :=
  { oneSegment 0x1000 with
    content := fun a =>
      if 104 ≤ a ∧ a < 112 then leBytes p_memsz (a - 104) else (oneSegment 0x1000).content a }

/-- Where `newCaller` has its `pml4`. -/
abbrev newPml4 : Nat := 0xffff800000100000

/-- There are eight tables, and none is read earlier than by the two walks it is for. -/
theorem beforeLoad_walk {a j t : Nat} (h : beforeLoad.space.mem.table a j = some t) (hj : j ≤ 3) :
    t = 0x104 ∨ (t = 0x105 ∨ t = 0x109) ∧ 1 ≤ j ∨ (t = 0x106 ∨ t = 0x10a) ∧ 2 ≤ j ∨
      (t = 0x107 ∨ t = 0x108 ∨ t = 0x10b) ∧ 3 ≤ j := by
  induction j generalizing t with
  | zero =>
      cases h
      exact .inl rfl
  | succ j ih =>
      obtain ⟨f, hf, hlead⟩ := table_succ.1 h
      have hprev := ih hf (by omega)
      obtain ⟨hpres, -, rfl⟩ := leads_eq_some.1 hlead
      generalize index a j = i at hpres ⊢
      simp only [beforeLoad] at hpres ⊢
      split_ifs at hpres ⊢ <;> omega

theorem beforeLoad_index {a : Nat} (ha : InPool a) : index a 0 = 0 ∧ index a 1 = 0 ∧ index a 2 ≤ 4 := by
  have hlt := ha.2
  simp only [USER_START_ADDR, POOL_LEN_MAX, V_POOL_BITS_MAX] at hlt
  simp only [index]
  omega

/-- The tables of the pool, and those of the `pml4`. -/
theorem beforeLoad_home {a k t : Nat} (ha : Memory.Home newPml4 a) (hk : k ≤ 3)
    (h : beforeLoad.space.mem.table a k = some t) :
    k = 0 ∧ t = 0x104 ∨
      InPool a ∧ (k = 1 ∧ t = 0x105 ∨ k = 2 ∧ t = 0x106 ∨
        k = 3 ∧ (t = 0x107 ∧ index a 2 = 0 ∨ t = 0x108 ∧ index a 2 = 4)) ∨
      a = newPml4 ∧ (k = 1 ∧ t = 0x109 ∨ k = 2 ∧ t = 0x10a ∨ k = 3 ∧ t = 0x10b) := by
  obtain ha | rfl := ha
  · obtain ⟨h0, h1, h2⟩ := beforeLoad_index ha
    have t1 : beforeLoad.space.mem.table a 1 = some 0x105 := table_succ.2 ⟨0x104, rfl, by rw [h0]; rfl⟩
    have t2 : beforeLoad.space.mem.table a 2 = some 0x106 := table_succ.2 ⟨0x105, t1, by rw [h1]; rfl⟩
    interval_cases k
    · cases h
      exact .inl ⟨rfl, rfl⟩
    · rw [t1] at h
      cases h
      exact .inr (.inl ⟨ha, .inl ⟨rfl, rfl⟩⟩)
    · rw [t2] at h
      cases h
      exact .inr (.inl ⟨ha, .inr (.inl ⟨rfl, rfl⟩)⟩)
    · refine .inr (.inl ⟨ha, .inr (.inr ⟨rfl, ?_⟩)⟩)
      obtain ⟨f, hf, hlead⟩ := table_succ.1 h
      obtain rfl : f = 0x106 := Option.some.inj (hf.symm.trans t2)
      obtain ⟨hpres, -, rfl⟩ := leads_eq_some.1 hlead
      generalize index a 2 = i at hpres h2 ⊢
      by_cases hi0 : i = 0
      · rw [hi0]
        exact .inl ⟨rfl, rfl⟩
      · by_cases hi4 : i = 4
        · rw [hi4]
          exact .inr ⟨rfl, rfl⟩
        · have hzero : beforeLoad.space.mem.word 0x106 i = 0 := by simp [beforeLoad, hi0, hi4]
          rw [hzero] at hpres
          cases hpres
  · have t1 : beforeLoad.space.mem.table newPml4 1 = some 0x109 := by decide
    have t2 : beforeLoad.space.mem.table newPml4 2 = some 0x10a := by decide
    have t3 : beforeLoad.space.mem.table newPml4 3 = some 0x10b := by decide
    interval_cases k
    · cases h
      exact .inl ⟨rfl, rfl⟩
    · exact .inr (.inr ⟨rfl, .inl ⟨rfl, Option.some.inj (h.symm.trans t1)⟩⟩)
    · exact .inr (.inr ⟨rfl, .inr (.inl ⟨rfl, Option.some.inj (h.symm.trans t2)⟩)⟩)
    · exact .inr (.inr ⟨rfl, .inr (.inr ⟨rfl, Option.some.inj (h.symm.trans t3)⟩)⟩)

/-- None of the pages of the pool is mapped. -/
theorem beforeLoad_table {v : Nat} (hv : InPool v) : beforeLoad.space.mem.table v 4 = none := by
  by_contra hsome
  obtain ⟨g, hg⟩ := Option.ne_none_iff_exists'.1 hsome
  obtain ⟨t, ht, hlast⟩ := table_succ.1 hg
  have hlt : v / 2 ^ 39 = 0 := by
    have hhigh := hv.2
    simp only [USER_START_ADDR, POOL_LEN_MAX, V_POOL_BITS_MAX] at hhigh
    omega
  -- the last tables are empty
  have ht2 : t = 0x107 ∨ t = 0x108 := by
    obtain ⟨hk, -⟩ | ⟨-, ⟨hk, -⟩ | ⟨hk, -⟩ | ⟨-, ⟨ht, -⟩ | ⟨ht, -⟩⟩⟩ | ⟨hp, -⟩ :=
      beforeLoad_home (.inl hv) (Nat.le_refl 3) ht
    · cases hk
    · cases hk
    · cases hk
    · exact .inl ht
    · exact .inr ht
    · rw [hp] at hlt
      cases hlt
  have hzero : beforeLoad.space.mem.word t (index v 3) = 0 := by
    obtain rfl | rfl := ht2 <;> simp [beforeLoad]
  have hpres := (leads_eq_some.1 hlast).1
  change beforeLoad.space.mem.word t (index v 3) % 2 = 1 at hpres
  rw [hzero] at hpres
  cases hpres

/-- A free frame is behind the tables. -/
theorem beforeLoad_free {g : Nat} (h : beforeLoad.space.mem.FreeIn g) : 0x10c ≤ g ∧ g < 2 ^ 40 := by
  obtain ⟨i, hi, hclear, hstart⟩ := h
  have hsize : i < 8 * 32735 := hi
  have hstart' : 0x104000 + 4096 * i = 4096 * g := hstart
  have hle : 8 ≤ i := by
    by_contra hlt
    have hi8 : i < 8 := by omega
    interval_cases i <;> exact absurd hclear (by decide)
  omega

theorem beforeLoad_userSpace : beforeLoad.space.mem.UserSpace newPml4 where
  pages := {
    layout := {
      self := rfl
      unused := by
        intro i hi hclear
        have hfree : beforeLoad.space.mem.FreeIn (0x104 + i) :=
          ⟨i, hi, hclear, by show 0x104000 + 4096 * i = 4096 * (0x104 + i); omega⟩
        obtain ⟨hlow, hlt⟩ := beforeLoad_free hfree
        refine ⟨0x104 + i, hlt, ?_, fun a j hj hread => ?_⟩
        · show 0x104000 + 4096 * i = 4096 * (0x104 + i)
          omega
        · have := beforeLoad_walk hread hj
          omega
      plain := by
        intro a ha k hk t ht hpres
        have hlarge : beforeLoad.space.mem.word t (index a k) / 128 % 2 = 0 := by
          simp only [beforeLoad] at hpres ⊢
          split_ifs at hpres ⊢ <;> omega
        exact Option.ne_none_iff_exists'.2
          ⟨_, table_succ.2 ⟨t, ht, leads_eq_some.2 ⟨hpres, fun _ => hlarge, rfl⟩⟩⟩
      separate := by
        intro a v ha hv j hj k hk t hta htv
        have hja := beforeLoad_home ha hj hta
        have hkv := beforeLoad_home hv hk htv
        have hjk : j = k := by omega
        refine ⟨hjk, fun i hi => ?_⟩
        obtain ⟨hj0, -⟩ | ⟨hap, hja⟩ | ⟨rfl, hja⟩ := hja
        · omega
        · obtain ⟨hk0, -⟩ | ⟨hvp, hkv⟩ | ⟨-, hkv⟩ := hkv
          · omega
          · obtain ⟨h0a, h1a, -⟩ := beforeLoad_index hap
            obtain ⟨h0v, h1v, -⟩ := beforeLoad_index hvp
            have hi3 : i < 3 := by omega
            interval_cases i
            · rw [h0a, h0v]
            · rw [h1a, h1v]
            · omega
          · omega
        · obtain ⟨hk0, -⟩ | ⟨-, hkv⟩ | ⟨rfl, -⟩ := hkv
          · omega
          · omega
          · rfl
      deep := by
        intro v hv k hk t htv a j hj hta
        have hkv := beforeLoad_home hv hk htv
        have hja := beforeLoad_walk hta hj
        omega }
    canonical := by
      rintro a (ha | rfl)
      · exact ha.canonical
      · decide
    sub := fun _ ha => .inl ha
    fresh := fun a g ha hg => by
      rw [beforeLoad_table ha] at hg
      cases hg
    taken := by
      rintro a g (ha | rfl) hg hfree
      · rw [beforeLoad_table ha] at hg
        cases hg
      · have hroot : beforeLoad.space.mem.table newPml4 4 = some 0x104 := by decide
        obtain rfl := Option.some.inj (hg.symm.trans hroot)
        have hlow := (beforeLoad_free hfree).1
        omega
    apart := fun a b g ha _ hg => by
      rw [beforeLoad_table ha] at hg
      cases hg }
  home := by decide
  far := fun a ha heq => by
    have hhigh := ha.2
    have hpage : a / 4096 = 0xffff800000100000 / 4096 := heq
    simp only [USER_START_ADDR, POOL_LEN_MAX, V_POOL_BITS_MAX] at hhigh
    omega

/-- A file with one header. -/
theorem wellFormed_one {f : ElfFile} (hnum : f.e_phnum = 1) (hoff : f.e_phoff = 64)
    (hsize : f.i_size = 120) (hvaddr : (f.phdrAt 64).p_vaddr = 0x1000) (hle : f.p_memsz 64 ≤ 0x2000)
    (hfilesz : (f.phdrAt 64).p_filesz ≤ f.p_memsz 64)
    (hfile : (f.phdrAt 64).p_offset + (f.phdrAt 64).p_filesz ≤ 120) : f.WellFormed := by
  have hone : ∀ q, f.LoadAt q → q = 64 := by
    rintro q ⟨k, hk, rfl, -⟩
    omega
  exact {
    size_lt := by omega
    table := by omega
    inPool := fun q hq => by
      rw [hone q hq, hvaddr]
      unfold InPool
      simp only [USER_START_ADDR, POOL_LEN_MAX, V_POOL_BITS_MAX]
      omega
    filesz := fun q hq => by
      rw [hone q hq]
      exact hfilesz
    inFile := fun q hq => by
      rw [hone q hq, hsize]
      exact hfile
    apart := fun q q' hq hq' hne => absurd ((hone q hq).trans (hone q' hq').symm) hne }

theorem withMemsz_two : (withMemsz 2).WellFormed :=
  wellFormed_one (by decide +kernel) (by decide +kernel) rfl (by decide +kernel) (by decide +kernel)
    (by decide +kernel) (by decide +kernel)

theorem withMemsz_pages : (withMemsz 0x2000).WellFormed :=
  wellFormed_one (by decide +kernel) (by decide +kernel) rfl (by decide +kernel) (by decide +kernel)
    (by decide +kernel) (by decide +kernel)

/-- `newCaller` has no heap yet. -/
theorem apartFromHeap_new (f : ElfFile) : f.ApartFromHeap newCaller := fun _ _ _ _ => ⟨rfl, rfl⟩

/-- After `load`, when it returns the entry point: the byte at `a`, the pages it asked for with the length of the
    bitmap then, and whether `sys_malloc` refused. -/
def byteAfter (f : ElfFile) (a : Nat) : Option (Option Byte × List (Nat × Nat) × Bool) :=
  match loadFile newCaller f beforeLoad with
  | .ok (some _, s) =>
      some (s.space.mem.byte a,
        s.events.filterMap fun e => match e with
          | .request pool_bitmap cnt => some (pool_bitmap.bytes_len, cnt)
          | _ => none,
        s.events.any fun e => match e with
          | .refused => true
          | _ => false)
  | _ => none

theorem exists_of_byteAfter {f : ElfFile} {a : Nat} {b : Option Byte} {requests : List (Nat × Nat)}
    (hone : ∀ x ∈ requests, x = (V_POOL_BITS_MAX, 1)) (h : byteAfter f a = some (b, requests, false)) :
    ∃ entry s, loadFile newCaller f beforeLoad = .ok (some entry, s) ∧ s.space.mem.byte a = b ∧
      (∀ e ∈ s.events, e.HasRoom) ∧ .refused ∉ s.events := by
  unfold byteAfter at h
  split at h
  · next entry s hrun =>
      obtain ⟨hbyte, hrequests, hrefused⟩ : _ ∧ _ ∧ _ := by simpa using h
      refine ⟨entry, s, hrun, hbyte, hasRoom_of_requests fun b cnt he => ?_, fun he => ?_⟩
      · have hmem : (b.bytes_len, cnt) ∈ requests := by
          rw [← hrequests]
          exact List.mem_filterMap.2 ⟨_, he, rfl⟩
        exact Prod.mk.inj (hone _ hmem)
      · exact absurd (hrefused _ he) (by decide)
  · cases h

theorem byteAfter_two : byteAfter (withMemsz 2) 0x1000 =
    some (some 0x7f, [(256, 1), (256, 1), (256, 1)], false) := by decide +kernel

theorem byteAfter_pages : byteAfter (withMemsz 0x2000) 0x2000 =
    some (none, [(256, 1), (256, 1), (256, 1)], false) := by decide +kernel

end RecoverOS
