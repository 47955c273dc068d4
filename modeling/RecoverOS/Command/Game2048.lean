import Mathlib.Data.List.Basic
import Mathlib.Data.List.OfFn
import Mathlib.Data.Fin.Rev
import Mathlib.Algebra.BigOperators.Fin
import Mathlib.Logic.Function.Basic

set_option autoImplicit false

/-! # The moves of 2048 (`command/2048.c`)

A grid is 16 `int`s in memory; 1 is an empty cell. `rmv` reads one `int` behind the row it shifts, which for the
last row is behind the grid. -/

namespace RecoverOS

namespace Game2048

/-- The `int`s from the beginning of an array on. -/
abbrev Cells := Nat → Int

/-- `arr[i] *= 2` -/
def doubled (v : Int) : Int := Int.bmod (v * 2) (2 ^ 32)

/-! ## The code -/

/-- The loop of `rmv` from `idx` on, with so many turns left. -/
def rmvFrom (arr idx : Nat) : Nat → Cells → Cells
  | 0, m => m
  | n + 1, m => rmvFrom arr (idx + 1) n (Function.update m (arr + idx) (m (arr + idx + 1)))

/-- `rmv`, for an `idx` below `len`: the loop turns until it reaches `len`. -/
def rmv (arr idx len : Nat) (m : Cells) : Cells :=
  Function.update (rmvFrom arr idx (len - idx) m) (arr + (len - 1)) 1

/-- The first loop of `mvleft`, from `i = n - 1` down. -/
def closeFrom (arr col : Nat) : Nat → Cells → Cells
  | 0, m => m
  | n + 1, m => closeFrom arr col n (if m (arr + n) = 1 then rmv arr n col m else m)

/-- The second loop, from `i` on, with so many turns left. -/
def mergeFrom (arr col i : Nat) : Nat → Cells → Cells
  | 0, m => m
  | n + 1, m =>
      mergeFrom arr col (i + 1) n
        (if m (arr + i) = m (arr + i + 1) ∧ m (arr + i) ≠ 1 then
          rmv arr (i + 1) col (Function.update m (arr + i) (doubled (m (arr + i))))
        else m)

/-- One turn of `mvleft`. -/
def mvrow (arr col : Nat) (m : Cells) : Cells := mergeFrom arr col 0 (col - 1) (closeFrom arr col col m)

/-- `mvleft`, with `row` rows left. -/
def mvleft (arr col : Nat) : Nat → Cells → Cells
  | 0, m => m
  | row + 1, m => mvleft (arr + col) col row (mvrow arr col m)

/-- Two loops that store `f i j` to `dst[i * stride + j]`. -/
def fill (dst : Cells) (rows cols stride : Nat) (f : Nat → Nat → Int) : Cells :=
  (List.range rows).foldl
    (fun dst i => (List.range cols).foldl (fun dst j => Function.update dst (i * stride + j) (f i j)) dst) dst

/-- `trans` -/
def trans (dst src : Cells) (row col : Nat) : Cells := fill dst col row col fun i j => src (j * row + i)

/-- `tover` -/
def tover (dst src : Cells) (row col : Nat) : Cells := fill dst row col row fun i j => src (i * row + col - 1 - j)

/-- `pleft` -/
def pleft (grid : Cells) : Cells := mvleft 0 4 4 grid

/-- `pup`; `gtmp` is what is on the stack. -/
def pup (gtmp grid : Cells) : Cells :=
  let gtmp := trans gtmp grid 4 4
  let gtmp := mvleft 0 4 4 gtmp
  trans grid gtmp 4 4

/-- `pright` -/
def pright (gtmp grid : Cells) : Cells :=
  let gtmp := tover gtmp grid 4 4
  let gtmp := mvleft 0 4 4 gtmp
  tover grid gtmp 4 4

/-- `pdown` -/
def pdown (gtmp1 gtmp2 grid : Cells) : Cells :=
  let gtmp1 := trans gtmp1 grid 4 4
  let gtmp2 := tover gtmp2 gtmp1 4 4
  let gtmp2 := mvleft 0 4 4 gtmp2
  let gtmp1 := tover gtmp1 gtmp2 4 4
  trans grid gtmp1 4 4

/-! ## The rules -/

/-- Equal neighbours become their double, once each, from left to right. -/
def merge : List Int → List Int
  | x :: y :: ts => if x = y then 2 * x :: merge ts else x :: merge (y :: ts)
  | ts => ts

/-- Slide to the left. -/
def slide (row : List Int) : List Int :=
  let ts := merge (row.filter (· ≠ 1))
  ts ++ List.replicate (row.length - ts.length) 1

/-- A grid by row and column. -/
abbrev Board := Fin 4 → Fin 4 → Int

def board (m : Cells) : Board := fun i j => m (i * 4 + j)

def slideLeft (b : Board) : Board := fun i j => (slide (List.ofFn (b i))).getD j 1

def mirror (b : Board) : Board := fun i j => b i j.rev

def transpose (b : Board) : Board := fun i j => b j i

/-- The sum of the cells that are not empty. -/
def tileSum (b : Board) : Int := ∑ i, ∑ j, if b i j = 1 then 0 else b i j

/-- A tile that can be doubled. -/
def Tile (v : Int) : Prop := 0 < v ∧ 2 * v < 2 ^ 31

instance (v : Int) : Decidable (Tile v) := inferInstanceAs (Decidable (_ ∧ _))

/-! ## One row -/

section Row

variable {m : Cells} {arr col c n : Nat} {as bs xs ys ts : List Int} {x y v : Int}

/-- The row that begins at `arr`. -/
def rowAt (m : Cells) (arr col : Nat) : List Int := (List.range col).map fun j => m (arr + j)

@[simp] theorem length_rowAt (m : Cells) (arr col : Nat) : (rowAt m arr col).length = col := by
  simp [rowAt]

theorem rowAt_eq_iff : rowAt m arr col = xs ↔ xs.length = col ∧ ∀ j (h : j < xs.length), m (arr + j) = xs[j] := by
  constructor
  · rintro rfl
    exact ⟨length_rowAt m arr col, fun j hj => by simp [rowAt]⟩
  · rintro ⟨hlen, hxs⟩
    refine List.ext_getElem (by rw [length_rowAt, hlen]) fun j hj hj' => ?_
    rw [← hxs j hj']
    simp [rowAt]

/-- The cell after `as`. -/
theorem cell_of_rowAt (h : rowAt m arr col = as ++ x :: bs) : m (arr + as.length) = x := by
  have hcell := (rowAt_eq_iff.1 h).2 as.length (by simp)
  simpa using hcell

theorem rowAt_update (h : rowAt m arr col = as ++ x :: bs) (v : Int) :
    rowAt (Function.update m (arr + as.length) v) arr col = as ++ v :: bs := by
  obtain ⟨hlen, hcells⟩ := rowAt_eq_iff.1 h
  refine rowAt_eq_iff.2 ⟨by simpa using hlen, fun j hj => ?_⟩
  have hj' : j < (as ++ x :: bs).length := by simpa using hj
  by_cases heq : j = as.length
  · subst heq
    simp
  · rw [Function.update_of_ne (by omega), hcells j hj']
    rw [List.getElem_append, List.getElem_append]
    split
    · rfl
    · rw [List.getElem_cons, List.getElem_cons, dif_neg (by omega), dif_neg (by omega)]

theorem rmvFrom_apply (arr idx n : Nat) (m : Cells) (c : Nat) :
    rmvFrom arr idx n m c = if arr + idx ≤ c ∧ c < arr + idx + n then m (c + 1) else m c := by
  induction n generalizing idx m with
  | zero => rw [rmvFrom, if_neg (by omega)]
  | succ n ih =>
      rw [rmvFrom, ih]
      by_cases hc : c = arr + idx
      · subst hc
        rw [if_neg (by omega), if_pos (by omega), Function.update_self]
      · rw [Function.update_of_ne hc]
        by_cases hin : arr + (idx + 1) ≤ c ∧ c < arr + (idx + 1) + n
        · rw [if_pos hin, if_pos (by omega), Function.update_of_ne (by omega)]
        · rw [if_neg hin, if_neg (by omega)]

/-- `rmv` takes a cell out of the row and adds an empty one at its end, whatever is behind the row. -/
theorem rowAt_rmv (h : rowAt m arr col = as ++ x :: bs) : rowAt (rmv arr as.length col m) arr col = as ++ bs ++ [1] := by
  obtain ⟨hlen, hcells⟩ := rowAt_eq_iff.1 h
  rw [List.length_append, List.length_cons] at hlen
  refine rowAt_eq_iff.2 ⟨by simp; omega, fun j hj => ?_⟩
  have hj' : j < col := by simp at hj; omega
  rw [rmv]
  by_cases hlast : j = col - 1
  · subst hlast
    have hend : (as ++ bs).length = col - 1 := by rw [List.length_append]; omega
    rw [Function.update_self, List.getElem_concat_length hend.symm]
  · rw [Function.update_of_ne (by omega), rmvFrom_apply, List.getElem_append_left (by simp; omega)]
    by_cases hidx : j < as.length
    · rw [if_neg (by omega), hcells j (by simp; omega), List.getElem_append_left hidx,
        List.getElem_append_left hidx]
    · rw [if_pos (by omega), Nat.add_assoc, hcells (j + 1) (by simp; omega), List.getElem_append_right (by omega),
        List.getElem_append_right (by omega), List.getElem_cons, dif_neg (by omega)]
      congr 1
      omega

theorem rmv_other {idx : Nat} (hidx : idx < col) (hc : c < arr ∨ arr + col ≤ c) (m : Cells) :
    rmv arr idx col m c = m c := by
  rw [rmv, Function.update_of_ne (by omega), rmvFrom_apply, if_neg (by omega)]

/-- The first loop drops the empty cells. -/
theorem rowAt_closeFrom (h : rowAt m arr col = xs ++ ys) :
    ∃ k, rowAt (closeFrom arr col xs.length m) arr col = xs.filter (· ≠ 1) ++ ys ++ List.replicate k 1 := by
  induction xs using List.reverseRecOn generalizing ys m with
  | nil => exact ⟨0, by simpa [closeFrom] using h⟩
  | append_singleton xs x ih =>
      rw [List.append_assoc, List.singleton_append] at h
      rw [List.length_append, List.length_singleton, closeFrom, cell_of_rowAt h]
      by_cases hx : x = 1
      · have hrmv := rowAt_rmv h
        rw [List.append_assoc] at hrmv
        obtain ⟨k, hk⟩ := ih hrmv
        refine ⟨k + 1, ?_⟩
        rw [if_pos hx, hk, List.replicate_succ]
        simp [hx]
      · obtain ⟨k, hk⟩ := ih h
        refine ⟨k, ?_⟩
        rw [if_neg hx, hk]
        simp [hx]

theorem doubled_of_tile (hv : Tile v) : doubled v = 2 * v := by
  obtain ⟨hpos, hlt⟩ := hv
  rw [doubled, Int.mul_comm]
  exact Int.bmod_eq_of_le_mul_two (by omega) (by omega)

theorem merge_singleton (x : Int) : merge [x] = [x] := by
  unfold merge
  rfl

/-- The second loop merges the tiles that come after the `as`. -/
theorem rowAt_mergeFrom {k : Nat} (h : rowAt m arr col = as ++ ts ++ List.replicate k 1)
    (hn : as.length + n + 1 = col) (hts : ∀ v ∈ ts, v ≠ 1 ∧ Tile v) :
    ∃ k, rowAt (mergeFrom arr col as.length n m) arr col = as ++ merge ts ++ List.replicate k 1 := by
  induction n generalizing as ts k m with
  | zero =>
      have hlen := congrArg List.length h
      simp only [length_rowAt, List.length_append, List.length_replicate] at hlen
      have hmerge : merge ts = ts := by
        match ts with
        | [] => rfl
        | [x] => exact merge_singleton x
        | x :: y :: ts => simp only [List.length_cons] at hlen; omega
      exact ⟨k, by rw [hmerge]; exact h⟩
  | succ n ih =>
      have hlen := congrArg List.length h
      simp only [length_rowAt, List.length_append, List.length_replicate] at hlen
      rw [mergeFrom]
      match ts, hts with
      | [], _ =>
          -- only empty cells are left
          obtain ⟨k, rfl⟩ : ∃ j, k = j + 1 := ⟨k - 1, by simp only [List.length_nil] at hlen; omega⟩
          rw [List.append_nil, List.replicate_succ] at h
          rw [cell_of_rowAt h, if_neg (by simp)]
          have hnext : rowAt m arr col = (as ++ [1]) ++ [] ++ List.replicate k 1 := by simpa using h
          obtain ⟨k', hk'⟩ := ih hnext (by simp; omega) nofun
          rw [List.length_append, List.length_singleton] at hk'
          exact ⟨k' + 1, by rw [hk', List.replicate_succ]; simp [merge]⟩
      | [x], hts =>
          obtain ⟨k, rfl⟩ : ∃ j, k = j + 1 := ⟨k - 1, by simp only [List.length_singleton] at hlen; omega⟩
          have hrow : rowAt m arr col = as ++ x :: (1 :: List.replicate k 1) := by
            simpa [List.replicate_succ] using h
          have hrow' : rowAt m arr col = (as ++ [x]) ++ 1 :: List.replicate k 1 := by simpa using hrow
          have hsecond := cell_of_rowAt hrow'
          rw [List.length_append, List.length_singleton, ← Nat.add_assoc] at hsecond
          have hx := (hts x List.mem_cons_self).1
          rw [cell_of_rowAt hrow, hsecond, if_neg (fun hand => hx hand.1)]
          have hnext : rowAt m arr col = (as ++ [x]) ++ [] ++ List.replicate (k + 1) 1 := by
            simpa [List.replicate_succ] using hrow
          obtain ⟨k', hk'⟩ := ih hnext (by simp; omega) nofun
          rw [List.length_append, List.length_singleton] at hk'
          exact ⟨k', by rw [hk', merge_singleton]; simp [merge]⟩
      | x :: y :: ts, hts =>
          have hrow : rowAt m arr col = as ++ x :: (y :: ts ++ List.replicate k 1) := by simpa using h
          have hrow' : rowAt m arr col = (as ++ [x]) ++ y :: (ts ++ List.replicate k 1) := by simpa using h
          have hsecond := cell_of_rowAt hrow'
          rw [List.length_append, List.length_singleton, ← Nat.add_assoc] at hsecond
          have hx := hts x List.mem_cons_self
          rw [cell_of_rowAt hrow, hsecond, merge]
          by_cases hxy : x = y
          · rw [if_pos ⟨hxy, hx.1⟩, if_pos hxy, doubled_of_tile hx.2]
            have hstored := rowAt_update hrow (2 * x)
            have hstored' : rowAt (Function.update m (arr + as.length) (2 * x)) arr col =
                (as ++ [2 * x]) ++ y :: (ts ++ List.replicate k 1) := by simpa using hstored
            have hremoved := rowAt_rmv hstored'
            rw [List.length_append, List.length_singleton] at hremoved
            have hnext : rowAt (rmv arr (as.length + 1) col (Function.update m (arr + as.length) (2 * x))) arr col =
                (as ++ [2 * x]) ++ ts ++ List.replicate (k + 1) 1 := by
              rw [hremoved, List.replicate_succ']
              simp
            obtain ⟨k', hk'⟩ := ih hnext (by simp; omega) fun v hv => hts v (by simp [hv])
            rw [List.length_append, List.length_singleton] at hk'
            exact ⟨k', by rw [hk']; simp⟩
          · rw [if_neg (fun hand => hxy hand.1), if_neg hxy]
            have hnext : rowAt m arr col = (as ++ [x]) ++ (y :: ts) ++ List.replicate k 1 := by simpa using h
            obtain ⟨k', hk'⟩ := ih hnext (by simp; omega) fun v hv => hts v (List.mem_cons_of_mem _ hv)
            rw [List.length_append, List.length_singleton] at hk'
            exact ⟨k', by rw [hk']; simp⟩

theorem closeFrom_other (hn : n ≤ col) (hc : c < arr ∨ arr + col ≤ c) (m : Cells) :
    closeFrom arr col n m c = m c := by
  induction n generalizing m with
  | zero => rfl
  | succ n ih =>
      rw [closeFrom, ih (by omega)]
      split
      · exact rmv_other hn hc m
      · rfl

theorem mergeFrom_other {i : Nat} (hn : i + n + 1 ≤ col) (hc : c < arr ∨ arr + col ≤ c) (m : Cells) :
    mergeFrom arr col i n m c = m c := by
  induction n generalizing i m with
  | zero => rfl
  | succ n ih =>
      rw [mergeFrom, ih (by omega)]
      split
      · rw [rmv_other (by omega) hc, Function.update_of_ne (by omega)]
      · rfl

theorem mvrow_other (hcol : 0 < col) (hc : c < arr ∨ arr + col ≤ c) (m : Cells) : mvrow arr col m c = m c := by
  rw [mvrow, mergeFrom_other (by omega) hc, closeFrom_other le_rfl hc]

/-- One turn of `mvleft` slides the row. -/
theorem rowAt_mvrow (hcol : 0 < col) (hrow : ∀ v ∈ rowAt m arr col, Tile v) :
    rowAt (mvrow arr col m) arr col = slide (rowAt m arr col) := by
  have hbegin : rowAt m arr col = rowAt m arr col ++ [] := (List.append_nil _).symm
  obtain ⟨k, hclosed⟩ := rowAt_closeFrom hbegin
  rw [length_rowAt, List.append_nil] at hclosed
  have hclosed' : rowAt (closeFrom arr col col m) arr col =
      [] ++ (rowAt m arr col).filter (· ≠ 1) ++ List.replicate k 1 := hclosed
  obtain ⟨k', hmerged⟩ := rowAt_mergeFrom (n := col - 1) hclosed' (by simp; omega) fun v hv => by
    obtain ⟨hmem, hne⟩ := List.mem_filter.1 hv
    exact ⟨of_decide_eq_true hne, hrow v hmem⟩
  -- the length of the row says how many empty cells there are
  have hlen := congrArg List.length hmerged
  simp only [length_rowAt, List.length_append, List.length_replicate, List.length_nil, Nat.zero_add] at hlen
  rw [mvrow, slide, length_rowAt]
  rw [List.length_nil, List.nil_append] at hmerged
  rw [hmerged, show k' = col - (merge ((rowAt m arr col).filter (· ≠ 1))).length by omega]

end Row

/-! ## The grid -/

section Grid

variable {m m' dst src : Cells} {arr col row c n i : Nat}

theorem mvleft_other (hcol : 0 < col) (hc : c < arr) (m : Cells) : mvleft arr col row m c = m c := by
  induction row generalizing arr m with
  | zero => rfl
  | succ row ih => rw [mvleft, ih (by omega), mvrow_other hcol (.inl hc)]

theorem rowAt_congr (h : ∀ j < col, m (arr + j) = m' (arr + j)) : rowAt m arr col = rowAt m' arr col :=
  List.map_congr_left fun j hj => h j (List.mem_range.1 hj)

/-- `mvleft` slides every row. -/
theorem rowAt_mvleft (hcol : 0 < col) (hm : ∀ c, arr ≤ c → c < arr + row * col → Tile (m c)) (hi : i < row) :
    rowAt (mvleft arr col row m) (arr + i * col) col = slide (rowAt m (arr + i * col) col) := by
  induction row generalizing arr m i with
  | zero => exact absurd hi (Nat.not_lt_zero _)
  | succ row ih =>
      rw [Nat.succ_mul] at hm
      rw [mvleft]
      cases i with
      | zero =>
          have hrest : rowAt (mvleft (arr + col) col row (mvrow arr col m)) arr col =
              rowAt (mvrow arr col m) arr col := rowAt_congr fun j hj => mvleft_other hcol (by omega) _
          rw [Nat.zero_mul, Nat.add_zero, hrest]
          refine rowAt_mvrow hcol fun v hv => ?_
          obtain ⟨j, hj, rfl⟩ := List.mem_map.1 hv
          have hlt := List.mem_range.1 hj
          exact hm _ (by omega) (by omega)
      | succ i =>
          have hother : ∀ c, arr + col ≤ c → mvrow arr col m c = m c := fun c hc => mvrow_other hcol (.inr hc) m
          rw [Nat.succ_mul, Nat.add_comm (i * col), ← Nat.add_assoc, ih (fun c hc hlt => ?_) (by omega)]
          · exact congrArg slide (rowAt_congr fun j hj => hother _ (by omega))
          · rw [hother c hc]
            exact hm c (by omega) (by omega)

/-- Stores to a range of cells. -/
theorem foldl_update (dst : Cells) (b n : Nat) (f : Nat → Int) (c : Nat) :
    (List.range n).foldl (fun dst j => Function.update dst (b + j) (f j)) dst c =
      if b ≤ c ∧ c < b + n then f (c - b) else dst c := by
  induction n with
  | zero => rw [List.range_zero, List.foldl_nil, if_neg (by omega)]
  | succ n ih =>
      rw [List.range_succ, List.foldl_append, List.foldl_cons, List.foldl_nil]
      by_cases hc : c = b + n
      · subst hc
        rw [Function.update_self, if_pos (by omega), Nat.add_sub_cancel_left]
      · rw [Function.update_of_ne hc, ih]
        by_cases hin : b ≤ c ∧ c < b + n
        · rw [if_pos hin, if_pos (by omega)]
        · rw [if_neg hin, if_neg (by omega)]

/-- The loops of `trans` and `tover` store to each cell once. -/
theorem fill_apply (hn : 0 < n) (dst : Cells) (rows : Nat) (f : Nat → Nat → Int) (c : Nat) :
    fill dst rows n n f c = if c < rows * n then f (c / n) (c % n) else dst c := by
  induction rows with
  | zero => rw [Nat.zero_mul, if_neg (Nat.not_lt_zero _)]; rfl
  | succ rows ih =>
      rw [fill, List.range_succ, List.foldl_append, List.foldl_cons, List.foldl_nil, foldl_update, Nat.succ_mul]
      by_cases hin : rows * n ≤ c ∧ c < rows * n + n
      · rw [if_pos hin, if_pos hin.2]
        obtain ⟨j, rfl⟩ := Nat.exists_eq_add_of_le hin.1
        have hj : j < n := by omega
        rw [Nat.add_sub_cancel_left, Nat.mul_comm, Nat.mul_add_div hn, Nat.mul_add_mod, Nat.div_eq_of_lt hj,
          Nat.mod_eq_of_lt hj, Nat.add_zero]
      · rw [if_neg hin]
        refine (ih : _).trans ?_
        by_cases hc : c < rows * n
        · rw [if_pos hc, if_pos (by omega)]
        · rw [if_neg hc, if_neg (by omega)]

theorem board_trans (dst src : Cells) : board (trans dst src 4 4) = transpose (board src) := by
  funext i j
  rw [board, trans, fill_apply (by decide), if_pos (by omega)]
  simp only [transpose, board]
  congr 1
  omega

theorem board_tover (dst src : Cells) : board (tover dst src 4 4) = mirror (board src) := by
  funext i j
  rw [board, tover, fill_apply (by decide), if_pos (by omega)]
  simp only [mirror, board, Fin.val_rev]
  congr 1
  omega

theorem ofFn_board (m : Cells) (i : Fin 4) : List.ofFn (board m i) = rowAt m (i * 4) 4 := rfl

/-- `mvleft` on a whole grid. -/
theorem board_mvleft (hm : ∀ i j, Tile (board m i j)) : board (mvleft 0 4 4 m) = slideLeft (board m) := by
  funext i j
  have hcells : ∀ c, 0 ≤ c → c < 0 + 4 * 4 → Tile (m c) := by
    intro c _ hc
    have htile := hm ⟨c / 4, by omega⟩ ⟨c % 4, by omega⟩
    rwa [board, Nat.div_add_mod'] at htile
  have hrow := rowAt_mvleft (by decide) hcells i.isLt
  rw [Nat.zero_add] at hrow
  rw [slideLeft, ofFn_board, ← hrow]
  simp [board, rowAt]

end Grid

/-! ## The sum -/

section Sum

variable {b : Board} {ts row : List Int}

theorem sum_merge (ts : List Int) : (merge ts).sum = ts.sum := by
  induction ts using merge.induct with
  | case1 x ts ih =>
      rw [merge, if_pos rfl, List.sum_cons, ih, List.sum_cons, List.sum_cons]
      omega
  | case2 x y ts hne ih => rw [merge, if_neg hne, List.sum_cons, ih, List.sum_cons (a := x)]
  | case3 ts hts =>
      rw [merge]
      exact hts

/-- A merged tile is a tile that was there or its double. -/
theorem mem_merge {v : Int} (h : v ∈ merge ts) : v ∈ ts ∨ ∃ w ∈ ts, v = 2 * w := by
  induction ts using merge.induct with
  | case1 x ts ih =>
      rw [merge, if_pos rfl] at h
      obtain rfl | h := List.mem_cons.1 h
      · exact .inr ⟨x, List.mem_cons_self, rfl⟩
      · obtain h | ⟨w, hw, rfl⟩ := ih h
        · exact .inl (by simp [h])
        · exact .inr ⟨w, by simp [hw], rfl⟩
  | case2 x y ts hne ih =>
      rw [merge, if_neg hne] at h
      obtain rfl | h := List.mem_cons.1 h
      · exact .inl List.mem_cons_self
      · obtain h | ⟨w, hw, rfl⟩ := ih h
        · exact .inl (List.mem_cons_of_mem _ h)
        · exact .inr ⟨w, List.mem_cons_of_mem _ hw, rfl⟩
  | case3 ts hts =>
      rw [merge] at h
      · exact .inl h
      · exact hts

/-- The sum of the cells of a row that are not empty. -/
def rowSum (row : List Int) : Int := (row.map fun v => if v = 1 then 0 else v).sum

theorem rowSum_filter (row : List Int) : rowSum row = (row.filter (· ≠ 1)).sum := by
  induction row with
  | nil => rfl
  | cons v row ih =>
      rw [rowSum, List.map_cons, List.sum_cons]
      by_cases hv : v = 1
      · rw [if_pos hv, List.filter_cons_of_neg (by simp [hv]), Int.zero_add]
        exact ih
      · rw [if_neg hv, List.filter_cons_of_pos (by simp [hv]), List.sum_cons, ← ih]
        rfl

/-- No tile is merged to an empty cell. -/
theorem merge_ne_one (hts : ∀ v ∈ ts, v ≠ 1) : ∀ v ∈ merge ts, v ≠ 1 := by
  intro v hv
  obtain hv | ⟨w, -, rfl⟩ := mem_merge hv
  · exact hts v hv
  · omega

theorem rowSum_slide (row : List Int) : rowSum (slide row) = rowSum row := by
  have htiles : ∀ v ∈ row.filter (· ≠ 1), v ≠ 1 := fun v hv => of_decide_eq_true (List.mem_filter.1 hv).2
  have hkept : (merge (row.filter (· ≠ 1))).filter (· ≠ 1) = merge (row.filter (· ≠ 1)) :=
    List.filter_eq_self.2 fun v hv => decide_eq_true (merge_ne_one htiles v hv)
  rw [rowSum_filter, rowSum_filter, slide, List.filter_append, hkept, List.sum_append, sum_merge]
  simp

theorem length_merge_le (ts : List Int) : (merge ts).length ≤ ts.length := by
  induction ts using merge.induct with
  | case1 x ts ih =>
      rw [merge, if_pos rfl]
      simp only [List.length_cons]
      omega
  | case2 x y ts hne ih =>
      rw [merge, if_neg hne]
      exact Nat.succ_le_succ ih
  | case3 ts hts =>
      rw [merge]
      exact hts

theorem length_slide (row : List Int) : (slide row).length = row.length := by
  have hmerge := length_merge_le (row.filter (· ≠ 1))
  have hfilter := List.length_filter_le (fun v : Int => decide (v ≠ 1)) row
  rw [slide, List.length_append, List.length_replicate]
  omega

theorem ofFn_slideLeft (b : Board) (i : Fin 4) : List.ofFn (slideLeft b i) = slide (List.ofFn (b i)) := by
  have hlen : (slide (List.ofFn (b i))).length = 4 := by rw [length_slide, List.length_ofFn]
  refine List.ext_getElem (by rw [List.length_ofFn, hlen]) fun j hj hj' => ?_
  rw [List.getElem_ofFn, slideLeft]
  exact (List.getElem_eq_getD 1).symm

theorem tileSum_eq (b : Board) : tileSum b = ∑ i, rowSum (List.ofFn (b i)) := by
  refine Finset.sum_congr rfl fun i _ => ?_
  rw [rowSum, List.map_ofFn, List.sum_ofFn]
  rfl

theorem tileSum_slideLeft (b : Board) : tileSum (slideLeft b) = tileSum b := by
  rw [tileSum_eq, tileSum_eq]
  refine Finset.sum_congr rfl fun i _ => ?_
  rw [ofFn_slideLeft, rowSum_slide]

theorem tileSum_mirror (b : Board) : tileSum (mirror b) = tileSum b :=
  Finset.sum_congr rfl fun i _ => Equiv.sum_comp Fin.revPerm fun j => if b i j = 1 then 0 else b i j

theorem tileSum_transpose (b : Board) : tileSum (transpose b) = tileSum b := Finset.sum_comm

end Sum

/-! ## The moves -/

section Moves

variable {m : Cells}

theorem board_pleft (hm : ∀ i j, Tile (board m i j)) : board (pleft m) = slideLeft (board m) := board_mvleft hm

theorem board_pup (hm : ∀ i j, Tile (board m i j)) (gtmp : Cells) :
    board (pup gtmp m) = transpose (slideLeft (transpose (board m))) := by
  rw [pup, board_trans, board_mvleft, board_trans]
  rw [board_trans]
  exact fun i j => hm j i

theorem board_pright (hm : ∀ i j, Tile (board m i j)) (gtmp : Cells) :
    board (pright gtmp m) = mirror (slideLeft (mirror (board m))) := by
  rw [pright, board_tover, board_mvleft, board_tover]
  rw [board_tover]
  exact fun i j => hm i j.rev

theorem board_pdown (hm : ∀ i j, Tile (board m i j)) (gtmp1 gtmp2 : Cells) :
    board (pdown gtmp1 gtmp2 m) = transpose (mirror (slideLeft (mirror (transpose (board m))))) := by
  rw [pdown, board_trans, board_tover, board_mvleft, board_tover, board_trans]
  rw [board_tover, board_trans]
  exact fun i j => hm j.rev i

/-- `pleft` slides every row, the other moves are `pleft` between a change of the grid and its inverse, and none
    changes the sum of the tiles. What is behind the grid or on the stack does not matter. -/
theorem moves_follow_rules (hm : ∀ i j, Tile (board m i j)) (gtmp1 gtmp2 : Cells) :
    ((∀ i, List.ofFn (board (pleft m) i) = slide (List.ofFn (board m i))) ∧
      board (pleft m) = slideLeft (board m) ∧
      board (pright gtmp1 m) = mirror (slideLeft (mirror (board m))) ∧
      board (pup gtmp1 m) = transpose (slideLeft (transpose (board m))) ∧
      board (pdown gtmp1 gtmp2 m) = transpose (mirror (slideLeft (mirror (transpose (board m)))))) ∧
    tileSum (board (pleft m)) = tileSum (board m) ∧ tileSum (board (pright gtmp1 m)) = tileSum (board m) ∧
    tileSum (board (pup gtmp1 m)) = tileSum (board m) ∧
    tileSum (board (pdown gtmp1 gtmp2 m)) = tileSum (board m) := by
  have hleft := board_pleft hm
  have hright := board_pright hm gtmp1
  have hup := board_pup hm gtmp1
  have hdown := board_pdown hm gtmp1 gtmp2
  refine ⟨⟨fun i => ?_, hleft, hright, hup, hdown⟩, ?_, ?_, ?_, ?_⟩
  · rw [hleft, ofFn_slideLeft]
  · rw [hleft, tileSum_slideLeft]
  · rw [hright, tileSum_mirror, tileSum_slideLeft, tileSum_mirror]
  · rw [hup, tileSum_transpose, tileSum_slideLeft, tileSum_transpose]
  · rw [hdown, tileSum_transpose, tileSum_mirror, tileSum_slideLeft, tileSum_mirror, tileSum_transpose]

end Moves

/-- Two 2s at the end of the first row. -/
def twoTwos : Cells := fun c => if c = 2 ∨ c = 3 then 2 else 1

theorem moves_follow_rules_twos : List.ofFn (board (pleft twoTwos) 0) = slide (List.ofFn (board twoTwos 0)) :=
  (moves_follow_rules (by decide) twoTwos twoTwos).1.1 0

end Game2048

end RecoverOS
