import RecoverOS.Base.Bytes
import RecoverOS.Command.Game2048
import Mathlib.Data.List.Range
import Mathlib.Algebra.Order.Ring.Int
import Mathlib.Algebra.Order.GroupWithZero.Unbundled.Basic

set_option autoImplicit false

/-! # A game of 2048 (`command/2048.c`)

The main loop with the keys that are pressed, the values of `getticks` and what is on the stack. -/

namespace RecoverOS

namespace Game2048

/-- `enum dire` -/
inductive Dire where
  | left
  | down
  | up
  | right
  | quit

/-! ## The code -/

/-- `getcnt` -/
def getcnt (grid : Cells) (val : Int) : Nat :=
  (List.range 4).foldl
    (fun cnt i => (List.range 4).foldl (fun cnt j => if grid (i * 4 + j) = val then cnt + 1 else cnt) cnt) 0

/-- `input` with the keys that are pressed, and those left; it waits for a key that it knows. -/
def input : List Byte → Option (Dire × List Byte)
  | [] => none
  | key :: keys =>
      if key = 104 then some (.left, keys)
      else if key = 106 then some (.down, keys)
      else if key = 107 then some (.up, keys)
      else if key = 108 then some (.right, keys)
      else if key = 113 then some (.quit, keys)
      else input keys

/-- The loop of `num2idx`, for so many turns at most. -/
def num2idxFrom (num : Int) (idx : Nat) (n : Int) : Nat → Option Nat
  | 0 => none
  | fuel + 1 => if n = num then some idx else num2idxFrom num (idx + 1) (doubled n) fuel

/-- `num2idx` -/
def num2idx (fuel : Nat) (num : Int) : Option Nat := num2idxFrom num 0 1 fuel

/-- `property` -/
def property : List Byte := [0x78, 0x4d, 0x2d, 0x1e, 0x6c, 0x3c, 0x5a, 0x68, 0x24, 0x1c, 0x64, 0x3a]

/-- The entry of `property` that `output` looks up for a cell. -/
def cellProperty (fuel : Nat) (num : Int) : Option Byte := do property[← num2idx fuel num]?

/-- `rand`, which returns the new seed. -/
def rand (seed : Nat) : Nat := seed * 6807 % 2 ^ 32 % 2147483647

/-- The loop of `badd` from `i` on, with so many cells left. -/
def baddFrom (grid : Cells) (random : Nat) (num : Int) (idx i : Nat) : Nat → Cells
  | 0 => grid
  | n + 1 =>
      if grid i = 1 then
        if idx = random then Function.update grid i num else baddFrom grid random num (idx + 1) (i + 1) n
      else baddFrom grid random num idx (i + 1) n

/-- `badd` when `getticks` returns `ticks`; `none` is -1. -/
def badd (ticks : Nat) (grid : Cells) : Option Cells :=
  let space_var := getcnt grid 1
  if space_var = 0 then none
  else
    let seed := rand (ticks % 2 ^ 32)
    some (baddFrom grid (seed % space_var) (2 * (rand seed % 2 + 1 : Nat)) 0 0 16)

/-- `func`, which has no entry for `QUIT`: `main` returns then. -/
def func (dire : Dire) (gtmp1 gtmp2 grid : Cells) : Cells :=
  match dire with
  | .left => pleft grid
  | .down => pdown gtmp1 gtmp2 grid
  | .up => pup gtmp1 grid
  | .right => pright gtmp1 grid
  | .quit => grid

/-- What `getticks` returns in a turn of the main loop, and what is on the stack. -/
structure Turn where
  ticks : Nat
  gtmp1 : Cells
  gtmp2 : Cells

/-- The main loop; the grids that `output` is called with. -/
def mainLoop : List Turn → List Byte → Cells → List Cells
  | [], _, _ => []
  | turn :: turns, keys, grid =>
      match badd turn.ticks grid with
      | none => []
      | some grid =>
          grid ::
            if getcnt grid 2048 ≠ 0 then []
            else
              match input keys with
              | none => []
              | some (.quit, _) => []
              | some (dire, keys) => mainLoop turns keys (func dire turn.gtmp1 turn.gtmp2 grid)

/-- `main`; what `badd` returns for the empty grid is not looked at. -/
def main (ticks : Nat) (turns : List Turn) (keys : List Byte) (behind : Cells) : List Cells :=
  let grid : Cells := fun c => if c < 16 then 1 else behind c
  mainLoop turns keys ((badd ticks grid).getD grid)

/-! ## Powers of two -/

/-- Every cell is a power of two, up to `2 ^ k`. -/
def Powers (k : Nat) (m : Cells) : Prop := ∀ c < 16, ∃ e ≤ k, m c = 2 ^ e

section Parts

variable {m : Cells} {b : Board} {k n : Nat}

theorem getcnt_eq (grid : Cells) (val : Int) : getcnt grid val = (List.range' 0 16).countP (grid · = val) := by
  have hfold : ∀ (l : List Nat) (cnt : Nat),
      l.foldl (fun cnt c => if grid c = val then cnt + 1 else cnt) cnt = cnt + l.countP (grid · = val) := by
    intro l
    induction l with
    | nil => exact fun cnt => rfl
    | cons c l ih =>
        intro cnt
        rw [List.foldl_cons, ih, List.countP_cons]
        by_cases hc : grid c = val
        · rw [if_pos hc, if_pos (decide_eq_true hc)]
          omega
        · rw [if_neg hc, if_neg (by simpa using hc), Nat.add_zero]
  have hcells : List.range' 0 16 = (List.range 4).flatMap fun i => (List.range 4).map (i * 4 + ·) := rfl
  rw [← Nat.zero_add (List.countP _ _), ← hfold, hcells, List.foldl_flatMap]
  simp only [List.foldl_map]
  rfl

/-- The loop of `badd` finds an empty cell when there are more than `random` of them. -/
theorem baddFrom_eq {random idx i : Nat} (num : Int) (hidx : idx ≤ random)
    (hcnt : random < idx + (List.range' i n).countP (m · = 1)) :
    ∃ c, i ≤ c ∧ c < i + n ∧ m c = 1 ∧ baddFrom m random num idx i n = Function.update m c num := by
  induction n generalizing idx i with
  | zero => exact absurd hcnt (Nat.not_lt.2 hidx)
  | succ n ih =>
      rw [List.range'_succ, List.countP_cons] at hcnt
      rw [baddFrom]
      by_cases hempty : m i = 1
      · rw [if_pos (decide_eq_true hempty)] at hcnt
        rw [if_pos hempty]
        by_cases hhere : idx = random
        · exact ⟨i, le_rfl, by omega, hempty, if_pos hhere⟩
        · rw [if_neg hhere]
          obtain ⟨c, hle, hlt, hc, heq⟩ := ih (i := i + 1) (show idx + 1 ≤ random by omega) (by omega)
          exact ⟨c, by omega, by omega, hc, heq⟩
      · rw [if_neg (by simpa using hempty)] at hcnt
        rw [if_neg hempty]
        obtain ⟨c, hle, hlt, hc, heq⟩ := ih (i := i + 1) hidx (by omega)
        exact ⟨c, by omega, by omega, hc, heq⟩

/-- `badd` puts a 2 or a 4 in an empty cell. -/
theorem badd_eq {ticks : Nat} {m' : Cells} (h : badd ticks m = some m') :
    ∃ c < 16, m c = 1 ∧ (m' = Function.update m c 2 ∨ m' = Function.update m c 4) := by
  have hcnt : getcnt m 1 ≠ 0 := by
    intro hcnt
    rw [badd, if_pos hcnt] at h
    exact nomatch h
  rw [badd, if_neg hcnt] at h
  -- the cell is chosen among the empty ones
  have hspace : rand (ticks % 2 ^ 32) % getcnt m 1 < 0 + (List.range' 0 16).countP (m · = 1) := by
    rw [← getcnt_eq, Nat.zero_add]
    exact Nat.mod_lt _ (Nat.pos_of_ne_zero hcnt)
  obtain ⟨c, -, hlt, hc, heq⟩ := baddFrom_eq (2 * (rand (rand (ticks % 2 ^ 32)) % 2 + 1 : Nat))
    (Nat.zero_le _) hspace
  refine ⟨c, by omega, hc, ?_⟩
  rw [← Option.some.inj h, heq]
  obtain hbit | hbit := Nat.mod_two_eq_zero_or_one (rand (rand (ticks % 2 ^ 32)))
  · exact .inl (by rw [hbit]; rfl)
  · exact .inr (by rw [hbit]; rfl)

theorem powers_badd {ticks : Nat} {m' : Cells} (hm : Powers 11 m) (h : badd ticks m = some m') : Powers 11 m' := by
  obtain ⟨c, -, -, rfl | rfl⟩ := badd_eq h
  · intro j hj
    by_cases hjc : j = c
    · exact ⟨1, by omega, by rw [hjc, Function.update_self]; rfl⟩
    · rw [Function.update_of_ne hjc]
      exact hm j hj
  · intro j hj
    by_cases hjc : j = c
    · exact ⟨2, by omega, by rw [hjc, Function.update_self]; rfl⟩
    · rw [Function.update_of_ne hjc]
      exact hm j hj

theorem powers_iff : Powers k m ↔ ∀ i j, ∃ e ≤ k, board m i j = 2 ^ e := by
  constructor
  · exact fun hm i j => hm (i * 4 + j) (by omega)
  · intro hm c hc
    have hcell := hm ⟨c / 4, by omega⟩ ⟨c % 4, by omega⟩
    rwa [board, Nat.div_add_mod'] at hcell

/-- After the win test there is no 2048. -/
theorem Powers.below (hm : Powers 11 m) (hcnt : getcnt m 2048 = 0) : Powers 10 m := by
  intro c hc
  obtain ⟨e, he, heq⟩ := hm c hc
  refine ⟨e, ?_, heq⟩
  rw [getcnt_eq, List.countP_eq_zero] at hcnt
  have hne := hcnt c (List.mem_range'_1.2 (by omega))
  have he11 : e ≠ 11 := by
    rintro rfl
    exact hne (by rw [heq]; rfl)
  omega

theorem mem_slide {row : List Int} {v : Int} (h : v ∈ slide row) : v = 1 ∨ v ∈ row ∨ ∃ w ∈ row, v = 2 * w := by
  obtain h | h := List.mem_append.1 h
  · obtain h | ⟨w, hw, rfl⟩ := mem_merge h
    · exact .inr (.inl (List.mem_filter.1 h).1)
    · exact .inr (.inr ⟨w, (List.mem_filter.1 hw).1, rfl⟩)
  · exact .inl (List.eq_of_mem_replicate h)

theorem slideLeft_powers (hb : ∀ i j, ∃ e ≤ k, b i j = 2 ^ e) (i j : Fin 4) :
    ∃ e ≤ k + 1, slideLeft b i j = 2 ^ e := by
  have hmem : slideLeft b i j ∈ slide (List.ofFn (b i)) := by
    rw [← ofFn_slideLeft]
    exact List.mem_ofFn.2 ⟨j, rfl⟩
  obtain heq | hcell | ⟨w, hw, heq⟩ := mem_slide hmem
  · exact ⟨0, Nat.zero_le _, heq⟩
  · obtain ⟨j', heq⟩ := List.mem_ofFn.1 hcell
    obtain ⟨e, he, hpow⟩ := hb i j'
    exact ⟨e, by omega, by rw [← heq, hpow]⟩
  · obtain ⟨j', rfl⟩ := List.mem_ofFn.1 hw
    obtain ⟨e, he, hpow⟩ := hb i j'
    exact ⟨e + 1, by omega, by rw [heq, hpow, Int.pow_succ, Int.mul_comm]⟩

theorem tile_of_pow {e : Nat} {v : Int} (he : e ≤ 29) (hv : v = 2 ^ e) : Tile v := by
  have hle : (2 : Int) ^ e ≤ 2 ^ 29 := pow_le_pow_right₀ (by decide) he
  rw [hv]
  exact ⟨pow_pos (by decide) e, by omega⟩

/-- A move doubles tiles once. -/
theorem Powers.move (hm : Powers 10 m) (dire : Dire) (gtmp1 gtmp2 : Cells) :
    Powers 11 (func dire gtmp1 gtmp2 m) := by
  have hb := powers_iff.1 hm
  have htile : ∀ i j, Tile (board m i j) := by
    intro i j
    obtain ⟨e, he, hpow⟩ := hb i j
    exact tile_of_pow (by omega) hpow
  rw [powers_iff]
  cases dire with
  | left =>
      rw [func, board_pleft htile]
      exact slideLeft_powers hb
  | down =>
      rw [func, board_pdown htile]
      exact fun i j => slideLeft_powers (b := mirror (transpose (board m))) (fun i j => hb j.rev i) j i.rev
  | up =>
      rw [func, board_pup htile]
      exact fun i j => slideLeft_powers (b := transpose (board m)) (fun i j => hb j i) j i
  | right =>
      rw [func, board_pright htile]
      exact fun i j => slideLeft_powers (b := mirror (board m)) (fun i j => hb i j.rev) i j.rev
  | quit =>
      intro i j
      obtain ⟨e, he, hpow⟩ := hb i j
      exact ⟨e, by omega, hpow⟩

/-- `num2idx` ends for a power of two that is an `int`. -/
theorem num2idxFrom_pow {e i fuel : Nat} (hi : i ≤ e) (he : e ≤ 30) (hfuel : e < i + fuel) :
    num2idxFrom (2 ^ e) i (2 ^ i) fuel = some e := by
  induction fuel generalizing i with
  | zero => exact absurd hfuel (Nat.not_lt.2 hi)
  | succ fuel ih =>
      rw [num2idxFrom]
      by_cases heq : i = e
      · rw [if_pos (by rw [heq]), heq]
      · have hpow : (2 : Int) ^ i ≠ 2 ^ e := fun hpow => heq (Int.pow_right_injective (by decide) hpow)
        rw [if_neg hpow, doubled_of_tile (tile_of_pow (by omega) rfl), ← ih (i := i + 1) (by omega) (by omega),
          Int.pow_succ, Int.mul_comm]

end Parts

/-! ## The run -/

theorem mainLoop_powers {m : Cells} (hm : Powers 11 m) (turns : List Turn) (keys : List Byte) :
    ∀ grid ∈ mainLoop turns keys m, Powers 11 grid := by
  induction turns generalizing m keys with
  | nil => exact nofun
  | cons turn turns ih =>
      intro grid hgrid
      rw [mainLoop] at hgrid
      cases hbadd : badd turn.ticks m with
      | none =>
          rw [hbadd] at hgrid
          exact absurd hgrid List.not_mem_nil
      | some m1 =>
          have hm1 := powers_badd hm hbadd
          rw [hbadd] at hgrid
          obtain rfl | hgrid := List.mem_cons.1 hgrid
          · exact hm1
          -- a board with a 2048 ends the game, so that no tile above 1024 is doubled
          · split_ifs at hgrid with hwin
            · exact absurd hgrid List.not_mem_nil
            · split at hgrid
              · exact absurd hgrid List.not_mem_nil
              · exact absurd hgrid List.not_mem_nil
              · next dire keys' _ _ =>
                  have hbelow := hm1.below (not_not.1 hwin)
                  exact ih (hbelow.move dire turn.gtmp1 turn.gtmp2) keys' grid hgrid

/-- In every game, `output` shows powers of two up to 2048 and finds a property for each of them, and `badd` changes
    one empty cell, to 2 or 4, when it returns 0. -/
theorem tiles_possible (ticks : Nat) (turns : List Turn) (keys : List Byte) (behind : Cells) :
    (∀ grid ∈ main ticks turns keys behind, ∀ c < 16, ∃ e ≤ 11, grid c = 2 ^ e ∧
      ∀ fuel, e < fuel → num2idx fuel (grid c) = some e ∧ e < property.length ∧
        (cellProperty fuel (grid c)).isSome) ∧
    ∀ ticks m m', badd ticks m = some m' →
      ∃ c < 16, m c = 1 ∧ (m' = Function.update m c 2 ∨ m' = Function.update m c 4) := by
  refine ⟨fun grid hgrid c hc => ?_, fun ticks m m' h => badd_eq h⟩
  have hstart : Powers 11 fun c => if c < 16 then 1 else behind c := fun c hc => ⟨0, by omega, if_pos hc⟩
  have hfirst : Powers 11 ((badd ticks fun c => if c < 16 then 1 else behind c).getD
      fun c => if c < 16 then 1 else behind c) := by
    cases hbadd : badd ticks fun c => if c < 16 then 1 else behind c with
    | none => exact hstart
    | some m => exact powers_badd hstart hbadd
  obtain ⟨e, he, hpow⟩ := mainLoop_powers hfirst turns keys grid hgrid c hc
  refine ⟨e, he, hpow, fun fuel hfuel => ?_⟩
  have hidx : num2idx fuel (grid c) = some e := by
    rw [num2idx, hpow]
    exact num2idxFrom_pow (i := 0) (Nat.zero_le e) (by omega) (by omega)
  have hlt : e < property.length := Nat.lt_of_le_of_lt he (by decide)
  refine ⟨hidx, hlt, ?_⟩
  rw [cellProperty, hidx, Option.bind_eq_bind, Option.bind_some, List.getElem?_eq_getElem hlt]
  rfl

end Game2048

end RecoverOS
