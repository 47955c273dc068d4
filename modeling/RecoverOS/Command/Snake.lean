import Mathlib.Algebra.Group.Nat.Defs
import Mathlib.Data.List.Chain
import Mathlib.Data.List.Nodup
import Mathlib.Logic.Function.Basic

set_option autoImplicit false

/-! # Snake (`command/snake.c`)

The nodes of the snake are the list of their sites, from its head on. -/

namespace RecoverOS

namespace Snake

/-- `enum direct` -/
inductive Direct where
  | left
  | down
  | up
  | right
  | quit
deriving DecidableEq

/-- `enum status` -/
inductive Status where
  | space
  | block
  | food
deriving DecidableEq

/-- `Map` and what is behind it. -/
abbrev Map := Nat → Status

/-- The snake and the map, the direction of the last move (`pred`) and `score`. -/
structure State where
  map : Map
  sites : List Nat
  pred : Direct
  score : Nat

/-! ## The code -/

/-- The value of an enumerator. -/
def Direct.val : Direct → Nat
  | .left => 0
  | .down => 1
  | .up => 2
  | .right => 3
  | .quit => 4

/-- `rand`, which returns the new seed. -/
def rand (seed : Nat) : Nat := seed * 6807 % 2 ^ 32 % 2147483647

/-- `getcnt` -/
def getcnt (map : Map) (val : Status) : Nat :=
  (List.range 20).foldl
    (fun cnt i => (List.range 20).foldl (fun cnt j => if map (i * 20 + j) = val then cnt + 1 else cnt) cnt) 0

/-- The loop of `add_food` from `i` on, with so many cells left. -/
def addFoodFrom (map : Map) (random idx i : Nat) : Nat → Nat × Map
  | 0 => (i, map)
  | n + 1 =>
      if map i = .space then
        if idx = random then (i, Function.update map i .food) else addFoodFrom map random (idx + 1) (i + 1) n
      else addFoodFrom map random idx (i + 1) n

/-- `add_food` when `getticks` returns `ticks`; `none` is -1. -/
def addFood (ticks : Nat) (map : Map) : Option Nat × Map :=
  let space_var := getcnt map .space
  if space_var = 0 then (none, map)
  else
    let r := addFoodFrom map (rand (ticks % 2 ^ 32) % space_var) 0 0 400
    (some r.1, r.2)

/-- `turn` -/
def turn (idx : Nat) (d : Direct) : Nat :=
  let row := idx / 20
  let col := idx % 20
  match d with
  | .left => row * 20 + (col + 20 - 1) % 20
  | .down => (row + 1) % 20 * 20 + col
  | .up => (row + 20 - 1) % 20 * 20 + col
  | .right => row * 20 + (col + 1) % 20
  | .quit => row * 20 + col

/-- `snake_init` on the empty map, whose memory goes on with `behind`. -/
def snakeInit (ticks : Nat) (behind : Map) : Option State := do
  let map : Map := fun i => if i < 400 then .space else behind i
  let (site, map) := addFood ticks map
  let beg ← site
  let tail := turn beg .right
  let map := Function.update map beg .block
  let map := Function.update map tail .block
  return ⟨map, [beg, tail], .right, 0⟩

/-- The direction that is taken: the snake goes on when it would have to turn around. -/
def steer (d pred : Direct) : Direct :=
  if (decide (d.val % 3 = 0) == decide (pred.val % 3 = 0)) && d ≠ pred then pred else d

/-- The loop over the nodes from the tail on, with so many of them left: each gets the site of the one before it. -/
def shiftFrom (sites : List Nat) : Nat → List Nat
  | 0 => sites
  | k + 1 => shiftFrom (sites.set (k + 1) (sites.getD k 0)) k

/-- `snake_move`; `none` when it does not return 0. -/
def snakeMove (ticks : Nat) (d : Direct) (s : State) : Option State := do
  let d := steer d s.pred
  let map := Function.update s.map (← s.sites.getLast?) .space
  let sites := shiftFrom s.sites (s.sites.length - 1)
  let beg := turn (← sites.head?) d
  let sites := sites.set 0 beg
  if map beg = .block then none
  else if map beg = .food then
    let map := Function.update map beg .block
    let newbeg := turn beg d
    let map := Function.update map newbeg .block
    return ⟨(addFood ticks map).2, newbeg :: sites, d, s.score + 1⟩
  else return ⟨Function.update map beg .block, sites, d, s.score⟩

/-- A move of the game: its direction and what `getticks` returns in it. -/
structure Move where
  ticks : Nat
  d : Direct
  notQuit : d ≠ .quit

/-- `snake_init` and `add_food`. -/
def start (ticks ticks' : Nat) (behind : Map) : Option State := do
  let s ← snakeInit ticks behind
  return { s with map := (addFood ticks' s.map).2 }

/-! ## What is asked -/

/-- Cells next to each other in a row or a column, which are closed. -/
def Neighbours (a b : Nat) : Prop :=
  a / 20 = b / 20 ∧ ((a % 20 + 1) % 20 = b % 20 ∨ (b % 20 + 1) % 20 = a % 20) ∨
    a % 20 = b % 20 ∧ ((a / 20 + 1) % 20 = b / 20 ∨ (b / 20 + 1) % 20 = a / 20)

/-- Snake and map agree. -/
structure Agrees (s : State) : Prop where
  nodup : s.sites.Nodup
  inside : ∀ i ∈ s.sites, i < 400
  neighbours : s.sites.IsChain Neighbours
  block : ∀ i < 400, s.map i = .block ↔ i ∈ s.sites

/-- When there is food ahead, the cell after it is none of the snake's, other than its tail's. -/
def Clear (s : State) (mv : Move) : Prop :=
  ∀ beg ∈ s.sites.head?,
    s.map (turn beg (steer mv.d s.pred)) = .food →
      turn (turn beg (steer mv.d s.pred)) (steer mv.d s.pred) ∉ s.sites.dropLast

/-- After every move that is made. -/
def AfterEach (P : State → Prop) : State → List Move → Prop
  | _, [] => True
  | s, mv :: moves => ∀ s', snakeMove mv.ticks mv.d s = some s' → P s' ∧ AfterEach P s' moves

/-- Before every move that is made. -/
def BeforeEach (Q : State → Move → Prop) : State → List Move → Prop
  | _, [] => True
  | s, mv :: moves => ∀ s', snakeMove mv.ticks mv.d s = some s' → Q s mv ∧ BeforeEach Q s' moves

/-! ## Food and directions -/

section Cells

variable {map : Map} {d pred : Direct} {idx i n : Nat}

theorem addFoodFrom_block (map : Map) (random idx i n c : Nat) :
    (addFoodFrom map random idx i n).2 c = .block ↔ map c = .block := by
  induction n generalizing idx i with
  | zero => exact Iff.rfl
  | succ n ih =>
      rw [addFoodFrom]
      split_ifs with hspace hhere
      · by_cases hc : c = i
        · subst hc
          have hfood : Function.update map c Status.food c = .food := Function.update_self _ _ _
          exact iff_of_false (fun h => nomatch hfood.symm.trans h) fun h => nomatch hspace.symm.trans h
        · exact Iff.of_eq (congrArg (· = _) (Function.update_of_ne hc _ _))
      · exact ih (idx + 1) (i + 1)
      · exact ih idx (i + 1)

/-- Food is put where there is space. -/
theorem addFood_block (ticks : Nat) (map : Map) (c : Nat) : (addFood ticks map).2 c = .block ↔ map c = .block := by
  by_cases hcnt : getcnt map .space = 0
  · rw [addFood, if_pos hcnt]
  · rw [addFood, if_neg hcnt]
    exact addFoodFrom_block map _ 0 0 400 c

theorem turn_lt (hidx : idx < 400) (d : Direct) : turn idx d < 400 := by
  cases d <;> simp only [turn] <;> omega

theorem turn_ne (hd : d ≠ .quit) : turn idx d ≠ idx := by
  cases d with
  | quit => exact absurd rfl hd
  | left => simp only [turn]; omega
  | down => simp only [turn]; omega
  | up => simp only [turn]; omega
  | right => simp only [turn]; omega

theorem neighbours_turn (hidx : idx < 400) (hd : d ≠ .quit) : Neighbours (turn idx d) idx := by
  unfold Neighbours
  cases d with
  | quit => exact absurd rfl hd
  | left => simp only [turn]; omega
  | down => simp only [turn]; omega
  | up => simp only [turn]; omega
  | right => simp only [turn]; omega

theorem steer_ne_quit (hd : d ≠ .quit) (hpred : pred ≠ .quit) : steer d pred ≠ .quit := by
  unfold steer
  split
  · exact hpred
  · exact hd

/-- The loop over the nodes, read at one of them. -/
theorem getElem?_shiftFrom {sites : List Nat} {k : Nat} (hk : k < sites.length) (j : Nat) :
    (shiftFrom sites k)[j]? = if 0 < j ∧ j ≤ k then sites[j - 1]? else sites[j]? := by
  induction k generalizing sites with
  | zero => rw [if_neg (by omega)]; rfl
  | succ k ih =>
      rw [shiftFrom, ih (by rw [List.length_set]; omega)]
      by_cases hj : 0 < j ∧ j ≤ k
      · rw [if_pos hj, if_pos (by omega), List.getElem?_set_ne (by omega)]
      · rw [if_neg hj]
        by_cases hlast : j = k + 1
        · rw [if_pos (by omega), hlast, List.getElem?_set_self hk, Nat.add_sub_cancel,
            List.getD_eq_getElem?_getD, List.getElem?_eq_getElem (by omega), Option.getD_some]
        · rw [if_neg (by omega), List.getElem?_set_ne (by omega)]

theorem shiftFrom_cons (a : Nat) (as : List Nat) :
    shiftFrom (a :: as) as.length = a :: (a :: as).dropLast := by
  refine List.ext_getElem? fun j => ?_
  rw [getElem?_shiftFrom (by simp)]
  cases j with
  | zero => rw [if_neg (by omega)]; rfl
  | succ j =>
      rw [Nat.add_sub_cancel, List.getElem?_cons_succ, List.getElem?_cons_succ, List.getElem?_dropLast,
        List.length_cons, Nat.add_sub_cancel]
      by_cases hj : j < as.length
      · rw [if_pos (by omega), if_pos hj]
      · rw [if_neg (by omega), if_neg hj, List.getElem?_eq_none (by omega)]

end Cells

/-! ## One move -/

section Move

variable {s s' : State} {mv : Move} {ticks a : Nat} {as : List Nat}

/-- A move that is made ends in a state of one of two kinds. -/
theorem snakeMove_cases {d : Direct} (hsites : s.sites = a :: as) (h : snakeMove ticks d s = some s') :
    ∃ tail, (a :: as).getLast? = some tail ∧
      Function.update s.map tail .space (turn a (steer d s.pred)) ≠ .block ∧
      (Function.update s.map tail .space (turn a (steer d s.pred)) = .food ∧
          s' = ⟨(addFood ticks (Function.update (Function.update (Function.update s.map tail .space)
              (turn a (steer d s.pred)) .block) (turn (turn a (steer d s.pred)) (steer d s.pred)) .block)).2,
            turn (turn a (steer d s.pred)) (steer d s.pred) :: turn a (steer d s.pred) :: (a :: as).dropLast,
            steer d s.pred, s.score + 1⟩ ∨
        Function.update s.map tail .space (turn a (steer d s.pred)) ≠ .food ∧
          s' = ⟨Function.update (Function.update s.map tail .space) (turn a (steer d s.pred)) .block,
            turn a (steer d s.pred) :: (a :: as).dropLast, steer d s.pred, s.score⟩) := by
  have htail : (a :: as).getLast? = some ((a :: as).getLast (List.cons_ne_nil a as)) :=
    List.getLast?_eq_some_getLast _
  have hshift : shiftFrom (a :: as) ((a :: as).length - 1) = a :: (a :: as).dropLast := shiftFrom_cons a as
  refine ⟨_, htail, ?_⟩
  rw [snakeMove, hsites, htail, hshift] at h
  simp only [Option.bind_eq_bind, Option.bind_some, List.head?_cons, List.set_cons_zero] at h
  split_ifs at h with hblock hfood
  · exact ⟨hblock, .inl ⟨hfood, (Option.some.inj h).symm⟩⟩
  · exact ⟨hblock, .inr ⟨hfood, (Option.some.inj h).symm⟩⟩

/-- The cells of the snake when the tail is gone. -/
theorem Agrees.cleared (hs : Agrees s) (hsites : s.sites = a :: as) {tail : Nat}
    (htail : (a :: as).getLast? = some tail) {c : Nat} (hc : c < 400) :
    Function.update s.map tail .space c = .block ↔ c ∈ (a :: as).dropLast := by
  have hsplit := List.dropLast_append_getLast? tail htail
  have hnodup := hs.nodup
  rw [hsites, ← hsplit, List.nodup_append] at hnodup
  have hblock := hs.block c hc
  rw [hsites, ← hsplit, List.mem_append, List.mem_singleton] at hblock
  -- the tail is on the snake once, so it is not on what is left of it
  by_cases hct : c = tail
  · subst hct
    rw [Function.update_self]
    exact iff_of_false nofun fun hmem => hnodup.2.2 c hmem c List.mem_cons_self rfl
  · rw [Function.update_of_ne hct, hblock]
    exact or_iff_left hct

/-- The cells that are blocked when a list of them has been. -/
theorem block_update {map : Map} {xs : List Nat} {c x : Nat} (hmap : map c = .block ↔ c ∈ xs) :
    Function.update map x .block c = .block ↔ c ∈ x :: xs := by
  rw [List.mem_cons]
  by_cases hc : c = x
  · subst hc
    rw [Function.update_self]
    exact iff_of_true rfl (.inl rfl)
  · rw [Function.update_of_ne hc, hmap]
    exact (or_iff_right hc).symm

/-- The links that are left when the tail is gone and a neighbour of the head has come. -/
theorem Agrees.neighbours_shift (hs : Agrees s) (hsites : s.sites = a :: as) {b : Nat} (hb : Neighbours b a) :
    (b :: (a :: as).dropLast).IsChain Neighbours := by
  have hchain := hs.neighbours
  rw [hsites] at hchain
  cases as with
  | nil => exact .singleton b
  | cons a' as =>
      have hinit := hchain.prefix (List.dropLast_prefix (a :: a' :: as))
      rw [List.dropLast_cons_of_ne_nil (List.cons_ne_nil a' as)] at hinit ⊢
      exact List.isChain_cons_cons.2 ⟨hb, hinit⟩

/-- There is food ahead of the head before the tail goes exactly when there is after. -/
theorem Agrees.food_ahead (hs : Agrees s) (hsites : s.sites = a :: as) {tail c : Nat}
    (htail : (a :: as).getLast? = some tail) :
    Function.update s.map tail .space c = .food ↔ s.map c = .food := by
  by_cases hct : c = tail
  · subst hct
    have hmem : c ∈ s.sites := hsites ▸ List.mem_of_getLast? htail
    rw [Function.update_self, (hs.block c (hs.inside c hmem)).2 hmem]
    exact iff_of_false nofun nofun
  · rw [Function.update_of_ne hct]

/-- A move keeps snake and map in agreement exactly when the new head has room. -/
theorem Agrees.move_iff (hs : Agrees s) (hpred : s.pred ≠ .quit) (hmove : snakeMove mv.ticks mv.d s = some s') :
    (Agrees s' ↔ Clear s mv) ∧ s'.pred ≠ .quit := by
  cases hsites : s.sites with
  | nil =>
      rw [snakeMove, hsites] at hmove
      exact nomatch hmove
  | cons a as =>
      have hd : steer mv.d s.pred ≠ .quit := steer_ne_quit mv.notQuit hpred
      obtain ⟨tail, htail, hfree, hcases⟩ := snakeMove_cases hsites hmove
      have ha : a < 400 := hs.inside a (hsites ▸ List.mem_cons_self)
      have hbeg := turn_lt ha (steer mv.d s.pred)
      have hlinks := hs.neighbours_shift hsites (neighbours_turn ha hd)
      have hnew := turn_lt hbeg (steer mv.d s.pred)
      have hnodup : ((a :: as).dropLast).Nodup := (hsites ▸ hs.nodup).sublist (List.dropLast_sublist _)
      have hinside : ∀ i ∈ (a :: as).dropLast, i < 400 := fun i hi =>
        hs.inside i (hsites ▸ List.dropLast_subset _ hi)
      have hnot : turn a (steer mv.d s.pred) ∉ (a :: as).dropLast := fun hmem =>
        hfree ((hs.cleared hsites htail hbeg).2 hmem)
      have hclear : Clear s mv ↔ (s.map (turn a (steer mv.d s.pred)) = .food →
          turn (turn a (steer mv.d s.pred)) (steer mv.d s.pred) ∉ (a :: as).dropLast) := by
        rw [Clear, hsites, List.head?_cons]
        exact ⟨fun h => h a rfl, fun h b hb => Option.mem_some.1 hb ▸ h⟩
      rw [hclear]
      -- food adds a second cell ahead of the first, and only that one can be on the snake
      obtain ⟨hfood, rfl⟩ | ⟨hfood, rfl⟩ := hcases
      · refine ⟨⟨fun hs' _ hmem => ?_, fun hroom => ⟨?_, ?_, ?_, fun c hc => ?_⟩⟩, hd⟩
        · exact (List.nodup_cons.1 hs'.nodup).1 (List.mem_cons_of_mem _ hmem)
        · have hroom' := hroom ((hs.food_ahead hsites htail).1 hfood)
          refine List.nodup_cons.2 ⟨fun hmem => ?_, List.nodup_cons.2 ⟨hnot, hnodup⟩⟩
          obtain heq | hmem := List.mem_cons.1 hmem
          · exact turn_ne hd heq
          · exact hroom' hmem
        · intro i hi
          obtain rfl | hi := List.mem_cons.1 hi
          · exact hnew
          · obtain rfl | hi := List.mem_cons.1 hi
            · exact hbeg
            · exact hinside i hi
        · exact List.isChain_cons_cons.2 ⟨neighbours_turn hbeg hd, hlinks⟩
        · exact (addFood_block _ _ c).trans (block_update (block_update (hs.cleared hsites htail hc)))
      · refine ⟨iff_of_true ⟨List.nodup_cons.2 ⟨hnot, hnodup⟩, fun i hi => ?_, hlinks, fun c hc => ?_⟩
          fun hahead => absurd ((hs.food_ahead hsites htail).2 hahead) hfood, hd⟩
        · obtain rfl | hi := List.mem_cons.1 hi
          · exact hbeg
          · exact hinside i hi
        · exact block_update (hs.cleared hsites htail hc)

end Move

/-! ## The game -/

section Game

variable {s : State} {moves : List Move}

/-- Snake and map agree after every move exactly when every move had room for a new head. -/
theorem Agrees.moves_iff (hs : Agrees s) (hpred : s.pred ≠ .quit) :
    AfterEach Agrees s moves ↔ BeforeEach Clear s moves := by
  induction moves generalizing s with
  | nil => exact Iff.rfl
  | cons mv moves ih =>
      refine forall_congr' fun s' => forall_congr' fun hmove => ?_
      obtain ⟨hiff, hpred'⟩ := hs.move_iff hpred hmove
      constructor
      · exact fun ⟨hs', hrest⟩ => ⟨hiff.1 hs', (ih hs' hpred').1 hrest⟩
      · exact fun ⟨hclear, hrest⟩ => ⟨hiff.2 hclear, (ih (hiff.2 hclear) hpred').2 hrest⟩

/-- On a map of spaces `add_food` takes the cell it has drawn. -/
theorem addFoodFrom_fst {map : Map} {random idx i n : Nat} (hspace : ∀ j, i ≤ j → j < i + n → map j = .space)
    (hidx : idx ≤ random) (hlt : random < idx + n) : (addFoodFrom map random idx i n).1 = i + (random - idx) := by
  induction n generalizing idx i with
  | zero => exact absurd hlt (Nat.not_lt.2 hidx)
  | succ n ih =>
      rw [addFoodFrom, if_pos (hspace i le_rfl (by omega))]
      by_cases hhere : idx = random
      · rw [if_pos hhere, hhere, Nat.sub_self, Nat.add_zero]
      · rw [if_neg hhere, ih (fun j hj hjn => hspace j (by omega) (by omega)) (by omega) (by omega)]
        omega

theorem foldl_count {p : Nat → Prop} [DecidablePred p] {l : List Nat} (hl : ∀ x ∈ l, p x) (cnt : Nat) :
    l.foldl (fun cnt x => if p x then cnt + 1 else cnt) cnt = cnt + l.length := by
  induction l generalizing cnt with
  | nil => rfl
  | cons x l ih =>
      rw [List.foldl_cons, if_pos (hl x List.mem_cons_self), ih fun y hy => hl y (List.mem_cons_of_mem _ hy),
        List.length_cons]
      omega

theorem getcnt_all {map : Map} {val : Status} (hmap : ∀ c < 400, map c = val) : getcnt map val = 400 := by
  have hrows : ∀ (l : List Nat) (cnt : Nat), (∀ i ∈ l, i < 20) →
      l.foldl (fun cnt i => (List.range 20).foldl (fun cnt j => if map (i * 20 + j) = val then cnt + 1 else cnt)
        cnt) cnt = cnt + 20 * l.length := by
    intro l
    induction l with
    | nil => exact fun cnt _ => rfl
    | cons i l ih =>
        intro cnt hl
        have hi := hl i List.mem_cons_self
        have hrow : ∀ j ∈ List.range 20, map (i * 20 + j) = val := fun j hj =>
          hmap _ (by have := List.mem_range.1 hj; omega)
        rw [List.foldl_cons, foldl_count hrow, ih _ fun x hx => hl x (List.mem_cons_of_mem _ hx), List.length_range,
          List.length_cons]
        omega
  rw [getcnt, hrows _ _ fun i hi => List.mem_range.1 hi, List.length_range]

theorem Neighbours.symm {a b : Nat} (h : Neighbours a b) : Neighbours b a := by
  unfold Neighbours at h ⊢
  omega

/-- The snake of two nodes that the game begins with. -/
theorem start_agrees (ticks ticks' : Nat) (behind : Map) :
    ∃ s, start ticks ticks' behind = some s ∧ Agrees s ∧ s.pred = .right := by
  have hmap : ∀ c < 400, (fun i => if i < 400 then Status.space else behind i) c = .space := fun c hc => if_pos hc
  generalize hempty : (fun i => if i < 400 then Status.space else behind i) = map at hmap
  have hcnt := getcnt_all hmap
  have hne : getcnt map .space ≠ 0 := by rw [hcnt]; decide
  have hrandom : rand (ticks % 2 ^ 32) % getcnt map .space < 400 := by
    rw [hcnt]
    exact Nat.mod_lt _ (by decide)
  generalize hbeg : rand (ticks % 2 ^ 32) % getcnt map .space = beg at hrandom
  have hsite : (addFood ticks map).1 = some beg := by
    rw [addFood, if_neg hne, hbeg]
    refine congrArg some ((addFoodFrom_fst (fun j _ hj => hmap j (by omega)) (Nat.zero_le _) (by omega)).trans ?_)
    omega
  have hrun : snakeInit ticks behind = some ⟨Function.update (Function.update (addFood ticks map).2 beg .block)
      (turn beg .right) .block, [beg, turn beg .right], .right, 0⟩ := by
    rw [snakeInit, hempty]
    simp only [hsite]
    rfl
  have hbegNe : beg ≠ turn beg .right := (turn_ne (by decide)).symm
  refine ⟨_, by rw [start, hrun]; rfl, ⟨?_, ?_, ?_, fun c hc => ?_⟩, rfl⟩
  · exact List.nodup_cons.2 ⟨fun hmem => hbegNe (List.mem_singleton.1 hmem), List.nodup_singleton _⟩
  · intro i hi
    obtain rfl | hi := List.mem_cons.1 hi
    · exact hrandom
    · rw [List.mem_singleton.1 hi]
      exact turn_lt hrandom .right
  · exact List.isChain_cons_cons.2 ⟨(neighbours_turn hrandom (by decide)).symm, .singleton _⟩
  · have hnone : (addFood ticks map).2 c = .block ↔ c ∈ ([] : List Nat) := by
      rw [addFood_block, hmap c hc]
      exact iff_of_false nofun List.not_mem_nil
    refine (addFood_block _ _ c).trans ((block_update (block_update hnone)).trans ?_)
    exact (List.Perm.swap _ _ _).mem_iff

/-- From the beginning of a game on, snake and map agree after every move that returns 0, exactly when no move eats
    with one of the snake's cells behind the food. -/
theorem map_agrees_iff (ticks ticks' : Nat) (behind : Map) (moves : List Move) :
    ∃ s, start ticks ticks' behind = some s ∧ (AfterEach Agrees s moves ↔ BeforeEach Clear s moves) := by
  obtain ⟨s, hstart, hs, hpred⟩ := start_agrees ticks ticks' behind
  exact ⟨s, hstart, hs.moves_iff (by rw [hpred]; decide)⟩

/-- Four meals in a row, and one next to the snake itself. -/
def collision : List Move :=
  [⟨309, .down, by decide⟩, ⟨128, .down, by decide⟩, ⟨173, .down, by decide⟩, ⟨272, .right, by decide⟩,
    ⟨0, .up, by decide⟩, ⟨0, .left, by decide⟩]

/-- The sites after moves that all return 0. -/
def sitesAfter : State → List Move → Option (List Nat)
  | s, [] => some s.sites
  | s, mv :: moves => (snakeMove mv.ticks mv.d s).bind fun s => sitesAfter s moves

theorem AfterEach.nodup {sites : List Nat} (h : AfterEach Agrees s moves) (hs : Agrees s)
    (hsites : sitesAfter s moves = some sites) : sites.Nodup := by
  induction moves generalizing s with
  | nil => exact Option.some.inj hsites ▸ hs.nodup
  | cons mv moves ih =>
      obtain ⟨s', hmove, hrest⟩ := Option.bind_eq_some_iff.1 hsites
      exact ih (h s' hmove).2 (h s' hmove).1 hrest

theorem collision_sites : (start 0 214 fun _ => .space).bind (sitesAfter · collision) =
    some [100, 101, 102, 122, 121, 120, 100] := by
  decide +kernel

/-- The last meal puts the new head on the snake. -/
theorem not_map_agrees_collision :
    ∃ s, start 0 214 (fun _ => .space) = some s ∧ ¬ AfterEach Agrees s collision := by
  obtain ⟨s, hstart, hs, -⟩ := start_agrees 0 214 fun _ => .space
  refine ⟨s, hstart, fun hafter => ?_⟩
  have hsites := collision_sites
  rw [hstart, Option.bind_some] at hsites
  exact absurd (hafter.nodup hs hsites) (by decide)

end Game

end Snake

end RecoverOS
