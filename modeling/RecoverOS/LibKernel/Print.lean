import RecoverOS.Base.Bytes
import Mathlib.Data.List.Induction
import Mathlib.Logic.Function.Basic

set_option autoImplicit false

/-! # The text screen (`lib/kernel/print.c`)

`put_char` and `cls_screen` on the cells from `D_BASE_ADDR` on and on the cursor, which the CRT controller
keeps in two registers of a byte. The cells that `put_char` stores to are recorded. -/

namespace RecoverOS

/-- The cells of the screen, by their index from `D_BASE_ADDR` on, the two registers of the cursor, the
    variables of `print.c`, and the cells that `put_char` has stored to. -/
structure Screen where
  cells : Int → BitVec 16
  cur_high : BitVec 8
  cur_low : BitVec 8
  d_property : BitVec 8
  change_property : Bool
  stores : List Nat

namespace Screen

variable (s : Screen)

/-! ## The code -/

/-- `get_cur`. -/
def getCur : Nat := (s.cur_high.toNat <<< 8 + s.cur_low.toNat) % 2 ^ 16

/-- The `memcpy` of `set_cur`: 26 rows go up by one. -/
def scroll : Screen :=
  { s with cells := fun i => if -80 ≤ i ∧ i < 80 * 25 then s.cells (i + 80) else s.cells i }

/-- The end of `set_cur`. -/
def writeCur (cur : Nat) : Screen :=
  { s with cur_low := BitVec.ofNat 8 cur, cur_high := BitVec.ofNat 8 (cur >>> 8) }

/-- `set_cur`. -/
def setCur (cur : Nat) : Screen :=
  if cur ≥ 80 * 25 then s.scroll.writeCur (cur - 80) else s.writeCur cur

/-- The store of a cell by `put_char`. -/
def store (cur : Nat) (c : BitVec 16) : Screen :=
  { s with cells := Function.update s.cells cur c, stores := s.stores ++ [cur] }

/-- `c + (d_property << 8)`. -/
def cell (c : Byte) : BitVec 16 := c.signExtend 16 + s.d_property.setWidth 16 <<< 8

/-- The loop for a tab, which has no more than nine turns. -/
def tabLoop (new_cur : Nat) : Nat → Nat → Screen → Screen
  | 0, _, s => s
  | n + 1, cur, s =>
      if cur ≤ new_cur then tabLoop new_cur n ((cur + 1) % 2 ^ 16) (s.store cur (s.cell 32)) else s

/-- `put_char`. -/
def putChar (c : Byte) : Screen :=
  if s.change_property = true then { s with d_property := c, change_property := false }
  else
    let cur := s.getCur
    if c = 0x1b then { s with change_property := true }
    else if c = 13 then s.setCur (cur / 80 * 80)
    else if c = 10 then s.setCur ((cur / 80 + 1) * 80 % 2 ^ 16)
    else if c = 8 then
      let cur := (cur + 2 ^ 16 - 1) % 2 ^ 16
      (s.setCur cur).store cur (s.cell 32)
    else if c = 9 then
      let new_cur := (cur / 8 + 1) * 8 % 2 ^ 16
      (tabLoop new_cur 9 cur s).setCur new_cur
    else (s.store cur (s.cell c)).setCur ((cur + 1) % 2 ^ 16)

/-- `cls_screen`. -/
def clsScreen : Screen :=
  setCur { s with cells := fun i => if 0 ≤ i ∧ i < 80 * 25 then s.cell 32 else s.cells i } 0

/-! ## Runs -/

/-- A call. -/
inductive Call where
  | putChar (c : Byte)
  | clsScreen

/-- What a call leaves. -/
def call : Call → Screen
  | .putChar c => s.putChar c
  | .clsScreen => s.clsScreen

/-- A cleared screen, with no store recorded. -/
def cleared : Screen := clsScreen { s with stores := [] }

/-- What a sequence of calls leaves. -/
def run (calls : List Call) : Screen := calls.foldl call s

/-- The cursor is on the screen, and nothing was stored outside the rows that `set_cur` scrolls. -/
structure OnScreen : Prop where
  cursor : s.getCur < 80 * 25
  stores : ∀ i ∈ s.stores, i < 80 * 26

/-- The call is not that of a backspace, outside an escape sequence, with the cursor in the first cell. -/
def Allowed : Call → Prop
  | .putChar c => c = 8 → s.change_property = true ∨ s.getCur ≠ 0
  | .clsScreen => True

/-! ## The cursor -/

theorem getCur_writeCur {cur : Nat} (h : cur < 2 ^ 16) : (s.writeCur cur).getCur = cur := by
  show ((BitVec.ofNat 8 (cur >>> 8)).toNat <<< 8 + (BitVec.ofNat 8 cur).toNat) % 2 ^ 16 = cur
  rw [BitVec.toNat_ofNat, BitVec.toNat_ofNat, Nat.shiftLeft_eq, Nat.shiftRight_eq_div_pow]
  omega

theorem getCur_setCur {cur : Nat} (h : cur < 2 ^ 16) :
    (s.setCur cur).getCur = if cur ≥ 80 * 25 then cur - 80 else cur := by
  unfold setCur
  split_ifs
  · exact getCur_writeCur _ (by omega)
  · exact getCur_writeCur _ h

@[simp] theorem stores_setCur (cur : Nat) : (s.setCur cur).stores = s.stores := by
  unfold setCur
  split_ifs
  · rfl
  · rfl

@[simp] theorem getCur_store (cur : Nat) (c : BitVec 16) : (s.store cur c).getCur = s.getCur := rfl

@[simp] theorem stores_store (cur : Nat) (c : BitVec 16) : (s.store cur c).stores = s.stores ++ [cur] := rfl

variable {s}

theorem OnScreen.setCur (h : s.OnScreen) {cur : Nat} (hcur : cur ≤ 80 * 25) : (s.setCur cur).OnScreen := by
  refine ⟨?_, by rw [stores_setCur]; exact h.stores⟩
  rw [getCur_setCur s (by omega)]
  split_ifs
  · omega
  · omega

theorem OnScreen.store (h : s.OnScreen) {cur : Nat} (hcur : cur < 80 * 26) (c : BitVec 16) :
    (s.store cur c).OnScreen := by
  refine ⟨h.cursor, fun i hi => ?_⟩
  rw [stores_store] at hi
  rcases List.mem_append.1 hi with hi | hi
  · exact h.stores i hi
  · rw [List.mem_singleton.1 hi]
    exact hcur

theorem OnScreen.tabLoop {new_cur : Nat} (hnew : new_cur ≤ 80 * 25) (n cur : Nat) (h : s.OnScreen) :
    (tabLoop new_cur n cur s).OnScreen := by
  induction n generalizing cur s with
  | zero => exact h
  | succ n ih =>
      rw [Screen.tabLoop]
      split_ifs with hle
      · exact ih _ (h.store (by omega) _)
      · exact h

/-! ## Calls -/

/-- An allowed call keeps the cursor on the screen. -/
theorem OnScreen.call (h : s.OnScreen) {c : Call} (hc : s.Allowed c) : (s.call c).OnScreen := by
  have hcur := h.cursor
  cases c with
  | clsScreen =>
      refine OnScreen.setCur ?_ (Nat.zero_le _)
      exact ⟨h.cursor, h.stores⟩
  | putChar c =>
      show (s.putChar c).OnScreen
      unfold putChar
      split_ifs with hchange hesc hcr hlf hbs htab
      · exact ⟨h.cursor, h.stores⟩
      · exact ⟨h.cursor, h.stores⟩
      · exact h.setCur (by omega)
      · exact h.setCur (Nat.le_trans (Nat.mod_le _ _) (by omega))
      · have hpos : s.getCur ≠ 0 := (hc hbs).resolve_left hchange
        exact (h.setCur (by omega)).store (by omega) _
      · exact (h.tabLoop (by omega) 9 _).setCur (by omega)
      · exact (h.store (by omega) _).setCur (by omega)

/-- A backspace in the first cell takes the cursor off the screen. -/
theorem not_onScreen_call {c : Call} (hc : ¬ s.Allowed c) : ¬ (s.call c).OnScreen := by
  cases c with
  | clsScreen => exact absurd trivial hc
  | putChar c =>
      obtain ⟨rfl, hnot⟩ := Classical.not_imp.1 hc
      rw [not_or, not_not] at hnot
      have hcall : s.call (.putChar 8) = (s.setCur 65535).store 65535 (s.cell 32) := by
        show s.putChar 8 = _
        unfold putChar
        rw [if_neg hnot.1, hnot.2]
        rfl
      intro h
      have hin := h.stores 65535 (by rw [hcall, stores_store]; simp)
      omega

theorem onScreen_cleared (s : Screen) : s.cleared.OnScreen := by
  refine ⟨?_, fun i hi => ?_⟩
  · unfold cleared clsScreen
    rw [getCur_setCur _ (by decide)]
    decide
  · unfold cleared clsScreen at hi
    rw [stores_setCur] at hi
    exact absurd hi List.not_mem_nil

/-! ## Sequences of calls -/

theorem run_concat (pre : List Call) (c : Call) : s.run (pre ++ [c]) = (s.run pre).call c := by
  unfold run
  rw [List.foldl_append, List.foldl_cons, List.foldl_nil]

/-- Every call of a sequence, from `s` on, is allowed where it is made. -/
def AllAllowed (s : Screen) (calls : List Call) : Prop :=
  ∀ pre c, pre ++ [c] <+: calls → (s.run pre).Allowed c

/-- After allowed calls the cursor is on the screen. -/
theorem OnScreen.run (h : s.OnScreen) (calls : List Call) (hall : s.AllAllowed calls) :
    (s.run calls).OnScreen := by
  induction calls using List.reverseRecOn with
  | nil => exact h
  | append_singleton calls c ih =>
      rw [run_concat]
      refine (ih fun pre d hpre => hall pre d (hpre.trans (List.prefix_append calls [c]))).call ?_
      exact hall calls c List.prefix_rfl

/-- From a cleared screen on, the cursor is on the screen after every call and `put_char` stores to the rows
    that `set_cur` scrolls, exactly when every call is allowed. -/
theorem onScreen_iff (s : Screen) (calls : List Call) :
    (∀ pre, pre <+: calls → (s.cleared.run pre).OnScreen) ↔ s.cleared.AllAllowed calls := by
  constructor
  · intro h pre c hpre
    by_contra hnot
    have hlater := h (pre ++ [c]) hpre
    rw [run_concat] at hlater
    exact not_onScreen_call hnot hlater
  · intro hall pre hpre
    exact (onScreen_cleared s).run pre fun q c hq => hall q c (hq.trans hpre)

/-- A backspace right after the screen was cleared. -/
theorem not_onScreen_backspace :
    ¬ ∀ pre, pre <+: [Call.putChar 8] →
      ((Screen.mk (fun _ => 0) 0 0 7 false []).cleared.run pre).OnScreen := by
  intro h
  have hall := h [.putChar 8] List.prefix_rfl
  have hnot : ¬ (Screen.mk (fun _ => 0) 0 0 7 false []).cleared.Allowed (.putChar 8) := by
    intro hallowed
    rcases hallowed rfl with hchange | hcur
    · exact absurd hchange (by decide)
    · exact hcur rfl
  exact not_onScreen_call hnot hall

end Screen

end RecoverOS
