import Mathlib.Data.List.GetD
import RecoverOS.LibKernel.Print

set_option autoImplicit false

/-! # What the screen shows (`lib/kernel/print.c`)

Everything that is printed stands on a roll of paper of which 25 rows are in sight. `set_cur` moves the rows
of the screen; on the roll it is the sight that moves, and what was printed stays where it is. The row that
comes up is a copy of the one below the screen, which no character is printed to. -/

namespace RecoverOS

/-- The rows that came up so far have the cells `80 * row + column`; `feed` is the row that comes up next, and
    `top` the first one in sight. -/
structure Roll where
  cells : Nat → BitVec 16
  feed : Nat → BitVec 16
  top : Nat
  cur : Nat
  d_property : BitVec 8
  change_property : Bool

namespace Roll

variable (r : Roll)

/-- A character with its property. -/
def cell (c : Byte) : BitVec 16 := c.signExtend 16 + r.d_property.setWidth 16 <<< 8

/-- The first cell behind the rows in sight. -/
def last : Nat := 80 * (r.top + 25)

/-- A cell is printed. -/
def store (p : Nat) (c : BitVec 16) : Roll :=
  if p < r.last then { r with cells := Function.update r.cells p c }
  else { r with feed := Function.update r.feed (p - r.last) c }

/-- The cursor moves, and a row comes up if it left the last one in sight. -/
def moveTo (p : Nat) : Roll :=
  if p < r.last then { r with cur := p }
  else
    { r with
      cells := fun q => if q / 80 = r.top + 25 then r.feed (q % 80) else r.cells q
      top := r.top + 1
      cur := p }

/-- `n` blanks from `p` on. -/
def blanks : Nat → Nat → Roll → Roll
  | 0, _, r => r
  | n + 1, p, r => blanks n (p + 1) (r.store p (r.cell 32))

/-- A character is printed. The blanks for a tab go up to the cell of the next character. -/
def putChar (c : Byte) : Roll :=
  if r.change_property = true then { r with d_property := c, change_property := false }
  else if c = 0x1b then { r with change_property := true }
  else if c = 13 then r.moveTo (r.cur / 80 * 80)
  else if c = 10 then r.moveTo ((r.cur / 80 + 1) * 80)
  else if c = 8 then (r.moveTo (r.cur - 1)).store (r.cur - 1) (r.cell 32)
  else if c = 9 then
    (blanks ((r.cur / 8 + 1) * 8 - r.cur + 1) r.cur r).moveTo ((r.cur / 8 + 1) * 8)
  else (r.store r.cur (r.cell c)).moveTo (r.cur + 1)

/-- The rows in sight are cleared. -/
def clear : Roll :=
  { r with
    cells := fun q => if 80 * r.top ≤ q ∧ q < r.last then r.cell 32 else r.cells q
    cur := 80 * r.top }

/-- A call. -/
def call : Screen.Call → Roll
  | .putChar c => r.putChar c
  | .clsScreen => r.clear

/-- A sequence of calls. -/
def run (calls : List Screen.Call) : Roll := calls.foldl call r

@[simp] theorem top_store (p : Nat) (c : BitVec 16) : (r.store p c).top = r.top := by
  unfold store
  split
  · rfl
  · rfl

@[simp] theorem cell_store (p : Nat) (c : BitVec 16) (b : Byte) : (r.store p c).cell b = r.cell b := by
  unfold store
  split
  · rfl
  · rfl

end Roll

/-- The screen is the part of the roll that is in sight. -/
structure Screen.Shows (s : Screen) (r : Roll) : Prop where
  cur : r.cur = 80 * r.top + s.getCur
  cursor : s.getCur < 2000
  cells : ∀ i < 2000, s.cells (i : Nat) = r.cells (80 * r.top + i)
  feed : ∀ i < 80, s.cells (2000 + i : Nat) = r.feed i
  d_property : s.d_property = r.d_property
  change_property : s.change_property = r.change_property

namespace Screen

variable {s : Screen} {r : Roll} {n k cur : Nat}

/-! ## One store, one move -/

theorem Shows.cell (h : s.Shows r) (c : Byte) : s.cell c = r.cell c := by
  unfold Screen.cell Roll.cell
  rw [h.d_property]

theorem cells_scroll (s : Screen) (n : Nat) (i : Int) : (s.scroll.writeCur n).cells i =
    if -80 ≤ i ∧ i < 80 * 25 then s.cells (i + 80) else s.cells i := rfl

theorem Shows.store (h : s.Shows r) (c : BitVec 16) :
    (s.store k c).Shows (r.store (80 * r.top + k) c) := by
  have hother : ∀ i : Nat, i ≠ k → (s.store k c).cells (i : Nat) = s.cells (i : Nat) := fun i hi =>
    Function.update_of_ne (by omega) _ _
  have hself : (s.store k c).cells (k : Nat) = c := Function.update_self _ _ _
  by_cases hin : 80 * r.top + k < r.last
  · have hstore : r.store (80 * r.top + k) c =
        { r with cells := Function.update r.cells (80 * r.top + k) c } := if_pos hin
    rw [hstore]
    unfold Roll.last at hin
    refine ⟨h.cur, h.cursor, fun i hi => ?_, fun i hi => ?_, h.d_property, h.change_property⟩
    · by_cases hik : i = k
      · rw [hik, hself]
        exact (Function.update_self (80 * r.top + k) c r.cells).symm
      · rw [hother i hik, h.cells i hi]
        have hne : 80 * r.top + i ≠ 80 * r.top + k := by omega
        exact (Function.update_of_ne hne c r.cells).symm
    · rw [hother _ (by omega)]
      exact h.feed i hi
  · have hstore : r.store (80 * r.top + k) c =
        { r with feed := Function.update r.feed (80 * r.top + k - r.last) c } := if_neg hin
    rw [hstore]
    unfold Roll.last at hin ⊢
    refine ⟨h.cur, h.cursor, fun i hi => ?_, fun i hi => ?_, h.d_property, h.change_property⟩
    · rw [hother i (by omega)]
      exact h.cells i hi
    · by_cases hik : 2000 + i = k
      · rw [hik, hself, ← hik, show 80 * r.top + (2000 + i) - 80 * (r.top + 25) = i by omega]
        exact (Function.update_self i c r.feed).symm
      · have hne : i ≠ 80 * r.top + k - 80 * (r.top + 25) := by omega
        have hkept : Function.update r.feed (80 * r.top + k - 80 * (r.top + 25)) c i = r.feed i :=
          Function.update_of_ne hne _ _
        rw [hother _ hik]
        exact (h.feed i hi).trans hkept.symm

/-- When the cursor leaves the screen, the rows go up, and the one below the screen is copied. -/
theorem Shows.setCur (h : s.Shows r) (hcur : cur ≤ 2000) :
    (s.setCur cur).Shows (r.moveTo (80 * r.top + cur)) := by
  have hget := @getCur_setCur s cur (by omega)
  by_cases hin : cur < 2000
  · have hmove : r.moveTo (80 * r.top + cur) = { r with cur := 80 * r.top + cur } :=
      if_pos (by unfold Roll.last; omega)
    rw [if_neg (by omega)] at hget
    rw [hmove, Screen.setCur, if_neg (by omega)]
    rw [Screen.setCur, if_neg (by omega)] at hget
    exact ⟨by rw [hget], by rw [hget]; exact hin, h.cells, h.feed, h.d_property, h.change_property⟩
  · obtain rfl : cur = 2000 := by omega
    have hmove : r.moveTo (80 * r.top + 2000) =
        { r with
          cells := fun q => if q / 80 = r.top + 25 then r.feed (q % 80) else r.cells q
          top := r.top + 1
          cur := 80 * r.top + 2000 } := if_neg (by unfold Roll.last; omega)
    rw [if_pos (by decide)] at hget
    rw [hmove, Screen.setCur, if_pos (by decide)]
    rw [Screen.setCur, if_pos (by decide)] at hget
    refine ⟨?_, by rw [hget]; decide, fun i hi => ?_, fun i hi => ?_, h.d_property, h.change_property⟩
    · rw [hget]
      show 80 * r.top + 2000 = 80 * (r.top + 1) + (80 * 25 - 80)
      omega
    · rw [cells_scroll, if_pos (by omega)]
      dsimp only
      by_cases hlast : i < 1920
      · rw [if_neg (by omega), show 80 * (r.top + 1) + i = 80 * r.top + (i + 80) by omega,
          ← h.cells (i + 80) (by omega)]
        rfl
      · rw [if_pos (by omega), show (80 * (r.top + 1) + i) % 80 = i - 1920 by omega,
          ← h.feed (i - 1920) (by omega), show 2000 + (i - 1920) = i + 80 by omega]
        rfl
    · rw [cells_scroll, if_neg (by omega)]
      exact h.feed i hi

/-! ## One call -/

/-- The loop for a tab. -/
theorem Shows.tabLoop {new_cur : Nat} (hnew : new_cur ≤ 2000) (h : s.Shows r) (hn : new_cur + 1 - cur ≤ n) :
    (tabLoop new_cur n cur s).Shows (Roll.blanks (new_cur + 1 - cur) (80 * r.top + cur) r) := by
  induction n generalizing cur s r with
  | zero =>
      rw [Nat.le_zero.1 hn]
      exact h
  | succ n ih =>
      rw [Screen.tabLoop]
      by_cases hle : cur ≤ new_cur
      · have hstep := ih (s := s.store cur (s.cell 32)) (r := r.store (80 * r.top + cur) (r.cell 32))
          (h.cell 32 ▸ h.store _) (show new_cur + 1 - (cur + 1) ≤ n by omega)
        rw [if_pos hle, Nat.mod_eq_of_lt (by omega), show new_cur + 1 - cur = new_cur + 1 - (cur + 1) + 1 by omega]
        rw [Roll.top_store] at hstep
        exact hstep
      · rw [if_neg hle, show new_cur + 1 - cur = 0 by omega]
        exact h

theorem blanks_top (p : Nat) : (Roll.blanks n p r).top = r.top := by
  induction n generalizing p r with
  | zero => rfl
  | succ n ih => rw [Roll.blanks, ih, Roll.top_store]

/-- An allowed call keeps the screen in step with the roll. -/
theorem Shows.call (h : s.Shows r) {c : Call} (hc : s.Allowed c) : (s.call c).Shows (r.call c) := by
  have hcursor := h.cursor
  have hcur := h.cur
  cases c with
  | clsScreen =>
      show (s.clsScreen).Shows r.clear
      have hbase : Shows { s with cells := fun i => if 0 ≤ i ∧ i < 80 * 25 then s.cell 32 else s.cells i }
          { r with cells := fun q => if 80 * r.top ≤ q ∧ q < r.last then r.cell 32 else r.cells q } := by
        refine ⟨h.cur, h.cursor, fun i hi => ?_, fun i hi => ?_, h.d_property, h.change_property⟩
        · dsimp only
          rw [if_pos (by omega), if_pos (by unfold Roll.last; omega), h.cell]
        · dsimp only
          rw [if_neg (by omega)]
          exact h.feed i hi
      have hmove := hbase.setCur (Nat.zero_le 2000)
      rw [Roll.moveTo, if_pos (by unfold Roll.last; omega)] at hmove
      exact hmove
  | putChar c =>
      show (s.putChar c).Shows (r.putChar c)
      unfold putChar Roll.putChar
      rw [← h.change_property]
      dsimp only
      split_ifs with hchange hesc hcr hlf hbs htab
      · exact ⟨h.cur, h.cursor, h.cells, h.feed, rfl, rfl⟩
      · exact ⟨h.cur, h.cursor, h.cells, h.feed, h.d_property, rfl⟩
      · rw [show r.cur / 80 * 80 = 80 * r.top + s.getCur / 80 * 80 by omega]
        exact h.setCur (by omega)
      · rw [show (r.cur / 80 + 1) * 80 = 80 * r.top + (s.getCur / 80 + 1) * 80 by omega,
          Nat.mod_eq_of_lt (by omega)]
        exact h.setCur (by omega)
      · have hpos : s.getCur ≠ 0 := (hc hbs).resolve_left hchange
        have hmoved := h.setCur (show s.getCur - 1 ≤ 2000 by omega)
        have htop : (r.moveTo (80 * r.top + (s.getCur - 1))).top = r.top := by
          rw [Roll.moveTo, if_pos (by unfold Roll.last; omega)]
        have hstored := hmoved.store (k := s.getCur - 1) (s.cell 32)
        rw [htop] at hstored
        rw [show r.cur - 1 = 80 * r.top + (s.getCur - 1) by omega, ← h.cell,
          show (s.getCur + 2 ^ 16 - 1) % 2 ^ 16 = s.getCur - 1 by omega]
        exact hstored
      · have hnew : (s.getCur / 8 + 1) * 8 % 2 ^ 16 = (s.getCur / 8 + 1) * 8 := Nat.mod_eq_of_lt (by omega)
        have hloop := h.tabLoop (show (s.getCur / 8 + 1) * 8 ≤ 2000 by omega)
          (show (s.getCur / 8 + 1) * 8 + 1 - s.getCur ≤ 9 by omega)
        have hmoved := hloop.setCur (show (s.getCur / 8 + 1) * 8 ≤ 2000 by omega)
        rw [blanks_top] at hmoved
        rw [hnew, hcur, show ((80 * r.top + s.getCur) / 8 + 1) * 8 = 80 * r.top + (s.getCur / 8 + 1) * 8 by omega,
          show 80 * r.top + (s.getCur / 8 + 1) * 8 - (80 * r.top + s.getCur) + 1 =
            (s.getCur / 8 + 1) * 8 + 1 - s.getCur by omega]
        exact hmoved
      · have hmoved := (h.store (k := s.getCur) (s.cell c)).setCur
          (show s.getCur + 1 ≤ 2000 by omega)
        rw [Roll.top_store] at hmoved
        rw [hcur, ← h.cell, Nat.mod_eq_of_lt (by omega)]
        exact hmoved

/-! ## Sequences of calls -/

/-- The roll of a screen on which nothing moved yet. -/
def roll (s : Screen) : Roll :=
  ⟨fun p => s.cells p, fun i => s.cells (2000 + i : Nat), 0, s.getCur, s.d_property, s.change_property⟩

theorem cells_roll (s : Screen) (p : Nat) : s.roll.cells p = s.cells p := rfl

theorem feed_roll (s : Screen) (j : Nat) : s.roll.feed j = s.cells (2000 + j : Nat) := rfl

theorem shows_roll (hcur : s.getCur < 2000) : s.Shows s.roll where
  cur := by
    show s.getCur = 80 * 0 + s.getCur
    omega
  cursor := hcur
  cells i _ := by
    show s.cells (i : Nat) = s.cells ((80 * 0 + i : Nat) : Int)
    rw [show 80 * 0 + i = i by omega]
  feed _ _ := rfl
  d_property := rfl
  change_property := rfl

theorem Shows.run (h : s.Shows r) (calls : List Call) (hall : s.AllAllowed calls) :
    (s.run calls).Shows (r.run calls) := by
  induction calls using List.reverseRecOn with
  | nil => exact h
  | append_singleton calls c ih =>
      have hrun : r.run (calls ++ [c]) = (r.run calls).call c := by
        unfold Roll.run
        rw [List.foldl_append, List.foldl_cons, List.foldl_nil]
      rw [run_concat, hrun]
      refine (ih fun pre d hpre => hall pre d (hpre.trans (List.prefix_append calls [c]))).call ?_
      exact hall calls c List.prefix_rfl

/-- After allowed calls the screen shows the end of the roll that the same calls print on. -/
theorem shows_run_roll (s : Screen) (hcur : s.getCur < 2000) (calls : List Call) (hall : s.AllAllowed calls) :
    (s.run calls).Shows (s.roll.run calls) :=
  (shows_roll hcur).run calls hall

/-- The bottom of a screen that is scrolled. -/
theorem shows_run_roll_last : ((Screen.mk (fun _ => 0) 7 0xcf 7 false []).run
    [.putChar 97, .putChar 98]).Shows ((Screen.mk (fun _ => 0) 7 0xcf 7 false []).roll.run
      [.putChar 97, .putChar 98]) := by
  refine shows_run_roll _ (by decide) _ fun pre c hpre => ?_
  have hc : c ∈ [Call.putChar 97, .putChar 98] :=
    hpre.subset (List.mem_append_right pre (List.mem_singleton_self c))
  rcases List.mem_cons.1 hc with rfl | hc
  · exact fun hbs => absurd hbs (by decide)
  · rw [List.mem_singleton.1 hc]
    exact fun hbs => absurd hbs (by decide)

/-! ## Text -/

/-- `put_str`, for the characters before the NUL. -/
def putStr (s : Screen) (str : List Byte) : Screen := str.foldl putChar s

end Screen

/-- The rows of a text: the ones that are full or were ended, and the one that the next character goes to. -/
structure TextRows where
  ended : List (List Byte)
  row : List Byte

namespace TextRows

/-- One more character. -/
def put (l : TextRows) (c : Byte) : TextRows :=
  if c = 10 then ⟨l.ended ++ [l.row], []⟩
  else if l.row.length + 1 = 80 then ⟨l.ended ++ [l.row ++ [c]], []⟩
  else ⟨l.ended, l.row ++ [c]⟩

/-- A text laid out in rows of 80 characters. -/
def lay (text : List Byte) : TextRows := text.foldl put ⟨[], []⟩

/-- The first of the last 25 rows. -/
def top (l : TextRows) : Nat := l.ended.length - 24

/-- The character in a row and a column, if there is one. -/
def charAt (l : TextRows) (k j : Nat) : Option Byte := ((l.ended ++ [l.row]).getD k [])[j]?

/-- A new row is begun: no character is elsewhere. -/
theorem charAt_newRow (l : TextRows) (k j : Nat) :
    charAt ⟨l.ended ++ [l.row], []⟩ k j = l.charAt k j := by
  unfold charAt
  by_cases hk : k < (l.ended ++ [l.row]).length
  · rw [List.getD_append _ _ _ _ hk]
  · rw [List.getD_append_right _ _ _ _ (Nat.not_lt.1 hk), List.getD_eq_default _ _ (Nat.not_lt.1 hk)]
    cases k - (l.ended ++ [l.row]).length <;> rfl

theorem charAt_char (l : TextRows) (c : Byte) (k j : Nat) :
    charAt ⟨l.ended, l.row ++ [c]⟩ k j =
      if k = l.ended.length ∧ j = l.row.length then some c else l.charAt k j := by
  unfold charAt
  by_cases hk : k < l.ended.length
  · rw [List.getD_append _ _ _ _ hk, List.getD_append _ _ _ _ hk, if_neg (by omega)]
  · rw [List.getD_append_right _ _ _ _ (Nat.not_lt.1 hk), List.getD_append_right _ _ _ _ (Nat.not_lt.1 hk)]
    cases hd : k - l.ended.length with
    | zero =>
        show (l.row ++ [c])[j]? = if k = l.ended.length ∧ j = l.row.length then some c else l.row[j]?
        by_cases hj : j = l.row.length
        · rw [if_pos ⟨by omega, hj⟩, hj, List.getElem?_concat_length]
        · rw [if_neg fun h => hj h.2]
          by_cases hlt : j < l.row.length
          · rw [List.getElem?_append_left hlt]
          · rw [List.getElem?_eq_none (by simp; omega), List.getElem?_eq_none (by omega)]
    | succ d =>
        rw [if_neg (by omega)]
        rfl

end TextRows

namespace Screen

/-- What a cell is before anything is printed to it. -/
def background (s : Screen) (k j : Nat) : BitVec 16 := if k < 25 then s.cell 32 else s.cells (2000 + j : Nat)

/-- The rows of a text are printed on a roll, from its first row on. -/
structure Printed (s : Screen) (l : TextRows) (r : Roll) : Prop where
  cells : ∀ k < r.top + 25, ∀ j < 80,
    r.cells (80 * k + j) = ((l.charAt k j).map s.cell).getD (s.background k j)
  top : r.top = l.ended.length - 24
  feed : ∀ j < 80, r.feed j = s.cells (2000 + j : Nat)
  d_property : r.d_property = s.d_property
  change_property : r.change_property = false

variable {s : Screen} {l : TextRows} {r : Roll} {c : Byte}

theorem Printed.newRow (h : s.Printed l r) :
    s.Printed ⟨l.ended ++ [l.row], []⟩ (r.moveTo (80 * (l.ended.length + 1))) := by
  have htop := h.top
  have hlen : (l.ended ++ [l.row]).length = l.ended.length + 1 := by simp
  by_cases hin : 80 * (l.ended.length + 1) < r.last
  · rw [Roll.moveTo, if_pos hin]
    unfold Roll.last at hin
    refine ⟨fun k hk j hj => ?_, ?_, h.feed, h.d_property, h.change_property⟩
    · rw [TextRows.charAt_newRow]
      exact h.cells k hk j hj
    · show r.top = (l.ended ++ [l.row]).length - 24
      omega
  · rw [Roll.moveTo, if_neg hin]
    unfold Roll.last at hin
    refine ⟨fun k hk j hj => ?_, ?_, h.feed, h.d_property, h.change_property⟩
    · rw [TextRows.charAt_newRow]
      show (if (80 * k + j) / 80 = r.top + 25 then r.feed ((80 * k + j) % 80) else r.cells (80 * k + j)) = _
      have hk' : k < r.top + 1 + 25 := hk
      rw [show (80 * k + j) / 80 = k by omega, show (80 * k + j) % 80 = j by omega]
      by_cases hnew : k = r.top + 25
      · have hnone : l.charAt k j = none := by
          unfold TextRows.charAt
          rw [List.getD_eq_default _ _ (by omega)]
          rfl
        rw [if_pos hnew, h.feed j hj, hnone]
        show _ = s.background k j
        rw [background, if_neg (by omega)]
      · rw [if_neg hnew]
        exact h.cells k (by omega) j hj
    · show r.top + 1 = (l.ended ++ [l.row]).length - 24
      omega

theorem Printed.char (h : s.Printed l r) (hrow : l.row.length < 80)
    (hcur : r.cur = 80 * l.ended.length + l.row.length) :
    s.Printed ⟨l.ended, l.row ++ [c]⟩ (r.store r.cur (r.cell c)) := by
  have htop := h.top
  have hstore : r.store r.cur (r.cell c) = { r with cells := Function.update r.cells r.cur (r.cell c) } :=
    if_pos (by unfold Roll.last; omega)
  rw [hstore]
  refine ⟨fun k hk j hj => ?_, htop, h.feed, h.d_property, h.change_property⟩
  show Function.update r.cells r.cur (r.cell c) (80 * k + j) = _
  rw [TextRows.charAt_char]
  by_cases hat : k = l.ended.length ∧ j = l.row.length
  · rw [if_pos hat, hat.1, hat.2, hcur, Function.update_self]
    show _ = s.cell c
    unfold Roll.cell Screen.cell
    rw [h.d_property]
  · rw [if_neg hat, Function.update_of_ne (by omega)]
    exact h.cells k hk j hj

/-- A character of a text is neither that of an escape sequence nor `\r`, `\b` or `\t`. -/
def IsText (c : Byte) : Prop := c ≠ 0x1b ∧ c ≠ 13 ∧ c ≠ 8 ∧ c ≠ 9

/-- One character of a text, on the roll. -/
theorem Printed.put (h : s.Printed l r) (hrow : l.row.length < 80)
    (hcur : r.cur = 80 * l.ended.length + l.row.length) (hc : IsText c) :
    s.Printed (l.put c) (r.putChar c) ∧ (l.put c).row.length < 80 ∧
      (r.putChar c).cur = 80 * (l.put c).ended.length + (l.put c).row.length := by
  obtain ⟨hesc, hcr, hbs, htab⟩ := hc
  have hmoved : ∀ (t : Roll) (p : Nat), (t.moveTo p).cur = p := fun t p => by
    unfold Roll.moveTo
    split
    · rfl
    · rfl
  have hplain : ¬ r.change_property = true := by
    rw [h.change_property]
    exact Bool.false_ne_true
  unfold Roll.putChar
  rw [if_neg hplain, if_neg hesc, if_neg hcr]
  unfold TextRows.put
  by_cases hlf : c = 10
  · rw [if_pos hlf, if_pos hlf, hcur,
      show ((80 * l.ended.length + l.row.length) / 80 + 1) * 80 = 80 * (l.ended.length + 1) by omega]
    refine ⟨h.newRow, Nat.zero_lt_succ _, ?_⟩
    rw [hmoved, List.length_append, List.length_singleton]
    rfl
  · rw [if_neg hlf, if_neg hlf, if_neg hbs, if_neg htab]
    have hchar := h.char (c := c) hrow hcur
    by_cases hfull : l.row.length + 1 = 80
    · rw [if_pos hfull]
      have hnew := hchar.newRow
      dsimp only at hnew ⊢
      rw [show r.cur + 1 = 80 * (l.ended.length + 1) by omega, hmoved]
      refine ⟨hnew, Nat.zero_lt_succ _, ?_⟩
      rw [List.length_append, List.length_singleton]
      rfl
    · rw [if_neg hfull, hmoved]
      refine ⟨?_, by simp; omega, by simp; omega⟩
      have hin : r.cur + 1 < (r.store r.cur (r.cell c)).last := by
        have htop := h.top
        unfold Roll.last
        rw [Roll.top_store]
        omega
      rw [Roll.moveTo, if_pos hin]
      exact ⟨hchar.cells, hchar.top, hchar.feed, hchar.d_property, hchar.change_property⟩

theorem printed_lay (h : s.Printed ⟨[], []⟩ r) (hcur : r.cur = 0) (text : List Byte)
    (htext : ∀ c ∈ text, IsText c) :
    s.Printed (.lay text) (text.foldl Roll.putChar r) ∧ (TextRows.lay text).row.length < 80 ∧
      (text.foldl Roll.putChar r).cur =
        80 * (TextRows.lay text).ended.length + (TextRows.lay text).row.length := by
  induction text using List.reverseRecOn with
  | nil => exact ⟨h, by decide, hcur⟩
  | append_singleton text c ih =>
      obtain ⟨hprinted, hrow, hcur⟩ := ih fun d hd => htext d (List.mem_append_left _ hd)
      unfold TextRows.lay at hprinted hrow hcur ⊢
      rw [List.foldl_append, List.foldl_append]
      exact hprinted.put hrow hcur (htext c (by simp))

theorem cells_cleared (s : Screen) (i : Int) :
    s.cleared.cells i = if 0 ≤ i ∧ i < 80 * 25 then s.cell 32 else s.cells i := rfl

/-- A roll that shows a cleared screen takes a text from its first row on. -/
theorem printed_cleared (s : Screen) (hprop : s.change_property = false) (text : List Byte)
    (htext : ∀ c ∈ text, IsText c) :
    s.Printed (.lay text) (text.foldl Roll.putChar s.cleared.roll) ∧
      (text.foldl Roll.putChar s.cleared.roll).cur =
        80 * (TextRows.lay text).ended.length + (TextRows.lay text).row.length := by
  have hstart : s.cleared.getCur = 0 := getCur_writeCur _ (by decide)
  have hblank : s.Printed ⟨[], []⟩ s.cleared.roll := by
    refine ⟨fun k hk j hj => ?_, rfl, fun j hj => ?_, rfl, hprop⟩
    · have hk : k < 0 + 25 := hk
      have hnone : TextRows.charAt ⟨[], []⟩ k j = none := by cases k <;> rfl
      rw [hnone]
      rw [cells_roll, cells_cleared, if_pos (by omega)]
      show s.cell 32 = s.background k j
      rw [background, if_pos (by omega)]
    · rw [feed_roll, cells_cleared, if_neg (by omega)]
  obtain ⟨hprinted, -, hcur⟩ := printed_lay hblank hstart text htext
  exact ⟨hprinted, hcur⟩

theorem shows_putStr (s : Screen) (text : List Byte) (htext : ∀ c ∈ text, IsText c) :
    (s.cleared.putStr text).Shows (text.foldl Roll.putChar s.cleared.roll) := by
  have hstart : s.cleared.getCur = 0 := getCur_writeCur _ (by decide)
  have hrun := (shows_roll (s := s.cleared) (by omega)).run (text.map .putChar) fun pre c hpre => by
    obtain ⟨b, hb, rfl⟩ := List.mem_map.1 (hpre.subset (List.mem_append_right pre (List.mem_singleton_self c)))
    exact fun hbs => absurd hbs (htext b hb).2.2.1
  unfold Screen.run Roll.run at hrun
  rw [List.foldl_map, List.foldl_map] at hrun
  exact hrun

/-- What a screen shows of a text on the roll. -/
theorem Shows.text {screen : Screen} (hshows : screen.Shows r) (hprinted : s.Printed l r)
    (hcur : r.cur = 80 * l.ended.length + l.row.length) :
    screen.getCur = 80 * (l.ended.length - l.top) + l.row.length ∧
      ∀ k < 25, ∀ j < 80, screen.cells (80 * k + j : Nat) =
        ((l.charAt (l.top + k) j).map s.cell).getD (s.background (l.top + k) j) := by
  have htop : r.top = l.top := hprinted.top
  refine ⟨?_, fun k hk j hj => ?_⟩
  · have hget := hshows.cur
    have hle : l.top ≤ l.ended.length := Nat.sub_le _ _
    rw [hcur, htop] at hget
    omega
  · rw [hshows.cells _ (by omega), htop,
      show 80 * l.top + (80 * k + j) = 80 * (l.top + k) + j by omega]
    exact hprinted.cells _ (by omega) j hj

/-- On a cleared screen, `put_str` of a text shows the last 25 rows of the text, each character in its column,
    with the cursor behind the last one. -/
theorem putStr_shows (s : Screen) (hprop : s.change_property = false) (text : List Byte)
    (htext : ∀ c ∈ text, IsText c) :
    (s.cleared.putStr text).getCur = 80 * ((TextRows.lay text).ended.length - (TextRows.lay text).top) +
        (TextRows.lay text).row.length ∧
      ∀ k < 25, ∀ j < 80, (s.cleared.putStr text).cells (80 * k + j : Nat) =
        (((TextRows.lay text).charAt ((TextRows.lay text).top + k) j).map s.cell).getD
          (s.background ((TextRows.lay text).top + k) j) := by
  obtain ⟨hprinted, hcur⟩ := printed_cleared s hprop text htext
  exact (shows_putStr s text htext).text hprinted hcur

/-- `hi` on a screen that was just cleared. -/
theorem putStr_shows_hi :
    ((Screen.mk (fun _ => 0) 0 0 7 false []).cleared.putStr [104, 105]).cells (1 : Nat) = 0x0769 :=
  (putStr_shows (Screen.mk (fun _ => 0) 0 0 7 false []) rfl [104, 105]
    (by unfold IsText; decide)).2 0 (by decide) 1 (by decide)

end Screen

end RecoverOS
