import RecoverOS.Base.Bytes
import Mathlib.Data.List.Basic
import Mathlib.Tactic.IntervalCases

set_option autoImplicit false

/-! # Reading a line (`shell/shell.c`)

`readline` on the bytes from `buf` on, which are read into where the next character of the line goes. The keys
are what `read` returns, one each; after the last one the call waits. -/

namespace RecoverOS

namespace Readline

/-- `'\b'`. -/
abbrev backspaceKey : Byte := 8

/-- `'l' - 'a'`. -/
abbrev clearKey : Byte := 11

/-- `'u' - 'a'`. -/
abbrev eraseKey : Byte := 20

/-- `'\n'` and `'\r'`. -/
def IsNewline (key : Byte) : Prop := key = 10 ∨ key = 13

instance (key : Byte) : Decidable (IsNewline key) := by unfold IsNewline; infer_instance

/-- What the screen is told. -/
inductive Echo where
  | write (c : Byte)
  | clear
  | prompt
  | text (s : List Byte)
  | exceeded

/-- The bytes from `buf` on, `pos - buf`, the offsets that were stored to, and what was put on the screen. -/
structure State where
  buf : Buf
  pos : Nat
  stores : List Nat
  out : List Echo

/-- How far a call has come: it waits for a key, has returned, has left the loop at the end, or has moved `pos`
    in front of `buf`. -/
inductive Outcome where
  | waits (s : State)
  | returns (s : State)
  | exceeds (s : State)
  | undefined

/-! ## The code -/

namespace State

/-- Store a byte. -/
def store (s : State) (i : Nat) (c : Byte) : State :=
  { s with buf := Function.update s.buf i c, stores := s.stores ++ [i] }

def echo (s : State) (e : Echo) : State := { s with out := s.out ++ [e] }

/-- The string at `buf`, of no more than `n` characters. -/
def text (s : State) (n : Nat) : List Byte := ((List.range n).map s.buf).takeWhile (· != 0)

/-- The loop for `'u' - 'a'`, with `pos - buf` turns left. -/
def erase (s : State) : Nat → State
  | 0 => { s with pos := 0 }
  | n + 1 => ((s.echo (.write backspaceKey)).store (n + 1) 0).erase n

end State

/-- The `switch` on the key, which is in the buffer at `pos`. -/
def switchKey (s : State) (key : Byte) : Outcome :=
  if IsNewline key then .returns ((s.store s.pos 0).echo (.write 10))
  else if key = backspaceKey then
    if s.buf 0 ≠ backspaceKey then
      if s.pos = 0 then .undefined else .waits ({ s with pos := s.pos - 1 }.echo (.write backspaceKey))
    else .waits s
  else if key = clearKey then
    let s := s.store s.pos 0
    .waits (((s.echo .clear).echo .prompt).echo (.text (s.text s.pos)))
  else if key = eraseKey then .waits (s.erase s.pos)
  else .waits ({ s with pos := s.pos + 1 }.echo (.write key))

/-- The turn of the loop that reads `key`. -/
def readKey (count : Nat) (s : State) (key : Byte) : Outcome :=
  let s := s.store s.pos key
  if s.pos < count then switchKey s key else .exceeds (s.echo .exceeded)

/-- The loop of `readline`. -/
def readKeys (count : Nat) : List Byte → State → Outcome
  | [], s => .waits s
  | key :: keys, s =>
      match readKey count s key with
      | .waits s => readKeys count keys s
      | o => o

/-- `readline`, with what is in `buf` before. -/
def readline (count : Nat) (keys : List Byte) (buf : Buf) : Outcome := readKeys count keys ⟨buf, 0, [], []⟩

/-! ## What it is for -/

/-- What a key does to the line. -/
def editStep (str : List Byte) (key : Byte) : List Byte :=
  if key = backspaceKey then str.dropLast
  else if key = eraseKey then []
  else if key = clearKey then str
  else str ++ [key]

/-- The line that was edited. -/
def edit (keys : List Byte) : List Byte := keys.foldl editStep []

/-- The edited line is shorter than `count` whenever a key is read; `str` is what is there. -/
def Fits (count : Nat) : List Byte → List Byte → Prop
  | _, [] => True
  | str, key :: keys => str.length < count ∧ (IsNewline key ∨ Fits count (editStep str key) keys)

/-- Only bytes of the buffer were stored to, and a call that is over has left a NUL among them. -/
def Outcome.Inside (count : Nat) : Outcome → Prop
  | .waits s => ∀ i ∈ s.stores, i < count
  | .returns s => (∀ i ∈ s.stores, i < count) ∧ ∃ i < count, s.buf i = 0
  | .exceeds s => (∀ i ∈ s.stores, i < count) ∧ ∃ i < count, s.buf i = 0
  | .undefined => False

/-! ## One key -/

/-- The line stands from `buf` on, and `pos` is at its end. -/
structure Holds (s : State) (str : List Byte) : Prop where
  pos : s.pos = str.length
  buf : ∀ i (h : i < str.length), s.buf i = str[i]
  noBackspace : backspaceKey ∉ str

section Step

variable {s : State} {str keys : List Byte} {key : Byte} {count : Nat}

theorem store_other {i j : Nat} {c : Byte} (h : i ≠ j) : (s.store j c).buf i = s.buf i :=
  Function.update_of_ne h _ _

theorem Holds.store (h : Holds s str) (c : Byte) : Holds (s.store s.pos c) str where
  pos := h.pos
  buf := fun i hi => by
    have hpos := h.pos
    rw [store_other (show i ≠ s.pos by omega)]
    exact h.buf i hi
  noBackspace := h.noBackspace

theorem stores_store (hin : ∀ i ∈ s.stores, i < count) (hpos : s.pos < count) (c : Byte) :
    ∀ i ∈ (s.store s.pos c).stores, i < count := by
  intro i hi
  obtain hi | hi := List.mem_append.1 hi
  · exact hin i hi
  · rw [List.mem_singleton.1 hi]
    exact hpos

theorem erase_pos (s : State) (n : Nat) : (s.erase n).pos = 0 := by
  induction n generalizing s with
  | zero => rfl
  | succ n ih => exact ih _

theorem mem_erase_stores (s : State) (n : Nat) {i : Nat} :
    i ∈ (s.erase n).stores ↔ i ∈ s.stores ∨ 0 < i ∧ i ≤ n := by
  induction n generalizing s with
  | zero => exact (or_iff_left (by omega)).symm
  | succ n ih =>
      rw [State.erase, ih]
      show i ∈ s.stores ++ [n + 1] ∨ _ ↔ _
      rw [List.mem_append, List.mem_singleton, or_assoc]
      exact or_congr_right (by omega)

/-- A line feed ends the line. -/
theorem Holds.switch_newline (h : Holds s str) (hkey : IsNewline key) :
    ∃ s', switchKey s key = .returns s' ∧ Holds s' str ∧ s'.buf str.length = 0 ∧
      s'.stores = s.stores ++ [s.pos] := by
  refine ⟨_, if_pos hkey, ⟨h.pos, (h.store 0).buf, h.noBackspace⟩, ?_, rfl⟩
  show Function.update s.buf s.pos 0 str.length = 0
  rw [h.pos, Function.update_self]

/-- Every other key edits it. -/
theorem Holds.switch_edit (h : Holds s str) (hbuf : s.buf s.pos = key) (hkey : ¬ IsNewline key)
    (hin : ∀ i ∈ s.stores, i < count) (hpos : s.pos < count) :
    ∃ s', switchKey s key = .waits s' ∧ Holds s' (editStep str key) ∧ ∀ i ∈ s'.stores, i < count := by
  unfold switchKey editStep
  rw [if_neg hkey]
  have hlen := h.pos
  by_cases hback : key = backspaceKey
  · rw [if_pos hback, if_pos hback]
    subst hback
    by_cases hline : str = []
    · -- the key itself stands at the beginning
      subst hline
      rw [if_neg (not_not.2 (by rw [← hbuf, hlen]; rfl))]
      exact ⟨s, rfl, h, hin⟩
    · have hpos0 : 0 < str.length := List.length_pos_iff.2 hline
      have hfirst : s.buf 0 ≠ backspaceKey := by
        rw [h.buf 0 hpos0]
        exact fun heq => h.noBackspace (heq ▸ List.getElem_mem hpos0)
      rw [if_pos hfirst, if_neg (by omega)]
      refine ⟨_, rfl, ⟨?_, fun i hi => ?_, fun hmem => h.noBackspace (List.dropLast_subset _ hmem)⟩, hin⟩
      · show s.pos - 1 = _
        rw [hlen, List.length_dropLast]
      · rw [List.length_dropLast] at hi
        rw [List.getElem_dropLast]
        exact h.buf i (by omega)
  · rw [if_neg hback, if_neg hback]
    by_cases hclear : key = clearKey
    -- the screen is cleared; the line stays, with a NUL over the key
    · rw [if_pos hclear, if_neg (by rw [hclear]; decide), if_pos hclear]
      exact ⟨_, rfl, ⟨h.pos, (h.store 0).buf, h.noBackspace⟩, stores_store hin hpos 0⟩
    · rw [if_neg hclear, if_neg hclear]
      by_cases herase : key = eraseKey
      · rw [if_pos herase, if_pos herase]
        -- the erased cells are those from `pos` down to 1
        refine ⟨_, rfl, ⟨erase_pos s s.pos, nofun, List.not_mem_nil⟩, fun i hi => ?_⟩
        obtain hi | hi := (mem_erase_stores s s.pos).1 hi
        · exact hin i hi
        · omega
      · rw [if_neg herase, if_neg herase]
        refine ⟨_, rfl, ⟨?_, fun i hi => ?_, ?_⟩, hin⟩
        · show s.pos + 1 = _
          rw [hlen, List.length_append, List.length_singleton]
        · rw [List.length_append, List.length_singleton] at hi
          by_cases hlast : i < str.length
          · rw [List.getElem_append_left hlast]
            exact h.buf i hlast
          · obtain rfl : i = str.length := by omega
            rw [List.getElem_concat_length rfl, ← hlen]
            exact hbuf
        · rw [List.mem_append, List.mem_singleton, not_or]
          exact ⟨h.noBackspace, Ne.symm hback⟩

theorem store_pos (s : State) (key : Byte) : (s.store s.pos key).buf (s.store s.pos key).pos = key :=
  Function.update_self _ _ _

/-! ## All keys -/

/-- The keys before a line feed are folded over the line. -/
theorem Holds.readKeys_line {nl : Byte} {rest : List Byte} (h : Holds s str)
    (hin : ∀ i ∈ s.stores, i < count) (hkeys : ∀ k ∈ keys, ¬ IsNewline k) (hnl : IsNewline nl)
    (hfits : Fits count str (keys ++ nl :: rest)) :
    ∃ s', readKeys count (keys ++ nl :: rest) s = .returns s' ∧ Holds s' (keys.foldl editStep str) ∧
      s'.buf (keys.foldl editStep str).length = 0 := by
  induction keys generalizing s str with
  | nil =>
      have hpos : (s.store s.pos nl).pos < count := lt_of_eq_of_lt h.pos hfits.1
      obtain ⟨s', hrun, hs', hnul, -⟩ := (h.store nl).switch_newline hnl
      refine ⟨s', ?_, hs', hnul⟩
      rw [List.nil_append, readKeys, readKey, if_pos hpos, hrun]
  | cons key keys ih =>
      have hkey := hkeys key List.mem_cons_self
      have hpos : (s.store s.pos key).pos < count := lt_of_eq_of_lt h.pos hfits.1
      obtain ⟨s1, hrun, hs1, hin1⟩ := (h.store key).switch_edit (store_pos s key) hkey
        (stores_store hin (lt_of_eq_of_lt h.pos hfits.1) key) hpos
      obtain ⟨s', hrest, hs', hnul⟩ := ih hs1 hin1 (fun k hk => hkeys k (List.mem_cons_of_mem _ hk))
        (hfits.2.resolve_left hkey)
      refine ⟨s', ?_, hs', hnul⟩
      rw [List.cons_append, readKeys, readKey, if_pos hpos, hrun]
      exact hrest

/-- The call stays inside the buffer as long as the line fits, and no longer. -/
theorem Holds.inside_iff (h : Holds s str) (hin : ∀ i ∈ s.stores, i < count) (keys : List Byte) :
    (readKeys count keys s).Inside count ↔ Fits count str keys := by
  induction keys generalizing s str with
  | nil => exact iff_of_true hin trivial
  | cons key keys ih =>
      rw [readKeys, readKey]
      by_cases hlt : str.length < count
      · have hpos : (s.store s.pos key).pos < count := lt_of_eq_of_lt h.pos hlt
        have hin1 := stores_store hin (lt_of_eq_of_lt h.pos hlt) key
        rw [if_pos hpos, Fits, and_iff_right hlt]
        by_cases hkey : IsNewline key
        · obtain ⟨s', hrun, hs', hnul, hstores⟩ := (h.store key).switch_newline hkey
          rw [hrun]
          refine iff_of_true ⟨fun i hi => ?_, str.length, hlt, hnul⟩ (.inl hkey)
          rw [hstores, List.mem_append, List.mem_singleton] at hi
          exact hi.elim (hin1 i) fun heq => heq ▸ hpos
        · obtain ⟨s1, hrun, hs1, hin2⟩ := (h.store key).switch_edit (store_pos s key) hkey hin1 hpos
          rw [hrun, or_iff_right hkey]
          exact ih hs1 hin2
      · -- the key has been stored behind the buffer
        have hpos : ¬ (s.store s.pos key).pos < count := fun hpos => hlt (lt_of_eq_of_lt h.pos.symm hpos)
        rw [if_neg hpos]
        refine iff_of_false (fun hout => ?_) fun hfits => hlt hfits.1
        have hstore := hout.1 s.pos (List.mem_append_right _ List.mem_cons_self)
        exact hlt (lt_of_eq_of_lt h.pos.symm hstore)

theorem holds_nil (buf : Buf) : Holds ⟨buf, 0, [], []⟩ [] := ⟨rfl, nofun, List.not_mem_nil⟩

end Step

/-! ## The calls -/

/-- `readline` leaves the edited line and a NUL in the buffer. -/
theorem line_edited {count : Nat} {keys rest : List Byte} {nl : Byte} (hkeys : ∀ k ∈ keys, ¬ IsNewline k)
    (hnl : IsNewline nl) (hfits : Fits count [] (keys ++ nl :: rest)) (buf : Buf) :
    ∃ s, readline count (keys ++ nl :: rest) buf = .returns s ∧
      (∀ i (h : i < (edit keys).length), s.buf i = (edit keys)[i]) ∧ s.buf (edit keys).length = 0 := by
  obtain ⟨s, hrun, hs, hnul⟩ := (holds_nil buf).readKeys_line nofun hkeys hnl hfits
  exact ⟨s, hrun, hs.buf, hnul⟩

/-- `a`, a backspace, `b`, `c` and a line feed. -/
theorem line_edited_backspace : ∃ s, readline 8 ([97, 8, 98, 99] ++ 10 :: []) Buf.zero = .returns s ∧
    (∀ i (h : i < (edit [97, 8, 98, 99]).length), s.buf i = (edit [97, 8, 98, 99])[i]) ∧
      s.buf (edit [97, 8, 98, 99]).length = 0 :=
  have hfits : Fits 8 [] ([97, 8, 98, 99] ++ 10 :: []) :=
    ⟨by decide, .inr ⟨by decide, .inr ⟨by decide, .inr ⟨by decide, .inr ⟨by decide, .inl (by decide)⟩⟩⟩⟩⟩
  line_edited (by decide) (by decide) hfits Buf.zero

/-- `readline` stores inside the buffer and leaves a NUL there when it is over, exactly when the edited line is
    shorter than `count` whenever a key is read. -/
theorem buffer_inside_iff (count : Nat) (keys : List Byte) (buf : Buf) :
    (readline count keys buf).Inside count ↔ Fits count [] keys :=
  (holds_nil buf).inside_iff nofun keys

theorem not_fits_long {c : Byte} (hc : ¬ IsNewline c ∧ c ≠ backspaceKey ∧ c ≠ eraseKey ∧ c ≠ clearKey)
    (count n : Nat) (str : List Byte) (hn : count ≤ str.length + n) :
    ¬ Fits count str (List.replicate (n + 1) c) := by
  induction n generalizing str with
  | zero => exact fun hfits => absurd hfits.1 (by omega)
  | succ n ih =>
      intro hfits
      obtain ⟨-, hnl | hrest⟩ := hfits
      · exact hc.1 hnl
      · refine ih (editStep str c) ?_ hrest
        rw [editStep, if_neg hc.2.1, if_neg hc.2.2.1, if_neg hc.2.2.2, List.length_append, List.length_singleton]
        omega

/-- A line that is longer than the buffer leaves it. -/
theorem not_inside_long {c : Byte} (hc : ¬ IsNewline c ∧ c ≠ backspaceKey ∧ c ≠ eraseKey ∧ c ≠ clearKey)
    (count : Nat) (buf : Buf) : ¬ (readline count (List.replicate (count + 1) c) buf).Inside count := fun h =>
  not_fits_long hc count count [] (Nat.le_add_left _ _) (((holds_nil buf).inside_iff nofun _).1 h)

/-- A line of 513 letters for the buffer of 512 bytes. -/
theorem not_buffer_inside_long : ¬ (readline 512 (List.replicate (512 + 1) 97) Buf.zero).Inside 512 :=
  not_inside_long (by decide) 512 Buf.zero

end Readline

end RecoverOS
