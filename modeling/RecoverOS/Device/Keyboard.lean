import Mathlib.Data.List.Induction
import RecoverOS.Device.Ioqueue

set_option autoImplicit false

/-! # The keyboard (`device/keyboard.c`)

`intr_keyboard_hdl` is called for every byte that the keyboard sends. It has one variable for each kind of
modifier key, of which the keyboard has a left one and a right one; which keys are down is kept beside it. -/

namespace RecoverOS

/-! ## The code -/

/-- The variables of `keyboard.c`. -/
structure Keyboard (T : Type) where
  ctrl_status : Bool
  shift_status : Bool
  alt_status : Bool
  caps_lock_status : Bool
  ext_scancode : Bool
  kbd_buf : Ioqueue T

/-- `keymap`: for each make code the character without and with shift. -/
def keymap : List (Byte × Byte) :=
  [(0, 0), (27, 27), (49, 33), (50, 64), (51, 35), (52, 36), (53, 37), (54, 94), (55, 38), (56, 42),
    (57, 40), (48, 41), (45, 95), (61, 43), (8, 8), (9, 9), (113, 81), (119, 87), (101, 69), (114, 82),
    (116, 84), (121, 89), (117, 85), (105, 73), (111, 79), (112, 80), (91, 123), (93, 125), (13, 13),
    (0, 0), (97, 65), (115, 83), (100, 68), (102, 70), (103, 71), (104, 72), (106, 74), (107, 75),
    (108, 76), (59, 58), (39, 34), (96, 126), (0, 0), (92, 124), (122, 90), (120, 88), (99, 67),
    (118, 86), (98, 66), (110, 78), (109, 77), (44, 60), (46, 62), (47, 63), (0, 0), (42, 42), (0, 0),
    (32, 32), (0, 0)]

namespace Keyboard

variable {T : Type}

/-- The variables at `keyboard_init`. -/
def init (buf : Nat → Byte) : Keyboard T := ⟨false, false, false, false, false, Ioqueue.ioqueueInit buf⟩

/-- A break code, without its highest bit. -/
def breakCode (make_code : BitVec 16) (k : Keyboard T) : Keyboard T :=
  if make_code = 0x1d ∨ make_code = 0xe01d then { k with ctrl_status := false }
  else if make_code = 0x2a ∨ make_code = 0x36 then { k with shift_status := false }
  else if make_code = 0x38 ∨ make_code = 0xe038 then { k with alt_status := false }
  else k

/-- Whether a make code stands for its character with shift. -/
def shifted (scancode : BitVec 16) (shift_down_last caps_lock_last : Bool) : Bool :=
  if scancode < 0x0e ∨ scancode = 0x29 ∨ scancode = 0x1a ∨ scancode = 0x1b ∨ scancode = 0x2b ∨
      scancode = 0x27 ∨ scancode = 0x28 ∨ scancode = 0x33 ∨ scancode = 0x34 ∨ scancode = 0x35 then
    shift_down_last
  else if shift_down_last = true ∧ caps_lock_last = true then false
  else shift_down_last || caps_lock_last

/-- `keymap[index][shift]`. -/
def charOfKey (index : Nat) (shift : Bool) : Byte :=
  let row := keymap.getD index (0, 0)
  if shift = true then row.2 else row.1

/-- A make code of a key that has a place in `keymap`. -/
def makeCode (scancode : BitVec 16) (k : Keyboard T) : Keyboard T :=
  let shift := shifted scancode k.shift_status k.caps_lock_status
  let scancode := scancode &&& 0x00ff
  let cur_char := charOfKey scancode.toNat shift
  if cur_char ≠ 0 then
    let cur_char :=
      if k.ctrl_status = true ∧ (cur_char = 108 ∨ cur_char = 117 ∨ cur_char = 99) then cur_char - 97
      else cur_char
    if Ioqueue.ioqFull k.kbd_buf = true then k
    else { k with kbd_buf := Ioqueue.storeByte k.kbd_buf cur_char }
  else if scancode = 0x1d ∨ scancode = 0xe01d then { k with ctrl_status := true }
  else if scancode = 0x2a ∨ scancode = 0x36 then { k with shift_status := true }
  else if scancode = 0x38 ∨ scancode = 0xe038 then { k with alt_status := true }
  else if scancode = 0x3a then { k with caps_lock_status := !k.caps_lock_status }
  else k

/-- What `intr_keyboard_hdl` does with a scan code. For a make code without a place in `keymap` it writes
    `unknown key` on the screen. -/
def scanCode (scancode : BitVec 16) (k : Keyboard T) : Keyboard T :=
  if scancode &&& 0x0080 ≠ 0 then breakCode (scancode &&& 0xff7f) k
  else if (scancode > 0x00 ∧ scancode < 0x3b) ∨ scancode = 0xe038 ∨ scancode = 0xe01d then
    makeCode scancode k
  else k

/-- `intr_keyboard_hdl`, for the byte that it reads from the port. -/
def intrKeyboardHdl (byte : Byte) (k : Keyboard T) : Keyboard T :=
  let scancode : BitVec 16 := byte.setWidth 16
  if scancode = 0xe0 then { k with ext_scancode := true }
  else if k.ext_scancode = true then scanCode (0xe000 ||| scancode) { k with ext_scancode := false }
  else scanCode scancode k

/-- The bytes of a scan code, one interrupt for each. -/
def send (bytes : List Byte) (k : Keyboard T) : Keyboard T := bytes.foldl (fun k b => intrKeyboardHdl b k) k

end Keyboard

/-! ## The keys -/

/-- The modifier keys. -/
inductive Modifier where
  | shiftLeft
  | shiftRight
  | ctrlLeft
  | ctrlRight
  | altLeft
  | altRight
  deriving DecidableEq

namespace Modifier

/-- The key of the same kind on the other side. -/
def sibling : Modifier → Modifier
  | shiftLeft => shiftRight
  | shiftRight => shiftLeft
  | ctrlLeft => ctrlRight
  | ctrlRight => ctrlLeft
  | altLeft => altRight
  | altRight => altLeft

/-- The scan code when the key goes down, and again while it is held. -/
def make : Modifier → List Byte
  | shiftLeft => [0x2a]
  | shiftRight => [0x36]
  | ctrlLeft => [0x1d]
  | ctrlRight => [0xe0, 0x1d]
  | altLeft => [0x38]
  | altRight => [0xe0, 0x38]

/-- The scan code when the key goes up. -/
def «break» : Modifier → List Byte
  | shiftLeft => [0xaa]
  | shiftRight => [0xb6]
  | ctrlLeft => [0x9d]
  | ctrlRight => [0xe0, 0x9d]
  | altLeft => [0xb8]
  | altRight => [0xe0, 0xb8]

end Modifier

/-- A scan code, or a byte taken out of the buffer. -/
inductive KeyEvent where
  | press (m : Modifier)
  | release (m : Modifier)
  | other (b : Byte)
  | otherExt (b : Byte)
  | pause
  | getchar

/-- The keyboard with the modifier keys that are down. -/
structure Typing (T : Type) where
  keyboard : Keyboard T
  down : Modifier → Bool

namespace Typing

variable {T : Type}

/-- Before any key is pressed. -/
def start (buf : Nat → Byte) : Typing T := ⟨.init buf, fun _ => false⟩

/-- An event. The pause key sends a code of six bytes. -/
def step (t : Typing T) : KeyEvent → Typing T
  | .press m => ⟨t.keyboard.send m.make, Function.update t.down m true⟩
  | .release m => ⟨t.keyboard.send m.break, Function.update t.down m false⟩
  | .other b => { t with keyboard := t.keyboard.send [b] }
  | .otherExt b => { t with keyboard := t.keyboard.send [0xe0, b] }
  | .pause => { t with keyboard := t.keyboard.send [0xe1, 0x1d, 0x45, 0xe1, 0x9d, 0xc5] }
  | .getchar =>
      match Ioqueue.ioqGetchar t.keyboard.kbd_buf with
      | none => t
      | some (_, ioq) => { t with keyboard := { t.keyboard with kbd_buf := ioq } }

/-- A sequence of events. -/
def run (t : Typing T) (events : List KeyEvent) : Typing T := events.foldl step t

/-- The events that a keyboard can send: a key goes up that is down, the other keys have codes of their own,
    and with a control key down the pause key sends another code. -/
def Possible (t : Typing T) : KeyEvent → Prop
  | .press _ => True
  | .release m => t.down m = true
  | .other b =>
      b ≠ 0xe0 ∧ b &&& 0x7f ≠ 0x1d ∧ b &&& 0x7f ≠ 0x2a ∧ b &&& 0x7f ≠ 0x36 ∧ b &&& 0x7f ≠ 0x38
  | .otherExt b => b ≠ 0xe0 ∧ b &&& 0x7f ≠ 0x1d ∧ b &&& 0x7f ≠ 0x38
  | .pause => t.down .ctrlLeft = false ∧ t.down .ctrlRight = false
  | .getchar => True

/-- The variables say which kinds of modifier keys are down. -/
structure Tracked (t : Typing T) : Prop where
  shift : t.keyboard.shift_status = (t.down .shiftLeft || t.down .shiftRight)
  ctrl : t.keyboard.ctrl_status = (t.down .ctrlLeft || t.down .ctrlRight)
  alt : t.keyboard.alt_status = (t.down .altLeft || t.down .altRight)

/-- The event is not the release of a modifier key while the other one of its kind is down. -/
def Apart (t : Typing T) : KeyEvent → Prop
  | .release m => t.down m.sibling = false
  | _ => True

end Typing

/-! ## What a scan code does to the variables -/

namespace Keyboard

variable {T : Type}

/-- The variable of a modifier key is set to `v`. -/
def setFlag (m : Modifier) (v : Bool) (k : Keyboard T) : Keyboard T :=
  match m with
  | .shiftLeft | .shiftRight => { k with shift_status := v }
  | .ctrlLeft | .ctrlRight => { k with ctrl_status := v }
  | .altLeft | .altRight => { k with alt_status := v }

theorem send_make (m : Modifier) (k : Keyboard T) (h : k.ext_scancode = false) :
    k.send m.make = k.setFlag m true := by
  obtain ⟨ctrl, shift, alt, caps, ext, buf⟩ := k
  obtain rfl : ext = false := h
  cases m <;> cases shift <;> cases caps <;> rfl

theorem send_break (m : Modifier) (k : Keyboard T) (h : k.ext_scancode = false) :
    k.send m.break = k.setFlag m false := by
  obtain ⟨ctrl, shift, alt, caps, ext, buf⟩ := k
  obtain rfl : ext = false := h
  cases m <;> rfl

/-- The variables of the modifier keys are as they are, and no prefix is pending. -/
structure Same (k k' : Keyboard T) : Prop where
  shift : k'.shift_status = k.shift_status
  ctrl : k'.ctrl_status = k.ctrl_status
  alt : k'.alt_status = k.alt_status
  ext : k'.ext_scancode = false

theorem send_pause (k : Keyboard T) (hext : k.ext_scancode = false) (hctrl : k.ctrl_status = false) :
    k.Same (k.send [0xe1, 0x1d, 0x45, 0xe1, 0x9d, 0xc5]) := by
  obtain ⟨ctrl, shift, alt, caps, ext, buf⟩ := k
  obtain rfl : ext = false := hext
  obtain rfl : ctrl = false := hctrl
  cases shift <;> cases caps <;> exact ⟨rfl, rfl, rfl, rfl⟩

/-- The make codes of the modifier keys. -/
def IsModifier (make_code : BitVec 16) : Prop :=
  make_code = 0x1d ∨ make_code = 0xe01d ∨ make_code = 0x2a ∨ make_code = 0x36 ∨ make_code = 0x38 ∨
    make_code = 0xe038

instance (make_code : BitVec 16) : Decidable (IsModifier make_code) := by
  unfold IsModifier
  infer_instance

theorem breakCode_same {make_code : BitVec 16} (hcode : ¬ IsModifier make_code) (k : Keyboard T) :
    breakCode make_code k = k := by
  simp only [IsModifier, not_or] at hcode
  obtain ⟨hctrl, hctrl', hshift, hshift', halt, halt'⟩ := hcode
  unfold breakCode
  rw [if_neg (not_or.2 ⟨hctrl, hctrl'⟩), if_neg (not_or.2 ⟨hshift, hshift'⟩),
    if_neg (not_or.2 ⟨halt, halt'⟩)]

theorem makeCode_same {scancode : BitVec 16} (hcode : ¬ IsModifier (scancode &&& 0x00ff)) {k : Keyboard T}
    (h : k.ext_scancode = false) : k.Same (makeCode scancode k) := by
  simp only [IsModifier, not_or] at hcode
  obtain ⟨hctrl, hctrl', hshift, hshift', halt, halt'⟩ := hcode
  unfold makeCode
  dsimp only
  by_cases hchar :
      charOfKey (scancode &&& 0x00ff).toNat (shifted scancode k.shift_status k.caps_lock_status) ≠ 0
  · rw [if_pos hchar]
    by_cases hfull : Ioqueue.ioqFull k.kbd_buf = true
    · rw [if_pos hfull]
      exact ⟨rfl, rfl, rfl, h⟩
    · rw [if_neg hfull]
      exact ⟨rfl, rfl, rfl, h⟩
  · rw [if_neg hchar, if_neg (not_or.2 ⟨hctrl, hctrl'⟩), if_neg (not_or.2 ⟨hshift, hshift'⟩),
      if_neg (not_or.2 ⟨halt, halt'⟩)]
    split_ifs
    · exact ⟨rfl, rfl, rfl, h⟩
    · exact ⟨rfl, rfl, rfl, h⟩

theorem scanCode_same {scancode : BitVec 16} {k : Keyboard T} (h : k.ext_scancode = false)
    (hbreak : ¬ IsModifier (scancode &&& 0xff7f))
    (hmake : (scancode > 0x00 ∧ scancode < 0x3b) ∨ scancode = 0xe038 ∨ scancode = 0xe01d →
      ¬ IsModifier (scancode &&& 0x00ff)) : k.Same (scanCode scancode k) := by
  unfold scanCode
  split_ifs with hhigh hkey
  · rw [breakCode_same hbreak]
    exact ⟨rfl, rfl, rfl, h⟩
  · exact makeCode_same (hmake hkey) h
  · exact ⟨rfl, rfl, rfl, h⟩

theorem send_other {b : Byte} (h0 : b ≠ 0xe0) (hb : ¬ IsModifier ((b &&& 0x7f).setWidth 16)) {k : Keyboard T}
    (h : k.ext_scancode = false) : k.Same (k.send [b]) := by
  have hcodes : ∀ b : Byte, b ≠ 0xe0 → ¬ IsModifier ((b &&& 0x7f).setWidth 16) →
      b.setWidth 16 ≠ (0xe0 : BitVec 16) ∧ ¬ IsModifier (b.setWidth 16 &&& 0xff7f) ∧
        ¬ IsModifier (b.setWidth 16 &&& 0x00ff) := by
    decide +kernel
  obtain ⟨hpart, hbreak, hmake⟩ := hcodes b h0 hb
  show k.Same (intrKeyboardHdl b k)
  unfold intrKeyboardHdl
  dsimp only
  rw [if_neg hpart, if_neg (by rw [h]; exact Bool.false_ne_true)]
  exact scanCode_same h hbreak fun _ => hmake

theorem send_otherExt {b : Byte} (h0 : b ≠ 0xe0) (hctrl : b &&& 0x7f ≠ 0x1d) (halt : b &&& 0x7f ≠ 0x38)
    (k : Keyboard T) : k.Same (k.send [0xe0, b]) := by
  have hcodes : ∀ b : Byte, b ≠ 0xe0 → b &&& 0x7f ≠ 0x1d → b &&& 0x7f ≠ 0x38 →
      b.setWidth 16 ≠ (0xe0 : BitVec 16) ∧ ¬ IsModifier ((0xe000 ||| b.setWidth 16) &&& 0xff7f) ∧
      ¬ (((0xe000 ||| b.setWidth 16 : BitVec 16) > 0x00 ∧ (0xe000 ||| b.setWidth 16 : BitVec 16) < 0x3b) ∨
        (0xe000 ||| b.setWidth 16 : BitVec 16) = 0xe038 ∨
        (0xe000 ||| b.setWidth 16 : BitVec 16) = 0xe01d) := by
    decide +kernel
  obtain ⟨hpart, hbreak, hmake⟩ := hcodes b h0 hctrl halt
  show k.Same (intrKeyboardHdl b { k with ext_scancode := true })
  unfold intrKeyboardHdl
  dsimp only
  rw [if_neg hpart, if_pos rfl]
  have hsame : Same { k with ext_scancode := false } (scanCode (0xe000 ||| b.setWidth 16)
      { k with ext_scancode := false }) := scanCode_same rfl hbreak fun hkey => absurd hkey hmake
  exact ⟨hsame.shift, hsame.ctrl, hsame.alt, hsame.ext⟩

end Keyboard

/-! ## Sequences of events -/

namespace Typing

variable {T : Type} {t : Typing T}

/-- Every event of a sequence, from `t` on, has `P` where it happens. -/
def Each (P : Typing T → KeyEvent → Prop) (t : Typing T) (events : List KeyEvent) : Prop :=
  ∀ pre e, pre ++ [e] <+: events → P (t.run pre) e

theorem run_concat (t : Typing T) (pre : List KeyEvent) (e : KeyEvent) :
    t.run (pre ++ [e]) = (t.run pre).step e := by
  unfold run
  rw [List.foldl_append, List.foldl_cons, List.foldl_nil]

theorem each_nil (P : Typing T → KeyEvent → Prop) (t : Typing T) : Each P t [] := by
  intro pre e h
  exact absurd (List.prefix_nil.1 h) (by simp)

theorem each_cons {P : Typing T → KeyEvent → Prop} {e : KeyEvent} {events : List KeyEvent} (he : P t e)
    (h : Each P (t.step e) events) : Each P t (e :: events) := by
  intro pre d hpre
  cases pre with
  | nil =>
      obtain ⟨rfl, -⟩ := List.cons_prefix_cons.1 hpre
      exact he
  | cons c pre =>
      obtain ⟨rfl, hlater⟩ := List.cons_prefix_cons.1 hpre
      exact h pre d hlater

/-- The variables are right and no prefix is pending. -/
structure Settled (t : Typing T) : Prop where
  tracked : t.Tracked
  ext : t.keyboard.ext_scancode = false

theorem Settled.of_same (h : t.Settled) {k : Keyboard T} (hsame : t.keyboard.Same k) :
    Settled ⟨k, t.down⟩ where
  tracked := ⟨hsame.shift.trans h.tracked.shift, hsame.ctrl.trans h.tracked.ctrl,
    hsame.alt.trans h.tracked.alt⟩
  ext := hsame.ext

theorem Settled.press (h : t.Settled) (m : Modifier) : (t.step (.press m)).Settled := by
  obtain ⟨⟨hshift, hctrl, halt⟩, hext⟩ := h
  show Settled ⟨t.keyboard.send m.make, Function.update t.down m true⟩
  rw [Keyboard.send_make m _ hext]
  cases m with
  | shiftLeft | shiftRight | ctrlLeft | ctrlRight | altLeft | altRight =>
      exact ⟨⟨by simp [Keyboard.setFlag, Function.update, hshift],
        by simp [Keyboard.setFlag, Function.update, hctrl],
        by simp [Keyboard.setFlag, Function.update, halt]⟩, hext⟩

/-- After the release of a key the variable is clear, as it should be when the other key is up. -/
theorem Settled.release (h : t.Settled) (m : Modifier) :
    (t.step (.release m)).keyboard.ext_scancode = false ∧
      ((t.step (.release m)).Tracked ↔ t.down m.sibling = false) := by
  obtain ⟨⟨hshift, hctrl, halt⟩, hext⟩ := h
  have hstep : t.step (.release m) = ⟨t.keyboard.setFlag m false, Function.update t.down m false⟩ := by
    show (⟨t.keyboard.send m.break, Function.update t.down m false⟩ : Typing T) = _
    rw [Keyboard.send_break m _ hext]
  rw [hstep]
  refine ⟨by cases m <;> exact hext, fun ht => ?_, fun hup => ?_⟩
  · obtain ⟨hshift', hctrl', halt'⟩ := ht
    cases m with
    | shiftLeft | shiftRight => simpa [Keyboard.setFlag, Function.update, Modifier.sibling] using hshift'.symm
    | ctrlLeft | ctrlRight => simpa [Keyboard.setFlag, Function.update, Modifier.sibling] using hctrl'.symm
    | altLeft | altRight => simpa [Keyboard.setFlag, Function.update, Modifier.sibling] using halt'.symm
  · cases m with
    | shiftLeft | shiftRight | ctrlLeft | ctrlRight | altLeft | altRight =>
        exact ⟨by simp_all [Keyboard.setFlag, Function.update, Modifier.sibling],
          by simp_all [Keyboard.setFlag, Function.update, Modifier.sibling],
          by simp_all [Keyboard.setFlag, Function.update, Modifier.sibling]⟩

/-- An event leaves the variables right exactly when it is no release of one of two keys that are down. -/
theorem Settled.step (h : t.Settled) {e : KeyEvent} (he : t.Possible e) :
    (t.step e).keyboard.ext_scancode = false ∧ ((t.step e).Tracked ↔ t.Apart e) := by
  have hsame : ∀ {k : Keyboard T}, t.keyboard.Same k →
      (⟨k, t.down⟩ : Typing T).keyboard.ext_scancode = false ∧
        ((⟨k, t.down⟩ : Typing T).Tracked ↔ True) :=
    fun hk => ⟨hk.ext, iff_true_intro (h.of_same hk).tracked⟩
  cases e with
  | press m => exact ⟨(h.press m).ext, iff_true_intro (h.press m).tracked⟩
  | release m => exact h.release m
  | other b =>
      obtain ⟨h0, hctrl, hshift, hshift', halt⟩ := he
      refine hsame (Keyboard.send_other h0 ?_ h.ext)
      have hcodes : ∀ c : Byte, c ≠ 0x1d → c ≠ 0x2a → c ≠ 0x36 → c ≠ 0x38 →
          ¬ Keyboard.IsModifier (c.setWidth 16) := by decide +kernel
      exact hcodes _ hctrl hshift hshift' halt
  | otherExt b => exact hsame (Keyboard.send_otherExt he.1 he.2.1 he.2.2 _)
  | pause =>
      refine hsame (Keyboard.send_pause _ h.ext ?_)
      rw [h.tracked.ctrl, he.1, he.2]
      rfl
  | getchar =>
      show (Typing.step t .getchar).keyboard.ext_scancode = false ∧
        ((Typing.step t .getchar).Tracked ↔ True)
      unfold Typing.step
      cases hget : Ioqueue.ioqGetchar t.keyboard.kbd_buf with
      | none => exact ⟨h.ext, iff_true_intro h.tracked⟩
      | some r => exact hsame (k := { t.keyboard with kbd_buf := r.2 }) ⟨rfl, rfl, rfl, h.ext⟩

theorem settled_start (buf : Nat → Byte) : (start buf : Typing T).Settled := ⟨⟨rfl, rfl, rfl⟩, rfl⟩

/-- The variables stay right as long as no event is the release of one of two keys that are down. -/
theorem Settled.run (h : t.Settled) (events : List KeyEvent) (he : t.Each Possible events)
    (hapart : t.Each Apart events) : (t.run events).Settled := by
  induction events using List.reverseRecOn with
  | nil => exact h
  | append_singleton events e ih =>
      have hpart := List.prefix_append events [e]
      have hlast := ih (fun pre d hpre => he pre d (hpre.trans hpart))
        fun pre d hpre => hapart pre d (hpre.trans hpart)
      obtain ⟨hext, htracked⟩ := hlast.step (he events e List.prefix_rfl)
      rw [run_concat]
      exact ⟨htracked.2 (hapart events e List.prefix_rfl), hext⟩

/-- The other way round, right variables after every event show that none was such a release. -/
theorem settled_of_tracked (h : t.Settled) (events : List KeyEvent) (he : t.Each Possible events)
    (htracked : ∀ pre, pre <+: events → (t.run pre).Tracked) : (t.run events).Settled := by
  induction events using List.reverseRecOn with
  | nil => exact h
  | append_singleton events e ih =>
      have hpart := List.prefix_append events [e]
      have hlast := ih (fun pre d hpre => he pre d (hpre.trans hpart))
        fun pre hpre => htracked pre (hpre.trans hpart)
      refine ⟨htracked _ List.prefix_rfl, ?_⟩
      rw [run_concat]
      exact (hlast.step (he events e List.prefix_rfl)).1

/-- After every event of a sequence that a keyboard can send, the variables say which kinds of modifier keys
    are down, exactly when no key goes up while the other one of its kind is down. -/
theorem tracked_iff (buf : Nat → Byte) (events : List KeyEvent)
    (he : (start buf : Typing T).Each Possible events) :
    (∀ pre, pre <+: events → ((start buf : Typing T).run pre).Tracked) ↔
      (start buf : Typing T).Each Apart events := by
  constructor
  · intro htracked pre e hpre
    have hpart := (List.prefix_append pre [e]).trans hpre
    have hlast := settled_of_tracked (settled_start buf) pre (fun q d hq => he q d (hq.trans hpart))
      fun q hq => htracked q (hq.trans hpart)
    refine (hlast.step (he pre e hpre)).2.1 ?_
    rw [← run_concat]
    exact htracked _ hpre
  · intro hapart pre hpre
    exact ((settled_start buf).run pre (fun q d hq => he q d (hq.trans hpre))
      fun q d hq => hapart q d (hq.trans hpre)).tracked

/-- A shift key goes down and up. -/
theorem tracked_iff_shift :
    (∀ pre, pre <+: [KeyEvent.press .shiftLeft, .release .shiftLeft] →
      ((start (fun _ => 0) : Typing Unit).run pre).Tracked) ↔
      (start (fun _ => 0) : Typing Unit).Each Apart [.press .shiftLeft, .release .shiftLeft] :=
  tracked_iff (fun _ => 0) _ (each_cons trivial (each_cons rfl (each_nil _ _)))

/-- With both shift keys down, the left one goes up. -/
theorem not_tracked_both_shifts :
    ¬ ((start (fun _ => 0) : Typing Unit).Each Possible
        [.press .shiftLeft, .press .shiftRight, .release .shiftLeft] →
      ∀ pre, pre <+: [KeyEvent.press .shiftLeft, .press .shiftRight, .release .shiftLeft] →
        ((start (fun _ => 0) : Typing Unit).run pre).Tracked) := by
  intro h
  have htracked := h (each_cons trivial (each_cons trivial (each_cons rfl (each_nil _ _)))) _ List.prefix_rfl
  exact absurd htracked.shift (by decide)

end Typing

end RecoverOS
