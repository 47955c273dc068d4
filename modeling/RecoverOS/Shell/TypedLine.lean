import RecoverOS.Device.Keyboard
import RecoverOS.Shell.Readline

set_option autoImplicit false

/-! # From the keys to the line (`device/keyboard.c`, `device/ioqueue.c`, `shell/shell.c`)

Keys are hit and bytes are taken out of `kbd_buf` in any order. A key that stands for a character is hit alone or
while one modifier key is held; what is hit while the queue is full is lost. -/

namespace RecoverOS

namespace Modifier

/-- One of the shift keys. -/
def isShift (m : Modifier) : Bool := m = .shiftLeft ∨ m = .shiftRight

/-- One of the control keys. -/
def isCtrl (m : Modifier) : Bool := m = .ctrlLeft ∨ m = .ctrlRight

end Modifier

namespace Keyboard

variable {T : Type} {k : Keyboard T} {b : Byte}

/-! ## One key -/

/-- The make code of a key that stands for a character. -/
def IsKey (b : Byte) : Prop := b < 0x3b ∧ charOfKey b.toNat false ≠ 0 ∧ charOfKey b.toNat true ≠ 0

instance (b : Byte) : Decidable (IsKey b) := by
  unfold IsKey
  infer_instance

/-- The character of a key, with the state of the shift keys, the caps lock and the control keys. -/
def charWith (shift caps ctrl : Bool) (b : Byte) : Byte :=
  let c := charOfKey b.toNat (shifted (b.setWidth 16) shift caps)
  if ctrl = true ∧ (c = 108 ∨ c = 117 ∨ c = 99) then c - 97 else c

/-- A character is put in the queue if there is room. -/
def enqueue (c : Byte) (k : Keyboard T) : Keyboard T :=
  if Ioqueue.ioqFull k.kbd_buf = true then k else { k with kbd_buf := Ioqueue.storeByte k.kbd_buf c }

theorem send_append (bytes bytes' : List Byte) (k : Keyboard T) :
    k.send (bytes ++ bytes') = (k.send bytes).send bytes' := List.foldl_append

theorem key_codes : ∀ b : Byte, IsKey b →
    b.setWidth 16 ≠ (0xe0 : BitVec 16) ∧ b.setWidth 16 &&& (0x0080 : BitVec 16) = 0 ∧
      b.setWidth 16 > (0 : BitVec 16) ∧ b.setWidth 16 < (0x3b : BitVec 16) ∧
      b.setWidth 16 &&& (0x00ff : BitVec 16) = b.setWidth 16 := by
  decide +kernel

theorem break_codes : ∀ b : Byte, IsKey b →
    (b ||| 0x80).setWidth 16 ≠ (0xe0 : BitVec 16) ∧
      (b ||| 0x80).setWidth 16 &&& (0x0080 : BitVec 16) ≠ 0 ∧
      ¬ IsModifier ((b ||| 0x80).setWidth 16 &&& 0xff7f) := by
  decide +kernel

/-- The key goes down. -/
theorem send_key (hb : IsKey b) (hext : k.ext_scancode = false) :
    k.send [b] = k.enqueue (charWith k.shift_status k.caps_lock_status k.ctrl_status b) := by
  obtain ⟨hpart, hlow, hpos, hlt, hmask⟩ := key_codes b hb
  have hchar : ∀ shift, charOfKey b.toNat shift ≠ 0 := fun shift => by
    cases shift with
    | false => exact hb.2.1
    | true => exact hb.2.2
  show intrKeyboardHdl b k = _
  unfold intrKeyboardHdl
  dsimp only
  rw [if_neg hpart, if_neg (by rw [hext]; exact Bool.false_ne_true)]
  unfold scanCode
  rw [if_neg (not_not.2 hlow), if_pos (.inl ⟨hpos, hlt⟩)]
  unfold makeCode
  dsimp only
  rw [hmask, BitVec.toNat_setWidth, Nat.mod_eq_of_lt (by omega), if_pos (hchar _)]
  rfl

/-- The key goes up. -/
theorem send_keyUp (hb : IsKey b) (hext : k.ext_scancode = false) : k.send [b ||| 0x80] = k := by
  obtain ⟨hpart, hhigh, hother⟩ := break_codes b hb
  show intrKeyboardHdl (b ||| 0x80) k = _
  unfold intrKeyboardHdl
  dsimp only
  rw [if_neg hpart, if_neg (by rw [hext]; exact Bool.false_ne_true)]
  unfold scanCode
  rw [if_pos hhigh]
  exact breakCode_same hother k

/-- No modifier key is down and no prefix is pending. -/
structure Idle (k : Keyboard T) : Prop where
  ctrl : k.ctrl_status = false
  shift : k.shift_status = false
  alt : k.alt_status = false
  ext : k.ext_scancode = false

theorem Idle.enqueue (h : k.Idle) (c : Byte) : (k.enqueue c).Idle := by
  unfold Keyboard.enqueue
  split
  · exact h
  · exact ⟨h.ctrl, h.shift, h.alt, h.ext⟩

theorem enqueue_caps (c : Byte) (k : Keyboard T) : (k.enqueue c).caps_lock_status = k.caps_lock_status := by
  unfold enqueue
  split
  · rfl
  · rfl

/-- The codes of a key that is hit while a modifier key is held, or none. -/
def strokeCodes (held : Option Modifier) (b : Byte) : List Byte :=
  match held with
  | none => [b, b ||| 0x80]
  | some m => m.make ++ [b, b ||| 0x80] ++ m.break

/-- The character of a key that is hit so. -/
def charFor (caps : Bool) (held : Option Modifier) (b : Byte) : Byte :=
  charWith (held.any Modifier.isShift) caps (held.any Modifier.isCtrl) b

theorem send_hit (hb : IsKey b) (hext : k.ext_scancode = false) :
    k.send [b, b ||| 0x80] = k.enqueue (charWith k.shift_status k.caps_lock_status k.ctrl_status b) := by
  have hsplit : [b, b ||| 0x80] = [b] ++ [b ||| 0x80] := rfl
  rw [hsplit, send_append, send_key hb hext]
  refine send_keyUp hb ?_
  unfold enqueue
  split
  · exact hext
  · exact hext

/-- A key that is hit puts its character in the queue, and nothing else changes. -/
theorem send_stroke (h : k.Idle) (held : Option Modifier) (hb : IsKey b) :
    k.send (strokeCodes held b) = k.enqueue (charFor k.caps_lock_status held b) := by
  cases held with
  | none =>
      show k.send [b, b ||| 0x80] = _
      rw [send_hit hb h.ext, h.shift, h.ctrl]
      rfl
  | some m =>
      obtain ⟨ctrl, shift, alt, caps, ext, buf⟩ := k
      obtain ⟨rfl, rfl, rfl, rfl⟩ : ctrl = false ∧ shift = false ∧ alt = false ∧ ext = false :=
        ⟨h.ctrl, h.shift, h.alt, h.ext⟩
      show Keyboard.send (m.make ++ [b, b ||| 0x80] ++ m.break) _ = _
      rw [send_append, send_append, send_make m _ rfl, send_hit hb (by cases m <;> rfl)]
      have hup : ∀ c : Byte, ((Keyboard.setFlag m true (⟨false, false, false, caps, false, buf⟩ : Keyboard T)).enqueue
          c).send m.break = enqueue c (⟨false, false, false, caps, false, buf⟩ : Keyboard T) := by
        intro c
        unfold enqueue
        by_cases hfull : Ioqueue.ioqFull buf = true
        · cases m <;> exact (congrArg _ (if_pos hfull)).trans ((send_break _ _ rfl).trans (if_pos hfull).symm)
        · cases m <;> exact (congrArg _ (if_neg hfull)).trans ((send_break _ _ rfl).trans (if_neg hfull).symm)
      rw [hup]
      cases m <;> rfl

/-- The caps lock key. -/
theorem send_capsLock (h : k.Idle) :
    k.send [0x3a, 0xba] = { k with caps_lock_status := !k.caps_lock_status } := by
  obtain ⟨ctrl, shift, alt, caps, ext, buf⟩ := k
  obtain ⟨rfl, rfl, rfl, rfl⟩ : ctrl = false ∧ shift = false ∧ alt = false ∧ ext = false :=
    ⟨h.ctrl, h.shift, h.alt, h.ext⟩
  cases caps <;> rfl

end Keyboard

/-! ## Keys and reads in any order -/

/-- A key that stands for a character is hit, with a modifier key held or none; the caps lock key is hit; a byte
    is taken out of the queue, if there is one. -/
inductive Stroke where
  | key (held : Option Modifier) (b : Byte)
  | capsLock
  | getchar

/-- The keyboard with the state of the caps lock, the characters that were put in the queue and the bytes that
    were taken out. -/
structure TypedText (T : Type) where
  keyboard : Keyboard T
  caps : Bool
  typed : List Byte
  got : List Byte

namespace TypedText

variable {T : Type} {t : TypedText T}

/-- Before any key is hit. -/
def start (buf : Nat → Byte) : TypedText T := ⟨.init buf, false, [], []⟩

/-- The queue has room for one more byte. -/
def Room (t : TypedText T) : Prop := t.typed.length + 1 < t.got.length + bufsize

instance (t : TypedText T) : Decidable t.Room := by
  unfold Room
  infer_instance

/-- One event. -/
def step (t : TypedText T) : Stroke → TypedText T
  | .key held b =>
      { t with
        keyboard := t.keyboard.send (Keyboard.strokeCodes held b)
        typed := if t.Room then t.typed ++ [Keyboard.charFor t.caps held b] else t.typed }
  | .capsLock => { t with keyboard := t.keyboard.send [0x3a, 0xba], caps := !t.caps }
  | .getchar =>
      match Ioqueue.ioqGetchar t.keyboard.kbd_buf with
      | none => t
      | some (b, ioq) => { t with keyboard := { t.keyboard with kbd_buf := ioq }, got := t.got ++ [b] }

/-- A sequence of events. -/
def run (t : TypedText T) (strokes : List Stroke) : TypedText T := strokes.foldl step t

/-- The keys that are hit stand for characters. -/
def AreKeys (strokes : List Stroke) : Prop := ∀ held b, Stroke.key held b ∈ strokes → Keyboard.IsKey b

/-- What was put in the queue and not taken out is in the queue. -/
structure Pending (t : TypedText T) (rest : List Byte) : Prop where
  idle : t.keyboard.Idle
  caps : t.keyboard.caps_lock_status = t.caps
  queue : Ioqueue.Holds t.keyboard.kbd_buf rest
  typed : t.got ++ rest = t.typed

theorem pending_start (buf : Nat → Byte) : (start buf : TypedText T).Pending [] where
  idle := ⟨rfl, rfl, rfl, rfl⟩
  caps := rfl
  queue := Ioqueue.holds_init buf
  typed := rfl

theorem Pending.room_iff {rest : List Byte} (h : t.Pending rest) :
    t.Room ↔ Ioqueue.ioqFull t.keyboard.kbd_buf ≠ true := by
  have hlen := congrArg List.length h.typed
  have hlt := h.queue.len
  rw [List.length_append] at hlen
  unfold Room
  rw [ne_eq, h.queue.ioqFull_iff]
  omega

theorem Pending.step {rest : List Byte} (h : t.Pending rest) {e : Stroke}
    (he : ∀ held b, e = .key held b → Keyboard.IsKey b) : ∃ rest', (t.step e).Pending rest' := by
  cases e with
  | key held b =>
      have hsend := Keyboard.send_stroke h.idle held (he held b rfl)
      have hstep : t.step (.key held b) =
          { t with
            keyboard := t.keyboard.enqueue (Keyboard.charFor t.caps held b)
            typed := if t.Room then t.typed ++ [Keyboard.charFor t.caps held b] else t.typed } := by
        unfold TypedText.step
        dsimp only
        rw [hsend, h.caps]
      rw [hstep]
      by_cases hroom : t.Room
      · have hfull := h.room_iff.1 hroom
        have hlen := congrArg List.length h.typed
        rw [List.length_append] at hlen
        rw [if_pos hroom]
        refine ⟨rest ++ [Keyboard.charFor t.caps held b], h.idle.enqueue _,
          (Keyboard.enqueue_caps _ _).trans h.caps, ?_, ?_⟩
        · show Ioqueue.Holds (Keyboard.enqueue _ _).kbd_buf _
          unfold Keyboard.enqueue
          rw [if_neg hfull]
          unfold Room at hroom
          exact h.queue.storeByte (by omega) _
        · rw [← List.append_assoc, h.typed]
      · have hfull : Ioqueue.ioqFull t.keyboard.kbd_buf = true := by
          by_contra hnot
          exact hroom (h.room_iff.2 hnot)
        rw [if_neg hroom]
        unfold Keyboard.enqueue
        rw [if_pos hfull]
        exact ⟨rest, h⟩
  | capsLock =>
      refine ⟨rest, ?_⟩
      unfold TypedText.step
      dsimp only
      rw [Keyboard.send_capsLock h.idle]
      exact ⟨⟨h.idle.ctrl, h.idle.shift, h.idle.alt, h.idle.ext⟩, congrArg Bool.not h.caps, h.queue, h.typed⟩
  | getchar =>
      unfold TypedText.step
      dsimp only
      cases rest with
      | nil =>
          have hempty : Ioqueue.ioqGetchar t.keyboard.kbd_buf = none := by
            unfold Ioqueue.ioqGetchar
            rw [if_pos (h.queue.ioqEmpty_iff.2 rfl)]
          rw [hempty]
          exact ⟨[], h⟩
      | cons b rest =>
          obtain ⟨ioq, hget, hqueue⟩ := h.queue.ioqGetchar
          rw [hget]
          refine ⟨rest, ⟨h.idle.ctrl, h.idle.shift, h.idle.alt, h.idle.ext⟩, h.caps, hqueue, ?_⟩
          show t.got ++ [b] ++ rest = t.typed
          rw [List.append_assoc, List.singleton_append, h.typed]

theorem Pending.run {rest : List Byte} (h : t.Pending rest) {strokes : List Stroke} (hkeys : AreKeys strokes) :
    ∃ rest', (t.run strokes).Pending rest' := by
  induction strokes generalizing t rest with
  | nil => exact ⟨rest, h⟩
  | cons e strokes ih =>
      obtain ⟨rest', h'⟩ := h.step (e := e) fun held b he => hkeys held b (he ▸ List.mem_cons_self)
      exact ih h' fun held b hb => hkeys held b (List.mem_cons_of_mem _ hb)

/-- Whatever is hit and read in whatever order, the bytes read are the first of the characters that found room
    in the queue, and the others are still in it. -/
theorem got_prefix_typed (buf : Nat → Byte) (strokes : List Stroke) (hkeys : AreKeys strokes) :
    ∃ rest, ((start buf : TypedText T).run strokes).got ++ rest = ((start buf : TypedText T).run strokes).typed ∧
      Ioqueue.Holds ((start buf : TypedText T).run strokes).keyboard.kbd_buf rest := by
  obtain ⟨rest, h⟩ := (pending_start (T := T) buf).run hkeys
  exact ⟨rest, h.typed, h.queue⟩

/-- The keys `a` and, with shift, `b`, of which one is read. -/
def sampleStrokes : List Stroke := [.key none 0x1e, .key (some .shiftLeft) 0x30, .getchar]

theorem areKeys_sample : AreKeys sampleStrokes := by
  intro held b hb
  simp only [sampleStrokes, List.mem_cons, Stroke.key.injEq, List.not_mem_nil, or_false, reduceCtorEq] at hb
  obtain ⟨-, rfl⟩ | ⟨-, rfl⟩ := hb
  · decide
  · decide

theorem got_prefix_typed_ab : ∃ rest, ((start (fun _ => 0) : TypedText Unit).run sampleStrokes).got ++ rest =
    ((start (fun _ => 0) : TypedText Unit).run sampleStrokes).typed := by
  obtain ⟨rest, htyped, -⟩ := got_prefix_typed (T := Unit) (fun _ => 0) sampleStrokes areKeys_sample
  exact ⟨rest, htyped⟩

/-! ## The line that the shell reads -/

/-- What has been read starts with the keys in front of a newline and the newline, once it is longer than they
    are. -/
theorem got_line (qbuf : Nat → Byte) {strokes : List Stroke} (hkeys : AreKeys strokes) {keys later : List Byte}
    {nl : Byte} (htyped : ((start qbuf : TypedText T).run strokes).typed = keys ++ nl :: later)
    (hread : keys.length < ((start qbuf : TypedText T).run strokes).got.length) :
    ∃ more, ((start qbuf : TypedText T).run strokes).got = keys ++ nl :: more := by
  obtain ⟨rest, hpending⟩ := (pending_start (T := T) qbuf).run hkeys
  have hsplit := hpending.typed
  rw [htyped] at hsplit
  have hprefix : keys ++ [nl] <+: ((start qbuf : TypedText T).run strokes).got := by
    refine List.prefix_of_prefix_length_le ⟨later, ?_⟩ ⟨rest, rfl⟩ ?_
    · rw [hsplit, List.append_assoc, List.singleton_append]
    · rw [List.length_append, List.length_singleton]
      omega
  obtain ⟨more, hmore⟩ := hprefix
  exact ⟨more, by rw [← hmore, List.append_assoc, List.singleton_append]⟩

/-- `readline` leaves the line as it was edited with the keys in front of the first `\\r`, whatever else is
    typed, and whenever the bytes are read. -/
theorem typed_line (qbuf : Nat → Byte) {strokes : List Stroke} (hkeys : AreKeys strokes)
    {keys later : List Byte} {nl : Byte} {count : Nat}
    (htyped : ((start qbuf : TypedText T).run strokes).typed = keys ++ nl :: later)
    (hread : keys.length < ((start qbuf : TypedText T).run strokes).got.length)
    (hline : ∀ k ∈ keys, ¬ Readline.IsNewline k) (hnl : Readline.IsNewline nl)
    (hfits : Readline.Fits count [] ((start qbuf : TypedText T).run strokes).got) (buf : Buf) :
    ∃ s, Readline.readline count ((start qbuf : TypedText T).run strokes).got buf = .returns s ∧
      (∀ i (h : i < (Readline.edit keys).length), s.buf i = (Readline.edit keys)[i]) ∧
      s.buf (Readline.edit keys).length = 0 := by
  obtain ⟨more, hgot⟩ := got_line qbuf hkeys htyped hread
  rw [hgot] at hfits ⊢
  obtain ⟨s, hrun, hs, hnul⟩ := (Readline.holds_nil buf).readKeys_line nofun hline hnl hfits
  exact ⟨s, hrun, hs.buf, hnul⟩

/-- The keys `a` and enter, which are read. -/
theorem typed_line_a : ∃ s, Readline.readline 8
      ((start (fun _ => 0) : TypedText Unit).run [.key none 0x1e, .key none 0x1c, .getchar, .getchar]).got
      Buf.zero = .returns s ∧ s.buf 1 = 0 := by
  have hkeys : AreKeys [.key none 0x1e, .key none 0x1c, .getchar, .getchar] := by
    intro held b hb
    simp only [List.mem_cons, Stroke.key.injEq, List.not_mem_nil, or_false, reduceCtorEq] at hb
    obtain ⟨-, rfl⟩ | ⟨-, rfl⟩ := hb
    · decide
    · decide
  have hgot : ((start (fun _ => 0) : TypedText Unit).run
      [.key none 0x1e, .key none 0x1c, .getchar, .getchar]).got = [97, 13] := by decide +kernel
  obtain ⟨s, hrun, -, hnul⟩ := @typed_line Unit (fun _ => 0) _ hkeys [97] [] 13 8 (by decide +kernel)
    (by rw [hgot]; decide) (by decide) (by decide)
    (by rw [hgot]; exact ⟨by decide, .inr ⟨by decide, .inl (by decide)⟩⟩) Buf.zero
  exact ⟨s, hrun, hnul⟩

end TypedText

end RecoverOS
