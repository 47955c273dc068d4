import Mathlib.Data.Nat.Digits.Lemmas
import RecoverOS.Base.Bytes
import RecoverOS.Base.Prog

set_option autoImplicit false

/-! # Formatted output (`lib/stdio.c`)

`vsprintf` goes over the format string once and takes the arguments from slots of eight bytes. The format
string is the list of its characters before the NUL, and what is stored from `str` on is a list that
grows. A signed negation wraps around. -/

namespace RecoverOS

/-- `'%'`. -/
abbrev percentChar : Byte := 37

/-- `'-'`. -/
abbrev minusChar : Byte := 45

/-- What a slot holds: a number, or a pointer to a string. -/
inductive Arg where
  | word (v : BitVec 64)
  | str (s : List Byte)

/-! ## The code -/

/-- The character that `itoa` stores for a digit. -/
def digitChar (m : Nat) : Byte := if m < 10 then BitVec.ofNat 8 (m + 48) else BitVec.ofNat 8 (m + 65 - 10)

/-- `itoa`. A division by zero, or a recursion that does not end, is undefined; a 64-bit number has no more
    than 64 digits. -/
def itoa (base : Nat) : Nat → Nat → Except Fault (List Byte)
  | 0, _ => .error .undefined
  | n + 1, value =>
      if base = 0 then .error .undefined
      else if value / base ≠ 0 then
        match itoa base n (value / base) with
        | .error e => .error e
        | .ok buf => .ok (buf ++ [digitChar (value % base)])
      else .ok [digitChar (value % base)]

/-- `case 'd'`: the argument is an `int`. -/
def putInt (v : BitVec 64) : Except Fault (List Byte) :=
  let arg_int := v.setWidth 32
  if arg_int.toInt < 0 then
    match itoa 10 64 ((0 - arg_int).signExtend 64).toNat with
    | .error e => .error e
    | .ok buf => .ok (minusChar :: buf)
  else itoa 10 64 (arg_int.signExtend 64).toNat

/-- `case 'x'`: the argument is kept in an `int` too. -/
def putHex (v : BitVec 64) : Except Fault (List Byte) :=
  let arg_int := v.setWidth 32
  itoa 16 64 (arg_int.signExtend 64).toNat

/-- `case 'd'` after an `'l'`. -/
def putLong (v : BitVec 64) : Except Fault (List Byte) :=
  if v.toInt < 0 then
    match itoa 10 64 (0 - v).toNat with
    | .error e => .error e
    | .ok buf => .ok (minusChar :: buf)
  else itoa 10 64 v.toNat

/-- `case 'x'` after an `'l'`. -/
def putLongHex (v : BitVec 64) : Except Fault (List Byte) := itoa 16 64 v.toNat

/-- `case 'c'`. -/
def putByte (v : BitVec 64) : Except Fault (List Byte) := .ok [v.setWidth 8]

/-- The next argument, as a number that `put` stores. -/
def putWord (put : BitVec 64 → Except Fault (List Byte)) :
    List Arg → List Byte → Except Fault (List Arg × List Byte)
  | .word v :: args, str =>
      match put v with
      | .error e => .error e
      | .ok buf => .ok (args, str ++ buf)
  | _, _ => .error .undefined

/-- The next argument, as a string that `strcpy` copies. -/
def putString : List Arg → List Byte → Except Fault (List Arg × List Byte)
  | .str s :: args, str => .ok (args, str ++ s)
  | _, _ => .error .undefined

/-- `*format`, at the end the NUL. -/
def charOf (format : List Byte) : Byte := format.headD 0

/-- What follows a `'%'`: the characters that are left, the arguments that are left and what is stored. A
    character that is no conversion is left to the loop. -/
def conversion (format : List Byte) (args : List Arg) (str : List Byte) :
    Except Fault (List Byte × List Arg × List Byte) :=
  let take (n : Nat) (r : Except Fault (List Arg × List Byte)) :=
    match r with
    | .error e => .error e
    | .ok (args, str) => .ok (format.drop n, args, str)
  let idx := charOf format
  if idx = 108 then
    let idx := charOf format.tail
    if idx = 100 then take 2 (putWord putLong args str)
    else if idx = 120 then take 2 (putWord putLongHex args str)
    else .ok (format.tail, args, str)
  else if idx = 115 then take 1 (putString args str)
  else if idx = 99 then take 1 (putWord putByte args str)
  else if idx = 100 then take 1 (putWord putInt args str)
  else if idx = 120 then take 1 (putWord putHex args str)
  else .ok (format, args, str)

/-- The loop of `vsprintf`. Every turn takes a character off the format string. -/
def vsprintfLoop : Nat → List Byte → List Arg → List Byte → Except Fault (List Byte)
  | 0, _, _, _ => .error .undefined
  | _ + 1, [], _, str => .ok str
  | n + 1, idx :: format, args, str =>
      if idx ≠ percentChar then vsprintfLoop n format args (str ++ [idx])
      else
        match conversion format args str with
        | .error e => .error e
        | .ok (format, args, str) => vsprintfLoop n format args str

/-- `strlen`. -/
def strlen (str : List Byte) : Nat := (str.takeWhile (· != 0)).length

/-- `vsprintf`: what is stored from `str` on, and what is returned. -/
def vsprintf (format : List Byte) (args : List Arg) : Except Fault (List Byte × Nat) :=
  match vsprintfLoop (format.length + 1) format args [] with
  | .error e => .error e
  | .ok str => .ok (str ++ [0], strlen (str ++ [0]))

/-! ## What it is for -/

/-- The numeral of a number to a base, with the highest digit first. -/
def numeral (base n : Nat) : List Byte :=
  if n = 0 then [digitChar 0] else (Nat.digits base n).reverse.map digitChar

/-- The signed decimal numeral. -/
def decimal (z : Int) : List Byte :=
  if z < 0 then minusChar :: numeral 10 z.natAbs else numeral 10 z.natAbs

/-- A piece of a format string, a conversion with the slot of its argument. -/
inductive Piece where
  | plain (c : Byte)
  | int (v : BitVec 64)
  | hex (v : BitVec 64)
  | long (v : BitVec 64)
  | longHex (v : BitVec 64)
  | string (s : List Byte)
  | char (v : BitVec 64)

namespace Piece

/-- An ordinary character is not `'%'`, and nothing holds a NUL. -/
def Ok : Piece → Prop
  | plain c => c ≠ percentChar ∧ c ≠ 0
  | string s => 0 ∉ s
  | char v => v.setWidth 8 ≠ 0
  | _ => True

/-- The piece in the format string. -/
def format : Piece → List Byte
  | plain c => [c]
  | int _ => [percentChar, 100]
  | hex _ => [percentChar, 120]
  | long _ => [percentChar, 108, 100]
  | longHex _ => [percentChar, 108, 120]
  | string _ => [percentChar, 115]
  | char _ => [percentChar, 99]

/-- The arguments of a piece. -/
def args : Piece → List Arg
  | plain _ => []
  | string s => [.str s]
  | int v | hex v | long v | longHex v | char v => [.word v]

/-- What a piece stands for. -/
def text : Piece → List Byte
  | plain c => [c]
  | int v => decimal (v.setWidth 32).toInt
  | hex v => numeral 16 (v.setWidth 32).toNat
  | long v => decimal v.toInt
  | longHex v => numeral 16 v.toNat
  | string s => s
  | char v => [v.setWidth 8]

/-- The `int` of a `%d` is not the smallest, and that of a `%x` has its highest bit clear. -/
def InRange : Piece → Prop
  | int v => v.setWidth 32 ≠ BitVec.intMin 32
  | hex v => (v.setWidth 32).msb = false
  | _ => True

end Piece

/-- The output is what the pieces stand for, with a NUL behind it, and its length is returned. -/
def Prints (pieces : List Piece) (more : List Arg) : Prop :=
  vsprintf (pieces.flatMap Piece.format) (pieces.flatMap Piece.args ++ more) =
    .ok (pieces.flatMap Piece.text ++ [0], (pieces.flatMap Piece.text).length)

/-! ## Numerals -/

theorem numeral_step {base : Nat} (hbase : 1 < base) {n : Nat} (hn : n / base ≠ 0) :
    numeral base n = numeral base (n / base) ++ [digitChar (n % base)] := by
  have hpos : n ≠ 0 := by
    rintro rfl
    exact hn (Nat.zero_div base)
  unfold numeral
  rw [if_neg hpos, if_neg hn, Nat.digits_def' hbase (Nat.pos_of_ne_zero hpos), List.reverse_cons,
    List.map_append]
  rfl

theorem numeral_small {base : Nat} (hbase : 1 < base) {n : Nat} (hn : n / base = 0) :
    numeral base n = [digitChar (n % base)] := by
  have hlt : n < base := (Nat.div_eq_zero_iff_lt (by omega)).1 hn
  unfold numeral
  by_cases h0 : n = 0
  · rw [if_pos h0, h0, Nat.zero_mod]
  · rw [if_neg h0, Nat.digits_of_lt base n h0 hlt, Nat.mod_eq_of_lt hlt]
    rfl

/-- `itoa` stores the numeral. -/
theorem itoa_eq {base : Nat} (hbase : 1 < base) (n value : Nat) (hvalue : value < base ^ n) (hn : 0 < n) :
    itoa base n value = .ok (numeral base value) := by
  induction n generalizing value with
  | zero => exact absurd hn (by omega)
  | succ n ih =>
      rw [itoa, if_neg (by omega)]
      by_cases h : value / base = 0
      · rw [if_neg (not_not_intro h), numeral_small hbase h]
      · have hlt : value / base < base ^ n := Nat.div_lt_of_lt_mul (by rwa [pow_succ, mul_comm] at hvalue)
        have hn : 0 < n := by
          rcases Nat.eq_zero_or_pos n with rfl | hn
          · rw [pow_zero] at hlt
            exact absurd (Nat.lt_one_iff.1 hlt) h
          · exact hn
        rw [if_pos h, ih _ hlt hn, numeral_step hbase h]

theorem itoa_word {base : Nat} (hbase : 1 < base) (v : BitVec 64) :
    itoa base 64 v.toNat = .ok (numeral base v.toNat) := by
  refine itoa_eq hbase 64 v.toNat (lt_of_lt_of_le v.isLt ?_) (by decide)
  exact Nat.pow_le_pow_left hbase 64

/-- A number has at most `k` digits exactly when it is below the power of the base. -/
theorem length_numeral_le {base : Nat} (hbase : 1 < base) {n k : Nat} (hk : 0 < k) :
    (numeral base n).length ≤ k ↔ n < base ^ k := by
  unfold numeral
  by_cases h0 : n = 0
  · rw [if_pos h0, h0]
    exact iff_of_true hk (Nat.pow_pos (by omega))
  · rw [if_neg h0, List.length_map, List.length_reverse]
    exact Nat.digits_length_le_iff hbase n

theorem digitChar_ne_zero {m : Nat} (h : m < 16) : digitChar m ≠ 0 := by
  revert m
  decide

theorem numeral_ne_nul {base : Nat} (hbase : 1 < base) (hle : base ≤ 16) (n : Nat) : 0 ∉ numeral base n := by
  unfold numeral
  split_ifs with h0
  · decide
  · intro h
    obtain ⟨m, hm, heq⟩ := List.mem_map.1 h
    exact digitChar_ne_zero (lt_of_lt_of_le (Nat.digits_lt_base hbase (List.mem_reverse.1 hm)) hle) heq

/-! ## The numbers -/

section Numbers

variable (w : BitVec 32)

theorem toNat_signExtend_of_nonneg (h : w.msb = false) : (w.signExtend 64).toNat = w.toNat := by
  rw [BitVec.toNat_signExtend, if_neg (by rw [h]; decide), BitVec.toNat_setWidth, Nat.add_zero,
    Nat.mod_eq_of_lt (lt_trans w.isLt (by decide))]

theorem toNat_signExtend_of_neg (h : w.msb = true) :
    (w.signExtend 64).toNat = w.toNat + (2 ^ 64 - 2 ^ 32) := by
  rw [BitVec.toNat_signExtend, if_pos h, BitVec.toNat_setWidth,
    Nat.mod_eq_of_lt (lt_trans w.isLt (by decide))]

/-- `0 - arg_int` is the absolute value, except for the smallest number. -/
theorem toNat_signExtend_neg (hneg : w.toInt < 0) (hmin : w ≠ BitVec.intMin 32) :
    ((0 - w).signExtend 64).toNat = w.toInt.natAbs := by
  have hlt := w.isLt
  have hne : w.toNat ≠ 2 ^ 31 := fun h => hmin (BitVec.eq_of_toNat_eq h)
  have htoInt := BitVec.toInt_eq_toNat_cond w
  have hhigh : 2 ^ 31 < w.toNat := by
    split_ifs at htoInt with h
    · omega
    · omega
  have hsub : (0 - w).toNat = 2 ^ 32 - w.toNat := by
    rw [BitVec.toNat_sub]
    simp
    omega
  rw [toNat_signExtend_of_nonneg _ (by rw [BitVec.msb_eq_false_iff_two_mul_lt]; omega), hsub]
  rw [if_neg (by omega)] at htoInt
  omega

theorem toNat_neg_long {v : BitVec 64} (hneg : v.toInt < 0) : (0 - v).toNat = v.toInt.natAbs := by
  rw [BitVec.toInt_eq_toNat_cond] at hneg ⊢
  have hlt := v.isLt
  rw [BitVec.toNat_sub]
  split_ifs at hneg ⊢ with h
  · omega
  · simp
    omega

theorem toNat_of_nonneg {n : Nat} {v : BitVec n} (h : ¬ v.toInt < 0) : v.toNat = v.toInt.natAbs := by
  rw [BitVec.toInt_eq_toNat_cond] at h ⊢
  have hlt := v.isLt
  split_ifs at h ⊢ with hc
  · rfl
  · omega

end Numbers

/-! ## What a conversion stores -/

theorem putInt_eq {v : BitVec 64} (h : v.setWidth 32 ≠ BitVec.intMin 32) :
    putInt v = .ok (decimal (v.setWidth 32).toInt) := by
  unfold putInt decimal
  dsimp only
  split_ifs with hneg
  · rw [itoa_word (by decide), toNat_signExtend_neg _ hneg h]
  · have hmsb : (v.setWidth 32).msb = false := by
      rw [BitVec.msb_eq_toInt]
      exact decide_eq_false hneg
    rw [itoa_word (by decide), toNat_signExtend_of_nonneg _ hmsb, toNat_of_nonneg hneg]

/-- The smallest `int` comes out with the digits of its sign extension. -/
theorem putInt_min {v : BitVec 64} (h : v.setWidth 32 = BitVec.intMin 32) :
    putInt v = .ok (minusChar :: numeral 10 (2 ^ 64 - 2 ^ 31)) := by
  unfold putInt
  dsimp only
  rw [h, if_pos (by decide), itoa_word (by decide)]
  rfl

theorem length_decimal_min : (decimal (BitVec.intMin 32).toInt).length <
    (minusChar :: numeral 10 (2 ^ 64 - 2 ^ 31)).length := by
  have hshort : (numeral 10 (2 ^ 31)).length ≤ 10 := (length_numeral_le (by decide) (by decide)).2 (by decide)
  have hlong : ¬ (numeral 10 (2 ^ 64 - 2 ^ 31)).length ≤ 10 := by
    rw [length_numeral_le (by decide) (by decide)]
    decide
  have hdecimal : decimal (BitVec.intMin 32).toInt = minusChar :: numeral 10 (2 ^ 31) := rfl
  rw [hdecimal, List.length_cons, List.length_cons]
  omega

theorem putHex_eq {v : BitVec 64} (h : (v.setWidth 32).msb = false) :
    putHex v = .ok (numeral 16 (v.setWidth 32).toNat) := by
  unfold putHex
  dsimp only
  rw [itoa_word (by decide), toNat_signExtend_of_nonneg _ h]

/-- An `int` with its highest bit set comes out with the digits of its sign extension. -/
theorem putHex_neg {v : BitVec 64} (h : (v.setWidth 32).msb = true) :
    putHex v = .ok (numeral 16 ((v.setWidth 32).toNat + (2 ^ 64 - 2 ^ 32))) := by
  unfold putHex
  dsimp only
  rw [itoa_word (by decide), toNat_signExtend_of_neg _ h]

theorem length_hex_neg (w : BitVec 32) :
    (numeral 16 w.toNat).length < (numeral 16 (w.toNat + (2 ^ 64 - 2 ^ 32))).length := by
  have hshort : (numeral 16 w.toNat).length ≤ 8 := (length_numeral_le (by decide) (by decide)).2 w.isLt
  have hlong : ¬ (numeral 16 (w.toNat + (2 ^ 64 - 2 ^ 32))).length ≤ 8 := by
    rw [length_numeral_le (by decide) (by decide)]
    omega
  omega

theorem putLong_eq (v : BitVec 64) : putLong v = .ok (decimal v.toInt) := by
  unfold putLong decimal
  split_ifs with hneg
  · rw [itoa_word (by decide), toNat_neg_long hneg]
  · rw [itoa_word (by decide), toNat_of_nonneg hneg]

/-! ## One turn of the loop -/

section Turn

variable {v : BitVec 64} {out : List Byte} (n : Nat) (format : List Byte) (args : List Arg) (str : List Byte)

theorem vsprintfLoop_plain {c : Byte} (hc : c ≠ percentChar) :
    vsprintfLoop (n + 1) (c :: format) args str = vsprintfLoop n format args (str ++ [c]) := if_pos hc

theorem vsprintfLoop_int (h : putInt v = .ok out) :
    vsprintfLoop (n + 1) (percentChar :: 100 :: format) (.word v :: args) str =
      vsprintfLoop n format args (str ++ out) := by
  simp [vsprintfLoop, conversion, charOf, putWord, h]

theorem vsprintfLoop_hex (h : putHex v = .ok out) :
    vsprintfLoop (n + 1) (percentChar :: 120 :: format) (.word v :: args) str =
      vsprintfLoop n format args (str ++ out) := by
  simp [vsprintfLoop, conversion, charOf, putWord, h]

theorem vsprintfLoop_long (h : putLong v = .ok out) :
    vsprintfLoop (n + 1) (percentChar :: 108 :: 100 :: format) (.word v :: args) str =
      vsprintfLoop n format args (str ++ out) := by
  simp [vsprintfLoop, conversion, charOf, putWord, h]

theorem vsprintfLoop_longHex (h : putLongHex v = .ok out) :
    vsprintfLoop (n + 1) (percentChar :: 108 :: 120 :: format) (.word v :: args) str =
      vsprintfLoop n format args (str ++ out) := by
  simp [vsprintfLoop, conversion, charOf, putWord, h]

theorem vsprintfLoop_char :
    vsprintfLoop (n + 1) (percentChar :: 99 :: format) (.word v :: args) str =
      vsprintfLoop n format args (str ++ [v.setWidth 8]) := by
  simp [vsprintfLoop, conversion, charOf, putWord, putByte]

theorem vsprintfLoop_string (s : List Byte) :
    vsprintfLoop (n + 1) (percentChar :: 115 :: format) (.str s :: args) str =
      vsprintfLoop n format args (str ++ s) := by
  simp [vsprintfLoop, conversion, charOf, putString]

end Turn

namespace Piece

/-- A turn takes a piece off the format string and its argument off the arguments, and stores what the piece
    stands for, or more when the number is out of range. -/
theorem turn {p : Piece} (hok : p.Ok) : ∃ out,
    (∀ n format args str, vsprintfLoop (n + 1) (p.format ++ format) (p.args ++ args) str =
      vsprintfLoop n format args (str ++ out)) ∧
    (p.InRange → out = p.text) ∧ (¬ p.InRange → p.text.length < out.length) := by
  cases p with
  | plain c =>
      exact ⟨[c], fun n f a s => vsprintfLoop_plain n f a s hok.1, fun _ => rfl, fun h => absurd trivial h⟩
  | int v =>
      by_cases h : v.setWidth 32 = BitVec.intMin 32
      · -- the negation of the smallest number overflows, and its 64 bits are printed
        refine ⟨minusChar :: numeral 10 (2 ^ 64 - 2 ^ 31),
          fun n f a s => vsprintfLoop_int n f a s (putInt_min h), fun hin => absurd h hin, fun _ => ?_⟩
        show (decimal (v.setWidth 32).toInt).length < _
        rw [h]
        exact length_decimal_min
      · exact ⟨_, fun n f a s => vsprintfLoop_int n f a s (putInt_eq h), fun _ => rfl,
          fun hin => absurd h hin⟩
  | hex v =>
      cases h : (v.setWidth 32).msb with
      | true =>
          -- the sign fills the upper half of the word
          refine ⟨_, fun n f a s => vsprintfLoop_hex n f a s (putHex_neg h), fun hin => ?_,
            fun _ => length_hex_neg _⟩
          exact absurd (h.symm.trans hin) (by decide)
      | false =>
          exact ⟨_, fun n f a s => vsprintfLoop_hex n f a s (putHex_eq h), fun _ => rfl,
            fun hin => absurd h hin⟩
  | long v =>
      exact ⟨_, fun n f a s => vsprintfLoop_long n f a s (putLong_eq v), fun _ => rfl,
        fun h => absurd trivial h⟩
  | longHex v =>
      exact ⟨_, fun n f a s => vsprintfLoop_longHex n f a s (itoa_word (by decide) v), fun _ => rfl,
        fun h => absurd trivial h⟩
  | string t =>
      exact ⟨t, fun n f a s => vsprintfLoop_string n f a s t, fun _ => rfl, fun h => absurd trivial h⟩
  | char v => exact ⟨_, fun n f a s => vsprintfLoop_char n f a s, fun _ => rfl, fun h => absurd trivial h⟩

theorem text_ne_nul {p : Piece} (hok : p.Ok) : 0 ∉ p.text := by
  have hdecimal : ∀ z, 0 ∉ decimal z := by
    intro z
    unfold decimal
    split_ifs
    · intro h
      rcases List.mem_cons.1 h with h | h
      · exact absurd h (by decide)
      · exact numeral_ne_nul (by decide) (by decide) _ h
    · exact numeral_ne_nul (by decide) (by decide) _
  cases p with
  | plain c => exact fun h => hok.2 (List.mem_singleton.1 h).symm
  | int v => exact hdecimal _
  | hex v => exact numeral_ne_nul (by decide) (by decide) _
  | long v => exact hdecimal _
  | longHex v => exact numeral_ne_nul (by decide) (by decide) _
  | string t => exact hok
  | char v => exact fun h => hok (List.mem_singleton.1 h).symm

theorem format_ne_nil (p : Piece) : 0 < p.format.length := by cases p <;> exact Nat.succ_pos _

end Piece

/-! ## The whole string -/

/-- The loop goes through the pieces one turn at a time. -/
theorem vsprintfLoop_run {pieces : List Piece} (hok : ∀ p ∈ pieces, p.Ok) : ∃ out,
    (∀ n more str, pieces.length < n →
      vsprintfLoop n (pieces.flatMap Piece.format) (pieces.flatMap Piece.args ++ more) str =
        .ok (str ++ out)) ∧
    (pieces.flatMap Piece.text).length ≤ out.length ∧
    ((∀ p ∈ pieces, p.InRange) → out = pieces.flatMap Piece.text) ∧
    ((∃ p ∈ pieces, ¬ p.InRange) → (pieces.flatMap Piece.text).length < out.length) := by
  induction pieces with
  | nil =>
      refine ⟨[], fun n more str hn => ?_, Nat.le_refl _, fun _ => rfl, ?_⟩
      · obtain ⟨n, rfl⟩ : ∃ k, n = k + 1 := ⟨n - 1, by omega⟩
        rw [List.append_nil]
        rfl
      · rintro ⟨p, hp, -⟩
        exact absurd hp List.not_mem_nil
  | cons p pieces ih =>
      obtain ⟨out, hturn, hin, hout⟩ := Piece.turn (hok p (List.mem_cons_self ..))
      obtain ⟨out', hrun, hlen', hin', hout'⟩ := ih fun q hq => hok q (List.mem_cons_of_mem _ hq)
      have hlen : p.text.length ≤ out.length := by
        by_cases h : p.InRange
        · rw [hin h]
        · exact Nat.le_of_lt (hout h)
      refine ⟨out ++ out', fun n more str hn => ?_, ?_, fun h => ?_, ?_⟩
      · obtain ⟨n, rfl⟩ : ∃ k, n = k + 1 := ⟨n - 1, by omega⟩
        rw [List.length_cons] at hn
        rw [List.flatMap_cons, List.flatMap_cons, List.append_assoc, hturn, hrun n more _ (by omega),
          List.append_assoc]
      · rw [List.flatMap_cons, List.length_append, List.length_append]
        omega
      · rw [List.flatMap_cons, hin (h p (List.mem_cons_self ..)),
          hin' fun q hq => h q (List.mem_cons_of_mem _ hq)]
      · rintro ⟨q, hq, hnot⟩
        rw [List.flatMap_cons, List.length_append, List.length_append]
        rcases List.mem_cons.1 hq with rfl | hq
        · have := hout hnot
          omega
        · have := hout' ⟨q, hq, hnot⟩
          omega

theorem length_le_format (pieces : List Piece) : pieces.length ≤ (pieces.flatMap Piece.format).length := by
  induction pieces with
  | nil => exact Nat.le_refl _
  | cons p pieces ih =>
      have hpos := p.format_ne_nil
      rw [List.flatMap_cons, List.length_append, List.length_cons]
      omega

/-- `strlen` of a string with its NUL. -/
theorem strlen_append {str : List Byte} (h : 0 ∉ str) : strlen (str ++ [0]) = str.length := by
  have hne : ∀ c ∈ str, (c != 0) = true := by
    intro c hc
    rw [bne_iff_ne]
    rintro rfl
    exact h hc
  unfold strlen
  rw [List.takeWhile_append_of_pos hne]
  simp

theorem vsprintf_eq {pieces : List Piece} {more : List Arg} {out : List Byte}
    (hrun : ∀ n str, pieces.length < n →
      vsprintfLoop n (pieces.flatMap Piece.format) (pieces.flatMap Piece.args ++ more) str = .ok (str ++ out)) :
    vsprintf (pieces.flatMap Piece.format) (pieces.flatMap Piece.args ++ more) =
      .ok (out ++ [0], strlen (out ++ [0])) := by
  have hfuel := length_le_format pieces
  unfold vsprintf
  rw [hrun _ [] (by omega)]
  rfl

section Prints

variable {pieces : List Piece} (hok : ∀ p ∈ pieces, p.Ok) (more : List Arg)

include hok

theorem prints_of_inRange (h : ∀ p ∈ pieces, p.InRange) : Prints pieces more := by
  obtain ⟨out, hrun, -, hin, -⟩ := vsprintfLoop_run hok
  unfold Prints
  rw [vsprintf_eq fun n => hrun n more, hin h, strlen_append]
  intro hmem
  obtain ⟨p, hp, hnul⟩ := List.mem_flatMap.1 hmem
  exact Piece.text_ne_nul (hok p hp) hnul

/-- A number out of range makes the output too long. -/
theorem not_prints {p : Piece} (hp : p ∈ pieces) (h : ¬ p.InRange) : ¬ Prints pieces more := by
  obtain ⟨out, hrun, -, -, hout⟩ := vsprintfLoop_run hok
  intro hprints
  unfold Prints at hprints
  rw [vsprintf_eq fun n => hrun n more] at hprints
  have heq : out ++ [0] = pieces.flatMap Piece.text ++ [0] := congrArg Prod.fst (Except.ok.inj hprints)
  have hlt := hout ⟨p, hp, h⟩
  rw [List.append_cancel_right heq] at hlt
  exact absurd hlt (Nat.lt_irrefl _)

end Prints

/-- `vsprintf` formats its arguments exactly when no `%d` is given the smallest `int` and no `%x` an `int`
    with its highest bit set. -/
theorem prints_iff {pieces : List Piece} (hok : ∀ p ∈ pieces, p.Ok) (more : List Arg) :
    Prints pieces more ↔ ∀ p ∈ pieces, p.InRange :=
  ⟨fun h _ hp => by_contra fun hnot => not_prints hok more hp hnot h, prints_of_inRange hok more⟩

/-- `"a%d"` with `5`. -/
theorem prints_iff_letter : Prints [.plain 97, .int 5] [] ↔
    ∀ p ∈ [Piece.plain 97, .int 5], p.InRange := by
  refine prints_iff (fun p hp => ?_) []
  rcases List.mem_cons.1 hp with rfl | hp
  · exact ⟨by decide, by decide⟩
  · rw [List.mem_singleton.1 hp]
    trivial

/-- `"%d"` with the smallest `int`. -/
theorem not_prints_int_min : ¬ Prints [.int 0x80000000] [] := by
  refine not_prints (fun p hp => ?_) [] (List.mem_singleton_self _) fun h => h (by decide)
  rw [List.mem_singleton.1 hp]
  trivial

end RecoverOS
