import RecoverOS.Lib.Stdio
import RecoverOS.LibKernel.Print

set_option autoImplicit false

/-! # Numerals (`lib/stdio.c`, `lib/kernel/print.c`)

`itoa` calls itself for the digits in front of the last one and stores behind them, moving the pointer that it
was given. `put_num` fills an array from the last digit on and prints it backwards. -/

namespace RecoverOS

/-! ## The code -/

/-- `itoa`, with what is stored and where `*buf` points. -/
def itoaStore (base : Nat) : Nat → Nat → Nat × Buf → Except Fault (Nat × Buf)
  | 0, _, _ => .error .undefined
  | n + 1, value, buf =>
      if base = 0 then .error .undefined
      else
        let rest := if value / base ≠ 0 then itoaStore base n (value / base) buf else .ok buf
        match rest with
        | .error e => .error e
        | .ok buf => .ok (buf.1 + 1, Function.update buf.2 buf.1 (digitChar (value % base)))

/-- The character of the last hexadecimal digit. -/
def hexChar (num : Nat) : Byte :=
  let c : Byte := BitVec.ofNat 8 (num % 16 + 48)
  if c > 57 then c + 39 else c

/-- The first loop of `put_num`, from index `i` on with `n` turns left. -/
def fillDbuf : Nat → Nat → Nat → (Nat → Byte) → Nat → Byte
  | 0, _, _, dbuf => dbuf
  | n + 1, i, num, dbuf => fillDbuf n (i + 1) (num / 16) (Function.update dbuf i (hexChar num))

namespace Screen

/-- The second loop of `put_num`, from index `i` down to 1. -/
def putDigits (dbuf : Nat → Byte) : Nat → Bool → Screen → Screen
  | 0, _, s => s
  | i + 1, suf, s =>
      if dbuf (i + 1) ≠ 48 ∨ suf = true then putDigits dbuf i true (s.putChar (dbuf (i + 1)))
      else putDigits dbuf i suf s

/-- `put_num`; `dbuf` is what its array holds before. -/
def putNum (num : Nat) (dbuf : Nat → Byte) (s : Screen) : Screen :=
  (putDigits (fillDbuf 16 0 num dbuf) 15 false s).putChar (fillDbuf 16 0 num dbuf 0)

/-- The characters, put one after the other. -/
def putAll (s : Screen) (cs : List Byte) : Screen := cs.foldl putChar s

end Screen

/-! ## What it is for -/

/-- The digit that a character stands for. -/
def charDigit (c : Byte) : Nat := if c.toNat < 58 then c.toNat - 48 else c.toNat - 55

/-- The number that a numeral stands for. -/
def parseNumeral (base : Nat) (cs : List Byte) : Nat := cs.foldl (fun n c => n * base + charDigit c) 0

/-- `A` to `F` become `a` to `f`. -/
def lowerHex (c : Byte) : Byte := if 65 ≤ c ∧ c ≤ 70 then c + 32 else c

/-- The characters stand in memory from `pos` on. -/
def storeAll (mem : Buf) (pos : Nat) : List Byte → Buf
  | [] => mem
  | c :: cs => storeAll (Function.update mem pos c) (pos + 1) cs

/-! ## `itoa` -/

theorem storeAll_append (mem : Buf) (pos : Nat) (cs : List Byte) (c : Byte) :
    storeAll mem pos (cs ++ [c]) = Function.update (storeAll mem pos cs) (pos + cs.length) c := by
  induction cs generalizing mem pos with
  | nil => rfl
  | cons d cs ih =>
      show storeAll (Function.update mem pos d) (pos + 1) (cs ++ [c]) = _
      rw [ih, List.length_cons, Nat.add_assoc, Nat.add_comm 1]
      rfl

/-- The stores of `itoa` are the characters that it appends. -/
theorem itoaStore_eq {base : Nat} {n value : Nat} {cs : List Byte} (h : itoa base n value = .ok cs)
    (pos : Nat) (mem : Buf) :
    itoaStore base n value (pos, mem) = .ok (pos + cs.length, storeAll mem pos cs) := by
  induction n generalizing value cs with
  | zero => cases h
  | succ n ih =>
      rw [itoa] at h
      rw [itoaStore]
      split_ifs at h ⊢ with hbase hrest
      · split at h
        · cases h
        · next buf hbuf =>
            cases h
            rw [ih hbuf]
            dsimp only
            rw [List.length_append, storeAll_append]
            rfl
      · cases h
        rfl

theorem charDigit_digitChar {m : Nat} (h : m < 16) : charDigit (digitChar m) = m := by
  interval_cases m <;> rfl

theorem digitChar_eq_zero {m : Nat} (h : m < 16) : digitChar m = 48 ↔ m = 0 := by
  interval_cases m <;> decide

theorem parseNumeral_append (base : Nat) (cs : List Byte) (c : Byte) :
    parseNumeral base (cs ++ [c]) = parseNumeral base cs * base + charDigit c := by
  unfold parseNumeral
  rw [List.foldl_append]
  rfl

/-- A numeral is read back. -/
theorem parseNumeral_numeral {base : Nat} (hbase : 1 < base) (hle : base ≤ 16) (n : Nat) :
    parseNumeral base (numeral base n) = n := by
  induction n using Nat.strong_induction_on with
  | _ n ih =>
      have hmod : n % base < base := Nat.mod_lt n (by omega)
      by_cases hn : n / base = 0
      · rw [numeral_small hbase hn]
        have hlt : n < base := (Nat.div_eq_zero_iff_lt (by omega)).1 hn
        show 0 * base + charDigit (digitChar (n % base)) = n
        rw [charDigit_digitChar (by omega), Nat.mod_eq_of_lt hlt, Nat.zero_mul, Nat.zero_add]
      · have hlt : n / base < n := Nat.div_lt_self (Nat.pos_of_ne_zero fun h => hn (by rw [h, Nat.zero_div])) hbase
        rw [numeral_step hbase hn, parseNumeral_append, ih _ hlt, charDigit_digitChar (by omega), Nat.mul_comm]
        exact Nat.div_add_mod n base

/-- It has no leading zero. -/
theorem head_numeral {base : Nat} (hbase : 1 < base) (hle : base ≤ 16) {n : Nat} (h0 : n ≠ 0) :
    ∃ c cs, numeral base n = c :: cs ∧ c ≠ 48 := by
  induction n using Nat.strong_induction_on with
  | _ n ih =>
      have hmod : n % base < base := Nat.mod_lt n (by omega)
      by_cases hn : n / base = 0
      · have hlt : n < base := (Nat.div_eq_zero_iff_lt (by omega)).1 hn
        refine ⟨_, [], numeral_small hbase hn, fun hc => h0 ?_⟩
        rwa [Nat.mod_eq_of_lt hlt, digitChar_eq_zero (by omega)] at hc
      · obtain ⟨c, cs, hcs, hc⟩ := ih _ (Nat.div_lt_self (Nat.pos_of_ne_zero h0) hbase) hn
        refine ⟨c, cs ++ [digitChar (n % base)], ?_, hc⟩
        rw [numeral_step hbase hn, hcs, List.cons_append]

/-! ## `put_num` -/

theorem hexChar_eq (num : Nat) : hexChar num = lowerHex (digitChar (num % 16)) := by
  have hall : ∀ d < 16, hexChar d = lowerHex (digitChar d) := by decide
  have hmod : num % 16 < 16 := Nat.mod_lt num (by decide)
  rw [← hall _ hmod]
  unfold hexChar
  rw [Nat.mod_mod]

theorem hexChar_eq_zero (num : Nat) : hexChar num = 48 ↔ num % 16 = 0 := by
  have hall : ∀ d < 16, hexChar d = 48 ↔ d = 0 := by decide
  have hmod : num % 16 < 16 := Nat.mod_lt num (by decide)
  rw [← hall _ hmod]
  unfold hexChar
  rw [Nat.mod_mod]

theorem fillDbuf_apply (n i num : Nat) (dbuf : Nat → Byte) (k : Nat) :
    fillDbuf n i num dbuf k = if i ≤ k ∧ k < i + n then hexChar (num / 16 ^ (k - i)) else dbuf k := by
  induction n generalizing i num dbuf with
  | zero =>
      rw [if_neg (by omega)]
      rfl
  | succ n ih =>
      rw [fillDbuf, ih]
      by_cases hk : k = i
      · subst hk
        rw [if_neg (by omega), if_pos (by omega), Function.update_self, Nat.sub_self, Nat.pow_zero, Nat.div_one]
      · by_cases hin : i + 1 ≤ k ∧ k < i + 1 + n
        · rw [if_pos hin, if_pos (by omega), Nat.div_div_eq_div_mul,
            show k - i = k - (i + 1) + 1 by omega, Nat.pow_succ, Nat.mul_comm 16]
        · rw [if_neg hin, if_neg (by omega), Function.update_of_ne hk]

namespace Screen

/-- The screen once the digits of a number were put on it; of zero there are none. -/
def putHigh (s : Screen) (h : Nat) : Screen :=
  if h = 0 then s else s.putAll ((numeral 16 h).map lowerHex)

/-- One digit more. -/
theorem putChar_putHigh (s : Screen) (h : Nat) :
    (s.putHigh (h / 16)).putChar (hexChar h) = s.putAll ((numeral 16 h).map lowerHex) := by
  unfold putHigh putAll
  split_ifs with hh
  · rw [numeral_small (by decide) hh, hexChar_eq]
    rfl
  · rw [numeral_step (by decide) hh, List.map_append, List.foldl_append, hexChar_eq]
    rfl

/-- The second loop prints the digits in front of the last one. -/
theorem putDigits_run (s : Screen) (num : Nat) {dbuf : Nat → Byte} (i : Nat)
    (hdbuf : ∀ k ≤ i, dbuf k = hexChar (num / 16 ^ k)) :
    putDigits dbuf i (decide (num / 16 ^ (i + 1) ≠ 0)) (s.putHigh (num / 16 ^ (i + 1))) =
      s.putHigh (num / 16) := by
  induction i with
  | zero =>
      rw [Nat.zero_add, Nat.pow_one]
      rfl
  | succ i ih =>
      have hdiv : num / 16 ^ (i + 1 + 1) = num / 16 ^ (i + 1) / 16 := by
        rw [Nat.div_div_eq_div_mul, Nat.pow_succ 16 (i + 1)]
      have hrest := ih fun k hk => hdbuf k (by omega)
      rw [putDigits, hdbuf (i + 1) (Nat.le_refl _), hdiv]
      by_cases hzero : num / 16 ^ (i + 1) = 0
      · -- no digit yet
        rw [hzero] at hrest ⊢
        exact hrest
      · have hprint : hexChar (num / 16 ^ (i + 1)) ≠ 48 ∨ decide (num / 16 ^ (i + 1) / 16 ≠ 0) = true := by
          rw [decide_eq_true_iff, ne_eq, hexChar_eq_zero]
          omega
        rw [if_pos hprint, putChar_putHigh]
        rw [decide_eq_true hzero, putHigh, if_neg hzero] at hrest
        exact hrest

/-- `put_num` prints the numeral in lower case. -/
theorem putNum_eq (s : Screen) {num : Nat} (h : num < 2 ^ 64) (dbuf : Nat → Byte) :
    putNum num dbuf s = s.putAll ((numeral 16 num).map lowerHex) := by
  have hbuf : ∀ k ≤ 15, fillDbuf 16 0 num dbuf k = hexChar (num / 16 ^ k) := by
    intro k hk
    rw [fillDbuf_apply, if_pos (by omega), Nat.sub_zero]
  have hrun := putDigits_run s num 15 hbuf
  rw [show num / 16 ^ (15 + 1) = 0 from Nat.div_eq_of_lt h] at hrun
  unfold putNum
  rw [hbuf 0 (Nat.zero_le _), Nat.pow_zero, Nat.div_one]
  exact (congrArg (fun t => putChar t (hexChar num)) hrun).trans (putChar_putHigh s num)

end Screen

end RecoverOS
