import RecoverOS.Base.Bytes
import RecoverOS.Base.Prog
import RecoverOS.Base.Words

set_option autoImplicit false

/-! # Splitting a command (`shell/shell.c`)

`cmd_parse` walks over a string once. It puts the place where each word begins in `argv`, and a NUL
over the character that ends it. The array the string stands in is a list of characters, pointers into
it are offsets, and nothing may be read past its end or stored past the end of `argv`. -/

namespace RecoverOS

/-- `MAX_ARG_NR`. -/
abbrev MAX_ARG_NR : Nat := 16

/-- The array that `cmd_str` points into, and `argv`, with `none` for `NULL`. -/
structure Parse where
  line : List Byte
  argv : Nat → Option Nat

/-! ## The code -/

/-- The character at an offset. -/
def charAt (pos : Nat) : Prog Parse Byte := fun s => Prog.ofOption s.line[pos]? s

/-- Store a character. -/
def setChar (pos : Nat) (c : Byte) : Prog Parse Unit := do
  let s ← Prog.get
  Prog.require (pos < s.line.length)
  Prog.modify fun s => { s with line := s.line.set pos c }

/-- `argv[idx] = p`. -/
def setArg (idx : Nat) (p : Option Nat) : Prog Parse Unit := do
  Prog.require (idx < MAX_ARG_NR)
  Prog.modify fun s => { s with argv := Function.update s.argv idx p }

/-- The loop that stores `NULL`, with `n` elements left from `arg_idx` on. -/
def clearArgs : Nat → Nat → Prog Parse Unit
  | 0, _ => pure ()
  | n + 1, arg_idx => do
      setArg arg_idx none
      clearArgs n (arg_idx + 1)

/-- `while (go(*next)) ++next;`, where no more than `fuel` characters are read. -/
def skipWhile (go : Byte → Bool) : Nat → Nat → Prog Parse Nat
  | 0, _ => Prog.fault .undefined
  | fuel + 1, next => do
      let c ← charAt next
      if go c then skipWhile go fuel (next + 1) else pure next

/-- `if (*next) *next++ = 0;`. -/
def endWord (next : Nat) : Prog Parse Nat := do
  let c ← charAt next
  if c = 0 then pure next
  else do
    setChar next 0
    pure (next + 1)

/-- The loop of `cmd_parse`. `size` is more than the characters that are left, so that neither this loop
    nor the two inside it end for want of it. -/
def parseLoop (token : Byte) (size : Nat) : Nat → Nat → Nat → Prog Parse Int
  | 0, _, _ => Prog.fault .undefined
  | fuel + 1, next, argc => do
      let c ← charAt next
      if c = 0 then pure argc
      else do
        let next ← skipWhile (· == token) size next
        let c ← charAt next
        if c = 0 then pure argc
        else do
          setArg argc (some next)
          let next ← skipWhile (fun c => c != 0 && c != token) size next
          let next ← endWord next
          if argc > MAX_ARG_NR then pure (-1)
          else parseLoop token size fuel next (argc + 1)

/-- `cmd_parse`. -/
def cmdParse (cmd_str : Nat) (token : Byte) : Prog Parse Int := do
  clearArgs MAX_ARG_NR 0
  let s ← Prog.get
  parseLoop token (s.line.length + 1) (s.line.length + 1) cmd_str 0

/-! ## What each part does -/

section Parts

variable (pre rest : List Byte) {c : Byte} (argv : Nat → Option Nat)

theorem charAt_run : charAt pre.length ⟨pre ++ c :: rest, argv⟩ = .ok (c, ⟨pre ++ c :: rest, argv⟩) := by
  unfold charAt
  simp [Prog.ofOption, Prog.ret]

theorem charAt_head (h : rest.head? = some c) :
    charAt pre.length ⟨pre ++ rest, argv⟩ = .ok (c, ⟨pre ++ rest, argv⟩) := by
  obtain ⟨later, rfl⟩ := List.head?_eq_some_iff.1 h
  exact charAt_run pre later argv

theorem setChar_run (d : Byte) :
    setChar pre.length d ⟨pre ++ c :: rest, argv⟩ = .ok ((), ⟨pre ++ d :: rest, argv⟩) := by
  have hset : (pre ++ c :: rest).set pre.length d = pre ++ d :: rest := by simp
  unfold setChar
  rw [Prog.bind_of_ok (show Prog.get _ = .ok (_, _) from rfl),
    Prog.run_require_bind (by simp), Prog.run_modify]
  simp only [hset]

theorem endWord_nul : endWord pre.length ⟨pre ++ 0 :: rest, argv⟩ = .ok (pre.length, ⟨pre ++ 0 :: rest, argv⟩) := by
  unfold endWord
  rw [Prog.bind_of_ok (charAt_run pre rest argv), if_pos rfl]
  rfl

theorem endWord_token (hc : c ≠ 0) :
    endWord pre.length ⟨pre ++ c :: rest, argv⟩ = .ok (pre.length + 1, ⟨pre ++ 0 :: rest, argv⟩) := by
  unfold endWord
  rw [Prog.bind_of_ok (charAt_run pre rest argv), if_neg hc, Prog.bind_of_ok (setChar_run pre rest argv 0)]
  rfl

theorem skipWhile_run {go : Byte → Bool} {w : List Byte} (hw : ∀ d ∈ w, go d = true) (hc : go c = false)
    {fuel : Nat} (hfuel : w.length < fuel) :
    skipWhile go fuel pre.length ⟨pre ++ (w ++ c :: rest), argv⟩ =
      .ok ((pre ++ w).length, ⟨pre ++ (w ++ c :: rest), argv⟩) := by
  induction w generalizing pre fuel with
  | nil =>
      obtain ⟨fuel, rfl⟩ : ∃ n, fuel = n + 1 := ⟨fuel - 1, by omega⟩
      rw [skipWhile, List.nil_append, Prog.bind_of_ok (charAt_run pre rest argv), hc, List.append_nil]
      rfl
  | cons d w ih =>
      obtain ⟨fuel, rfl⟩ : ∃ n, fuel = n + 1 := ⟨fuel - 1, by omega⟩
      rw [List.length_cons] at hfuel
      have hlater := ih (pre ++ [d]) (fun e he => hw e (List.mem_cons_of_mem _ he))
        (show w.length < fuel by omega)
      simp only [List.append_assoc, List.cons_append, List.nil_append, List.length_append,
        List.length_cons, List.length_nil, Nat.zero_add] at hlater
      rw [skipWhile, List.cons_append, Prog.bind_of_ok (charAt_run pre _ argv), hw d (List.mem_cons_self ..),
        if_pos rfl, hlater]
      simp only [List.length_append, List.length_cons]

theorem setArg_run {idx : Nat} (h : idx < MAX_ARG_NR) (p : Option Nat) (s : Parse) :
    setArg idx p s = .ok ((), { s with argv := Function.update s.argv idx p }) := by
  unfold setArg
  rw [Prog.run_require_bind h, Prog.run_modify]

theorem setArg_bind_outside {α : Type} {idx : Nat} (h : ¬ idx < MAX_ARG_NR) (p : Option Nat) (s : Parse)
    (k : Unit → Prog Parse α) : (setArg idx p >>= k) s = .error .undefined := by
  refine Prog.bind_of_error ?_ k
  unfold setArg
  exact Prog.run_require_bind_not h _ s

theorem clearArgs_run (n arg_idx : Nat) (h : arg_idx + n ≤ MAX_ARG_NR) (s : Parse) :
    clearArgs n arg_idx s =
      .ok ((), { s with argv := fun i => if arg_idx ≤ i ∧ i < arg_idx + n then none else s.argv i }) := by
  induction n generalizing arg_idx s with
  | zero =>
      have hnone : (fun i => if arg_idx ≤ i ∧ i < arg_idx + 0 then none else s.argv i) = s.argv := by
        funext i
        rw [if_neg (by omega)]
      rw [hnone]
      rfl
  | succ n ih =>
      rw [clearArgs, Prog.bind_of_ok (setArg_run (by omega) none s), ih (arg_idx + 1) (by omega)]
      congr 3
      funext i
      by_cases hi : i = arg_idx
      · subst hi
        rw [if_neg (by omega), if_pos (by omega)]
        exact Function.update_self ..
      · show (if _ then none else Function.update s.argv arg_idx none i) = _
        rw [Function.update_of_ne hi]
        by_cases hin : arg_idx + 1 ≤ i ∧ i < arg_idx + 1 + n
        · rw [if_pos hin, if_pos (by omega)]
        · rw [if_neg hin, if_neg (by omega)]

end Parts

/-! ## The loop -/

/-- `argv` after the pointers of `ps` were stored from index `argc` on. -/
def fillArgs (argv : Nat → Option Nat) (argc : Nat) (ps : List Nat) : Nat → Option Nat := fun i =>
  if argc ≤ i ∧ i < argc + ps.length then ps[i - argc]? else argv i

theorem fillArgs_nil (argv : Nat → Option Nat) (argc : Nat) : fillArgs argv argc [] = argv := by
  funext i
  exact if_neg (by simp only [List.length_nil]; omega)

theorem fillArgs_cons (argv : Nat → Option Nat) (argc p : Nat) (ps : List Nat) :
    fillArgs argv argc (p :: ps) = fillArgs (Function.update argv argc (some p)) (argc + 1) ps := by
  funext i
  unfold fillArgs
  rw [List.length_cons]
  by_cases hi : i = argc
  · subst hi
    rw [if_pos (by omega), if_neg (by omega), Function.update_self, Nat.sub_self]
    rfl
  · rw [Function.update_of_ne hi]
    by_cases hin : argc + 1 ≤ i ∧ i < argc + 1 + ps.length
    · obtain ⟨j, rfl⟩ : ∃ j, i = argc + 1 + j := ⟨i - (argc + 1), by omega⟩
      rw [if_pos (by omega), if_pos hin, show argc + 1 + j - argc = j + 1 by omega,
        List.getElem?_cons_succ, Nat.add_sub_cancel_left]
    · rw [if_neg (by omega), if_neg hin]

/-- What the loop leaves when the words of the rest begin at `ps` and `line` is cut: `argv` must have room. -/
def parsed (argc : Nat) (ps : List Nat) (line : List Byte) (argv : Nat → Option Nat) :
    Except Fault (Int × Parse) :=
  if argc + ps.length ≤ MAX_ARG_NR then .ok ((argc + ps.length : Nat), ⟨line, fillArgs argv argc ps⟩)
  else .error .undefined

theorem parsed_nil {argc : Nat} (h : argc ≤ MAX_ARG_NR) (line : List Byte) (argv : Nat → Option Nat) :
    parsed argc [] line argv = .ok (argc, ⟨line, argv⟩) := by
  unfold parsed
  rw [fillArgs_nil]
  exact if_pos h

theorem parsed_cons (argc p : Nat) (ps : List Nat) (line : List Byte) (argv : Nat → Option Nat) :
    parsed argc (p :: ps) line argv = parsed (argc + 1) ps line (Function.update argv argc (some p)) := by
  unfold parsed
  rw [fillArgs_cons, List.length_cons, Nat.add_assoc, Nat.add_comm 1]

section Loop

variable {token : Byte} (htoken : token ≠ 0) (pre : List Byte) {seps w rest : List Byte}
  (hseps : ∀ c ∈ seps, c = token) (argv : Nat → Option Nat) {argc : Nat} {size : Nat} (fuel : Nat)

include htoken hseps

/-- One turn that finds no word any more. -/
theorem parseLoop_seps (hsize : seps.length < size) :
    parseLoop token size (fuel + 1) pre.length argc ⟨pre ++ (seps ++ 0 :: rest), argv⟩ =
      .ok (argc, ⟨pre ++ (seps ++ 0 :: rest), argv⟩) := by
  have hskip : skipWhile (· == token) size pre.length ⟨pre ++ (seps ++ 0 :: rest), argv⟩ = _ :=
    skipWhile_run pre rest argv (fun d hd => by simpa using hseps d hd) (by simpa using htoken.symm) hsize
  have hend := charAt_run (pre ++ seps) rest argv (c := 0)
  rw [List.append_assoc] at hend
  obtain ⟨c, hc⟩ : ∃ c, (seps ++ 0 :: rest).head? = some c := by
    cases seps with
    | nil => exact ⟨0, rfl⟩
    | cons c seps => exact ⟨c, rfl⟩
  rw [parseLoop, Prog.bind_of_ok (charAt_head pre _ argv hc)]
  by_cases hnul : c = 0
  · rw [if_pos hnul]
    rfl
  · rw [if_neg hnul, Prog.bind_of_ok hskip, Prog.bind_of_ok hend, if_pos rfl]
    rfl

/-- A turn that comes to a word, up to the store to `argv`. -/
theorem parseLoop_enter {d : Byte} (hword : d ≠ token) (hnul : d ≠ 0) (hsize : seps.length < size) :
    parseLoop token size (fuel + 1) pre.length argc ⟨pre ++ (seps ++ d :: rest), argv⟩ =
      (do
        setArg argc (some (pre ++ seps).length)
        let next ← skipWhile (fun c => c != 0 && c != token) size (pre ++ seps).length
        let next ← endWord next
        if argc > MAX_ARG_NR then pure (-1)
        else parseLoop token size fuel next (argc + 1)) ⟨pre ++ seps ++ d :: rest, argv⟩ := by
  have hskip : skipWhile (· == token) size pre.length ⟨pre ++ (seps ++ d :: rest), argv⟩ = _ :=
    skipWhile_run pre rest argv (fun e he => by simpa using hseps e he) (by simpa using hword) hsize
  have hstop := charAt_run (pre ++ seps) rest argv (c := d)
  rw [List.append_assoc] at hstop
  obtain ⟨e, hfirst, he⟩ : ∃ e, (seps ++ d :: rest).head? = some e ∧ e ≠ 0 := by
    cases seps with
    | nil => exact ⟨d, rfl, hnul⟩
    | cons e seps => exact ⟨e, rfl, hseps e (List.mem_cons_self ..) ▸ htoken⟩
  rw [parseLoop, Prog.bind_of_ok (charAt_head pre _ argv hfirst), if_neg he, Prog.bind_of_ok hskip,
    Prog.bind_of_ok hstop, if_neg hnul, List.append_assoc]

variable (hw : w ≠ []) (hword : ∀ c ∈ w, c ≠ token ∧ c ≠ 0)

include hw hword

/-- A turn that finds a word: it is entered, skipped and cut off. -/
theorem parseLoop_word {c : Byte} (hend : c = 0 ∨ c = token) (hargc : argc < MAX_ARG_NR)
    (hsize : seps.length + w.length < size) {next : Nat} {rest' : List Byte}
    (hcut : ∀ argv, endWord (pre ++ seps ++ w).length ⟨pre ++ seps ++ w ++ c :: rest, argv⟩ =
      .ok (next, ⟨pre ++ seps ++ w ++ rest', argv⟩)) :
    parseLoop token size (fuel + 1) pre.length argc ⟨pre ++ (seps ++ (w ++ c :: rest)), argv⟩ =
      parseLoop token size fuel next (argc + 1)
        ⟨pre ++ seps ++ w ++ rest', Function.update argv argc (some (pre ++ seps).length)⟩ := by
  have hskip : skipWhile (fun c => c != 0 && c != token) size (pre ++ seps).length
      ⟨pre ++ seps ++ (w ++ c :: rest), Function.update argv argc (some (pre ++ seps).length)⟩ = _ :=
    skipWhile_run (pre ++ seps) rest _
      (fun e he => by rw [bne_iff_ne.2 (hword e he).1, bne_iff_ne.2 (hword e he).2]; rfl)
      (by rcases hend with rfl | rfl <;> simp) (show w.length < size by omega)
  obtain ⟨d, w, rfl⟩ := List.exists_cons_of_ne_nil hw
  obtain ⟨hd, hnul⟩ := hword d (List.mem_cons_self ..)
  rw [List.cons_append, parseLoop_enter htoken pre hseps argv fuel hd hnul (by omega),
    Prog.bind_of_ok (setArg_run hargc _ _)]
  simp only [← List.cons_append]
  rw [Prog.bind_of_ok hskip, ← List.append_assoc, Prog.bind_of_ok (hcut _), if_neg (by omega)]

/-- A word that `argv` has no room for. -/
theorem parseLoop_full (hargc : MAX_ARG_NR ≤ argc) (hsize : seps.length < size) :
    parseLoop token size (fuel + 1) pre.length argc ⟨pre ++ (seps ++ (w ++ rest)), argv⟩ =
      .error .undefined := by
  obtain ⟨d, w, rfl⟩ := List.exists_cons_of_ne_nil hw
  obtain ⟨hd, hnul⟩ := hword d (List.mem_cons_self ..)
  rw [List.cons_append, parseLoop_enter htoken pre hseps argv fuel hd hnul hsize,
    setArg_bind_outside (by omega)]

end Loop

/-- The loop, from the first character of `str` on. The induction is on what is left of the string, which
    is cut behind its first word. -/
theorem parseLoop_run {token : Byte} (htoken : token ≠ 0) (n : Nat) (pre str post : List Byte)
    (hn : str.length ≤ n) (hstr : 0 ∉ str) (argv : Nat → Option Nat) {argc : Nat}
    (hargc : argc ≤ MAX_ARG_NR) {size : Nat} (hsize : str.length < size) {fuel : Nat}
    (hfuel : str.length < fuel) :
    parseLoop token size fuel pre.length argc ⟨pre ++ (str ++ 0 :: post), argv⟩ =
      parsed argc (Words.starts token true pre.length str)
        (pre ++ (Words.cut token 0 true str ++ 0 :: post)) argv := by
  obtain ⟨fuel, rfl⟩ : ∃ k, fuel = k + 1 := ⟨fuel - 1, by omega⟩
  induction n generalizing pre str argv argc fuel with
  | zero =>
      obtain rfl : str = [] := List.length_eq_zero_iff.1 (by omega)
      rw [parseLoop_seps htoken pre (by simp) argv fuel hsize]
      exact (parsed_nil hargc ..).symm
  | succ n ih =>
      rcases Words.split_cases token str with hall | ⟨seps, w, rest, rfl, hseps, hw, hword, hrest⟩
      · rw [parseLoop_seps htoken pre hall argv fuel hsize, Words.starts_eq_nil hall, Words.cut_eq_self hall]
        exact (parsed_nil hargc ..).symm
      · have hlen : 0 < w.length := List.length_pos_iff.2 hw
        have hnul : ∀ c ∈ w, c ≠ token ∧ c ≠ 0 := by
          refine fun c hc => ⟨hword c hc, fun h => hstr ?_⟩
          rw [← h]
          simp [hc]
        simp only [List.length_append] at hn hsize hfuel
        rw [Words.starts_sep hseps, Words.starts_word hw hword, Words.cut_sep hseps, Words.cut_word hw hword,
          parsed_cons]
        by_cases hroom : argc < MAX_ARG_NR
        · obtain ⟨fuel, rfl⟩ : ∃ k, fuel = k + 1 := ⟨fuel - 1, by omega⟩
          rcases hrest with rfl | ⟨later, rfl⟩
          · -- the word ends the string, and the next turn stands at its NUL
            have hturn := parseLoop_word htoken pre hseps argv (fuel + 1) hw hnul (.inl rfl) hroom
              (show seps.length + w.length < size by omega) fun argv => endWord_nul _ post argv
            rw [List.append_nil, List.append_assoc, hturn]
            have hrec := ih (pre ++ seps ++ w) [] (by simp) (by simp)
              (Function.update argv argc (some (pre ++ seps).length)) hroom
              (by simp only [List.length_nil]; omega) fuel (by simp)
            simp only [List.append_assoc, List.length_append] at hrec ⊢
            exact hrec
          · -- the separator after the word becomes a NUL, and the next turn stands behind it
            rw [List.length_cons] at hn hsize hfuel
            have hturn := parseLoop_word htoken pre hseps argv (fuel + 1) hw hnul (.inr rfl) hroom
              (show seps.length + w.length < size by omega)
              fun argv => endWord_token _ (later ++ 0 :: post) argv htoken
            have hrec := ih (pre ++ seps ++ w ++ [0]) later (by omega) (fun h => hstr
              (List.mem_append_right _ (List.mem_append_right _ (List.mem_cons_of_mem _ h))))
              (Function.update argv argc (some (pre ++ seps).length)) hroom (by omega) fuel (by omega)
            rw [Words.starts, if_pos rfl, Words.cut, if_pos rfl, if_neg Bool.false_ne_true]
            simp only [List.append_assoc, List.length_append, List.cons_append, List.nil_append,
              List.length_cons, List.length_nil, Nat.add_assoc] at hturn hrec ⊢
            rw [hturn, hrec]
        · -- `argv` is full, and one word more makes the call fail
          rw [List.append_assoc, List.append_assoc, parseLoop_full htoken pre hseps argv fuel hw hnul
            (by omega) (by omega)]
          exact (if_neg (by omega)).symm

/-! ## The whole call -/

variable {token : Byte}

/-- `cmd_parse` of a string in an array: its words are found and cut off, if there are no more than
    `MAX_ARG_NR`. -/
theorem cmdParse_run (htoken : token ≠ 0) (pre str post : List Byte) (hstr : 0 ∉ str)
    (argv : Nat → Option Nat) :
    cmdParse pre.length token ⟨pre ++ (str ++ 0 :: post), argv⟩ =
      parsed 0 (Words.starts token true pre.length str) (pre ++ (Words.cut token 0 true str ++ 0 :: post))
        fun i => if i < MAX_ARG_NR then none else argv i := by
  have hargs : (fun i => if 0 ≤ i ∧ i < 0 + MAX_ARG_NR then none else argv i) =
      fun i => if i < MAX_ARG_NR then none else argv i := by
    funext i
    simp only [Nat.zero_le, true_and, Nat.zero_add]
  unfold cmdParse
  rw [Prog.bind_of_ok (clearArgs_run MAX_ARG_NR 0 (by omega) _),
    Prog.bind_of_ok (show Prog.get _ = .ok (_, _) from rfl)]
  simp only [hargs]
  exact parseLoop_run htoken str.length pre str post (Nat.le_refl _) hstr _ (by omega)
    (by simp only [List.length_append, List.length_cons]; omega)
    (by simp only [List.length_append, List.length_cons]; omega)

/-- The number of words of a string. -/
def wordCount (token : Byte) (str : List Byte) : Nat := (Words.starts token true 0 str).length

/-- The array and `argv` after a string was split that stands behind `pre` in the array. -/
def afterParse (token : Byte) (pre str post : List Byte) (argv : Nat → Option Nat) : Parse where
  line := pre ++ (Words.cut token 0 true str ++ 0 :: post)
  argv := fillArgs (fun i => if i < MAX_ARG_NR then none else argv i) 0
    ((Words.starts token true 0 str).map (pre.length + ·))

theorem cmdParse_eq_ok (htoken : token ≠ 0) (pre str post : List Byte) (hstr : 0 ∉ str)
    (argv : Nat → Option Nat) (hm : wordCount token str ≤ MAX_ARG_NR) :
    cmdParse pre.length token ⟨pre ++ (str ++ 0 :: post), argv⟩ =
      .ok (wordCount token str, afterParse token pre str post argv) := by
  have hshift := Words.starts_shift token true 0 pre.length str
  rw [Nat.add_zero] at hshift
  rw [cmdParse_run htoken pre str post hstr argv, hshift]
  unfold parsed
  rw [List.length_map, Nat.zero_add]
  exact if_pos hm

theorem cmdParse_too_many (htoken : token ≠ 0) (pre str post : List Byte) (hstr : 0 ∉ str)
    (argv : Nat → Option Nat) (hm : MAX_ARG_NR < wordCount token str) :
    cmdParse pre.length token ⟨pre ++ (str ++ 0 :: post), argv⟩ = .error .undefined := by
  have hshift := Words.starts_shift token true 0 pre.length str
  rw [Nat.add_zero] at hshift
  rw [cmdParse_run htoken pre str post hstr argv, hshift]
  unfold parsed
  rw [List.length_map, Nat.zero_add]
  exact if_neg (by unfold wordCount at hm; omega)

/-- The C string at an offset. -/
def cString (line : List Byte) (pos : Nat) : List Byte := (line.drop pos).takeWhile (· != 0)

section AfterParse

variable {pre str post : List Byte} {argv : Nat → Option Nat} {i p : Nat}

/-- A word begins with a character other than `token`. -/
theorem starts_char (hp : p ∈ Words.starts token true 0 str) : ∃ c, str[p]? = some c ∧ c ≠ token := by
  obtain ⟨j, c, rfl, hc, hne, -⟩ := (Words.mem_starts true 0 str p).1 hp
  exact ⟨c, by rwa [Nat.zero_add], hne⟩

theorem afterParse_char {j : Nat} {c : Byte} (hj : str[j]? = some c) (hc : c ≠ token) :
    (afterParse token pre str post argv).line[pre.length + j]? = some c := by
  show (pre ++ _)[pre.length + j]? = _
  rw [List.getElem?_append_right (by omega), Nat.add_sub_cancel_left,
    List.getElem?_append_left (by rw [Words.length_cut]; exact (List.getElem?_eq_some_iff.1 hj).1)]
  exact Words.cut_of_ne true str j hj hc

theorem afterParse_end (hp : p ∈ Words.starts token true 0 str) :
    (afterParse token pre str post argv).line[pre.length + (p + (Words.wordAt token str p).length)]? = some 0 := by
  obtain ⟨c, hc, hne⟩ := starts_char hp
  show (pre ++ _)[_]? = _
  rw [List.getElem?_append_right (by omega), Nat.add_sub_cancel_left]
  exact Words.cut_word_end hc hne post

theorem afterParse_argv (hp : (Words.starts token true 0 str)[i]? = some p) :
    (afterParse token pre str post argv).argv i = some (pre.length + p) := by
  have hi : i < (Words.starts token true 0 str).length := (List.getElem?_eq_some_iff.1 hp).1
  unfold afterParse fillArgs
  dsimp only
  rw [if_pos (by rw [List.length_map]; omega), Nat.sub_zero, List.getElem?_map, hp]
  rfl

theorem afterParse_argv_null (hi : wordCount token str ≤ i) (hlt : i < MAX_ARG_NR) :
    (afterParse token pre str post argv).argv i = none := by
  unfold wordCount at hi
  unfold afterParse fillArgs
  dsimp only
  rw [if_neg (by rw [List.length_map]; omega), if_pos hlt]

/-- The C string that an element of `argv` points at is the word. -/
theorem cString_afterParse (hstr : 0 ∉ str) (hp : p ∈ Words.starts token true 0 str) :
    cString (afterParse token pre str post argv).line (pre.length + p) = Words.wordAt token str p := by
  unfold cString
  refine Words.takeWhile_eq (fun d hd => ?_) (fun j hj => ?_) fun d hd => ?_
  · obtain ⟨j, hj⟩ := List.mem_iff_getElem?.1 hd
    rw [bne_iff_ne]
    exact fun h => hstr (h ▸ List.mem_of_getElem? (Words.getElem?_wordAt hj).1)
  · obtain ⟨hchar, hne⟩ := Words.getElem?_wordAt (List.getElem?_eq_getElem hj)
    rw [List.getElem?_drop, List.getElem?_eq_getElem hj, Nat.add_assoc]
    exact afterParse_char hchar hne
  · rw [List.getElem?_drop, Nat.add_assoc, afterParse_end hp, Option.some.injEq] at hd
    rw [← hd]
    rfl

variable (pre post argv) in
/-- A word stands in the line with its NUL behind it. -/
theorem afterParse_word (hstr : 0 ∉ str) (hp : p ∈ Words.starts token true 0 str) :
    ∃ l rest, (afterParse token pre str post argv).line = l ++ (Words.wordAt token str p ++ 0 :: rest) ∧
      l.length = pre.length + p := by
  have hend : (afterParse token pre str post argv).line[pre.length +
      (p + (Words.wordAt token str p).length)]? = some 0 := afterParse_end hp
  have hstring : cString (afterParse token pre str post argv).line _ = _ := cString_afterParse hstr hp
  generalize (afterParse token pre str post argv).line = line at hend hstring
  have hlen := (List.getElem?_eq_some_iff.1 hend).1
  have hdrop : line.drop (pre.length + p) =
      Words.wordAt token str p ++ (line.drop (pre.length + p)).dropWhile (· != 0) := by
    rw [← hstring]
    exact (List.takeWhile_append_dropWhile ..).symm
  rw [← Nat.add_assoc, ← List.getElem?_drop, hdrop, List.getElem?_append_right (Nat.le_refl _), Nat.sub_self,
    ← List.head?_eq_getElem?] at hend
  obtain ⟨rest, hrest⟩ := List.head?_eq_some_iff.1 hend
  refine ⟨line.take (pre.length + p), rest, ?_, ?_⟩
  · rw [← hrest, ← hdrop, List.take_append_drop]
  · rw [List.length_take]
    omega

end AfterParse

/-- `cmd_parse` splits a string that stands in an array and has no more than `MAX_ARG_NR` words: it
    returns their number, `argv` has where they begin and is `NULL` from there on, behind every word there
    is a NUL, and the characters of the words stay. -/
theorem cmdParse_splits (htoken : token ≠ 0) (pre str post : List Byte) (hstr : 0 ∉ str)
    (argv : Nat → Option Nat) (hm : wordCount token str ≤ MAX_ARG_NR) :
    ∃ s, cmdParse pre.length token ⟨pre ++ (str ++ 0 :: post), argv⟩ = .ok (wordCount token str, s) ∧
      (∀ i p, (Words.starts token true 0 str)[i]? = some p → s.argv i = some (pre.length + p) ∧
        s.line[pre.length + (p + (Words.wordAt token str p).length)]? = some 0) ∧
      (∀ i, wordCount token str ≤ i → i < MAX_ARG_NR → s.argv i = none) ∧
      ∀ j c, str[j]? = some c → c ≠ token → s.line[pre.length + j]? = some c := by
  refine ⟨_, cmdParse_eq_ok htoken pre str post hstr argv hm, fun i p hp => ?_, fun i => ?_,
    fun j c => ?_⟩
  · exact ⟨afterParse_argv hp, afterParse_end (List.mem_of_getElem? hp)⟩
  · exact afterParse_argv_null
  · exact afterParse_char

/-- `" ls  /"` split at blanks. -/
theorem cmdParse_splits_ls :
    ∃ s, cmdParse 0 32 ⟨[32, 108, 115, 32, 32, 47, 0], fun _ => some 7⟩ = .ok (2, s) ∧
      s.argv 0 = some 1 ∧ s.argv 1 = some 5 ∧ s.line[3]? = some 0 ∧ s.argv 2 = none := by
  have htoken : (32 : Byte) ≠ 0 := by decide
  obtain ⟨s, hs, hwords, hnull, -⟩ := cmdParse_splits htoken [] [32, 108, 115, 32, 32, 47] [] (by decide)
    (fun _ => some 7) (by decide)
  exact ⟨s, hs, (hwords 0 1 (by decide)).1, (hwords 1 5 (by decide)).1, (hwords 0 1 (by decide)).2,
    hnull 2 (by decide) (by decide)⟩

end RecoverOS
