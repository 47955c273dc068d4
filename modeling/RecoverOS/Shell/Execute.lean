import RecoverOS.Shell.CmdParse

set_option autoImplicit false

/-! # Running a command (`shell/shell.c`)

`cmd_execute` on what `cmd_parse` left, up to the loop of `sys_execv` that counts the arguments in
`argv`. -/

namespace RecoverOS

/-! ## Running one command -/

/-- What the system calls of `cmd_execute` answer: whether `fork` makes a child, and whether `stat` finds
    a path. -/
structure Answers where
  forks : Bool
  stat : List Byte → Bool

/-- How a command is run: by the shell itself, or by a child, which ends in `exit` or in `execv`. -/
inductive Command where
  | help
  | clear
  | ps
  | noChild
  | exit
  | execv
  deriving DecidableEq, Repr

/-- `strcmp` of a literal and the string at an offset. -/
def strcmp : List Byte → Nat → Prog Parse Int
  | [], b => do
      let c ← charAt b
      pure (0 - c.toInt)
  | d :: a, b => do
      let c ← charAt b
      if d = c then strcmp a (b + 1) else pure (d.toInt - c.toInt)

/-- `"help"`. -/
abbrev helpName : List Byte := [104, 101, 108, 112]

/-- `"clear"`. -/
abbrev clearName : List Byte := [99, 108, 101, 97, 114]

/-- `"ps"`. -/
abbrev psName : List Byte := [112, 115]

/-- `cmd_execute`. The first `strcmp` asserts that `argv[0]` is not `NULL`. -/
def cmdExecute (k : Answers) : Prog Parse Command := do
  let s ← Prog.get
  match s.argv 0 with
  | none => Prog.fault .panic
  | some p => do
      let r ← strcmp helpName p
      if r = 0 then pure .help
      else do
        let r ← strcmp clearName p
        if r = 0 then pure .clear
        else do
          let r ← strcmp psName p
          if r = 0 then pure .ps
          else if k.forks = false then pure .noChild
          else if k.stat (cString s.line p) = false then pure .exit
          else pure .execv

/-- The loop of `sys_execv` that counts the arguments, which may not leave the array. -/
def countArgs : Nat → Nat → Prog Parse Nat
  | 0, _ => Prog.fault .undefined
  | n + 1, argc => do
      Prog.require (argc < MAX_ARG_NR)
      let s ← Prog.get
      if s.argv argc = none then pure argc else countArgs n (argc + 1)

/-- The words are refused if there are too many, and `argv` ends where a program is started: `cmd_parse`
    stores to its elements only. -/
def Refuses (k : Answers) (token : Byte) (pre str post : List Byte) (argv : Nat → Option Nat) : Prop :=
  ∃ r s, cmdParse pre.length token ⟨pre ++ (str ++ 0 :: post), argv⟩ = .ok (r, s) ∧
    (MAX_ARG_NR < wordCount token str → r = -1) ∧
    ∀ t, cmdExecute k s = .ok (.execv, t) →
      (∃ i < MAX_ARG_NR, t.argv i = none) ∧ ∃ argc u, countArgs (MAX_ARG_NR + 1) 0 t = .ok (argc, u)

/-- A word that is run by a program. -/
def Answers.Starts (k : Answers) (w : List Byte) : Prop :=
  w ≠ helpName ∧ w ≠ clearName ∧ w ≠ psName ∧ k.forks = true ∧ k.stat w = true

/-! ### The name of the command -/

theorem toInt_sub_eq_zero {c d : Byte} : d.toInt - c.toInt = 0 ↔ d = c := by
  rw [Int.sub_eq_zero]
  exact ⟨BitVec.eq_of_toInt_eq, congrArg _⟩

/-- `strcmp` returns `0` on the string that it is given as a literal, and on no other. -/
theorem strcmp_run (argv : Nat → Option Nat) {a : List Byte} (ha : 0 ∉ a) (pre w rest : List Byte)
    (hw : 0 ∉ w) :
    ∃ r, strcmp a pre.length ⟨pre ++ (w ++ 0 :: rest), argv⟩ = .ok (r, ⟨pre ++ (w ++ 0 :: rest), argv⟩) ∧
      (r = 0 ↔ w = a) := by
  induction a generalizing pre w with
  | nil =>
      cases w with
      | nil =>
          refine ⟨0, ?_, by simp⟩
          rw [List.nil_append, strcmp, Prog.bind_of_ok (charAt_run pre rest argv)]
          rfl
      | cons c w =>
          refine ⟨0 - c.toInt, ?_, ?_⟩
          · rw [List.cons_append, strcmp, Prog.bind_of_ok (charAt_run pre _ argv)]
            rfl
          · -- the word goes on where the literal ends
            have hc : c ≠ 0 := fun h => hw (h ▸ List.mem_cons_self ..)
            refine iff_of_false (fun h => hc ?_) (List.cons_ne_nil c w)
            exact (toInt_sub_eq_zero (d := 0).1 h).symm
  | cons d a ih =>
      have hd : d ≠ 0 := fun h => ha (h ▸ List.mem_cons_self ..)
      cases w with
      | nil =>
          refine ⟨d.toInt - (0 : Byte).toInt, ?_, ?_⟩
          · rw [List.nil_append, strcmp, Prog.bind_of_ok (charAt_run pre rest argv), if_neg hd]
            rfl
          · exact iff_of_false (fun h => hd (toInt_sub_eq_zero.1 h)) (List.cons_ne_nil d a).symm
      | cons c w =>
          by_cases hdc : d = c
          · subst hdc
            obtain ⟨r, hr, hiff⟩ := ih (fun h => ha (List.mem_cons_of_mem _ h)) (pre ++ [d]) w
              (fun h => hw (List.mem_cons_of_mem _ h))
            refine ⟨r, ?_, by rw [hiff, List.cons_inj_right]⟩
            simp only [List.append_assoc, List.cons_append, List.nil_append, List.length_append,
              List.length_cons, List.length_nil, Nat.zero_add] at hr
            rw [List.cons_append, strcmp, Prog.bind_of_ok (charAt_run pre _ argv), if_pos rfl, hr]
          · refine ⟨d.toInt - c.toInt, ?_, ?_⟩
            · rw [List.cons_append, strcmp, Prog.bind_of_ok (charAt_run pre _ argv), if_neg hdc]
              rfl
            · refine iff_of_false (fun h => hdc (toInt_sub_eq_zero.1 h)) fun h => hdc ?_
              exact (List.cons.inj h).1.symm

theorem strcmp_state (a : List Byte) (b : Nat) : (strcmp a b).Extends (· = ·) := by
  have hchar : ∀ pos, (charAt pos).Extends (· = ·) := fun pos s c t hrun => (Prog.ofOption_eq_ok.1 hrun).2
  induction a generalizing b with
  | nil => exact .bind (hchar b) fun _ => .pure _
  | cons d a ih => exact .bind (hchar b) fun _ => .ite (ih (b + 1)) (.pure _)

/-- `cmd_execute` stores nothing. -/
theorem cmdExecute_state (k : Answers) : (cmdExecute k).Extends (· = ·) := by
  refine .bind .get fun s => ?_
  cases s.argv 0 with
  | none => exact .fault _
  | some p =>
      refine .bind (strcmp_state _ p) fun _ => .ite (.pure _) (.bind (strcmp_state _ p) fun _ => ?_)
      refine .ite (.pure _) (.bind (strcmp_state _ p) fun _ => .ite (.pure _) ?_)
      exact .ite (.pure _) (.ite (.pure _) (.pure _))

/-- `cmd_execute` comes to `execv` on a word that is run by a program, and on no other. -/
theorem cmdExecute_execv_iff (k : Answers) {pre w rest : List Byte} (hw : 0 ∉ w) {argv : Nat → Option Nat}
    (hargv : argv 0 = some pre.length) (t : Parse) :
    cmdExecute k ⟨pre ++ (w ++ 0 :: rest), argv⟩ = .ok (.execv, t) ↔
      t = ⟨pre ++ (w ++ 0 :: rest), argv⟩ ∧ k.Starts w := by
  have hname : cString (pre ++ (w ++ 0 :: rest)) pre.length = w := by
    unfold cString
    rw [List.drop_left]
    refine Words.takeWhile_eq (fun c hc => ?_) (fun j hj => List.getElem?_append_left hj) fun c hc => ?_
    · exact bne_iff_ne.2 fun h => hw (h ▸ hc)
    · rw [List.getElem?_append_right (Nat.le_refl _), Nat.sub_self, List.getElem?_cons_zero,
        Option.some.injEq] at hc
      rw [← hc]
      rfl
  obtain ⟨r1, hr1, hhelp⟩ := strcmp_run argv (a := helpName) (by decide) pre w rest hw
  obtain ⟨r2, hr2, hclear⟩ := strcmp_run argv (a := clearName) (by decide) pre w rest hw
  obtain ⟨r3, hr3, hps⟩ := strcmp_run argv (a := psName) (by decide) pre w rest hw
  unfold cmdExecute Answers.Starts
  rw [Prog.bind_of_ok (show Prog.get _ = .ok (_, _) from rfl)]
  simp only [hargv]
  -- the built-in commands come before the fork
  rw [Prog.bind_of_ok hr1]
  by_cases h1 : r1 = 0
  · simp [h1, hhelp.1 h1]
  rw [if_neg h1, Prog.bind_of_ok hr2]
  by_cases h2 : r2 = 0
  · simp [h2, hclear.1 h2]
  rw [if_neg h2, Prog.bind_of_ok hr3]
  by_cases h3 : r3 = 0
  · simp [h3, hps.1 h3]
  rw [if_neg h3, hname]
  have hne1 : w ≠ helpName := fun h => h1 (hhelp.2 h)
  have hne2 : w ≠ clearName := fun h => h2 (hclear.2 h)
  have hne3 : w ≠ psName := fun h => h3 (hps.2 h)
  cases hforks : k.forks with
  | false => simp
  | true =>
      cases hstat : k.stat w with
      | false => simp
      | true => simp [hne1, hne2, hne3, eq_comm]

/-! ### The end of the arguments -/

theorem countArgs_run (n : Nat) (s : Parse) (i : Nat) (hn : MAX_ARG_NR < i + n) :
    (∃ argc u, countArgs n i s = .ok (argc, u)) ↔ ∃ j, i ≤ j ∧ j < MAX_ARG_NR ∧ s.argv j = none := by
  induction n generalizing i with
  | zero =>
      constructor
      · rintro ⟨argc, u, h⟩
        exact absurd h nofun
      · rintro ⟨j, hij, hj, -⟩
        omega
  | succ n ih =>
      by_cases hi : i < MAX_ARG_NR
      · rw [countArgs, Prog.run_require_bind hi, Prog.bind_of_ok (show Prog.get s = .ok (s, s) from rfl)]
        by_cases hnull : s.argv i = none
        · rw [if_pos hnull]
          exact iff_of_true ⟨i, s, rfl⟩ ⟨i, Nat.le_refl _, hi, hnull⟩
        · rw [if_neg hnull, ih (i + 1) (by omega)]
          constructor
          · rintro ⟨j, hij, hj⟩
            exact ⟨j, by omega, hj⟩
          · rintro ⟨j, hij, hj, hnone⟩
            have hne : j ≠ i := fun h => hnull (h ▸ hnone)
            exact ⟨j, by omega, hj, hnone⟩
      · rw [countArgs, Prog.run_require_bind_not hi]
        constructor
        · rintro ⟨argc, u, h⟩
          exact absurd h nofun
        · rintro ⟨j, hij, hj, -⟩
          omega

/-! ### How many words are refused -/

section Refuses

variable {token : Byte} (htoken : token ≠ 0) (k : Answers) (pre : List Byte) {str : List Byte}
  (post : List Byte) (hstr : 0 ∉ str) (argv : Nat → Option Nat)

include htoken hstr

theorem refuses_of_lt (hm : wordCount token str < MAX_ARG_NR) : Refuses k token pre str post argv := by
  refine ⟨_, _, cmdParse_eq_ok htoken pre str post hstr argv (by omega), fun h => absurd h (by omega),
    fun t ht => ?_⟩
  have hnull : t.argv (wordCount token str) = none := by
    rw [← cmdExecute_state k _ _ _ ht]
    exact afterParse_argv_null (Nat.le_refl _) hm
  exact ⟨⟨_, hm, hnull⟩, (countArgs_run _ t 0 (by omega)).2 ⟨_, Nat.zero_le _, hm, hnull⟩⟩

/-- With `MAX_ARG_NR` words no element of `argv` is left for the `NULL`. -/
theorem refuses_full_iff (hm : wordCount token str = MAX_ARG_NR) :
    Refuses k token pre str post argv ↔ ∀ w, (Words.words token str).head? = some w → ¬ k.Starts w := by
  have hfirst : ∃ p, (Words.starts token true 0 str)[0]? = some p :=
    ⟨_, List.getElem?_eq_getElem (show 0 < wordCount token str by rw [hm]; decide)⟩
  obtain ⟨p, hp⟩ := hfirst
  have hmem := List.mem_of_getElem? hp
  have hw : (Words.words token str).head? = some (Words.wordAt token str p) := by
    unfold Words.words
    rw [List.head?_eq_getElem?, List.getElem?_map, hp]
    rfl
  have hnul : 0 ∉ Words.wordAt token str p := by
    intro h
    obtain ⟨j, hj⟩ := List.mem_iff_getElem?.1 h
    exact hstr (List.mem_of_getElem? (Words.getElem?_wordAt hj).1)
  have hexec : ∀ t, cmdExecute k (afterParse token pre str post argv) = .ok (.execv, t) ↔
      t = afterParse token pre str post argv ∧ k.Starts (Words.wordAt token str p) := by
    have hargv : (afterParse token pre str post argv).argv 0 = some (pre.length + p) := afterParse_argv hp
    obtain ⟨l, rest, hline, hlen⟩ := afterParse_word pre post argv hstr hmem
    rw [← hlen] at hargv
    generalize afterParse token pre str post argv = s at hline hargv
    obtain ⟨line, argv⟩ := s
    obtain rfl : line = _ := hline
    exact cmdExecute_execv_iff k hnul hargv
  have hrun := cmdParse_eq_ok htoken pre str post hstr argv (Nat.le_of_eq hm)
  constructor
  · rintro ⟨r, s, hrun', -, hexecv⟩ w hw' hstarts
    rw [hrun] at hrun'
    obtain ⟨-, rfl⟩ := Prod.mk.inj (Except.ok.inj hrun')
    obtain rfl : Words.wordAt token str p = w := Option.some.inj (hw.symm.trans hw')
    obtain ⟨⟨i, hi, hnone⟩, -⟩ := hexecv _ ((hexec _).2 ⟨rfl, hstarts⟩)
    obtain ⟨q, hq⟩ : ∃ q, (Words.starts token true 0 str)[i]? = some q :=
      ⟨_, List.getElem?_eq_getElem (show i < wordCount token str by omega)⟩
    rw [afterParse_argv hq] at hnone
    exact absurd hnone nofun
  · intro hno
    refine ⟨_, _, hrun, fun h => absurd h (by omega), fun t ht => ?_⟩
    exact absurd ((hexec t).1 ht).2 (hno _ hw)

theorem not_refuses_of_gt (hm : MAX_ARG_NR < wordCount token str) :
    ¬ Refuses k token pre str post argv := by
  rintro ⟨r, s, hrun, -⟩
  rw [cmdParse_too_many htoken pre str post hstr argv hm] at hrun
  exact absurd hrun nofun

end Refuses

/-- Too many words are refused, and `argv` ends where a program is started, exactly when there are fewer
    than `MAX_ARG_NR` words, or `MAX_ARG_NR` of which the first is not run by a program. -/
theorem refuses_iff {token : Byte} (htoken : token ≠ 0) (k : Answers) (pre str post : List Byte)
    (hstr : 0 ∉ str) (argv : Nat → Option Nat) :
    Refuses k token pre str post argv ↔ wordCount token str < MAX_ARG_NR ∨
      wordCount token str = MAX_ARG_NR ∧ ∀ w, (Words.words token str).head? = some w → ¬ k.Starts w := by
  rcases Nat.lt_trichotomy (wordCount token str) MAX_ARG_NR with hlt | heq | hgt
  · exact iff_of_true (refuses_of_lt htoken k pre post hstr argv hlt) (.inl hlt)
  · rw [refuses_full_iff htoken k pre post hstr argv heq]
    constructor
    · exact fun h => .inr ⟨heq, h⟩
    · rintro (h | ⟨-, h⟩)
      · omega
      · exact h
  · refine iff_of_false (not_refuses_of_gt htoken k pre post hstr argv hgt) ?_
    rintro (h | ⟨h, -⟩)
    · omega
    · omega

/-- Three words are fine. -/
theorem refuses_iff_three : wordCount 32 [97, 32, 98, 32, 99] < MAX_ARG_NR ∧
    Refuses ⟨true, fun _ => true⟩ 32 [] [97, 32, 98, 32, 99] [] (fun _ => some 7) :=
  ⟨by decide, (refuses_iff (by decide) _ [] _ [] (by decide) _).2 (.inl (by decide))⟩

/-- Seventeen words are not refused: there is a store past the end of `argv`. -/
theorem refuses_seventeen :
    ¬ Refuses ⟨true, fun _ => true⟩ 32 [] (List.replicate 17 [97, 32]).flatten [] (fun _ => none) :=
  not_refuses_of_gt (by decide) _ [] [] (by decide) _ (by decide)

end RecoverOS
