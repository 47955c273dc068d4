import RecoverOS.Shell.CmdParse

set_option autoImplicit false

/-! # The shell's main loop (`shell/shell.c`)

One pass of the loop in `main` over a line that was read. A call of `cmd_execute` comes back, and what it
is called with is kept: the words that `argv` points at, and where the standard input and output go. -/

namespace RecoverOS

/-- `MAX_PATH_LEN`. -/
abbrev MAX_PATH_LEN : Nat := 512

/-- `'|'`. -/
abbrev pipeChar : Byte := 124

/-- `' '`. -/
abbrev blankChar : Byte := 32

/-- A call of `cmd_execute`. -/
structure Invocation where
  argc : Int
  args : List (List Byte)
  stdin : Int
  stdout : Int
  deriving DecidableEq

/-- `cmd_line` and `argv`, the descriptors that `0` and `1` stand for, and the calls so far. -/
structure Shell where
  parse : Parse
  stdin : Int
  stdout : Int
  calls : List Invocation

/-! ## The code -/

def onParse {α : Type} (m : Prog Parse α) : Prog Shell α :=
  Prog.zoom Shell.parse (fun p s => { s with parse := p }) m

/-- `strchr`, for no more than `fuel` characters. -/
def strchr (ch : Byte) : Nat → Nat → Prog Parse (Option Nat)
  | 0, _ => Prog.fault .undefined
  | fuel + 1, str => do
      let c ← charAt str
      if c = 0 then pure none
      else if c = ch then pure (some str)
      else strchr ch fuel (str + 1)

/-- The strings that `argv` points at, from index `i` on, up to a `NULL`. -/
def argStrings (s : Parse) : Nat → Nat → List (List Byte)
  | 0, _ => []
  | n + 1, i =>
      match s.argv i with
      | none => []
      | some p => cString s.line p :: argStrings s n (i + 1)

/-- `cmd_execute(argc, argv)`, as it is called. -/
def execute (argc : Int) : Prog Shell Unit :=
  Prog.modify fun s => { s with
    calls := s.calls ++ [⟨argc, argStrings s.parse MAX_ARG_NR 0, s.stdin, s.stdout⟩] }

/-- `fd_redirect(0, fd)`. -/
def redirectIn (fd : Int) : Prog Shell Unit := Prog.modify fun s => { s with stdin := fd }

/-- `fd_redirect(1, fd)`. -/
def redirectOut (fd : Int) : Prog Shell Unit := Prog.modify fun s => { s with stdout := fd }

/-- The loop over the stages in the middle: it looks for the next `'|'` from the start of `cmd_line`. -/
def pipeLoop (fd : Int × Int) : Nat → Nat → Prog Shell Nat
  | 0, _ => Prog.fault .undefined
  | fuel + 1, each_cmd => do
      let pipe_symbol ← onParse (strchr pipeChar MAX_PATH_LEN 0)
      match pipe_symbol with
      | none => pure each_cmd
      | some p => do
          onParse (setChar p 0)
          let argc ← onParse (cmdParse each_cmd blankChar)
          redirectOut fd.2
          execute argc
          pipeLoop fd fuel (p + 1)

/-- One pass of the loop in `main`, after `readline`. `fd` is what `pipe` leaves in it. -/
def mainPass (fd : Int × Int) : Prog Shell Unit := do
  let c ← onParse (charAt 0)
  if c = 0 then pure ()
  else do
    let pipe_symbol ← onParse (strchr pipeChar MAX_PATH_LEN 0)
    match pipe_symbol with
    | some p => do
        redirectOut fd.2
        onParse (setChar p 0)
        let argc ← onParse (cmdParse 0 blankChar)
        execute argc
        redirectIn fd.1
        let each_cmd ← pipeLoop fd MAX_PATH_LEN (p + 1)
        redirectOut 1
        let argc ← onParse (cmdParse each_cmd blankChar)
        execute argc
        redirectIn 0
    | none => do
        let argc ← onParse (cmdParse 0 blankChar)
        if argc = -1 then pure () else execute argc

/-- `cmd_line` with the line `line` in it, and what else the shell has before the pass. -/
def shellWith (line post : List Byte) (argv : Nat → Option Nat) : Shell :=
  ⟨⟨line ++ 0 :: post, argv⟩, 0, 1, []⟩

/-- The pass runs every stage of a pipeline, in order, with the pipe as standard output for all but the last,
    and as standard input for all but the first. -/
def EveryStage (fd : Int × Int) (stages : List (List Byte)) (post : List Byte) (argv : Nat → Option Nat) :
    Prop :=
  ∃ s, mainPass fd (shellWith ([pipeChar].intercalate stages) post argv) = .ok ((), s) ∧
    s.calls.length = stages.length ∧
    ∀ i stage, stages[i]? = some stage → ∃ call, s.calls[i]? = some call ∧
      call.args = Words.words blankChar stage ∧
      call.stdout = (if i + 1 < stages.length then fd.2 else 1) ∧
      call.stdin = (if i = 0 then 0 else fd.1)

/-! ## Parts of a pass -/

section Parts

variable {α β : Type}

theorem onParse_bind_of_ok {m : Prog Parse α} {a : α} {s : Shell} {p : Parse}
    (h : m s.parse = .ok (a, p)) (f : α → Prog Shell β) :
    (onParse m >>= f) s = f a { s with parse := p } := by
  refine Prog.bind_of_ok ?_ f
  unfold onParse Prog.zoom
  rw [h]

theorem onParse_bind_of_error {m : Prog Parse α} {e : Fault} {s : Shell} (h : m s.parse = .error e)
    (f : α → Prog Shell β) : (onParse m >>= f) s = .error e := by
  refine Prog.bind_of_error ?_ f
  unfold onParse Prog.zoom
  rw [h]

/-- `strchr` stops at the first NUL. -/
theorem strchr_none {ch : Byte} (pre : List Byte) {u : List Byte} (hu : ch ∉ u) (rest : List Byte)
    (argv : Nat → Option Nat) {fuel : Nat} (hfuel : u.length < fuel) :
    strchr ch fuel pre.length ⟨pre ++ (u ++ 0 :: rest), argv⟩ =
      .ok (none, ⟨pre ++ (u ++ 0 :: rest), argv⟩) := by
  induction u generalizing pre fuel with
  | nil =>
      obtain ⟨fuel, rfl⟩ : ∃ n, fuel = n + 1 := ⟨fuel - 1, by omega⟩
      rw [List.nil_append, strchr, Prog.bind_of_ok (charAt_run pre rest argv), if_pos rfl]
      rfl
  | cons c u ih =>
      obtain ⟨fuel, rfl⟩ : ∃ n, fuel = n + 1 := ⟨fuel - 1, by omega⟩
      rw [List.length_cons] at hfuel
      rw [List.cons_append, strchr, Prog.bind_of_ok (charAt_run pre _ argv)]
      by_cases hc : c = 0
      · rw [if_pos hc]
        rfl
      · have hlater := ih (pre ++ [c]) (fun h => hu (List.mem_cons_of_mem _ h)) (show u.length < fuel by omega)
        simp only [List.append_assoc, List.cons_append, List.nil_append, List.length_append,
          List.length_cons, List.length_nil, Nat.zero_add] at hlater
        rw [if_neg hc, if_neg (show c ≠ ch from fun h => hu (h ▸ List.mem_cons_self ..)), hlater]

/-- `strchr` finds the first character of its kind. -/
theorem strchr_some {ch : Byte} (hch : ch ≠ 0) (pre : List Byte) {u : List Byte} (hu : ch ∉ u ∧ 0 ∉ u)
    (rest : List Byte) (argv : Nat → Option Nat) {fuel : Nat} (hfuel : u.length < fuel) :
    strchr ch fuel pre.length ⟨pre ++ (u ++ ch :: rest), argv⟩ =
      .ok (some (pre ++ u).length, ⟨pre ++ (u ++ ch :: rest), argv⟩) := by
  induction u generalizing pre fuel with
  | nil =>
      obtain ⟨fuel, rfl⟩ : ∃ n, fuel = n + 1 := ⟨fuel - 1, by omega⟩
      rw [List.nil_append, strchr, Prog.bind_of_ok (charAt_run pre rest argv), if_neg hch, if_pos rfl,
        List.append_nil]
      rfl
  | cons c u ih =>
      obtain ⟨fuel, rfl⟩ : ∃ n, fuel = n + 1 := ⟨fuel - 1, by omega⟩
      rw [List.length_cons] at hfuel
      have hlater := ih (pre ++ [c])
        ⟨fun h => hu.1 (List.mem_cons_of_mem _ h), fun h => hu.2 (List.mem_cons_of_mem _ h)⟩
        (show u.length < fuel by omega)
      simp only [List.append_assoc, List.cons_append, List.nil_append, List.length_append,
        List.length_cons, List.length_nil, Nat.zero_add] at hlater
      rw [List.cons_append, strchr, Prog.bind_of_ok (charAt_run pre _ argv),
        if_neg (show c ≠ 0 from fun h => hu.2 (h ▸ List.mem_cons_self ..)),
        if_neg (show c ≠ ch from fun h => hu.1 (h ▸ List.mem_cons_self ..)), hlater]
      simp only [List.length_append, List.length_cons]

/-- The strings that `argv` points at are the words that were found. -/
theorem argStrings_afterParse {token : Byte} {pre str post : List Byte} (hstr : 0 ∉ str)
    (argv : Nat → Option Nat) (hm : wordCount token str ≤ MAX_ARG_NR) (n i : Nat) (hn : i + n = MAX_ARG_NR) :
    argStrings (afterParse token pre str post argv) n i = (Words.words token str).drop i := by
  induction n generalizing i with
  | zero =>
      refine (List.drop_eq_nil_of_le ?_).symm
      unfold Words.words
      rw [List.length_map]
      unfold wordCount at hm
      omega
  | succ n ih =>
      rw [argStrings]
      by_cases hi : i < wordCount token str
      · have hp : (Words.starts token true 0 str)[i]? = some _ := List.getElem?_eq_getElem hi
        have hdrop : (Words.words token str).drop i =
            Words.wordAt token str (Words.starts token true 0 str)[i] :: (Words.words token str).drop (i + 1) := by
          unfold Words.words
          rw [List.drop_eq_getElem_cons (i := i) (by rw [List.length_map]; exact hi), List.getElem_map]
          rfl
        rw [afterParse_argv hp]
        dsimp only
        rw [cString_afterParse hstr (List.mem_of_getElem? hp), ih (i + 1) (by omega), hdrop]
      · rw [afterParse_argv_null (by omega) (by omega)]
        refine (List.drop_eq_nil_of_le ?_).symm
        unfold Words.words
        rw [List.length_map]
        unfold wordCount at hi
        omega

/-- The loop over the stages in the middle ends at once when the line is cut before its first `'|'`. -/
theorem pipeLoop_cut (fd : Int × Int) (fuel each_cmd : Nat) {u rest : List Byte} (hu : pipeChar ∉ u)
    (hlen : u.length < MAX_PATH_LEN) (s : Shell) (hline : s.parse.line = u ++ 0 :: rest) :
    pipeLoop fd (fuel + 1) each_cmd s = .ok (each_cmd, s) := by
  obtain ⟨⟨line, argv⟩, stdin, stdout, calls⟩ := s
  dsimp only at hline
  subst hline
  have hnone : strchr pipeChar MAX_PATH_LEN 0 ⟨u ++ 0 :: rest, argv⟩ = .ok (none, ⟨u ++ 0 :: rest, argv⟩) :=
    strchr_none [] hu rest argv hlen
  rw [pipeLoop, onParse_bind_of_ok (m := strchr pipeChar MAX_PATH_LEN 0) hnone]
  rfl

end Parts

/-! ## The pass over a pipeline -/

/-- What the two calls are when the line is `a`, then `'|'`, then `r`. -/
def twoCalls (fd : Int × Int) (a r : List Byte) : List Invocation :=
  [⟨wordCount blankChar a, Words.words blankChar a, 0, fd.2⟩,
    ⟨wordCount blankChar r, Words.words blankChar r, fd.1, 1⟩]

/-- A pass calls `cmd_execute` twice: with what is before the first `'|'` and with all that is behind it. -/
theorem mainPass_run (fd : Int × Int) {a r : List Byte} (ha : pipeChar ∉ a ∧ 0 ∉ a) (hr : 0 ∉ r)
    (hwords : 0 < wordCount blankChar a) (hm : wordCount blankChar a ≤ MAX_ARG_NR)
    (hlen : a.length < MAX_PATH_LEN) (post : List Byte) (argv : Nat → Option Nat) :
    ∃ p, mainPass fd (shellWith (a ++ pipeChar :: r) post argv) =
      if wordCount blankChar r ≤ MAX_ARG_NR then .ok ((), ⟨p, 0, 1, twoCalls fd a r⟩)
      else .error .undefined := by
  have hblank : blankChar ≠ 0 := by decide
  have hcut : pipeChar ∉ Words.cut blankChar 0 true a := by
    intro h
    rcases Words.mem_cut h with h | h
    · exact ha.1 h
    · exact absurd h (by decide)
  have hstart : shellWith (a ++ pipeChar :: r) post argv =
      ⟨⟨a ++ pipeChar :: (r ++ 0 :: post), argv⟩, 0, 1, []⟩ := by
    unfold shellWith
    rw [List.append_assoc, List.cons_append]
  -- the line starts with a character of the first stage
  obtain ⟨c, hc, hne⟩ : ∃ c, (a ++ pipeChar :: (r ++ 0 :: post)).head? = some c ∧ c ≠ 0 := by
    cases a with
    | nil => exact ⟨pipeChar, rfl, by decide⟩
    | cons c a => exact ⟨c, rfl, fun h => ha.2 (h ▸ List.mem_cons_self ..)⟩
  have hfirst : charAt 0 ⟨a ++ pipeChar :: (r ++ 0 :: post), argv⟩ =
      .ok (c, ⟨a ++ pipeChar :: (r ++ 0 :: post), argv⟩) := charAt_head [] _ argv hc
  have hpipe : strchr pipeChar MAX_PATH_LEN 0 ⟨a ++ pipeChar :: (r ++ 0 :: post), argv⟩ =
      .ok (some a.length, ⟨a ++ pipeChar :: (r ++ 0 :: post), argv⟩) :=
    strchr_some (by decide) [] ha (r ++ 0 :: post) argv hlen
  have hset := setChar_run a (r ++ 0 :: post) argv (c := pipeChar) 0
  have hparse : cmdParse 0 blankChar ⟨a ++ 0 :: (r ++ 0 :: post), argv⟩ =
      .ok ((wordCount blankChar a : Int), afterParse blankChar [] a (r ++ 0 :: post) argv) :=
    cmdParse_eq_ok hblank [] a (r ++ 0 :: post) ha.2 argv hm
  have hargs : argStrings (afterParse blankChar [] a (r ++ 0 :: post) argv) MAX_ARG_NR 0 = _ :=
    argStrings_afterParse ha.2 argv hm MAX_ARG_NR 0 (by omega)
  have hloop := pipeLoop_cut fd 511 (a.length + 1) hcut (by rwa [Words.length_cut])
    ⟨afterParse blankChar [] a (r ++ 0 :: post) argv, fd.1, fd.2,
      [⟨wordCount blankChar a, Words.words blankChar a, 0, fd.2⟩]⟩ rfl
  unfold mainPass
  rw [hstart, onParse_bind_of_ok hfirst, if_neg hne, onParse_bind_of_ok hpipe]
  dsimp only [redirectOut, redirectIn, execute]
  rw [Prog.run_modify_bind, onParse_bind_of_ok hset, onParse_bind_of_ok hparse, Prog.run_modify_bind,
    Prog.run_modify_bind]
  dsimp only
  rw [hargs, List.drop_zero, List.nil_append, Prog.bind_of_ok hloop, Prog.run_modify_bind]
  dsimp only
  -- the second call is given everything behind the first `'|'`
  have hbehind : a.length + 1 = (Words.cut blankChar 0 true a ++ [0]).length := by
    rw [List.length_append, Words.length_cut]
    rfl
  have hline : afterParse blankChar [] a (r ++ 0 :: post) argv =
      ⟨Words.cut blankChar 0 true a ++ [0] ++ (r ++ 0 :: post),
        (afterParse blankChar [] a (r ++ 0 :: post) argv).argv⟩ := by
    unfold afterParse
    rw [List.nil_append, List.append_assoc, List.cons_append, List.nil_append]
  rw [hline, hbehind]
  by_cases hcount : wordCount blankChar r ≤ MAX_ARG_NR
  · refine ⟨afterParse blankChar (Words.cut blankChar 0 true a ++ [0]) r post
      (afterParse blankChar [] a (r ++ 0 :: post) argv).argv, ?_⟩
    rw [onParse_bind_of_ok (cmdParse_eq_ok hblank _ r post hr _ hcount), if_pos hcount, Prog.run_modify_bind,
      Prog.run_modify]
    dsimp only
    rw [argStrings_afterParse hr _ hcount MAX_ARG_NR 0 (by omega), List.drop_zero]
    rfl
  · refine ⟨⟨[], argv⟩, ?_⟩
    rw [onParse_bind_of_error (cmdParse_too_many hblank _ r post hr _ (by omega)), if_neg hcount]

/-! ## Stages -/

theorem intercalate_cons_cons (c : Byte) (a b : List Byte) (stages : List (List Byte)) :
    [c].intercalate (a :: b :: stages) = a ++ c :: [c].intercalate (b :: stages) := by
  simp [List.intercalate]

theorem mem_intercalate {c d : Byte} {stages : List (List Byte)} (h : d ∈ [c].intercalate stages) :
    d = c ∨ ∃ stage ∈ stages, d ∈ stage := by
  induction stages with
  | nil => exact absurd h (by simp [List.intercalate])
  | cons a stages ih =>
      cases stages with
      | nil => exact .inr ⟨a, List.mem_cons_self .., by simpa [List.intercalate] using h⟩
      | cons b stages =>
          rw [intercalate_cons_cons] at h
          rcases List.mem_append.1 h with h | h
          · exact .inr ⟨a, List.mem_cons_self .., h⟩
          · rcases List.mem_cons.1 h with h | h
            · exact .inl h
            · rcases ih h with h | ⟨stage, hstage, hd⟩
              · exact .inl h
              · exact .inr ⟨stage, List.mem_cons_of_mem _ hstage, hd⟩

/-- A stage of a command line: it is not blank and has fewer words than `argv` has elements. -/
structure Stage (stage : List Byte) : Prop where
  pipe : pipeChar ∉ stage
  nul : 0 ∉ stage
  words : 0 < wordCount blankChar stage
  few : wordCount blankChar stage < MAX_ARG_NR

section Stages

variable (fd : Int × Int) {stages : List (List Byte)} (hstages : ∀ stage ∈ stages, Stage stage)
  (hk : 2 ≤ stages.length) (hlen : ([pipeChar].intercalate stages).length < MAX_PATH_LEN) (post : List Byte)
  (argv : Nat → Option Nat)

include hstages hk hlen

/-- Every run of the pass ends after two calls. -/
theorem everyStage_two (h : EveryStage fd stages post argv) : stages.length = 2 := by
  obtain ⟨a, b, rest, rfl⟩ : ∃ a b rest, stages = a :: b :: rest := by
    match stages, hk with
    | a :: b :: rest, _ => exact ⟨a, b, rest, rfl⟩
  obtain ⟨s, hrun, hcalls, -⟩ := h
  have ha := hstages a (List.mem_cons_self ..)
  have hr : 0 ∉ [pipeChar].intercalate (b :: rest) := by
    intro h
    rcases mem_intercalate h with h | ⟨stage, hstage, h⟩
    · exact absurd h (by decide)
    · exact (hstages stage (List.mem_cons_of_mem _ hstage)).nul h
  rw [intercalate_cons_cons, List.length_append] at hlen
  obtain ⟨p, hpass⟩ := mainPass_run fd ⟨ha.pipe, ha.nul⟩ hr ha.words (Nat.le_of_lt ha.few) (by omega) post argv
  rw [intercalate_cons_cons, hpass] at hrun
  split_ifs at hrun
  obtain ⟨-, rfl⟩ := Prod.mk.inj (Except.ok.inj hrun)
  exact hcalls.symm

/-- With two stages both of them run. -/
theorem everyStage_of_two (h : stages.length = 2) : EveryStage fd stages post argv := by
  obtain ⟨a, b, rfl⟩ : ∃ a b, stages = [a, b] := by
    match stages, h with
    | [a, b], _ => exact ⟨a, b, rfl⟩
  have ha := hstages a (List.mem_cons_self ..)
  have hb := hstages b (List.mem_cons_of_mem _ (List.mem_cons_self ..))
  rw [intercalate_cons_cons, List.length_append] at hlen
  obtain ⟨p, hpass⟩ := mainPass_run fd ⟨ha.pipe, ha.nul⟩ hb.nul ha.words (Nat.le_of_lt ha.few) (by omega) post
    argv
  rw [if_pos (Nat.le_of_lt hb.few)] at hpass
  have hline : [pipeChar].intercalate [a, b] = a ++ pipeChar :: b := by simp [List.intercalate]
  refine ⟨_, by rw [hline]; exact hpass, rfl, fun i stage hstage => ?_⟩
  match i with
  | 0 =>
      obtain rfl : a = stage := Option.some.inj hstage
      exact ⟨_, rfl, rfl, rfl, rfl⟩
  | 1 =>
      obtain rfl : b = stage := Option.some.inj hstage
      exact ⟨_, rfl, rfl, rfl, rfl⟩
  | i + 2 => exact absurd hstage (by simp)

end Stages

/-- A single letter is a stage. -/
theorem stage_letter : Stage [97] := ⟨by decide, by decide, by decide, by decide⟩

/-- Every stage of a pipeline runs exactly when it has two. -/
theorem everyStage_iff (fd : Int × Int) (stages : List (List Byte)) (hstages : ∀ stage ∈ stages, Stage stage)
    (hk : 2 ≤ stages.length) (hlen : ([pipeChar].intercalate stages).length < MAX_PATH_LEN) (post : List Byte)
    (argv : Nat → Option Nat) : EveryStage fd stages post argv ↔ stages.length = 2 :=
  ⟨everyStage_two fd hstages hk hlen post argv, everyStage_of_two fd hstages hk hlen post argv⟩

/-- `a|a`. -/
theorem everyStage_iff_pair : EveryStage (4, 5) [[97], [97]] [] (fun _ => none) ↔ [[97], [97]].length = 2 :=
  everyStage_iff (4, 5) [[97], [97]] (fun stage hstage => by
    rcases List.mem_cons.1 hstage with rfl | hstage
    · exact stage_letter
    · exact List.mem_singleton.1 hstage ▸ stage_letter) (by decide) (by decide) [] _

/-- Of the three stages of `a|a|a` only two are called for. -/
theorem everyStage_three : ¬ EveryStage (4, 5) [[97], [97], [97]] [] (fun _ => none) := by
  intro h
  have hstages : ∀ stage ∈ [[97], [97], [97]], Stage stage := by
    intro stage hstage
    obtain rfl : stage = [97] := by simpa using hstage
    exact stage_letter
  exact absurd (everyStage_two (4, 5) hstages (by decide) (by decide) [] _ h) (by decide)

end RecoverOS
