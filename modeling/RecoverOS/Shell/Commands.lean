import RecoverOS.Shell.Main
import RecoverOS.Shell.TypedLine

set_option autoImplicit false

/-! # From the keyboard to the commands

The scan codes of the keys, `kbd_buf`, `readline` and a pass of the shell's loop, one behind the other. -/

namespace RecoverOS

namespace Readline

variable {count : Nat} {str keys rest : List Byte} {c nl : Byte}

theorem mem_edit (h : c ∈ edit keys) : c ∈ keys := by
  unfold edit at h
  induction keys using List.reverseRecOn with
  | nil => exact h
  | append_singleton keys k ih =>
      rw [List.foldl_append, List.foldl_cons, List.foldl_nil] at h
      unfold editStep at h
      split_ifs at h
      · exact List.mem_append_left _ (ih (List.dropLast_subset _ h))
      · cases h
      · exact List.mem_append_left _ (ih h)
      · obtain hold | hnew := List.mem_append.1 h
        · exact List.mem_append_left _ (ih hold)
        · exact List.mem_append_right _ hnew

/-- The line is shorter than `count` when the newline comes. -/
theorem Fits.length_lt (hkeys : ∀ k ∈ keys, ¬ IsNewline k) (h : Fits count str (keys ++ nl :: rest)) :
    (keys.foldl editStep str).length < count := by
  induction keys generalizing str with
  | nil => exact h.1
  | cons key keys ih =>
      have hrest := h.2.resolve_left (hkeys key List.mem_cons_self)
      exact ih (fun k hk => hkeys k (List.mem_cons_of_mem _ hk)) hrest

/-- The array that `readline` has left. -/
theorem line_of_buf {buf : Buf} (hlen : str.length < count) (hbuf : ∀ i (h : i < str.length), buf i = str[i])
    (hnul : buf str.length = 0) : ∃ post, (List.range count).map buf = str ++ 0 :: post := by
  obtain ⟨k, rfl⟩ : ∃ k, count = str.length + (k + 1) := ⟨count - str.length - 1, by omega⟩
  have hstr : (List.range str.length).map buf = str := by
    refine List.ext_getElem (by simp) fun i hi hi' => ?_
    rw [List.getElem_map, List.getElem_range, hbuf i hi']
  refine ⟨(List.range k).map fun i => buf (str.length + (i + 1)), ?_⟩
  rw [List.range_add, List.map_append, hstr, List.range_succ_eq_map, List.map_cons, List.map_cons, Nat.add_zero,
    hnul, List.map_map, List.map_map]
  rfl

end Readline

namespace TypedText

variable {T : Type} {t : TypedText T}

theorem charWith_ne_zero : ∀ (shift caps ctrl : Bool) (b : Byte), Keyboard.IsKey b →
    Keyboard.charWith shift caps ctrl b ≠ 0 := by
  decide +kernel

theorem step_typed (t : TypedText T) (e : Stroke) : (t.step e).typed = t.typed ∨
    ∃ held b, e = .key held b ∧ (t.step e).typed = t.typed ++ [Keyboard.charFor t.caps held b] := by
  cases e with
  | key held b =>
      by_cases hroom : t.Room
      · exact .inr ⟨held, b, rfl, if_pos hroom⟩
      · exact .inl (if_neg hroom)
  | capsLock => exact .inl rfl
  | getchar =>
      left
      rw [step]
      split
      · rfl
      · rfl

/-- No key that is hit stands for a NUL. -/
theorem typed_ne_zero (h : (0 : Byte) ∉ t.typed) {strokes : List Stroke} (hkeys : AreKeys strokes) :
    (0 : Byte) ∉ (t.run strokes).typed := by
  induction strokes generalizing t with
  | nil => exact h
  | cons e strokes ih =>
      refine ih ?_ fun held b hb => hkeys held b (List.mem_cons_of_mem _ hb)
      obtain hsame | ⟨held, b, rfl, hnew⟩ := t.step_typed e
      · rwa [hsame]
      · have hchar := charWith_ne_zero (held.any Modifier.isShift) t.caps (held.any Modifier.isCtrl) b
          (hkeys held b List.mem_cons_self)
        rw [hnew, List.mem_append, List.mem_singleton]
        exact fun hmem => hmem.elim h fun heq => hchar heq.symm

end TypedText

namespace Shell

/-- The calls of `cmd_execute` in a pass over a line. Everything behind the first `'|'` is one command. -/
def callsFor (fd : Int × Int) (line : List Byte) : List Invocation :=
  if line = [] then []
  else if pipeChar ∈ line then
    twoCalls fd (line.takeWhile (· != pipeChar)) (line.dropWhile (· != pipeChar)).tail
  else [⟨wordCount blankChar line, Words.words blankChar line, 0, 1⟩]

section Pass

variable {fd : Int × Int} {line post : List Byte} {argv : Nat → Option Nat}

theorem ne_bar {a : List Byte} (ha : pipeChar ∉ a) : ∀ c ∈ a, (c != pipeChar) = true := by
  intro c hc
  rw [bne_iff_ne]
  rintro rfl
  exact ha hc

theorem takeWhile_bar {a r : List Byte} (ha : pipeChar ∉ a) :
    (a ++ pipeChar :: r).takeWhile (· != pipeChar) = a := by
  rw [List.takeWhile_append_of_pos (ne_bar ha),
    List.takeWhile_cons_of_neg (by simp), List.append_nil]

theorem dropWhile_bar {a r : List Byte} (ha : pipeChar ∉ a) :
    (a ++ pipeChar :: r).dropWhile (· != pipeChar) = pipeChar :: r := by
  rw [List.dropWhile_append_of_pos (ne_bar ha), List.dropWhile_cons_of_neg (by simp)]

/-- A line without a `'|'` is one command. -/
theorem mainPass_plain (hline : line ≠ []) (hpipe : pipeChar ∉ line) (hnul : 0 ∉ line)
    (hlen : line.length < MAX_PATH_LEN) (hm : wordCount blankChar line ≤ MAX_ARG_NR) :
    ∃ p, mainPass fd (shellWith line post argv) =
      .ok ((), ⟨p, 0, 1, [⟨wordCount blankChar line, Words.words blankChar line, 0, 1⟩]⟩) := by
  obtain ⟨c, hc, hne⟩ : ∃ c, (line ++ 0 :: post).head? = some c ∧ c ≠ 0 := by
    cases line with
    | nil => exact absurd rfl hline
    | cons c line => exact ⟨c, rfl, fun h => hnul (h ▸ List.mem_cons_self ..)⟩
  have hfirst : charAt 0 ⟨line ++ 0 :: post, argv⟩ = .ok (c, ⟨line ++ 0 :: post, argv⟩) :=
    charAt_head [] _ argv hc
  have hnone : strchr pipeChar MAX_PATH_LEN 0 ⟨line ++ 0 :: post, argv⟩ =
      .ok (none, ⟨line ++ 0 :: post, argv⟩) := strchr_none [] hpipe post argv hlen
  have hparse : cmdParse 0 blankChar ⟨line ++ 0 :: post, argv⟩ =
      .ok ((wordCount blankChar line : Int), afterParse blankChar [] line post argv) :=
    cmdParse_eq_ok (by decide) [] line post hnul argv hm
  have hargs : argStrings (afterParse blankChar [] line post argv) MAX_ARG_NR 0 = _ :=
    argStrings_afterParse hnul argv hm MAX_ARG_NR 0 (by omega)
  have hargc : (wordCount blankChar line : Int) ≠ -1 := by omega
  refine ⟨afterParse blankChar [] line post argv, ?_⟩
  unfold mainPass shellWith
  rw [onParse_bind_of_ok hfirst, if_neg hne, onParse_bind_of_ok hnone]
  dsimp only
  rw [onParse_bind_of_ok hparse, if_neg hargc]
  dsimp only [execute]
  rw [Prog.run_modify]
  dsimp only
  rw [hargs, List.drop_zero, List.nil_append]

/-- The pass over a line. -/
theorem mainPass_calls (hnul : 0 ∉ line) (hlen : line.length < MAX_PATH_LEN)
    (hargc : ∀ call ∈ callsFor fd line, 0 < call.argc ∧ call.argc ≤ MAX_ARG_NR) :
    ∃ p, mainPass fd (shellWith line post argv) = .ok ((), ⟨p, 0, 1, callsFor fd line⟩) := by
  unfold callsFor at hargc ⊢
  by_cases hline : line = []
  · subst hline
    have hfirst : charAt 0 ⟨0 :: post, argv⟩ = .ok (0, ⟨0 :: post, argv⟩) := charAt_head [] _ argv rfl
    refine ⟨⟨0 :: post, argv⟩, ?_⟩
    unfold mainPass shellWith
    rw [List.nil_append, onParse_bind_of_ok hfirst, if_pos rfl]
    rfl
  · rw [if_neg hline] at hargc ⊢
    by_cases hpipe : pipeChar ∈ line
    · rw [if_pos hpipe] at hargc ⊢
      obtain ⟨a, r, rfl, ha⟩ := List.eq_append_cons_of_mem hpipe
      rw [takeWhile_bar ha, dropWhile_bar ha, List.tail_cons] at hargc ⊢
      obtain ⟨hpos, hm⟩ := hargc _ (List.mem_cons_self ..)
      have hm' := (hargc _ (List.mem_cons_of_mem _ (List.mem_cons_self ..))).2
      dsimp only at hpos hm hm'
      rw [List.length_append] at hlen
      obtain ⟨p, hrun⟩ := mainPass_run fd ⟨ha, fun h => hnul (List.mem_append_left _ h)⟩
        (fun h => hnul (List.mem_append_right _ (List.mem_cons_of_mem _ h))) (by omega) (by omega) (by omega)
        post argv
      rw [if_pos (by omega)] at hrun
      exact ⟨p, hrun⟩
    · rw [if_neg hpipe] at hargc ⊢
      have hm := (hargc _ (List.mem_singleton_self _)).2
      dsimp only at hm
      exact mainPass_plain hline hpipe hnul hlen (by omega)

end Pass

/-- What is typed is what runs: whatever the order of the strokes and of the reads, the shell's pass over the
    line that `readline` returns calls `cmd_execute` with the words of the line as it was edited. -/
theorem typed_commands {T : Type} (qbuf : Nat → Byte) {strokes : List Stroke}
    (hkeys : TypedText.AreKeys strokes) {keys later : List Byte} {nl : Byte}
    (htyped : ((TypedText.start qbuf : TypedText T).run strokes).typed = keys ++ nl :: later)
    (hread : keys.length < ((TypedText.start qbuf : TypedText T).run strokes).got.length)
    (hline : ∀ k ∈ keys, ¬ Readline.IsNewline k) (hnl : Readline.IsNewline nl)
    (hfits : Readline.Fits MAX_PATH_LEN [] ((TypedText.start qbuf : TypedText T).run strokes).got)
    (fd : Int × Int) (buf : Buf) (argv : Nat → Option Nat)
    (hargc : ∀ call ∈ callsFor fd (Readline.edit keys), 0 < call.argc ∧ call.argc ≤ MAX_ARG_NR) :
    ∃ s p, Readline.readline MAX_PATH_LEN ((TypedText.start qbuf : TypedText T).run strokes).got buf =
        .returns s ∧
      mainPass fd ⟨⟨(List.range MAX_PATH_LEN).map s.buf, argv⟩, 0, 1, []⟩ =
        .ok ((), ⟨p, 0, 1, callsFor fd (Readline.edit keys)⟩) := by
  obtain ⟨more, hgot⟩ := TypedText.got_line qbuf hkeys htyped hread
  rw [hgot] at hfits ⊢
  obtain ⟨s, hrun, hs, hnul⟩ := (Readline.holds_nil buf).readKeys_line nofun hline hnl hfits
  have hlen : (Readline.edit keys).length < MAX_PATH_LEN := hfits.length_lt hline
  obtain ⟨post, hpost⟩ := Readline.line_of_buf hlen hs.buf hnul
  have hzero : (0 : Byte) ∉ Readline.edit keys := by
    intro hmem
    refine TypedText.typed_ne_zero (T := T) (t := .start qbuf) List.not_mem_nil hkeys ?_
    rw [htyped]
    exact List.mem_append_left _ (Readline.mem_edit hmem)
  obtain ⟨p, hpass⟩ : ∃ p, mainPass fd (shellWith (Readline.edit keys) post argv) = .ok ((), ⟨p, 0, 1, _⟩) :=
    mainPass_calls hzero hlen hargc
  refine ⟨s, p, hrun, ?_⟩
  rw [hpost]
  exact hpass

/-- The keys `l`, `s` and enter, read as they come: `cmd_execute` is called with `ls`. -/
theorem typed_commands_ls : ∃ s p, Readline.readline MAX_PATH_LEN
      ((TypedText.start (fun _ => 0) : TypedText Unit).run
        [.key none 0x26, .getchar, .key none 0x1f, .key none 0x1c, .getchar, .getchar]).got Buf.zero =
        .returns s ∧
      mainPass (4, 5) ⟨⟨(List.range MAX_PATH_LEN).map s.buf, fun _ => none⟩, 0, 1, []⟩ =
        .ok ((), ⟨p, 0, 1, [⟨1, [[108, 115]], 0, 1⟩]⟩) := by
  have hkeys : TypedText.AreKeys
      [.key none 0x26, .getchar, .key none 0x1f, .key none 0x1c, .getchar, .getchar] := by
    intro held b hb
    simp only [List.mem_cons, Stroke.key.injEq, List.not_mem_nil, or_false, reduceCtorEq, false_or] at hb
    obtain ⟨-, rfl⟩ | ⟨-, rfl⟩ | ⟨-, rfl⟩ := hb
    · decide
    · decide
    · decide
  have hgot : ((TypedText.start (fun _ => 0) : TypedText Unit).run
      [.key none 0x26, .getchar, .key none 0x1f, .key none 0x1c, .getchar, .getchar]).got = [108, 115, 13] := by
    decide +kernel
  have hcalls : callsFor (4, 5) (Readline.edit [108, 115]) = [⟨1, [[108, 115]], 0, 1⟩] := by decide +kernel
  obtain ⟨s, p, hrun, hpass⟩ := @typed_commands Unit (fun _ => 0) _ hkeys [108, 115] [] 13 (by decide +kernel)
    (by rw [hgot]; decide) (by decide) (by decide)
    (by rw [hgot]; exact ⟨by decide, .inr ⟨by decide, .inr ⟨by decide, .inl (by decide)⟩⟩⟩) (4, 5) Buf.zero
    (fun _ => none) (by rw [hcalls]; decide)
  rw [hcalls] at hpass
  exact ⟨s, p, hrun, hpass⟩

end Shell

end RecoverOS
