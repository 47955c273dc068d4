import Mathlib.Data.List.TakeWhile
import Mathlib.Tactic.SplitIfs

set_option autoImplicit false

/-! # Words of a string

A string is a list of characters, and `token` the character that stands between words: a word is a
longest run of other characters. `Words.starts` lists where the words begin, and `Words.cut` is the
string with `nul` written over each separator that ends a word. -/

namespace RecoverOS

namespace Words

variable {α : Type} [DecidableEq α] (token nul : α)

/-- Where the words of `str` begin, when its first character stands at `off`. `sep` says that no word
    goes on from before. -/
def starts : Bool → Nat → List α → List Nat
  | _, _, [] => []
  | sep, off, c :: str =>
      if c = token then starts true (off + 1) str
      else if sep then off :: starts false (off + 1) str
      else starts false (off + 1) str

/-- `str` with `nul` in place of each separator that ends a word. -/
def cut : Bool → List α → List α
  | _, [] => []
  | sep, c :: str =>
      if c = token then (if sep then c else nul) :: cut true str else c :: cut false str

/-- The characters from position `i` up to the next separator. -/
def wordAt (str : List α) (i : Nat) : List α := (str.drop i).takeWhile (· != token)

/-- The words of a string. -/
def words (str : List α) : List (List α) := (starts token true 0 str).map (wordAt token str)

variable {token nul}

/-! ## Where words begin -/

theorem starts_sep {seps : List α} (h : ∀ c ∈ seps, c = token) (off : Nat) (str : List α) :
    starts token true off (seps ++ str) = starts token true (off + seps.length) str := by
  induction seps generalizing off with
  | nil => rfl
  | cons c seps ih =>
      rw [List.cons_append, starts, if_pos (h c (List.mem_cons_self ..)),
        ih (fun d hd => h d (List.mem_cons_of_mem _ hd))]
      rw [List.length_cons, Nat.add_assoc, Nat.add_comm 1]

theorem starts_in_word {w : List α} (h : ∀ c ∈ w, c ≠ token) (off : Nat) (str : List α) :
    starts token false off (w ++ str) = starts token false (off + w.length) str := by
  induction w generalizing off with
  | nil => rfl
  | cons c w ih =>
      rw [List.cons_append, starts, if_neg (h c (List.mem_cons_self ..)), if_neg Bool.false_ne_true,
        ih (fun d hd => h d (List.mem_cons_of_mem _ hd))]
      rw [List.length_cons, Nat.add_assoc, Nat.add_comm 1]

theorem starts_word {w : List α} (hw : w ≠ []) (h : ∀ c ∈ w, c ≠ token) (off : Nat) (str : List α) :
    starts token true off (w ++ str) = off :: starts token false (off + w.length) str := by
  cases w with
  | nil => exact absurd rfl hw
  | cons c w =>
      rw [List.cons_append, starts, if_neg (h c (List.mem_cons_self ..)), if_pos rfl,
        starts_in_word (fun d hd => h d (List.mem_cons_of_mem _ hd))]
      rw [List.length_cons, Nat.add_assoc, Nat.add_comm 1]

theorem starts_eq_nil {seps : List α} (h : ∀ c ∈ seps, c = token) (off : Nat) :
    starts token true off seps = [] := by
  have hseps := starts_sep h off []
  rwa [List.append_nil] at hseps

variable (token) in
theorem starts_shift (sep : Bool) (off d : Nat) (str : List α) :
    starts token sep (d + off) str = (starts token sep off str).map (d + ·) := by
  induction str generalizing sep off with
  | nil => rfl
  | cons c str ih =>
      simp only [starts, Nat.add_assoc, ih]
      split_ifs
      · rfl
      · rfl
      · rfl

/-- The words begin at the characters other than `token` that have no such character before them. -/
theorem mem_starts (sep : Bool) (off : Nat) (str : List α) (i : Nat) :
    i ∈ starts token sep off str ↔ ∃ j c, i = off + j ∧ str[j]? = some c ∧ c ≠ token ∧
      (j = 0 → sep = true) ∧ (0 < j → str[j - 1]? = some token) := by
  induction str generalizing sep off with
  | nil => simp [starts]
  | cons c str ih =>
      -- position `0` is the character `c`, and position `j + 1` is position `j` of what follows it
      have hlater : ∀ b, (b = true ↔ c = token) → (i ∈ starts token b (off + 1) str ↔
          ∃ j d, i = off + (j + 1) ∧ (c :: str)[j + 1]? = some d ∧ d ≠ token ∧
            (c :: str)[j]? = some token) := by
        intro b hb
        rw [ih]
        constructor
        · rintro ⟨j, d, rfl, hd, hne, h0, hpos⟩
          refine ⟨j, d, by omega, by simpa using hd, hne, ?_⟩
          cases j with
          | zero => simpa using hb.1 (h0 rfl)
          | succ j => simpa using hpos (by omega)
        · rintro ⟨j, d, rfl, hd, hne, hprev⟩
          refine ⟨j, d, by omega, by simpa using hd, hne, fun h => ?_, fun h => ?_⟩
          · subst h
            exact hb.2 (by simpa using hprev)
          · obtain ⟨j, rfl⟩ : ∃ j', j = j' + 1 := ⟨j - 1, by omega⟩
            simpa using hprev
      have hsplit : (∃ j d, i = off + j ∧ (c :: str)[j]? = some d ∧ d ≠ token ∧
            (j = 0 → sep = true) ∧ (0 < j → (c :: str)[j - 1]? = some token)) ↔
          (i = off ∧ c ≠ token ∧ sep = true) ∨ ∃ j d, i = off + (j + 1) ∧
            (c :: str)[j + 1]? = some d ∧ d ≠ token ∧ (c :: str)[j]? = some token := by
        constructor
        · rintro ⟨j, d, rfl, hd, hne, h0, hpos⟩
          cases j with
          | zero =>
              left
              rw [List.getElem?_cons_zero, Option.some.injEq] at hd
              exact ⟨rfl, hd ▸ hne, h0 rfl⟩
          | succ j => exact .inr ⟨j, d, rfl, hd, hne, by simpa using hpos (by omega)⟩
        · rintro (⟨rfl, hne, hsep⟩ | ⟨j, d, rfl, hd, hne, hprev⟩)
          · exact ⟨0, c, rfl, rfl, hne, fun _ => hsep, fun h => absurd h (by omega)⟩
          · exact ⟨j + 1, d, rfl, hd, hne, fun h => absurd h (by omega), fun _ => hprev⟩
      rw [hsplit, starts]
      split_ifs with hc hsep
      · rw [hlater true (by simp [hc])]
        constructor
        · exact .inr
        · rintro (⟨-, hne, -⟩ | h)
          · exact absurd hc hne
          · exact h
      · rw [List.mem_cons, hlater false (by simp [hc])]
        simp [hc, hsep]
      · rw [hlater false (by simp [hc])]
        simp [hsep]

/-! ## Writing over the separators -/

theorem cut_sep {seps : List α} (h : ∀ c ∈ seps, c = token) (str : List α) :
    cut token nul true (seps ++ str) = seps ++ cut token nul true str := by
  induction seps with
  | nil => rfl
  | cons c seps ih =>
      rw [List.cons_append, cut, if_pos (h c (List.mem_cons_self ..)), if_pos rfl,
        ih (fun d hd => h d (List.mem_cons_of_mem _ hd)), List.cons_append]

theorem cut_in_word {w : List α} (h : ∀ c ∈ w, c ≠ token) (str : List α) :
    cut token nul false (w ++ str) = w ++ cut token nul false str := by
  induction w with
  | nil => rfl
  | cons c w ih =>
      rw [List.cons_append, cut, if_neg (h c (List.mem_cons_self ..)),
        ih (fun d hd => h d (List.mem_cons_of_mem _ hd)), List.cons_append]

theorem cut_word {w : List α} (hw : w ≠ []) (h : ∀ c ∈ w, c ≠ token) (str : List α) :
    cut token nul true (w ++ str) = w ++ cut token nul false str := by
  cases w with
  | nil => exact absurd rfl hw
  | cons c w =>
      rw [List.cons_append, cut, if_neg (h c (List.mem_cons_self ..)),
        cut_in_word (fun d hd => h d (List.mem_cons_of_mem _ hd)), List.cons_append]

theorem cut_eq_self {seps : List α} (h : ∀ c ∈ seps, c = token) : cut token nul true seps = seps := by
  have hseps : cut token nul true (seps ++ []) = seps ++ cut token nul true [] := cut_sep h []
  rwa [List.append_nil, cut, List.append_nil] at hseps

@[simp] theorem length_cut (sep : Bool) (str : List α) : (cut token nul sep str).length = str.length := by
  induction str generalizing sep with
  | nil => rfl
  | cons c str ih =>
      rw [cut]
      split_ifs
      · rw [List.length_cons, ih, List.length_cons]
      · rw [List.length_cons, ih, List.length_cons]
      · rw [List.length_cons, ih, List.length_cons]

theorem mem_cut {sep : Bool} {str : List α} {c : α} (h : c ∈ cut token nul sep str) : c ∈ str ∨ c = nul := by
  induction str generalizing sep with
  | nil => exact absurd h (by simp [cut])
  | cons d str ih =>
      have hlater : ∀ b, c ∈ cut token nul b str → c ∈ d :: str ∨ c = nul := by
        intro b hb
        rcases ih hb with h | h
        · exact .inl (List.mem_cons_of_mem _ h)
        · exact .inr h
      rw [cut] at h
      split_ifs at h
      · rcases List.mem_cons.1 h with rfl | h
        · exact .inl (List.mem_cons_self ..)
        · exact hlater true h
      · rcases List.mem_cons.1 h with rfl | h
        · exact .inr rfl
        · exact hlater true h
      · rcases List.mem_cons.1 h with rfl | h
        · exact .inl (List.mem_cons_self ..)
        · exact hlater false h

/-- The characters of words stay. -/
theorem cut_of_ne (sep : Bool) (str : List α) (i : Nat) {c : α} (hi : str[i]? = some c)
    (hc : c ≠ token) : (cut token nul sep str)[i]? = some c := by
  induction str generalizing sep i with
  | nil => exact absurd hi (by simp)
  | cons d str ih =>
      cases i with
      | zero =>
          rw [List.getElem?_cons_zero, Option.some.injEq] at hi
          rw [cut, if_neg (hi ▸ hc), List.getElem?_cons_zero, hi]
      | succ i =>
          rw [List.getElem?_cons_succ] at hi
          rw [cut]
          split_ifs
          · rw [List.getElem?_cons_succ, ih _ i hi]
          · rw [List.getElem?_cons_succ, ih _ i hi]
          · rw [List.getElem?_cons_succ, ih _ i hi]

/-- The separator right after a word is written over. -/
theorem cut_after_word (sep : Bool) (str : List α) (i : Nat) {c : α} (hi : str[i]? = some c)
    (hc : c ≠ token) (hnext : str[i + 1]? = some token) :
    (cut token nul sep str)[i + 1]? = some nul := by
  induction str generalizing sep i with
  | nil => exact absurd hi (by simp)
  | cons d str ih =>
      rw [List.getElem?_cons_succ] at hnext
      cases i with
      | zero =>
          rw [List.getElem?_cons_zero, Option.some.injEq] at hi
          rw [cut, if_neg (hi ▸ hc), List.getElem?_cons_succ]
          cases str with
          | nil => exact absurd hnext (by simp)
          | cons e str =>
              rw [List.getElem?_cons_zero, Option.some.injEq] at hnext
              rw [cut, if_pos hnext, if_neg Bool.false_ne_true, List.getElem?_cons_zero]
      | succ i =>
          rw [List.getElem?_cons_succ] at hi
          rw [cut]
          split_ifs
          · rw [List.getElem?_cons_succ, ih _ i hi hnext]
          · rw [List.getElem?_cons_succ, ih _ i hi hnext]
          · rw [List.getElem?_cons_succ, ih _ i hi hnext]

/-! ## The characters of a word -/

omit [DecidableEq α] in
/-- The longest prefix of characters with `p`, found by its characters and the one after it. -/
theorem takeWhile_eq {p : α → Bool} {str w : List α} (hw : ∀ c ∈ w, p c = true)
    (hstr : ∀ j < w.length, str[j]? = w[j]?) (hend : ∀ c, str[w.length]? = some c → p c = false) :
    str.takeWhile p = w := by
  induction w generalizing str with
  | nil =>
      cases str with
      | nil => rfl
      | cons c str => rw [List.takeWhile_cons, hend c rfl, if_neg Bool.false_ne_true]
  | cons d w ih =>
      cases str with
      | nil => exact absurd (hstr 0 (by simp)) (by simp)
      | cons c str =>
          have hhead := hstr 0 (by simp)
          simp only [List.getElem?_cons_zero, Option.some.injEq] at hhead
          subst hhead
          rw [List.takeWhile_cons, if_pos (hw c (List.mem_cons_self ..))]
          rw [ih (fun e he => hw e (List.mem_cons_of_mem _ he))
            (fun j hj => by simpa using hstr (j + 1) (by simpa using hj)) (fun e he => hend e (by simpa using he))]

variable (token) in
theorem str_wordAt (str : List α) (p : Nat) :
    str.drop p = wordAt token str p ++ (str.drop p).dropWhile (· != token) :=
  (List.takeWhile_append_dropWhile ..).symm

/-- A word has the characters of the string from its beginning on, and none of them is a separator. -/
theorem getElem?_wordAt {str : List α} {p j : Nat} {c : α} (h : (wordAt token str p)[j]? = some c) :
    str[p + j]? = some c ∧ c ≠ token := by
  have hlt : j < (wordAt token str p).length := (List.getElem?_eq_some_iff.1 h).1
  have hmem : c ∈ wordAt token str p := List.mem_of_getElem? h
  constructor
  · rw [← List.getElem?_drop, str_wordAt token str p, List.getElem?_append_left hlt, h]
  · simpa using List.mem_takeWhile_imp hmem

theorem wordAt_ne_nil {str : List α} {p : Nat} {c : α} (hp : str[p]? = some c) (hc : c ≠ token) :
    wordAt token str p ≠ [] := by
  have hdrop : (str.drop p).head? = some c := by rw [List.head?_drop, hp]
  obtain ⟨later, hlater⟩ := List.head?_eq_some_iff.1 hdrop
  unfold wordAt
  rw [hlater, List.takeWhile_cons, if_pos (by simpa using hc)]
  exact List.cons_ne_nil c _

variable (token) in
/-- After a word there is a separator, or the string ends. -/
theorem after_wordAt (str : List α) (p : Nat) :
    str.length ≤ p + (wordAt token str p).length ∨ str[p + (wordAt token str p).length]? = some token := by
  cases hrest : (str.drop p).dropWhile (· != token) with
  | nil =>
      left
      have hlen := congrArg List.length (str_wordAt token str p)
      rw [hrest, List.append_nil, List.length_drop] at hlen
      omega
  | cons d later =>
      right
      have hd := List.head?_dropWhile_not (· != token) (str.drop p)
      rw [hrest] at hd
      simp only [List.head?_cons] at hd
      rw [← List.getElem?_drop, str_wordAt token str p, List.getElem?_append_right (Nat.le_refl _), hrest,
        Nat.sub_self, List.getElem?_cons_zero, show d = token by simpa using hd]

/-- A string whose separators are cut, up to the first `nul` from the beginning of a word on. -/
theorem cut_word_end {str : List α} {p : Nat} {c : α} (hp : str[p]? = some c) (hc : c ≠ token)
    (post : List α) :
    (cut token nul true str ++ nul :: post)[p + (wordAt token str p).length]? = some nul := by
  have hpos : 0 < (wordAt token str p).length := List.length_pos_iff.2 (wordAt_ne_nil hp hc)
  obtain ⟨n, hn⟩ : ∃ n, (wordAt token str p).length = n + 1 := ⟨_, (Nat.succ_pred_eq_of_pos hpos).symm⟩
  obtain ⟨d, hd⟩ : ∃ d, (wordAt token str p)[n]? = some d :=
    ⟨_, List.getElem?_eq_getElem (by omega)⟩
  obtain ⟨hlast, hne⟩ := getElem?_wordAt hd
  have hlt : p + n < str.length := (List.getElem?_eq_some_iff.1 hlast).1
  rcases after_wordAt token str p with hend | hnext
  · rw [List.getElem?_append_right (by rw [length_cut]; omega), length_cut,
      show p + (wordAt token str p).length - str.length = 0 by omega, List.getElem?_cons_zero]
  · have hlen := (List.getElem?_eq_some_iff.1 hnext).1
    rw [List.getElem?_append_left (by rw [length_cut]; omega)]
    rw [hn, ← Nat.add_assoc] at hnext ⊢
    exact cut_after_word true str (p + n) hlast hne hnext

/-! ## Taking a string apart -/

/-- A string holds separators only, or separators, a word, and what follows the word. -/
theorem split_cases (token : α) (str : List α) : (∀ c ∈ str, c = token) ∨
    ∃ seps w rest, str = seps ++ (w ++ rest) ∧ (∀ c ∈ seps, c = token) ∧ w ≠ [] ∧
      (∀ c ∈ w, c ≠ token) ∧ (rest = [] ∨ ∃ later, rest = token :: later) := by
  induction str with
  | nil => exact .inl nofun
  | cons c str ih =>
      by_cases hc : c = token
      · rcases ih with hall | ⟨seps, w, rest, rfl, hseps, hw, hword, hrest⟩
        · left
          intro d hd
          rcases List.mem_cons.1 hd with rfl | hd
          · exact hc
          · exact hall d hd
        · refine .inr ⟨c :: seps, w, rest, rfl, fun d hd => ?_, hw, hword, hrest⟩
          rcases List.mem_cons.1 hd with rfl | hd
          · exact hc
          · exact hseps d hd
      · right
        refine ⟨[], (c :: str).takeWhile (· != token), (c :: str).dropWhile (· != token),
          (List.takeWhile_append_dropWhile ..).symm, nofun, ?_, fun d hd => ?_, ?_⟩
        · simp [hc]
        · simpa using List.mem_takeWhile_imp hd
        · cases hrest : (c :: str).dropWhile (· != token) with
          | nil => exact .inl rfl
          | cons d later =>
              right
              have hd := List.head?_dropWhile_not (· != token) (c :: str)
              rw [hrest] at hd
              simp only [List.head?_cons] at hd
              exact ⟨later, by simpa using hd⟩

end Words

end RecoverOS
