import Mathlib.Data.List.TakeWhile
import RecoverOS.Fs.Tree

set_option autoImplicit false

/-! # The two ways of splitting a path

A look-up takes the components off the front of a path with `path_parse`; what creates and deletes takes
the last one off its end with `strrchr`. The component on which a look-up ends is the one at the end. -/

namespace RecoverOS

/-- No component of the path overflows its buffer. -/
def FitsPath (path : List Byte) : Prop :=
  ∀ name, name <:+: path → slashChar ∉ name → name.length < MAX_FILE_NAME_LEN

section Split

variable {path rest name pre : List Byte}

theorem slash_not_mem_takeWhile (l : List Byte) : slashChar ∉ l.takeWhile (· != slashChar) :=
  fun h => bne_iff_ne.1 (List.mem_takeWhile_imp (p := (· != slashChar)) h) rfl

/-- What comes before a slash does not count. -/
theorem lastName_append (h : slashChar ∈ rest) : lastName (pre ++ rest) = lastName rest := by
  have hne : ¬ ((rest.reverse.takeWhile (· != slashChar)).length = rest.reverse.length) := by
    intro hlen
    have hself := (List.takeWhile_prefix (l := rest.reverse) (· != slashChar)).eq_of_length hlen
    have hmem : slashChar ∈ rest.reverse.takeWhile (· != slashChar) :=
      hself.symm ▸ List.mem_reverse.2 h
    exact slash_not_mem_takeWhile _ hmem
  unfold lastName
  rw [List.reverse_append, List.takeWhile_append, if_neg hne]

/-- A path of slashes and one component. -/
theorem lastName_slashes (hpre : ∀ c ∈ pre, c = slashChar) (hname : slashChar ∉ name) :
    lastName (pre ++ name) = name := by
  have hall : ∀ c ∈ name.reverse, (c != slashChar) = true := fun c hc =>
    bne_iff_ne.2 fun heq => hname (heq ▸ List.mem_reverse.1 hc)
  have hnone : pre.reverse.takeWhile (· != slashChar) = [] := by
    rw [List.takeWhile_eq_nil_iff]
    intro hl hc
    exact bne_iff_ne.1 hc (hpre _ (List.mem_reverse.1 (List.get_mem _ _)))
  unfold lastName
  rw [List.reverse_append, List.takeWhile_append_of_pos hall, hnone, List.append_nil,
    List.reverse_reverse]

theorem lastName_sublist (path : List Byte) : lastName path <:+: path := by
  have h := (List.takeWhile_prefix (l := path.reverse) (· != slashChar)).isInfix
  have h' := List.reverse_infix.2 h
  rwa [List.reverse_reverse] at h'

theorem slash_not_mem_lastName (path : List Byte) : slashChar ∉ lastName path :=
  fun h => slash_not_mem_takeWhile _ (List.mem_reverse.1 h)

theorem pathParse_sublist (path : List Byte) : (pathParse path).1 <:+: path :=
  (List.takeWhile_prefix _).isInfix.trans (List.dropWhile_suffix _).isInfix

theorem slash_not_mem_pathParse (path : List Byte) : slashChar ∉ (pathParse path).1 :=
  slash_not_mem_takeWhile _

/-- When `path_parse` returns `NULL`, it has stored the last component. -/
theorem pathParse_none (h : (pathParse path).2 = none) : (pathParse path).1 = lastName path := by
  have hrest : (path.dropWhile (· == slashChar)).dropWhile (· != slashChar) = [] := by
    by_contra hne
    rw [show (pathParse path).2 = some _ from if_neg hne] at h
    cases h
  have hsplit := List.takeWhile_append_dropWhile (p := (· == slashChar)) (l := path)
  have hname : (pathParse path).1 = path.dropWhile (· == slashChar) := by
    have hq := List.takeWhile_append_dropWhile (p := (· != slashChar))
      (l := path.dropWhile (· == slashChar))
    rw [hrest, List.append_nil] at hq
    exact hq
  have hslashes : ∀ c ∈ path.takeWhile (· == slashChar), c = slashChar := fun c hc =>
    beq_iff_eq.1 (List.mem_takeWhile_imp (p := (· == slashChar)) hc)
  have hlast := lastName_slashes hslashes (slash_not_mem_pathParse path)
  rw [hname, hsplit] at hlast
  rw [hname, hlast]

/-- A component that is not the last one has a name. -/
theorem pathParse_nonempty (h : (pathParse path).2 = some rest) : (pathParse path).1 ≠ [] := by
  intro hnil
  have hq : path.dropWhile (· == slashChar) ≠ [] := fun hq => by
    rw [show (pathParse path).2 = none from if_pos (by rw [hq]; rfl)] at h
    cases h
  have hhead := List.head_dropWhile_not (· == slashChar) hq
  have hpos : 0 < (path.dropWhile (· == slashChar)).length := List.length_pos_iff.2 hq
  refine List.takeWhile_eq_nil_iff.1 hnil hpos (bne_iff_ne.2 fun heq => ?_)
  rw [List.get_eq_getElem, ← List.head_eq_getElem_zero hq] at heq
  rw [heq] at hhead
  cases hhead

/-- When it returns a path, that is shorter, starts with a slash and has the same last component. -/
theorem pathParse_some (h : (pathParse path).2 = some rest) :
    rest <:+ path ∧ rest.length < path.length ∧ lastName path = lastName rest := by
  have hne : (path.dropWhile (· == slashChar)).dropWhile (· != slashChar) ≠ [] := by
    intro hnil
    rw [show (pathParse path).2 = none from if_pos hnil] at h
    cases h
  have hrest : (path.dropWhile (· == slashChar)).dropWhile (· != slashChar) = rest := by
    rw [show (pathParse path).2 = some _ from if_neg hne] at h
    exact Option.some.inj h
  have hsuffix : rest <:+ path := by
    rw [← hrest]
    exact (List.dropWhile_suffix _).trans (List.dropWhile_suffix _)
  have hslash : slashChar ∈ rest := by
    have hhead := List.head_dropWhile_not (· != slashChar) hne
    have heq : ((path.dropWhile (· == slashChar)).dropWhile (· != slashChar)).head hne = slashChar := by
      simpa using hhead
    have hmem := List.head_mem hne
    rwa [heq, hrest] at hmem
  refine ⟨hsuffix, ?_, ?_⟩
  · -- either the slashes in front or the characters of the component are gone
    refine Nat.lt_of_le_of_ne hsuffix.length_le fun hlen => ?_
    have heq := hsuffix.eq_of_length hlen
    cases path with
    | nil => exact hne rfl
    | cons c path =>
        by_cases hc : c = slashChar
        · have hdrop : (c :: path).dropWhile (· == slashChar) = path.dropWhile (· == slashChar) :=
            List.dropWhile_cons_of_pos (beq_iff_eq.2 hc)
          rw [hdrop] at hrest
          have hle := ((List.dropWhile_suffix (l := path.dropWhile (· == slashChar))
            (· != slashChar)).trans (List.dropWhile_suffix _)).length_le
          rw [hrest, heq, List.length_cons] at hle
          omega
        · have hdrop : (c :: path).dropWhile (· == slashChar) = c :: path :=
            List.dropWhile_cons_of_neg fun h => hc (beq_iff_eq.1 h)
          have hdrop' : (c :: path).dropWhile (· != slashChar) = path.dropWhile (· != slashChar) :=
            List.dropWhile_cons_of_pos (bne_iff_ne.2 hc)
          rw [hdrop, hdrop'] at hrest
          have hle := (List.dropWhile_suffix (l := path) (· != slashChar)).length_le
          rw [hrest, heq, List.length_cons] at hle
          omega
  · obtain ⟨pre, rfl⟩ := hsuffix
    exact lastName_append hslash

theorem FitsPath.suffix (h : FitsPath path) (hs : rest <:+ path) : FitsPath rest :=
  fun name hname hslash => h name (hname.trans hs.isInfix) hslash

theorem FitsPath.pathParse (h : FitsPath path) : (pathParse path).1.length < MAX_FILE_NAME_LEN :=
  h _ (pathParse_sublist path) (slash_not_mem_pathParse path)

theorem FitsPath.lastName (h : FitsPath path) : (lastName path).length < MAX_FILE_NAME_LEN :=
  h _ (lastName_sublist path) (slash_not_mem_lastName path)

end Split

/-! ## The last component -/

section Walk

variable {s : FS} {m n d : Nat} {path name : List Byte}

/-- A walk from the root ends in the root, on the last component of the path. -/
theorem RootDir.walk_some (h : RootDir s m) (hwalk : s.walk n 0 path = some (d, name)) :
    d = 0 ∧ name = lastName path ∧ name.length < MAX_FILE_NAME_LEN := by
  induction n generalizing path with
  | zero => cases hwalk
  | succ n ih =>
      unfold FS.walk at hwalk
      split at hwalk
      · next hlen =>
        split at hwalk
        · next hnone =>
          cases hwalk
          exact ⟨rfl, pathParse_none hnone, hlen⟩
        · next rest hrest =>
          obtain ⟨-, -, hlast⟩ := pathParse_some hrest
          rw [hlast]
          cases hlook : s.lookNo 0 (pathParse path).1 with
          | none =>
              rw [hlook] at hwalk
              cases hwalk
          | some c =>
              rw [hlook] at hwalk
              change (if s.IsDirectory c then s.walk n c rest else none) = some (d, name) at hwalk
              split at hwalk
              · next hdir =>
                obtain ⟨-, -, -, -, ha⟩ := h.lookNo_some hlook
                rw [(h.isDirectory_iff ha).1 hdir] at hwalk
                exact ih hwalk
              · cases hwalk
      · cases hwalk

/-- A walk only asks which names lead to the root. -/
theorem RootDir.walk_mono {t : FS} {m' : Nat} (h : RootDir s m) (ht : RootDir t m')
    (hlook : ∀ name, name ≠ [] → name <:+: path → name.length < MAX_FILE_NAME_LEN →
      s.lookNo 0 name = some 0 → t.lookNo 0 name = some 0)
    (hwalk : s.walk n 0 path = some (d, name)) : t.walk n 0 path = some (d, name) := by
  induction n generalizing path with
  | zero => cases hwalk
  | succ n ih =>
      unfold FS.walk at hwalk ⊢
      split at hwalk
      · next hlen =>
        rw [if_pos hlen]
        split at hwalk
        · exact hwalk
        · next rest hrest =>
          cases hfound : s.lookNo 0 (pathParse path).1 with
          | none =>
              rw [hfound] at hwalk
              cases hwalk
          | some c =>
              rw [hfound] at hwalk
              change (if s.IsDirectory c then s.walk n c rest else none) = some (d, name) at hwalk
              split at hwalk
              · next hdir =>
                obtain ⟨-, -, -, -, ha⟩ := h.lookNo_some hfound
                have hc := (h.isDirectory_iff ha).1 hdir
                subst hc
                have hfound' := hlook _ (pathParse_nonempty hrest) (pathParse_sublist path) hlen hfound
                obtain ⟨-, -, -, -, ha'⟩ := ht.lookNo_some hfound'
                rw [hfound']
                show (if t.IsDirectory 0 then t.walk n 0 rest else none) = some (d, name)
                rw [if_pos ((ht.isDirectory_iff ha').2 rfl)]
                obtain ⟨hsuffix, -⟩ := pathParse_some hrest
                exact ih (fun name hne hin => hlook name hne (hin.trans hsuffix.isInfix)) hwalk
              · cases hwalk
      · cases hwalk

/-- With the same names, the same walks. -/
theorem RootDir.walk_congr {t : FS} {m' : Nat} (h : RootDir s m) (ht : RootDir t m')
    (hlook : ∀ name, t.lookNo 0 name = s.lookNo 0 name) : t.walk n 0 path = s.walk n 0 path := by
  cases hs : s.walk n 0 path with
  | some r => exact h.walk_mono ht (fun name _ _ _ hn => (hlook name).trans hn) hs
  | none =>
      cases ht' : t.walk n 0 path with
      | none => rfl
      | some r =>
          have hback := ht.walk_mono h (fun name _ _ _ hn => (hlook name).symm.trans hn) ht'
          rw [hs] at hback
          cases hback

theorem RootDir.resolveParent_congr {t : FS} {m' : Nat} (h : RootDir s m) (ht : RootDir t m')
    (hlook : ∀ name, t.lookNo 0 name = s.lookNo 0 name) :
    t.resolveParent 0 path = s.resolveParent 0 path := by
  unfold FS.resolveParent FS.startNo
  rw [ite_self]
  exact h.walk_congr ht hlook

/-- The same entries, the same names. -/
theorem RootDir.lookNo_congr {t : FS} (h : RootDir s m) (ht : RootDir t m) (hfile : t.file 0 = s.file 0)
    (name : List Byte) : t.lookNo 0 name = s.lookNo 0 name := by
  rw [h.lookNo_eq, ht.lookNo_eq, hfile]

theorem RootDir.resolveParent_some (h : RootDir s m) (hr : s.resolveParent 0 path = some (d, name)) :
    d = 0 ∧ name = lastName path ∧ name.length < MAX_FILE_NAME_LEN := by
  unfold FS.resolveParent FS.startNo at hr
  rw [ite_self] at hr
  exact h.walk_some hr

end Walk

end RecoverOS
