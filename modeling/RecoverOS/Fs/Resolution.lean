import RecoverOS.Fs.Directories

set_option autoImplicit false

/-! # Where a path leads

`search_file` takes a path apart from the front, one component for each call of `path_parse`, and its loop
ends before the last component. Here the components are those of the whole path, and what `search_file`
returns is found by going down them. -/

namespace RecoverOS

/-- The components of a path: the maximal runs of characters other than slashes. -/
def components (path : List Byte) : List (List Byte) := (path.splitOn slashChar).filter (· ≠ [])

/-- The path ends in a slash. -/
def endsInSlash (path : List Byte) : Prop := path.getLast? = some slashChar

instance (path : List Byte) : Decidable (endsInSlash path) := inferInstanceAs (Decidable (_ = _))

namespace FS

/-- Where the names lead from directory `d` on, each of them a directory in the one before. -/
def descend (s : FS) : Nat → List (List Byte) → Option Nat
  | d, [] => some d
  | d, name :: names =>
      match s.lookNo d name with
      | none => none
      | some no => if s.IsDirectory no then s.descend no names else none

/-- The inode that `search_file` is to return for a path. -/
def destination (s : FS) (cwd_i_no : Nat) (path : List Byte) (is_parent : Bool) : Option Nat :=
  let names := components path
  let start := startNo cwd_i_no path
  if endsInSlash path then s.descend start names
  else
    (s.descend start names.dropLast).bind fun d =>
      match names.getLast? with
      | none => some d
      | some name => if is_parent = true then some d else s.lookNo d name

end FS

/-! ## Components -/

section Components

variable {path rest name : List Byte}

theorem components_slash (path : List Byte) : components (slashChar :: path) = components path := by
  unfold components
  rw [List.splitOn_eq_splitOnP, List.splitOn_eq_splitOnP, List.splitOnP_cons_eq_if_modifyHead]
  simp

/-- The slashes in front do not count. -/
theorem components_dropWhile (path : List Byte) :
    components (path.dropWhile (· == slashChar)) = components path := by
  induction path with
  | nil => rfl
  | cons c path ih =>
      by_cases hc : c = slashChar
      · rw [List.dropWhile_cons_of_pos (p := (· == slashChar)) (beq_iff_eq.2 hc), ih, hc, components_slash]
      · rw [List.dropWhile_cons_of_neg (p := (· == slashChar)) fun h => hc (beq_iff_eq.1 h)]

theorem components_single (hslash : slashChar ∉ name) (hne : name ≠ []) : components name = [name] := by
  have hall : ∀ c ∈ name, (c == slashChar) = false := fun c hc =>
    beq_eq_false_iff_ne.2 fun h => hslash (h ▸ hc)
  unfold components
  rw [List.splitOn_eq_splitOnP, List.splitOnP_eq_singleton hall]
  simp [hne]

theorem components_append (hslash : slashChar ∉ name) (hne : name ≠ []) :
    components (name ++ slashChar :: rest) = name :: components (slashChar :: rest) := by
  have hall : ∀ c ∈ name, (c == slashChar) = false := fun c hc =>
    beq_eq_false_iff_ne.2 fun h => hslash (h ▸ hc)
  rw [components_slash]
  unfold components
  rw [List.splitOn_eq_splitOnP, List.splitOn_eq_splitOnP,
    List.splitOnP_append_cons_of_forall_mem hall slashChar (beq_self_eq_true _)]
  simp [hne]

/-- The component that `path_parse` takes off the front. -/
theorem components_pathParse_some (h : (pathParse path).2 = some rest) :
    components path = (pathParse path).1 :: components rest := by
  have hname := pathParse_nonempty h
  have hslash := slash_not_mem_pathParse path
  have hne : (path.dropWhile (· == slashChar)).dropWhile (· != slashChar) ≠ [] := by
    intro hnil
    rw [show (pathParse path).2 = none from if_pos hnil] at h
    cases h
  have hrest : (path.dropWhile (· == slashChar)).dropWhile (· != slashChar) = rest := by
    rw [show (pathParse path).2 = some _ from if_neg hne] at h
    exact Option.some.inj h
  have hsplit := List.takeWhile_append_dropWhile (p := (· != slashChar))
    (l := path.dropWhile (· == slashChar))
  have hhead := List.head_dropWhile_not (· != slashChar) hne
  obtain ⟨c, as, hcons⟩ := List.exists_cons_of_ne_nil hne
  have hc : c = slashChar := by
    simp only [hcons, List.head_cons] at hhead
    simpa using hhead
  rw [← components_dropWhile path, ← hsplit, ← hrest, hcons, hc]
  exact components_append hslash hname

/-- The last component, or nothing. -/
theorem components_pathParse_none (h : (pathParse path).2 = none) :
    components path = if (pathParse path).1 = [] then [] else [(pathParse path).1] := by
  have hslash := slash_not_mem_pathParse path
  have hrest : (path.dropWhile (· == slashChar)).dropWhile (· != slashChar) = [] := by
    by_contra hne
    rw [show (pathParse path).2 = some _ from if_neg hne] at h
    cases h
  have hsplit := List.takeWhile_append_dropWhile (p := (· != slashChar))
    (l := path.dropWhile (· == slashChar))
  rw [hrest, List.append_nil] at hsplit
  rw [← components_dropWhile path, ← hsplit]
  change components (pathParse path).1 = _
  split_ifs with hname
  · rw [hname]
    rfl
  · exact components_single hslash hname

/-- The last component is the text after the last slash, unless that is empty. -/
theorem components_getLast (hname : lastName path ≠ []) :
    (components path).getLast? = some (lastName path) := by
  induction hn : path.length using Nat.strong_induction_on generalizing path with
  | _ n ih =>
      cases hparse : (pathParse path).2 with
      | none =>
          rw [components_pathParse_none hparse, pathParse_none hparse, if_neg hname]
          rfl
      | some rest =>
          obtain ⟨-, hshort, hlast⟩ := pathParse_some hparse
          rw [hlast] at hname ⊢
          rw [components_pathParse_some hparse, List.getLast?_cons,
            ih rest.length (by omega) hname rfl]
          rfl

theorem lastName_eq_nil : lastName path = [] ↔ path = [] ∨ endsInSlash path := by
  have hnil : path = [] ↔ path.reverse = [] := List.reverse_eq_nil_iff.symm
  unfold lastName endsInSlash
  rw [List.reverse_eq_nil_iff, List.getLast?_eq_head?_reverse, hnil]
  cases path.reverse with
  | nil => simp
  | cons c l =>
      by_cases hc : c = slashChar <;> simp [hc]

/-- A run of characters other than slashes stays whole. -/
theorem splitOn_append (hslash : slashChar ∉ name) (post : List Byte) :
    ∃ c cs, (name ++ post).splitOn slashChar = c :: cs ∧ name <+: c := by
  induction name with
  | nil =>
      obtain ⟨c, cs, hcons⟩ := List.exists_cons_of_ne_nil (List.splitOn_ne_nil slashChar post)
      exact ⟨c, cs, hcons, List.nil_prefix⟩
  | cons x name ih =>
      obtain ⟨hx, hname⟩ := not_or.1 (List.mem_cons.not.1 hslash)
      obtain ⟨c, cs, hcons, hstart⟩ := ih hname
      refine ⟨x :: c, cs, ?_, (List.prefix_cons_inj x).2 hstart⟩
      rw [List.cons_append, List.splitOn_cons_eq_if_modifyHead, hcons,
        if_neg fun h => hx (beq_iff_eq.1 h).symm]
      rfl

theorem mem_splitOn_of_infix (hslash : slashChar ∉ name) (pre post : List Byte) :
    ∃ c ∈ (pre ++ (name ++ post)).splitOn slashChar, name <:+: c := by
  induction pre with
  | nil =>
      obtain ⟨c, cs, hcons, hstart⟩ := splitOn_append hslash post
      exact ⟨c, by rw [List.nil_append, hcons]; exact List.mem_cons_self, hstart.isInfix⟩
  | cons x pre ih =>
      obtain ⟨c, hc, hinfix⟩ := ih
      rw [List.cons_append, List.splitOn_cons_eq_if_modifyHead]
      split_ifs with hx
      · exact ⟨c, List.mem_cons_of_mem _ hc, hinfix⟩
      · cases hsplit : (pre ++ (name ++ post)).splitOn slashChar with
        | nil => exact absurd hsplit (List.splitOn_ne_nil _ _)
        | cons d ds =>
            rw [hsplit] at hc
            rcases List.mem_cons.1 hc with rfl | hc
            · exact ⟨x :: c, List.mem_cons_self, List.infix_cons hinfix⟩
            · exact ⟨c, List.mem_cons_of_mem _ hc, hinfix⟩

/-- No component overflows its buffer if every component is short enough. -/
theorem fitsPath_of_components (h : ∀ name ∈ components path, name.length < MAX_FILE_NAME_LEN) :
    FitsPath path := by
  rintro name ⟨pre, post, rfl⟩ hslash
  by_cases hname : name = []
  · rw [hname]
    decide
  · obtain ⟨c, hc, hinfix⟩ := mem_splitOn_of_infix hslash pre post
    rw [← List.append_assoc] at hc
    have hne : c ≠ [] := fun hnil => hname (List.infix_nil.1 (hnil ▸ hinfix))
    have hlen := h c (List.mem_filter.2 ⟨hc, by simpa using hne⟩)
    exact Nat.lt_of_le_of_lt hinfix.length_le hlen

end Components

/-! ## The walk -/

section Walk

variable {s : FS} {m n d : Nat} {path : List Byte}

/-- The loop of `search_file` goes down all components but the last, or all of them if the path ends in a
    slash. -/
theorem walk_eq_descend (hn : path.length < n)
    (hfit : ∀ name ∈ components path, name.length < MAX_FILE_NAME_LEN) :
    s.walk n d path =
      (s.descend d (if lastName path = [] then components path else (components path).dropLast)).map
        fun d => (d, lastName path) := by
  induction n generalizing d path with
  | zero => exact absurd hn (Nat.not_lt_zero _)
  | succ n ih =>
      have hlen := (fitsPath_of_components hfit).pathParse
      unfold FS.walk
      rw [if_pos hlen]
      cases hparse : (pathParse path).2 with
      | none =>
          rw [components_pathParse_none hparse, pathParse_none hparse]
          split_ifs <;> rfl
      | some rest =>
          obtain ⟨-, hshort, hlast⟩ := pathParse_some hparse
          have hcomp := components_pathParse_some hparse
          have hwalked : (if lastName path = [] then components path else (components path).dropLast) =
              (pathParse path).1 ::
                if lastName rest = [] then components rest else (components rest).dropLast := by
            rw [hlast, hcomp]
            split_ifs with hname
            · rfl
            · refine List.dropLast_cons_of_ne_nil fun hnil => ?_
              have hgot := components_getLast hname
              rw [hnil] at hgot
              cases hgot
          rw [hwalked, hlast]
          unfold FS.descend
          dsimp only
          cases s.lookNo d (pathParse path).1 with
          | none => rfl
          | some c =>
              dsimp only
              by_cases hdir : s.IsDirectory c
              · rw [if_pos hdir, if_pos hdir]
                exact ih (by omega) fun name hname => hfit name (hcomp ▸ List.mem_cons_of_mem _ hname)
              · rw [if_neg hdir, if_neg hdir]
                rfl

/-- Where the loop ends is where the path is to lead, but for the look-up of the last component. -/
theorem destination_eq (cwd_i_no : Nat) (is_parent : Bool)
    (hfit : ∀ name ∈ components path, name.length < MAX_FILE_NAME_LEN) :
    s.destination cwd_i_no path is_parent =
      (s.resolveParent cwd_i_no path).bind fun r =>
        if is_parent = true ∨ r.2 = [] then some r.1 else s.lookNo r.1 r.2 := by
  unfold FS.destination FS.resolveParent
  rw [walk_eq_descend (Nat.lt_succ_self _) hfit, Option.bind_map]
  dsimp only
  by_cases hname : lastName path = []
  · have hfound : ∀ o : Option Nat, o = o.bind
        ((fun r : Nat × List Byte => if is_parent = true ∨ r.2 = [] then some r.1 else s.lookNo r.1 r.2) ∘
          fun d => (d, [])) := by
      intro o
      cases o with
      | none => rfl
      | some d => exact (if_pos (.inr rfl)).symm
    rw [if_pos hname, hname, ← hfound]
    rcases lastName_eq_nil.1 hname with rfl | hend
    · rw [if_neg (by decide)]
      rfl
    · rw [if_pos hend]
  · have hend : ¬ endsInSlash path := fun h => hname (lastName_eq_nil.2 (.inr h))
    rw [if_neg hend, if_neg hname, components_getLast hname]
    refine congrArg (Option.bind _) (funext fun d => ?_)
    change (if is_parent = true then some d else _) = if is_parent = true ∨ lastName path = [] then _ else _
    by_cases hp : is_parent = true
    · rw [if_pos hp, if_pos (.inl hp)]
    · rw [if_neg hp, if_neg (not_or.2 ⟨hp, hname⟩)]

end Walk

/-! ## What `search_file` returns -/

/-- `search_file` returns the inode that the path is to lead to, `NULL` if it leads nowhere, and takes one
    reference, to what it returns. -/
def Resolves (s : FS) (cwd_i_no : Nat) (path : List Byte) (is_parent : Bool) : Prop :=
  ∃ r t, searchFile cwd_i_no path is_parent s = .ok (r, t) ∧
    (r = none ↔ s.destination cwd_i_no path is_parent = none) ∧
    (r.bind t.inodes).map Inode.i_no = s.destination cwd_i_no path is_parent ∧
    ∀ no ≠ 0, t.openCount no =
      s.openCount no + if s.destination cwd_i_no path is_parent = some no then 1 else 0

/-- Every path whose components fit their buffer is resolved, for a parent or for itself. -/
def ResolvesAll (s : FS) (cwd_i_no : Nat) : Prop :=
  ∀ path is_parent, (∀ name ∈ components path, name.length ≤ 15) → Resolves s cwd_i_no path is_parent

section Root

variable {s t : FS} {m : Nat} {o r : Option Nat}

/-- The root was found, or nothing: no other inode has more or fewer references. -/
theorem Visited.resolved (hv : Visited s t) (hs : RootDir s m) (b : Bool) :
    let r := if b then some s.root_dir_inode else none
    let o := if b then some 0 else none
    (r = none ↔ o = none) ∧ (r.bind t.inodes).map Inode.i_no = o ∧
      ∀ no ≠ 0, t.openCount no = s.openCount no + if o = some no then 1 else 0 := by
  have hcount : ∀ no ≠ 0, t.openCount no = s.openCount no := fun no hne =>
    hv.openCount hs.dir.inv.table hne
  cases b with
  | false => exact ⟨Iff.rfl, rfl, hcount⟩
  | true =>
      obtain ⟨i, hi, hno, -⟩ := (hv.rootDir hs).object
      rw [hv.root] at hi
      refine ⟨⟨nofun, nofun⟩, ?_, fun no hne => ?_⟩
      · change ((some s.root_dir_inode).bind t.inodes).map Inode.i_no = some 0
        rw [Option.bind_some, hi, Option.map_some, hno]
      · change _ = _ + if some 0 = some no then 1 else 0
        rw [if_neg fun heq => hne (Option.some.inj heq).symm]
        exact hcount no hne

/-- What was found, and the references. -/
theorem found_resolved (h : Found s o r t) (hs : RootDir s m) :
    (r = none ↔ o = none) ∧ (r.bind t.inodes).map Inode.i_no = o ∧
      ∀ no ≠ 0, t.openCount no = s.openCount no + if o = some no then 1 else 0 := by
  cases h with
  | none hv => exact hv.resolved hs false
  | root hv _ => exact hv.resolved hs true
  | @file no q _ ho =>
      obtain ⟨u, hv, hone, ht⟩ := ho.openedOne hs
      obtain ⟨j, hj, hjno, hcnt⟩ := hone.object
      refine ⟨⟨nofun, nofun⟩, ?_, fun no' hne => ?_⟩
      · rw [Option.bind_some, hj, Option.map_some, hjno]
      · rw [← hv.openCount hs.dir.inv.table hne]
        by_cases heq : no = no'
        · subst heq
          rw [if_pos rfl, ← hcnt, ← hjno]
          exact openCount_object ht.dir.inv.table hj
        · rw [if_neg fun h => heq (Option.some.inj h)]
          refine openCount_congr (hv.rootDir hs).dir.inv.table ht.dir.inv.table fun p i hi => ?_
          by_cases hp : p = q
          · -- the object that was opened is one of another number
            subst hp
            have hother : ∀ j', j'.i_no = no → j' ≠ i := fun j' hj' hji => heq (by rw [← hj', hji, hi])
            refine ⟨fun h => absurd (Option.some.inj (hj.symm.trans h)) (hother j hjno), fun h => ?_⟩
            rcases hone.was with hnone | ⟨j', hwas, hno'⟩
            · rw [hnone] at h
              cases h
            · exact absurd (Option.some.inj (hwas.symm.trans h)) (hother j' hno')
          · rw [hone.others p hp]

/-- In the only directory there is, every path is resolved. -/
theorem RootDir.resolvesAll (h : RootDir s m) : ResolvesAll s 0 := by
  intro path is_parent hshort
  have hfit : ∀ name ∈ components path, name.length < MAX_FILE_NAME_LEN := fun name hname =>
    Nat.lt_succ_of_le (hshort name hname)
  have hpath := fitsPath_of_components hfit
  unfold Resolves
  rw [destination_eq 0 is_parent hfit]
  cases is_parent with
  | true =>
      obtain ⟨hunfit, -⟩ | ⟨t, hv, hrun⟩ := h.searchFile_parent path
      · exact absurd hpath hunfit
      · refine ⟨_, t, hrun, ?_⟩
        cases hparent : s.resolveParent 0 path with
        | none => exact hv.resolved h false
        | some r =>
            obtain ⟨d, name⟩ := r
            obtain ⟨rfl, -⟩ := h.resolveParent_some hparent
            exact hv.resolved h true
  | false =>
      obtain ⟨hunfit, -⟩ | ⟨r, t, hfound, hrun⟩ := h.searchFile path
      · exact absurd hpath hunfit
      · have hresolve : ((s.resolveParent 0 path).bind fun r =>
            if false = true ∨ r.2 = [] then some r.1 else s.lookNo r.1 r.2) = s.resolve 0 path := by
          unfold FS.resolve
          cases s.resolveParent 0 path with
          | none => rfl
          | some r =>
              simp only [Bool.false_eq_true, false_or]
              rfl
        rw [hresolve]
        exact ⟨r, t, hrun, found_resolved hfound h⟩

end Root

/-! ## The system -/

namespace Kernel

variable {P : Type} [DecidableEq P]

/-- `search_file` resolves every path for every process. -/
def PathsResolve (s : Kernel P) : Prop := ∀ p, ResolvesAll s.fs (s.cwd_i_no p)

/-- No inode has a number beyond the table. -/
theorem inodeOpen_beyond {s : FS} {no : Nat} (h : Inv s) (hno : 4096 ≤ no) :
    inodeOpen no s = .error .panic := by
  have hnone : s.findInode no = none := by
    cases hfind : s.findInode no with
    | none => rfl
    | some p =>
        obtain ⟨-, i, hi, rfl⟩ := FS.findInode_some hfind
        exact absurd (h.open_allocated p i hi).1 (Nat.not_lt.2 hno)
  unfold inodeOpen
  simp only [Prog.run_gets_bind, hnone]
  refine Prog.bind_of_error ?_ _
  unfold inodeLocate
  rw [Prog.run_assert_bind_not (Nat.not_lt.2 hno)]

/-- An entry that names an inode beyond the table. -/
def strayEntry : DirEntry := ⟨[97], 5000, FT_REGULAR⟩

theorem strayEntry_found (bytes : Buf) :
    findEntry (strcmpEq [97]) (bytes.patch (32 * 0) 32 strayEntry.encode) 2 0 = some 0 ∧
      entryNo ((bytes.patch (32 * 0) 32 strayEntry.encode).from 0) = 5000 := by
  have hagree : Buf.Agree ((bytes.patch (32 * 0) 32 strayEntry.encode).from 0) strayEntry.encode 0 32 :=
    fun a _ ha => Buf.from_patch_same bytes 0 32 _ (by omega)
  constructor
  · refine findEntry_eq_some (k := 0) (by decide) ?_ fun l hl => absurd hl (Nat.not_lt_zero l)
    exact (strcmpEq_congr fun a h0 ha => hagree a h0 (by simp only [List.length_singleton] at ha; omega)).trans
      (@DirEntry.strcmpEq_encode strayEntry (by decide))
  · rw [entryNo_congr hagree]
    exact @DirEntry.entryNo_encode strayEntry (by decide)

end Kernel

end RecoverOS
