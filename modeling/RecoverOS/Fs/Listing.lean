import RecoverOS.Fs.OpenCounts

set_option autoImplicit false

/-! # Listing a directory (`sys_opendir` and `sys_readdir` of `fs/fs.c`)

`sys_readdir` moves its position before it looks at the size of the directory, and skips erased entries. -/

namespace RecoverOS

/-- `struct dir`. -/
structure Dir where
  inode : Nat
  dir_pos : Nat
  dir_buf : Buf

namespace Kernel

/-- `sys_opendir`; `dir_buf` is what the memory of the new `struct dir` holds. -/
def opendir {P : Type} (p : P) (path : List Byte) (dir_buf : Buf) : Prog (Kernel P) (Option Dir) := do
  let inode ← sysOpendir p path
  pure (inode.map fun inode => ⟨inode, 0, dir_buf⟩)

end Kernel

/-- The loop of `sys_readdir`. -/
def readdirLoop (mallocOk : Nat → Bool) : Nat → Dir → Prog FS (Option Buf × Dir)
  | 0, _ => Prog.fault .undefined
  | n + 1, pdir => do
      let dir_pos := u64 (pdir.dir_pos + sizeofDirEntry)
      let i ← inodeAt pdir.inode
      if dir_pos > i.i_size then pure (none, { pdir with dir_pos := dir_pos })
      else do
        let r ← inodeRead mallocOk pdir.inode pdir.dir_buf sizeofDirEntry (sub64 dir_pos sizeofDirEntry)
        let pdir : Dir := { pdir with dir_pos := dir_pos, dir_buf := r.2 }
        if entryType r.2 = FT_UNKNOWN then readdirLoop mallocOk n pdir
        else pure (some r.2, pdir)

/-- `sys_readdir`: the contents of `dir_buf`, or `none` for `NULL`, and the `struct dir` afterwards. -/
def sysReaddir (mallocOk : Nat → Bool) (pdir : Dir) : Prog FS (Option Buf × Dir) :=
  readdirLoop mallocOk (maxEntries + 2) pdir

/-- The object at `p` is a directory of `m` entries, which are the first bytes of `bytes`; its size is one that
    `inode_write` lets a file have. -/
structure Listed (s : FS) (p m : Nat) (bytes : Buf) : Prop where
  room : 32 * m ≤ MAX_FILE_SIZE
  object : ∃ i, s.inodes p = some i ∧ i.f_type = FT_DIRECTORY ∧ i.i_size = 32 * m ∧
    ∀ a < 32 * m, i.byte s.disk a = bytes a

/-- The entries from number `k` on that are not erased, by number. -/
def liveFrom (m : Nat) (bytes : Buf) (k : Nat) : List Nat :=
  (List.range' k (m - k)).filter fun o => entryType (bytes.from (32 * o)) ≠ FT_UNKNOWN

/-- A call yields an entry, or `NULL` when there is none. -/
def Yields (bytes : Buf) : Option Nat → Option Buf → Prop
  | some o, r => ∃ b, r = some b ∧ Buf.Agree b (bytes.from (32 * o)) 0 32
  | none, r => r = none

/-- Calls of `sys_readdir` with one `struct dir`; between them anything may happen that leaves the directory
    as it is. -/
inductive ListStep (mallocOk : Nat → Bool) (m : Nat) (bytes : Buf) :
    FS × Dir → Option (Option Buf) → FS × Dir → Prop where
  | readdir {s s' : FS} {d d' : Dir} {r : Option Buf} (hrun : sysReaddir mallocOk d s = .ok ((r, d'), s')) :
      ListStep mallocOk m bytes (s, d) (some r) (s', d')
  | other {s s' : FS} {d : Dir} (hsame : Listed s' d.inode m bytes) :
      ListStep mallocOk m bytes (s, d) none (s', d)

section Calls

variable {mallocOk : Nat → Bool} {s s' : FS} {p m k n : Nat} {bytes : Buf} {d : Dir}

theorem liveFrom_end (hk : m ≤ k) : liveFrom m bytes k = [] := by
  unfold liveFrom
  rw [Nat.sub_eq_zero_of_le hk]
  rfl

theorem liveFrom_step (hk : k < m) : liveFrom m bytes k =
    if entryType (bytes.from (32 * k)) ≠ FT_UNKNOWN then k :: liveFrom m bytes (k + 1)
    else liveFrom m bytes (k + 1) := by
  unfold liveFrom
  obtain ⟨l, hl⟩ := Nat.exists_eq_succ_of_ne_zero (Nat.sub_ne_zero_of_lt hk)
  have hl' : m - (k + 1) = l := by omega
  rw [hl, hl', List.range'_succ, List.filter_cons]
  simp only [decide_eq_true_eq]

/-- A read of one entry. -/
theorem Listed.inodeRead (h : Listed s p m bytes) (hmalloc : mallocOk 512 = true) (hk : k < m) (de : Buf) :
    ∃ out, RecoverOS.inodeRead mallocOk p de sizeofDirEntry (32 * k) s = .ok ((32, out), s) ∧
      Buf.Agree out (bytes.from (32 * k)) 0 32 := by
  obtain ⟨i, hp, -, hsize, hbytes⟩ := h.object
  have hroom : 32 * m ≤ 71680 := h.room
  have hmin : min 32 (i.i_size - 32 * k) = 32 := by omega
  have hone : readBufSize (32 * k) 32 = 512 := by
    unfold readBufSize
    omega
  obtain ⟨out, hrun, hin, -⟩ := inodeRead_run mallocOk de hp (by omega)
    (by omega : 32 * k ≤ i.i_size) (.inr (by omega)) (by omega : 32 * k + 32 < 2 ^ 64)
    (by rw [hmin, hone]; exact hmalloc)
  rw [hmin] at hrun hin
  exact ⟨out, hrun, fun a _ ha => (hin a (by omega)).trans (hbytes _ (by omega))⟩

/-- The loop goes on to the next entry that is not erased, or past the end. -/
theorem Listed.readdirLoop (hmalloc : mallocOk 512 = true) (h : Listed s d.inode m bytes)
    (hpos : d.dir_pos = 32 * k) (hk : k ≤ m) (hn : m - k < n) :
    ∃ r d', readdirLoop mallocOk n d s = .ok ((r, d'), s) ∧ d'.inode = d.inode ∧
      match liveFrom m bytes k with
      | [] => r = none
      | o :: rest => Yields bytes (some o) r ∧ o < m ∧ d'.dir_pos = 32 * (o + 1) ∧
          liveFrom m bytes (o + 1) = rest := by
  induction n generalizing k d with
  | zero => exact absurd hn (Nat.not_lt_zero _)
  | succ n ih =>
      have hroom : 32 * m ≤ 71680 := h.room
      obtain ⟨i, hp, -, hsize, -⟩ := h.object
      have hnext : u64 (d.dir_pos + sizeofDirEntry) = 32 * (k + 1) := by
        rw [hpos]
        have hlt : 32 * k + 32 < 2 ^ 64 := by omega
        exact (u64_of_lt hlt).trans (by omega)
      unfold RecoverOS.readdirLoop
      dsimp only
      rw [hnext, Prog.bind_of_ok (run_inodeAt hp)]
      by_cases hend : k = m
      · subst hend
        rw [if_pos (by omega), liveFrom_end (Nat.le_refl _)]
        exact ⟨none, _, rfl, rfl, rfl⟩
      · have hback : sub64 (32 * (k + 1)) sizeofDirEntry = 32 * k := by
          have hle : 32 ≤ 32 * (k + 1) := by omega
          exact (sub64_of_le hle (by omega)).trans (by omega)
        obtain ⟨out, hread, hout⟩ := h.inodeRead hmalloc (by omega : k < m) d.dir_buf
        have htype : entryType out = entryType (bytes.from (32 * k)) := entryType_congr hout
        rw [if_neg (by omega), hback, Prog.bind_of_ok hread, liveFrom_step (by omega : k < m)]
        dsimp only
        by_cases herased : entryType out = FT_UNKNOWN
        · rw [if_pos herased, if_neg (not_not_intro (htype ▸ herased))]
          exact ih (d := ⟨d.inode, 32 * (k + 1), out⟩) h rfl (by omega) (by omega)
        · rw [if_neg herased, if_pos (htype ▸ herased)]
          exact ⟨some out, _, rfl, rfl, ⟨out, rfl, hout⟩, by omega, rfl, rfl⟩

/-- A call changes the `struct dir` only. -/
theorem readdirLoop_frame {r : Option Buf} {d' : Dir}
    (hrun : RecoverOS.readdirLoop mallocOk n d s = .ok ((r, d'), s')) : s' = s ∧ d'.inode = d.inode := by
  induction n generalizing d s with
  | zero => cases hrun
  | succ n ih =>
      unfold RecoverOS.readdirLoop at hrun
      obtain ⟨i, t, hi, h1⟩ := Prog.bind_eq_ok.1 hrun
      obtain ⟨-, rfl⟩ := inodeAt_eq_ok.1 hi
      clear hrun
      split at h1
      · obtain ⟨heq, rfl⟩ := Prog.pure_eq_ok.1 h1
        cases heq
        exact ⟨rfl, rfl⟩
      · obtain ⟨out, t', hread, h2⟩ := Prog.bind_eq_ok.1 h1
        obtain rfl := inodeRead_state hread
        clear h1
        split at h2
        · have hrest := ih h2
          exact hrest
        · obtain ⟨heq, rfl⟩ := Prog.pure_eq_ok.1 h2
          cases heq
          exact ⟨rfl, rfl⟩

/-- What is left of the listing after some calls, as long as `NULL` was not returned. -/
def Remaining (m : Nat) (bytes : Buf) (d : Dir) (rest : List Nat) : Prop :=
  ∃ k ≤ m, d.dir_pos = 32 * k ∧ liveFrom m bytes k = rest

/-- A call takes the first of the remaining entries, or returns `NULL`. -/
theorem Listed.readdir (hmalloc : mallocOk 512 = true) (h : Listed s d.inode m bytes) {rest : List Nat}
    (hrest : Remaining m bytes d rest) : ∃ r d', sysReaddir mallocOk d s = .ok ((r, d'), s) ∧
      d'.inode = d.inode ∧ Yields bytes rest.head? r ∧ (rest ≠ [] → Remaining m bytes d' rest.tail) := by
  obtain ⟨k, hk, hpos, hlive⟩ := hrest
  have hroom : 32 * m ≤ 71680 := h.room
  obtain ⟨r, d', hrun, hinode, hcase⟩ := h.readdirLoop (n := 2240 + 2) hmalloc hpos hk (by omega)
  refine ⟨r, d', hrun, hinode, ?_⟩
  rw [hlive] at hcase
  cases rest with
  | nil => exact ⟨hcase, fun hne => absurd rfl hne⟩
  | cons o rest =>
      obtain ⟨hyields, ho, hpos', hlive'⟩ := hcase
      exact ⟨hyields, fun _ => ⟨o + 1, ho, hpos', hlive'⟩⟩

/-- What the calls of a run have returned. -/
def results (ls : List (Option (Option Buf))) : List (Option Buf) := ls.filterMap id

/-- Up to the first `NULL` the calls of a run have yielded the entries in order, and the next one yields the
    next. -/
structure Listing (m : Nat) (bytes : Buf) (p : Nat) (rs : List (Option Buf)) (s : FS) (d : Dir) : Prop where
  listed : Listed s p m bytes
  inode : d.inode = p
  yields : ∀ k ≤ (liveFrom m bytes 0).length, ∀ r, rs[k]? = some r → Yields bytes (liveFrom m bytes 0)[k]? r
  remaining : rs.length ≤ (liveFrom m bytes 0).length →
    Remaining m bytes d ((liveFrom m bytes 0).drop rs.length)

theorem Listing.run (hmalloc : mallocOk 512 = true) {ls : List (Option (Option Buf))} {d0 : Dir} {s0 : FS}
    (h0 : Listed s0 d0.inode m bytes) (hpos : d0.dir_pos = 0)
    (hrun : Run (ListStep mallocOk m bytes) (s0, d0) ls (s, d)) :
    Listing m bytes d0.inode (results ls) s d := by
  generalize hst : (s0, d0) = st at hrun
  generalize hst' : (s, d) = st' at hrun
  induction hrun generalizing s d with
  | nil =>
      cases hst'
      cases hst
      exact ⟨h0, rfl, nofun, fun _ => ⟨0, Nat.zero_le m, hpos, rfl⟩⟩
  | @snoc ls t u l hbefore hlast ih =>
      obtain ⟨t, e⟩ := t
      obtain ⟨hlisted, hinode, hyields, hremaining⟩ := ih rfl
      cases hlast with
      | @other s' d' _ hsame =>
          cases hst'
          have hres : results (ls ++ [none]) = results ls := by
            simp [results]
          rw [hres]
          exact ⟨hinode ▸ hsame, hinode, hyields, hremaining⟩
      | @readdir s' d' _ d'' r hcall =>
          cases hst'
          have hres : results (ls ++ [some r]) = results ls ++ [r] := by
            simp [results]
          rw [hres]
          obtain ⟨rfl, hinode'⟩ := readdirLoop_frame hcall
          refine ⟨hlisted, hinode'.trans hinode, fun k hk r' hr' => ?_, fun hlen => ?_⟩
          · by_cases hlt : k < (results ls).length
            · rw [List.getElem?_append_left hlt] at hr'
              exact hyields k hk r' hr'
            · obtain rfl : k = (results ls).length := by
                have := (List.getElem?_eq_some_iff.1 hr').1
                rw [List.length_append, List.length_singleton] at this
                omega
              obtain rfl : r = r' := by
                rw [List.getElem?_append_right (Nat.le_refl _), Nat.sub_self] at hr'
                exact Option.some.inj hr'
              obtain ⟨r1, d1, hrun1, -, hyields1, -⟩ :=
                Listed.readdir (d := e) hmalloc (hinode ▸ hlisted) (hremaining hk)
              rw [hcall] at hrun1
              cases hrun1
              rwa [List.head?_drop] at hyields1
          · rw [List.length_append, List.length_singleton] at hlen ⊢
            obtain ⟨r1, d1, hrun1, -, -, hrest1⟩ :=
              Listed.readdir (d := e) hmalloc (hinode ▸ hlisted) (hremaining (by omega))
            rw [hcall] at hrun1
            cases hrun1
            have hne : (liveFrom m bytes 0).drop (results ls).length ≠ [] := by
              rw [Ne, List.drop_eq_nil_iff]
              omega
            have htail := hrest1 hne
            rwa [List.tail_drop] at htail

end Calls

section Opened

variable {P : Type} {kernel kernel' : Kernel P} {p : P} {path : List Byte} {dir_buf bytes : Buf} {d0 d : Dir}
  {s : FS} {m : Nat} {mallocOk : Nat → Bool} {ls : List (Option (Option Buf))}

/-- `sys_opendir` starts at the beginning. -/
theorem Kernel.opendir_pos (hopen : Kernel.opendir p path dir_buf kernel = .ok (some d0, kernel')) :
    d0.dir_pos = 0 := by
  obtain ⟨inode, k, -, h⟩ := Prog.bind_eq_ok.1 hopen
  obtain ⟨heq, rfl⟩ := Prog.pure_eq_ok.1 h
  obtain ⟨q, -, rfl⟩ := Option.map_eq_some_iff.1 heq
  rfl

/-- The calls of `sys_readdir` that follow a `sys_opendir` yield the entries of the directory that are not
    erased, in order, and then `NULL`; none of them fails. -/
theorem listing_complete (hopen : Kernel.opendir p path dir_buf kernel = .ok (some d0, kernel'))
    (h0 : Listed kernel'.fs d0.inode m bytes) (hmalloc : mallocOk 512 = true)
    (hrun : Run (ListStep mallocOk m bytes) (kernel'.fs, d0) ls (s, d)) :
    (∀ k ≤ (liveFrom m bytes 0).length, ∀ r, (results ls)[k]? = some r →
      Yields bytes (liveFrom m bytes 0)[k]? r) ∧
      ((results ls).length ≤ (liveFrom m bytes 0).length →
        ∃ r d', sysReaddir mallocOk d s = .ok ((r, d'), s)) := by
  have hlisting := Listing.run hmalloc h0 (Kernel.opendir_pos hopen) hrun
  refine ⟨hlisting.yields, fun hlen => ?_⟩
  obtain ⟨r, d', hcall, -⟩ :=
    Listed.readdir hmalloc (hlisting.inode.symm ▸ hlisting.listed) (hlisting.remaining hlen)
  exact ⟨r, d', hcall⟩

end Opened

/-- Right after the start the root directory is opened and its first entry read. -/
theorem listing_complete_root : ∃ (s s' : Kernel Unit) (d0 d1 : Dir) (m : Nat) (bytes : Buf) (r : Option Buf),
    Kernel.Booted s ∧ Kernel.opendir () [slashChar] Buf.zero s = .ok (some d0, s') ∧
    Listed s'.fs d0.inode m bytes ∧ sysReaddir (fun _ => true) d0 s'.fs = .ok ((r, d1), s'.fs) ∧
    Yields bytes (liveFrom m bytes 0)[0]? r := by
  obtain ⟨s, hs⟩ := Kernel.exists_booted
  obtain ⟨m, hm⟩ := hs.rooted.fs
  obtain ⟨t, hv, hrun⟩ : ∃ t, Visited s.fs t ∧
      Kernel.sysOpendir () [slashChar] s = .ok (some s.fs.root_dir_inode, { s with fs := t }) := by
    have hroot : s.fs.resolve 0 [slashChar] = some 0 := rfl
    obtain ⟨-, hno, -⟩ | ⟨hno, -⟩ | ⟨-, t, hv, hrun⟩ | ⟨no, q, t, hno, ho, -⟩ :=
      hs.rooted.sysOpendir_cases () [slashChar]
    · rw [hroot] at hno
      cases hno
    · rw [hroot] at hno
      cases hno
    · exact ⟨t, hv, hrun⟩
    · rw [hroot] at hno
      exact absurd (Option.some.inj hno).symm ho.ne_zero
  have ht := hv.rootDir hm
  have hlisted : Listed t s.fs.root_dir_inode m (t.file 0) := by
    have hle := ht.dir.le
    have hobj := ht.dir.object
    rw [hv.root] at hobj
    exact ⟨(by omega : 32 * m ≤ 71680), hobj⟩
  have hopen : Kernel.opendir () [slashChar] Buf.zero s =
      .ok (some ⟨s.fs.root_dir_inode, 0, Buf.zero⟩, { s with fs := t }) := by
    unfold Kernel.opendir
    rw [Prog.bind_of_ok hrun]
    rfl
  have hdir : Listed t (⟨s.fs.root_dir_inode, 0, Buf.zero⟩ : Dir).inode m (t.file 0) := hlisted
  obtain ⟨r, d1, hread, -⟩ := @Listed.readdir (fun _ => true) _ _ _ _ rfl hdir _ ⟨0, Nat.zero_le m, rfl, rfl⟩
  have hstep : Run (ListStep (fun _ => true) m (t.file 0)) (t, ⟨s.fs.root_dir_inode, 0, Buf.zero⟩) [some r]
      (t, d1) := .single (.readdir hread)
  exact ⟨s, _, _, d1, m, _, r, hs, hopen, hlisted, hread,
    (listing_complete hopen hlisted rfl hstep).1 0 (Nat.zero_le _) r rfl⟩

end RecoverOS
