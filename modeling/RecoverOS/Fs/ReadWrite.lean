import RecoverOS.Fs.Positions

set_option autoImplicit false

/-! # `inode_read` and `inode_write`, whatever they are asked for

What a read extracts, what every `count` does to the arithmetic, and what a write that fails leaves. -/

namespace RecoverOS

/-! ## The file as a list of bytes -/

/-- A list that is put together from pieces of one length. -/
theorem getElem?_flatMap_pieces {α β : Type} {f : α → List β} {n : Nat} (hn : 0 < n)
    (hf : ∀ x, (f x).length = n) (l : List α) (a : Nat) :
    (l.flatMap f)[a]? = l[a / n]?.bind fun x => (f x)[a % n]? := by
  induction l generalizing a with
  | nil => simp
  | cons x l ih =>
      rw [List.flatMap_cons, List.getElem?_append, hf]
      by_cases ha : a < n
      · rw [if_pos ha, Nat.div_eq_of_lt ha, Nat.mod_eq_of_lt ha]
        rfl
      · have hdiv : a / n = (a - n) / n + 1 := by
          rw [← Nat.add_div_right _ hn, Nat.sub_add_cancel (Nat.not_lt.1 ha)]
        have hmod : a % n = (a - n) % n := Nat.mod_eq_sub_mod (Nat.not_lt.1 ha)
        rw [if_neg ha, ih, hdiv, hmod, List.getElem?_cons_succ]

namespace Inode

/-- The direct entries, and the indirect ones if there is an indirect block. -/
def entries (disk : Buf) (i : Inode) : List Nat :=
  (List.range NDIRECT).map i.i_sectors ++
    if i.i_sectors NDIRECT ≠ 0 then
      (List.range (MAX_FILE_BLOCKS_CNT - NDIRECT)).map (disk.from (SECTOR_SIZE * i.i_sectors NDIRECT)).word
    else []

/-- A sector; no sector stands for zeros. -/
def sector (disk : Buf) (lba : Nat) : List Byte :=
  (List.range SECTOR_SIZE).map fun j => if lba = 0 then 0 else disk (SECTOR_SIZE * lba + j)

/-- The content of a file. -/
def content (disk : Buf) (i : Inode) : List Byte := ((i.entries disk).flatMap (sector disk)).take i.i_size

variable {disk : Buf} {i : Inode}

theorem entries_getD (k : Nat) : (i.entries disk).getD k 0 = i.blocks disk k := by
  have hn : NDIRECT = 12 := rfl
  have hm : MAX_FILE_BLOCKS_CNT - NDIRECT = 128 := rfl
  unfold entries
  rw [List.getD_eq_getElem?_getD, List.getElem?_append, List.length_map, List.length_range, hm, hn]
  by_cases hk : k < 12
  · rw [if_pos hk, List.getElem?_map, List.getElem?_range hk, blocks_direct hk, Option.map_some,
      Option.getD_some]
  · rw [if_neg hk]
    by_cases h12 : i.i_sectors 12 = 0
    · rw [if_neg (fun h => h h12), blocks_no_indirect h12 (by omega), List.getElem?_nil, Option.getD_none]
    · rw [if_pos h12, List.getElem?_map]
      by_cases hk' : k < 140
      · rw [List.getElem?_range (by omega), blocks_indirect h12 (by omega) hk', Option.map_some,
          Option.getD_some]
      · rw [List.getElem?_eq_none (by rw [List.length_range]; omega), blocks_beyond (by omega),
          Option.map_none, Option.getD_none]

/-- The byte at an offset inside the file; past the last sector there are zeros. -/
theorem content_getD {a : Nat} (ha : a < i.i_size) : (i.content disk).getD a 0 = i.byte disk a := by
  have hlen : ∀ lba, (sector disk lba).length = 512 := fun lba => by
    unfold sector
    rw [List.length_map, List.length_range]
  have hmod : a % 512 < 512 := Nat.mod_lt _ (by decide)
  unfold content byte
  rw [List.getD_eq_getElem?_getD, List.getElem?_take, if_pos ha,
    getElem?_flatMap_pieces (by decide) hlen, ← entries_getD, List.getD_eq_getElem?_getD]
  cases hentry : (i.entries disk)[a / 512]? with
  | none => rfl
  | some lba =>
      rw [Option.bind_some, Option.getD_some]
      unfold sector
      rw [List.getElem?_map, List.getElem?_range hmod, Option.map_some, Option.getD_some]

end Inode

section Read

variable {s : FS} {p count pos : Nat} {i : Inode} {buf : Buf} {mallocOk : Nat → Bool}

/-- What `inode_read` stores is the content of the file at the position; at its end there is nothing. -/
theorem read_extracts (hp : s.inodes p = some i) (hsize : i.i_size ≤ MAX_FILE_SIZE) (hpos : pos ≤ i.i_size)
    (hfit : pos + count < 2 ^ 63)
    (hm : mallocOk (readBufSize pos (min count (i.i_size - pos))) = true) :
    if min count (i.i_size - pos) = 0 ∧ 0 < count then
      inodeRead mallocOk p buf count pos s = .ok ((-1, buf), s)
    else ∃ out, inodeRead mallocOk p buf count pos s = .ok (((min count (i.i_size - pos) : Nat), out), s) ∧
      (∀ k < min count (i.i_size - pos), out k = (i.content s.disk).getD (pos + k) 0) ∧
      ∀ k, min count (i.i_size - pos) ≤ k → out k = buf k := by
  have hsize' : i.i_size ≤ 71680 := hsize
  split
  · next hend =>
    refine inodeRead_end hp ⟨?_, ?_⟩
    · rw [u64_of_lt (by omega)]
      omega
    · rw [realCount_inside (by omega) hpos (by omega)]
      omega
  · next hgo =>
    obtain ⟨out, hrun, hin, hout⟩ := inodeRead_run mallocOk buf hp hsize' hpos (by omega) (by omega) hm
    refine ⟨out, hrun, fun k hk => ?_, hout⟩
    rw [hin k hk, Inode.content_getD (by omega)]

/-- A read of ten bytes, two bytes before the end of a file without blocks. -/
theorem read_extracts_hole : ∃ (s : FS) (i : Inode) (out : Buf), s.inodes 0 = some i ∧ i.i_size = 3 ∧
    inodeRead (fun _ => true) 0 Buf.zero 10 1 s = .ok ((2, out), s) ∧
    ∀ k < 2, out k = (i.content s.disk).getD (1 + k) 0 := by
  obtain ⟨s, -⟩ := exists_freshFile Buf.zero
  obtain ⟨i, hsize⟩ : ∃ i : Inode, i.i_size = 3 := ⟨⟨1, 3, 1, FT_REGULAR, fun _ => 0⟩, rfl⟩
  have hmax : i.i_size ≤ MAX_FILE_SIZE := by
    rw [hsize]
    decide
  have hmin : min 10 (i.i_size - 1) = 2 := by omega
  have hgo : ¬ (min 10 (i.i_size - 1) = 0 ∧ 0 < 10) := by omega
  have hpos : 1 ≤ i.i_size := by omega
  have hread := @read_extracts { s with inodes := fun _ => some i } 0 10 1 i Buf.zero (fun _ => true) rfl
    hmax hpos (by decide) rfl
  rw [if_neg hgo, hmin] at hread
  obtain ⟨out, hrun, hin, -⟩ := hread
  exact ⟨_, i, out, rfl, hsize, hrun, hin⟩

end Read

/-! ## Every count -/

section Counts

variable {s s' : FS} {p count pos : Nat} {i : Inode} {buf : Buf} {mallocOk : Nat → Bool}

/-- A read returns -1 and stores nothing, or it returns a number of bytes that the file has from the
    position on and stores no more than these. -/
def ReadSafe (s : FS) (p : Nat) (i : Inode) (mallocOk : Nat → Bool) (buf : Buf) (count pos : Nat) : Prop :=
  ∃ r out s', inodeRead mallocOk p buf count pos s = .ok ((r, out), s') ∧
    ((r = -1 ∧ out = buf) ∨ ∃ n : Nat, r = n ∧ n ≤ i.i_size - pos ∧ ∀ k, n ≤ k → out k = buf k)

/-- A write keeps to its array and to its buffer, and returns -1 if it would go past the largest size. -/
def WriteSafe (s : FS) (p : Nat) (buf : Buf) (count pos : Nat) : Prop :=
  inodeWrite p buf count pos s ≠ .error .undefined ∧
    (MAX_FILE_SIZE < pos + count → ∃ s', inodeWrite p buf count pos s = .ok (-1, s'))

theorem readSafe_of_sum (hp : s.inodes p = some i) (hsize : i.i_size ≤ MAX_FILE_SIZE)
    (hpos : pos ≤ i.i_size) (hsum : pos + count < 2 ^ 64) : ReadSafe s p i mallocOk buf count pos := by
  have hsize' : i.i_size ≤ 71680 := hsize
  have hrc : realCount i.i_size count pos = (min count (i.i_size - pos) : Nat) :=
    realCount_inside (by omega) hpos hsum
  by_cases hend : i.i_size < u64 (pos + count) ∧ realCount i.i_size count pos ≤ 0
  · exact ⟨-1, buf, s, inodeRead_end hp hend, .inl ⟨rfl, rfl⟩⟩
  · cases hm : mallocOk (readRequest i.i_size count pos) with
    | false => exact ⟨-1, buf, s, inodeRead_no_memory hp hend hm, .inl ⟨rfl, rfl⟩⟩
    | true =>
        rw [readRequest_inside hsize' hpos hsum] at hm
        have hgo : count = 0 ∨ pos < i.i_size := by
          rw [hrc, u64_of_lt hsum] at hend
          omega
        obtain ⟨out, hrun, -, hout⟩ := inodeRead_run mallocOk buf hp hsize' hpos hgo hsum hm
        exact ⟨_, out, s, hrun, .inr ⟨_, rfl, Nat.min_le_right _ _, hout⟩⟩

/-- The loop of a write that ends inside the array and whose first copy fits the buffer. -/
theorem writeLoop_defined {w : WriteArgs} {n idx : Nat} {all : Nat → Nat} {b : Buf}
    (hn : w.block_idx_end < idx + n) (hle : idx ≤ w.block_idx_end) (hend : w.block_idx_end ≤ 140)
    (hfit : idx = w.block_idx_start → w.block_off + w.advance idx ≤ 1024)
    (hstart : w.block_idx_start ≤ idx) : writeLoop w n idx all b s ≠ .error .undefined := by
  induction n generalizing idx all b s with
  | zero => omega
  | succ n ih =>
      by_cases hstop : idx = w.block_idx_end
      · subst hstop
        rw [writeLoop_stop]
        exact nofun
      · cases he : ensureBlock all idx s with
        | error e =>
            unfold ensureBlock at he
            split at he
            · rcases blockBitmapAlloc_cases s with ⟨-, hrun⟩ | ⟨k, btmp, -, hrun⟩
              · rw [Prog.bind_of_ok hrun] at he
                split at he <;> cases he
              · rw [Prog.bind_of_ok hrun] at he
                split at he <;> cases he
            · cases he
        | ok r =>
            obtain ⟨o, s1⟩ := r
            cases o with
            | none =>
                rw [writeLoop_full hstop (by omega) he]
                exact nofun
            | some all1 =>
                rw [writeLoop_turn n b hstop (by omega) he hfit]
                split
                · exact nofun
                · exact ih (by omega) (by omega) (fun heq => by omega) (by omega)

theorem allocIndirect_returns (hp : s.inodes p = some i) (last : Nat) :
    ∃ b s1 i1, allocIndirect p last s = .ok (b, s1) ∧ s1.inodes p = some i1 := by
  unfold allocIndirect
  rw [Prog.bind_of_ok (run_inodeAt hp)]
  split
  · rcases blockBitmapAlloc_cases s with ⟨-, hrun⟩ | ⟨k, btmp, -, hrun⟩
    · rw [Prog.bind_of_ok hrun, toInt32_neg_one]
      exact ⟨false, s, i, rfl, hp⟩
    · rw [Prog.bind_of_ok hrun]
      split
      · exact ⟨false, _, i, rfl, hp⟩
      · rw [Prog.bind_of_ok (run_ideWrite _ _ Nat.one_pos _)]
        exact ⟨true, _, _, rfl, Function.update_self _ _ _⟩
  · exact ⟨true, s, i, rfl, hp⟩

/-- The end of a write: an inode number past the table is an assertion that fails. -/
theorem writeBack_defined (hp : s.inodes p = some i) (all : Nat → Nat) (last : Nat) :
    writeBack p all last s = .ok ((), s.commit p i all last) ∨ writeBack p all last s = .error .panic := by
  by_cases hno : i.i_no < 4096
  · exact .inl (writeBack_run hp hno all last)
  · refine .inr ?_
    have hp' : (s.setObject p (writtenInode i all last)).inodes p = some (writtenInode i all last) :=
      Function.update_self _ _ _
    have hsync : inodeSync p (s.setObject p (writtenInode i all last)) = .error .panic := by
      unfold inodeSync
      rw [Prog.bind_of_ok (run_inodeAt hp')]
      refine Prog.bind_of_error ?_ _
      unfold inodeLocate
      exact Prog.run_assert_bind_not (c := i.i_no < MAX_FILES_PER_PART) hno _ _
    unfold writeBack
    rw [Prog.bind_of_ok (run_inodeAt hp)]
    dsimp only
    rw [Prog.bind_of_ok (a := ()) (t := s.setObject p (writtenInode i all last)) rfl]
    exact Prog.bind_of_error hsync _

theorem writeSafe_of_sum (hp : s.inodes p = some i) (hpos : pos ≤ 71680) (hsum : pos + count < 2 ^ 64) :
    WriteSafe s p buf count pos := by
  have hu : u64 (pos + count) = pos + count := u64_of_lt hsum
  by_cases hlong : u64 (pos + count) > MAX_FILE_SIZE
  · refine ⟨?_, fun _ => ⟨s, inodeWrite_too_long hlong⟩⟩
    rw [inodeWrite_too_long hlong]
    exact nofun
  · have hfit : pos + count ≤ 71680 := by
      rw [hu] at hlong
      exact Nat.not_lt.1 hlong
    refine ⟨?_, fun hmax => absurd hmax (Nat.not_lt.2 hfit)⟩
    have hp0 : ({ s with live := s.live + 1 } : FS).inodes p = some i := hp
    obtain ⟨b, s1, i1, halloc, hp1⟩ := allocIndirect_returns hp0 (u64 (pos + count))
    cases b with
    | false =>
        rw [inodeWrite_no_indirect hlong halloc]
        exact nofun
    | true =>
        rw [inodeWrite_loop hlong halloc hp1]
        cases hloop : writeLoop (callArgs pos count) (141 - pos / 512) (pos / 512) (i1.blocks s1.disk) buf s1 with
        | error e =>
            have hdef : writeLoop (callArgs pos count) (141 - pos / 512) (pos / 512) (i1.blocks s1.disk) buf s1 ≠
                .error .undefined := by
              rw [callArgs_eq hfit]
              refine writeLoop_defined ?_ ?_ ?_ (fun _ => ?_) (Nat.le_refl _)
              · show (pos + count + 512 - 1) / 512 < _
                omega
              · show _ ≤ (pos + count + 512 - 1) / 512
                omega
              · show (pos + count + 512 - 1) / 512 ≤ 140
                omega
              · have hself : pos / 512 = (writeArgs pos count).block_idx_start := rfl
                unfold WriteArgs.advance
                rw [if_pos hself]
                show pos % 512 + (if pos / 512 + 1 = (pos + count + 512 - 1) / 512 then count else
                  512 - pos % 512) ≤ 1024
                split <;> omega
            rw [Prog.bind_of_error hloop]
            rintro heq
            cases heq
            exact hdef hloop
        | ok r =>
            obtain ⟨o, s2⟩ := r
            rw [Prog.bind_of_ok hloop]
            cases o with
            | none => exact nofun
            | some all =>
                have hp2 : s2.inodes p = some i1 := by
                  rw [(writeLoop_quiet _ _ _ _ _ _ _ _ hloop).inodes, hp1]
                dsimp only
                obtain hrun | hrun := writeBack_defined hp2 all (u64 (pos + count))
                · rw [Prog.bind_of_ok hrun]
                  exact nofun
                · rw [Prog.bind_of_error hrun]
                  exact nofun

/-- Reads and writes are safe just when the sum of position and count does not wrap. -/
theorem counts_safe_iff (hp : s.inodes p = some i) (hsize : i.i_size ≤ MAX_FILE_SIZE) (hpos : pos ≤ i.i_size)
    (hcount : count < 2 ^ 64) :
    (∀ mallocOk buf, ReadSafe s p i mallocOk buf count pos ∧ WriteSafe s p buf count pos) ↔
      pos + count < 2 ^ 64 := by
  have hsize' : i.i_size ≤ 71680 := hsize
  constructor
  · intro hsafe
    obtain ⟨⟨r, out, s', hrun, -⟩, -⟩ := hsafe (fun _ => true) Buf.zero
    obtain ⟨-, hnot⟩ | ⟨n, -, -, hsum, -⟩ := inodeRead_returned hp hsize' hpos hcount hrun
    · by_contra hwrap
      exact hnot ⟨fun hend => hwrap hend.2.2, rfl⟩
    · exact hsum
  · exact fun hsum mallocOk buf => ⟨readSafe_of_sum hp hsize hpos hsum, writeSafe_of_sum hp (by omega) hsum⟩

/-- An empty file and the largest count. -/
theorem counts_safe_empty : ∃ (s : FS) (i : Inode), s.inodes 0 = some i ∧ i.i_size = 0 ∧
    ((∀ mallocOk buf, ReadSafe s 0 i mallocOk buf (2 ^ 64 - 1) 0 ∧ WriteSafe s 0 buf (2 ^ 64 - 1) 0) ↔
      0 + (2 ^ 64 - 1) < 2 ^ 64) := by
  obtain ⟨s, -⟩ := exists_freshFile Buf.zero
  let i : Inode := ⟨1, 0, 1, FT_REGULAR, fun _ => 0⟩
  exact ⟨{ s with inodes := fun _ => some i }, i, rfl, rfl, counts_safe_iff rfl (Nat.zero_le _) (Nat.zero_le _) (by decide)⟩

/-- At position 512 of a file of 512 bytes, a count that makes the sum wrap to 0: the read takes its end
    index from the wrapped sum, so its loop leaves the array. -/
theorem not_counts_safe_wrap : ∃ (s : FS) (i : Inode), s.inodes 0 = some i ∧ i.i_size = 512 ∧
    ¬ ReadSafe s 0 i (fun _ => true) Buf.zero (2 ^ 64 - 512) 512 := by
  obtain ⟨s, -⟩ := exists_freshFile Buf.zero
  obtain ⟨i, hsize⟩ : ∃ i : Inode, i.i_size = 512 := ⟨⟨1, 512, 1, FT_REGULAR, fun _ => 0⟩, rfl⟩
  refine ⟨{ s with inodes := fun _ => some i }, i, rfl, hsize, ?_⟩
  rintro ⟨r, out, s', hrun, -⟩
  obtain ⟨-, hnot⟩ | ⟨n, -, -, hsum, -⟩ := inodeRead_returned rfl (by omega) (by omega) (by omega) hrun
  · exact hnot ⟨fun hend => absurd hend.2.2 (by omega), rfl⟩
  · omega

end Counts

/-! ## Writes that fail -/

section Failures

variable {s s' : FS} {p count pos : Nat} {i : Inode} {buf : Buf}

/-- Nothing of a write to the inode at `p` is left: not in the inode, in the block bitmap or its sectors, in
    the files, open or not, and on the heap. -/
structure NoTrace (s s' : FS) (p : Nat) (i : Inode) : Prop where
  inode : ∃ i', s'.inodes p = some i' ∧ i'.i_size = i.i_size ∧ ∀ k ≤ NDIRECT, i'.i_sectors k = i.i_sectors k
  block_bitmap : s'.block_bitmap = s.block_bitmap
  bitmap_sectors : Buf.Agree s'.disk s.disk (512 * s.sb.block_bitmap_lba) (512 * s.sb.block_bitmap_sects)
  open_files : ∀ q j, s.inodes q = some j → ∃ j', s'.inodes q = some j' ∧ j'.i_size = j.i_size ∧
    ∀ a, j'.byte s'.disk a = j.byte s.disk a
  closed_files : ∀ no, s.allocated no → (∀ q j, s.inodes q = some j → j.i_no ≠ no) →
    s'.record no = s.record no ∧ ∀ a, (s.record no).byte s'.disk a = (s.record no).byte s.disk a
  live : s'.live = s.live

theorem NoTrace.refl (hp : s.inodes p = some i) : NoTrace s s p i where
  inode := ⟨i, hp, rfl, fun _ _ => rfl⟩
  block_bitmap := rfl
  bitmap_sectors _ _ _ := rfl
  open_files _ j hj := ⟨j, hj, rfl, fun _ => rfl⟩
  closed_files _ _ _ := ⟨rfl, fun _ => rfl⟩
  live := rfl

/-- Storing an inode as it is, with its record and its indirect block, leaves no trace. -/
theorem noTrace_commit {last : Nat} (hinv : Inv s) (hp : s.inodes p = some i) (hlast : last ≤ i.i_size) :
    NoTrace s (s.commit p i (i.blocks s.disk) last) p i := by
  have hsize := hinv.size_le hp
  have hg : Grown 0 0 s (i.blocks s.disk) s (i.blocks s.disk) := .refl 0 0 s _
  have hall := complete_of_grown hinv hp hg fun _ => Nat.zero_le _
  have hframe : WriteFrame s (s.commit p i (i.blocks s.disk) last) p i _ :=
    hg.writeFrame_commit hinv hp (fun _ => Nat.zero_le _) (by omega)
  have hobj := hframe.changes.object'
  have hwritten : (writtenInode i (i.blocks s.disk) last).i_size = i.i_size := by
    show (if last > i.i_size then last else i.i_size) = i.i_size
    rw [if_neg (by omega)]
  -- the other files, by what a write leaves alone
  have hother : ∀ no j, s.Copy no j → no ≠ i.i_no → ∀ a,
      j.byte (s.commit p i (i.blocks s.disk) last).disk a = j.byte s.disk a := fun no j hc hne a =>
    Inode.byte_congr (congrFun (hframe.blocks_eq hc hne) _) fun hk =>
      hframe.other_block hinv hc hne hk _ (by omega) (by omega)
  constructor
  case inode =>
    refine ⟨_, hobj, hwritten, fun k hk => ?_⟩
    by_cases hk12 : k < 12
    · rw [writtenInode_direct hk12, Inode.blocks_direct hk12]
    · rw [show k = 12 from Nat.le_antisymm hk (Nat.not_lt.1 hk12), writtenInode_indirect]
  case block_bitmap => exact commit_block_bitmap
  case bitmap_sectors =>
    have hgeo := hinv.geometry
    have h1 := hgeo.inode_lba
    have h2 := hgeo.table_lba
    have hrec : 512 * s.sb.inode_table_lba ≤ s.recordAddr i.i_no := Nat.le_add_right _ _
    refine fun a ha ha' => commit_disk (by omega) fun h12 => ?_
    have habove := FS.used_above hgeo (hinv.used_indirect (hinv.copy hp) h12) (hinv.no_lt hp)
    omega
  case open_files =>
    intro q j hj
    by_cases hqp : q = p
    · subst hqp
      rw [hp] at hj
      cases hj
      refine ⟨_, hobj, hwritten, fun a => Inode.byte_congr (commit_blocks q last hall _) fun hk => ?_⟩
      have hused := hinv.used_blocks (hinv.copy hp) hk
      have habove := FS.used_above hinv.geometry hused (hinv.no_lt hp)
      refine commit_disk (by omega) fun h12 => ?_
      have hne := hg.entry_ne_indirect hinv (hinv.copy hp) (hinv.copy hp) h12 hk
      omega
    · have hne : j.i_no ≠ i.i_no := fun heq => hqp (hinv.table.one_object _ _ _ _ hj hp heq)
      exact ⟨j, by rwa [hframe.changes.inodes_other hqp], rfl, hother _ j (hinv.copy hj) hne⟩
  case closed_files =>
    intro no ha hclosed
    have hne : no ≠ i.i_no := fun heq => hclosed p i hp heq.symm
    exact ⟨hframe.changes.record_other ha.1 hne, hother no _ ⟨ha, .inr rfl⟩ hne⟩
  case live =>
    unfold FS.commit
    split <;> rfl

/-- The sum of the largest count, if it is not too long: one less than the position. -/
theorem largest_count (hsize : pos ≤ 71680) (hfit : ¬ u64 (pos + (2 ^ 64 - 1)) > MAX_FILE_SIZE) :
    pos ≠ 0 ∧ u64 (pos + (2 ^ 64 - 1)) = pos - 1 := by
  have hmax : MAX_FILE_SIZE = 71680 := rfl
  have hpos : pos ≠ 0 := by
    rintro rfl
    rw [u64_of_lt (by omega)] at hfit
    omega
  refine ⟨hpos, ?_⟩
  unfold u64 at hfit ⊢
  omega

/-- A write that returns -1 has left its buffer on the heap, unless it was too long; or -1 is its count, and
    the loop was never entered. -/
theorem failed_write_cases (hinv : Inv s) (hp : s.inodes p = some i) (hpos : pos ≤ 71680)
    (hcount : count < 2 ^ 64) (hlong : ¬ u64 (pos + count) > MAX_FILE_SIZE)
    (hrun : inodeWrite p buf count pos s = .ok (-1, s')) :
    (s'.live = s.live + 1 ∧
        ¬ (count = 2 ^ 64 - 1 ∧ pos % BLOCK_SIZE ≤ 1 ∧ needIndirect i (pos - 1) = 0)) ∨
      (count = 2 ^ 64 - 1 ∧ pos % BLOCK_SIZE ≤ 1 ∧ ∃ s1 i1,
        allocIndirect p (pos - 1) { s with live := s.live + 1 } = .ok (true, s1) ∧
        Begun { s with live := s.live + 1 } p i (pos - 1) s1 i1 ∧
        s' = { s1.commit p i1 (i1.blocks s1.disk) (pos - 1) with
          live := (s1.commit p i1 (i1.blocks s1.disk) (pos - 1)).live - 1 }) := by
  have hback : count = 2 ^ 64 - 1 → pos ≠ 0 ∧ u64 (pos + count) = pos - 1 := by
    rintro rfl
    exact largest_count hpos hlong
  have hend : (callArgs pos count).block_idx_end = (u64 (pos + count) + 512 - 1) / 512 := rfl
  have hfuel : 141 - pos / 512 = 140 - pos / 512 + 1 := by omega
  -- the loop is not entered by the largest count right behind a block boundary
  have hstop : count = 2 ^ 64 - 1 → pos % 512 ≤ 1 → pos / 512 = (callArgs pos count).block_idx_end := by
    intro hmax hoff
    obtain ⟨hpos0, hlast⟩ := hback hmax
    rw [hend, hlast]
    omega
  obtain ⟨hmax, -⟩ | ⟨-, ⟨hfree, -, rfl⟩ | ⟨s1, i1, halloc, hb, hend'⟩⟩ := inodeWrite_eq_ok hinv hp hrun
  · exact absurd hmax hlong
  · refine .inl ⟨rfl, ?_⟩
    rintro ⟨hmax, -, hneed⟩
    rw [(hback hmax).2, hneed] at hfree
    exact absurd hfree (Nat.not_lt_zero _)
  have hlive : s1.live = s.live + 1 := by
    have hp0 : ({ s with live := s.live + 1 } : FS).inodes p = some i := hp
    rcases allocIndirect_cases (hinv.live (s.live + 1)).geometry hp0 (u64 (pos + count)) with
      ⟨-, hres⟩ | ⟨-, -, -, hres⟩ | ⟨k, btmp, -, -, -, hres⟩ <;> rw [hres] at halloc <;> cases halloc <;> rfl
  obtain ⟨hloop, -⟩ | ⟨all, s2, hloop, -, hr, hs'⟩ := hend'
  · obtain ⟨hi, all', hg, -⟩ := writeLoop_grown hb.inv.geometry hloop
    refine .inl ⟨(congrArg FS.live hg.frame).trans hlive, ?_⟩
    rintro ⟨hmax, hoff, -⟩
    rw [hfuel, hstop hmax hoff, writeLoop_stop] at hloop
    cases hloop
  · have hmax : count = 2 ^ 64 - 1 := by
      unfold s64 at hr
      split at hr <;> omega
    obtain ⟨hpos0, hlast⟩ := hback hmax
    -- a turn of the loop would copy past the buffer
    have hoff : pos % 512 ≤ 1 := by
      by_contra hoff
      have hnext : pos / 512 + 1 = (callArgs pos count).block_idx_end := by
        rw [hend, hlast]
        omega
      have hover : ¬ (callArgs pos count).block_off + (callArgs pos count).advance (pos / 512) ≤ 1024 := by
        have hself : pos / 512 = (callArgs pos count).block_idx_start := rfl
        unfold WriteArgs.advance
        rw [if_pos hself, if_pos hnext]
        show ¬ pos % 512 + count ≤ 1024
        omega
      have hne : pos / 512 ≠ (callArgs pos count).block_idx_end := by omega
      rw [hfuel] at hloop
      rcases ensureBlock_run hb.inv.geometry (i1.blocks s1.disk) (by omega : pos / 512 < 140) with
        ⟨-, -, he⟩ | ⟨all1, s3, he, -⟩
      · rw [writeLoop_full hne (by omega) he] at hloop
        cases hloop
      · rw [writeLoop_overrun hne (by omega) he rfl hover] at hloop
        cases hloop
    rw [hfuel, hstop hmax hoff, writeLoop_stop] at hloop
    obtain ⟨hall, rfl⟩ := Prod.mk.inj (Except.ok.inj hloop)
    obtain rfl := Option.some.inj hall
    rw [hlast] at halloc hb hs'
    exact .inr ⟨hmax, hoff, s1, i1, halloc, hb, hs'⟩

/-- `inode_write` on a heap that may refuse the buffer: the request is made before anything else is. -/
def inodeWriteMalloc (mallocOk : Nat → Bool) (inode : Nat) (buf : Buf) (count pos : Nat) : Prog FS Int :=
  if u64 (pos + count) > MAX_FILE_SIZE then pure (-1)
  else if mallocOk (BLOCK_SIZE * 2) = false then pure (-1)
  else inodeWrite inode buf count pos

theorem inodeWriteMalloc_too_long {mallocOk : Nat → Bool} (hlong : u64 (pos + count) > MAX_FILE_SIZE) :
    inodeWriteMalloc mallocOk p buf count pos s = .ok (-1, s) := by
  unfold inodeWriteMalloc
  rw [if_pos hlong]
  rfl

/-- A write that returns -1 leaves no trace if it is too long or gets no buffer, and otherwise always leaves
    its buffer on the heap. (-1 is also what a write of `2 ^ 64 - 1` bytes returns whose loop is never
    entered.) -/
theorem failed_write_iff (h : Reachable s) (hp : s.inodes p = some i) (hpos : pos ≤ i.i_size)
    (hcount : count < 2 ^ 64) {mallocOk : Nat → Bool}
    (hrun : inodeWriteMalloc mallocOk p buf count pos s = .ok (-1, s')) :
    NoTrace s s' p i ↔ MAX_FILE_SIZE < u64 (pos + count) ∨ mallocOk (BLOCK_SIZE * 2) = false ∨
      (count = 2 ^ 64 - 1 ∧ pos % BLOCK_SIZE ≤ 1 ∧ needIndirect i (pos - 1) = 0) := by
  have hinv := h.inv
  have hsize := hinv.size_le hp
  unfold inodeWriteMalloc at hrun
  by_cases hlong : u64 (pos + count) > MAX_FILE_SIZE
  · rw [if_pos hlong] at hrun
    cases hrun
    exact ⟨fun _ => .inl hlong, fun _ => .refl hp⟩
  rw [if_neg hlong] at hrun
  by_cases hm : mallocOk (BLOCK_SIZE * 2) = false
  · rw [if_pos hm] at hrun
    cases hrun
    exact ⟨fun _ => .inr (.inl hm), fun _ => .refl hp⟩
  · rw [if_neg hm] at hrun
    obtain ⟨hlive, hnot⟩ | ⟨hmax, hoff, s1, i1, halloc, hb, rfl⟩ :=
      failed_write_cases hinv hp (by omega) hcount hlong hrun
    · refine ⟨fun hn => ?_, fun hcond => ?_⟩
      · have hsame := hn.live
        omega
      · exact absurd ((hcond.resolve_left hlong).resolve_left hm) hnot
    · have hinv0 := hinv.live (s.live + 1)
      have hp0 : ({ s with live := s.live + 1 } : FS).inodes p = some i := hp
      have hfree : s1.freeBlocks + needIndirect i (pos - 1) = s.freeBlocks := hb.free
      constructor
      · intro hn
        have hbits : s1.block_bitmap = s.block_bitmap := commit_block_bitmap.symm.trans hn.block_bitmap
        have hsame : s1.freeBlocks = s.freeBlocks := by
          unfold FS.freeBlocks
          rw [hbits]
        exact .inr (.inr ⟨hmax, hoff, by omega⟩)
      · intro hcond
        obtain ⟨-, -, hneed⟩ := (hcond.resolve_left hlong).resolve_left hm
        obtain ⟨-, hres⟩ : (i.i_sectors 12 ≠ 0 ∨ pos - 1 ≤ 6144) ∧ _ := by
          rcases allocIndirect_cases hinv0.geometry hp0 (pos - 1) with
            hres | ⟨h12, hlt, -, -⟩ | ⟨k, btmp, h12, hlt, -, -⟩
          · exact hres
          all_goals
            rw [needIndirect, if_pos ⟨h12, hlt⟩] at hneed
            cases hneed
        rw [hres] at halloc
        obtain rfl := (Prod.mk.inj (Except.ok.inj halloc)).2
        obtain rfl : i1 = i := Option.some.inj (hb.object.symm.trans hp0)
        have hn : NoTrace _ (FS.commit _ p i1 _ (pos - 1)) p i1 := noTrace_commit hinv0 hp0 (by omega)
        exact ⟨hn.inode, hn.block_bitmap, hn.bitmap_sectors, hn.open_files, hn.closed_files,
          (congrArg (· - 1) hn.live).trans (Nat.add_sub_cancel s.live 1)⟩

/-- A write that is too long. -/
theorem failed_write_long : ∃ s p k, FreshFile Buf.zero s p k ∧
    inodeWriteMalloc (fun _ => true) p Buf.zero 71681 0 s = .ok (-1, s) ∧
    (NoTrace s s p (newInode k FT_REGULAR) ↔ MAX_FILE_SIZE < u64 (0 + 71681) ∨ true = false ∨
      (71681 = 2 ^ 64 - 1 ∧ 0 % BLOCK_SIZE ≤ 1 ∧ needIndirect (newInode k FT_REGULAR) (0 - 1) = 0)) := by
  obtain ⟨s, p, k, h⟩ := exists_freshFile Buf.zero
  have hlong : u64 (0 + 71681) > MAX_FILE_SIZE := by
    rw [u64_of_lt (by omega)]
    decide
  have hrun : inodeWriteMalloc (fun _ => true) p Buf.zero 71681 0 s = .ok (-1, s) :=
    inodeWriteMalloc_too_long hlong
  exact ⟨s, p, k, h, hrun,
    failed_write_iff h.reachable.reachable h.object (Nat.zero_le _) (by decide) hrun⟩

/-- Blocks that are taken are no longer free. -/
theorem freeBlocks_lt {b : Nat} (hsb : s'.sb = s.sb)
    (hlen : s'.block_bitmap.bytes_len = s.block_bitmap.bytes_len) (hused : ∀ b, s.used b → s'.used b)
    (hb : s'.used b) (hnot : ¬ s.used b) : s'.freeBlocks < s.freeBlocks := by
  have hsize : s'.block_bitmap.size = s.block_bitmap.size := by rw [Bitmap.size, Bitmap.size, hlen]
  obtain ⟨hge, hlt, hbit⟩ := hb
  rw [hsb] at hge hlt hbit
  have hidx : b - s.sb.data_start_lba < s.block_bitmap.size := by omega
  refine Finset.card_lt_card ⟨fun n hn => ?_, fun hsub => ?_⟩
  · obtain ⟨hn, hclear⟩ := Finset.mem_filter.1 hn
    rw [Finset.mem_range, hsize] at hn
    refine Finset.mem_filter.2 ⟨Finset.mem_range.2 hn, ?_⟩
    by_contra hset
    have hset' := hused _ ((bit_iff_used hn).1 (Bool.not_eq_false _ ▸ hset))
    rw [← hsb] at hset'
    rw [(bit_iff_used (by rwa [hsize])).2 hset'] at hclear
    cases hclear
  · have hclear : bitmapRead s.block_bitmap (b - s.sb.data_start_lba) = false := by
      rw [Bool.eq_false_iff]
      intro hset
      have hu := (bit_iff_used hidx).1 hset
      rw [Nat.add_sub_cancel' hge] at hu
      exact hnot hu
    have hmem := hsub (Finset.mem_filter.2 ⟨Finset.mem_range.2 hidx, hclear⟩)
    rw [(Finset.mem_filter.1 hmem).2] at hbit
    cases hbit

/-- Creating a file of 6145 bytes and deleting it takes a block from the disk and leaves the inodes as they
    were, unless the write fails. -/
theorem write_delete_takes (h : Reachable s) (hb : bitmapAllocABit s.inode_bitmap ≠ none) :
    ∃ s1 p i, Reachable s1 ∧ s1.inodes p = some i ∧ i.i_size = 0 ∧
      ((∃ s2, inodeWrite p Buf.zero 6145 0 s1 = .ok (-1, s2)) ∨
        ∃ s2, Reachable s2 ∧ s2.freeBlocks < s.freeBlocks ∧ bitmapAllocABit s2.inode_bitmap ≠ none) := by
  obtain ⟨⟨k, btmp⟩, hb⟩ := Option.ne_none_iff_exists'.1 hb
  have hinv := h.inv
  obtain ⟨hk, -, -, -⟩ := bitmapAllocABit_eq_some hb
  have halloc : inodeAlloc FT_REGULAR s = .ok (some s.next, s.createInode k FT_REGULAR) :=
    inodeAlloc_some hinv.geometry hb
  have hstep : (InodeCall.alloc FT_REGULAR).Step s (s.createInode k FT_REGULAR) :=
    ⟨(by decide : FT_REGULAR < 2 ^ 32), (Prog.bind_of_ok halloc _).trans rfl⟩
  have hroot : s.next ≠ s.root_dir_inode := by
    obtain ⟨r, hr, -⟩ := hinv.table.root
    have hlt := hinv.table.fresh _ _ hr
    omega
  have hr1 : Reachable (s.createInode k FT_REGULAR) := Reachable.step h hstep
  have hobj : (s.createInode k FT_REGULAR).inodes s.next = some (newInode k FT_REGULAR) := by
    show Function.update s.inodes s.next (some (newInode k FT_REGULAR)) s.next = _
    exact Function.update_self _ _ _
  refine ⟨_, s.next, _, hr1, hobj, rfl, ?_⟩
  rcases inodeWrite_run Buf.zero hr1.inv hobj (by decide : 0 + 6145 ≤ 71680) with
    ⟨-, s2, i2, hwrite, -⟩ | ⟨-, s2, -, hwrite, -⟩
  · right
    have hwstep : (InodeCall.write s.next Buf.zero 6145 0).Step (s.createInode k FT_REGULAR) s2 :=
      ⟨⟨_, hobj⟩, (Prog.bind_of_ok hwrite _).trans rfl⟩
    have hw : Wrote s.next (s.createInode k FT_REGULAR) ⟨Buf.zero, 6145, 0⟩ s2 := ⟨_, by decide, hwrite⟩
    obtain ⟨i2, hg⟩ := Grew.of_run hr1.inv hobj (Run.single hw)
    obtain ⟨s3, hfree, hsb, hibm, hlen, hused⟩ := hg.free hroot
    have hfstep : (InodeCall.free s.next).Step s2 s3 :=
      ⟨⟨by rw [hg.root]; exact hroot, _, hg.object, hg.open_cnts⟩, hfree⟩
    refine ⟨s3, Reachable.step (Reachable.step hr1 hwstep) hfstep, ?_, ?_⟩
    · -- the indirect block is taken now, and was not before
      have h12 : i2.i_sectors 12 ≠ 0 := by
        intro h0
        have hle := hg.indirect.1 h0 _ (List.mem_singleton.2 rfl)
        have hu : u64 (0 + 6145) = 6145 := u64_of_lt (by decide)
        rw [hu] at hle
        omega
      have hfresh := hg.fresh 140
      rw [Inode.slot_indirect] at hfresh
      exact freeBlocks_lt hsb hlen (fun b hb => (hused b).2 (.inl hb)) ((hused _).2 (.inr ⟨rfl, h12⟩))
        (hfresh h12)
    · rw [Ne, bitmapAllocABit_eq_none, hibm]
      intro hall
      have hset := hall k hk
      rw [bitmapRead_bitmapSet, if_pos rfl] at hset
      cases hset
  · exact .inl ⟨s2, hwrite⟩

/-- Files of 6145 bytes that are created and deleted fill the disk up. -/
theorem exists_full (n : Nat) : ∀ s, Reachable s → s.freeBlocks = n →
    bitmapAllocABit s.inode_bitmap ≠ none → ∃ s1 s2 p i, Reachable s1 ∧ s1.inodes p = some i ∧
      i.i_size = 0 ∧ inodeWrite p Buf.zero 6145 0 s1 = .ok (-1, s2) := by
  induction n using Nat.strong_induction_on with
  | _ n ih =>
      intro s h hn hb
      obtain ⟨s1, p, i, h1, hp, hi, ⟨s2, hfail⟩ | ⟨s2, h2, hless, hb2⟩⟩ := write_delete_takes h hb
      · exact ⟨s1, s2, p, i, h1, hp, hi, hfail⟩
      · exact ih s2.freeBlocks (hn ▸ hless) s2 h2 rfl hb2

/-- A write of 6145 bytes at the start of an empty file that finds the disk full, and leaves its buffer on the
    heap. -/
theorem not_failed_write_full : ∃ s s' p i, Reachable s ∧ s.inodes p = some i ∧
    inodeWriteMalloc (fun _ => true) p Buf.zero 6145 0 s = .ok (-1, s') ∧ ¬ NoTrace s s' p i := by
  obtain ⟨s0, s1, p0, k, h0, halloc, -⟩ := exists_inodeAlloc Buf.zero
  have hb : bitmapAllocABit s0.inode_bitmap ≠ none := by
    intro hb
    rw [inodeAlloc_none hb] at halloc
    cases halloc
  obtain ⟨s, s', p, i, h, hp, hi, hrun⟩ := exists_full _ s0 h0 rfl hb
  have hlong : ¬ u64 (0 + 6145) > MAX_FILE_SIZE := by
    rw [u64_of_lt (by omega)]
    decide
  refine ⟨s, s', p, i, h, hp, ?_, fun hn => ?_⟩
  · unfold inodeWriteMalloc
    rw [if_neg hlong, if_neg (by decide)]
    exact hrun
  · obtain ⟨hlive, -⟩ | ⟨hmax, -⟩ := failed_write_cases h.inv hp (Nat.zero_le _) (by omega) hlong hrun
    · have hsame := hn.live
      omega
    · cases hmax

end Failures

end RecoverOS
