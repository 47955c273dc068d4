import RecoverOS.Fs.Content
import RecoverOS.LibKernel.RunAlloc
import RecoverOS.Memory.Heap
import RecoverOS.Memory.PoolMemory

set_option autoImplicit false

/-! # Loading an executable (`userprog/exec.c`)

`load` of `sys_execv`, on an open file. Everything it maps and copies is chosen by the program headers
of the file: page counts are kept in 32 bits, addresses are not looked at. The buffers that `inode_read` reads
into come from the heap of the process, so from the same pool. What `load` does to the address space is recorded
as it goes. -/

namespace RecoverOS

/-- `USER_START_ADDR`. -/
abbrev USER_START_ADDR : Nat := 0x1000

/-- `POOL_LEN_MAX`. -/
abbrev POOL_LEN_MAX : Nat := V_POOL_BITS_MAX * 8 * 4096

/-- `PT_LOAD`. -/
abbrev PT_LOAD : Nat := 1

/-- The open file: its bytes and its size. -/
structure ElfFile where
  content : Buf
  i_size : Nat

/-- The fields of an `Elf64_Phdr` that `load` reads. -/
structure Elf64Phdr where
  p_type : Nat
  p_offset : Nat
  p_vaddr : Nat
  p_filesz : Nat

/-- The thread that runs `load`: its `pml4`, and what its heap is like between two reads. For requests of some sizes
    there is a free block, and at some addresses are the links and the arena headers that `sys_malloc` and `sys_free`
    of a read buffer go by (`own`), and the free blocks that become read buffers (`block`). In a heap that `sys_malloc`
    and `sys_free` have left, no arena has all its blocks free, so every read gives back what it took and each of them
    finds the heap like that. -/
structure Caller where
  pml4 : Option Nat
  hasFree : Nat → Bool
  own : Nat → Bool
  block : Nat → Bool

/-- What `load` does to the address space: it maps a page or writes a bit of the user pool, for a segment or for
    a read buffer; it asks `alloc_pages` for the `cnt` pages of a read buffer, with the bitmap as it is then, and
    `sys_malloc` returns `NULL` for one; it has `sys_read` store `n` bytes of a segment, after it went over `pages`
    pages from `first` on; and in doing so it overwrites the links of the heap. -/
inductive LoadEvent where
  | map (page : Nat)
  | setBit (idx : Nat)
  | request (pool_bitmap : Bitmap) (cnt : Nat)
  | refused
  | store (vaddr n first pages : Nat)
  | overwrite

/-- The process that runs `load`, with the position in the file. -/
structure Exec where
  space : Space
  fd_pos : Nat
  events : List LoadEvent

/-! ## The file -/

namespace ElfFile

variable (f : ElfFile)

/-- `sys_lseek(fd, offset, SEEK_SET)`: the position afterwards. -/
def lseek (offset fd_pos : Nat) : Nat :=
  if s64 offset < 0 ∨ s64 offset > s64 f.i_size then fd_pos else offset

/-- The number of bytes that `inode_read` stores once it has a buffer; `none` when there is nothing to read. -/
def readBytes (count fd_pos : Nat) : Option Nat :=
  let real_count := realCount f.i_size count fd_pos
  if f.i_size < u64 (fd_pos + count) ∧ real_count ≤ 0 then none else some (u64OfInt real_count)

/-- The position after `sys_read`, which adds what `inode_read` returns. -/
def afterRead (ret : Option Nat) (fd_pos : Nat) : Nat :=
  match ret with
  | none => u64 (fd_pos + (2 ^ 64 - 1))
  | some n => u64 (fd_pos + n)

/-- The `Elf64_Phdr` at a position. -/
def phdrAt (pos : Nat) : Elf64Phdr where
  p_type := f.content.getLE pos 4
  p_offset := f.content.getLE (pos + 8) 8
  p_vaddr := f.content.getLE (pos + 16) 8
  p_filesz := f.content.getLE (pos + 32) 8

end ElfFile

/-! ## The code -/

def onSpace {α : Type} (m : Prog Space α) : Prog Exec α :=
  Prog.zoom Exec.space (fun space s => { s with space := space }) m

def record (events : List LoadEvent) : Prog Exec Unit :=
  Prog.modify fun s => { s with events := s.events ++ events }

def setPos (fd_pos : Nat) : Prog Exec Unit := Prog.modify fun s => { s with fd_pos := fd_pos }

/-- `get_pages(vaddr, 1)` up to the pointer that is returned; `false` when `palloc` returns `NULL`. -/
def getPage (vaddr : Nat) : Prog Memory Bool := do
  let paddr ← palloc
  match paddr with
  | none => pure false
  | some p => do
      pageMap vaddr p
      pure true

/-! ### The read buffer -/

/-- The index of a page in the pool of the process. -/
def Exec.poolIdx (s : Exec) (vaddr : Nat) : Nat := (vaddr + 2 ^ 64 - s.space.vpool.start) % 2 ^ 64 / 4096

/-- The bits of `cnt` pages. -/
def bitsFrom (idx cnt : Nat) : List LoadEvent := (List.range cnt).map fun i => .setBit (idx + i)

/-- The loop of `alloc_pages`, from page `i` on with `n` pages left. -/
def bufferPagesFrom (vaddr : Nat) : Nat → Nat → Prog Exec Bool
  | 0, _ => pure true
  | n + 1, i => do
      let got ← onSpace (onMem (getPage (vaddr + i * 4096)))
      if got then do
        record [.map (vaddr + i * 4096)]
        bufferPagesFrom vaddr n (i + 1)
      else pure false

/-- `alloc_pages` on the pool of the process. -/
def bufferPages (cnt : Nat) : Prog Exec (Option Nat) := do
  let s ← Prog.get
  record [.request s.space.vpool.pool_bitmap cnt]
  let vaddr ← onSpace (PoolMemory.vpoolAlloc cnt)
  match vaddr with
  | none => pure none
  | some v => do
      record (bitsFrom (s.poolIdx v) cnt)
      let ok ← bufferPagesFrom v cnt 0
      pure (if ok then some v else none)

/-- What `sys_malloc` returns to `inode_read`: a free block, or a block in front of which an arena has come with
    new pages. -/
inductive ReadBuf where
  | block
  | pages (arena cnt : Nat)

/-- `sys_malloc` of the read buffer; `none` stands for `NULL`. With a count of 0 the arena would be stored in a page
    that is not there. -/
def mallocReadBuf (c : Caller) (size : Nat) : Prog Exec (Option ReadBuf) :=
  if size > 1024 then do
    let pg_cnt := (size + sizeofArena + 4096 - 1) % 2 ^ 64 / 4096
    Prog.require (0 < pg_cnt)
    let a ← bufferPages pg_cnt
    pure (a.map fun a => .pages a pg_cnt)
  else if c.hasFree size then pure (some .block)
  else do
    let a ← bufferPages 1
    match a with
    | none => Prog.fault .panic
    | some a => pure (some (.pages a 1))

/-- `sys_free` of the read buffer. The blocks of a new arena are all free again, and it goes with its page. -/
def freeReadBuf (c : Caller) : ReadBuf → Prog Exec Unit
  | .block => pure ()
  | .pages arena cnt => do
      let s ← Prog.get
      record (bitsFrom (s.poolIdx arena) cnt)
      onSpace (freePages c.pml4 arena cnt)

/-- `sys_read` of `count` bytes, which `copy` puts where they belong; `none` stands for `-1`. What is stored in the
    buffer itself is not looked at again: `free_pages` leaves the frames of its pages marked. -/
def readFile (c : Caller) (f : ElfFile) (count : Nat) (copy : Nat → Prog Exec Unit) : Prog Exec (Option Nat) := do
  let s ← Prog.get
  match f.readBytes count s.fd_pos with
  | none => do
      setPos (ElfFile.afterRead none s.fd_pos)
      pure none
  | some n => do
      let read_buf ← mallocReadBuf c (readRequest f.i_size count s.fd_pos)
      match read_buf with
      | none => do
          record [.refused]
          setPos (ElfFile.afterRead none s.fd_pos)
          pure none
      | some b => do
          copy n
          freeReadBuf c b
          setPos (ElfFile.afterRead (some n) s.fd_pos)
          pure (some n)

/-! ### The segments -/

/-- The number of pages that `segment_load` goes over, in `uint32_t`. -/
def occupyPages (filesz vaddr : Nat) : Nat :=
  let size_in_first_page := 4096 - (vaddr &&& 0xfff)
  if filesz > size_in_first_page then
    let left_size := (filesz - size_in_first_page) % 2 ^ 32
    ((left_size + 4096 - 1) % 2 ^ 32 / 4096 + 1) % 2 ^ 32
  else 1

/-- What `segment_load` does for a page that is not mapped yet. For page 0 `get_pages` returns the address 0, which
    is `NULL`. -/
def mapUserPage (vaddr_page : Nat) : Prog Exec Bool := do
  let got ← onSpace (onMem (getPage vaddr_page))
  if got then do
    record [.map vaddr_page]
    if vaddr_page = 0 then pure false
    else do
      let s ← Prog.get
      let idx := s.poolIdx vaddr_page
      record [.setBit idx]
      onSpace (onPool (Prog.modify fun b => bitmapSet b idx true))
      pure true
  else pure false

/-- One turn of the loop of `segment_load`. -/
def segmentPage (vaddr_page : Nat) : Prog Exec Bool := do
  let stat ← onSpace (onMem (mapStat vaddr_page))
  if stat ≠ 4 then mapUserPage vaddr_page else pure true

/-- The loop of `segment_load`, with `n` pages left. -/
def segmentPages : Nat → Nat → Prog Exec Bool
  | 0, _ => pure true
  | n + 1, vaddr_page => do
      let ok ← segmentPage vaddr_page
      if ok then segmentPages n (u64 (vaddr_page + 4096)) else pure false

/-- Byte `b` at physical address `p`. -/
def setByte (m : Memory) (p : Nat) (b : Byte) : Memory :=
  let old := m.word (p / 4096) (p % 4096 / 8)
  let unit := 256 ^ (p % 8)
  { m with
    word := Paging.setWord m.word (p / 4096) (p % 4096 / 8)
      ((old / (256 * unit) * 256 + b.toNat) * unit + old % unit) }

/-- The `memcpy` of `n` bytes of `src` to `vaddr`, from byte `i` on. -/
def storeBytes (vaddr : Nat) (src : Buf) : Nat → Nat → Prog Memory Unit
  | 0, _ => pure ()
  | n + 1, i => do
      let m ← Prog.get
      let p ← Prog.ofOption (m.translate (u64 (vaddr + i)))
      Prog.modify fun m => setByte m p (src i)
      storeBytes vaddr src n (i + 1)

/-- Bytes of the heap's own are among the `n` bytes from `vaddr` on. -/
def Caller.hits (c : Caller) (vaddr n : Nat) : Bool := (List.range n).any fun i => c.own (u64 (vaddr + i))

/-- The `memcpy` of `inode_read` for a segment. Over links of the heap it makes a pointer of the file's bytes, which
    `sys_free` and `sys_malloc` follow from then on. The arena of a new buffer is out of its way: its pages were not
    mapped yet when the segment's were. -/
def copySegment (c : Caller) (f : ElfFile) (vaddr first pages n : Nat) : Prog Exec Unit := do
  let s ← Prog.get
  record [.store vaddr n first pages]
  if c.hits vaddr n then record [.overwrite] else pure ()
  onSpace (onMem (storeBytes vaddr (f.content.from s.fd_pos) n 0))

/-- `segment_load`. -/
def segmentLoad (c : Caller) (f : ElfFile) (offset filesz vaddr : Nat) : Prog Exec Bool := do
  let vaddr_first_page := vaddr &&& 0xfffffffffffff000
  let occupy_pages := occupyPages filesz vaddr
  let ok ← segmentPages occupy_pages vaddr_first_page
  if ok then do
    Prog.modify fun s => { s with fd_pos := f.lseek offset s.fd_pos }
    Prog.assert (vaddr ≠ 0)
    let _ ← readFile c f filesz (copySegment c f vaddr vaddr_first_page occupy_pages)
    pure true
  else pure false

/-- What `load` does with a program header. -/
def loadHeader (c : Caller) (f : ElfFile) (prog_header : Elf64Phdr) : Prog Exec Bool :=
  if prog_header.p_type = PT_LOAD then
    segmentLoad c f prog_header.p_offset prog_header.p_filesz prog_header.p_vaddr
  else pure true

/-- The loop of `load` over the program headers, with `n` of them left; `false` when it breaks off. -/
def loadSegments (c : Caller) (f : ElfFile) : Nat → Nat → Prog Exec Bool
  | 0, _ => pure true
  | n + 1, prog_header_offset => do
      Prog.modify fun s => { s with fd_pos := f.lseek prog_header_offset s.fd_pos }
      let s ← Prog.get
      let ret ← readFile c f 56 fun _ => pure ()
      if ret ≠ some 56 then pure false
      else do
        let ok ← loadHeader c f (f.phdrAt s.fd_pos)
        if ok then loadSegments c f n (u64 (prog_header_offset + 56)) else pure false

/-- The checks of `load` on the `Elf64_Ehdr` at the start of the file. -/
def ElfFile.headerOk (f : ElfFile) : Bool :=
  f.content.getLE 0 7 == 0x010102464c457f && f.content.getLE 16 2 == 2 && f.content.getLE 18 2 == 62
    && f.content.getLE 20 4 == 1 && f.content.getLE 54 2 == 56

/-- `e_phoff` and `e_phnum`. -/
def ElfFile.e_phoff (f : ElfFile) : Nat := f.content.getLE 32 8

def ElfFile.e_phnum (f : ElfFile) : Nat := f.content.getLE 56 2

/-- `load`, once the file is open; `none` stands for `-1`. -/
def loadFile (c : Caller) (f : ElfFile) : Prog Exec (Option Nat) := do
  setPos 0
  let ret ← readFile c f 64 fun _ => pure ()
  if ret ≠ some 64 ∨ f.headerOk = false then pure none
  else do
    let ok ← loadSegments c f f.e_phnum f.e_phoff
    pure (if ok then some (f.content.getLE 24 8) else none)

theorem bufferPagesFrom_space {s s' : Exec} {vaddr n i : Nat} {r : Bool}
    (h : bufferPagesFrom vaddr n i s = .ok (r, s')) : onMem (allocPagesFrom vaddr n i) s.space = .ok (r, s'.space) := by
  induction n generalizing i s with
  | zero =>
      obtain ⟨rfl, rfl⟩ := Prog.pure_eq_ok.1 h
      rfl
  | succ n ih =>
      obtain ⟨got, s1, hgot, h⟩ := Prog.bind_eq_ok.1 h
      obtain ⟨t, ht, rfl⟩ := Prog.zoom_eq_ok.1 hgot
      obtain ⟨mem, hmem, rfl⟩ := Prog.zoom_eq_ok.1 ht
      obtain ⟨paddr, m1, hp, hmem⟩ := Prog.bind_eq_ok.1 hmem
      cases paddr with
      | none =>
          obtain ⟨rfl, rfl⟩ := Prog.pure_eq_ok.1 hmem
          obtain ⟨rfl, rfl⟩ := Prog.pure_eq_ok.1 h
          exact Prog.zoom_eq_ok.2 ⟨m1, Prog.bind_of_ok hp _, rfl⟩
      | some p =>
          obtain ⟨⟨⟩, m2, hmap, hmem⟩ := Prog.bind_eq_ok.1 hmem
          obtain ⟨rfl, rfl⟩ := Prog.pure_eq_ok.1 hmem
          simp only [if_true, record, Prog.run_modify_bind] at h
          obtain ⟨m3, hrest, hspace⟩ := Prog.zoom_eq_ok.1 (ih h)
          refine Prog.zoom_eq_ok.2 ⟨m3, ?_, hspace⟩
          exact (Prog.bind_of_ok hp _).trans ((Prog.bind_of_ok hmap _).trans hrest)

/-- `bufferPages` is `alloc_pages`, with a record of what it does. -/
theorem bufferPages_space {s s' : Exec} {cnt : Nat} {r : Option Nat} (h : bufferPages cnt s = .ok (r, s')) :
    PoolMemory.allocPages cnt s.space = .ok (r, s'.space) := by
  obtain ⟨s1, s2, hget, h⟩ := Prog.bind_eq_ok.1 h
  obtain ⟨rfl, rfl⟩ := Prog.get_eq_ok.1 hget
  rw [record, Prog.run_modify_bind] at h
  obtain ⟨vaddr, s3, hv, h⟩ := Prog.bind_eq_ok.1 h
  obtain ⟨t, ht, rfl⟩ := Prog.zoom_eq_ok.1 hv
  refine (Prog.bind_of_ok ht _).trans ?_
  cases vaddr with
  | none =>
      obtain ⟨rfl, rfl⟩ := Prog.pure_eq_ok.1 h
      rfl
  | some v =>
      simp only [record, Prog.run_modify_bind] at h
      obtain ⟨ok, s4, hpages, h⟩ := Prog.bind_eq_ok.1 h
      obtain ⟨rfl, rfl⟩ := Prog.pure_eq_ok.1 h
      exact Prog.bind_of_ok (bufferPagesFrom_space hpages) _

/-! ## The segments of a file -/

/-- A segment that `load` comes to: the pages its loop goes over and the bytes that are stored. -/
structure Segment where
  vaddr : Nat
  first : Nat
  pages : Nat
  stored : Nat

namespace ElfFile

variable (f : ElfFile)

/-- The segment of a program header, read at position `fd_pos`. -/
def segmentAt (h : Elf64Phdr) (fd_pos : Nat) : Segment where
  vaddr := h.p_vaddr
  first := h.p_vaddr &&& 0xfffffffffffff000
  pages := occupyPages h.p_filesz h.p_vaddr
  stored := (f.readBytes h.p_filesz (f.lseek h.p_offset fd_pos)).getD 0

/-- The segments of `n` program headers from `prog_header_offset` on, up to one that cannot be read. The position
    after a segment depends on what `sys_read` returned for it. -/
def segmentsFrom : List (Option Nat) → Nat → Nat → Nat → List Segment
  | _, 0, _, _ => []
  | rets, n + 1, prog_header_offset, fd_pos =>
      let pos := f.lseek prog_header_offset fd_pos
      if f.readBytes 56 pos ≠ some 56 then []
      else
        let h := f.phdrAt pos
        let next := afterRead (some 56) pos
        if h.p_type = PT_LOAD then
          f.segmentAt h next :: segmentsFrom rets.tail n (u64 (prog_header_offset + 56))
            (afterRead (rets.headD none) (f.lseek h.p_offset next))
        else segmentsFrom rets n (u64 (prog_header_offset + 56)) next

/-- The segments of the file, when `sys_read` returns `rets` for them. -/
def segments (rets : List (Option Nat)) : List Segment :=
  if f.readBytes 64 0 ≠ some 64 ∨ f.headerOk = false then []
  else f.segmentsFrom rets f.e_phnum f.e_phoff (afterRead (some 64) 0)

/-- With one program header it does not matter what is read for it. -/
theorem segments_one {f : ElfFile} (h : f.e_phnum = 1) (rets : List (Option Nat)) :
    f.segments rets = f.segments [] := by
  unfold segments
  rw [h]
  simp only [segmentsFrom]

end ElfFile

/-- The pages of the segment are pages of the user pool, and they take all the bytes that are stored. -/
structure Segment.Fits (g : Segment) : Prop where
  low : USER_START_ADDR ≤ g.first
  high : g.first + 4096 * g.pages ≤ USER_START_ADDR + POOL_LEN_MAX
  room : g.vaddr + g.stored ≤ g.first + 4096 * g.pages

instance (g : Segment) : Decidable g.Fits :=
  decidable_of_iff (USER_START_ADDR ≤ g.first ∧
      g.first + 4096 * g.pages ≤ USER_START_ADDR + POOL_LEN_MAX ∧
      g.vaddr + g.stored ≤ g.first + 4096 * g.pages)
    ⟨fun h => ⟨h.1, h.2.1, h.2.2⟩, fun h => ⟨h.low, h.high, h.room⟩⟩

/-- A run that `bitmap_alloc` may find for the pages of a read buffer is not only one that goes on behind the
    bitmap. -/
def LoadEvent.HasRoom : LoadEvent → Prop
  | .request pool_bitmap cnt => PoolMemory.FreeRun pool_bitmap cnt → pool_bitmap.FreeRun cnt
  | _ => True

/-- The event stays inside the user pool, and bytes inside the pages that were gone over. -/
def LoadEvent.Inside : LoadEvent → Prop
  | .map page => USER_START_ADDR ≤ page ∧ page + 4096 ≤ USER_START_ADDR + POOL_LEN_MAX
  | .setBit idx => idx < 256 * 8
  | .request _ _ => True
  | .refused => True
  | .store vaddr n first pages => ∀ i < n,
      USER_START_ADDR ≤ vaddr + i ∧ vaddr + i < USER_START_ADDR + POOL_LEN_MAX ∧
        first ≤ vaddr + i ∧ vaddr + i < first + 4096 * pages
  | .overwrite => False

/-- The pages of a run of the pool. -/
structure InRun (vaddr cnt idx : Nat) : Prop where
  start : vaddr = idx * 4096 + USER_START_ADDR
  fits : idx + cnt ≤ 256 * 8

/-- The buffer is a block, or lies in pages of the pool. -/
def ReadBuf.InPool : ReadBuf → Prop
  | .block => True
  | .pages arena cnt => ∃ idx, InRun arena cnt idx

section InRun

variable {vaddr cnt idx : Nat}

theorem InRun.bits (h : InRun vaddr cnt idx) : ∀ e ∈ bitsFrom idx cnt, e.Inside := by
  intro e he
  obtain ⟨i, hi, rfl⟩ := List.mem_map.1 he
  have hlt := List.mem_range.1 hi
  have hfits := h.fits
  show idx + i < 256 * 8
  omega

/-- The bits and the pages of a run. -/
theorem InRun.inside {e : LoadEvent} (h : InRun vaddr cnt idx)
    (he : e ∈ bitsFrom idx cnt ∨ ∃ j < cnt, e = .map (vaddr + j * 4096)) : e.Inside := by
  obtain he | ⟨j, hj, rfl⟩ := he
  · exact h.bits e he
  · obtain ⟨rfl, hfits⟩ := h
    simp only [LoadEvent.Inside, USER_START_ADDR, POOL_LEN_MAX, V_POOL_BITS_MAX]
    omega

end InRun

namespace Exec

/-- The process has the pool that `virt_pool_init` gives it, and nothing has left the pool so far. -/
structure Contained (s : Exec) : Prop where
  start_eq : s.space.vpool.start = USER_START_ADDR
  size_eq : s.space.vpool.pool_bitmap.size = 256 * 8
  inside : ∀ e ∈ s.events, e.Inside

/-- Every search so far had room. -/
def HadRoom (s : Exec) : Prop := ∀ e ∈ s.events, e.HasRoom

/-- From `s` the process comes to `s'`, and nothing leaves the pool as long as the searches have room. -/
structure Leads (s s' : Exec) : Prop where
  grows : ∀ e ∈ s.events, e ∈ s'.events
  contained : s'.HadRoom → s.Contained → s'.Contained

theorem Leads.hadRoom {s s' : Exec} (h : s.Leads s') (hroom : s'.HadRoom) : s.HadRoom :=
  fun e he => hroom e (h.grows e he)

theorem Leads.refl (s : Exec) : s.Leads s := ⟨fun _ h => h, fun _ h => h⟩

theorem Leads.trans {s s1 s2 : Exec} (h : s.Leads s1) (h' : s1.Leads s2) : s.Leads s2 where
  grows := fun e he => h'.grows e (h.grows e he)
  contained := fun hroom hs => h'.contained hroom (h.contained (h'.hadRoom hroom) hs)

section Leads

variable {s s' : Exec} {l : List LoadEvent}

/-- The machine, the position and the bits of the pool do not matter. -/
theorem Leads.of_space (hevents : s'.events = s.events) (hstart : s'.space.vpool.start = s.space.vpool.start)
    (hsize : s'.space.vpool.pool_bitmap.size = s.space.vpool.pool_bitmap.size) : s.Leads s' where
  grows := fun _ he => hevents ▸ he
  contained := fun _ hs =>
    ⟨hstart.trans hs.start_eq, hsize.trans hs.size_eq, fun e he => hs.inside e (hevents ▸ he)⟩

/-- What is recorded is inside. -/
theorem Leads.record (h : HadRoom { s with events := s.events ++ l } → s.Contained → ∀ e ∈ l, e.Inside) :
    s.Leads { s with events := s.events ++ l } where
  grows := fun e he => List.mem_append_left _ he
  contained := fun hroom hs => ⟨hs.start_eq, hs.size_eq, fun e he => by
    obtain hold | hnew := List.mem_append.1 he
    · exact hs.inside e hold
    · exact h hroom hs e hnew⟩

/-- What works on the machine only leaves the pool, the position and the record alone. -/
theorem onMem_run {α : Type} {m : Prog Memory α} {a : α} (h : onSpace (onMem m) s = .ok (a, s')) :
    ∃ mem, m s.space.mem = .ok (a, mem) ∧ s' = { s with space := { s.space with mem := mem } } := by
  obtain ⟨t, ht, rfl⟩ := Prog.zoom_eq_ok.1 h
  obtain ⟨mem, hmem, rfl⟩ := Prog.zoom_eq_ok.1 ht
  exact ⟨mem, hmem, rfl⟩

theorem onMem_leads {α : Type} {m : Prog Memory α} {a : α} (h : onSpace (onMem m) s = .ok (a, s')) :
    s.Leads s' ∧ s'.fd_pos = s.fd_pos ∧ s'.space.vpool = s.space.vpool := by
  obtain ⟨mem, -, rfl⟩ := onMem_run h
  exact ⟨.of_space rfl rfl rfl, rfl, rfl⟩

end Leads

/-! ### The read buffer -/

section Buffer

variable {c : Caller} {f : ElfFile} {s s' : Exec} {vaddr cnt idx n i : Nat}

theorem Contained.poolIdx (hs : s.Contained) (h : InRun vaddr cnt idx) : s.poolIdx vaddr = idx := by
  obtain ⟨rfl, hfits⟩ := h
  unfold Exec.poolIdx
  rw [hs.start_eq]
  simp only [USER_START_ADDR] at *
  omega

/-- A search with room finds no run, or a run of the pool. -/
theorem bitmapAlloc_inside {b b' : Bitmap} {r : Option Nat} (hsize : b.size = 256 * 8) (hcnt : 0 < cnt)
    (hroom : PoolMemory.FreeRun b cnt → b.FreeRun cnt) (h : PoolMemory.bitmapAlloc cnt b = .ok (r, b')) :
    b'.size = 256 * 8 ∧ ∀ k, r = some k → k + cnt ≤ 256 * 8 := by
  obtain ⟨hnone, -⟩ | ⟨k, hk, hclear, -⟩ := PoolMemory.bitmapAlloc_cases b hcnt
  · rw [hnone] at h
    cases h
    exact ⟨hsize, nofun⟩
  · have hlen : b.bytes_len ≤ V_POOL_BITS_MAX := by
      simp only [Bitmap.size, V_POOL_BITS_MAX] at *
      omega
    obtain ⟨k', t, hold, -⟩ := bitmapAlloc_least hcnt (hroom ⟨k, hk, hclear⟩)
    rw [PoolMemory.bitmapAlloc_agrees hlen hold] at h
    cases h
    obtain ⟨hnone, -⟩ | ⟨k'', hk'', rfl, hin, -⟩ := bitmapAlloc_cases hold hcnt
    · cases hnone
    · cases hk''
      refine ⟨(bitmapSetRun_size _ _ _ _).trans hsize, fun k heq => ?_⟩
      cases heq
      omega

/-- The pages from number `i` on are mapped one after the other. -/
theorem bufferPagesFrom_events {r : Bool} (h : bufferPagesFrom vaddr n i s = .ok (r, s')) :
    s'.fd_pos = s.fd_pos ∧ s'.space.vpool = s.space.vpool ∧ ∃ l, s'.events = s.events ++ l ∧
      ∀ e ∈ l, ∃ j < i + n, e = .map (vaddr + j * 4096) := by
  induction n generalizing i s with
  | zero =>
      obtain ⟨-, rfl⟩ := Prog.pure_eq_ok.1 h
      exact ⟨rfl, rfl, [], (List.append_nil _).symm, nofun⟩
  | succ n ih =>
      obtain ⟨got, s1, hgot, h⟩ := Prog.bind_eq_ok.1 h
      obtain ⟨mem, -, rfl⟩ := onMem_run hgot
      split at h
      · rw [RecoverOS.record, Prog.run_modify_bind] at h
        obtain ⟨hpos, hpool, l, hl, hmem⟩ := ih h
        refine ⟨hpos, hpool, .map (vaddr + i * 4096) :: l, by rw [hl, List.append_assoc]; rfl, fun e he => ?_⟩
        obtain rfl | he := List.mem_cons.1 he
        · exact ⟨i, by omega, rfl⟩
        · obtain ⟨j, hj, rfl⟩ := hmem e he
          exact ⟨j, by omega, rfl⟩
      · obtain ⟨-, rfl⟩ := Prog.pure_eq_ok.1 h
        exact ⟨rfl, rfl, [], (List.append_nil _).symm, nofun⟩

/-- `alloc_pages` records its request, and then the bits and pages of the run that the search has found. -/
theorem bufferPages_events {r : Option Nat} (h : bufferPages cnt s = .ok (r, s')) :
    s'.fd_pos = s.fd_pos ∧ ∃ k b l, PoolMemory.bitmapAlloc cnt s.space.vpool.pool_bitmap = .ok (k, b) ∧
      s'.space.vpool = { s.space.vpool with pool_bitmap := b } ∧
      s'.events = s.events ++ .request s.space.vpool.pool_bitmap cnt :: l ∧
      match k with
      | none => r = none ∧ l = []
      | some k => (∀ v, r = some v → v = k * 4096 + s.space.vpool.start) ∧ ∀ e ∈ l,
          e ∈ bitsFrom (s.poolIdx (k * 4096 + s.space.vpool.start)) cnt ∨
            ∃ j < cnt, e = .map (k * 4096 + s.space.vpool.start + j * 4096) := by
  obtain ⟨s1, s2, hget, h⟩ := Prog.bind_eq_ok.1 h
  obtain ⟨rfl, rfl⟩ := Prog.get_eq_ok.1 hget
  rw [RecoverOS.record, Prog.run_modify_bind] at h
  obtain ⟨vaddr, s3, hv, h⟩ := Prog.bind_eq_ok.1 h
  obtain ⟨t, ht, rfl⟩ := Prog.zoom_eq_ok.1 hv
  obtain ⟨k, t1, hidx, ht⟩ := Prog.bind_eq_ok.1 ht
  obtain ⟨b, hb, rfl⟩ := Prog.zoom_eq_ok.1 hidx
  obtain ⟨t2, t3, hget, ht⟩ := Prog.bind_eq_ok.1 ht
  obtain ⟨rfl, rfl⟩ := Prog.get_eq_ok.1 hget
  obtain ⟨rfl, rfl⟩ := Prog.pure_eq_ok.1 ht
  cases k with
  | none =>
      obtain ⟨rfl, rfl⟩ := Prog.pure_eq_ok.1 h
      exact ⟨rfl, none, b, [], hb, rfl, rfl, rfl, rfl⟩
  | some k =>
      simp only [Option.map_some, RecoverOS.record, Prog.run_modify_bind] at h
      obtain ⟨ok, s4, hpages, h⟩ := Prog.bind_eq_ok.1 h
      obtain ⟨rfl, rfl⟩ := Prog.pure_eq_ok.1 h
      obtain ⟨hpos, hpool, l, hl, hmem⟩ := bufferPagesFrom_events hpages
      refine ⟨hpos, some k, b, bitsFrom (s.poolIdx (k * 4096 + s.space.vpool.start)) cnt ++ l, hb, hpool, ?_, ?_, ?_⟩
      · rw [hl]
        simp only [List.append_assoc, List.cons_append, List.nil_append]
      · intro v hv
        split at hv
        · exact (Option.some.inj hv).symm
        · cases hv
      · intro e he
        obtain he | he := List.mem_append.1 he
        · exact .inl he
        · obtain ⟨j, hj, rfl⟩ := hmem e he
          exact .inr ⟨j, by omega, rfl⟩

/-- `alloc_pages` stays inside the pool when its search has room. -/
theorem bufferPages_leads {r : Option Nat} (hcnt : 0 < cnt) (h : bufferPages cnt s = .ok (r, s')) :
    s.Leads s' ∧ s'.fd_pos = s.fd_pos ∧
      ∀ v, r = some v → s'.HadRoom → s.Contained → ∃ idx, InRun v cnt idx := by
  obtain ⟨hpos, k, b, l, hb, hpool, hevents, hcase⟩ := bufferPages_events h
  have hrequest : s'.HadRoom → PoolMemory.FreeRun s.space.vpool.pool_bitmap cnt →
      s.space.vpool.pool_bitmap.FreeRun cnt := fun hroom =>
    hroom (.request _ _) (hevents ▸ List.mem_append_right _ (List.mem_cons_self ..))
  have hrun : ∀ k', k = some k' → s'.HadRoom → s.Contained →
      InRun (k' * 4096 + s.space.vpool.start) cnt k' := fun k' hk hroom hs =>
    ⟨by rw [hs.start_eq], (bitmapAlloc_inside hs.size_eq hcnt (hrequest hroom) hb).2 k' hk⟩
  refine ⟨⟨fun e he => hevents ▸ List.mem_append_left _ he, fun hroom hs => ⟨?_, ?_, ?_⟩⟩, hpos, ?_⟩
  · rw [hpool]
    exact hs.start_eq
  · rw [hpool]
    exact (bitmapAlloc_inside hs.size_eq hcnt (hrequest hroom) hb).1
  · intro e he
    rw [hevents, List.mem_append, List.mem_cons] at he
    obtain hold | rfl | hnew := he
    · exact hs.inside e hold
    · trivial
    · cases k with
      | none =>
          rw [hcase.2] at hnew
          cases hnew
      | some k =>
          have hk := hrun k rfl hroom hs
          have hmem := hcase.2 e hnew
          rw [hs.poolIdx hk] at hmem
          exact hk.inside hmem
  · intro v hv hroom hs
    cases k with
    | none =>
        rw [hcase.1] at hv
        cases hv
    | some k =>
        rw [hcase.1 v hv]
        exact ⟨k, hrun k rfl hroom hs⟩

theorem mallocReadBuf_leads {r : Option ReadBuf} {size : Nat} (h : mallocReadBuf c size s = .ok (r, s')) :
    s.Leads s' ∧ s'.fd_pos = s.fd_pos ∧ ∀ b, r = some b → s'.HadRoom → s.Contained → b.InPool := by
  unfold mallocReadBuf at h
  split at h
  · obtain ⟨⟨⟩, s1, hreq, h⟩ := Prog.bind_eq_ok.1 h
    obtain ⟨hcnt, rfl⟩ := Prog.require_eq_ok.1 hreq
    obtain ⟨a, s2, hpages, h⟩ := Prog.bind_eq_ok.1 h
    obtain ⟨rfl, rfl⟩ := Prog.pure_eq_ok.1 h
    obtain ⟨hleads, hpos, hrun⟩ := bufferPages_leads hcnt hpages
    refine ⟨hleads, hpos, fun b hb hroom hs => ?_⟩
    obtain ⟨v, hv, rfl⟩ := Option.map_eq_some_iff.1 hb
    exact hrun v hv hroom hs
  · split at h
    · obtain ⟨rfl, rfl⟩ := Prog.pure_eq_ok.1 h
      refine ⟨.refl _, rfl, fun b hb _ _ => ?_⟩
      cases hb
      trivial
    · obtain ⟨a, s2, hpages, h⟩ := Prog.bind_eq_ok.1 h
      obtain ⟨hleads, hpos, hrun⟩ := bufferPages_leads Nat.one_pos hpages
      cases a with
      | none => cases h
      | some a =>
          obtain ⟨rfl, rfl⟩ := Prog.pure_eq_ok.1 h
          refine ⟨hleads, hpos, fun b hb hroom hs => ?_⟩
          cases hb
          exact hrun a rfl hroom hs

/-- `free_pages` changes the bits of the pages that it is given. -/
theorem freePages_pool {t t' : Space} {pml4 : Option Nat} (h : freePages pml4 vaddr cnt t = .ok ((), t')) :
    t'.vpool.start = t.vpool.start ∧ t'.vpool.pool_bitmap.size = t.vpool.pool_bitmap.size := by
  obtain ⟨⟨⟩, t1, hmem, hpool⟩ := Prog.bind_eq_ok.1 h
  obtain ⟨mem, -, rfl⟩ := Prog.zoom_eq_ok.1 hmem
  obtain ⟨t2, t3, hget, hpool⟩ := Prog.bind_eq_ok.1 hpool
  obtain ⟨rfl, rfl⟩ := Prog.get_eq_ok.1 hget
  obtain ⟨b, hbits, rfl⟩ := Prog.zoom_eq_ok.1 hpool
  exact ⟨rfl, (Heap.bitmapFreeFrom_others hbits).1⟩

theorem freeReadBuf_leads {b : ReadBuf} (h : freeReadBuf c b s = .ok ((), s')) :
    (∀ e ∈ s.events, e ∈ s'.events) ∧ s'.fd_pos = s.fd_pos ∧ (b.InPool → s.Leads s') := by
  cases b with
  | block =>
      obtain ⟨-, rfl⟩ := Prog.pure_eq_ok.1 h
      exact ⟨fun _ he => he, rfl, fun _ => .refl _⟩
  | pages arena cnt =>
      obtain ⟨s1, s2, hget, h⟩ := Prog.bind_eq_ok.1 h
      obtain ⟨rfl, rfl⟩ := Prog.get_eq_ok.1 hget
      rw [RecoverOS.record, Prog.run_modify_bind] at h
      obtain ⟨t, ht, rfl⟩ := Prog.zoom_eq_ok.1 h
      obtain ⟨hstart, hsize⟩ := freePages_pool ht
      refine ⟨fun e he => List.mem_append_left _ he, rfl, fun ⟨idx, hrun⟩ => ?_⟩
      refine Leads.trans (.record fun _ hs e he => ?_) (.of_space rfl hstart hsize)
      rw [hs.poolIdx hrun] at he
      exact hrun.bits e he

/-- `sys_read` leaves the pool no more than what it does with the bytes. -/
theorem readFile_leads {count : Nat} {copy : Nat → Prog Exec Unit} {r : Option Nat}
    (hcopy : ∀ n t t', f.readBytes count s.fd_pos = some n → t.fd_pos = s.fd_pos → copy n t = .ok ((), t') →
      t.Leads t' ∧ t'.fd_pos = t.fd_pos)
    (h : readFile c f count copy s = .ok (r, s')) : s.Leads s' ∧ s'.fd_pos = ElfFile.afterRead r s.fd_pos ∧
      ∀ n, r = some n → f.readBytes count s.fd_pos = some n := by
  obtain ⟨s1, s2, hget, h⟩ := Prog.bind_eq_ok.1 h
  obtain ⟨rfl, rfl⟩ := Prog.get_eq_ok.1 hget
  cases hread : f.readBytes count s.fd_pos with
  | none =>
      rw [hread] at h
      obtain ⟨rfl, rfl⟩ := Prog.pure_eq_ok.1 h
      exact ⟨.of_space rfl rfl rfl, rfl, nofun⟩
  | some n =>
      rw [hread] at h
      obtain ⟨read_buf, s3, hmalloc, h⟩ := Prog.bind_eq_ok.1 h
      obtain ⟨hleads, hpos, hbuf⟩ := mallocReadBuf_leads hmalloc
      cases read_buf with
      | none =>
          obtain ⟨rfl, rfl⟩ := Prog.pure_eq_ok.1 h
          have hrefused : s3.Leads { s3 with events := s3.events ++ [.refused] } := .record fun _ _ e he => by
            rw [List.mem_singleton.1 he]
            trivial
          exact ⟨(hleads.trans hrefused).trans (.of_space rfl rfl rfl), rfl, nofun⟩
      | some b =>
          obtain ⟨⟨⟩, s4, hrun, h⟩ := Prog.bind_eq_ok.1 h
          obtain ⟨⟨⟩, s5, hfree, h⟩ := Prog.bind_eq_ok.1 h
          obtain ⟨rfl, rfl⟩ := Prog.pure_eq_ok.1 h
          obtain ⟨hcopied, hpos'⟩ := hcopy n s3 s4 hread hpos hrun
          obtain ⟨hgrows, -, hfreed⟩ := freeReadBuf_leads hfree
          have hcopies : s.Leads s4 := hleads.trans hcopied
          refine ⟨⟨fun e he => hgrows e (hcopies.grows e he), fun hroom hs => ?_⟩, rfl, fun n' hn => ?_⟩
          · have hroom4 : s4.HadRoom := fun e he => hroom e (hgrows e he)
            have hin : b.InPool := hbuf b rfl (hcopied.hadRoom hroom4) hs
            have hs' := (hfreed hin).contained hroom (hcopies.contained hroom4 hs)
            exact ⟨hs'.start_eq, hs'.size_eq, hs'.inside⟩
          · rw [← Option.some.inj hn]

end Buffer

/-! ### The segments -/

section Segments

variable {c : Caller} {f : ElfFile} {s s' : Exec} {r : Bool} {n vaddr_page : Nat} {rets : List (Option Nat)}

theorem mapUserPage_leads (hlow : USER_START_ADDR ≤ vaddr_page)
    (hhigh : vaddr_page + 4096 ≤ USER_START_ADDR + POOL_LEN_MAX)
    (h : mapUserPage vaddr_page s = .ok (r, s')) : s.Leads s' ∧ s'.fd_pos = s.fd_pos := by
  obtain ⟨got, s1, hgot, h⟩ := Prog.bind_eq_ok.1 h
  obtain ⟨hmem, hpos, -⟩ := onMem_leads hgot
  split at h
  · have hne : vaddr_page ≠ 0 := fun heq => by rw [heq] at hlow; cases hlow
    rw [RecoverOS.record, Prog.run_modify_bind, if_neg hne] at h
    obtain ⟨s2, s3, hget, h⟩ := Prog.bind_eq_ok.1 h
    obtain ⟨rfl, rfl⟩ := Prog.get_eq_ok.1 hget
    simp only [RecoverOS.record, Prog.run_modify_bind] at h
    obtain ⟨⟨⟩, s4, hset, h⟩ := Prog.bind_eq_ok.1 h
    obtain ⟨rfl, rfl⟩ := Prog.pure_eq_ok.1 h
    obtain ⟨t, ht, rfl⟩ := Prog.zoom_eq_ok.1 hset
    obtain ⟨b, hb, rfl⟩ := Prog.zoom_eq_ok.1 ht
    cases hb
    refine ⟨hmem.trans (Leads.trans (.record fun _ _ e he => ?_) (Leads.trans (.record fun _ hs e he => ?_)
      (.of_space rfl rfl (bitmapSet_size _ _ _)))), hpos⟩
    · rw [List.mem_singleton.1 he]
      exact ⟨hlow, hhigh⟩
    · rw [List.mem_singleton.1 he]
      have hstart : s1.space.vpool.start = USER_START_ADDR := hs.start_eq
      simp only [LoadEvent.Inside, Exec.poolIdx, hstart]
      simp only [USER_START_ADDR, POOL_LEN_MAX, V_POOL_BITS_MAX] at *
      omega
  · obtain ⟨-, rfl⟩ := Prog.pure_eq_ok.1 h
    exact ⟨hmem, hpos⟩

theorem segmentPage_leads (hlow : USER_START_ADDR ≤ vaddr_page)
    (hhigh : vaddr_page + 4096 ≤ USER_START_ADDR + POOL_LEN_MAX)
    (h : segmentPage vaddr_page s = .ok (r, s')) : s.Leads s' ∧ s'.fd_pos = s.fd_pos := by
  obtain ⟨stat, s1, hstat, h⟩ := Prog.bind_eq_ok.1 h
  obtain ⟨hmem, hpos, -⟩ := onMem_leads hstat
  split at h
  · obtain ⟨hpage, hpos'⟩ := mapUserPage_leads hlow hhigh h
    exact ⟨hmem.trans hpage, hpos'.trans hpos⟩
  · obtain ⟨-, rfl⟩ := Prog.pure_eq_ok.1 h
    exact ⟨hmem, hpos⟩

/-- The loop of `segment_load` stays in the pool when its pages do. -/
theorem segmentPages_leads (hlow : USER_START_ADDR ≤ vaddr_page)
    (hhigh : vaddr_page + 4096 * n ≤ USER_START_ADDR + POOL_LEN_MAX)
    (h : segmentPages n vaddr_page s = .ok (r, s')) : s.Leads s' ∧ s'.fd_pos = s.fd_pos := by
  induction n generalizing s vaddr_page with
  | zero =>
      cases h
      exact ⟨.refl _, rfl⟩
  | succ n ih =>
      obtain ⟨ok, s1, hpage, h⟩ := Prog.bind_eq_ok.1 h
      rw [Nat.mul_succ, Nat.add_comm (4096 * n), ← Nat.add_assoc] at hhigh
      have hthis : vaddr_page + 4096 ≤ USER_START_ADDR + POOL_LEN_MAX :=
        Nat.le_trans (Nat.le_add_right _ _) hhigh
      obtain ⟨hleads, hpos⟩ := segmentPage_leads hlow hthis hpage
      split at h
      · have hnext : u64 (vaddr_page + 4096) = vaddr_page + 4096 := by
          simp only [USER_START_ADDR, POOL_LEN_MAX, V_POOL_BITS_MAX] at hthis
          exact u64_of_lt (by omega)
        rw [hnext] at h
        obtain ⟨hrest, hpos'⟩ := ih (Nat.le_trans hlow (Nat.le_add_right _ _)) hhigh h
        exact ⟨hleads.trans hrest, hpos'.trans hpos⟩
      · obtain ⟨-, rfl⟩ := Prog.pure_eq_ok.1 h
        exact ⟨hleads, hpos⟩

/-- A segment that fits is copied inside its pages. -/
theorem copySegment_leads {g : Segment} (hfit : g.Fits) (hfirst : g.first ≤ g.vaddr)
    (hspare : c.hits g.vaddr g.stored = false)
    (h : copySegment c f g.vaddr g.first g.pages g.stored s = .ok ((), s')) :
    s.Leads s' ∧ s'.fd_pos = s.fd_pos := by
  obtain ⟨s1, s2, hget, h⟩ := Prog.bind_eq_ok.1 h
  obtain ⟨rfl, rfl⟩ := Prog.get_eq_ok.1 hget
  rw [RecoverOS.record, Prog.run_modify_bind, hspare, if_neg Bool.false_ne_true] at h
  obtain ⟨hmem, hpos, -⟩ := onMem_leads h
  refine ⟨Leads.trans (.record fun _ _ e he => ?_) hmem, hpos⟩
  rw [List.mem_singleton.1 he]
  intro i hi
  have hlow := hfit.low
  have hhigh := hfit.high
  have hroom := hfit.room
  omega

theorem readSegment_leads {g : Segment} {filesz : Nat} {ret : Option Nat} (hfit : g.Fits) (hfirst : g.first ≤ g.vaddr)
    (hspare : c.hits g.vaddr g.stored = false)
    (hstored : ∀ n, f.readBytes filesz s.fd_pos = some n → g.stored = n)
    (h : readFile c f filesz (copySegment c f g.vaddr g.first g.pages) s = .ok (ret, s')) :
    s.Leads s' ∧ s'.fd_pos = ElfFile.afterRead ret s.fd_pos := by
  obtain ⟨hfile, hpos, -⟩ := readFile_leads (fun n t t' hn _ hcopy => by
    rw [← hstored n hn] at hcopy
    exact copySegment_leads hfit hfirst hspare hcopy) h
  exact ⟨hfile, hpos⟩

theorem segmentLoad_leads {p : Elf64Phdr} (hfit : (f.segmentAt p s.fd_pos).Fits)
    (hspare : c.hits (f.segmentAt p s.fd_pos).vaddr (f.segmentAt p s.fd_pos).stored = false)
    (h : segmentLoad c f p.p_offset p.p_filesz p.p_vaddr s = .ok (r, s')) : s.Leads s' ∧
      (r = true → ∃ ret, s'.fd_pos = ElfFile.afterRead ret (f.lseek p.p_offset s.fd_pos)) := by
  obtain ⟨ok, s1, hpages, h⟩ := Prog.bind_eq_ok.1 h
  obtain ⟨hleads, hpos⟩ := segmentPages_leads hfit.low hfit.high hpages
  split at h
  · rw [Prog.run_modify_bind] at h
    obtain ⟨⟨⟩, s2, hassert, h⟩ := Prog.bind_eq_ok.1 h
    obtain ⟨-, rfl⟩ := Prog.assert_eq_ok.1 hassert
    obtain ⟨ret, s3, hread, h⟩ := Prog.bind_eq_ok.1 h
    obtain ⟨rfl, rfl⟩ := Prog.pure_eq_ok.1 h
    obtain ⟨hfile, hpos'⟩ := readSegment_leads hfit Nat.and_le_left hspare (fun n hn => by
      show (f.readBytes p.p_filesz (f.lseek p.p_offset s.fd_pos)).getD 0 = n
      rw [← hpos, hn, Option.getD_some]) hread
    have hseek : s1.Leads { s1 with fd_pos := f.lseek p.p_offset s1.fd_pos } := .of_space rfl rfl rfl
    refine ⟨(hleads.trans hseek).trans hfile, fun _ => ⟨ret, ?_⟩⟩
    rw [hpos', hpos]
  · obtain ⟨rfl, rfl⟩ := Prog.pure_eq_ok.1 h
    exact ⟨hleads, fun hfalse => absurd hfalse Bool.false_ne_true⟩

theorem readHeader_leads {count : Nat} {ret : Option Nat} (h : readFile c f count (fun _ => pure ()) s = .ok (ret, s')) :
    s.Leads s' ∧ s'.fd_pos = ElfFile.afterRead ret s.fd_pos ∧
      ∀ n, ret = some n → f.readBytes count s.fd_pos = some n :=
  readFile_leads (fun _ _ _ _ _ hcopy => by
    obtain ⟨-, rfl⟩ := Prog.pure_eq_ok.1 hcopy
    exact ⟨.refl _, rfl⟩) h

theorem loadSegments_leads {off : Nat}
    (hfit : ∀ rets, ∀ g ∈ f.segmentsFrom rets n off s.fd_pos, g.Fits ∧ c.hits g.vaddr g.stored = false)
    (h : loadSegments c f n off s = .ok (r, s')) : s.Leads s' := by
  induction n generalizing s off with
  | zero =>
      cases h
      exact .refl _
  | succ n ih =>
      rw [loadSegments, Prog.run_modify_bind] at h
      obtain ⟨t, t', hget, h⟩ := Prog.bind_eq_ok.1 h
      obtain ⟨rfl, rfl⟩ := Prog.get_eq_ok.1 hget
      obtain ⟨ret, s1, hread, h⟩ := Prog.bind_eq_ok.1 h
      obtain ⟨hheader, hpos, hbytes⟩ := readHeader_leads hread
      have hseek : s.Leads { s with fd_pos := f.lseek off s.fd_pos } := .of_space rfl rfl rfl
      have hstart : s.Leads s1 := hseek.trans hheader
      by_cases hret : ret = some 56
      · subst hret
        have h56 : f.readBytes 56 (f.lseek off s.fd_pos) = some 56 := hbytes 56 rfl
        rw [if_neg (not_not.2 rfl)] at h
        obtain ⟨ok, s2, hseg, h⟩ := Prog.bind_eq_ok.1 h
        simp only [ElfFile.segmentsFrom, h56, ne_eq, not_true_eq_false, if_false] at hfit
        by_cases htype : (f.phdrAt (f.lseek off s.fd_pos)).p_type = PT_LOAD
        · rw [loadHeader, if_pos htype] at hseg
          simp only [htype, if_true] at hfit
          have hthis := hfit [] _ (List.mem_cons_self ..)
          rw [show ElfFile.afterRead (some 56) (f.lseek off s.fd_pos) = s1.fd_pos from hpos.symm] at hthis hfit
          obtain ⟨hleads, hnext⟩ := segmentLoad_leads hthis.1 hthis.2 hseg
          split at h
          · next hok =>
              obtain ⟨ret, hpos'⟩ := hnext hok
              refine (hstart.trans hleads).trans (ih (fun rets g hg => ?_) h)
              rw [hpos'] at hg
              exact hfit (ret :: rets) g (List.mem_cons_of_mem _ hg)
          · obtain ⟨-, rfl⟩ := Prog.pure_eq_ok.1 h
            exact hstart.trans hleads
        · rw [loadHeader, if_neg htype] at hseg
          simp only [htype, if_false] at hfit
          obtain ⟨rfl, rfl⟩ := Prog.pure_eq_ok.1 hseg
          rw [if_pos rfl] at h
          rw [show ElfFile.afterRead (some 56) (f.lseek off s.fd_pos) = s1.fd_pos from hpos.symm] at hfit
          exact hstart.trans (ih hfit h)
      · rw [if_pos hret] at h
        obtain ⟨-, rfl⟩ := Prog.pure_eq_ok.1 h
        exact hstart

end Segments

end Exec

/-- An executable of 120 bytes with one segment, whose one byte goes to `p_vaddr`. -/
def oneSegment (p_vaddr : Nat) : ElfFile where
  content := fun a =>
    if a < 7 then leBytes 0x010102464c457f a
    else if a = 16 then 2
    else if a = 18 then 62
    else if a = 20 then 1
    else if a = 32 then 64
    else if a = 54 then 56
    else if a = 56 then 1
    else if a = 64 then 1
    else if 80 ≤ a ∧ a < 88 then leBytes p_vaddr (a - 80)
    else if a = 96 then 1
    else 0
  i_size := 120

/-- A process that has not called `sys_malloc`: every read buffer takes a page. -/
def newCaller : Caller where
  pml4 := some 0xffff800000100000
  hasFree := fun _ => false
  own := fun _ => false
  block := fun _ => false

/-- A process before `load`, with its `pml4` mapped in the kernel half, and with tables for the first and for the
    last two megabytes of its pool, where nothing is mapped. -/
def beforeLoad : Exec where
  space := {
    mem := {
      word := fun t j =>
        if t = 0x104 then if j = 0 then 0x105007 else if j = 256 then 0x109007
          else if j = 511 then 0x104007 else 0
        else if t = 0x105 ∧ j = 0 then 0x106007
        else if t = 0x106 ∧ j = 0 then 0x107007
        else if t = 0x106 ∧ j = 4 then 0x108007
        else if t = 0x109 ∧ j = 0 then 0x10a007
        else if t = 0x10a ∧ j = 0 then 0x10b007
        else if t = 0x10b ∧ j = 256 then 0x104007
        else 0
      cr3 := 0x104
      phy_pool := {
        start := 0x104000
        pool_bitmap := { bytes_len := 32735, bits := fun a => if a = 0 then 0xff else 0 } } }
    vpool := { start := 0x1000, pool_bitmap := { bytes_len := 256, bits := Buf.zero } } }
  fd_pos := 0
  events := []

/-- The bits of the pool that `load` writes, and the pages it asks for with the length of the bitmap then, when it
    succeeds. -/
def loaded (f : ElfFile) : Option (List Nat × List (Nat × Nat)) :=
  match loadFile newCaller f beforeLoad with
  | .ok (some _, s) =>
      some (s.events.filterMap fun e => match e with
          | .setBit idx => some idx
          | _ => none,
        s.events.filterMap fun e => match e with
          | .request pool_bitmap cnt => some (pool_bitmap.bytes_len, cnt)
          | _ => none)
  | _ => none

theorem loaded_low : loaded (oneSegment 0x1000) = some ([0, 0, 0, 0, 0, 1, 1], [(256, 1), (256, 1), (256, 1)]) := by
  decide +kernel

theorem loaded_high : loaded (oneSegment 0x900000) =
    some ([0, 0, 0, 0, 2303, 0, 0], [(256, 1), (256, 1), (256, 1)]) := by
  decide +kernel

theorem exists_of_loaded {f : ElfFile} {bits : List Nat} {requests : List (Nat × Nat)}
    (h : loaded f = some (bits, requests)) : ∃ entry s, loadFile newCaller f beforeLoad = .ok (some entry, s) ∧
      (∀ idx ∈ bits, .setBit idx ∈ s.events) ∧
      ∀ b cnt, .request b cnt ∈ s.events → (b.bytes_len, cnt) ∈ requests := by
  unfold loaded at h
  split at h
  · next entry s hrun =>
      cases h
      refine ⟨entry, s, hrun, fun idx hidx => ?_, fun b cnt he => List.mem_filterMap.2 ⟨_, he, rfl⟩⟩
      obtain ⟨e, he, heq⟩ := List.mem_filterMap.1 hidx
      cases e <;> cases heq
      exact he
  · cases h

/-- A search for one page has room in any case. -/
theorem hasRoom_one {b : Bitmap} (hlen : b.bytes_len = V_POOL_BITS_MAX) : LoadEvent.HasRoom (.request b 1) := by
  rintro ⟨i, hi, hclear⟩
  refine ⟨i, hi, fun j hj => ?_⟩
  have hin : i + j < 8 * V_POOL_BITS_MAX := by
    simp only [Bitmap.size, hlen] at hi
    omega
  rw [← PoolMemory.bitmapRead_of_lt hin]
  exact hclear j hj

/-- Every search was one for a page. -/
theorem hasRoom_of_requests {events : List LoadEvent}
    (h : ∀ b cnt, .request b cnt ∈ events → b.bytes_len = V_POOL_BITS_MAX ∧ cnt = 1) : ∀ e ∈ events, e.HasRoom := by
  intro e he
  cases e with
  | request b cnt =>
      obtain ⟨hlen, rfl⟩ := h b cnt he
      exact hasRoom_one hlen
  | map page => trivial
  | setBit idx => trivial
  | refused => trivial
  | store vaddr n first pages => trivial
  | overwrite => trivial

end RecoverOS
