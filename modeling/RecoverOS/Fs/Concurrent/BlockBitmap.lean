import RecoverOS.Base.Ownership
import RecoverOS.Base.Run
import RecoverOS.Fs.Proofs.Mount

set_option autoImplicit false

/-! # Threads that allocate and free blocks

`block_bitmap_alloc` and `block_bitmap_free` called by any number of threads. The change of a bit and
every `ide_write` are one step each, and other threads may run between any two steps. -/

namespace RecoverOS

namespace BlockBitmap

/-! ## The code, cut where a thread may be switched out -/

/-- `block_bitmap_alloc` up to its `ide_write`. -/
def allocBit : Prog FS (Option Nat) := do
  let s ← Prog.get
  match bitmapAllocABit s.block_bitmap with
  | none => pure none
  | some (bit_idx, btmp) => do
      Prog.modify fun s => { s with block_bitmap := btmp }
      pure (some bit_idx)

/-- The `ide_write` of the bitmap sector that holds bit `bit_idx`. -/
def writeSector (bit_idx : Nat) : Prog FS Unit := do
  let s ← Prog.get
  writeBitmapSector s.sb.block_bitmap_lba s.block_bitmap bit_idx

/-- `block_bitmap_free` up to its first `ide_write`. -/
def clearBit (block_lba : Nat) : Prog FS Nat := do
  let s ← Prog.get
  let bit_idx := sub64 block_lba s.sb.data_start_lba
  Prog.require (bit_idx < s.block_bitmap.size)
  Prog.modify fun s => { s with block_bitmap := bitmapSet s.block_bitmap bit_idx false }
  pure bit_idx

/-- A call of `block_bitmap_alloc` that is not interrupted. -/
theorem blockBitmapAlloc_eq : blockBitmapAlloc = (do
    let r ← allocBit
    match r with
    | none => pure (-1)
    | some bit_idx => do
        writeSector bit_idx
        let s ← Prog.get
        pure (s.sb.data_start_lba + bit_idx : Int)) := by
  funext s
  unfold blockBitmapAlloc allocBit
  rw [Prog.bind_of_ok (a := s) (t := s) rfl]
  cases h : bitmapAllocABit s.block_bitmap with
  | none =>
      rw [Prog.bind_of_ok (a := none) (t := s) (by rw [Prog.bind_of_ok (a := s) (t := s) rfl, h]; rfl)]
  | some r =>
      obtain ⟨bit_idx, btmp⟩ := r
      have hrun : ((do
          let s ← Prog.get
          match bitmapAllocABit s.block_bitmap with
          | none => pure none
          | some (bit_idx, btmp) => do
              Prog.modify fun s => { s with block_bitmap := btmp }
              pure (some bit_idx)) : Prog FS (Option Nat)) s
          = .ok (some bit_idx, { s with block_bitmap := btmp }) := by
        rw [Prog.bind_of_ok (a := s) (t := s) rfl, h]
        rfl
      rw [Prog.bind_of_ok hrun]
      rfl

/-- A call of `block_bitmap_free` that is not interrupted. -/
theorem blockBitmapFree_eq (block_lba : Nat) : blockBitmapFree block_lba = (do
    let bit_idx ← clearBit block_lba
    ideWrite block_lba Buf.zero 1
    writeSector bit_idx) := by
  funext s
  unfold blockBitmapFree clearBit
  rw [Prog.bind_of_ok (a := s) (t := s) rfl]
  by_cases h : sub64 block_lba s.sb.data_start_lba < s.block_bitmap.size
  · have hrun : ((do
        let s ← Prog.get
        let bit_idx := sub64 block_lba s.sb.data_start_lba
        Prog.require (bit_idx < s.block_bitmap.size)
        Prog.modify fun s => { s with block_bitmap := bitmapSet s.block_bitmap bit_idx false }
        pure bit_idx) : Prog FS Nat) s = .ok (sub64 block_lba s.sb.data_start_lba,
          { s with block_bitmap :=
              bitmapSet s.block_bitmap (sub64 block_lba s.sb.data_start_lba) false }) := by
      rw [Prog.bind_of_ok (a := s) (t := s) rfl, Prog.run_require_bind h]
      rfl
    rw [Prog.bind_of_ok hrun, Prog.run_require_bind h]
    rfl
  · have hrun : ((do
        let s ← Prog.get
        let bit_idx := sub64 block_lba s.sb.data_start_lba
        Prog.require (bit_idx < s.block_bitmap.size)
        Prog.modify fun s => { s with block_bitmap := bitmapSet s.block_bitmap bit_idx false }
        pure bit_idx) : Prog FS Nat) s = .error .undefined := by
      rw [Prog.bind_of_ok (a := s) (t := s) rfl, Prog.run_require_bind_not h]
    rw [Prog.bind_of_error hrun, Prog.run_require_bind_not h]

/-! ## Threads -/

/-- Where a thread is. -/
inductive Pc where
  /-- In neither function. -/
  | idle
  /-- `block_bitmap_alloc`, before its `ide_write`. -/
  | alloc (bit_idx : Nat)
  /-- `block_bitmap_free`, before the `ide_write` of zeros. -/
  | zero (block_lba bit_idx : Nat)
  /-- `block_bitmap_free`, before the `ide_write` of the bitmap sector. -/
  | free (bit_idx : Nat)

/-- The bit whose sector a thread has yet to write. -/
def Pc.bit : Pc → Option Nat
  | idle => none
  | alloc bit_idx | zero _ bit_idx | free bit_idx => some bit_idx

variable {T : Type} [DecidableEq T]

/-- `owned t b`: thread `t` got block `b` from `block_bitmap_alloc` and has not given it back. Nothing
    in the code reads it. -/
structure State (T : Type) where
  fs : FS
  pc : T → Pc
  owned : T → Nat → Prop

/-- The steps of the threads. An owner may write to its block at any time. -/
inductive Label (T : Type) where
  | alloc (t : T) (r : Option Nat)
  | allocWrite (t : T)
  | free (t : T) (block_lba : Nat)
  | zero (t : T) (block_lba : Nat)
  | freeWrite (t : T)
  | write (t : T) (block_lba : Nat) (buf : Buf)

/-- The thread that takes a step. -/
def Label.thread : Label T → T
  | alloc t _ | allocWrite t | free t _ | zero t _ | freeWrite t | write t _ _ => t

inductive Step : State T → Label T → State T → Prop where
  | allocFail {s t fs} (hpc : s.pc t = .idle) (hrun : allocBit s.fs = .ok (none, fs)) :
      Step s (.alloc t none) { s with fs := fs }
  | alloc {s t fs bit_idx} (hpc : s.pc t = .idle) (hrun : allocBit s.fs = .ok (some bit_idx, fs)) :
      Step s (.alloc t (some (fs.sb.data_start_lba + bit_idx)))
        { fs := fs
          pc := Function.update s.pc t (.alloc bit_idx)
          owned := Function.update s.owned t
            fun b => s.owned t b ∨ b = fs.sb.data_start_lba + bit_idx }
  | allocWrite {s t fs bit_idx} (hpc : s.pc t = .alloc bit_idx)
      (hrun : writeSector bit_idx s.fs = .ok ((), fs)) :
      Step s (.allocWrite t) { s with fs := fs, pc := Function.update s.pc t .idle }
  | free {s t fs block_lba bit_idx} (hpc : s.pc t = .idle) (howned : s.owned t block_lba)
      (hrun : clearBit block_lba s.fs = .ok (bit_idx, fs)) :
      Step s (.free t block_lba)
        { fs := fs
          pc := Function.update s.pc t (.zero block_lba bit_idx)
          owned := Function.update s.owned t fun b => s.owned t b ∧ b ≠ block_lba }
  | zero {s t fs block_lba bit_idx} (hpc : s.pc t = .zero block_lba bit_idx)
      (hrun : ideWrite block_lba Buf.zero 1 s.fs = .ok ((), fs)) :
      Step s (.zero t block_lba)
        { s with fs := fs, pc := Function.update s.pc t (.free bit_idx) }
  | freeWrite {s t fs bit_idx} (hpc : s.pc t = .free bit_idx)
      (hrun : writeSector bit_idx s.fs = .ok ((), fs)) :
      Step s (.freeWrite t) { s with fs := fs, pc := Function.update s.pc t .idle }
  | write {s t fs block_lba buf} (hpc : s.pc t = .idle) (howned : s.owned t block_lba)
      (hrun : ideWrite block_lba buf 1 s.fs = .ok ((), fs)) :
      Step s (.write t block_lba buf) { s with fs := fs }

/-- The disk holds the bytes of sector `k` of the block bitmap. -/
def SectorOnDisk (s : FS) (k : Nat) : Prop :=
  ∀ a < 512, s.disk (512 * (s.sb.block_bitmap_lba + k) + a) = s.block_bitmap.bits (512 * k + a)

/-- The disk holds the block bitmap. -/
def BitmapOnDisk (s : FS) : Prop :=
  ∀ a < s.block_bitmap.bytes_len,
    s.disk (512 * s.sb.block_bitmap_lba + a) = s.block_bitmap.bits a

/-- No call is in progress. -/
def State.Quiet (s : State T) : Prop := ∀ t, s.pc t = .idle

/-- A mounted partition whose block bitmap is on the disk, and threads that own blocks of it, no block
    with two owners. -/
structure Initial (s : State T) : Prop where
  geometry : Geometry s.fs
  quiet : s.Quiet
  exclusive : Exclusive s.owned s.fs.used
  onDisk : BitmapOnDisk s.fs

/-! ## The invariant -/

/-- A sector of the bitmap differs from the disk only while a thread has yet to write it. -/
structure Inv (s : State T) : Prop where
  geometry : Geometry s.fs
  exclusive : Exclusive s.owned s.fs.used
  bounded : ∀ t bit, (s.pc t).bit = some bit → bit < s.fs.block_bitmap.size
  zeroed : ∀ t b bit, s.pc t = .zero b bit → b = s.fs.sb.data_start_lba + bit
  onDisk : ∀ k, (∀ t bit, (s.pc t).bit = some bit → bit / 4096 ≠ k) →
    k < s.fs.sb.block_bitmap_sects → SectorOnDisk s.fs k

section Proofs

variable {s s' : State T} {t : T}

theorem allocBit_eq_ok {r : Option Nat} {s s' : FS} (h : allocBit s = .ok (r, s')) :
    (r = none ∧ s' = s) ∨ ∃ k, r = some k ∧ k < s.block_bitmap.size ∧
      bitmapRead s.block_bitmap k = false ∧
      s' = { s with block_bitmap := bitmapSet s.block_bitmap k true } := by
  unfold allocBit at h
  rw [Prog.bind_of_ok (a := s) (t := s) rfl] at h
  cases ha : bitmapAllocABit s.block_bitmap with
  | none =>
      rw [ha] at h
      cases h
      exact Or.inl ⟨rfl, rfl⟩
  | some p =>
      obtain ⟨k, btmp⟩ := p
      obtain ⟨hk, hclear, rfl, -⟩ := bitmapAllocABit_eq_some ha
      rw [ha] at h
      cases h
      exact Or.inr ⟨k, rfl, hk, hclear, rfl⟩

theorem writeSector_eq_ok {bit : Nat} {s s' : FS} (h : writeSector bit s = .ok ((), s')) :
    s' = { s with
      disk := s.disk.patch (512 * (s.sb.block_bitmap_lba + bit / 4096)) 512
        (s.block_bitmap.bits.from (512 * (bit / 4096))) } := by
  unfold writeSector writeBitmapSector at h
  rw [Prog.bind_of_ok (a := s) (t := s) rfl] at h
  exact (ideWrite_eq_ok.1 h).2

theorem clearBit_eq_ok {b bit : Nat} {s s' : FS} (h : clearBit b s = .ok (bit, s')) :
    bit = sub64 b s.sb.data_start_lba ∧ bit < s.block_bitmap.size ∧
      s' = { s with block_bitmap := bitmapSet s.block_bitmap bit false } := by
  unfold clearBit at h
  rw [Prog.bind_of_ok (a := s) (t := s) rfl] at h
  by_cases hlt : sub64 b s.sb.data_start_lba < s.block_bitmap.size
  · rw [Prog.run_require_bind hlt] at h
    cases h
    exact ⟨rfl, hlt, rfl⟩
  · rw [Prog.run_require_bind_not hlt] at h
    cases h

/-- Changing one bit leaves every other sector of the bitmap as it was. -/
theorem SectorOnDisk.bitmapSet {s : FS} {k bit : Nat} (h : SectorOnDisk s k) (hk : bit / 4096 ≠ k)
    (v : Bool) : SectorOnDisk { s with block_bitmap := RecoverOS.bitmapSet s.block_bitmap bit v } k := by
  intro a ha
  rw [show (RecoverOS.bitmapSet s.block_bitmap bit v).bits (512 * k + a)
      = s.block_bitmap.bits (512 * k + a) from Function.update_of_ne (by omega) _ _]
  exact h a ha

/-- A sector of the bitmap that is written is on the disk; the others stay as they were. -/
theorem SectorOnDisk.write {s : FS} {k bit : Nat} (h : bit / 4096 ≠ k → SectorOnDisk s k) :
    SectorOnDisk { s with
      disk := s.disk.patch (512 * (s.sb.block_bitmap_lba + bit / 4096)) 512
        (s.block_bitmap.bits.from (512 * (bit / 4096))) } k := by
  intro a ha
  by_cases hk : bit / 4096 = k
  · subst hk
    exact Buf.from_patch_same _ _ _ _ ha
  · refine (Buf.patch_outside _ _ ?_).trans (h hk a ha)
    show 512 * (s.sb.block_bitmap_lba + k) + a < 512 * (s.sb.block_bitmap_lba + bit / 4096) ∨
      512 * (s.sb.block_bitmap_lba + bit / 4096) + 512 ≤ 512 * (s.sb.block_bitmap_lba + k) + a
    omega

/-- Writing a data block leaves the bitmap on the disk as it was. -/
theorem SectorOnDisk.data {s : FS} (g : Geometry s) {k b : Nat} (h : SectorOnDisk s k)
    (hk : k < s.sb.block_bitmap_sects) (hb : s.sb.data_start_lba ≤ b) (buf : Buf) :
    SectorOnDisk { s with disk := s.disk.patch (512 * b) (512 * 1) buf } k := by
  intro a ha
  refine (Buf.patch_outside _ _ ?_).trans (h a ha)
  have h1 := g.data_lba
  have h2 := g.table_lba
  have h3 := g.inode_lba
  show 512 * (s.sb.block_bitmap_lba + k) + a < 512 * b ∨ _
  omega

/-- The whole bitmap is on the disk exactly when each of its sectors is. -/
theorem bitmapOnDisk_iff {s : FS} (g : Geometry s) :
    BitmapOnDisk s ↔ ∀ k < s.sb.block_bitmap_sects, SectorOnDisk s k := by
  have hlen := g.block_len
  constructor
  · intro h k hk a ha
    have hbyte := h (512 * k + a) (by omega)
    rwa [show 512 * s.sb.block_bitmap_lba + (512 * k + a)
      = 512 * (s.sb.block_bitmap_lba + k) + a by omega] at hbyte
  · intro h a ha
    have hbyte := h (a / 512) (by omega) (a % 512) (by omega)
    rwa [show 512 * (s.sb.block_bitmap_lba + a / 512) + a % 512
      = 512 * s.sb.block_bitmap_lba + a by omega, show 512 * (a / 512) + a % 512 = a by omega] at hbyte

/-! ### Each step keeps the invariant -/

omit [DecidableEq T] in
theorem Inv.used_bit (h : Inv s) {b : Nat} (howned : s.owned t b) :
    sub64 b s.fs.sb.data_start_lba = b - s.fs.sb.data_start_lba := by
  have hused := h.exclusive.used_of_holds howned
  have hsmall := FS.used_lt h.geometry hused
  exact sub64_of_le hused.1 (by omega)

/-- A fresh block has no owner, so it may get one. -/
theorem Inv.alloc (h : Inv s) {k : Nat} (hpc : s.pc t = .idle) (hk : k < s.fs.block_bitmap.size)
    (hclear : bitmapRead s.fs.block_bitmap k = false) :
    Inv { fs := { s.fs with block_bitmap := bitmapSet s.fs.block_bitmap k true }
          pc := Function.update s.pc t (.alloc k)
          owned := Function.update s.owned t
            fun b => s.owned t b ∨ b = s.fs.sb.data_start_lba + k : State T } where
  geometry := h.geometry.congr rfl rfl rfl
  exclusive := by
    refine h.exclusive.extend (fun u b => u = t ∧ b = s.fs.sb.data_start_lba + k) ?_ ?_ ?_ ?_ ?_
    · intro u b hb
      by_cases hu : u = t
      · subst hu
        simpa using hb
      · simp only [Function.update_of_ne hu] at hb
        exact Or.inl hb
    · rintro u v b ⟨-, rfl⟩ hv
      exact FS.not_used_of_clear hclear (h.exclusive.used_of_holds hv)
    · rintro u v b ⟨rfl, -⟩ ⟨rfl, -⟩
      rfl
    · intro b hb
      exact (FS.used_takeBlock hk).2 (Or.inl hb)
    · rintro u b ⟨-, rfl⟩
      exact (FS.used_takeBlock hk).2 (Or.inr rfl)
  bounded u bit hbit := by
    by_cases hu : u = t
    · subst hu
      simp only [Function.update_self, Pc.bit, Option.some.injEq] at hbit
      rw [← hbit]
      exact hk
    · simp only [Function.update_of_ne hu] at hbit
      exact h.bounded u bit hbit
  zeroed u b bit hb := by
    by_cases hu : u = t
    · subst hu
      simp at hb
    · simp only [Function.update_of_ne hu] at hb
      exact h.zeroed u b bit hb
  onDisk i hi hi' := by
    -- the sector of the new bit is now waiting for this thread
    have hki : k / 4096 ≠ i := hi t k (by simp [Pc.bit])
    refine SectorOnDisk.bitmapSet (h.onDisk i (fun u bit hbit => ?_) hi') hki true
    by_cases hu : u = t
    · subst hu
      rw [hpc] at hbit
      cases hbit
    · exact hi u bit (by simpa [hu] using hbit)

/-- A block that is given back has no owner any more. -/
theorem Inv.free (h : Inv s) {b : Nat} (hpc : s.pc t = .idle) (howned : s.owned t b) :
    Inv { fs := { s.fs with
            block_bitmap := bitmapSet s.fs.block_bitmap (b - s.fs.sb.data_start_lba) false }
          pc := Function.update s.pc t (.zero b (b - s.fs.sb.data_start_lba))
          owned := Function.update s.owned t fun c => s.owned t c ∧ c ≠ b : State T } where
  geometry := h.geometry.congr rfl rfl rfl
  exclusive := by
    have hsub : ∀ u c, Function.update s.owned t (fun c => s.owned t c ∧ c ≠ b) u c →
        s.owned u c ∧ c ≠ b := by
      intro u c hc
      by_cases hu : u = t
      · subst hu
        simpa using hc
      · simp only [Function.update_of_ne hu] at hc
        refine ⟨hc, ?_⟩
        rintro rfl
        exact hu (h.exclusive.place_eq hc howned)
    refine h.exclusive.release (fun u c hc => (hsub u c hc).1) fun u c hc hused => ?_
    obtain ⟨h1, h2, h3⟩ := hused
    have hge := (h.exclusive.used_of_holds howned).1
    refine ⟨h1, h2, ?_⟩
    show bitmapRead (bitmapSet s.fs.block_bitmap _ false) (c - s.fs.sb.data_start_lba) = true
    rw [bitmapRead_bitmapSet_of_ne]
    · exact h3
    · intro heq
      exact (hsub u c hc).2 (by omega)
  bounded u bit hbit := by
    by_cases hu : u = t
    · subst hu
      simp only [Function.update_self, Pc.bit, Option.some.injEq] at hbit
      have hused := h.exclusive.used_of_holds howned
      have hlt := hused.2.1
      have hge := hused.1
      show bit < s.fs.block_bitmap.size
      omega
    · simp only [Function.update_of_ne hu] at hbit
      exact h.bounded u bit hbit
  zeroed u c bit hc := by
    by_cases hu : u = t
    · subst hu
      simp only [Function.update_self, Pc.zero.injEq] at hc
      have hge := (h.exclusive.used_of_holds howned).1
      show c = s.fs.sb.data_start_lba + bit
      omega
    · simp only [Function.update_of_ne hu] at hc
      exact h.zeroed u c bit hc
  onDisk i hi hi' := by
    have hki : (b - s.fs.sb.data_start_lba) / 4096 ≠ i := hi t _ (by simp [Pc.bit])
    refine SectorOnDisk.bitmapSet (h.onDisk i (fun u bit hbit => ?_) hi') hki false
    by_cases hu : u = t
    · subst hu
      rw [hpc] at hbit
      cases hbit
    · exact hi u bit (by simpa [hu] using hbit)

/-- The thread writes the sector it had yet to write. -/
theorem Inv.writeSector (h : Inv s) {bit : Nat} (hpc : (s.pc t).bit = some bit) :
    Inv { s with
      fs := { s.fs with
        disk := s.fs.disk.patch (512 * (s.fs.sb.block_bitmap_lba + bit / 4096)) 512
          (s.fs.block_bitmap.bits.from (512 * (bit / 4096))) }
      pc := Function.update s.pc t .idle } where
  geometry := h.geometry.congr rfl rfl rfl
  exclusive := h.exclusive
  bounded u bit' hbit := by
    by_cases hu : u = t
    · subst hu
      simp [Pc.bit] at hbit
    · simp only [Function.update_of_ne hu] at hbit
      exact h.bounded u bit' hbit
  zeroed u b bit' hb := by
    by_cases hu : u = t
    · subst hu
      simp at hb
    · simp only [Function.update_of_ne hu] at hb
      exact h.zeroed u b bit' hb
  onDisk i hi hi' := by
    refine SectorOnDisk.write fun hne => h.onDisk i (fun u bit' hbit => ?_) hi'
    by_cases hu : u = t
    · subst hu
      rw [hpc] at hbit
      cases hbit
      exact hne
    · exact hi u bit' (by simpa [hu] using hbit)

/-- Zeroing a block, or writing data to it, does not touch the bitmap. -/
theorem Inv.zero (h : Inv s) {b bit : Nat} (hpc : s.pc t = .zero b bit) :
    Inv { s with
      fs := { s.fs with disk := s.fs.disk.patch (512 * b) (512 * 1) Buf.zero }
      pc := Function.update s.pc t (.free bit) } where
  geometry := h.geometry.congr rfl rfl rfl
  exclusive := h.exclusive
  bounded u bit' hbit := by
    by_cases hu : u = t
    · subst hu
      simp only [Function.update_self, Pc.bit, Option.some.injEq] at hbit
      exact h.bounded u bit' (by simp [hpc, Pc.bit, hbit])
    · simp only [Function.update_of_ne hu] at hbit
      exact h.bounded u bit' hbit
  zeroed u c bit' hc := by
    by_cases hu : u = t
    · subst hu
      simp at hc
    · simp only [Function.update_of_ne hu] at hc
      exact h.zeroed u c bit' hc
  onDisk i hi hi' := by
    have hb := h.zeroed t b bit hpc
    refine SectorOnDisk.data h.geometry (h.onDisk i (fun u bit' hbit => ?_) hi') hi' (by omega) _
    by_cases hu : u = t
    · subst hu
      rw [hpc] at hbit
      exact hi u bit' (by simpa [Pc.bit] using hbit)
    · exact hi u bit' (by simpa [hu] using hbit)

omit [DecidableEq T] in
theorem Inv.write (h : Inv s) {b : Nat} (howned : s.owned t b) (buf : Buf) :
    Inv { s with fs := { s.fs with disk := s.fs.disk.patch (512 * b) (512 * 1) buf } } where
  geometry := h.geometry.congr rfl rfl rfl
  exclusive := h.exclusive
  bounded := h.bounded
  zeroed := h.zeroed
  onDisk i hi hi' :=
    SectorOnDisk.data h.geometry (h.onDisk i hi hi') hi' (h.exclusive.used_of_holds howned).1 buf

theorem Step.inv {l : Label T} (hinv : Inv s) (h : Step s l s') : Inv s' := by
  cases h with
  | allocFail hpc hrun =>
      rcases allocBit_eq_ok hrun with ⟨-, rfl⟩ | ⟨k, hk, -⟩
      · exact hinv
      · cases hk
  | alloc hpc hrun =>
      rcases allocBit_eq_ok hrun with ⟨hk, -⟩ | ⟨k, hk, hlt, hclear, rfl⟩
      · cases hk
      · cases hk
        exact hinv.alloc hpc hlt hclear
  | allocWrite hpc hrun =>
      rw [writeSector_eq_ok hrun]
      exact hinv.writeSector (by rw [hpc]; rfl)
  | free hpc howned hrun =>
      obtain ⟨rfl, -, rfl⟩ := clearBit_eq_ok hrun
      rw [hinv.used_bit howned]
      exact hinv.free hpc howned
  | zero hpc hrun =>
      rw [(ideWrite_eq_ok.1 hrun).2]
      exact hinv.zero hpc
  | freeWrite hpc hrun =>
      rw [writeSector_eq_ok hrun]
      exact hinv.writeSector (by rw [hpc]; rfl)
  | write hpc howned hrun =>
      rw [(ideWrite_eq_ok.1 hrun).2]
      exact hinv.write howned _

omit [DecidableEq T] in
theorem Initial.inv (h : Initial s) : Inv s where
  geometry := h.geometry
  exclusive := h.exclusive
  bounded t bit hbit := by
    rw [h.quiet t] at hbit
    cases hbit
  zeroed t b bit hb := by
    rw [h.quiet t] at hb
    cases hb
  onDisk k _ hk := (bitmapOnDisk_iff h.geometry).1 h.onDisk k hk

theorem Initial.run_inv {ls : List (Label T)} (h : Initial s) (hrun : Run Step s ls s') : Inv s' :=
  hrun.invariant (fun _ _ _ hinv hstep => hstep.inv hinv) h.inv

end Proofs

/-! ## Owners and the disk -/

/-- Whatever the threads do and in whatever order: no block has two owners, and when no call is in
    progress the disk holds the block bitmap. -/
theorem alloc_exclusive_onDisk {s s' : State T} {ls : List (Label T)} (h : Initial s)
    (hrun : Run Step s ls s') :
    (∀ t u b, s'.owned t b → s'.owned u b → t = u) ∧ (s'.Quiet → BitmapOnDisk s'.fs) := by
  have hinv := h.run_inv hrun
  refine ⟨fun t u b ht hu => hinv.exclusive.place_eq ht hu, fun hquiet => ?_⟩
  refine (bitmapOnDisk_iff hinv.geometry).2 fun k hk => hinv.onDisk k (fun t bit hbit => ?_) hk
  rw [hquiet t] at hbit
  cases hbit

/-- A partition of one bitmap sector whose first data block is taken. -/
def small : FS :=
  let btmp := bitmapSet ⟨512, Buf.zero⟩ 0 true
  { FS.boot (Buf.zero.patch (512 * 2) 512 btmp.bits) with
    sb := sbInit 1 0
    block_bitmap := btmp
    inode_bitmap := ⟨512, Buf.zero⟩ }

/-- Two threads, the first of which owns the block that is taken. -/
def twoThreads : State Bool where
  fs := small
  pc _ := .idle
  owned t b := t = false ∧ b = 1284

theorem twoThreads_initial : Initial twoThreads where
  geometry := ⟨rfl, rfl, rfl, rfl, rfl, by decide⟩
  quiet _ := rfl
  exclusive := by
    constructor
    case used_of_holds =>
      rintro t b ⟨-, rfl⟩
      decide
    case place_eq =>
      rintro t u b ⟨rfl, -⟩ ⟨rfl, -⟩
      rfl
  onDisk a ha := Buf.from_patch_same _ _ _ _ ha

theorem allocBit_first {fs : FS} (h0 : 0 < fs.block_bitmap.size)
    (hclear : bitmapRead fs.block_bitmap 0 = false) : allocBit fs =
      .ok (some 0, { fs with block_bitmap := bitmapSet fs.block_bitmap 0 true }) := by
  have halloc : bitmapAllocABit fs.block_bitmap = some (0, bitmapSet fs.block_bitmap 0 true) := by
    unfold bitmapAllocABit
    generalize fs.block_bitmap.size = n at h0
    cases n with
    | zero => cases h0
    | succ n => simp [bitmapAllocABitFrom, hclear]
  unfold allocBit
  rw [Prog.bind_of_ok (a := fs) (t := fs) rfl, halloc]
  rfl

theorem writeSector_ok (fs : FS) (bit : Nat) : writeSector bit fs = .ok ((), { fs with
    disk := fs.disk.patch (512 * (fs.sb.block_bitmap_lba + bit / 4096)) 512
      (fs.block_bitmap.bits.from (512 * (bit / 4096))) }) := by
  unfold writeSector writeBitmapSector
  rw [Prog.bind_of_ok (a := fs) (t := fs) rfl]
  exact run_ideWrite _ _ Nat.one_pos fs

theorem clearBit_ok {fs : FS} {b : Nat} (hge : fs.sb.data_start_lba ≤ b) (hlt : b < 2 ^ 64)
    (hbit : b - fs.sb.data_start_lba < fs.block_bitmap.size) : clearBit b fs =
      .ok (b - fs.sb.data_start_lba, { fs with
        block_bitmap := bitmapSet fs.block_bitmap (b - fs.sb.data_start_lba) false }) := by
  unfold clearBit
  rw [Prog.bind_of_ok (a := fs) (t := fs) rfl, sub64_of_le hge hlt, Prog.run_require_bind hbit]
  rfl

/-- The former owner is switched out before it writes the zeros. -/
theorem exists_zeroedLast (buf : Buf) : ∃ s', Run Step twoThreads
    [.free false 1284, .alloc true (some 1284), .allocWrite true, .write true 1284 buf,
      .zero false 1284, .freeWrite false] s' ∧ s'.Quiet ∧ s'.owned true 1284 := by
  refine Run.exists_cons_and (Step.free rfl ⟨rfl, rfl⟩
    (clearBit_ok (by decide) (by decide) (by decide))) ?_
  refine Run.exists_cons_and (Step.alloc rfl (allocBit_first (by decide) (by decide))) ?_
  refine Run.exists_cons_and (Step.allocWrite rfl (writeSector_ok _ _)) ?_
  refine Run.exists_cons_and (Step.write rfl (Or.inr rfl) (run_ideWrite _ _ Nat.one_pos _)) ?_
  refine Run.exists_cons_and (Step.zero rfl (run_ideWrite _ _ Nat.one_pos _)) ?_
  refine Run.exists_cons_and (Step.freeWrite rfl (writeSector_ok _ _)) ⟨_, .nil, fun t => ?_, Or.inr rfl⟩
  cases t <;> rfl

/-- The block changes hands, with both calls under way at the same time. -/
theorem alloc_exclusive_onDisk_handed : ∃ s', Run Step twoThreads
    [.free false 1284, .alloc true (some 1284), .allocWrite true, .write true 1284 fun _ => 1,
      .zero false 1284, .freeWrite false] s' ∧
    s'.owned true 1284 ∧ ¬ s'.owned false 1284 ∧ BitmapOnDisk s'.fs := by
  obtain ⟨s', hrun, hquiet, howned⟩ := exists_zeroedLast fun _ => 1
  obtain ⟨hone, hdisk⟩ := alloc_exclusive_onDisk twoThreads_initial hrun
  exact ⟨s', hrun, howned, fun h => Bool.false_ne_true (hone _ _ _ h howned), hdisk hquiet⟩

/-! ## A block that changes hands -/

/-- The steps of a run in which `f` frees block `b` and `a` gets `b` from `block_bitmap_alloc` and then
    writes to it, in any order. -/
structure Handover (ls : List (Label T)) (f a : T) (b : Nat) (buf : Buf) : Prop where
  distinct : f ≠ a
  both : ∀ l ∈ ls, l.thread = f ∨ l.thread = a
  former : ls.filter (fun l => l.thread = f) = [.free f b, .zero f b, .freeWrite f]
  next : ls.filter (fun l => l.thread = a) = [.alloc a (some b), .allocWrite a, .write a b buf]

/-- The zeros are written before the new owner's data. -/
def ZeroedFirst (ls : List (Label T)) (f a : T) (b : Nat) (buf : Buf) : Prop :=
  ∃ l1 l2, ls = l1 ++ .write a b buf :: l2 ∧ .zero f b ∈ l1

/-- What a step stores in sector `b`. -/
def Label.stores (b : Nat) : Label T → Option Buf
  | zero _ c => if c = b then some Buf.zero else none
  | write _ c buf => if c = b then some buf else none
  | _ => none

section Handover

variable {s s' : State T} {f a : T} {b : Nat} {buf : Buf} {ls l1 l2 : List (Label T)}

theorem Step.sb {l : Label T} (h : Step s l s') : s'.fs.sb = s.fs.sb := by
  cases h with
  | allocFail hpc hrun | alloc hpc hrun =>
      rcases allocBit_eq_ok hrun with ⟨-, rfl⟩ | ⟨_, -, -, -, rfl⟩
      · rfl
      · rfl
  | free hpc howned hrun =>
      obtain ⟨-, -, rfl⟩ := clearBit_eq_ok hrun
      rfl
  | allocWrite hpc hrun | freeWrite hpc hrun =>
      rw [writeSector_eq_ok hrun]
  | zero hpc hrun | write hpc howned hrun =>
      rw [(ideWrite_eq_ok.1 hrun).2]

omit [DecidableEq T] in
/-- A bitmap sector is no data block. -/
theorem Inv.data_of_writeSector {t : T} {bit : Nat} {fs : FS} (h : Inv s)
    (hpc : (s.pc t).bit = some bit) (hb : s.fs.sb.data_start_lba ≤ b)
    (hrun : BlockBitmap.writeSector bit s.fs = .ok ((), fs)) :
    ∀ k < 512, fs.disk (512 * b + k) = s.fs.disk (512 * b + k) := by
  intro k hk
  rw [writeSector_eq_ok hrun]
  refine Buf.patch_outside _ _ ?_
  have hlt := h.bounded t bit hpc
  have g := h.geometry
  have h0 := g.size_eq
  have h1 := g.data_lba
  have h2 := g.table_lba
  have h3 := g.inode_lba
  omega

theorem sector_ideWrite {fs fs' : FS} {c : Nat} (hrun : ideWrite c buf 1 fs = .ok ((), fs')) :
    ∀ k < 512, fs'.disk (512 * b + k) =
      (if c = b then some buf else none).elim (fs.disk (512 * b + k)) fun buf => buf k := by
  intro k hk
  rw [(ideWrite_eq_ok.1 hrun).2]
  by_cases hc : c = b
  · subst hc
    simpa using Buf.from_patch_same fs.disk (512 * c) (512 * 1) buf (k := k) (by omega)
  · rw [if_neg hc]
    exact Buf.patch_outside _ _ (by omega)

/-- Sector `b` holds what the step stores in it, or what it held. -/
theorem Step.sector {l : Label T} (hinv : Inv s) (hb : s.fs.sb.data_start_lba ≤ b)
    (h : Step s l s') : ∀ k < 512, s'.fs.disk (512 * b + k) =
      (l.stores b).elim (s.fs.disk (512 * b + k)) fun buf => buf k := by
  cases h with
  | allocFail hpc hrun | alloc hpc hrun =>
      intro k _
      rcases allocBit_eq_ok hrun with ⟨-, rfl⟩ | ⟨_, -, -, -, rfl⟩
      · rfl
      · rfl
  | free hpc howned hrun =>
      intro k _
      obtain ⟨-, -, rfl⟩ := clearBit_eq_ok hrun
      rfl
  | allocWrite hpc hrun | freeWrite hpc hrun =>
      exact hinv.data_of_writeSector (by rw [hpc]; rfl) hb hrun
  | zero hpc hrun => exact sector_ideWrite hrun
  | write hpc howned hrun => exact sector_ideWrite hrun

/-- Steps that store nothing in sector `b` leave it as it was. -/
theorem run_sector_same (hinv : Inv s) (hb : s.fs.sb.data_start_lba ≤ b) (hrun : Run Step s ls s')
    (hno : ∀ l ∈ ls, l.stores b = none) :
    ∀ k < 512, s'.fs.disk (512 * b + k) = s.fs.disk (512 * b + k) := by
  have hboth : Inv s' ∧ s.fs.sb = s'.fs.sb ∧
      ∀ k < 512, s'.fs.disk (512 * b + k) = s.fs.disk (512 * b + k) := by
    induction hrun with
    | nil => exact ⟨hinv, rfl, fun _ _ => rfl⟩
    | snoc _ hlast ih =>
        obtain ⟨hinv', hsb, hsame⟩ := ih fun l hl => hno l (by simp [hl])
        refine ⟨hlast.inv hinv', hsb.trans hlast.sb.symm, fun k hk => ?_⟩
        have hstep := hlast.sector hinv' (hsb ▸ hb) k hk
        rw [hno _ (by simp)] at hstep
        exact hstep.trans (hsame k hk)
  exact hboth.2.2

/-- Sector `b` holds what was stored in it last. -/
theorem run_sector_last {l : Label T} (hinit : Initial s) (hb : s.fs.sb.data_start_lba ≤ b)
    (hrun : Run Step s (l1 ++ l :: l2) s') (hl : l.stores b = some buf)
    (hno : ∀ l ∈ l2, l.stores b = none) :
    ∀ k < 512, s'.fs.disk (512 * b + k) = buf k := by
  obtain ⟨s1, hrun1, hrun'⟩ := hrun.of_append
  obtain ⟨s2, hstep, hrun2⟩ := hrun'.of_cons
  have hinv1 := hinit.run_inv hrun1
  have hsb : s.fs.sb = s1.fs.sb :=
    hrun1.invariant (I := fun t => s.fs.sb = t.fs.sb)
      (fun _ _ _ heq hstep => heq.trans hstep.sb.symm) rfl
  intro k hk
  have hsame := run_sector_same (hstep.inv hinv1) (by rw [hstep.sb, ← hsb]; exact hb) hrun2 hno k hk
  have hstored := hstep.sector hinv1 (hsb ▸ hb) k hk
  rw [hl] at hstored
  exact hsame.trans hstored

omit [DecidableEq T] in
/-- Of three steps only the third can come after the second. -/
theorem third_of_append {x y z l : Label T} (h : l1 ++ l2 = [x, y, z]) (hxy : x ≠ y) (hy : y ∈ l1)
    (hl : l ∈ l2) : l = z := by
  rcases l1 with - | ⟨x', - | ⟨y', l1⟩⟩
  · cases hy
  · simp only [List.cons_append, List.cons.injEq] at h
    rw [List.mem_singleton.1 hy] at hxy
    exact absurd h.1.symm hxy
  · simp only [List.cons_append, List.cons.injEq] at h
    have hmem : l ∈ l1 ++ l2 := List.mem_append_right _ hl
    rw [h.2.2] at hmem
    exact List.mem_singleton.1 hmem

omit [DecidableEq T] in
/-- Nothing comes after the third of three steps. -/
theorem nil_of_append {x y z : Label T} (h : l1 ++ l2 = [x, y, z]) (hxz : x ≠ z) (hyz : y ≠ z)
    (hz : z ∈ l1) : l2 = [] := by
  rcases l1 with - | ⟨x', - | ⟨y', - | ⟨z', l1⟩⟩⟩
  · cases hz
  · simp only [List.cons_append, List.cons.injEq] at h
    rw [List.mem_singleton.1 hz] at hxz
    exact absurd h.1.symm hxz
  · simp only [List.cons_append, List.cons.injEq] at h
    rcases List.mem_pair.1 hz with rfl | rfl
    · exact absurd h.1.symm hxz
    · exact absurd h.2.1.symm hyz
  · simp only [List.cons_append, List.cons.injEq] at h
    exact (List.append_eq_nil_iff.1 h.2.2.2).2

/-- Once the zeros and the new owner's data are written, nothing more is stored in the block. -/
theorem Handover.stores_none (h : Handover (l1 ++ l2) f a b buf) (hz : .zero f b ∈ l1)
    (hw : .write a b buf ∈ l1) : ∀ l ∈ l2, l.stores b = none := by
  intro l hl
  have hf := h.former
  have ha := h.next
  rw [List.filter_append] at hf ha
  rcases h.both l (by simp [hl]) with ht | ht
  · have hlast := third_of_append hf (by simp) (List.mem_filter.2 ⟨hz, by simp [Label.thread]⟩)
      (List.mem_filter.2 ⟨hl, by simp [ht]⟩)
    rw [hlast]
    rfl
  · have hmem : l ∈ l2.filter fun l => l.thread = a := List.mem_filter.2 ⟨hl, by simp [ht]⟩
    rw [nil_of_append ha (by simp) (by simp)
      (List.mem_filter.2 ⟨hw, by simp [Label.thread]⟩)] at hmem
    cases hmem

theorem Handover.mem (h : Handover ls f a b buf) : .zero f b ∈ ls ∧ .write a b buf ∈ ls := by
  have hz : .zero f b ∈ ls.filter fun l => l.thread = f := by simp [h.former]
  have hw : .write a b buf ∈ ls.filter fun l => l.thread = a := by simp [h.next]
  exact ⟨(List.mem_filter.1 hz).1, (List.mem_filter.1 hw).1⟩

/-- The block ends up with the new owner's data if the zeros were written before them. -/
theorem Handover.sector_of_zeroedFirst (h : Handover ls f a b buf) (hinit : Initial s)
    (hb : s.fs.sb.data_start_lba ≤ b) (hrun : Run Step s ls s') (hz : ZeroedFirst ls f a b buf) :
    ∀ k < 512, s'.fs.disk (512 * b + k) = buf k := by
  obtain ⟨l1, l2, rfl, hz⟩ := hz
  have h' : Handover ((l1 ++ [.write a b buf]) ++ l2) f a b buf := by simpa using h
  exact run_sector_last hinit hb hrun (by simp [Label.stores])
    (h'.stores_none (by simp [hz]) (by simp))

/-- It ends up with zeros if they were written after them. -/
theorem Handover.sector_of_not_zeroedFirst (h : Handover ls f a b buf) (hinit : Initial s)
    (hb : s.fs.sb.data_start_lba ≤ b) (hrun : Run Step s ls s')
    (hz : ¬ ZeroedFirst ls f a b buf) : ∀ k < 512, s'.fs.disk (512 * b + k) = 0 := by
  obtain ⟨hzero, hwrite⟩ := h.mem
  obtain ⟨l1, l2, rfl⟩ := List.append_of_mem hwrite
  have hz1 : .zero f b ∉ l1 := fun hmem => hz ⟨l1, l2, rfl, hmem⟩
  have hz2 : .zero f b ∈ l2 := by simpa [hz1] using hzero
  obtain ⟨m1, m2, rfl⟩ := List.append_of_mem hz2
  have h' : Handover ((l1 ++ .write a b buf :: m1 ++ [.zero f b]) ++ m2) f a b buf := by
    simpa using h
  have hrun' : Run Step s ((l1 ++ .write a b buf :: m1) ++ .zero f b :: m2) s' := by simpa using hrun
  have hstores : (Label.zero f b).stores b = some Buf.zero := by simp [Label.stores]
  exact run_sector_last hinit hb hrun' hstores (h'.stores_none (by simp) (by simp))

end Handover

/-- The former owner's zeros spare the new owner's data exactly when they are written first, unless the
    data are zeros too. -/
theorem handover_iff {s s' : State T} {f a : T} {b : Nat} {buf : Buf} {ls : List (Label T)}
    (hinit : Initial s) (howned : s.owned f b) (hrun : Run Step s ls s')
    (h : Handover ls f a b buf) :
    (∀ k < 512, s'.fs.disk (512 * b + k) = buf k) ↔
      ZeroedFirst ls f a b buf ∨ ∀ k < 512, buf k = 0 := by
  have hb := (hinit.exclusive.used_of_holds howned).1
  constructor
  · intro hdata
    by_cases hz : ZeroedFirst ls f a b buf
    · exact Or.inl hz
    · refine Or.inr fun k hk => ?_
      rw [← hdata k hk]
      exact h.sector_of_not_zeroedFirst hinit hb hrun hz k hk
  · rintro (hz | hbuf)
    · exact h.sector_of_zeroedFirst hinit hb hrun hz
    · intro k hk
      by_cases hz : ZeroedFirst ls f a b buf
      · exact h.sector_of_zeroedFirst hinit hb hrun hz k hk
      · rw [hbuf k hk]
        exact h.sector_of_not_zeroedFirst hinit hb hrun hz k hk

/-! ### Two orders of the same steps -/

/-- The former owner first. -/
theorem exists_zeroedFirst (buf : Buf) : ∃ s', Run Step twoThreads
    [.free false 1284, .zero false 1284, .freeWrite false, .alloc true (some 1284), .allocWrite true,
      .write true 1284 buf] s' := by
  refine Run.exists_cons (Step.free rfl ⟨rfl, rfl⟩
    (clearBit_ok (by decide) (by decide) (by decide))) ?_
  refine Run.exists_cons (Step.zero rfl (run_ideWrite _ _ Nat.one_pos _)) ?_
  refine Run.exists_cons (Step.freeWrite rfl (writeSector_ok _ _)) ?_
  refine Run.exists_cons (Step.alloc rfl (allocBit_first (by decide) (by decide))) ?_
  refine Run.exists_cons (Step.allocWrite rfl (writeSector_ok _ _)) ?_
  exact Run.exists_cons (Step.write rfl (Or.inr rfl) (run_ideWrite _ _ Nat.one_pos _)) ⟨_, .nil⟩

theorem handover_iff_zeroedFirst : ∃ s' : State Bool, ∀ k < 512,
    s'.fs.disk (512 * 1284 + k) = 1 := by
  obtain ⟨s', hrun⟩ := exists_zeroedFirst fun _ => 1
  refine ⟨s', (handover_iff (f := false) (a := true) twoThreads_initial ⟨rfl, rfl⟩ hrun ?_).2 ?_⟩
  · constructor
    case distinct => decide
    case both => simp [Label.thread]
    case former => simp [Label.thread]
    case next => simp [Label.thread]
  · exact Or.inl ⟨[.free false 1284, .zero false 1284, .freeWrite false, .alloc true (some 1284),
      .allocWrite true], [], rfl, by simp⟩

/-- Data that are not zeros are lost when the former owner is switched out in between. -/
theorem not_handover_zeroedLast : ∃ (s' : State Bool) (ls : List (Label Bool)),
    Initial twoThreads ∧ twoThreads.owned false 1284 ∧ Run Step twoThreads ls s' ∧
      Handover ls false true 1284 (fun _ => 1) ∧ s'.fs.disk (512 * 1284) ≠ 1 := by
  obtain ⟨s', hrun, -⟩ := exists_zeroedLast fun _ => 1
  have h : Handover (T := Bool) [.free false 1284, .alloc true (some 1284), .allocWrite true,
      .write true 1284 fun _ => 1, .zero false 1284, .freeWrite false] false true 1284
      (fun _ => 1) := by
    constructor
    case distinct => decide
    case both => simp [Label.thread]
    case former => simp [Label.thread]
    case next => simp [Label.thread]
  have hzero : ¬ ZeroedFirst (T := Bool) [.free false 1284, .alloc true (some 1284), .allocWrite true,
      .write true 1284 fun _ => 1, .zero false 1284, .freeWrite false] false true 1284
      (fun _ => 1) := by
    rintro ⟨l1, l2, heq, hz⟩
    obtain ⟨rfl, -⟩ := (List.append_cons_inj_of_notMem (by simp) (by simp)).1
      (show [.free false 1284, .alloc true (some 1284), .allocWrite true] ++
        Label.write true 1284 (fun _ => 1) :: [.zero false 1284, .freeWrite false] = _ from heq)
    simp at hz
  refine ⟨s', _, twoThreads_initial, ⟨rfl, rfl⟩, hrun, h, ?_⟩
  have hdisk := h.sector_of_not_zeroedFirst twoThreads_initial (by decide) hrun hzero 0 (by decide)
  rw [Nat.add_zero] at hdisk
  rw [hdisk]
  decide

end BlockBitmap

end RecoverOS
