import RecoverOS.Base.Bytes
import RecoverOS.Base.Prog
import Mathlib.Data.List.TakeWhile
import Mathlib.Logic.Function.Basic

set_option autoImplicit false

/-! # Disks (`device/ide.c`)

Two channels with two drives each. The drive that a command goes to is the one that the DEV bit of its
channel's device register names, and the data port leads to that drive until the transfer is over. A call
holds the lock of its channel, and the interrupt of the drive ends its wait; neither is modelled. -/

namespace RecoverOS

namespace Ide

/-! ## The hardware -/

/-- A transfer: its direction, the drive, the byte it has come to and the number of bytes that are left. -/
structure Transfer where
  toDrive : Bool
  dev : Nat
  addr : Nat
  left : Nat

/-- A channel with its registers; `none` is a drive that is not there. -/
structure Controller where
  sect_cnt : Nat
  lba_l : Nat
  lba_m : Nat
  lba_h : Nat
  device : Nat
  drives : Nat → Option Buf
  transfer : Option Transfer

/-- `CMD_READ_SECTOR`. -/
abbrev CMD_READ_SECTOR : Nat := 0x20

/-- `CMD_WRITE_SECTOR`. -/
abbrev CMD_WRITE_SECTOR : Nat := 0x30

/-- `BIT_DEV_MBS`. -/
abbrev BIT_DEV_MBS : Nat := 0xa0

/-- `BIT_DEV_LBA`. -/
abbrev BIT_DEV_LBA : Nat := 0x40

/-- `BIT_DEV_DEV`. -/
abbrev BIT_DEV_DEV : Nat := 0x10

namespace Controller

/-- The drive that the device register names. -/
def selected (c : Controller) : Nat := c.device / BIT_DEV_DEV % 2

/-- The sector that the registers name, in LBA mode. -/
def lba (c : Controller) : Nat := c.lba_l + 2 ^ 8 * c.lba_m + 2 ^ 16 * c.lba_h + 2 ^ 24 * (c.device % 16)

/-- A command goes to the selected drive; a sector count of 0 stands for 256. -/
def command (c : Controller) (cmd : Nat) : Controller :=
  { c with transfer :=
      if (cmd = CMD_READ_SECTOR ∨ cmd = CMD_WRITE_SECTOR) ∧ (c.drives c.selected).isSome ∧
          c.device / BIT_DEV_LBA % 2 = 1 then
        some ⟨cmd == CMD_WRITE_SECTOR, c.selected, 512 * c.lba,
          512 * if c.sect_cnt = 0 then 256 else c.sect_cnt⟩
      else none }

/-- A byte is written to register `r`. -/
def out (c : Controller) (r value : Nat) : Controller :=
  match r with
  | 2 => { c with sect_cnt := value }
  | 3 => { c with lba_l := value }
  | 4 => { c with lba_m := value }
  | 5 => { c with lba_h := value }
  | 6 => { c with device := value }
  | 7 => c.command value
  | _ => c

/-- `n` bytes went through the data port. -/
def advance (c : Controller) (t : Transfer) (n : Nat) : Controller :=
  { c with transfer := if t.left = n then none else some { t with addr := t.addr + n, left := t.left - n } }

end Controller

/-- The controllers, by number. -/
abbrev Hardware := Nat → Controller

/-- The channel and the register that a port belongs to. -/
def portOf (port : Nat) : Option (Nat × Nat) :=
  if 0x1f0 ≤ port ∧ port < 0x1f8 then some (0, port - 0x1f0)
  else if 0x170 ≤ port ∧ port < 0x178 then some (1, port - 0x170)
  else none

/-- `outb`; the value is a `uint8_t`. -/
def outb (port value : Nat) : Prog Hardware Unit :=
  match portOf port with
  | none => pure ()
  | some (c, r) => Prog.modify fun s => Function.update s c ((s c).out r (value % 256))

/-- `insw` from a data port: the bytes of `cnt` words. -/
def insw (port cnt : Nat) : Prog Hardware Buf :=
  match portOf port with
  | some (c, 0) => do
      let s ← Prog.get
      let t ← Prog.ofOption (s c).transfer
      Prog.require (t.toDrive = false ∧ 2 * cnt ≤ t.left)
      let drive ← Prog.ofOption ((s c).drives t.dev)
      Prog.modify fun s => Function.update s c ((s c).advance t (2 * cnt))
      pure (drive.from t.addr)
  | _ => Prog.fault .undefined

/-- `outsw` to a data port. -/
def outsw (port : Nat) (buf : Buf) (cnt : Nat) : Prog Hardware Unit :=
  match portOf port with
  | some (c, 0) => do
      let s ← Prog.get
      let t ← Prog.ofOption (s c).transfer
      Prog.require (t.toDrive = true ∧ 2 * cnt ≤ t.left)
      let drive ← Prog.ofOption ((s c).drives t.dev)
      Prog.modify fun s => Function.update s c { (s c).advance t (2 * cnt) with
        drives := Function.update (s c).drives t.dev (some (drive.patch t.addr (2 * cnt) buf)) }
  | _ => Prog.fault .undefined

/-! ## The driver -/

/-- `struct ide_channel`. -/
structure IdeChannel where
  port_base : Nat
  deriving DecidableEq

/-- `struct disk`. -/
structure Disk where
  my_channel : IdeChannel
  dev_no : Nat
  deriving DecidableEq

/-- A `uint32_t`. -/
def u32 (n : Nat) : Nat := n % 2 ^ 32

/-- `select_disk`. -/
def selectDisk (hd : Disk) : Prog Hardware Unit :=
  outb (hd.my_channel.port_base + 6) (BIT_DEV_MBS ||| BIT_DEV_LBA ||| if hd.dev_no = 1 then BIT_DEV_DEV else 0)

/-- `select_sector`. -/
def selectSector (hd : Disk) (lba sec_cnt : Nat) : Prog Hardware Unit := do
  outb (hd.my_channel.port_base + 2) sec_cnt
  outb (hd.my_channel.port_base + 3) lba
  outb (hd.my_channel.port_base + 4) (lba >>> 8)
  outb (hd.my_channel.port_base + 5) (lba >>> 16)
  outb (hd.my_channel.port_base + 6)
    (BIT_DEV_MBS ||| BIT_DEV_LBA ||| (if hd.dev_no = 1 then BIT_DEV_DEV else 0) ||| lba >>> 24)

/-- `cmd_out`. -/
def cmdOut (channel : IdeChannel) (cmd : Nat) : Prog Hardware Unit := outb (channel.port_base + 7) cmd

/-- `busy_wait`: whether the drive is ready to transfer data. -/
def busyWait (hd : Disk) : Prog Hardware Bool :=
  Prog.gets fun s => match portOf (hd.my_channel.port_base + 7) with
    | some (c, _) => (s c).transfer.isSome
    | none => false

/-- The number of bytes of `sec_cnt` sectors, a `uint8_t` that is 0 for 256. -/
def sizeInByte (sec_cnt : Nat) : Nat := if sec_cnt = 0 then 256 * 512 else sec_cnt * 512

/-- `read_from_sector`, to offset `off` of `buf`. -/
def readFromSector (hd : Disk) (buf : Buf) (off sec_cnt : Nat) : Prog Hardware Buf := do
  let data ← insw (hd.my_channel.port_base + 0) (sizeInByte sec_cnt / 2)
  pure (buf.patch off (sizeInByte sec_cnt / 2 * 2) data)

/-- `write2sector`. -/
def write2sector (hd : Disk) (buf : Buf) (sec_cnt : Nat) : Prog Hardware Unit :=
  outsw (hd.my_channel.port_base + 0) buf (sizeInByte sec_cnt / 2)

/-- `secs_op` of the loops below. -/
def secsOp (secs_done sec_cnt : Nat) : Nat :=
  if u32 (secs_done + 256) ≤ sec_cnt then 256 else u32 (sec_cnt - secs_done)

/-- The loop of `ide_read`. -/
def readLoop (hd : Disk) (lba sec_cnt : Nat) : Nat → Nat → Buf → Prog Hardware Buf
  | 0, _, _ => Prog.fault .undefined
  | n + 1, secs_done, buf =>
      if secs_done < sec_cnt then do
        let secs_op := secsOp secs_done sec_cnt
        selectSector hd (u32 (lba + secs_done)) (secs_op % 256)
        cmdOut hd.my_channel CMD_READ_SECTOR
        let ready ← busyWait hd
        Prog.assert (ready = true)
        let buf ← readFromSector hd buf (u32 (secs_done * 512)) (secs_op % 256)
        readLoop hd lba sec_cnt n (u32 (secs_done + secs_op)) buf
      else pure buf

/-- `ide_read`: the contents of `buf` afterwards. -/
def ideRead (hd : Disk) (lba : Nat) (buf : Buf) (sec_cnt : Nat) : Prog Hardware Buf := do
  Prog.assert (0 < sec_cnt)
  selectDisk hd
  readLoop hd lba sec_cnt (sec_cnt + 1) 0 buf

/-- The loop of `ide_write`. -/
def writeLoop (hd : Disk) (lba sec_cnt : Nat) (buf : Buf) : Nat → Nat → Prog Hardware Unit
  | 0, _ => Prog.fault .undefined
  | n + 1, secs_done =>
      if secs_done < sec_cnt then do
        let secs_op := secsOp secs_done sec_cnt
        selectSector hd (u32 (lba + secs_done)) (secs_op % 256)
        cmdOut hd.my_channel CMD_WRITE_SECTOR
        let ready ← busyWait hd
        Prog.assert (ready = true)
        write2sector hd (buf.from (u32 (secs_done * 512))) (secs_op % 256)
        writeLoop hd lba sec_cnt buf n (u32 (secs_done + secs_op))
      else pure ()

/-- `ide_write`. -/
def ideWrite (hd : Disk) (lba : Nat) (buf : Buf) (sec_cnt : Nat) : Prog Hardware Unit := do
  Prog.assert (0 < sec_cnt)
  selectDisk hd
  writeLoop hd lba sec_cnt buf (sec_cnt + 1) 0

/-- `port_base` of a channel. -/
def portBase (i : Nat) : Nat := if i = 0 then 0x1f0 else 0x170

/-- `channels_init`: what it stores in `channels[i].devices[j]`, in the order of its loops. It leaves at the
    first number that is not below the number of drives. -/
def channelsInit (hd_cnt : Nat) : List ((Nat × Nat) × Disk) :=
  (((List.range ((hd_cnt + 1) / 2)).flatMap fun i => (List.range 2).map fun j =>
    ((i, j), (⟨⟨portBase i⟩, i * 2 + j⟩ : Disk))).takeWhile fun d => d.2.dev_no < hd_cnt)

/-! ## One command -/

section Command

variable {s : Hardware} {hd : Disk} {ctl : Controller} {c r v lba n : Nat} {drive : Buf}

theorem portOf_portBase (hc : c < 2) (hr : r < 8) : portOf (portBase c + r) = some (c, r) := by
  have h0 : portBase 0 = 0x1f0 := rfl
  have h1 : portBase 1 = 0x170 := rfl
  unfold portOf
  obtain rfl | rfl : c = 0 ∨ c = 1 := by omega
  · rw [h0, if_pos (by omega), Nat.add_sub_cancel_left]
  · rw [h1, if_neg (by omega), if_pos (by omega), Nat.add_sub_cancel_left]

theorem run_outb (hc : c < 2) (hr : r < 8) :
    outb (portBase c + r) v s = .ok ((), Function.update s c ((s c).out r (v % 256))) := by
  unfold outb
  rw [portOf_portBase hc hr]
  rfl

/-- One register after another. -/
theorem run_outb_update (hc : c < 2) (hr : r < 8) : outb (portBase c + r) v (Function.update s c ctl) =
    .ok ((), Function.update s c (ctl.out r (v % 256))) := by
  rw [run_outb hc hr, Function.update_self, Function.update_idem]

/-- The DEV bit that the driver writes for a disk. -/
def Disk.dev (hd : Disk) : Nat := if hd.dev_no = 1 then 1 else 0

theorem Disk.dev_lt (hd : Disk) : hd.dev < 2 := by
  unfold Disk.dev
  split <;> decide

/-- The disk is on channel `c`. -/
structure Disk.On (hd : Disk) (c : Nat) : Prop where
  port : hd.my_channel.port_base = portBase c
  channel : c < 2

/-- The value of the device register: DEV is bit 4, and the bits below it are the top bits of the LBA. -/
theorem device_value (hlba : lba < 2 ^ 28) : (BIT_DEV_MBS ||| BIT_DEV_LBA |||
    (if hd.dev_no = 1 then BIT_DEV_DEV else 0) ||| lba >>> 24) % 256 = 0xe0 + 16 * hd.dev + lba / 2 ^ 24 := by
  have hbits : ∀ dev < 2, ∀ top < 16, (BIT_DEV_MBS ||| BIT_DEV_LBA ||| 16 * dev ||| top) % 256 =
      0xe0 + 16 * dev + top := by decide
  have htop : lba >>> 24 < 16 := by
    rw [Nat.shiftRight_eq_div_pow]
    omega
  rw [← Nat.shiftRight_eq_div_pow]
  unfold Disk.dev
  split
  · exact hbits 1 (by decide) _ htop
  · exact hbits 0 (by decide) _ htop

/-- The registers once `n` sectors from `lba` on were selected on drive `dev`. -/
def Controller.addressed (ctl : Controller) (dev lba n : Nat) : Controller :=
  { ctl with
    sect_cnt := n % 256
    lba_l := lba % 256
    lba_m := lba / 2 ^ 8 % 256
    lba_h := lba / 2 ^ 16 % 256
    device := 0xe0 + 16 * dev + lba / 2 ^ 24 }

theorem run_selectSector (hon : hd.On c) (hlba : lba < 2 ^ 28) : selectSector hd lba (n % 256) s =
    .ok ((), Function.update s c ((s c).addressed hd.dev lba n)) := by
  have hc := hon.channel
  unfold selectSector
  rw [hon.port, Prog.bind_of_ok (run_outb hc (by decide)),
    Prog.bind_of_ok (run_outb_update hc (by decide)), Prog.bind_of_ok (run_outb_update hc (by decide)),
    Prog.bind_of_ok (run_outb_update hc (by decide)), run_outb_update hc (by decide), device_value hlba,
    Nat.shiftRight_eq_div_pow, Nat.shiftRight_eq_div_pow, Nat.mod_mod]
  rfl

/-- `select_disk` changes a register. -/
theorem run_selectDisk (hon : hd.On c) : ∃ device, selectDisk hd s =
    .ok ((), Function.update s c { s c with device := device }) := by
  unfold selectDisk
  rw [hon.port, run_outb hon.channel (by decide)]
  exact ⟨_, rfl⟩

/-- The controller once a transfer was started. -/
def Controller.started (ctl : Controller) (toDrive : Bool) (dev lba n : Nat) : Controller :=
  { ctl.addressed dev lba n with transfer := some ⟨toDrive, dev, 512 * lba, 512 * n⟩ }

/-- A command goes to the drive that the DEV bit stands for, and to the sector that was selected. -/
theorem command_addressed {dev cmd : Nat} (hdev : dev < 2) (hlba : lba < 2 ^ 28) (hn : 1 ≤ n) (hn' : n ≤ 256)
    (hdrive : ctl.drives dev = some drive) (hcmd : cmd = CMD_READ_SECTOR ∨ cmd = CMD_WRITE_SECTOR) :
    (ctl.addressed dev lba n).command cmd = ctl.started (cmd == CMD_WRITE_SECTOR) dev lba n := by
  have hsel : (ctl.addressed dev lba n).selected = dev := by
    show (0xe0 + 16 * dev + lba / 2 ^ 24) / 16 % 2 = dev
    omega
  have hmode : (ctl.addressed dev lba n).device / BIT_DEV_LBA % 2 = 1 := by
    show (0xe0 + 16 * dev + lba / 2 ^ 24) / 64 % 2 = 1
    omega
  have hsector : (ctl.addressed dev lba n).lba = lba := by
    show lba % 256 + 2 ^ 8 * (lba / 2 ^ 8 % 256) + 2 ^ 16 * (lba / 2 ^ 16 % 256) +
      2 ^ 24 * ((0xe0 + 16 * dev + lba / 2 ^ 24) % 16) = lba
    omega
  have hcount : (if (ctl.addressed dev lba n).sect_cnt = 0 then 256 else (ctl.addressed dev lba n).sect_cnt) =
      n := by
    show (if n % 256 = 0 then 256 else n % 256) = n
    split <;> omega
  have hsome : ((ctl.addressed dev lba n).drives dev).isSome = true := by
    show (ctl.drives dev).isSome = true
    rw [hdrive]
    rfl
  unfold Controller.command
  rw [hsel, hsector, hcount, if_pos ⟨hcmd, hsome, hmode⟩]
  rfl

/-- The driver starts a transfer of `n` sectors with the drive, which is ready for it then. -/
theorem run_command (hon : hd.On c) (hlba : lba < 2 ^ 28) (hn : 1 ≤ n) (hn' : n ≤ 256)
    (hdrive : (s c).drives hd.dev = some drive) {cmd : Nat}
    (hcmd : cmd = CMD_READ_SECTOR ∨ cmd = CMD_WRITE_SECTOR) {α : Type} (k : Prog Hardware α) :
    (do
      selectSector hd lba (n % 256)
      cmdOut hd.my_channel cmd
      let ready ← busyWait hd
      Prog.assert (ready = true)
      k : Prog Hardware α) s =
      k (Function.update s c ((s c).started (cmd == CMD_WRITE_SECTOR) hd.dev lba n)) := by
  have hc := hon.channel
  have hcmd256 : cmd % 256 = cmd := by
    obtain rfl | rfl := hcmd <;> rfl
  have hout : ((s c).addressed hd.dev lba n).out 7 (cmd % 256) =
      (s c).started (cmd == CMD_WRITE_SECTOR) hd.dev lba n := by
    rw [hcmd256]
    exact command_addressed hd.dev_lt hlba hn hn' hdrive hcmd
  have hready : busyWait hd (Function.update s c ((s c).started (cmd == CMD_WRITE_SECTOR) hd.dev lba n)) =
      .ok (true, Function.update s c ((s c).started (cmd == CMD_WRITE_SECTOR) hd.dev lba n)) := by
    unfold busyWait
    rw [hon.port, portOf_portBase hc (by decide)]
    simp [Controller.started]
  rw [Prog.bind_of_ok (run_selectSector hon hlba)]
  unfold cmdOut
  rw [hon.port, Prog.bind_of_ok (run_outb_update hc (by decide)), hout, Prog.bind_of_ok hready,
    Prog.run_assert_bind rfl]

theorem sizeInByte_eq (hn : 1 ≤ n) (hn' : n ≤ 256) : sizeInByte (n % 256) / 2 = 256 * n := by
  unfold sizeInByte
  split <;> omega

theorem run_insw {tr : Transfer} {cnt : Nat} (hc : c < 2) (htr : (s c).transfer = some tr)
    (hdir : tr.toDrive = false) (hleft : 2 * cnt ≤ tr.left) (hdrive : (s c).drives tr.dev = some drive) :
    insw (portBase c + 0) cnt s =
      .ok (drive.from tr.addr, Function.update s c ((s c).advance tr (2 * cnt))) := by
  unfold insw
  rw [portOf_portBase hc (by decide)]
  show (Prog.get >>= fun s => _ : Prog Hardware Buf) s = _
  rw [Prog.bind_of_ok (Prog.get_eq_ok.2 ⟨rfl, rfl⟩), Prog.bind_of_ok (Prog.ofOption_eq_ok.2 ⟨htr, rfl⟩),
    Prog.run_require_bind ⟨hdir, hleft⟩, Prog.bind_of_ok (Prog.ofOption_eq_ok.2 ⟨hdrive, rfl⟩)]
  rfl

theorem run_outsw {tr : Transfer} {cnt : Nat} (hc : c < 2) (htr : (s c).transfer = some tr)
    (hdir : tr.toDrive = true) (hleft : 2 * cnt ≤ tr.left) (hdrive : (s c).drives tr.dev = some drive)
    (buf : Buf) : outsw (portBase c + 0) buf cnt s =
      .ok ((), Function.update s c { (s c).advance tr (2 * cnt) with
        drives := Function.update (s c).drives tr.dev (some (drive.patch tr.addr (2 * cnt) buf)) }) := by
  unfold outsw
  rw [portOf_portBase hc (by decide)]
  show (Prog.get >>= fun s => _ : Prog Hardware Unit) s = _
  rw [Prog.bind_of_ok (Prog.get_eq_ok.2 ⟨rfl, rfl⟩), Prog.bind_of_ok (Prog.ofOption_eq_ok.2 ⟨htr, rfl⟩),
    Prog.run_require_bind ⟨hdir, hleft⟩, Prog.bind_of_ok (Prog.ofOption_eq_ok.2 ⟨hdrive, rfl⟩)]
  rfl

/-- The sectors that were read. -/
theorem run_readFromSector (hon : hd.On c) (hn : 1 ≤ n) (hn' : n ≤ 256)
    (hdrive : (s c).drives hd.dev = some drive) (buf : Buf) (off : Nat) :
    ∃ ctl, readFromSector hd buf off (n % 256) (Function.update s c ((s c).started false hd.dev lba n)) =
      .ok (buf.patch off (512 * n) (drive.from (512 * lba)), Function.update s c ctl) ∧
      ctl.drives = (s c).drives := by
  let u := Function.update s c ((s c).started false hd.dev lba n)
  have hu : u c = (s c).started false hd.dev lba n := Function.update_self ..
  have hread := @run_insw u c drive ⟨false, hd.dev, 512 * lba, 512 * n⟩ (256 * n) hon.channel
    (by rw [hu]; rfl) rfl (by show 2 * (256 * n) ≤ 512 * n; omega) (by rw [hu]; exact hdrive)
  rw [Function.update_idem] at hread
  refine ⟨(u c).advance ⟨false, hd.dev, 512 * lba, 512 * n⟩ (2 * (256 * n)), ?_, by rw [hu]; rfl⟩
  unfold readFromSector
  rw [hon.port, sizeInByte_eq hn hn', Prog.bind_of_ok hread, show 256 * n * 2 = 512 * n by omega]
  rfl

/-- The sectors that were written. -/
theorem run_write2sector (hon : hd.On c) (hn : 1 ≤ n) (hn' : n ≤ 256)
    (hdrive : (s c).drives hd.dev = some drive) (buf : Buf) :
    ∃ ctl, write2sector hd buf (n % 256) (Function.update s c ((s c).started true hd.dev lba n)) =
      .ok ((), Function.update s c ctl) ∧
      ctl.drives = Function.update (s c).drives hd.dev (some (drive.patch (512 * lba) (512 * n) buf)) := by
  let u := Function.update s c ((s c).started true hd.dev lba n)
  have hu : u c = (s c).started true hd.dev lba n := Function.update_self ..
  have hwrite := @run_outsw u c drive ⟨true, hd.dev, 512 * lba, 512 * n⟩ (256 * n) hon.channel
    (by rw [hu]; rfl) rfl (by show 2 * (256 * n) ≤ 512 * n; omega) (by rw [hu]; exact hdrive) buf
  rw [Function.update_idem] at hwrite
  unfold write2sector
  rw [hon.port, sizeInByte_eq hn hn']
  refine ⟨_, hwrite, ?_⟩
  show Function.update (u c).drives _ (some (drive.patch (512 * lba) (2 * (256 * n)) buf)) = _
  rw [hu, show 2 * (256 * n) = 512 * n by omega]
  rfl

end Command

/-! ## The loops -/

section Loops

variable {s : Hardware} {hd : Disk} {c lba sec_cnt done fuel : Nat} {drive buf : Buf}

/-- A chunk is 256 sectors, or what is left. -/
theorem secsOp_eq (hdone : done < sec_cnt) (hcnt : sec_cnt ≤ 2 ^ 28) :
    secsOp done sec_cnt = min 256 (sec_cnt - done) := by
  unfold secsOp u32
  split <;> omega

/-- The sectors before `done` were transferred: whole chunks, or all there are. -/
def Aligned (done sec_cnt : Nat) : Prop := done ≤ sec_cnt ∧ (done % 256 = 0 ∨ done = sec_cnt)

theorem Aligned.next (h : Aligned done sec_cnt) (hdone : done < sec_cnt) (hcnt : sec_cnt ≤ 2 ^ 28) :
    u32 (done + secsOp done sec_cnt) = done + min 256 (sec_cnt - done) ∧
      Aligned (done + min 256 (sec_cnt - done)) sec_cnt := by
  obtain ⟨hle, hal⟩ := h
  rw [secsOp_eq hdone hcnt]
  unfold u32 Aligned
  omega

/-- The place in the buffer of a byte of a chunk; the offset of a chunk is computed in 32 bits. -/
theorem chunk_offset {k : Nat} (hal : done % 256 = 0) (hk : k < 2 ^ 17) :
    u32 (done * 512) + k = u32 (512 * done + k) := by
  unfold u32
  omega

/-- Byte `a` of a drive after `sec_cnt` sectors from `lba` on were written, the first `done` of them by
    someone else. -/
def written (drive buf : Buf) (lba done sec_cnt : Nat) : Buf := fun a =>
  if 512 * (lba + done) ≤ a ∧ a < 512 * (lba + sec_cnt) then buf (u32 (a - 512 * lba)) else drive a

theorem written_chunk (hal : Aligned done sec_cnt) (hdone : done < sec_cnt) :
    written (drive.patch (512 * (lba + done)) (512 * min 256 (sec_cnt - done))
      (buf.from (u32 (done * 512)))) buf lba (done + min 256 (sec_cnt - done)) sec_cnt =
      written drive buf lba done sec_cnt := by
  obtain ⟨hle, hal⟩ := hal
  funext a
  unfold written
  by_cases hrest : 512 * (lba + (done + min 256 (sec_cnt - done))) ≤ a ∧ a < 512 * (lba + sec_cnt)
  · rw [if_pos hrest, if_pos (by omega)]
  · rw [if_neg hrest]
    by_cases hin : 512 * (lba + done) ≤ a ∧ a < 512 * (lba + done) + 512 * min 256 (sec_cnt - done)
    · rw [Buf.patch_inside _ _ hin.1 hin.2, if_pos (by omega), Buf.from_apply,
        chunk_offset (by omega) (by omega)]
      congr 2
      omega
    · rw [Buf.patch_outside _ _ (by omega), if_neg (by omega)]

/-- The loop of `ide_write` writes what is left to the drive that the DEV bit stands for. -/
theorem run_writeLoop (hon : hd.On c) (hsum : lba + sec_cnt ≤ 2 ^ 28) (hal : Aligned done sec_cnt)
    (hdrive : (s c).drives hd.dev = some drive) (hfuel : sec_cnt - done < fuel) :
    ∃ ctl, writeLoop hd lba sec_cnt buf fuel done s = .ok ((), Function.update s c ctl) ∧
      ctl.drives = Function.update (s c).drives hd.dev (some (written drive buf lba done sec_cnt)) := by
  induction fuel generalizing s done drive with
  | zero => exact absurd hfuel (Nat.not_lt_zero _)
  | succ fuel ih =>
      unfold writeLoop
      by_cases hdone : done < sec_cnt
      · obtain ⟨hnext, hal'⟩ := hal.next hdone (by omega)
        have hop := secsOp_eq hdone (by omega : sec_cnt ≤ 2 ^ 28)
        have hlba : u32 (lba + done) = lba + done := Nat.mod_eq_of_lt (by omega)
        rw [if_pos hdone, hnext, hlba, hop, run_command hon (by omega) (by omega) (by omega) hdrive (.inr rfl)]
        obtain ⟨ctl, hwrite, hdrives⟩ := @run_write2sector s hd c (lba + done) (min 256 (sec_cnt - done)) drive
          hon (by omega) (by omega) hdrive (buf.from (u32 (done * 512)))
        rw [beq_self_eq_true, Prog.bind_of_ok hwrite]
        have hself : (Function.update s c ctl c).drives hd.dev = some (drive.patch (512 * (lba + done))
            (512 * min 256 (sec_cnt - done)) (buf.from (u32 (done * 512)))) := by
          rw [Function.update_self, hdrives, Function.update_self]
        obtain ⟨ctl', hrun, hdrives'⟩ := ih hal' hself (by omega)
        refine ⟨ctl', by rw [hrun, Function.update_idem], ?_⟩
        rw [hdrives', Function.update_self, hdrives, Function.update_idem, written_chunk hal hdone]
      · rw [if_neg hdone]
        have hstop : written drive buf lba done sec_cnt = drive := by
          funext a
          unfold written
          rw [if_neg (by omega)]
        refine ⟨s c, by rw [Function.update_eq_self]; rfl, ?_⟩
        rw [hstop, ← hdrive, Function.update_eq_self]

/-- The loop of `ide_read` changes no drive, and what it stores are bytes of the drive that the DEV bit
    stands for. -/
theorem run_readLoop (hon : hd.On c) (hsum : lba + sec_cnt ≤ 2 ^ 28) (hal : Aligned done sec_cnt)
    (hdrive : (s c).drives hd.dev = some drive) (hfuel : sec_cnt - done < fuel) :
    ∃ out ctl, readLoop hd lba sec_cnt fuel done buf s = .ok (out, Function.update s c ctl) ∧
      ctl.drives = (s c).drives ∧
      (∀ a, out a = buf a ∨ ∃ b, 512 * lba ≤ b ∧ b < 512 * (lba + sec_cnt) ∧ out a = drive b) ∧
      (sec_cnt ≤ 2 ^ 23 → ∀ a, out a =
        if 512 * done ≤ a ∧ a < 512 * sec_cnt then drive (512 * lba + a) else buf a) := by
  induction fuel generalizing s done buf with
  | zero => exact absurd hfuel (Nat.not_lt_zero _)
  | succ fuel ih =>
      unfold readLoop
      by_cases hdone : done < sec_cnt
      · obtain ⟨hnext, hal'⟩ := hal.next hdone (by omega)
        have hop := secsOp_eq hdone (by omega : sec_cnt ≤ 2 ^ 28)
        have hlba : u32 (lba + done) = lba + done := Nat.mod_eq_of_lt (by omega)
        rw [if_pos hdone, hnext, hlba, hop, run_command hon (by omega) (by omega) (by omega) hdrive (.inl rfl)]
        obtain ⟨ctl, hread, hdrives⟩ := @run_readFromSector s hd c (lba + done) (min 256 (sec_cnt - done)) drive
          hon (by omega) (by omega) hdrive buf (u32 (done * 512))
        rw [show (CMD_READ_SECTOR == CMD_WRITE_SECTOR) = false by decide, Prog.bind_of_ok hread]
        have hself : (Function.update s c ctl c).drives hd.dev = some drive := by
          rw [Function.update_self, hdrives, hdrive]
        obtain ⟨out, ctl', hrun, hdrives', hown, hexact⟩ := ih hal' hself (by omega)
        refine ⟨out, ctl', by rw [hrun, Function.update_idem], ?_, fun a => ?_, fun hsmall a => ?_⟩
        · rw [hdrives', Function.update_self, hdrives]
        · obtain hkeep | hdata := hown a
          · by_cases hin : u32 (done * 512) ≤ a ∧ a < u32 (done * 512) + 512 * min 256 (sec_cnt - done)
            · rw [Buf.patch_inside _ _ hin.1 hin.2, Buf.from_apply] at hkeep
              exact .inr ⟨_, by omega, by omega, hkeep⟩
            · rw [Buf.patch_outside _ _ (by omega)] at hkeep
              exact .inl hkeep
          · exact .inr hdata
        · have hoff : u32 (done * 512) = 512 * done := by
            unfold u32
            omega
          rw [hexact hsmall, hoff]
          by_cases hrest : 512 * (done + min 256 (sec_cnt - done)) ≤ a ∧ a < 512 * sec_cnt
          · rw [if_pos hrest, if_pos (by omega)]
          · rw [if_neg hrest]
            by_cases hin : 512 * done ≤ a ∧ a < 512 * done + 512 * min 256 (sec_cnt - done)
            · rw [Buf.patch_inside _ _ hin.1 hin.2, if_pos (by omega), Buf.from_apply]
              congr 1
              omega
            · rw [Buf.patch_outside _ _ (by omega), if_neg (by omega)]
      · rw [if_neg hdone]
        refine ⟨buf, s c, by rw [Function.update_eq_self]; rfl, rfl, fun a => .inl rfl, fun _ a => ?_⟩
        rw [if_neg (by omega)]

theorem run_ideWrite (hon : hd.On c) (hcnt : 0 < sec_cnt) (hsum : lba + sec_cnt ≤ 2 ^ 28)
    (hdrive : (s c).drives hd.dev = some drive) :
    ∃ ctl, ideWrite hd lba buf sec_cnt s = .ok ((), Function.update s c ctl) ∧
      ctl.drives = Function.update (s c).drives hd.dev (some (written drive buf lba 0 sec_cnt)) := by
  obtain ⟨device, hselect⟩ := @run_selectDisk s hd c hon
  have hself : (Function.update s c { s c with device := device } c).drives hd.dev = some drive := by
    rw [Function.update_self]
    exact hdrive
  obtain ⟨ctl, hrun, hdrives⟩ := run_writeLoop hon hsum ⟨Nat.zero_le _, .inl rfl⟩ hself
    (Nat.lt_succ_self sec_cnt)
  refine ⟨ctl, ?_, ?_⟩
  · unfold ideWrite
    rw [Prog.run_assert_bind hcnt, Prog.bind_of_ok hselect, hrun, Function.update_idem]
  · rw [hdrives, Function.update_self]

theorem run_ideRead (hon : hd.On c) (hcnt : 0 < sec_cnt) (hsum : lba + sec_cnt ≤ 2 ^ 28)
    (hdrive : (s c).drives hd.dev = some drive) :
    ∃ out ctl, ideRead hd lba buf sec_cnt s = .ok (out, Function.update s c ctl) ∧
      ctl.drives = (s c).drives ∧
      (∀ a, out a = buf a ∨ ∃ b, 512 * lba ≤ b ∧ b < 512 * (lba + sec_cnt) ∧ out a = drive b) ∧
      (sec_cnt ≤ 2 ^ 23 → ∀ a, out a = if 512 * 0 ≤ a ∧ a < 512 * sec_cnt then drive (512 * lba + a) else buf a) := by
  obtain ⟨device, hselect⟩ := @run_selectDisk s hd c hon
  have hself : (Function.update s c { s c with device := device } c).drives hd.dev = some drive := by
    rw [Function.update_self]
    exact hdrive
  obtain ⟨out, ctl, hrun, hdrives, hdata⟩ := run_readLoop hon hsum ⟨Nat.zero_le _, .inl rfl⟩ hself
    (Nat.lt_succ_self sec_cnt)
  refine ⟨out, ctl, ?_, ?_, hdata⟩
  · unfold ideRead
    rw [Prog.run_assert_bind hcnt, Prog.bind_of_ok hselect, hrun, Function.update_idem]
  · rw [hdrives, Function.update_self]

end Loops

/-! ## Which drive a disk is -/

section Drives

variable {s : Hardware} {hd : Disk} {hd_cnt i j : Nat}

/-- The drives that were counted are there, two on a channel. -/
def Attached (hd_cnt : Nat) (s : Hardware) : Prop :=
  ∀ i j, j < 2 → i * 2 + j < hd_cnt → (s i).drives j ≠ none

/-- Writing to a disk changes the drive at position `j` of channel `i` only, and reading from it stores bytes
    of that drive only. -/
def OwnDriveOnly (hd_cnt i j : Nat) (hd : Disk) : Prop :=
  ∀ s, Attached hd_cnt s → ∀ lba sec_cnt buf, 0 < sec_cnt → lba + sec_cnt ≤ 2 ^ 28 →
    (∃ s', ideWrite hd lba buf sec_cnt s = .ok ((), s') ∧
      ∀ i' j', (i', j') ≠ (i, j) → (s' i').drives j' = (s i').drives j') ∧
    ∃ out s', ideRead hd lba buf sec_cnt s = .ok (out, s') ∧
      (∀ i' j', (s' i').drives j' = (s i').drives j') ∧
      ∀ a, out a = buf a ∨ ∃ drive b, (s i).drives j = some drive ∧ out a = drive b

/-- What `channels_init` stores at a position. -/
theorem mem_channelsInit (h : ((i, j), hd) ∈ channelsInit hd_cnt) :
    hd = ⟨⟨portBase i⟩, i * 2 + j⟩ ∧ j < 2 ∧ i * 2 + j < hd_cnt := by
  unfold channelsInit at h
  have hlt := List.mem_takeWhile_imp h
  obtain ⟨i', -, hmem⟩ := List.mem_flatMap.1 ((List.takeWhile_prefix _).subset h)
  obtain ⟨j', hj', heq⟩ := List.mem_map.1 hmem
  cases heq
  exact ⟨rfl, List.mem_range.1 hj', of_decide_eq_true hlt⟩

theorem own_drive (hon : hd.On i) (hdev : hd.dev = j) (hj : j < 2) (hlt : i * 2 + j < hd_cnt) :
    OwnDriveOnly hd_cnt i j hd := by
  subst hdev
  intro s hs lba sec_cnt buf hcnt hsum
  obtain ⟨drive, hdrive⟩ := Option.ne_none_iff_exists'.1 (hs i hd.dev hj hlt)
  constructor
  · obtain ⟨ctl, hrun, hdrives⟩ := @run_ideWrite s hd i lba sec_cnt drive buf hon hcnt hsum hdrive
    refine ⟨_, hrun, fun i' j' hne => ?_⟩
    by_cases hi : i' = i
    · subst hi
      have hj' : j' ≠ hd.dev := fun heq => hne (by rw [heq])
      rw [Function.update_self, hdrives, Function.update_of_ne hj']
    · rw [Function.update_of_ne hi]
  · obtain ⟨out, ctl, hrun, hdrives, hown, -⟩ := @run_ideRead s hd i lba sec_cnt drive buf hon hcnt hsum hdrive
    refine ⟨out, _, hrun, fun i' j' => ?_, fun a => ?_⟩
    · by_cases hi : i' = i
      · subst hi
        rw [Function.update_self, hdrives]
      · rw [Function.update_of_ne hi]
    · obtain hkeep | ⟨b, -, -, hb⟩ := hown a
      · exact .inl hkeep
      · exact .inr ⟨drive, b, hdrive, hb⟩

/-- Four drives full of zeros. -/
def zeroDrives : Hardware := fun _ => ⟨0, 0, 0, 0, 0, fun _ => some Buf.zero, none⟩

/-- A disk whose DEV bit is clear changes the master of its channel. -/
theorem not_own_drive (hon : hd.On i) (hdev : hd.dev = 0) (hj : j ≠ 0) : ¬ OwnDriveOnly hd_cnt i j hd := by
  intro h
  have hs : Attached hd_cnt zeroDrives := fun _ _ _ _ => Option.some_ne_none _
  obtain ⟨⟨s', hrun, hsame⟩, -⟩ := h zeroDrives hs 0 1 (fun _ => 1) Nat.one_pos (by decide)
  obtain ⟨ctl, hrun', hdrives⟩ := @run_ideWrite zeroDrives hd i 0 1 Buf.zero (fun _ => 1) hon Nat.one_pos
    (by decide) rfl
  rw [hrun'] at hrun
  cases hrun
  have hmaster := hsame i 0 (by simp [hj.symm])
  rw [Function.update_self, hdrives, hdev, Function.update_self] at hmaster
  have hbyte := congrFun (Option.some.inj hmaster) 0
  cases hbyte

/-- A disk keeps to its own drive unless it is the slave of the second channel, whose number is not 1. -/
theorem own_drive_iff (hcnt : hd_cnt ≤ 4) (h : ((i, j), hd) ∈ channelsInit hd_cnt) :
    OwnDriveOnly hd_cnt i j hd ↔ ¬ (i = 1 ∧ j = 1) := by
  obtain ⟨rfl, hj, hlt⟩ := mem_channelsInit h
  have hon : (⟨⟨portBase i⟩, i * 2 + j⟩ : Disk).On i := ⟨rfl, by omega⟩
  constructor
  · rintro hown ⟨rfl, rfl⟩
    exact not_own_drive hon rfl Nat.one_ne_zero hown
  · intro hne
    refine own_drive hon ?_ hj hlt
    show (if i * 2 + j = 1 then 1 else 0) = j
    split <;> omega

/-- The slave of the first channel. -/
theorem own_drive_sdb : OwnDriveOnly 2 0 1 ⟨⟨0x1f0⟩, 1⟩ ↔ ¬ (0 = 1 ∧ 1 = 1) :=
  own_drive_iff (by decide) (by decide)

/-- The slave of the second channel, with four drives. -/
theorem not_own_drive_sdd : ((1, 1), ⟨⟨0x170⟩, 3⟩) ∈ channelsInit 4 ∧ ¬ OwnDriveOnly 4 1 1 ⟨⟨0x170⟩, 3⟩ :=
  ⟨by decide, not_own_drive ⟨rfl, by decide⟩ rfl Nat.one_ne_zero⟩

end Drives

end Ide

end RecoverOS
