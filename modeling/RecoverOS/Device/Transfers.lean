import RecoverOS.Device.Ide

set_option autoImplicit false

/-! # What a disk transfer covers (`device/ide.c`)

`ide_read` and `ide_write` once more, with a log of the commands: each with the transfer that the controller
took it for, the place in the buffer and the number of words that the driver moves. -/

namespace RecoverOS

namespace Ide

/-- A command: what the controller made of it, and the data that the driver moves for it. -/
structure Issued where
  transfer : Transfer
  off : Nat
  words : Nat

/-- The first sector of a command. -/
def Issued.first (i : Issued) : Nat := i.transfer.addr / 512

/-- The number of sectors of a command. -/
def Issued.sectors (i : Issued) : Nat := i.transfer.left / 512

/-- The place in the buffer of a sector of a command. -/
def Issued.place (i : Issued) (sector : Nat) : Nat := i.off + 512 * (sector - i.first)

/-- The transfer that the channel of a disk has started. -/
def currentTransfer (hd : Disk) : Prog Hardware Transfer := do
  let s ← Prog.get
  match portOf (hd.my_channel.port_base + 7) with
  | some (c, _) => Prog.ofOption (s c).transfer
  | none => Prog.fault .undefined

/-- `readLoop` with the commands. -/
def readLoopLog (hd : Disk) (lba sec_cnt : Nat) : Nat → Nat → Buf → Prog Hardware (Buf × List Issued)
  | 0, _, _ => Prog.fault .undefined
  | n + 1, secs_done, buf =>
      if secs_done < sec_cnt then do
        let secs_op := secsOp secs_done sec_cnt
        selectSector hd (u32 (lba + secs_done)) (secs_op % 256)
        cmdOut hd.my_channel CMD_READ_SECTOR
        let ready ← busyWait hd
        Prog.assert (ready = true)
        let t ← currentTransfer hd
        let buf ← readFromSector hd buf (u32 (secs_done * 512)) (secs_op % 256)
        let (buf, log) ← readLoopLog hd lba sec_cnt n (u32 (secs_done + secs_op)) buf
        pure (buf, ⟨t, u32 (secs_done * 512), sizeInByte (secs_op % 256) / 2⟩ :: log)
      else pure (buf, [])

/-- `ide_read` with the commands. -/
def ideReadLog (hd : Disk) (lba : Nat) (buf : Buf) (sec_cnt : Nat) : Prog Hardware (Buf × List Issued) := do
  Prog.assert (0 < sec_cnt)
  selectDisk hd
  readLoopLog hd lba sec_cnt (sec_cnt + 1) 0 buf

/-- `writeLoop` with the commands. -/
def writeLoopLog (hd : Disk) (lba sec_cnt : Nat) (buf : Buf) : Nat → Nat → Prog Hardware (List Issued)
  | 0, _ => Prog.fault .undefined
  | n + 1, secs_done =>
      if secs_done < sec_cnt then do
        let secs_op := secsOp secs_done sec_cnt
        selectSector hd (u32 (lba + secs_done)) (secs_op % 256)
        cmdOut hd.my_channel CMD_WRITE_SECTOR
        let ready ← busyWait hd
        Prog.assert (ready = true)
        let t ← currentTransfer hd
        write2sector hd (buf.from (u32 (secs_done * 512))) (secs_op % 256)
        let log ← writeLoopLog hd lba sec_cnt buf n (u32 (secs_done + secs_op))
        pure (⟨t, u32 (secs_done * 512), sizeInByte (secs_op % 256) / 2⟩ :: log)
      else pure []

/-- `ide_write` with the commands. -/
def ideWriteLog (hd : Disk) (lba : Nat) (buf : Buf) (sec_cnt : Nat) : Prog Hardware (List Issued) := do
  Prog.assert (0 < sec_cnt)
  selectDisk hd
  writeLoopLog hd lba sec_cnt buf (sec_cnt + 1) 0

/-! ## The log changes nothing -/

section Erase

variable {s s' : Hardware} {hd : Disk} {lba sec_cnt done fuel : Nat} {buf out : Buf} {log : List Issued}

theorem currentTransfer_frame {t : Transfer} (h : currentTransfer hd s = .ok (t, s')) : s' = s := by
  unfold currentTransfer at h
  rw [Prog.bind_of_ok (a := s) (t := s) rfl] at h
  cases hport : portOf (hd.my_channel.port_base + 7) with
  | none =>
      rw [hport] at h
      exact (Prog.fault_eq_ok.1 h).elim
  | some p =>
      rw [hport] at h
      exact (Prog.ofOption_eq_ok.1 h).2.symm

theorem readLoopLog_erase (h : readLoopLog hd lba sec_cnt fuel done buf s = .ok ((out, log), s')) :
    readLoop hd lba sec_cnt fuel done buf s = .ok (out, s') := by
  induction fuel generalizing done buf log s with
  | zero => exact (Prog.fault_eq_ok.1 h).elim
  | succ fuel ih =>
      unfold readLoopLog at h
      unfold readLoop
      split at h
      · next hlt =>
          rw [if_pos hlt]
          obtain ⟨⟨⟩, s1, h1, h⟩ := Prog.bind_eq_ok.1 h
          obtain ⟨⟨⟩, s2, h2, h⟩ := Prog.bind_eq_ok.1 h
          obtain ⟨ready, s3, h3, h⟩ := Prog.bind_eq_ok.1 h
          obtain ⟨⟨⟩, s4, h4, h⟩ := Prog.bind_eq_ok.1 h
          obtain ⟨t, s5, h5, h⟩ := Prog.bind_eq_ok.1 h
          obtain ⟨buf', s6, h6, h⟩ := Prog.bind_eq_ok.1 h
          obtain ⟨⟨out', log'⟩, s7, h7, h⟩ := Prog.bind_eq_ok.1 h
          obtain ⟨heq, rfl⟩ := Prog.pure_eq_ok.1 h
          cases heq
          cases currentTransfer_frame h5
          rw [Prog.bind_of_ok h1, Prog.bind_of_ok h2, Prog.bind_of_ok h3, Prog.bind_of_ok h4, Prog.bind_of_ok h6]
          exact ih h7
      · next hge =>
          rw [if_neg hge]
          obtain ⟨heq, rfl⟩ := Prog.pure_eq_ok.1 h
          cases heq
          rfl

/-- A run with the log is a run of `ide_read`. -/
theorem ideReadLog_erase (h : ideReadLog hd lba buf sec_cnt s = .ok ((out, log), s')) :
    ideRead hd lba buf sec_cnt s = .ok (out, s') := by
  obtain ⟨⟨⟩, s1, h1, h⟩ := Prog.bind_eq_ok.1 h
  obtain ⟨⟨⟩, s2, h2, h⟩ := Prog.bind_eq_ok.1 h
  unfold ideRead
  rw [Prog.bind_of_ok h1, Prog.bind_of_ok h2]
  exact readLoopLog_erase h

theorem writeLoopLog_erase (h : writeLoopLog hd lba sec_cnt buf fuel done s = .ok (log, s')) :
    writeLoop hd lba sec_cnt buf fuel done s = .ok ((), s') := by
  induction fuel generalizing done log s with
  | zero => exact (Prog.fault_eq_ok.1 h).elim
  | succ fuel ih =>
      unfold writeLoopLog at h
      unfold writeLoop
      split at h
      · next hlt =>
          rw [if_pos hlt]
          obtain ⟨⟨⟩, s1, h1, h⟩ := Prog.bind_eq_ok.1 h
          obtain ⟨⟨⟩, s2, h2, h⟩ := Prog.bind_eq_ok.1 h
          obtain ⟨ready, s3, h3, h⟩ := Prog.bind_eq_ok.1 h
          obtain ⟨⟨⟩, s4, h4, h⟩ := Prog.bind_eq_ok.1 h
          obtain ⟨t, s5, h5, h⟩ := Prog.bind_eq_ok.1 h
          obtain ⟨⟨⟩, s6, h6, h⟩ := Prog.bind_eq_ok.1 h
          obtain ⟨log', s7, h7, h⟩ := Prog.bind_eq_ok.1 h
          obtain ⟨-, rfl⟩ := Prog.pure_eq_ok.1 h
          cases currentTransfer_frame h5
          rw [Prog.bind_of_ok h1, Prog.bind_of_ok h2, Prog.bind_of_ok h3, Prog.bind_of_ok h4, Prog.bind_of_ok h6]
          exact ih h7
      · next hge =>
          rw [if_neg hge]
          obtain ⟨-, rfl⟩ := Prog.pure_eq_ok.1 h
          rfl

/-- A run with the log is a run of `ide_write`. -/
theorem ideWriteLog_erase (h : ideWriteLog hd lba buf sec_cnt s = .ok (log, s')) :
    ideWrite hd lba buf sec_cnt s = .ok ((), s') := by
  obtain ⟨⟨⟩, s1, h1, h⟩ := Prog.bind_eq_ok.1 h
  obtain ⟨⟨⟩, s2, h2, h⟩ := Prog.bind_eq_ok.1 h
  unfold ideWrite
  rw [Prog.bind_of_ok h1, Prog.bind_of_ok h2]
  exact writeLoopLog_erase h

end Erase

/-! ## The commands -/

/-- The commands cover the sectors from `first` to `last`, one range after the other, in one direction and on
    one drive, with 256 words for each sector. -/
def Tiles (toDrive : Bool) (dev : Nat) : Nat → Nat → List Issued → Prop
  | first, last, [] => first = last
  | first, last, i :: rest =>
      0 < i.sectors ∧ i.sectors ≤ 256 ∧
        i.transfer = ⟨toDrive, dev, 512 * first, 512 * i.sectors⟩ ∧ i.words = 256 * i.sectors ∧
        Tiles toDrive dev (first + i.sectors) last rest

/-- Sector `lba + k` goes to or comes from byte `512 * k` of the buffer. -/
def Placed (lba : Nat) (log : List Issued) : Prop :=
  ∀ i ∈ log, ∀ k, i.first ≤ lba + k → lba + k < i.first + i.sectors → i.place (lba + k) = 512 * k

/-- The commands cover exactly the request. -/
structure Exact (toDrive : Bool) (dev lba sec_cnt : Nat) (log : List Issued) : Prop where
  tiles : Tiles toDrive dev lba (lba + sec_cnt) log
  placed : Placed lba log

/-- The commands of the loops from `done` on. -/
def commands (toDrive : Bool) (dev lba sec_cnt : Nat) : Nat → Nat → List Issued
  | 0, _ => []
  | n + 1, done =>
      if done < sec_cnt then
        ⟨⟨toDrive, dev, 512 * (lba + done), 512 * min 256 (sec_cnt - done)⟩, u32 (done * 512),
            256 * min 256 (sec_cnt - done)⟩ ::
          commands toDrive dev lba sec_cnt n (done + min 256 (sec_cnt - done))
      else []

section Run

variable {s : Hardware} {hd : Disk} {c lba sec_cnt done fuel n dev k : Nat} {toDrive : Bool} {drive buf : Buf}
  {i : Issued} {log : List Issued}

theorem run_currentTransfer (hon : hd.On c) : currentTransfer hd
      (Function.update s c ((s c).started toDrive hd.dev lba n)) =
    .ok (⟨toDrive, hd.dev, 512 * lba, 512 * n⟩,
      Function.update s c ((s c).started toDrive hd.dev lba n)) := by
  unfold currentTransfer
  rw [Prog.bind_of_ok (Prog.get_eq_ok.2 ⟨rfl, rfl⟩), hon.port, portOf_portBase hon.channel (by decide)]
  show Prog.ofOption (Function.update s c ((s c).started toDrive hd.dev lba n) c).transfer _ = _
  rw [Function.update_self]
  rfl

theorem run_readLoopLog (buf : Buf) (hon : hd.On c) (hsum : lba + sec_cnt ≤ 2 ^ 28) (hal : Aligned done sec_cnt)
    (hdrive : (s c).drives hd.dev = some drive) (hfuel : sec_cnt - done < fuel) :
    ∃ out s', readLoopLog hd lba sec_cnt fuel done buf s =
      .ok ((out, commands false hd.dev lba sec_cnt fuel done), s') := by
  induction fuel generalizing s done buf with
  | zero => exact absurd hfuel (Nat.not_lt_zero _)
  | succ fuel ih =>
      unfold readLoopLog commands
      by_cases hdone : done < sec_cnt
      · obtain ⟨hnext, hal'⟩ := hal.next hdone (by omega)
        have hop := secsOp_eq hdone (by omega : sec_cnt ≤ 2 ^ 28)
        have hlba : u32 (lba + done) = lba + done := Nat.mod_eq_of_lt (by omega)
        rw [if_pos hdone, if_pos hdone, hnext, hlba, hop,
          run_command hon (by omega) (by omega) (by omega) hdrive (.inl rfl),
          show (CMD_READ_SECTOR == CMD_WRITE_SECTOR) = false by decide, Prog.bind_of_ok (run_currentTransfer hon)]
        obtain ⟨ctl, hread, hdrives⟩ := @run_readFromSector s hd c (lba + done) (min 256 (sec_cnt - done)) drive
          hon (by omega) (by omega) hdrive buf (u32 (done * 512))
        have hself : (Function.update s c ctl c).drives hd.dev = some drive := by
          rw [Function.update_self, hdrives, hdrive]
        obtain ⟨out, s', hrun⟩ := ih _ hal' hself (by omega)
        refine ⟨out, s', ?_⟩
        rw [Prog.bind_of_ok hread, Prog.bind_of_ok hrun, sizeInByte_eq (by omega) (by omega)]
        rfl
      · rw [if_neg hdone, if_neg hdone]
        exact ⟨buf, s, rfl⟩

theorem run_writeLoopLog (buf : Buf) (hon : hd.On c) (hsum : lba + sec_cnt ≤ 2 ^ 28) (hal : Aligned done sec_cnt)
    (hdrive : (s c).drives hd.dev = some drive) (hfuel : sec_cnt - done < fuel) :
    ∃ s', writeLoopLog hd lba sec_cnt buf fuel done s =
      .ok (commands true hd.dev lba sec_cnt fuel done, s') := by
  induction fuel generalizing s done drive with
  | zero => exact absurd hfuel (Nat.not_lt_zero _)
  | succ fuel ih =>
      unfold writeLoopLog commands
      by_cases hdone : done < sec_cnt
      · obtain ⟨hnext, hal'⟩ := hal.next hdone (by omega)
        have hop := secsOp_eq hdone (by omega : sec_cnt ≤ 2 ^ 28)
        have hlba : u32 (lba + done) = lba + done := Nat.mod_eq_of_lt (by omega)
        rw [if_pos hdone, if_pos hdone, hnext, hlba, hop,
          run_command hon (by omega) (by omega) (by omega) hdrive (.inr rfl), beq_self_eq_true,
          Prog.bind_of_ok (run_currentTransfer hon)]
        obtain ⟨ctl, hwrite, hdrives⟩ := @run_write2sector s hd c (lba + done) (min 256 (sec_cnt - done)) drive
          hon (by omega) (by omega) hdrive (buf.from (u32 (done * 512)))
        have hself : (Function.update s c ctl c).drives hd.dev = some (drive.patch (512 * (lba + done))
            (512 * min 256 (sec_cnt - done)) (buf.from (u32 (done * 512)))) := by
          rw [Function.update_self, hdrives, Function.update_self]
        obtain ⟨s', hrun⟩ := ih hal' hself (by omega)
        refine ⟨s', ?_⟩
        rw [Prog.bind_of_ok hwrite, Prog.bind_of_ok hrun, sizeInByte_eq (by omega) (by omega)]
        rfl
      · rw [if_neg hdone, if_neg hdone]
        exact ⟨s, rfl⟩

/-! ## Where they lead -/

/-- The commands of a loop cover what is left of the request, also where the place in the buffer is wrong. -/
theorem tiles_commands (toDrive : Bool) (dev lba : Nat) (hdone : done ≤ sec_cnt) (hfuel : sec_cnt - done < fuel) :
    Tiles toDrive dev (lba + done) (lba + sec_cnt) (commands toDrive dev lba sec_cnt fuel done) := by
  induction fuel generalizing done with
  | zero => exact absurd hfuel (Nat.not_lt_zero _)
  | succ fuel ih =>
      unfold commands
      split
      · have hsectors : 512 * min 256 (sec_cnt - done) / 512 = min 256 (sec_cnt - done) := by omega
        have hrest := @ih (done + min 256 (sec_cnt - done)) (by omega) (by omega)
        unfold Tiles Issued.sectors
        rw [hsectors, Nat.add_assoc]
        exact ⟨by omega, by omega, rfl, rfl, hrest⟩
      · show lba + done = lba + sec_cnt
        omega

/-- A command of a loop starts at the end of whole chunks. -/
theorem mem_commands (hal : Aligned done sec_cnt) (h : i ∈ commands toDrive dev lba sec_cnt fuel done) :
    ∃ start, done ≤ start ∧ start < sec_cnt ∧ start % 256 = 0 ∧ i.first = lba + start ∧
      i.sectors = min 256 (sec_cnt - start) ∧ i.off = u32 (start * 512) := by
  induction fuel generalizing done with
  | zero => cases h
  | succ fuel ih =>
      obtain ⟨hle, hend⟩ := hal
      unfold commands at h
      split at h
      · next hlt =>
          cases h with
          | head =>
              refine ⟨done, le_refl _, hlt, by omega, ?_, ?_, rfl⟩
              · show 512 * (lba + done) / 512 = lba + done
                omega
              · show 512 * min 256 (sec_cnt - done) / 512 = min 256 (sec_cnt - done)
                omega
          | tail _ h =>
              obtain ⟨start, hge, hrest⟩ := @ih (done + min 256 (sec_cnt - done)) ⟨by omega, by omega⟩ h
              exact ⟨start, by omega, hrest⟩
      · cases h

/-- Every sector that is left has its command. -/
theorem exists_command (toDrive : Bool) (dev lba : Nat) (hk : done ≤ k) (hlt : k < sec_cnt) (hfuel : sec_cnt - done < fuel) :
    ∃ i ∈ commands toDrive dev lba sec_cnt fuel done, i.first ≤ lba + k ∧ lba + k < i.first + i.sectors := by
  induction fuel generalizing done with
  | zero => exact absurd hfuel (Nat.not_lt_zero _)
  | succ fuel ih =>
      unfold commands
      rw [if_pos (by omega)]
      by_cases hin : k < done + min 256 (sec_cnt - done)
      · refine ⟨_, List.mem_cons_self .., ?_, ?_⟩
        · show 512 * (lba + done) / 512 ≤ lba + k
          omega
        · show lba + k < 512 * (lba + done) / 512 + 512 * min 256 (sec_cnt - done) / 512
          omega
      · obtain ⟨i, hi, hcover⟩ := @ih (done + min 256 (sec_cnt - done)) (by omega) (by omega)
        exact ⟨i, List.mem_cons_of_mem _ hi, hcover⟩

/-- The sectors lie where they should up to `2^23` of them; the offset of the next one is 0 again. -/
theorem placed_commands_iff : Placed lba (commands toDrive dev lba sec_cnt (sec_cnt + 1) 0) ↔
    sec_cnt ≤ 2 ^ 23 := by
  have hal : Aligned 0 sec_cnt := ⟨Nat.zero_le _, .inl rfl⟩
  constructor
  · intro h
    by_contra hbig
    obtain ⟨i, hi, hle, hlt⟩ := exists_command toDrive dev lba
      (Nat.zero_le (2 ^ 23)) (by omega : 2 ^ 23 < sec_cnt) (Nat.lt_succ_self _)
    obtain ⟨start, -, hat, hwhole, hfirst, hsectors, hoff⟩ := mem_commands hal hi
    have hplace := h i hi (2 ^ 23) hle hlt
    have hat' : start = 2 ^ 23 := by omega
    unfold Issued.place at hplace
    rw [hfirst, hoff, hat'] at hplace
    unfold u32 at hplace
    omega
  · intro hsmall i hi k hle hlt
    obtain ⟨start, -, hat, -, hfirst, hsectors, hoff⟩ := mem_commands hal hi
    unfold Issued.place
    rw [hfirst, hoff]
    unfold u32
    omega

end Run

/-! ## Whole calls -/

section Calls

variable {s : Hardware} {hd : Disk} {hd_cnt i j lba sec_cnt : Nat}

/-- `ide_read` ends, with commands that cover exactly the request. -/
def ReadExact (hd : Disk) (lba sec_cnt : Nat) (buf : Buf) (s : Hardware) : Prop :=
  ∃ out log s', ideReadLog hd lba buf sec_cnt s = .ok ((out, log), s') ∧ Exact false hd.dev lba sec_cnt log

/-- `ide_write` ends, with commands that cover exactly the request. -/
def WriteExact (hd : Disk) (lba sec_cnt : Nat) (buf : Buf) (s : Hardware) : Prop :=
  ∃ log s', ideWriteLog hd lba buf sec_cnt s = .ok (log, s') ∧ Exact true hd.dev lba sec_cnt log

/-- The drive that the DEV bit of a disk stands for is there. -/
theorem attached_dev (hcnt : hd_cnt ≤ 4) (h : ((i, j), hd) ∈ channelsInit hd_cnt) (hs : Attached hd_cnt s) :
    hd.On i ∧ ∃ drive, (s i).drives hd.dev = some drive := by
  obtain ⟨rfl, hj, hlt⟩ := mem_channelsInit h
  refine ⟨⟨rfl, by omega⟩, Option.ne_none_iff_exists'.1 (hs i _ (Disk.dev_lt _) ?_)⟩
  show i * 2 + (if i * 2 + j = 1 then 1 else 0) < hd_cnt
  split <;> omega

/-- `select_disk` leaves the drives. -/
theorem selectDisk_drives {c : Nat} (hon : hd.On c) : ∃ s1, selectDisk hd s = .ok ((), s1) ∧
    (s1 c).drives = (s c).drives := by
  obtain ⟨device, hselect⟩ := @run_selectDisk s hd c hon
  exact ⟨_, hselect, by rw [Function.update_self]⟩

theorem run_ideReadLog {c : Nat} {drive : Buf} (hon : hd.On c) (hpos : 0 < sec_cnt)
    (hsum : lba + sec_cnt ≤ 2 ^ 28) (hdrive : (s c).drives hd.dev = some drive) (buf : Buf) :
    ∃ out s', ideReadLog hd lba buf sec_cnt s =
      .ok ((out, commands false hd.dev lba sec_cnt (sec_cnt + 1) 0), s') := by
  obtain ⟨s1, hselect, hdrives⟩ := @selectDisk_drives s hd c hon
  obtain ⟨out, s', hrun⟩ := run_readLoopLog buf hon hsum ⟨Nat.zero_le _, .inl rfl⟩
    (by rw [hdrives, hdrive]) (Nat.lt_succ_self sec_cnt)
  refine ⟨out, s', ?_⟩
  unfold ideReadLog
  rw [Prog.run_assert_bind hpos, Prog.bind_of_ok hselect, hrun]

theorem run_ideWriteLog {c : Nat} {drive : Buf} (hon : hd.On c) (hpos : 0 < sec_cnt)
    (hsum : lba + sec_cnt ≤ 2 ^ 28) (hdrive : (s c).drives hd.dev = some drive) (buf : Buf) :
    ∃ s', ideWriteLog hd lba buf sec_cnt s =
      .ok (commands true hd.dev lba sec_cnt (sec_cnt + 1) 0, s') := by
  obtain ⟨s1, hselect, hdrives⟩ := @selectDisk_drives s hd c hon
  obtain ⟨s', hrun⟩ := run_writeLoopLog buf hon hsum ⟨Nat.zero_le _, .inl rfl⟩
    (by rw [hdrives, hdrive]) (Nat.lt_succ_self sec_cnt)
  refine ⟨s', ?_⟩
  unfold ideWriteLog
  rw [Prog.run_assert_bind hpos, Prog.bind_of_ok hselect, hrun]

/-- The commands of a whole call cover exactly the request for at most `2^23` sectors. -/
theorem exact_commands_iff (toDrive : Bool) (dev lba sec_cnt : Nat) :
    Exact toDrive dev lba sec_cnt (commands toDrive dev lba sec_cnt (sec_cnt + 1) 0) ↔ sec_cnt ≤ 2 ^ 23 :=
  ⟨fun h => placed_commands_iff.1 h.placed,
    fun h => ⟨tiles_commands toDrive dev lba (Nat.zero_le _) (Nat.lt_succ_self _), placed_commands_iff.2 h⟩⟩

/-- A call covers exactly the request for at most `2^23` sectors: the offset in the buffer is a
    `uint32_t`. -/
theorem transfer_exact_iff (hcnt : hd_cnt ≤ 4) (h : ((i, j), hd) ∈ channelsInit hd_cnt)
    (hs : Attached hd_cnt s) (hpos : 0 < sec_cnt) (hsum : lba + sec_cnt ≤ 2 ^ 28) (buf : Buf) :
    (ReadExact hd lba sec_cnt buf s ↔ sec_cnt ≤ 2 ^ 23) ∧
      (WriteExact hd lba sec_cnt buf s ↔ sec_cnt ≤ 2 ^ 23) := by
  obtain ⟨hon, drive, hdrive⟩ := attached_dev hcnt h hs
  obtain ⟨out, s', hread⟩ := run_ideReadLog hon hpos hsum hdrive buf
  obtain ⟨s'', hwrite⟩ := run_ideWriteLog hon hpos hsum hdrive buf
  constructor
  · rw [← exact_commands_iff false hd.dev lba sec_cnt]
    constructor
    · rintro ⟨out', log, t, hrun, hexact⟩
      rw [hread] at hrun
      cases hrun
      exact hexact
    · exact fun hexact => ⟨out, _, s', hread, hexact⟩
  · rw [← exact_commands_iff true hd.dev lba sec_cnt]
    constructor
    · rintro ⟨log, t, hrun, hexact⟩
      rw [hwrite] at hrun
      cases hrun
      exact hexact
    · exact fun hexact => ⟨_, s'', hwrite, hexact⟩

/-- Three hundred sectors of the first disk: two commands. -/
theorem transfer_exact_sda :
    (ReadExact ⟨⟨0x1f0⟩, 0⟩ 7 300 Buf.zero zeroDrives ↔ 300 ≤ 2 ^ 23) ∧
      (WriteExact ⟨⟨0x1f0⟩, 0⟩ 7 300 Buf.zero zeroDrives ↔ 300 ≤ 2 ^ 23) :=
  @transfer_exact_iff _ _ 1 0 0 _ _ (by decide) (by decide)
    (fun _ _ _ _ => Option.some_ne_none _) (by decide) (by decide) Buf.zero

/-- One sector more than `2^23`. -/
theorem not_transfer_exact_sda : ((0, 0), ⟨⟨0x1f0⟩, 0⟩) ∈ channelsInit 1 ∧ Attached 1 zeroDrives ∧
    0 + (2 ^ 23 + 1) ≤ 2 ^ 28 ∧ ¬ ReadExact ⟨⟨0x1f0⟩, 0⟩ 0 (2 ^ 23 + 1) Buf.zero zeroDrives := by
  refine ⟨by decide, fun _ _ _ _ => Option.some_ne_none _, by decide, ?_⟩
  rintro ⟨out, log, s', hrun, hexact⟩
  obtain ⟨out', t, hread⟩ := @run_ideReadLog zeroDrives ⟨⟨0x1f0⟩, 0⟩ 0 (2 ^ 23 + 1) 0 Buf.zero ⟨rfl, by decide⟩
    (by decide) (by decide) rfl Buf.zero
  rw [hread] at hrun
  cases hrun
  have hsmall := (exact_commands_iff false 0 0 (2 ^ 23 + 1)).1 hexact
  omega

end Calls

end Ide

end RecoverOS
