import Rayos.Lib.BitFields
import Rayos.Machine.Word

/-!
# Commands for a SATA disk (`ahci_block.c`, `ahci.h`)

`ahci_dma_transfer` fills the header of a command, its FIS and one entry of its PRDT, hands the command to the port
and waits for it.  The fields are read back here as the disk and the host adapter read them: a sector count of 0 is
65536, bit 0 of the address of a buffer is reserved, and the byte count is one more than the lower 22 bits of its
field.

* `decode_ahciCommand` — the request that a command makes.
* `ahci_iff` — for which requests it is the one that the caller has made.
-/

namespace Rayos

open BitFields

/-! ## The code -/

/-- `struct ahci_cmd_list_entry`, the fields that are set. -/
structure AhciCmdListEntry where
  opts : BitVec 16
  prdtl : BitVec 16
  prdbc : BitVec 32
  deriving DecidableEq

/-- `struct fis_reg_h2d`; the fields that are not set are zero. -/
structure FisRegH2d where
  fisType : BitVec 8
  pmportC : BitVec 8
  command : BitVec 8
  lba0 : BitVec 8
  lba1 : BitVec 8
  lba2 : BitVec 8
  device : BitVec 8
  lba3 : BitVec 8
  lba4 : BitVec 8
  lba5 : BitVec 8
  countLow : BitVec 8
  countHigh : BitVec 8
  deriving DecidableEq

/-- `struct ahci_prdt_entry`. -/
structure AhciPrdtEntry where
  dba : BitVec 32
  dbau : BitVec 32
  reserved0 : BitVec 32
  dbc : BitVec 32
  deriving DecidableEq

/-- What is in memory when the command is handed to the port. -/
structure AhciCommand where
  cmdHdr : AhciCmdListEntry
  cfis : FisRegH2d
  prdt : AhciPrdtEntry
  deriving DecidableEq

/-- The command that `ahci_dma_transfer` builds for a buffer at `targetPhys`, which `get_physaddr` has returned. -/
def ahciCommand (write : Bool) (lba : U64) (count : BitVec 16) (targetPhys : U64) : AhciCommand where
  cmdHdr :=
    { opts := 5#16 ||| ((if write then 1#16 else 0#16) <<< 6)
      prdtl := 1#16
      prdbc := 0#32 }
  cfis :=
    { fisType := 0x27#8
      pmportC := 1#8 <<< 7
      command := if write then 0x35#8 else 0x25#8
      device := 1#8 <<< 6
      lba0 := (lba &&& 0xff#64).setWidth 8
      lba1 := ((lba >>> 8) &&& 0xff#64).setWidth 8
      lba2 := ((lba >>> 16) &&& 0xff#64).setWidth 8
      lba3 := ((lba >>> 24) &&& 0xff#64).setWidth 8
      lba4 := ((lba >>> 32) &&& 0xff#64).setWidth 8
      lba5 := ((lba >>> 40) &&& 0xff#64).setWidth 8
      countLow := (count &&& 0xff#16).setWidth 8
      countHigh := ((count >>> 8) &&& 0xff#16).setWidth 8 }
  prdt :=
    { dba := (targetPhys &&& 0xffffffff#64).setWidth 32
      dbau := ((targetPhys >>> 32) &&& 0xffffffff#64).setWidth 32
      reserved0 := 0#32
      dbc := ((count.setWidth 32 * 512#32 - 1#32) &&& 0x3fffff#32) ||| (1#32 <<< 31) }

/-- What the port answers: the registers at each read, by the number of the read. -/
structure AhciPort where
  pxTfd : Nat → BitVec 32
  pxCi : Nat → BitVec 32
  pxIs : Nat → BitVec 32

/-- The loop that waits while the disk is busy; `none` if it still is after `fuel` reads. -/
def ahciWaitIdle (port : AhciPort) : Nat → Nat → Option Unit
  | 0, _ => none
  | fuel + 1, i =>
      if port.pxTfd i &&& ((1#32 <<< 7) ||| (1#32 <<< 3)) ≠ 0#32 then ahciWaitIdle port fuel (i + 1) else some ()

/-- The loop that waits for the end of the command. -/
def ahciWaitDone (port : AhciPort) : Nat → Nat → Option Int
  | 0, _ => none
  | fuel + 1, i =>
      if port.pxCi i &&& 1#32 = 0#32 then some 0
      else if port.pxIs i &&& (1#32 <<< 30) ≠ 0#32 then some (-1)
      else ahciWaitDone port fuel (i + 1)

/-- `ahci_dma_transfer`: the result, and the command that the port has been given. -/
def ahciDmaTransfer (fuel : Nat) (port : AhciPort) (write : Bool) (lba : U64) (count : BitVec 16) (targetPhys : U64) :
    Option (Int × AhciCommand) :=
  match ahciWaitIdle port fuel 0 with
  | none => none
  | some () => (ahciWaitDone port fuel 0).map fun ret => (ret, ahciCommand write lba count targetPhys)

/-- `ahci_read`. -/
def ahciDmaRead (fuel : Nat) (port : AhciPort) (lba : U64) (count : BitVec 16) (targetPhys : U64) :=
  ahciDmaTransfer fuel port false lba count targetPhys

/-- `ahci_write`. -/
def ahciDmaWrite (fuel : Nat) (port : AhciPort) (lba : U64) (count : BitVec 16) (targetPhys : U64) :=
  ahciDmaTransfer fuel port true lba count targetPhys

/-- `blkdev_ahci_read` and `blkdev_ahci_write`: the count is converted to 16 bits. -/
def blkdevAhci (fuel : Nat) (port : AhciPort) (write : Bool) (lba : U64) (count : BitVec 32) (targetPhys : U64) :
    Option (Int × AhciCommand) :=
  ahciDmaTransfer fuel port write lba (count.setWidth 16) targetPhys

/-- `blkdev_ahci_read`. -/
def blkdevAhciRead (fuel : Nat) (port : AhciPort) (lba : U64) (count : BitVec 32) (targetPhys : U64) :=
  blkdevAhci fuel port false lba count targetPhys

/-- `blkdev_ahci_write`. -/
def blkdevAhciWrite (fuel : Nat) (port : AhciPort) (lba : U64) (count : BitVec 32) (targetPhys : U64) :=
  blkdevAhci fuel port true lba count targetPhys

/-! ## What the disk and the host adapter read -/

/-- A transfer: `sectors` of them on the disk, `bytes` of them in memory. -/
structure AtaRequest where
  write : Bool
  lba : BitVec 48
  sectors : Nat
  address : U64
  bytes : Nat
  deriving DecidableEq

/-- `READ DMA EXT` or `WRITE DMA EXT`. -/
def ataDirection (command : BitVec 8) : Option Bool :=
  if command = 0x25#8 then some false else if command = 0x35#8 then some true else none

/-- The 48 bits of the sector number. -/
def fisLba (fis : FisRegH2d) : BitVec 48 := fis.lba5 ++ (fis.lba4 ++ (fis.lba3 ++ (fis.lba2 ++ (fis.lba1 ++ fis.lba0))))

/-- The sector count; 0 is 65536. -/
def fisSectors (fis : FisRegH2d) : Nat :=
  if (fis.countHigh ++ fis.countLow).toNat = 0 then 65536 else (fis.countHigh ++ fis.countLow).toNat

/-- The address of the buffer; bit 0 is reserved. -/
def prdtAddress (prdt : AhciPrdtEntry) : U64 := prdt.dbau ++ (prdt.dba &&& ~~~1#32)

/-- The bytes that are moved. -/
def prdtBytes (prdt : AhciPrdtEntry) : Nat := (prdt.dbc.extractLsb' 0 22).toNat + 1

/-- The request that a command makes: a command FIS with LBA addresses, whose direction is that of the header, and one
entry of the PRDT. -/
def ahciDecode (c : AhciCommand) : Option AtaRequest :=
  if c.cfis.fisType = 0x27#8 ∧ c.cfis.pmportC.getLsbD 7 = true ∧ c.cfis.device.getLsbD 6 = true ∧
      c.cmdHdr.prdtl = 1#16 ∧ c.cmdHdr.opts.extractLsb' 0 5 = 5#5 then
    match ataDirection c.cfis.command with
    | some write =>
        if c.cmdHdr.opts.getLsbD 6 = write then
          some ⟨write, fisLba c.cfis, fisSectors c.cfis, prdtAddress c.prdt, prdtBytes c.prdt⟩
        else none
    | none => none
  else none

/-! ## The request of a command -/

/-- The sectors that a count of 16 bits stands for. -/
def sectorsOf (count : BitVec 16) : Nat := if count.toNat = 0 then 65536 else count.toNat

section Fields

variable (write : Bool) (lba : U64) (count : BitVec 16) (targetPhys : U64)

theorem fisLba_ahciCommand : fisLba (ahciCommand write lba count targetPhys).cfis = lba.setWidth 48 := by
  refine eq_append_iff.mpr ⟨?_, eq_append_iff.mpr ⟨?_, eq_append_iff.mpr ⟨?_, eq_append_iff.mpr ⟨?_,
    eq_append_iff.mpr ⟨?_, ?_⟩⟩⟩⟩⟩ <;> unfold ahciCommand
  all_goals
    simp (disch := first | omega | decide) only [BitVec.setWidth_eq_extractLsb', BitVec.extractLsb'_extractLsb'_of_le,
      field_mask, field_shiftRight]

theorem fisSectors_ahciCommand : fisSectors (ahciCommand write lba count targetPhys).cfis = sectorsOf count := by
  have hCount : (ahciCommand write lba count targetPhys).cfis.countHigh ++
      (ahciCommand write lba count targetPhys).cfis.countLow = count := by
    refine eq_append_iff.mpr ⟨?_, ?_⟩ <;> unfold ahciCommand
    all_goals
      simp (disch := first | omega | decide) only [BitVec.setWidth_eq_extractLsb', field_mask, field_shiftRight]
  unfold fisSectors sectorsOf
  rw [hCount]

theorem prdtAddress_ahciCommand :
    prdtAddress (ahciCommand write lba count targetPhys).prdt = targetPhys &&& ~~~1#64 := by
  have hMask : (~~~1#64).extractLsb' 0 32 = ~~~1#32 := by decide
  apply eq_append_iff.mpr
  unfold ahciCommand
  constructor
  · simp (disch := first | omega | decide) only [BitVec.setWidth_eq_extractLsb', field_mask, field_shiftRight]
  · rw [BitVec.extractLsb'_and, hMask]
    simp (disch := first | omega | decide) only [BitVec.setWidth_eq_extractLsb', field_mask]

/-- The byte count has 22 bits. -/
theorem prdtBytes_ahciCommand :
    prdtBytes (ahciCommand write lba count targetPhys).prdt = (count.toNat * 512 + 2 ^ 22 - 1) % 2 ^ 22 + 1 := by
  have hField : (ahciCommand write lba count targetPhys).prdt.dbc.extractLsb' 0 22 =
      (count.setWidth 32 * 512#32 - 1#32).setWidth 22 := by
    generalize hBytes : count.setWidth 32 * 512#32 - 1#32 = bytes
    unfold ahciCommand
    simp only [hBytes]
    simp (disch := first | omega | decide) only [BitVec.setWidth_eq_extractLsb', BitVec.extractLsb'_or, field_mask,
      field_below, BitVec.or_zero]
  have hLt := count.isLt
  have hBytes : (count.setWidth 32 * 512#32 - 1#32).toNat = (count.toNat * 512 + 2 ^ 32 - 1) % 2 ^ 32 := by
    rw [BitVec.toNat_sub, BitVec.toNat_mul, BitVec.toNat_setWidth]
    simp only [BitVec.toNat_ofNat]
    omega
  unfold prdtBytes
  rw [hField, BitVec.toNat_setWidth, hBytes]
  omega

/-- The request that a command makes. -/
theorem decode_ahciCommand : ahciDecode (ahciCommand write lba count targetPhys) =
    some ⟨write, lba.setWidth 48, sectorsOf count, targetPhys &&& ~~~1#64,
      (count.toNat * 512 + 2 ^ 22 - 1) % 2 ^ 22 + 1⟩ := by
  have hDirection : ataDirection (ahciCommand write lba count targetPhys).cfis.command = some write := by
    cases write <;> rfl
  have hWrite : (ahciCommand write lba count targetPhys).cmdHdr.opts.getLsbD 6 = write := by
    show (5#16 ||| ((if write then 1#16 else 0#16) <<< 6)).getLsbD 6 = write
    cases write <;> decide
  have hHeader : (ahciCommand write lba count targetPhys).cmdHdr.opts.extractLsb' 0 5 = 5#5 := by
    show (5#16 ||| ((if write then 1#16 else 0#16) <<< 6)).extractLsb' 0 5 = 5#5
    cases write <;> decide
  have hDevice : (ahciCommand write lba count targetPhys).cfis.device.getLsbD 6 = true := by
    show (1#8 <<< 6).getLsbD 6 = true
    decide
  have hCommand : (ahciCommand write lba count targetPhys).cfis.pmportC.getLsbD 7 = true := by
    show (1#8 <<< 7).getLsbD 7 = true
    decide
  unfold ahciDecode
  rw [if_pos ⟨rfl, hCommand, hDevice, rfl, hHeader⟩, hDirection]
  simp only
  rw [if_pos hWrite, fisLba_ahciCommand, fisSectors_ahciCommand, prdtAddress_ahciCommand, prdtBytes_ahciCommand]

/-- The lengths agree up to 4 MiB. -/
theorem bytes_iff (n : Nat) :
    (n * 512 + 2 ^ 22 - 1) % 2 ^ 22 + 1 = n * 512 ↔ 1 ≤ n ∧ n ≤ 8192 := by
  omega

theorem address_iff : targetPhys &&& ~~~1#64 = targetPhys ↔ targetPhys.getLsbD 0 = false := by
  constructor
  · intro hEq
    have hBit := congrArg (fun x => BitVec.getLsbD x 0) hEq
    simpa using hBit.symm
  · intro hEven
    have hMask : ∀ i, i < 64 → (~~~1#64).getLsbD i = decide (i ≠ 0) := by decide
    apply BitVec.eq_of_getLsbD_eq
    intro i hi
    rw [BitVec.getLsbD_and, hMask i hi]
    by_cases hZero : i = 0
    · subst hZero
      rw [hEven]
      rfl
    · simp [hZero]

end Fields

/-! ## Requests of the callers -/

/-- The command is the request of the caller: the direction, the sectors and the buffer. -/
def Encodes (write : Bool) (lba : U64) (count : BitVec 16) (targetPhys : U64) : Prop :=
  ahciDecode (ahciCommand write lba count targetPhys) =
    some ⟨write, lba.setWidth 48, count.toNat, targetPhys, count.toNat * 512⟩

/-- Whatever the port does, the call fails or it has transferred `count` sectors. -/
def TransfersAll (write : Bool) (lba : U64) (count : BitVec 32) (targetPhys : U64) : Prop :=
  ∀ fuel port ret c, blkdevAhci fuel port write lba count targetPhys = some (ret, c) → ret = -1 ∨
    ∃ r, ahciDecode c = some r ∧ r.sectors = count.toNat ∧ r.bytes = count.toNat * 512

theorem encodes_iff {write : Bool} {lba : U64} {count : BitVec 16} {targetPhys : U64} (hCount : 1 ≤ count.toNat) :
    Encodes write lba count targetPhys ↔ count.toNat ≤ 8192 ∧ targetPhys.getLsbD 0 = false := by
  have hSectors : sectorsOf count = count.toNat := if_neg (by omega)
  unfold Encodes
  rw [decode_ahciCommand, Option.some_inj, AtaRequest.mk.injEq, hSectors, bytes_iff, address_iff]
  constructor
  · rintro ⟨-, -, -, hEven, hBytes⟩
    exact ⟨hBytes.2, hEven⟩
  · rintro ⟨hBytes, hEven⟩
    exact ⟨rfl, rfl, rfl, hEven, hCount, hBytes⟩

/-- A port that is never busy and takes each command at once. -/
def readyPort : AhciPort := ⟨fun _ => 0#32, fun _ => 0#32, fun _ => 0#32⟩

theorem ahciWaitDone_cases {port : AhciPort} {fuel i : Nat} {ret : Int} (hRun : ahciWaitDone port fuel i = some ret) :
    ret = 0 ∨ ret = -1 := by
  induction fuel generalizing i with
  | zero => cases hRun
  | succ fuel ih =>
      unfold ahciWaitDone at hRun
      split at hRun
      · cases hRun
        exact Or.inl rfl
      · split at hRun
        · cases hRun
          exact Or.inr rfl
        · exact ih hRun

/-- The command does not depend on the port. -/
theorem blkdevAhci_command {fuel : Nat} {port : AhciPort} {write : Bool} {lba : U64} {count : BitVec 32}
    {targetPhys : U64} {ret : Int} {c : AhciCommand}
    (hRun : blkdevAhci fuel port write lba count targetPhys = some (ret, c)) :
    (ret = 0 ∨ ret = -1) ∧ c = ahciCommand write lba (count.setWidth 16) targetPhys := by
  unfold blkdevAhci ahciDmaTransfer at hRun
  split at hRun
  · cases hRun
  · obtain ⟨ret', hDone, hEq⟩ := Option.map_eq_some_iff.mp hRun
    cases hEq
    exact ⟨ahciWaitDone_cases hDone, rfl⟩

theorem transfersAll_iff {write : Bool} {lba : U64} {count : BitVec 32} {targetPhys : U64} :
    TransfersAll write lba count targetPhys ↔ 1 ≤ count.toNat ∧ count.toNat ≤ 8192 := by
  have hLow : (count.setWidth 16).toNat = count.toNat % 2 ^ 16 := BitVec.toNat_setWidth _ _
  have hDecode := decode_ahciCommand write lba (count.setWidth 16) targetPhys
  constructor
  · intro hAll
    rcases hAll 1 readyPort 0 _ rfl with hErr | ⟨r, hSome, -, hBytes⟩
    · cases hErr
    · rw [hDecode] at hSome
      cases hSome
      simp only [hLow] at hBytes
      omega
  · rintro ⟨hPos, hSmall⟩ fuel port ret c hRun
    obtain ⟨-, rfl⟩ := blkdevAhci_command hRun
    refine Or.inr ⟨_, hDecode, ?_, ?_⟩
    · show sectorsOf (count.setWidth 16) = count.toNat
      rw [sectorsOf, hLow, Nat.mod_eq_of_lt (by omega), if_neg (by omega)]
    · show ((count.setWidth 16).toNat * 512 + 2 ^ 22 - 1) % 2 ^ 22 + 1 = count.toNat * 512
      rw [hLow, Nat.mod_eq_of_lt (show count.toNat < 2 ^ 16 by omega)]
      exact (bytes_iff _).mpr ⟨hPos, hSmall⟩

/-- **Commands are what the caller has asked for** exactly up to 8192 sectors, the 4 MiB that an entry of the PRDT
can hold, and in a buffer at an even address. -/
theorem ahci_iff {lba : U64} (hLba : lba.toNat < 2 ^ 48) (write : Bool) {count : BitVec 16} (hCount : 1 ≤ count.toNat)
    (targetPhys : U64) (blkCount : BitVec 32) :
    ((Encodes write lba count targetPhys ∧ (lba.setWidth 48).toNat = lba.toNat) ∧
        TransfersAll write lba blkCount targetPhys) ↔
      (count.toNat ≤ 8192 ∧ targetPhys.getLsbD 0 = false) ∧ 1 ≤ blkCount.toNat ∧ blkCount.toNat ≤ 8192 := by
  have hSame : (lba.setWidth 48).toNat = lba.toNat := by
    rw [BitVec.toNat_setWidth, Nat.mod_eq_of_lt hLba]
  rw [encodes_iff hCount, transfersAll_iff, and_iff_left hSame]

/-- Eight sectors. -/
theorem ahci_iff_page :
    (Encodes true 0x123456789abc#64 8#16 0x200000#64 ∧
        ((0x123456789abc#64).setWidth 48).toNat = (0x123456789abc#64).toNat) ∧
      TransfersAll true 0x123456789abc#64 8#32 0x200000#64 :=
  (ahci_iff (by decide) true (by decide) 0x200000#64 8#32).mpr ⟨⟨by decide, by decide⟩, by decide, by decide⟩

/-- Of 65537 sectors one is transferred, and the call succeeds. -/
theorem blkdev_ahci_read_short :
    (∃ c r, blkdevAhciRead 1 readyPort 0#64 65537#32 0x200000#64 = some (0, c) ∧ ahciDecode c = some r ∧
        r.sectors = 1 ∧ r.bytes = 512) ∧
      ¬ TransfersAll false 0#64 65537#32 0x200000#64 ∧ ¬ Encodes false 0#64 8193#16 0x200000#64 := by
  refine ⟨⟨_, _, rfl, decode_ahciCommand _ _ _ _, rfl, rfl⟩, fun hAll => ?_, fun hEncodes => ?_⟩
  · exact absurd (transfersAll_iff.mp hAll).2 (by decide)
  · exact absurd ((encodes_iff (by decide)).mp hEncodes).1 (by decide)

end Rayos
