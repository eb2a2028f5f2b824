import Rayos.Lib.BitFields
import Rayos.Machine.Word

/-!
# Segment descriptors (`gdt.c`)

`create_descriptor` and the two words of the TSS descriptor that `gdt_init` stores scatter a base and a limit over
fields that are not next to each other.  The fields are read back here as the processor reads them.

* `createDescriptor_fields` — a segment descriptor has all the fields.
* `descriptors_iff` — the TSS descriptor loses the bits 24 to 31 of the base and the upper bits of the limit.
-/

namespace Rayos

open BitFields

/-! ## The code -/

/-- `create_descriptor`. -/
def createDescriptor (base limit : BitVec 32) (flag : BitVec 16) : U64 :=
  let descriptor := (limit &&& 0x000f0000#32).setWidth 64
  let descriptor := descriptor ||| (((flag.setWidth 32) <<< 8) &&& 0x00f0ff00#32).setWidth 64
  let descriptor := descriptor ||| ((base >>> 16) &&& 0x000000ff#32).setWidth 64
  let descriptor := descriptor ||| (base &&& 0xff000000#32).setWidth 64
  let descriptor := descriptor <<< 32
  let descriptor := descriptor ||| (base <<< 16).setWidth 64
  descriptor ||| (limit &&& 0x0000ffff#32).setWidth 64

/-- The word that `gdt_init` stores in slot 5. -/
def gdtTssLow (tssBase : U64) (tssLimit : BitVec 32) : U64 :=
  (tssLimit &&& 0xffff#32).setWidth 64 ||| ((tssBase &&& 0xffffff#64) <<< 16) ||| (0x89#64 <<< 40) |||
    ((tssLimit &&& 0xf0000#32).setWidth 64 <<< 48)

/-- The word in slot 6. -/
def gdtTssHigh (tssBase : U64) : U64 := tssBase >>> 32

/-- `GDT_CODE64_PL0` and the other three. -/
def gdtCode64Pl0 : BitVec 16 := 0xa09a#16

def gdtData64Pl0 : BitVec 16 := 0xc092#16

def gdtCode64Pl3 : BitVec 16 := 0xa0fa#16

def gdtData64Pl3 : BitVec 16 := 0xc0f2#16

/-- `sizeof(struct tss_entry)`. -/
def sizeofTssEntry : BitVec 32 := 104#32

/-- The table that `gdt_init` makes, with the TSS at `tssBase`. -/
def gdtInit (tssBase : U64) : List U64 :=
  [0#64, createDescriptor 0#32 0xfffff#32 gdtCode64Pl0, createDescriptor 0#32 0xfffff#32 gdtData64Pl0,
    createDescriptor 0#32 0xfffff#32 gdtCode64Pl3, createDescriptor 0#32 0xfffff#32 gdtData64Pl3,
    gdtTssLow tssBase (sizeofTssEntry - 1#32), gdtTssHigh tssBase]

/-! ## The layout of a descriptor -/

/-- The base: bits 16 to 39 and 56 to 63. -/
def segBase (d : U64) : BitVec 32 := d.extractLsb' 56 8 ++ d.extractLsb' 16 24

/-- The limit: bits 0 to 15 and 48 to 51. -/
def segLimit (d : U64) : BitVec 20 := d.extractLsb' 48 4 ++ d.extractLsb' 0 16

/-- Type, descriptor type, privilege level and present bit: bits 40 to 47. -/
def segAccess (d : U64) : BitVec 8 := d.extractLsb' 40 8

/-- Available, long mode, size and granularity: bits 52 to 55. -/
def segFlags (d : U64) : BitVec 4 := d.extractLsb' 52 4

/-- The base of a TSS descriptor: that of the low word, and the low half of the high word. -/
def tssBaseOf (low high : U64) : U64 := high.extractLsb' 0 32 ++ segBase low

/-- The fields of a segment descriptor. -/
structure SegmentFields (d : U64) (base : BitVec 32) (limit : BitVec 20) (flag : BitVec 16) : Prop where
  base : segBase d = base
  limit : segLimit d = limit
  access : segAccess d = flag.extractLsb' 0 8
  flags : segFlags d = flag.extractLsb' 12 4

/-- The fields of a descriptor of an available 64-bit TSS. -/
structure TssFields (low high tssBase : U64) (tssLimit : BitVec 20) : Prop where
  base : tssBaseOf low high = tssBase
  limit : segLimit low = tssLimit
  type : segAccess low = 0x89#8

/-! ## What is stored -/

section Segment

variable (base : BitVec 32) (limit : BitVec 20) (flag : BitVec 16)

theorem createDescriptor_base_high :
    (createDescriptor base (limit.setWidth 32) flag).extractLsb' 56 8 = base.extractLsb' 24 8 := by
  unfold createDescriptor
  simp (disch := first | omega | decide) only [BitVec.extractLsb'_or, field_shiftLeft, field_setWidth, field_mask,
    field_masked, field_beyond, BitVec.or_zero, BitVec.zero_or]

/-- The bits 0 to 23 of the base are stored in two pieces. -/
theorem createDescriptor_base_low :
    (createDescriptor base (limit.setWidth 32) flag).extractLsb' 16 24 = base.extractLsb' 0 24 := by
  rw [field_split _ 16 8 16, field_split base 0 8 16]
  unfold createDescriptor
  simp (disch := first | omega | decide) only [BitVec.extractLsb'_or, field_shiftLeft, field_shiftRight, field_setWidth,
    field_mask, field_masked, field_beyond, field_below, BitVec.or_zero, BitVec.zero_or]

theorem createDescriptor_limit_high :
    (createDescriptor base (limit.setWidth 32) flag).extractLsb' 48 4 = limit.extractLsb' 16 4 := by
  unfold createDescriptor
  simp (disch := first | omega | decide) only [BitVec.extractLsb'_or, field_shiftLeft, field_setWidth, field_mask,
    field_masked, field_beyond, BitVec.or_zero]

theorem createDescriptor_limit_low :
    (createDescriptor base (limit.setWidth 32) flag).extractLsb' 0 16 = limit.extractLsb' 0 16 := by
  unfold createDescriptor
  simp (disch := first | omega | decide) only [BitVec.extractLsb'_or, field_below, field_setWidth, field_mask,
    BitVec.zero_or]

end Segment

/-- A segment descriptor has the fields that it is made of. -/
theorem createDescriptor_fields (base : BitVec 32) (limit : BitVec 20) (flag : BitVec 16) :
    SegmentFields (createDescriptor base (limit.setWidth 32) flag) base limit flag := by
  constructor
  · exact eq_append_iff.mpr ⟨createDescriptor_base_high base limit flag, createDescriptor_base_low base limit flag⟩
  · exact eq_append_iff.mpr ⟨createDescriptor_limit_high base limit flag, createDescriptor_limit_low base limit flag⟩
  · unfold segAccess createDescriptor
    simp (disch := first | omega | decide) only [BitVec.extractLsb'_or, field_shiftLeft, field_setWidth, field_mask,
      field_masked, field_beyond, BitVec.or_zero, BitVec.zero_or]
  · unfold segFlags createDescriptor
    simp (disch := first | omega | decide) only [BitVec.extractLsb'_or, field_shiftLeft, field_setWidth, field_mask,
      field_masked, field_beyond, BitVec.or_zero, BitVec.zero_or]

section Tss

variable (tssBase : U64) (tssLimit : BitVec 20)

theorem gdtTssLow_base_low :
    (gdtTssLow tssBase (tssLimit.setWidth 32)).extractLsb' 16 24 = tssBase.extractLsb' 0 24 := by
  unfold gdtTssLow
  simp (disch := first | omega | decide) only [BitVec.extractLsb'_or, field_shiftLeft, field_below, field_setWidth,
    field_mask, field_masked, BitVec.or_zero, BitVec.zero_or]

/-- Nothing is stored in the bits 56 to 63. -/
theorem gdtTssLow_base_high : (gdtTssLow tssBase (tssLimit.setWidth 32)).extractLsb' 56 8 = 0#8 := by
  unfold gdtTssLow
  simp (disch := first | omega | decide) only [BitVec.extractLsb'_or, field_shiftLeft, field_setWidth, field_masked,
    BitVec.or_zero, BitVec.zero_or]
  rfl

theorem gdtTssLow_limit_low :
    (gdtTssLow tssBase (tssLimit.setWidth 32)).extractLsb' 0 16 = tssLimit.extractLsb' 0 16 := by
  unfold gdtTssLow
  simp (disch := first | omega | decide) only [BitVec.extractLsb'_or, field_below, field_setWidth, field_mask,
    BitVec.or_zero]

/-- The upper bits of the limit, shifted by 48 instead of 32, are gone. -/
theorem gdtTssLow_limit_high : (gdtTssLow tssBase (tssLimit.setWidth 32)).extractLsb' 48 4 = 0#4 := by
  unfold gdtTssLow
  simp (disch := first | omega | decide) only [BitVec.extractLsb'_or, field_shiftLeft, field_setWidth, field_masked,
    BitVec.or_zero, BitVec.zero_or]
  rfl

theorem gdtTssLow_type : segAccess (gdtTssLow tssBase (tssLimit.setWidth 32)) = 0x89#8 := by
  unfold segAccess gdtTssLow
  simp (disch := first | omega | decide) only [BitVec.extractLsb'_or, field_shiftLeft, field_below, field_setWidth,
    field_masked, BitVec.or_zero, BitVec.zero_or]
  rfl

theorem gdtTssHigh_base : (gdtTssHigh tssBase).extractLsb' 0 32 = tssBase.extractLsb' 32 32 := by
  apply BitVec.eq_of_getLsbD_eq
  intro i hi
  unfold gdtTssHigh
  simp [hi]

/-- The base that is read back is the one that is stored, if its bits 24 to 31 are zero. -/
theorem tssBaseOf_iff :
    tssBaseOf (gdtTssLow tssBase (tssLimit.setWidth 32)) (gdtTssHigh tssBase) = tssBase ↔
      tssBase.extractLsb' 24 8 = 0#8 := by
  have hLow : segBase (gdtTssLow tssBase (tssLimit.setWidth 32)) = tssBase.extractLsb' 0 32 ↔
      tssBase.extractLsb' 24 8 = 0#8 := by
    unfold segBase
    rw [gdtTssLow_base_low, gdtTssLow_base_high]
    refine eq_append_iff.trans ?_
    have hUpper : (tssBase.extractLsb' 0 32).extractLsb' 24 8 = tssBase.extractLsb' 24 8 := by
      apply BitVec.eq_of_getLsbD_eq
      intro i hi
      interval_cases i <;> simp
    have hLower : (tssBase.extractLsb' 0 32).extractLsb' 0 24 = tssBase.extractLsb' 0 24 := by
      apply BitVec.eq_of_getLsbD_eq
      intro i hi
      interval_cases i <;> simp
    rw [hUpper, hLower]
    exact ⟨fun h => h.1.symm, fun h => ⟨h.symm, rfl⟩⟩
  unfold tssBaseOf
  rw [gdtTssHigh_base]
  refine eq_append_iff.trans ?_
  rw [hLow]
  exact and_iff_right rfl

theorem segLimit_iff :
    segLimit (gdtTssLow tssBase (tssLimit.setWidth 32)) = tssLimit ↔ tssLimit.extractLsb' 16 4 = 0#4 := by
  unfold segLimit
  rw [gdtTssLow_limit_low, gdtTssLow_limit_high]
  refine eq_append_iff.trans ?_
  exact ⟨fun h => h.1.symm, fun h => ⟨h.symm, rfl⟩⟩

end Tss

/-- **Descriptors can be read back** exactly when the bits 24 to 31 of the base of the TSS and the bits 16 to 19 of its
limit are zero; a segment descriptor always can. -/
theorem descriptors_iff (base : BitVec 32) (limit : BitVec 20) (flag : BitVec 16) (tssBase : U64)
    (tssLimit : BitVec 20) :
    (SegmentFields (createDescriptor base (limit.setWidth 32) flag) base limit flag ∧
      TssFields (gdtTssLow tssBase (tssLimit.setWidth 32)) (gdtTssHigh tssBase) tssBase tssLimit) ↔
      tssBase.extractLsb' 24 8 = 0#8 ∧ tssLimit.extractLsb' 16 4 = 0#4 := by
  constructor
  · rintro ⟨-, hTss⟩
    exact ⟨(tssBaseOf_iff tssBase tssLimit).mp hTss.base, (segLimit_iff tssBase tssLimit).mp hTss.limit⟩
  · rintro ⟨hBase, hLimit⟩
    exact ⟨createDescriptor_fields base limit flag, (tssBaseOf_iff tssBase tssLimit).mpr hBase,
      (segLimit_iff tssBase tssLimit).mpr hLimit, gdtTssLow_type tssBase tssLimit⟩

/-- The TSS descriptor of the table that `gdt_init` makes. -/
theorem gdtInit_tss (tssBase : U64) :
    TssFields ((gdtInit tssBase).getD 5 0#64) ((gdtInit tssBase).getD 6 0#64) tssBase 103#20 ↔
      tssBase.extractLsb' 24 8 = 0#8 := by
  have hLow : (gdtInit tssBase).getD 5 0#64 = gdtTssLow tssBase ((103#20).setWidth 32) := rfl
  have hHigh : (gdtInit tssBase).getD 6 0#64 = gdtTssHigh tssBase := rfl
  rw [hLow, hHigh]
  constructor
  · intro hTss
    exact (tssBaseOf_iff tssBase 103#20).mp hTss.base
  · intro hBase
    exact ⟨(tssBaseOf_iff tssBase 103#20).mpr hBase, (segLimit_iff tssBase 103#20).mpr (by decide),
      gdtTssLow_type tssBase 103#20⟩

/-- A TSS at 16 MiB of the kernel's half: the descriptor has the base `0xffff800000000000`. -/
theorem gdt_init_base_lost :
    tssBaseOf (gdtTssLow 0xffff800001000000#64 0x67#32) (gdtTssHigh 0xffff800001000000#64) = 0xffff800000000000#64 ∧
      ¬ TssFields (gdtTssLow 0xffff800001000000#64 ((0x67#20).setWidth 32)) (gdtTssHigh 0xffff800001000000#64)
        0xffff800001000000#64 0x67#20 := by
  refine ⟨by decide, fun hTss => ?_⟩
  exact absurd hTss.base (by decide)

end Rayos
