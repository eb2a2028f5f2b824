import Rayos.Dev.Madt

/-!
# What the walkers make of a MADT (`acpi.c`)

* `smpCounter_beyond_table` — `acpi_madt_smp_counter` always goes beyond the table: it adds the length of the
  table to the address of the entries, which is 44 bytes too far.
* `madtSearches_decode` — `__acpi_find_gsi_for_irq` returns what the table says; the address that
  `__acpi_find_madt_ioapic_base` returns has the GSI base in its upper half.
-/

namespace Rayos

open LittleEndian

variable {madt : Madt} {entries : List Nat}

/-! ## The counter beyond the table -/

/-- An entry of no length is on no path that ends. -/
theorem SmpPath.entryLength_pos {stop ptr : Nat} {rest : List Nat} (h : SmpPath madt stop ptr (ptr :: rest)) :
    0 < entryLength madt ptr := by
  by_contra hZero
  cases h with
  | entry hIn hTail =>
      have hSame : SmpPath madt stop ptr rest := by
        rw [Nat.eq_zero_of_not_pos hZero, Nat.add_zero] at hTail
        exact hTail
      have hLength := congrArg List.length (hSame.unique (.entry hIn hTail))
      rw [List.length_cons] at hLength
      omega

theorem SmpPath.length_le {stop ptr : Nat} {path : List Nat} (h : SmpPath madt stop ptr path) :
    path.length ≤ stop - ptr := by
  induction h with
  | done => exact Nat.zero_le _
  | entry hIn hTail ih =>
      have hPos := (SmpPath.entry hIn hTail).entryLength_pos
      rw [List.length_cons]
      omega

/-- `acpi_madt_smp_counter` returns exactly when it has a path. -/
theorem acpiMadtSmpCounter_returns_iff (apIds : Nat → BitVec 32) :
    (∃ r, acpiMadtSmpCounter madt apIds = some r) ↔ ∃ path, SmpPath madt (smpCounterEnd madt) madtEntries path := by
  constructor
  · rintro ⟨r, h⟩
    obtain ⟨path, hPath, -⟩ := acpiMadtSmpCounter_path h
    exact ⟨path, hPath⟩
  · rintro ⟨path, hPath⟩
    have hLe := hPath.length_le
    refine ⟨_, hPath.loop_eq _ ?_⟩
    simp only [smpCounterEnd] at hLe
    omega

/-- The number of the enabled processors of a table. -/
def enabledCount (madt : Madt) (entries : List Nat) : Nat := (entries.filter (enabledLocalApic madt)).length

/-- The two memories hold the same table. -/
def SameTable (madt madt' : Madt) : Prop := ∀ k, k < headerLength madt → madt' k = madt k

/-- `acpi_madt_smp_counter` comes to the entries that the other walkers come to without a match, returns the
number of the enabled processors, and depends on no byte outside the table. -/
structure CounterAgrees (madt : Madt) (entries : List Nat) : Prop where
  visits : ∀ apIds, ∃ r, acpiMadtSmpCounter madt apIds = some r ∧
    walkMadt madt (fun _ => (none : Option Unit)) = some (none, r.visited)
  count : ∀ apIds r, acpiMadtSmpCounter madt apIds = some r → r.count = enabledCount madt entries
  inside : ∀ madt', SameTable madt madt' → ∀ apIds,
    (acpiMadtSmpCounter madt' apIds).map SmpCount.count = (acpiMadtSmpCounter madt apIds).map SmpCount.count

/-- The path of the counter goes through the table and then comes to what follows it. -/
theorem counter_path_beyond (h : MadtEntries madt entries) {path : List Nat}
    (hPath : SmpPath madt (smpCounterEnd madt) madtEntries path) :
    ∃ more, path = entries ++ headerLength madt :: more := by
  obtain ⟨beyond, rfl, hBeyond⟩ := hPath.tiled h (Nat.le_add_left _ _)
  cases hBeyond with
  | done hOut =>
      simp only [madtEntries] at hOut
      omega
  | entry hIn hTail => exact ⟨_, rfl⟩

/-- The table, followed by one enabled processor. -/
def withProcessor (madt : Madt) : Madt := fun k =>
  if k < headerLength madt then madt k
  else if k = headerLength madt + 1 then 44#8
  else if k = headerLength madt + 4 then 1#8
  else 0#8

theorem withProcessor_same (madt : Madt) : SameTable madt (withProcessor madt) :=
  fun _ hk => if_pos hk

theorem SameTable.headerLength {madt' : Madt} (h : SameTable madt madt') (hLong : 8 ≤ headerLength madt) :
    Rayos.headerLength madt' = Rayos.headerLength madt :=
  leNat_congr fun _ hk => h _ (by omega)

/-- The entries of the same table. -/
theorem Tiled.same {madt' : Madt} {stop ptr : Nat} (h : Tiled madt stop ptr entries)
    (hSame : ∀ k, k < stop → madt' k = madt k) : Tiled madt' stop ptr entries := by
  induction h with
  | done => exact .done
  | @entry ptr rest hLength hTail ih =>
      have hLe := hTail.le
      have hEq : entryLength madt' ptr = entryLength madt ptr :=
        congrArg BitVec.toNat (hSame (ptr + 1) (by omega))
      refine .entry (hEq ▸ hLength) ?_
      rw [hEq]
      exact ih

/-- Behind the table the counter may come to one processor more. -/
theorem withProcessor_count (h : MadtEntries madt entries) (apIds : Nat → BitVec 32) :
    ∃ r, acpiMadtSmpCounter (withProcessor madt) apIds = some r ∧
      r.count = enabledCount (withProcessor madt) entries + 1 := by
  have hLong : madtEntries ≤ headerLength madt := h.le
  have hLength : headerLength (withProcessor madt) = headerLength madt :=
    (withProcessor_same madt).headerLength (by simp only [madtEntries] at hLong; omega)
  have hTiled : MadtEntries (withProcessor madt) entries := by
    rw [MadtEntries, hLength]
    exact h.same (withProcessor_same madt)
  -- what follows the table is one entry of 44 bytes
  have hNext : entryLength (withProcessor madt) (headerLength madt) = 44 := by
    simp [entryLength, withProcessor]
  have hEnabled : enabledLocalApic (withProcessor madt) (headerLength madt) = true := by
    have hByte : (withProcessor madt (headerLength madt + 4)).toNat = 1 := by simp [withProcessor]
    have hFlags : leNat (withProcessor madt) (headerLength madt + 4) 4 % 2 = 1 := by
      rw [leNat, hByte]
      omega
    have hType : entryType (withProcessor madt) (headerLength madt) = 0 := by simp [entryType, withProcessor]
    simp [enabledLocalApic, hType, hFlags]
  have hBeyond : SmpPath (withProcessor madt) (smpCounterEnd (withProcessor madt)) (headerLength madt)
      [headerLength madt] := by
    refine .entry ?_ (.done ?_)
    · rw [smpCounterEnd, hLength, madtEntries]
      omega
    · rw [hNext, smpCounterEnd, hLength, madtEntries]
      omega
  have hPath : SmpPath (withProcessor madt) (smpCounterEnd (withProcessor madt)) madtEntries
      (entries ++ [headerLength madt]) := by
    rw [MadtEntries, hLength] at hTiled
    refine hBeyond.of_tiled hTiled ?_
    rw [smpCounterEnd, hLength]
    exact Nat.le_add_left _ _
  obtain ⟨r, hRun⟩ := (acpiMadtSmpCounter_returns_iff apIds).mpr ⟨_, hPath⟩
  obtain ⟨path, hPath', -, hCount, -⟩ := acpiMadtSmpCounter_path hRun
  refine ⟨r, hRun, ?_⟩
  rw [hCount, hPath'.unique hPath, List.filter_append, List.filter_cons_of_pos hEnabled, List.length_append]
  rfl

/-- **The counter and the other walkers never agree.**  For every table whose entries fill it, the counter
comes to what follows the table; its result is the number of the enabled processors of the table exactly when
none of what follows looks like one; and a table can be followed by bytes for which it is not. -/
theorem smpCounter_beyond_table (h : MadtEntries madt entries) :
    ¬ CounterAgrees madt entries ∧
      (∀ apIds r, acpiMadtSmpCounter madt apIds = some r →
        ∃ more, r.visited = entries ++ headerLength madt :: more ∧
          (r.count = enabledCount madt entries ↔
            ∀ p ∈ headerLength madt :: more, enabledLocalApic madt p = false)) ∧
      ∃ madt', SameTable madt madt' ∧ ∀ apIds, ∃ r, acpiMadtSmpCounter madt' apIds = some r ∧
        r.count = enabledCount madt' entries + 1 := by
  refine ⟨fun hAgrees => ?_, fun apIds r hRun => ?_, withProcessor madt, withProcessor_same madt,
    withProcessor_count h⟩
  · obtain ⟨r, hRun, hWalk⟩ := hAgrees.visits fun _ => 0#32
    obtain ⟨path, hPath, hVisited, -⟩ := acpiMadtSmpCounter_path hRun
    obtain ⟨more, hMore⟩ := counter_path_beyond h hPath
    rw [walkMadt_eq h, lookedAt_none, Option.some.injEq, Prod.mk.injEq, hVisited, hMore] at hWalk
    have hLength := congrArg List.length hWalk.2
    rw [List.length_append, List.length_cons] at hLength
    omega
  · obtain ⟨path, hPath, hVisited, hCount, -⟩ := acpiMadtSmpCounter_path hRun
    obtain ⟨more, hMore⟩ := counter_path_beyond h hPath
    refine ⟨more, hVisited.trans hMore, ?_⟩
    rw [hCount, hMore, List.filter_append, List.length_append, enabledCount, Nat.add_eq_left,
      List.length_eq_zero_iff, List.filter_eq_nil_iff]
    simp only [Bool.not_eq_true]

/-- A table with one enabled processor, and behind it bytes that look like a second one. -/
def madtOne : Madt := fun k =>
  if k = 4 then 52#8
  else if k = 45 ∨ k = 53 then 8#8
  else if k = 48 ∨ k = 54 ∨ k = 55 ∨ k = 56 then 1#8
  else if k = 61 then 200#8
  else 0#8

theorem madtOne_entries : MadtEntries madtOne [44] := .entry (by decide) .done

/-- The table has one processor. -/
theorem smpCounter_beyond_table_one :
    ¬ CounterAgrees madtOne [44] := (smpCounter_beyond_table madtOne_entries).1

/-- The counter returns 2. -/
theorem madt_counter_two :
    MadtEntries madtOne [44] ∧ enabledCount madtOne [44] = 1 ∧
      (acpiMadtSmpCounter madtOne fun _ => 0#32).map (fun r => (r.count, r.visited)) = some (2, [44, 52, 60]) ∧
      ¬ CounterAgrees madtOne [44] := by
  have hRun : ∃ r, acpiMadtSmpCounter madtOne (fun _ => 0#32) = some r ∧ r.count = 2 := ⟨_, rfl, by decide⟩
  refine ⟨madtOne_entries, by decide, by decide, fun hAgrees => ?_⟩
  obtain ⟨r, hRun, hTwo⟩ := hRun
  have hOne := hAgrees.count _ r hRun
  rw [hTwo] at hOne
  exact absurd hOne (by decide)

/-! ## The searches -/

theorem findSome?_ite {α : Type} (p : Nat → Prop) [DecidablePred p] (f : Nat → α) (l : List Nat) :
    l.findSome? (fun x => if p x then some (f x) else none) = (l.find? fun x => p x).map f := by
  induction l with
  | nil => rfl
  | cons x l ih =>
      by_cases hx : p x
      · simp [hx]
      · simp [hx, ih]

/-- The 32-bit address of an I/O APIC, which the format has at offset 4. -/
def ioApicAddress (madt : Madt) (ptr : Nat) : Nat := leNat madt (ptr + 4) 4

/-- Its GSI base, at offset 8. -/
def gsiBase (madt : Madt) (ptr : Nat) : Nat := leNat madt (ptr + 8) 4

/-- The first entry of type 1. -/
def firstIoApic (madt : Madt) (entries : List Nat) : Option Nat :=
  entries.find? fun p => entryType madt p = 1

/-- The first entry of type 2 for an interrupt. -/
def firstIso (madt : Madt) (entries : List Nat) (irq : BitVec 8) : Option Nat :=
  entries.find? fun p => entryType madt p = 2 ∧ irqSource madt p = irq

/-- The two searches return what the table says: the address of the first I/O APIC, or 0, and the GSI of the
first override, or the interrupt itself. -/
structure SearchesDecode (madt : Madt) (entries : List Nat) : Prop where
  ioApic : acpiFindMadtIoapicBase madt =
    some (((firstIoApic madt entries).map fun p => BitVec.ofNat 64 (ioApicAddress madt p)).getD 0#64)
  gsi : ∀ irq, acpiFindGsiForIrq madt irq =
    some (((firstIso madt entries irq).map fun p => BitVec.ofNat 32 (leNat madt (p + 4) 4)).getD
      (irq.setWidth 32))

theorem ioApicAddr_toNat (madt : Madt) (p : Nat) :
    (ioApicAddr madt p).toNat = ioApicAddress madt p + 2 ^ 32 * gsiBase madt p := by
  have hLow : ioApicAddress madt p < 256 ^ 4 := leNat_lt madt 4 (p + 4)
  have hHigh : gsiBase madt p < 256 ^ 4 := leNat_lt madt 4 (p + 8)
  have hSplit : leNat madt (p + 4) (4 + 4) = ioApicAddress madt p + 256 ^ 4 * gsiBase madt p :=
    leNat_add madt 4 4 (p + 4)
  rw [ioApicAddr, BitVec.toNat_ofNat, hSplit, Nat.mod_eq_of_lt (by omega)]
  norm_num

theorem acpiFindMadtIoapicBase_eq (h : MadtEntries madt entries) :
    acpiFindMadtIoapicBase madt = some (((firstIoApic madt entries).map (ioApicAddr madt)).getD 0#64) := by
  rw [acpiFindMadtIoapicBase, walkMadt_eq h, findSome?_ite]
  rfl

/-- The I/O APIC base is the address exactly when the GSI base is 0. -/
theorem ioApicAddr_eq_iff (madt : Madt) (p : Nat) :
    ioApicAddr madt p = BitVec.ofNat 64 (ioApicAddress madt p) ↔ gsiBase madt p = 0 := by
  have hLow : ioApicAddress madt p < 256 ^ 4 := leNat_lt madt 4 (p + 4)
  rw [← BitVec.toNat_inj, ioApicAddr_toNat, BitVec.toNat_ofNat, Nat.mod_eq_of_lt (by omega)]
  omega

/-- **Decoding.**  For every table whose entries fill it, the GSI of every interrupt is what the table says,
and the address of the I/O APIC is so exactly when there is none or the GSI base of the first one is 0. -/
theorem madtSearches_decode (h : MadtEntries madt entries) :
    SearchesDecode madt entries ↔ ∀ p, firstIoApic madt entries = some p → gsiBase madt p = 0 := by
  have hGsi : ∀ irq, acpiFindGsiForIrq madt irq =
      some (((firstIso madt entries irq).map fun p => BitVec.ofNat 32 (leNat madt (p + 4) 4)).getD
        (irq.setWidth 32)) := by
    intro irq
    rw [acpiFindGsiForIrq, walkMadt_eq h, findSome?_ite]
    rfl
  have hBase := acpiFindMadtIoapicBase_eq h
  constructor
  · intro hDecode p hp
    have hAddr := hDecode.ioApic
    rw [hBase, hp, Option.some.injEq] at hAddr
    exact (ioApicAddr_eq_iff madt p).mp hAddr
  · intro hZero
    refine ⟨?_, hGsi⟩
    rw [hBase]
    cases hFirst : firstIoApic madt entries with
    | none => rw [Option.map_none, Option.map_none]
    | some p => exact congrArg some ((ioApicAddr_eq_iff madt p).mpr (hZero p hFirst))

/-- A table with an I/O APIC at `0xfec00000` and the given GSI base, and an override of interrupt 0. -/
def madtIoApic (base : BitVec 8) : Madt := fun k =>
  if k = 4 then 66#8
  else if k = 44 then 1#8
  else if k = 45 then 12#8
  else if k = 50 then 0xc0#8
  else if k = 51 then 0xfe#8
  else if k = 52 then base
  else if k = 56 then 2#8
  else if k = 57 then 10#8
  else if k = 60 then 2#8
  else 0#8

theorem madtIoApic_entries (base : BitVec 8) : MadtEntries (madtIoApic base) [44, 56] := by
  have hLength : headerLength (madtIoApic base) = 66 := by
    simp [headerLength, madtIoApic, leNat]
  have hFirst : entryLength (madtIoApic base) madtEntries = 12 := rfl
  have hSecond : entryLength (madtIoApic base) (madtEntries + 12) = 10 := rfl
  rw [MadtEntries, hLength]
  refine .entry (by rw [hFirst]; decide) ?_
  rw [hFirst]
  refine .entry (by rw [hSecond]; decide) ?_
  rw [hSecond]
  exact .done

theorem madtSearches_decode_first : SearchesDecode (madtIoApic 0#8) [44, 56] := by
  refine (madtSearches_decode (madtIoApic_entries 0#8)).mpr fun p hp => ?_
  have hFirst : firstIoApic (madtIoApic 0#8) [44, 56] = some 44 := by decide
  cases hFirst.symm.trans hp
  decide

/-- With the GSI base 24 the address is `0x18fec00000`. -/
theorem madt_ioapic_shifted :
    MadtEntries (madtIoApic 24#8) [44, 56] ∧
      acpiFindMadtIoapicBase (madtIoApic 24#8) = some 0x18fec00000#64 ∧
      ¬ SearchesDecode (madtIoApic 24#8) [44, 56] := by
  have hBase : acpiFindMadtIoapicBase (madtIoApic 24#8) = some 0x18fec00000#64 := by decide
  refine ⟨madtIoApic_entries 24#8, hBase, fun hDecode => ?_⟩
  have hAddr := hDecode.ioApic
  rw [hBase] at hAddr
  revert hAddr
  decide

end Rayos
