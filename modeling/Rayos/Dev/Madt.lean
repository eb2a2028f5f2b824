import Rayos.Lib.LittleEndian
import Rayos.Lib.Scan
import Rayos.Machine.Word

/-!
# The walkers over the MADT (`acpi.c`, `acpi.h`)

The MADT is a header of 44 bytes and then a list of entries of different lengths, each of which begins with
its type and its length.  Three functions walk over it: `acpi_madt_smp_counter` collects the processors, and
`__acpi_find_madt_ioapic_base` and `__acpi_find_gsi_for_irq` look for an entry.

The memory is what lies from the address of the table on; no walker writes to it, and the addresses do not
wrap, because a table lies in the 4 GiB from `KERNEL_BASE` on.

* `Tiled` is the format: entries of at least two bytes that fill the table up to its length.
* `walkEntries_eq` — what the two searching walkers find in such a table.
* `SmpPath` — the entries that `acpi_madt_smp_counter` comes to; it counts the length of the table from the
  end of the header.
-/

namespace Rayos

open LittleEndian

/-- The memory from the address of the table on. -/
abbrev Madt := Nat → BitVec 8

/-- `madt->header.length`. -/
def headerLength (madt : Madt) : Nat := leNat madt 4 4

/-- The offset of `madt->entries`. -/
def madtEntries : Nat := 44

/-- `header.type` of the entry at `ptr`. -/
def entryType (madt : Madt) (ptr : Nat) : Nat := (madt ptr).toNat

/-- `header.length` of the entry at `ptr`. -/
def entryLength (madt : Madt) (ptr : Nat) : Nat := (madt (ptr + 1)).toNat

/-! ## The processors -/

/-- `processor_id` of a `struct acpi_madt_local_apic`. -/
def processorId (madt : Madt) (ptr : Nat) : BitVec 8 := madt (ptr + 2)

/-- `apic_id`. -/
def apicId (madt : Madt) (ptr : Nat) : BitVec 8 := madt (ptr + 3)

/-- The entry is of type 0 and bit 0 of its `flags` is set. -/
def enabledLocalApic (madt : Madt) (ptr : Nat) : Bool :=
  entryType madt ptr = 0 ∧ leNat madt (ptr + 4) 4 % 2 = 1

/-- The variables of `acpi_madt_smp_counter`, and the entries it has come to so far, which no code reads.
`count` stays below `2 ^ 32`, because every round moves on by a byte at least; an id that is stored at an index
from `MAX_CPUS` on goes to memory behind the array. -/
structure SmpCount where
  apIds : Nat → BitVec 32
  count : Nat
  visited : List Nat

/-- The body of the loop. -/
def countEntry (madt : Madt) (acc : SmpCount) (ptr : Nat) : SmpCount :=
  if enabledLocalApic madt ptr then
    { apIds := Function.update acc.apIds acc.count ((processorId madt ptr).setWidth 32)
      count := acc.count + 1
      visited := acc.visited ++ [ptr] }
  else { acc with visited := acc.visited ++ [ptr] }

/-- The loop of `acpi_madt_smp_counter`; `none` is a loop that is still running after this many rounds. -/
def smpCounterLoop (madt : Madt) (stop : Nat) : Nat → Nat → SmpCount → Option SmpCount
  | 0, _, _ => none
  | rounds + 1, ptr, acc =>
      if ptr < stop then
        smpCounterLoop madt stop rounds (ptr + entryLength madt ptr) (countEntry madt acc ptr)
      else some acc

/-- Where `acpi_madt_smp_counter` stops: `end = ptr + madt->header.length`, with `ptr` at the entries. -/
def smpCounterEnd (madt : Madt) : Nat := madtEntries + headerLength madt

/-- `acpi_madt_smp_counter`.  A loop that still runs after a round for each byte has come to an entry of no
length, and never ends. -/
def acpiMadtSmpCounter (madt : Madt) (apIds : Nat → BitVec 32) : Option SmpCount :=
  smpCounterLoop madt (smpCounterEnd madt) (headerLength madt + 1) madtEntries ⟨apIds, 0, []⟩

/-! ## The searches -/

/-- The loop that `__acpi_find_madt_ioapic_base` and `__acpi_find_gsi_for_irq` share, with what they do with an
entry: the result, and the entries that have been looked at. -/
def walkEntries {α : Type} (madt : Madt) (stop : Nat) (found : Nat → Option α) :
    Nat → Nat → List Nat → Option (Option α × List Nat)
  | 0, _, _ => none
  | rounds + 1, ptr, visited =>
      if ptr < stop then
        if entryLength madt ptr < 2 ∨ stop < ptr + entryLength madt ptr then some (none, visited)
        else
          match found ptr with
          | some a => some (some a, visited ++ [ptr])
          | none => walkEntries madt stop found rounds (ptr + entryLength madt ptr) (visited ++ [ptr])
      else some (none, visited)

/-- A walk from the first entry to the end of the table. -/
def walkMadt {α : Type} (madt : Madt) (found : Nat → Option α) : Option (Option α × List Nat) :=
  walkEntries madt (headerLength madt) found (headerLength madt + 1) madtEntries []

/-- `io_apic_addr` of a `struct acpi_madt_io_apic`, which is declared as a pointer: eight bytes. -/
def ioApicAddr (madt : Madt) (ptr : Nat) : U64 := BitVec.ofNat 64 (leNat madt (ptr + 4) 8)

/-- `__acpi_find_madt_ioapic_base`. -/
def acpiFindMadtIoapicBase (madt : Madt) : Option U64 :=
  (walkMadt madt fun ptr => if entryType madt ptr = 1 then some (ioApicAddr madt ptr) else none).map
    fun r => r.1.getD 0#64

/-- `irq_source` of a `struct acpi_madt_iso`. -/
def irqSource (madt : Madt) (ptr : Nat) : BitVec 8 := madt (ptr + 3)

/-- `gsi`. -/
def isoGsi (madt : Madt) (ptr : Nat) : BitVec 32 := BitVec.ofNat 32 (leNat madt (ptr + 4) 4)

/-- `__acpi_find_gsi_for_irq`. -/
def acpiFindGsiForIrq (madt : Madt) (irq : BitVec 8) : Option (BitVec 32) :=
  (walkMadt madt fun ptr =>
    if entryType madt ptr = 2 ∧ irqSource madt ptr = irq then some (isoGsi madt ptr) else none).map
    fun r => r.1.getD (irq.setWidth 32)

/-! ## The format -/

/-- Entries of at least two bytes fill the table from `ptr` to `stop`. -/
inductive Tiled (madt : Madt) (stop : Nat) : Nat → List Nat → Prop
  | done : Tiled madt stop stop []
  | entry {ptr : Nat} {rest : List Nat} (length : 2 ≤ entryLength madt ptr)
      (tail : Tiled madt stop (ptr + entryLength madt ptr) rest) : Tiled madt stop ptr (ptr :: rest)

/-- The entries of a well-formed table. -/
def MadtEntries (madt : Madt) (entries : List Nat) : Prop := Tiled madt (headerLength madt) madtEntries entries

variable {madt : Madt} {stop ptr : Nat} {entries : List Nat}

theorem Tiled.le (h : Tiled madt stop ptr entries) : ptr ≤ stop := by
  induction h with
  | done => exact le_rfl
  | entry hLength _ ih => omega

/-- Every entry lies inside the table. -/
theorem Tiled.inside (h : Tiled madt stop ptr entries) :
    ∀ p ∈ entries, ptr ≤ p ∧ 2 ≤ entryLength madt p ∧ p + entryLength madt p ≤ stop := by
  induction h with
  | done => exact fun p hp => absurd hp List.not_mem_nil
  | @entry ptr rest hLength hTail ih =>
      intro p hp
      rcases List.mem_cons.mp hp with rfl | hIn
      · exact ⟨le_rfl, hLength, hTail.le⟩
      · obtain ⟨hLe, hRest⟩ := ih p hIn
        exact ⟨by omega, hRest⟩

/-! ## What the searches find -/

/-- The entries up to the first one that matches. -/
def lookedAt {α : Type} (found : Nat → Option α) : List Nat → List Nat
  | [] => []
  | p :: rest => if (found p).isSome then [p] else p :: lookedAt found rest

/-- A walk over the entries of a table finds the first match, and looks at nothing behind it. -/
theorem walkEntries_eq {α : Type} {found : Nat → Option α} (h : Tiled madt stop ptr entries) :
    ∀ {rounds : Nat} {visited : List Nat}, stop < ptr + rounds →
      walkEntries madt stop found rounds ptr visited =
        some (entries.findSome? found, visited ++ lookedAt found entries) := by
  induction h with
  | done =>
      intro rounds visited hRounds
      obtain ⟨rounds, rfl⟩ : ∃ r, rounds = r + 1 := ⟨rounds - 1, by omega⟩
      rw [walkEntries, if_neg (lt_irrefl stop), lookedAt, List.append_nil]
      rfl
  | @entry ptr rest hLength hTail ih =>
      intro rounds visited hRounds
      have hLe := hTail.le
      obtain ⟨rounds, rfl⟩ : ∃ r, rounds = r + 1 := ⟨rounds - 1, by omega⟩
      rw [walkEntries, if_pos (by omega), if_neg (by omega), List.findSome?_cons, lookedAt]
      cases hFound : found ptr with
      | some a => rfl
      | none =>
          simp only [Option.isSome_none, Bool.false_eq_true, if_false]
          rw [ih (by omega), List.append_assoc]
          rfl

theorem walkMadt_eq {α : Type} {found : Nat → Option α} (h : MadtEntries madt entries) :
    walkMadt madt found = some (entries.findSome? found, lookedAt found entries) := by
  rw [walkMadt, walkEntries_eq h (by simp only [madtEntries]; omega), List.nil_append]

/-- Without a match every entry is looked at. -/
theorem lookedAt_none {α : Type} (entries : List Nat) : lookedAt (fun _ => (none : Option α)) entries = entries := by
  induction entries with
  | nil => rfl
  | cons p rest ih =>
      rw [lookedAt, ih]
      rfl

/-! ## What the counter comes to -/

/-- The entries that the loop of `acpi_madt_smp_counter` comes to. -/
inductive SmpPath (madt : Madt) (stop : Nat) : Nat → List Nat → Prop
  | done {ptr : Nat} (out : stop ≤ ptr) : SmpPath madt stop ptr []
  | entry {ptr : Nat} {rest : List Nat} (inside : ptr < stop)
      (tail : SmpPath madt stop (ptr + entryLength madt ptr) rest) : SmpPath madt stop ptr (ptr :: rest)

/-- When the loop ends, it has done its body for the entries of its path. -/
theorem smpCounterLoop_path :
    ∀ {rounds ptr : Nat} {acc acc' : SmpCount}, smpCounterLoop madt stop rounds ptr acc = some acc' →
      ∃ path, SmpPath madt stop ptr path ∧ acc' = path.foldl (countEntry madt) acc := by
  intro rounds
  induction rounds with
  | zero =>
      intro ptr acc acc' h
      cases h
  | succ rounds ih =>
      intro ptr acc acc' h
      rw [smpCounterLoop] at h
      split at h
      · rename_i hIn
        obtain ⟨path, hPath, hFold⟩ := ih h
        exact ⟨ptr :: path, .entry hIn hPath, hFold⟩
      · rename_i hOut
        cases h
        exact ⟨[], .done (not_lt.mp hOut), rfl⟩

/-- A path makes the loop end. -/
theorem SmpPath.loop_eq {path : List Nat} (h : SmpPath madt stop ptr path) :
    ∀ {rounds : Nat} (acc : SmpCount), path.length < rounds →
      smpCounterLoop madt stop rounds ptr acc = some (path.foldl (countEntry madt) acc) := by
  induction h with
  | done hOut =>
      intro rounds acc hRounds
      obtain ⟨rounds, rfl⟩ : ∃ r, rounds = r + 1 := ⟨rounds - 1, by omega⟩
      rw [smpCounterLoop, if_neg (not_lt.mpr hOut)]
      rfl
  | entry hIn _ ih =>
      intro rounds acc hRounds
      rw [List.length_cons] at hRounds
      obtain ⟨rounds, rfl⟩ : ∃ r, rounds = r + 1 := ⟨rounds - 1, by omega⟩
      rw [smpCounterLoop, if_pos hIn, ih _ (by omega)]
      rfl

theorem SmpPath.unique {path path' : List Nat} (h : SmpPath madt stop ptr path)
    (h' : SmpPath madt stop ptr path') : path = path' := by
  induction h generalizing path' with
  | done hOut =>
      cases h' with
      | done => rfl
      | entry hIn => omega
  | entry hIn _ ih =>
      cases h' with
      | done hOut => omega
      | entry _ hTail => rw [ih hTail]

/-- The entries of the table come first on the path, and then what follows the table. -/
theorem SmpPath.tiled {stop' : Nat} {path : List Nat} (hTiled : Tiled madt stop ptr entries)
    (hStop : stop ≤ stop') (h : SmpPath madt stop' ptr path) :
    ∃ more, path = entries ++ more ∧ SmpPath madt stop' stop more := by
  induction hTiled generalizing path with
  | done => exact ⟨path, rfl, h⟩
  | @entry ptr rest hLength hTail ih =>
      have hLe := hTail.le
      cases h with
      | done hOut => omega
      | entry hIn hRest =>
          obtain ⟨more, hPath, hMore⟩ := ih hRest
          exact ⟨more, congrArg (ptr :: ·) hPath, hMore⟩

/-- A path goes through a table and then on behind it. -/
theorem SmpPath.of_tiled {stop' : Nat} {more : List Nat} (hTiled : Tiled madt stop ptr entries)
    (hStop : stop ≤ stop') (h : SmpPath madt stop' stop more) : SmpPath madt stop' ptr (entries ++ more) := by
  induction hTiled with
  | done => exact h
  | entry hLength hTail ih =>
      have hLe := hTail.le
      exact .entry (by omega) ih

@[simp] theorem countEntry_visited (acc : SmpCount) (p : Nat) :
    (countEntry madt acc p).visited = acc.visited ++ [p] := by
  rw [countEntry]
  split <;> rfl

theorem foldl_countEntry_visited (path : List Nat) (acc : SmpCount) :
    (path.foldl (countEntry madt) acc).visited = acc.visited ++ path := by
  induction path generalizing acc with
  | nil => exact (List.append_nil _).symm
  | cons p path ih => rw [List.foldl_cons, ih, countEntry_visited, List.append_assoc, List.singleton_append]

/-- The count is the number of the enabled processors on the path. -/
theorem foldl_countEntry_count (path : List Nat) (acc : SmpCount) :
    (path.foldl (countEntry madt) acc).count = acc.count + (path.filter (enabledLocalApic madt)).length := by
  induction path generalizing acc with
  | nil => rfl
  | cons p path ih =>
      rw [List.foldl_cons, ih]
      by_cases hEnabled : enabledLocalApic madt p = true
      · rw [List.filter_cons_of_pos hEnabled, countEntry, if_pos hEnabled, List.length_cons]
        simp only
        omega
      · rw [List.filter_cons_of_neg hEnabled, countEntry, if_neg hEnabled]

/-- Their processor ids are stored one after the other, and the rest of the array is as before. -/
theorem foldl_countEntry_apIds (path : List Nat) (acc : SmpCount) (i : Nat) :
    (path.foldl (countEntry madt) acc).apIds i =
      if i < acc.count then acc.apIds i
      else (((path.filter (enabledLocalApic madt))[i - acc.count]?).map
        fun p => (processorId madt p).setWidth 32).getD (acc.apIds i) := by
  induction path generalizing acc with
  | nil => simp
  | cons p path ih =>
      rw [List.foldl_cons, ih]
      by_cases hEnabled : enabledLocalApic madt p = true
      · rw [List.filter_cons_of_pos hEnabled, countEntry, if_pos hEnabled]
        simp only
        rcases lt_trichotomy i acc.count with hLt | rfl | hGt
        · rw [if_pos (by omega), if_pos hLt, Function.update_of_ne hLt.ne]
        · rw [if_pos (Nat.lt_succ_self _), if_neg (lt_irrefl _), Function.update_self, Nat.sub_self]
          rfl
        · rw [if_neg (by omega), if_neg (by omega), Function.update_of_ne hGt.ne']
          obtain ⟨k, hk⟩ : ∃ k, i - acc.count = k + 1 := ⟨i - acc.count - 1, by omega⟩
          rw [hk, List.getElem?_cons_succ, show i - (acc.count + 1) = k by omega]
      · rw [List.filter_cons_of_neg hEnabled, countEntry, if_neg hEnabled]

/-- A call of `acpi_madt_smp_counter` that returns. -/
theorem acpiMadtSmpCounter_path {apIds : Nat → BitVec 32} {r : SmpCount}
    (h : acpiMadtSmpCounter madt apIds = some r) :
    ∃ path, SmpPath madt (smpCounterEnd madt) madtEntries path ∧ r.visited = path ∧
      r.count = (path.filter (enabledLocalApic madt)).length ∧
      ∀ i, r.apIds i = (((path.filter (enabledLocalApic madt))[i]?).map
        fun p => (processorId madt p).setWidth 32).getD (apIds i) := by
  obtain ⟨path, hPath, rfl⟩ := smpCounterLoop_path h
  refine ⟨path, hPath, ?_, ?_, fun i => ?_⟩
  · rw [foldl_countEntry_visited, List.nil_append]
  · rw [foldl_countEntry_count, Nat.zero_add]
  · rw [foldl_countEntry_apIds, if_neg (Nat.not_lt_zero i), Nat.sub_zero]

end Rayos
