import Rayos.Machine.Word

/-!
# The I/O APIC (`ioapic.c`)

The registers are reached through two words of memory: one selects a register, the other one is its value.  An entry of
the redirection table is two registers, and the device routes an interrupt by whatever they hold at that moment.

* `entry_enable`, `entry_disable` — the table after a call;
* `ioapic_never_torn` — at no moment of a run does an entry route an interrupt that is half old and half new;
* `ioapicInit_table` — the entries that `ioapic_init` masks, which are all but the last one.
-/

namespace Rayos

/-! ## The device -/

/-- The selector and the registers. -/
@[ext]
structure Ioapic where
  ioregsel : BitVec 8
  reg : BitVec 8 → BitVec 32

/-- The device, and the states it has passed through, the last one first. -/
abbrev IoapicBus := StateM (Ioapic × List Ioapic)

/-- A store to the device. -/
def ioapicAccess (f : Ioapic → Ioapic) : IoapicBus Unit := modify fun s => (f s.1, f s.1 :: s.2)

/-- `ioapic_base[0] = reg`. -/
def Ioapic.select (reg : BitVec 8) (d : Ioapic) : Ioapic := { d with ioregsel := reg }

/-- `ioapic_base[4] = val`. -/
def Ioapic.window (val : BitVec 32) (d : Ioapic) : Ioapic := { d with reg := Function.update d.reg d.ioregsel val }

/-! ## The code -/

/-- `ioapic_write`. -/
def ioapicWrite (reg : BitVec 8) (val : BitVec 32) : IoapicBus Unit := do
  ioapicAccess (Ioapic.select reg)
  ioapicAccess (Ioapic.window val)

/-- `ioapic_read`. -/
def ioapicRead (reg : BitVec 8) : IoapicBus (BitVec 32) := do
  ioapicAccess (Ioapic.select reg)
  return (← get).1.reg (← get).1.ioregsel

/-- `IOAPIC_REG_REDTBL + entry * 2`, as a `__u8`. -/
def redtbl (entry : BitVec 8) : BitVec 8 := 0x10#8 + entry * 2#8

/-- `ioapic_rte_read`. -/
def ioapicRteRead (entry : BitVec 8) : IoapicBus U64 := do
  let lo ← ioapicRead (redtbl entry)
  let hi ← ioapicRead (redtbl entry + 1#8)
  return hi.setWidth 64 <<< 32 ||| lo.setWidth 64

/-- `ioapic_rte_write`: the upper word first. -/
def ioapicRteWrite (entry : BitVec 8) (rte : U64) : IoapicBus Unit := do
  ioapicWrite (redtbl entry + 1#8) ((rte >>> 32).setWidth 32)
  ioapicWrite (redtbl entry) (rte.setWidth 32)

/-- `RTE_MASKED`. -/
def rteMasked : U64 := 1#64 <<< 16

/-- The entry of `ioapic_enable_irq`. -/
def rteOf (vector destApicId : BitVec 8) (flags : U64) : U64 :=
  vector.setWidth 64 ||| 0#64 <<< 8 ||| 0#64 <<< 11 ||| flags ||| destApicId.setWidth 64 <<< 56

/-- `ioapic_enable_irq`. -/
def ioapicEnableIrq (irq vector destApicId : BitVec 8) (flags : U64) : IoapicBus Unit :=
  ioapicRteWrite irq (rteOf vector destApicId flags)

/-- `ioapic_disable_irq`. -/
def ioapicDisableIrq (irq : BitVec 8) : IoapicBus Unit := do
  let rte ← ioapicRteRead irq
  ioapicRteWrite irq (rte ||| rteMasked)

/-- `ioapic_init` behind the mapping of the registers: all entries are masked, and the serial port gets its own. -/
def ioapicInit (currLapicId com1Gsi : BitVec 32) : IoapicBus Unit := do
  let ver ← ioapicRead 0x01#8
  let maxEntry := ((ver >>> 16) &&& 0xff#32).setWidth 8
  (List.range maxEntry.toNat).forM fun i => ioapicRteWrite (BitVec.ofNat 8 i) rteMasked
  ioapicEnableIrq (com1Gsi.setWidth 8) 0x24#8 (currLapicId.setWidth 8) 0#64

/-! ## The table -/

/-- An entry of the table. -/
def Ioapic.entry (d : Ioapic) (i : BitVec 8) : U64 :=
  (d.reg (redtbl i + 1#8)).setWidth 64 <<< 32 ||| (d.reg (redtbl i)).setWidth 64

/-- An entry that routes nothing. -/
def RteMasked (rte : U64) : Prop := rte.getLsbD 16 = true

/-- The device after both words of an entry have been written. -/
def Ioapic.write (i : BitVec 8) (rte : U64) (d : Ioapic) : Ioapic where
  ioregsel := redtbl i
  reg := Function.update (Function.update d.reg (redtbl i + 1#8) ((rte >>> 32).setWidth 32)) (redtbl i) (rte.setWidth 32)

/-- The device between the two words: the entry has its new upper word, and is selected at `reg`. -/
def Ioapic.half (i : BitVec 8) (rte : U64) (reg : BitVec 8) (d : Ioapic) : Ioapic where
  ioregsel := reg
  reg := Function.update d.reg (redtbl i + 1#8) ((rte >>> 32).setWidth 32)

theorem ioapicRteWrite_run (i : BitVec 8) (rte : U64) (d : Ioapic) (past : List Ioapic) :
    ioapicRteWrite i rte (d, past) = ((), (d.write i rte, d.write i rte :: d.half i rte (redtbl i) ::
      d.half i rte (redtbl i + 1#8) :: d.select (redtbl i + 1#8) :: past)) := rfl

theorem ioapicRteRead_run (i : BitVec 8) (d : Ioapic) (past : List Ioapic) :
    ioapicRteRead i (d, past) = (d.entry i, (d.select (redtbl i + 1#8),
      d.select (redtbl i + 1#8) :: d.select (redtbl i) :: past)) := rfl

section Entries

variable {i j : BitVec 8} {rte : U64} {d : Ioapic}

theorem redtbl_toNat (hi : i.toNat < 120) : (redtbl i).toNat = 16 + 2 * i.toNat := by
  unfold redtbl
  bv_omega

/-- The registers of two entries. -/
theorem redtbl_inj (hi : i.toNat < 120) (hj : j.toNat < 120) : redtbl i = redtbl j ↔ i = j := by
  rw [← BitVec.toNat_inj, ← BitVec.toNat_inj, redtbl_toNat hi, redtbl_toNat hj]
  omega

theorem redtbl_high_inj (hi : i.toNat < 120) (hj : j.toNat < 120) : redtbl i + 1#8 = redtbl j + 1#8 ↔ i = j := by
  rw [BitVec.add_left_inj, redtbl_inj hi hj]

theorem redtbl_high_ne (hi : i.toNat < 120) (hj : j.toNat < 120) : redtbl i + 1#8 ≠ redtbl j := by
  intro hEq
  have hNat := congrArg BitVec.toNat hEq
  rw [BitVec.toNat_add, redtbl_toNat hi, redtbl_toNat hj, BitVec.toNat_ofNat] at hNat
  omega

/-- A word from its halves. -/
theorem halves (rte : U64) :
    ((rte >>> 32).setWidth 32).setWidth 64 <<< 32 ||| (rte.setWidth 32).setWidth 64 = rte := by
  apply BitVec.eq_of_getLsbD_eq
  intro k hk
  by_cases hLow : k < 32
  · simp [hLow, hk]
  · simp [hLow, hk, show k - 32 < 32 by omega, show 32 + (k - 32) = k by omega]

/-- The mask bit is in the lower word. -/
theorem rteMasked_entry (d : Ioapic) (i : BitVec 8) :
    RteMasked (d.entry i) ↔ (d.reg (redtbl i)).getLsbD 16 = true := by
  unfold RteMasked Ioapic.entry
  simp

theorem entry_write (hi : i.toNat < 120) (hj : j.toNat < 120) :
    (d.write i rte).entry j = if j = i then rte else d.entry j := by
  unfold Ioapic.write Ioapic.entry
  simp only
  by_cases hEq : j = i
  · subst hEq
    rw [if_pos rfl, Function.update_self, Function.update_of_ne (redtbl_high_ne hj hj), Function.update_self]
    exact halves rte
  · have hLow : redtbl j ≠ redtbl i := fun h => hEq ((redtbl_inj hj hi).mp h)
    have hHigh : redtbl j + 1#8 ≠ redtbl i + 1#8 := fun h => hEq ((redtbl_high_inj hj hi).mp h)
    rw [if_neg hEq, Function.update_of_ne hLow, Function.update_of_ne (redtbl_high_ne hj hi),
      Function.update_of_ne hHigh, Function.update_of_ne (redtbl_high_ne hi hj).symm]

theorem entry_select (reg : BitVec 8) : (d.select reg).entry j = d.entry j := rfl

/-- Between the two words the other entries are as before, and the mask bit is. -/
theorem entry_half (hi : i.toNat < 120) (hj : j.toNat < 120) (reg : BitVec 8) :
    (j ≠ i → (d.half i rte reg).entry j = d.entry j) ∧
      (RteMasked ((d.half i rte reg).entry i) ↔ RteMasked (d.entry i)) := by
  constructor
  · intro hEq
    have hHigh : redtbl j + 1#8 ≠ redtbl i + 1#8 := fun h => hEq ((redtbl_high_inj hj hi).mp h)
    unfold Ioapic.half Ioapic.entry
    simp only
    rw [Function.update_of_ne hHigh, Function.update_of_ne (redtbl_high_ne hi hj).symm]
  · rw [rteMasked_entry, rteMasked_entry]
    unfold Ioapic.half
    simp only
    rw [Function.update_of_ne (redtbl_high_ne hi hi).symm]

end Entries

/-! ## Runs -/

/-- A call of the other files. -/
inductive IoapicCall where
  | ioapicEnableIrq (irq vector destApicId : BitVec 8) (flags : U64)
  | ioapicDisableIrq (irq : BitVec 8)
  deriving DecidableEq

/-- The code of a call. -/
def IoapicCall.run : IoapicCall → IoapicBus Unit
  | .ioapicEnableIrq irq vector destApicId flags => Rayos.ioapicEnableIrq irq vector destApicId flags
  | .ioapicDisableIrq irq => Rayos.ioapicDisableIrq irq

/-- Calls, one after the other. -/
def ioapicRun : List IoapicCall → IoapicBus Unit
  | [] => pure ()
  | call :: calls => do
      call.run
      ioapicRun calls

/-- The entry of a call. -/
def IoapicCall.irq : IoapicCall → BitVec 8
  | .ioapicEnableIrq irq _ _ _ => irq
  | .ioapicDisableIrq irq => irq

/-- The value that a call gives to its entry. -/
def IoapicCall.rte : IoapicCall → U64 → U64
  | .ioapicEnableIrq _ vector destApicId flags, _ => rteOf vector destApicId flags
  | .ioapicDisableIrq _, old => old ||| rteMasked

/-- A call that finds an entry of the table, and a masked one if it is to be enabled. -/
def IoapicCall.Allowed (d : Ioapic) : IoapicCall → Prop
  | .ioapicEnableIrq irq _ _ _ => irq.toNat < 120 ∧ RteMasked (d.entry irq)
  | .ioapicDisableIrq irq => irq.toNat < 120

/-- The device after a call. -/
def IoapicCall.after (call : IoapicCall) (d : Ioapic) : Ioapic := d.write call.irq (call.rte (d.entry call.irq))

/-- The device after calls. -/
def ioapicAfter (d : Ioapic) (calls : List IoapicCall) : Ioapic := calls.foldl (fun d call => call.after d) d

/-- Every call of a run is allowed where it is made. -/
def AllAllowed : Ioapic → List IoapicCall → Prop
  | _, [] => True
  | d, call :: calls => call.Allowed d ∧ AllAllowed (call.after d) calls

/-- A whole value: that of the beginning, or that of a call of `ioapic_enable_irq`. -/
def Whole (d : Ioapic) (calls : List IoapicCall) (i : BitVec 8) (rte : U64) : Prop :=
  rte = d.entry i ∨ ∃ vector destApicId flags,
    .ioapicEnableIrq i vector destApicId flags ∈ calls ∧ rte = rteOf vector destApicId flags

/-- The entries of a state route nothing, or by whole values. -/
def NotTorn (d : Ioapic) (calls : List IoapicCall) (d' : Ioapic) : Prop :=
  ∀ i : BitVec 8, i.toNat < 120 → RteMasked (d'.entry i) ∨ Whole d calls i (d'.entry i)

variable {d d' : Ioapic} {calls : List IoapicCall}

theorem IoapicCall.Allowed.lt {call : IoapicCall} (h : call.Allowed d) : call.irq.toNat < 120 := by
  cases call with
  | ioapicEnableIrq irq vector destApicId flags => exact h.1
  | ioapicDisableIrq irq => exact h

/-- The upper word of an entry that is masked is the old one. -/
theorem masked_high (d : Ioapic) (i : BitVec 8) :
    ((d.entry i ||| rteMasked) >>> 32).setWidth 32 = d.reg (redtbl i + 1#8) := by
  apply BitVec.eq_of_getLsbD_eq
  intro k hk
  have hMask : rteMasked.getLsbD (32 + k) = false := by
    unfold rteMasked
    rw [BitVec.getLsbD_shiftLeft]
    simp [show 32 + k - 16 ≠ 0 by omega]
  have hEntry : (d.entry i).getLsbD (32 + k) = (d.reg (redtbl i + 1#8)).getLsbD k := by
    simp [Ioapic.entry, hk, show 32 + k < 64 by omega]
  rw [BitVec.getLsbD_setWidth, BitVec.getLsbD_ushiftRight, BitVec.getLsbD_or, hMask, hEntry, Bool.or_false]
  simp [hk]

/-- The states that a call passes through. -/
theorem call_passes (d : Ioapic) (call : IoapicCall) (past : List Ioapic) :
    ∃ new, call.run (d, past) = ((), (call.after d, new ++ past)) ∧
      ∀ s ∈ new, s = call.after d ∨ (∀ i, s.entry i = d.entry i) ∨
        ∃ reg, s = d.half call.irq (call.rte (d.entry call.irq)) reg := by
  cases call with
  | ioapicEnableIrq irq vector destApicId flags =>
      refine ⟨[_, _, _, _], ioapicRteWrite_run irq (rteOf vector destApicId flags) d past, fun s hs => ?_⟩
      simp only [List.mem_cons, List.not_mem_nil, or_false] at hs
      rcases hs with rfl | rfl | rfl | rfl
      · exact .inl rfl
      · exact .inr (.inr ⟨_, rfl⟩)
      · exact .inr (.inr ⟨_, rfl⟩)
      · exact .inr (.inl fun i => rfl)
  | ioapicDisableIrq irq =>
      refine ⟨[_, _, _, _, _, _], rfl, fun s hs => ?_⟩
      simp only [List.mem_cons, List.not_mem_nil, or_false] at hs
      rcases hs with rfl | rfl | rfl | rfl | rfl | rfl
      · exact .inl rfl
      · exact .inr (.inr ⟨redtbl irq, rfl⟩)
      · exact .inr (.inr ⟨redtbl irq + 1#8, rfl⟩)
      · exact .inr (.inl fun i => rfl)
      · exact .inr (.inl fun i => rfl)
      · exact .inr (.inl fun i => rfl)

/-- In the middle of an allowed call every entry is as before, or masked. -/
theorem half_entry {call : IoapicCall} (h : call.Allowed d) (reg : BitVec 8) {i : BitVec 8} (hi : i.toNat < 120) :
    (d.half call.irq (call.rte (d.entry call.irq)) reg).entry i = d.entry i ∨
      RteMasked ((d.half call.irq (call.rte (d.entry call.irq)) reg).entry i) := by
  have hHalf := fun rte => @entry_half call.irq i rte d h.lt hi reg
  by_cases hEq : i = call.irq
  · cases call with
    | ioapicEnableIrq irq vector destApicId flags =>
        subst hEq
        exact .inr ((hHalf _).2.mpr h.2)
    | ioapicDisableIrq irq =>
        -- the upper word is written with what it holds
        left
        simp only [IoapicCall.irq, IoapicCall.rte, Ioapic.half, masked_high, Function.update_eq_self]
        rfl
  · exact .inl ((hHalf _).1 hEq)

/-- A value given to the entry of a call is whole, or masked. -/
theorem rte_whole (d : Ioapic) (call : IoapicCall) (calls : List IoapicCall) (old : U64) :
    RteMasked (call.rte old) ∨ Whole d (call :: calls) call.irq (call.rte old) := by
  cases call with
  | ioapicEnableIrq irq vector destApicId flags =>
      exact .inr (.inr ⟨vector, destApicId, flags, List.mem_cons_self, rfl⟩)
  | ioapicDisableIrq irq =>
      left
      unfold RteMasked IoapicCall.rte rteMasked
      simp

/-- One call keeps the entries whole, and so do all states that it passes through. -/
theorem call_notTorn {call : IoapicCall} (h : call.Allowed d) {s : Ioapic}
    (hs : s = call.after d ∨ (∀ i, s.entry i = d.entry i) ∨
      ∃ reg, s = d.half call.irq (call.rte (d.entry call.irq)) reg) (calls : List IoapicCall) :
    NotTorn d (call :: calls) s := by
  intro i hi
  rcases hs with rfl | hSame | ⟨reg, rfl⟩
  · rw [IoapicCall.after, entry_write h.lt hi]
    by_cases hEq : i = call.irq
    · subst hEq
      rw [if_pos rfl]
      exact rte_whole d call calls _
    · rw [if_neg hEq]
      exact .inr (.inl rfl)
  · exact .inr (.inl (hSame i))
  · rcases half_entry h reg hi with hSame | hMasked
    · exact .inr (.inl hSame)
    · exact .inl hMasked

/-- Values that are whole behind a call are whole. -/
theorem NotTorn.behind {call : IoapicCall} (h : call.Allowed d) {s : Ioapic} (hs : NotTorn (call.after d) calls s) :
    NotTorn d (call :: calls) s := by
  intro i hi
  rcases hs i hi with hMasked | hOld | ⟨vector, destApicId, flags, hIn, hEq⟩
  · exact .inl hMasked
  · rw [hOld]
    exact call_notTorn h (.inl rfl) calls i hi
  · exact .inr (.inr ⟨vector, destApicId, flags, List.mem_cons_of_mem call hIn, hEq⟩)

/-- **No torn entries.**  In a run of calls that find their entries in the table, and those of `ioapic_enable_irq`
masked, the device ends with the values that the calls have given to the entries.  At every moment in between, also
between the two words of an entry, an entry routes nothing, or by a whole value: the one of the beginning or the one of
a call, with vector and destination from the same. -/
theorem ioapic_never_torn (hAllowed : AllAllowed d calls) :
    ∃ passed, ioapicRun calls (d, []) = ((), (ioapicAfter d calls, passed)) ∧ ∀ s ∈ passed, NotTorn d calls s := by
  have hRun : ∀ past, ∃ new, ioapicRun calls (d, past) = ((), (ioapicAfter d calls, new ++ past)) ∧
      ∀ s ∈ new, NotTorn d calls s := by
    induction calls generalizing d with
    | nil => exact fun past => ⟨[], rfl, by simp⟩
    | cons call calls ih =>
        intro past
        obtain ⟨hCall, hRest⟩ := hAllowed
        obtain ⟨first, hFirst, hPassed⟩ := call_passes d call past
        obtain ⟨rest, hRestRun, hRestPassed⟩ := ih hRest (first ++ past)
        refine ⟨rest ++ first, ?_, fun s hs => ?_⟩
        · rw [ioapicRun]
          show ioapicRun calls (call.run (d, past)).2 = _
          rw [hFirst, hRestRun, List.append_assoc]
          rfl
        · rcases List.mem_append.mp hs with hs | hs
          · exact (hRestPassed s hs).behind hCall
          · exact call_notTorn hCall (hPassed s hs) calls
  obtain ⟨new, hEnd, hPassed⟩ := hRun []
  rw [List.append_nil] at hEnd
  exact ⟨new, hEnd, hPassed⟩

/-- The serial port is enabled, disabled, and goes to another CPU. -/
theorem ioapic_never_torn_serial : ∃ passed, ioapicRun [.ioapicEnableIrq 4#8 0x24#8 0#8 0#64, .ioapicDisableIrq 4#8,
    .ioapicEnableIrq 4#8 0x24#8 1#8 0#64] (⟨0#8, fun _ => 0x10000#32⟩, []) =
      ((), (ioapicAfter ⟨0#8, fun _ => 0x10000#32⟩ [.ioapicEnableIrq 4#8 0x24#8 0#8 0#64, .ioapicDisableIrq 4#8,
        .ioapicEnableIrq 4#8 0x24#8 1#8 0#64], passed)) := by
  obtain ⟨passed, hRun, -⟩ := @ioapic_never_torn ⟨0#8, fun _ => 0x10000#32⟩ [.ioapicEnableIrq 4#8 0x24#8 0#8 0#64,
    .ioapicDisableIrq 4#8, .ioapicEnableIrq 4#8 0x24#8 1#8 0#64]
    ⟨⟨by decide, rfl⟩, show 4 < 120 by decide, ⟨by decide, rfl⟩, trivial⟩
  exact ⟨passed, hRun⟩

/-! ## `ioapic_init` -/

/-- The number of the last entry, as the version register has it. -/
def Ioapic.maxEntry (d : Ioapic) : Nat := (((d.reg 0x01#8 >>> 16) &&& 0xff#32).setWidth 8).toNat

/-- The loop that masks entries. -/
theorem maskAll_run (n : Nat) (d : Ioapic) (past : List Ioapic) :
    ∃ passed, (List.range n).forM (fun i => ioapicRteWrite (BitVec.ofNat 8 i) rteMasked) (d, past) =
      ((), ((List.range n).foldl (fun d i => d.write (BitVec.ofNat 8 i) rteMasked) d, passed)) := by
  have hLoop : ∀ (l : List Nat) (d : Ioapic) (past : List Ioapic),
      ∃ passed, l.forM (fun i => ioapicRteWrite (BitVec.ofNat 8 i) rteMasked) (d, past) =
        ((), (l.foldl (fun d i => d.write (BitVec.ofNat 8 i) rteMasked) d, passed)) := by
    intro l
    induction l with
    | nil => exact fun d past => ⟨past, rfl⟩
    | cons i l ih => exact fun d past => ih _ _
  exact hLoop (List.range n) d past

theorem maskAll_entry {n : Nat} (hn : n ≤ 120) {j : BitVec 8} (hj : j.toNat < 120) :
    ((List.range n).foldl (fun d i => d.write (BitVec.ofNat 8 i) rteMasked) d).entry j =
      if j.toNat < n then rteMasked else d.entry j := by
  induction n with
  | zero => rfl
  | succ n ih =>
      have hByte : (BitVec.ofNat 8 n).toNat = n := by
        rw [BitVec.toNat_ofNat, Nat.mod_eq_of_lt (by omega)]
      have hEq : j = BitVec.ofNat 8 n ↔ j.toNat = n := by
        rw [← BitVec.toNat_inj, hByte]
      rw [List.range_succ, List.foldl_append, List.foldl_cons, List.foldl_nil,
        entry_write (by rw [hByte]; omega) hj, ih (by omega)]
      simp only [hEq]
      split_ifs <;> first | rfl | omega

/-- **The table after `ioapic_init`.**  The entry of the serial port goes to this CPU.  All others are masked but for
the last one, which keeps what the firmware has left there: the version register has its number, and the loop takes it
for the number of entries. -/
theorem ioapicInit_table (currLapicId com1Gsi : BitVec 32) (hMax : d.maxEntry < 120)
    (hGsi : (com1Gsi.setWidth 8).toNat < 120) :
    ∃ d' passed, ioapicInit currLapicId com1Gsi (d, []) = ((), (d', passed)) ∧ ∀ j : BitVec 8, j.toNat < 120 →
      d'.entry j = if j = com1Gsi.setWidth 8 then rteOf 0x24#8 (currLapicId.setWidth 8) 0#64
        else if j.toNat < d.maxEntry then rteMasked else d.entry j := by
  obtain ⟨passed, hLoop⟩ := maskAll_run d.maxEntry (d.select 0x01#8) [d.select 0x01#8]
  have hInit : ioapicInit currLapicId com1Gsi (d, []) =
      ioapicRteWrite (com1Gsi.setWidth 8) (rteOf 0x24#8 (currLapicId.setWidth 8) 0#64)
        ((List.range d.maxEntry).forM (fun i => ioapicRteWrite (BitVec.ofNat 8 i) rteMasked)
          (d.select 0x01#8, [d.select 0x01#8])).2 := rfl
  rw [hLoop, ioapicRteWrite_run] at hInit
  refine ⟨_, _, hInit, fun j hj => ?_⟩
  rw [entry_write hGsi hj, maskAll_entry (by omega) hj, entry_select]

/-- A device with 24 entries; the last one is left alone. -/
theorem ioapicInit_table_last : ∃ d' passed,
    ioapicInit 0#32 4#32 (⟨0#8, fun reg => if reg = 0x01#8 then 0x170020#32 else 0xff#32⟩, []) = ((), (d', passed)) ∧
      d'.entry 22#8 = rteMasked ∧ d'.entry 23#8 = 0xff000000ff#64 := by
  obtain ⟨d', passed, hRun, hTable⟩ := ioapicInit_table
    (d := ⟨0#8, fun reg => if reg = 0x01#8 then 0x170020#32 else 0xff#32⟩) 0#32 4#32 (by decide) (by decide)
  exact ⟨d', passed, hRun, hTable 22#8 (by decide), hTable 23#8 (by decide)⟩

end Rayos
