import Rayos.Machine.Word

/-!
# The time stamp counter (`tsc.c`)

`tsc_init` finds the frequency of the counter, from `cpuid` or by a calibration, and the three readings divide
the counter by it.  The products are formed in 64 bits.

* `tscRead_iff` — for which values of the counter the readings are those of their units.
-/

namespace Rayos

/-- What `cpuid` stores. -/
structure CpuidRegs where
  eax : BitVec 32
  ebx : BitVec 32
  ecx : BitVec 32
  edx : BitVec 32

/-- The static variables of `tsc.c`. -/
structure Tsc where
  tscFreqHz : U64
  tscFreqKhz : U64
  invariantTscSupported : Bool
  deriving DecidableEq

/-- `tsc_calibrate_lapic`: `t1` and `t2` are the values of the counter before and after 500 ms. -/
def tscCalibrateLapic (t1 t2 : U64) : U64 := (t2 - t1) * 2#64

/-- `tsc_freq_from_cpuid`. -/
def tscFreqFromCpuid (cpuid : BitVec 32 → CpuidRegs) : U64 :=
  let r := cpuid 0x15#32
  if r.eax ≠ 0#32 ∧ r.ebx ≠ 0#32 ∧ r.ecx ≠ 0#32 then
    r.ecx.setWidth 64 * r.ebx.setWidth 64 / r.eax.setWidth 64
  else
    let r := cpuid 0x16#32
    if r.eax ≠ 0#32 then (r.eax &&& 0xffff#32).setWidth 64 * 1000000#64
    else 0#64

/-- `tsc_init`: the result and the static variables, which are zero before it. -/
def tscInit (cpuid : BitVec 32 → CpuidRegs) (t1 t2 : U64) : Int × Tsc :=
  if (cpuid 0x80000007#32).edx &&& (1#32 <<< 8) = 0#32 then (-1, ⟨0#64, 0#64, false⟩)
  else
    let freq := tscFreqFromCpuid cpuid
    let tscFreqHz := if freq = 0#64 then tscCalibrateLapic t1 t2 else freq
    if tscFreqHz = 0#64 then (-1, ⟨0#64, 0#64, true⟩)
    else (0, ⟨tscFreqHz, tscFreqHz / 1000#64, true⟩)

/-- A division of 64 bits; `none` is a division by zero. -/
def divide (a b : U64) : Option U64 := if b = 0#64 then none else some (a / b)

/-- `tsc_read_ns`, when `rdtsc` returns `t`. -/
def tscReadNs (s : Tsc) (t : U64) : Option U64 :=
  if s.invariantTscSupported then divide (t * 1000000000#64) s.tscFreqHz else some 0#64

/-- `tsc_read_us`. -/
def tscReadUs (s : Tsc) (t : U64) : Option U64 :=
  if s.invariantTscSupported then divide t s.tscFreqKhz else some 0#64

/-- `tsc_read_ms`. -/
def tscReadMs (s : Tsc) (t : U64) : Option U64 :=
  if s.invariantTscSupported then divide t (s.tscFreqKhz * 1000#64) else some 0#64

/-! ## What the readings are -/

/-- The number `n`, where 64 bits hold it. -/
def ReadsNat (r : Option U64) (n : Nat) : Prop := n < 2 ^ 64 → r = some (BitVec.ofNat 64 n)

/-- What is asked of the three readings of the value `t` at the frequency `f`. -/
structure ReadsUnits (s : Tsc) (f : Nat) (t : U64) : Prop where
  ns : ReadsNat (tscReadNs s t) (t.toNat * 10 ^ 9 / f)
  us : ReadsNat (tscReadUs s t) (t.toNat * 10 ^ 6 / f)
  ms : ReadsNat (tscReadMs s t) (t.toNat * 10 ^ 3 / f)
  /-- The readings do not go back. -/
  monotone : t.toNat * 10 ^ 9 / f < 2 ^ 64 → ∀ t' : U64, t' ≤ t →
    ∀ read ∈ [tscReadNs s, tscReadUs s, tscReadMs s], ∃ x' x, read t' = some x' ∧ read t = some x ∧ x' ≤ x
  /-- They agree with each other. -/
  agree : t.toNat * 10 ^ 9 / f < 2 ^ 64 → ∃ ns us ms, tscReadNs s t = some ns ∧ tscReadUs s t = some us ∧
    tscReadMs s t = some ms ∧ us.toNat = ns.toNat / 1000 ∧ ms.toNat = us.toNat / 1000

section Readings

variable {s : Tsc} {k : Nat}

/-- The variables after `tsc_init` has found `1000 * k` hertz. -/
structure Runs (s : Tsc) (k : Nat) : Prop where
  supported : s.invariantTscSupported = true
  hz : s.tscFreqHz.toNat = 1000 * k
  khz : s.tscFreqKhz.toNat = k
  pos : 0 < k

theorem divide_eq {a b : U64} (hb : 0 < b.toNat) : ∃ x, divide a b = some x ∧ x.toNat = a.toNat / b.toNat := by
  have hNe : b ≠ 0#64 := by
    rintro rfl
    exact lt_irrefl _ hb
  refine ⟨a / b, if_neg hNe, ?_⟩
  rw [BitVec.toNat_udiv]

theorem Runs.ns (h : Runs s k) (t : U64) :
    ∃ x, tscReadNs s t = some x ∧ x.toNat = t.toNat * 10 ^ 9 % 2 ^ 64 / (1000 * k) := by
  have hPos := h.pos
  obtain ⟨x, hx, hNat⟩ := divide_eq (a := t * 1000000000#64) (b := s.tscFreqHz) (by rw [h.hz]; omega)
  refine ⟨x, ?_, ?_⟩
  · rw [tscReadNs, if_pos h.supported, hx]
  · rw [hNat, h.hz, BitVec.toNat_mul]
    rfl

theorem Runs.us (h : Runs s k) (t : U64) : ∃ x, tscReadUs s t = some x ∧ x.toNat = t.toNat / k := by
  obtain ⟨x, hx, hNat⟩ := divide_eq (a := t) (b := s.tscFreqKhz) (by rw [h.khz]; exact h.pos)
  refine ⟨x, ?_, ?_⟩
  · rw [tscReadUs, if_pos h.supported, hx]
  · rw [hNat, h.khz]

theorem Runs.ms (h : Runs s k) (t : U64) : ∃ x, tscReadMs s t = some x ∧ x.toNat = t.toNat / (1000 * k) := by
  have hPos := h.pos
  have hLt := s.tscFreqHz.isLt
  have hHz := h.hz
  have hMul : (s.tscFreqKhz * 1000#64).toNat = 1000 * k := by
    rw [BitVec.toNat_mul, h.khz, BitVec.toNat_ofNat]
    omega
  obtain ⟨x, hx, hNat⟩ := divide_eq (a := t) (b := s.tscFreqKhz * 1000#64) (by rw [hMul]; omega)
  refine ⟨x, ?_, ?_⟩
  · rw [tscReadMs, if_pos h.supported, hx]
  · rw [hNat, hMul]

/-- A reading that is known, as a number. -/
theorem readsNat_iff {r : Option U64} {x : U64} (hr : r = some x) {n : Nat} :
    ReadsNat r n ↔ (n < 2 ^ 64 → x.toNat = n) := by
  unfold ReadsNat
  rw [hr]
  constructor
  · intro h hn
    have hx := Option.some.inj (h hn)
    rw [hx, BitVec.toNat_ofNat, Nat.mod_eq_of_lt hn]
  · intro h hn
    rw [← h hn, BitVec.ofNat_toNat, BitVec.setWidth_eq]

/-! ## The floors -/

theorem floor_us (t k : Nat) : t * 10 ^ 6 / (1000 * k) = t * 1000 / k := by
  rw [show t * 10 ^ 6 = 1000 * (t * 1000) by ring, Nat.mul_div_mul_left _ _ (by decide)]

theorem floor_ms (t k : Nat) : t * 10 ^ 3 / (1000 * k) = t / k := by
  rw [show t * 10 ^ 3 = 1000 * t by ring, Nat.mul_div_mul_left _ _ (by decide)]

/-- The quotient in the wrong unit is the right one only while both are 0. -/
theorem floor_eq_iff {t k : Nat} (hk : 0 < k) : t / k = t * 1000 / k ↔ t * 1000 < k := by
  constructor
  · intro hEq
    have hLe : t / k * 1000 ≤ t * 1000 / k := by
      rw [Nat.le_div_iff_mul_le hk]
      calc t / k * 1000 * k = t / k * k * 1000 := by ring
        _ ≤ t * 1000 := Nat.mul_le_mul_right _ (Nat.div_mul_le_self t k)
    have hZero : t * 1000 / k = 0 := by omega
    exact (Nat.div_eq_zero_iff_lt hk).mp hZero
  · intro hLt
    rw [Nat.div_eq_of_lt hLt, Nat.div_eq_of_lt (by omega)]

/-- A product that does not fit in 64 bits loses more than the divisor. -/
theorem floor_wrapped {n f : Nat} (hf : 0 < f) (hFits : f < 2 ^ 64) (h : n % 2 ^ 64 / f = n / f) : n < 2 ^ 64 := by
  by_contra hBig
  have hLess : n % 2 ^ 64 + f ≤ n := by omega
  have hDiv := Nat.div_le_div_right (c := f) hLess
  rw [Nat.add_div_right _ hf] at hDiv
  omega

/-- The three readings are right. -/
theorem Runs.reads_iff (h : Runs s k) (t : U64) :
    (ReadsNat (tscReadNs s t) (t.toNat * 10 ^ 9 / (1000 * k)) ∧
      ReadsNat (tscReadUs s t) (t.toNat * 10 ^ 6 / (1000 * k)) ∧
      ReadsNat (tscReadMs s t) (t.toNat * 10 ^ 3 / (1000 * k))) ↔
      t.toNat * 1000 < k ∧ t.toNat * 10 ^ 9 < 2 ^ 64 := by
  have hk := h.pos
  have hLt := t.isLt
  have hHz := s.tscFreqHz.isLt
  rw [h.hz] at hHz
  obtain ⟨ns, hNs, hNsNat⟩ := h.ns t
  obtain ⟨us, hUs, hUsNat⟩ := h.us t
  obtain ⟨ms, hMs, hMsNat⟩ := h.ms t
  rw [readsNat_iff hNs, readsNat_iff hUs, readsNat_iff hMs, floor_us, floor_ms, hNsNat, hUsNat, hMsNat]
  constructor
  · rintro ⟨hOkNs, hOkUs, hOkMs⟩
    have hSmall : t.toNat * 1000 < k := by
      by_cases hFits : t.toNat * 1000 / k < 2 ^ 64
      · exact (floor_eq_iff hk).mp (hOkUs hFits)
      · -- the microseconds do not fit, and the milliseconds are wrong
        have hQuot : t.toNat / k < 2 ^ 64 := lt_of_le_of_lt (Nat.div_le_self _ _) hLt
        have hMsEq := hOkMs hQuot
        rw [Nat.mul_comm, ← Nat.div_div_eq_div_mul] at hMsEq
        have hZero : t.toNat / k = 0 := by omega
        have hBelow := (Nat.div_eq_zero_iff_lt hk).mp hZero
        have hFew : t.toNat * 1000 / k < 1000 := by
          rw [Nat.div_lt_iff_lt_mul hk]
          omega
        omega
    refine ⟨hSmall, ?_⟩
    have hFew : t.toNat * 10 ^ 9 / (1000 * k) < 2 ^ 64 := by
      rw [Nat.div_lt_iff_lt_mul (by omega)]
      linarith
    exact floor_wrapped (by omega) hHz (hOkNs hFew)
  · rintro ⟨hSmall, hFits⟩
    refine ⟨fun _ => by rw [Nat.mod_eq_of_lt hFits], fun _ => (floor_eq_iff hk).mpr hSmall, fun _ => ?_⟩
    rw [Nat.div_eq_of_lt (by omega), Nat.div_eq_of_lt (by omega)]

/-- What the readings are while they are right: microseconds and milliseconds are still 0. -/
theorem Runs.small (h : Runs s k) {t : U64} (hSmall : t.toNat * 1000 < k) (hFits : t.toNat * 10 ^ 9 < 2 ^ 64) :
    ∃ ns, tscReadNs s t = some ns ∧ tscReadUs s t = some 0#64 ∧ tscReadMs s t = some 0#64 ∧
      ns.toNat = t.toNat * 10 ^ 9 / (1000 * k) ∧ ns.toNat < 1000 := by
  obtain ⟨ns, hNs, hNsNat⟩ := h.ns t
  obtain ⟨us, hUs, hUsNat⟩ := h.us t
  obtain ⟨ms, hMs, hMsNat⟩ := h.ms t
  rw [Nat.mod_eq_of_lt hFits] at hNsNat
  rw [Nat.div_eq_of_lt (by omega)] at hUsNat hMsNat
  have hUsZero : us = 0#64 := BitVec.eq_of_toNat_eq (by rw [hUsNat]; rfl)
  have hMsZero : ms = 0#64 := BitVec.eq_of_toNat_eq (by rw [hMsNat]; rfl)
  refine ⟨ns, hNs, by rw [hUs, hUsZero], by rw [hMs, hMsZero], hNsNat, ?_⟩
  rw [hNsNat, Nat.div_lt_iff_lt_mul (by have := h.pos; omega)]
  linarith

theorem Runs.readsUnits_iff (h : Runs s k) (t : U64) :
    ReadsUnits s (1000 * k) t ↔ t.toNat * 1000 < k ∧ t.toNat * 10 ^ 9 < 2 ^ 64 := by
  constructor
  · intro hReads
    exact (h.reads_iff t).mp ⟨hReads.ns, hReads.us, hReads.ms⟩
  · rintro ⟨hSmall, hFits⟩
    obtain ⟨hNs, hUs, hMs⟩ := (h.reads_iff t).mpr ⟨hSmall, hFits⟩
    obtain ⟨ns, hReadNs, hReadUs, hReadMs, hNat, hLt⟩ := h.small hSmall hFits
    refine ⟨hNs, hUs, hMs, fun _ t' hLe read hRead => ?_, fun _ =>
      ⟨ns, 0#64, 0#64, hReadNs, hReadUs, hReadMs, (Nat.div_eq_of_lt hLt).symm, rfl⟩⟩
    have hLe' := BitVec.le_def.mp hLe
    obtain ⟨ns', hReadNs', hReadUs', hReadMs', hNat', -⟩ :=
      h.small (t := t') (by linarith) (by linarith)
    simp only [List.mem_cons, List.not_mem_nil, or_false] at hRead
    rcases hRead with rfl | rfl | rfl
    · refine ⟨ns', ns, hReadNs', hReadNs, ?_⟩
      rw [BitVec.le_def, hNat, hNat']
      exact Nat.div_le_div_right (Nat.mul_le_mul_right _ hLe')
    · exact ⟨0#64, 0#64, hReadUs', hReadUs, BitVec.le_refl _⟩
    · exact ⟨0#64, 0#64, hReadMs', hReadMs, BitVec.le_refl _⟩

end Readings

/-- The static variables after a successful `tsc_init`. -/
theorem tscInit_runs {cpuid : BitVec 32 → CpuidRegs} {t1 t2 : U64} {s : Tsc} (hInit : tscInit cpuid t1 t2 = (0, s))
    (hLow : 1000 ≤ s.tscFreqHz.toNat) (hKhz : 1000 ∣ s.tscFreqHz.toNat) : Runs s (s.tscFreqHz.toNat / 1000) := by
  have hFound : s.tscFreqKhz = s.tscFreqHz / 1000#64 ∧ s.invariantTscSupported = true := by
    unfold tscInit at hInit
    simp only at hInit
    generalize (if tscFreqFromCpuid cpuid = 0#64 then tscCalibrateLapic t1 t2 else tscFreqFromCpuid cpuid) = freq
      at hInit
    by_cases hEdx : (cpuid 0x80000007#32).edx &&& (1#32 <<< 8) = 0#32
    · rw [if_pos hEdx] at hInit
      cases hInit
    rw [if_neg hEdx] at hInit
    by_cases hFreq : freq = 0#64
    · rw [if_pos hFreq] at hInit
      cases hInit
    · rw [if_neg hFreq] at hInit
      cases hInit
      exact ⟨rfl, rfl⟩
  refine ⟨hFound.2, (Nat.mul_div_cancel' hKhz).symm, ?_, by omega⟩
  rw [hFound.1, BitVec.toNat_udiv]
  rfl

/-- **The readings are those of their units** exactly while less than a microsecond has been counted, and the product
with `10 ^ 9` fits in 64 bits: `tsc_read_us` returns milliseconds and `tsc_read_ms` seconds. -/
theorem tscRead_iff {cpuid : BitVec 32 → CpuidRegs} {t1 t2 : U64} {s : Tsc} (hInit : tscInit cpuid t1 t2 = (0, s))
    (hLow : 1000 ≤ s.tscFreqHz.toNat) (hKhz : 1000 ∣ s.tscFreqHz.toNat) (t : U64) :
    ReadsUnits s s.tscFreqHz.toNat t ↔
      t.toNat * 10 ^ 6 < s.tscFreqHz.toNat ∧ t.toNat * 10 ^ 9 < 2 ^ 64 := by
  have hIff := (tscInit_runs hInit hLow hKhz).readsUnits_iff t
  rw [Nat.mul_div_cancel' hKhz] at hIff
  rw [hIff]
  omega

/-- A processor of 3 GHz, by leaf `0x16`. -/
def cpuid3GHz (leaf : BitVec 32) : CpuidRegs :=
  if leaf = 0x16#32 then ⟨3000#32, 0#32, 0#32, 0#32⟩
  else if leaf = 0x80000007#32 then ⟨0#32, 0#32, 0#32, 0x100#32⟩
  else ⟨0#32, 0#32, 0#32, 0#32⟩

/-- The static variables on it. -/
def tsc3GHz : Tsc := ⟨3000000000#64, 3000000#64, true⟩

/-- After 2000 cycles the readings are right. -/
theorem tscRead_iff_3GHz : ReadsUnits tsc3GHz tsc3GHz.tscFreqHz.toNat 2000#64 := by
  have hInit : tscInit cpuid3GHz 0#64 0#64 = (0, tsc3GHz) := by decide
  exact (tscRead_iff hInit (by decide) (by decide) 2000#64).mpr (by decide)

/-- After a second `tsc_read_us` returns 1000. -/
theorem tsc_read_us_second :
    tscInit cpuid3GHz 0#64 0#64 = (0, tsc3GHz) ∧ tscReadUs tsc3GHz 3000000000#64 = some 1000#64 ∧
      ¬ ReadsUnits tsc3GHz tsc3GHz.tscFreqHz.toNat 3000000000#64 := by
  have hRead : tscReadUs tsc3GHz 3000000000#64 = some 1000#64 := by decide
  refine ⟨by decide, hRead, fun hReads => ?_⟩
  have hUs := (readsNat_iff hRead).mp hReads.us (by decide)
  exact absurd hUs (by decide)

end Rayos
