import Rayos.Mem.HeapUse

/-!
# Enough free frames

`alloc_pages` is first fit, so a free run of frames at the end of memory shrinks by no more than what
is asked for.  `Costs n c x` says that `x` asks for at most `c` frames, whatever memory holds: run on
a machine whose last `c` or more frames are free, no allocation of it fails.
-/

namespace Rayos

open RadixTable Program

variable {n c d : Nat} {α β : Type}

/-- The `n` frames are free from `a` on, and no allocation has failed so far. -/
structure Room (n a : Nat) (s : Machine) : Prop where
  size : s.pageAllocBitmap.size.toNat = n
  small : n < 2 ^ 31
  free : ∀ k, a ≤ k → k < n → s.pageAllocBitmap.bit k = false
  noFail : NoFail s.allocLog

theorem Room.mono {a b : Nat} {s : Machine} (h : Room n a s) (hab : a ≤ b) : Room n b s :=
  ⟨h.size, h.small, fun k hk => h.free k (by omega), h.noFail⟩

/-- Whatever memory holds, the program asks for at most `c` frames. -/
def Costs (n c : Nat) (x : KernelM α) : Prop :=
  ∀ s a, Room n a s → a + c ≤ n → Room n (a + c) (finalState (x s))

namespace Costs

theorem noFail {x : KernelM α} (h : Costs n c x) {s : Machine} {a : Nat} (hRoom : Room n a s)
    (hc : a + c ≤ n) : NoFail (finalState (x s)).allocLog :=
  (h s a hRoom hc).noFail

theorem mono {x : KernelM α} (h : Costs n c x) (hcd : c ≤ d) : Costs n d x :=
  fun s a hRoom hd => (h s a hRoom (by omega)).mono (by omega)

theorem pure (x : α) : Costs n 0 (pure x : KernelM α) := fun _ _ hRoom _ => hRoom

/-- The second part need only be looked at for the values that the first part can return. -/
theorem bind_of {x : KernelM α} {f : α → KernelM β} (P : α → Prop) (hx : Costs n c x)
    (hP : ∀ s v s', x s = .ok v s' → P v) (hf : ∀ v, P v → Costs n d (f v)) :
    Costs n (c + d) (x >>= f) := by
  intro s a hRoom hcd
  have h1 := hx s a hRoom (by omega)
  cases h : x s with
  | ok v s' =>
      rw [h] at h1
      rw [bind_ok h, ← Nat.add_assoc]
      exact hf v (hP s v s' h) s' _ h1 (by omega)
  | error e s' =>
      rw [h] at h1
      rw [bind_error h]
      exact h1.mono (by omega)

theorem bind {x : KernelM α} {f : α → KernelM β} (hx : Costs n c x) (hf : ∀ a, Costs n d (f a)) :
    Costs n (c + d) (x >>= f) :=
  bind_of (fun _ => True) hx (fun _ _ _ _ => trivial) fun v _ => hf v

theorem ite {p : Prop} [Decidable p] {x y : KernelM α} (hx : Costs n c x) (hy : Costs n c y) :
    Costs n c (if p then x else y) := by
  split
  · exact hx
  · exact hy

theorem forUpto {k : Nat} {body : Nat → KernelM Unit} (hBody : ∀ i, Costs n c (body i)) :
    Costs n (k * c) (Program.forUpto k body) := by
  induction k with
  | zero => exact (Costs.pure ()).mono (by omega)
  | succ k ih => exact (Costs.bind ih fun _ => hBody k).mono (by rw [Nat.succ_mul])

/-- Programs that do not use the allocator. -/
theorem of_respects {x : KernelM α}
    (h : Respects (fun s s' => s'.pageAllocBitmap = s.pageAllocBitmap ∧ s'.allocLog = s.allocLog) x) :
    Costs n 0 x := by
  intro s a hRoom _
  obtain ⟨hBmp, hLog⟩ := h s
  exact ⟨by rw [hBmp]; exact hRoom.size, hRoom.small, by rw [hBmp]; exact hRoom.free,
    by rw [hLog]; exact hRoom.noFail⟩

theorem load64 (va : U64) : Costs n 0 (Rayos.load64 va) :=
  of_respects (load64_respects (fun _ => ⟨rfl, rfl⟩) va)

theorem store64 (va v : U64) : Costs n 0 (Rayos.store64 va v) :=
  of_respects (store64_respects (fun _ => ⟨rfl, rfl⟩) (fun _ _ _ _ => ⟨rfl, rfl⟩) va v)

theorem store8 (va : U64) (b : BitVec 8) : Costs n 0 (Rayos.store8 va b) := by
  refine of_respects fun s => ?_
  unfold Rayos.store8
  split <;> exact ⟨rfl, rfl⟩

theorem unmapPageRange (virtaddr len : U64) : Costs n 0 (Rayos.unmapPageRange virtaddr len) :=
  of_respects (unmapPageRangeFrom_respects (fun _ => ⟨rfl, rfl⟩)
    (fun _ _ _ h h' => ⟨h'.1.trans h.1, h'.2.trans h.2⟩) (fun _ _ _ _ => ⟨rfl, rfl⟩) _ _ _)

/-- First fit does not take more of the free run at the end than it needs. -/
theorem allocPages (order : U64) : Costs n (2 ^ order.toNat) (Kernel.allocPages order) := by
  intro s a hRoom hFits
  have hRun : RangeFree s.pageAllocBitmap a (2 ^ order.toNat) :=
    fun k hk hk' => hRoom.free k hk (by omega)
  unfold Kernel.allocPages
  rcases allocPages_cases s.pageAllocBitmap (by rw [hRoom.size]; exact hRoom.small) order
      (by rw [hRoom.size]; omega) with
    ⟨p, pa, bmp, hEq, hPa, hEnd, -, hLeast, hSize, hBits⟩ | ⟨hNone, hEq⟩
  · have hpa : p ≤ a := by
      by_contra hlt
      exact hLeast a (by omega) hRun
    rw [hRoom.size] at hEnd
    have hSmall := hRoom.small
    have hPos : 0 < 2 ^ order.toNat := Nat.pow_pos (by decide)
    simp only [hEq, finalState_ok]
    refine ⟨by simp only [hSize]; exact hRoom.size, hRoom.small, ?_, ?_⟩
    · intro k hk hkn
      simp only [hBits, hRoom.free k (by omega) hkn, Bool.false_or, decide_eq_false_iff_not]
      omega
    · intro b hb
      rcases List.mem_append.mp hb with hb | hb
      · exact hRoom.noFail b hb
      · rw [List.mem_singleton] at hb
        subst hb
        rw [BitVec.toInt_eq_toNat_of_lt (by simp only [hPa]; omega)]
        omega
  · exact absurd hRun (hNone a (by rw [hRoom.size]; exact hFits))

theorem ensureTable (table idx next flags : U64) : Costs n 1 (Rayos.ensureTable table idx next flags) := by
  refine Costs.mono (Costs.bind (d := 1) (load64 _) fun e => ?_) (by omega)
  refine Costs.ite ((Costs.pure _).mono (by decide)) ?_
  exact (Costs.bind (allocPages 0#64) fun pa => Costs.bind (store64 _ _) fun _ =>
    Costs.forUpto fun j => store64 _ _).mono (by simp)

theorem mapPageRangeFrom (virtaddr flags : U64) : ∀ (k : Nat) (i va pa : U64),
    Costs n (3 * k) (Rayos.mapPageRangeFrom virtaddr flags k i va pa) := by
  intro k
  induction k with
  | zero => exact fun i va pa => Costs.pure _
  | succ k ih =>
      intro i va pa
      refine Costs.mono (Costs.bind (ensureTable _ _ _ _) fun _ =>
        Costs.bind (ensureTable _ _ _ _) fun _ => Costs.bind (ensureTable _ _ _ _) fun _ =>
        Costs.bind (d := 3 * k) (load64 _) fun e => ?_) (by omega)
      refine Costs.ite ?_ ?_
      · exact (Costs.bind (unmapPageRange _ _) fun _ => Costs.pure _).mono (by omega)
      · exact (Costs.bind (store64 _ _) fun _ => ih _ _ _).mono (by omega)

theorem mapPageRange (physaddr virtaddr flags len : U64) :
    Costs n (3 * len.toNat) (Rayos.mapPageRange physaddr virtaddr flags len) :=
  mapPageRangeFrom virtaddr flags len.toNat 0#64 virtaddr physaddr

theorem getPhysaddr (va : U64) : Costs n 0 (Rayos.getPhysaddr va) :=
  Costs.bind (load64 _) fun _ => Costs.ite (Costs.pure _) <|
  Costs.bind (load64 _) fun _ => Costs.ite (Costs.pure _) <|
  Costs.bind (load64 _) fun _ => Costs.ite (Costs.pure _) <|
  Costs.bind (load64 _) fun _ => Costs.ite (Costs.pure _) (Costs.pure _)

/-- `kmalloc`: the block and up to three tables for each of its pages. -/
theorem kmalloc (size : U64) :
    Costs n (2 ^ (sizeToOrder size).toNat + 3 * (orderToPages (sizeToOrder size)).toNat)
      (Rayos.kmalloc size) := by
  have hLock : Costs n 0 mmSpinlockLock := of_respects fun s => by
    unfold mmSpinlockLock
    split <;> exact ⟨rfl, rfl⟩
  have hUnlock : Costs n 0 mmSpinlockUnlock := of_respects fun s => ⟨rfl, rfl⟩
  have hArea : ∀ start nrPages, Costs n 0 (vmapAreaAlloc start nrPages) := fun start nrPages =>
    of_respects fun s => by
      unfold vmapAreaAlloc
      split <;> exact ⟨rfl, rfl⟩
  have hMap : Costs n (2 ^ (sizeToOrder size).toNat + 3 * (orderToPages (sizeToOrder size)).toNat)
      (kmemMap (sizeToOrder size)) := by
    refine Costs.bind (allocPages _) fun pa => ?_
    refine Costs.ite ((Costs.pure _).mono (by omega)) ?_
    refine Costs.mono (Costs.bind (d := 0) (mapPageRange _ _ _ _) fun ret => ?_) (by omega)
    exact Costs.ite (Costs.pure _) (Costs.pure _)
  refine Costs.mono (Costs.bind hLock fun _ => ?_) (Nat.zero_add _).le
  refine Costs.ite ((Costs.pure _).mono (Nat.zero_le _)) ?_
  refine Costs.mono (Costs.bind (d := 0) hMap fun va => ?_) (by omega)
  refine Costs.ite (Costs.pure _) ?_
  refine Costs.mono (Costs.bind (d := 0) (hArea _ _) fun vm => ?_) (by omega)
  cases vm with
  | none => exact Costs.pure _
  | some vm => exact Costs.bind hUnlock fun _ => Costs.pure _

/-- `kzalloc` needs what `kmalloc` does. -/
theorem kzalloc (size : U64) :
    Costs n (2 ^ (sizeToOrder size).toNat + 3 * (orderToPages (sizeToOrder size)).toNat)
      (Rayos.kzalloc size) := by
  refine Costs.mono (Costs.bind (d := 0) (kmalloc size) fun ptr => ?_) (by omega)
  refine Costs.ite (Costs.pure _) ?_
  exact (Costs.bind (Costs.forUpto fun i => store8 _ _) fun _ => Costs.pure _).mono (by omega)

end Costs

end Rayos
