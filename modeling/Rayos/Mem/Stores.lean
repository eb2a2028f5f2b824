import Rayos.Mem.Frames

/-!
# Stores to mapped pages

Kernel code also writes to pages of its own: heap memory, the segments of a program, the tables of a
user task.  Such stores leave the kernel's tables alone as long as they hit frames of blocks in use.

* `Wrote D s s'` — between `s` and `s'` only frames in `D` have been stored to.
* `FramesOk.wrote` — stores to blocks in use change neither the tables nor the mapping.
* `StoresIn D s s'` — the same about the history of the stores, for a run of which nothing else is known.
* `copyBytes_ok`, `storeBytes_ok` — the byte loop of `memset` and `memcpy` over pages that are mapped to consecutive
  frames.
-/

namespace Rayos

open RadixTable Program

/-- Between the two states only frames in `D` have been stored to, and nothing else has happened. -/
structure Wrote (D : Nat → Prop) (s s' : Machine) : Prop where
  cr3 : s'.cr3 = s.cr3
  bitmap : s'.pageAllocBitmap = s.pageAllocBitmap
  log : s'.allocLog = s.allocLog
  pool : s'.vmapAreaPool = s.vmapAreaPool
  areas : s'.vmapAreaList = s.vmapAreaList
  lock : s'.mmSpinlock = s.mmSpinlock
  mem : ∀ f, ¬ D f → s'.mem f = s.mem f
  stores : ∃ new, s'.storeLog = s.storeLog ++ new ∧ ∀ f ∈ new, D f

namespace Wrote

variable {D : Nat → Prop} {s t u : Machine}

theorem refl (s : Machine) : Wrote D s s :=
  ⟨rfl, rfl, rfl, rfl, rfl, rfl, fun _ _ => rfl, [], by simp, by simp⟩

theorem trans (h : Wrote D s t) (h' : Wrote D t u) : Wrote D s u where
  cr3 := h'.cr3.trans h.cr3
  bitmap := h'.bitmap.trans h.bitmap
  log := h'.log.trans h.log
  pool := h'.pool.trans h.pool
  areas := h'.areas.trans h.areas
  lock := h'.lock.trans h.lock
  mem := fun f hf => (h'.mem f hf).trans (h.mem f hf)
  stores := by
    obtain ⟨new, hNew, hIn⟩ := h.stores
    obtain ⟨new', hNew', hIn'⟩ := h'.stores
    refine ⟨new ++ new', by rw [hNew', hNew, List.append_assoc], fun f hf => ?_⟩
    rcases List.mem_append.mp hf with hf | hf
    · exact hIn f hf
    · exact hIn' f hf

theorem mono {D' : Nat → Prop} (h : Wrote D s t) (hD : ∀ f, D f → D' f) : Wrote D' s t where
  cr3 := h.cr3
  bitmap := h.bitmap
  log := h.log
  pool := h.pool
  areas := h.areas
  lock := h.lock
  mem := fun f hf => h.mem f fun hDf => hf (hD f hDf)
  stores := by
    obtain ⟨new, hNew, hIn⟩ := h.stores
    exact ⟨new, hNew, fun f hf => hD f (hIn f hf)⟩

theorem write {f : Nat} (s : Machine) (hf : D f) (i : Nat) (v : U64) : Wrote D s (s.write f i v) where
  cr3 := rfl
  bitmap := rfl
  log := rfl
  pool := rfl
  areas := rfl
  lock := rfl
  mem := fun g hg => writeWord_other_frame s.mem i v fun hEq => hg (hEq ▸ hf)
  stores := ⟨[f], rfl, by simpa using hf⟩

theorem root (h : Wrote D s t) : t.root = s.root := by
  simp only [Machine.root, h.cr3]

end Wrote

/-- Stores to blocks in use change neither the tables nor the mapping. -/
theorem FramesOk.wrote {H D : Nat → Prop} {n : Nat} {owned : List Block} {s s' : Machine}
    (h : FramesOk H n owned s) (hWrote : Wrote D s s') (hD : ∀ f, D f → ∃ b ∈ owned, b.Has f) :
    FramesOk H n owned s' ∧ ∀ w, H (pageHead w) → s'.page w = s.page w := by
  refine h.data s' hWrote.cr3 hWrote.bitmap ?_
  intro p f i hp hf _
  rw [hWrote.mem f]
  intro hDf
  obtain ⟨b, hb, hHas⟩ := hD f hDf
  exact h.tableApart p f hp hf b hb hHas

/-- A store of a quadword to a mapped page. -/
theorem store64_page {s : Machine} {va e : U64} (hc : Canonical va)
    (hPage : s.page (vpn va) = some e) (v : U64) :
    store64 va v s = .ok () (s.write (entryFrame e) (va.toNat % 4096 / 8) v) := by
  simp only [store64, mmuWalk_eq_page hc, hPage, Option.map_some]

/-! ## The history of the stores -/

/-- Every store between the two states has gone to a frame in `D`. -/
def StoresIn (D : Nat → Prop) (s s' : Machine) : Prop :=
  ∃ new, s'.storeLog = s.storeLog ++ new ∧ ∀ f ∈ new, D f

/-- The history of the stores only grows. -/
def StoresGrow (s s' : Machine) : Prop := s.storeLog <+: s'.storeLog

theorem StoresGrow.refl (s : Machine) : StoresGrow s s := List.prefix_refl _

theorem StoresGrow.trans (s t u : Machine) (h : StoresGrow s t) (h' : StoresGrow t u) :
    StoresGrow s u :=
  List.IsPrefix.trans h h'

theorem StoresGrow.mem (s : Machine) (f i : Nat) (v : U64) : StoresGrow s (s.write f i v) :=
  List.prefix_append _ _

/-- The stores of a run are those of its two parts. -/
theorem StoresIn.split {D : Nat → Prop} {s t u : Machine} (h : StoresIn D s u)
    (hst : StoresGrow s t) (htu : StoresGrow t u) : StoresIn D s t ∧ StoresIn D t u := by
  obtain ⟨new, hNew, hIn⟩ := h
  obtain ⟨new1, hNew1⟩ := hst
  obtain ⟨new2, hNew2⟩ := htu
  obtain rfl : new = new1 ++ new2 := by
    rw [← hNew2, ← hNew1, List.append_assoc] at hNew
    exact (List.append_cancel_left hNew).symm
  exact ⟨⟨new1, hNew1.symm, fun f hf => hIn f (List.mem_append_left _ hf)⟩,
    ⟨new2, hNew2.symm, fun f hf => hIn f (List.mem_append_right _ hf)⟩⟩

/-- A store that finishes has found its page mapped. -/
theorem store64_eq_ok {s t : Machine} {va v : U64} (h : store64 va v s = .ok () t) :
    ∃ e, s.page (vpn va) = some e ∧ t = s.write (entryFrame e) (va.toNat % 4096 / 8) v := by
  by_cases hc : Canonical va
  · cases hPage : s.page (vpn va) with
    | none => simp [store64, mmuWalk_eq_page hc, hPage] at h
    | some e =>
        rw [store64_page hc hPage] at h
        cases h
        exact ⟨e, rfl, rfl⟩
  · simp [store64, mmuWalk, hc] at h

/-! ## Bytes -/

theorem getByte_setByte_same (w : U64) {k : Nat} (hk : k < 8) (b : BitVec 8) :
    getByte (setByte w k b) k = b := by
  apply BitVec.eq_of_getLsbD_eq
  intro i hi
  simp only [getByte, setByte, BitVec.getLsbD_setWidth, BitVec.getLsbD_ushiftRight,
    BitVec.getLsbD_or, BitVec.getLsbD_and, BitVec.getLsbD_not, BitVec.getLsbD_shiftLeft]
  have hff : (0xff#64).getLsbD i = true := by
    interval_cases i <;> rfl
  have h1 : 8 * k + i < 64 := by omega
  have h2 : i < 64 := by omega
  simp [hi, h1, h2, hff]

theorem getByte_setByte_other (w : U64) {j k : Nat} (hj : j < 8) (hjk : j ≠ k) (b : BitVec 8) :
    getByte (setByte w k b) j = getByte w j := by
  apply BitVec.eq_of_getLsbD_eq
  intro i hi
  simp only [getByte, setByte, BitVec.getLsbD_setWidth, BitVec.getLsbD_ushiftRight,
    BitVec.getLsbD_or, BitVec.getLsbD_and, BitVec.getLsbD_not, BitVec.getLsbD_shiftLeft]
  have hLt : 8 * j + i < 64 := by omega
  by_cases hLow : 8 * j + i < 8 * k
  · simp [hi, hLt, hLow]
  · have hHigh : 8 ≤ 8 * j + i - 8 * k := by omega
    have hff : (0xff#64).getLsbD (8 * j + i - 8 * k) = false := by
      rw [BitVec.getLsbD_ofNat]
      have : Nat.testBit 0xff (8 * j + i - 8 * k) = false :=
        Nat.testBit_lt_two_pow (Nat.lt_of_lt_of_le (by decide)
          (Nat.pow_le_pow_right (by decide) hHigh))
      simp [this]
    have hb : b.getLsbD (8 * j + i - 8 * k) = false := BitVec.getLsbD_of_ge b _ hHigh
    simp [hi, hLt, hLow, hff, hb]

/-- The machine after a store of one byte. -/
def Machine.writeByte (s : Machine) (f off : Nat) (b : BitVec 8) : Machine :=
  s.write f (off / 8) (setByte (s.mem f (off / 8)) (off % 8) b)

theorem byteAt_writeByte (s : Machine) (f off g o : Nat) (b : BitVec 8) :
    byteAt (s.writeByte f off b).mem g o = if g = f ∧ o = off then b else byteAt s.mem g o := by
  have hMem : (s.writeByte f off b).mem =
      writeWord s.mem f (off / 8) (setByte (s.mem f (off / 8)) (off % 8) b) := rfl
  rw [byteAt, byteAt, hMem]
  by_cases hWord : g = f ∧ o / 8 = off / 8
  · obtain ⟨rfl, hDiv⟩ := hWord
    rw [hDiv, writeWord_same]
    by_cases hByte : o = off
    · subst hByte
      rw [getByte_setByte_same _ (Nat.mod_lt _ (by decide)), if_pos ⟨rfl, rfl⟩]
    · rw [getByte_setByte_other _ (Nat.mod_lt _ (by decide)) (by omega), if_neg fun h => hByte h.2]
  · rw [writeWord_other _ _ hWord, if_neg]
    rintro ⟨rfl, rfl⟩
    exact hWord ⟨rfl, rfl⟩

theorem store8_page {s : Machine} {va e : U64} (hc : Canonical va)
    (hPage : s.page (vpn va) = some e) (b : BitVec 8) :
    store8 va b s = .ok () (s.writeByte (entryFrame e) (va.toNat % 4096) b) := by
  simp only [store8, mmuWalk_eq_page hc, hPage, Option.map_some, Machine.writeByte]

/-! ## Runs of bytes -/

/-- `count` bytes from a page boundary lie in one canonical half. -/
def BytesIn (dest : U64) (count : Nat) : Prop :=
  dest.toNat % 4096 = 0 ∧
    (dest.toNat + count ≤ 2 ^ 47 ∨ 2 ^ 64 - 2 ^ 47 ≤ dest.toNat ∧ dest.toNat + count ≤ 2 ^ 64)

theorem BytesIn.toNat {dest : U64} {count i : Nat} (h : BytesIn dest count) (hi : i < count) :
    (dest + BitVec.ofNat 64 i).toNat = dest.toNat + i := by
  obtain ⟨-, hHalf⟩ := h
  rw [BitVec.toNat_add, BitVec.toNat_ofNat]
  omega

theorem BytesIn.canonical {dest : U64} {count i : Nat} (h : BytesIn dest count) (hi : i < count) :
    Canonical (dest + BitVec.ofNat 64 i) := by
  obtain ⟨-, hHalf⟩ := id h
  unfold Canonical
  rw [h.toNat hi]
  omega

theorem BytesIn.vpn {dest : U64} {count i : Nat} (h : BytesIn dest count) (hi : i < count) :
    vpn (dest + BitVec.ofNat 64 i) = Rayos.vpn dest + i / 4096 := by
  obtain ⟨hAligned, hHalf⟩ := id h
  have hLt := dest.isLt
  simp only [Rayos.vpn, h.toNat hi]
  omega

theorem BytesIn.offset {dest : U64} {count i : Nat} (h : BytesIn dest count) (hi : i < count) :
    (dest + BitVec.ofNat 64 i).toNat % 4096 = i % 4096 := by
  obtain ⟨hAligned, -⟩ := id h
  rw [h.toNat hi]
  omega

/-- The frames behind `count` bytes from the start of frame `f0`. -/
def Spans (f0 count f : Nat) : Prop := f0 ≤ f ∧ (f - f0) * 4096 < count

/-- Storing bytes one by one to pages that are mapped to consecutive frames of blocks in use.  Byte `i` is
what `get i` returns, in every state that the stores so far may lead to. -/
theorem copyBytes_ok {H : Nat → Prop} {n : Nat} {owned : List Block} {s : Machine}
    (h : FramesOk H n owned s) (dest : U64) (f0 count : Nat) (get : Nat → KernelM (BitVec 8))
    (val : Nat → BitVec 8)
    (hGet : ∀ i, i < count → ∀ t, Wrote (Spans f0 count) s t → get i t = .ok (val i) t)
    (hIn : BytesIn dest count) (hHead : ∀ k, k * 4096 < count → H (pageHead (vpn dest + k)))
    (hPage : ∀ k, k * 4096 < count →
      ∃ e, s.page (vpn dest + k) = some e ∧ entryFrame e = f0 + k)
    (hOwn : ∀ f, Spans f0 count f → ∃ b ∈ owned, b.Has f) :
    ∃ t, forUpto count (fun i => do
        let b ← get i
        store8 (dest + BitVec.ofNat 64 i) b) s = .ok () t ∧
      Wrote (Spans f0 count) s t ∧
      ∀ g o, o < 4096 → byteAt t.mem g o =
        if f0 ≤ g ∧ (g - f0) * 4096 + o < count then val ((g - f0) * 4096 + o)
        else byteAt s.mem g o := by
  refine forUpto_ok (s := s) (fun i t => Wrote (Spans f0 count) s t ∧
    ∀ g o, o < 4096 → byteAt t.mem g o =
      if f0 ≤ g ∧ (g - f0) * 4096 + o < i then val ((g - f0) * 4096 + o)
      else byteAt s.mem g o) count _ ⟨Wrote.refl s, by simp⟩ ?_
  rintro i hi t ⟨hWrote, hBytes⟩
  -- the mapping has not changed, so byte `i` goes to its own place in the frames
  obtain ⟨e, he, hFrame⟩ := hPage (i / 4096) (by omega)
  have hPage' := (h.wrote hWrote hOwn).2 (vpn dest + i / 4096) (hHead _ (by omega))
  rw [he, ← hIn.vpn hi] at hPage'
  refine ⟨_, (bind_ok (hGet i hi t hWrote)).trans (store8_page (hIn.canonical hi) hPage' (val i)),
    hWrote.trans ?_, ?_⟩
  · refine Wrote.write t ?_ _ _
    rw [hFrame]
    exact ⟨by omega, by omega⟩
  · intro g o ho
    rw [byteAt_writeByte, hFrame, hIn.offset hi, hBytes g o ho]
    by_cases hHere : g = f0 + i / 4096 ∧ o = i % 4096
    · obtain ⟨rfl, rfl⟩ := hHere
      have hEq : (f0 + i / 4096 - f0) * 4096 + i % 4096 = i := by omega
      rw [if_pos ⟨rfl, rfl⟩, hEq, if_pos ⟨by omega, by omega⟩]
    · rw [if_neg hHere]
      by_cases hDone : f0 ≤ g ∧ (g - f0) * 4096 + o < i
      · rw [if_pos hDone, if_pos ⟨hDone.1, by omega⟩]
      · rw [if_neg hDone, if_neg]
        omega

/-- Storing bytes that are known beforehand. -/
theorem storeBytes_ok {H : Nat → Prop} {n : Nat} {owned : List Block} {s : Machine}
    (h : FramesOk H n owned s) (dest : U64) (f0 count : Nat) (val : Nat → BitVec 8)
    (hIn : BytesIn dest count) (hHead : ∀ k, k * 4096 < count → H (pageHead (vpn dest + k)))
    (hPage : ∀ k, k * 4096 < count →
      ∃ e, s.page (vpn dest + k) = some e ∧ entryFrame e = f0 + k)
    (hOwn : ∀ f, Spans f0 count f → ∃ b ∈ owned, b.Has f) :
    ∃ t, forUpto count (fun i => store8 (dest + BitVec.ofNat 64 i) (val i)) s = .ok () t ∧
      Wrote (Spans f0 count) s t ∧
      ∀ g o, o < 4096 → byteAt t.mem g o =
        if f0 ≤ g ∧ (g - f0) * 4096 + o < count then val ((g - f0) * 4096 + o)
        else byteAt s.mem g o :=
  copyBytes_ok h dest f0 count (fun i => pure (val i)) val (fun _ _ _ _ => rfl) hIn hHead hPage hOwn

end Rayos
