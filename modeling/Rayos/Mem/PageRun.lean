import Rayos.Mem.PageAlloc
import Mathlib.Logic.Relation

/-!
# Whole runs of the page allocator

A run starts from the bitmap that `page_init` builds and takes any sequence of `alloc_pages` and
`free_pages` calls, where a release gives back the address and the order of a block that is still
live.  The list of live blocks is a history variable: it is what the callers of the allocator hold,
and no function of the source reads it.

* `PageInv` is the invariant: the live blocks are disjoint runs of frames above the reserved prefix,
  and the set bits of the bitmap are the reserved frames and the frames of the live blocks.
* `pageInv_init` and `pageInv_step` establish and preserve it; `pageInv_of_reachable` is the run.
-/

namespace Rayos

/-- The allocator's bitmap and the blocks its callers hold. -/
structure PageState where
  bitmap : Bitmap
  live : List Block
  deriving DecidableEq

/-- A call of the allocator. -/
inductive PageCall where
  | allocPages (order : U64)
  | freePages (pa order : U64)

/-- One call.  An address that is negative as an `int64_t` is a failure, the test its callers make.
`none` is a call that does not return. -/
def pageStep (s : PageState) : PageCall → Option PageState
  | .allocPages order =>
      match allocPages s.bitmap order with
      | none => none
      | some (pa, bmp) =>
          if pa.toInt < 0 then some ⟨bmp, s.live⟩ else some ⟨bmp, ⟨pa, order⟩ :: s.live⟩
  | .freePages pa order => some ⟨freePages s.bitmap pa order, s.live.erase ⟨pa, order⟩⟩

/-- The calls a run may make: an allocation asks for at most as many frames as there are, a release
gives back a live block. -/
def PageCall.Allowed (s : PageState) : PageCall → Prop
  | .allocPages order => 2 ^ order.toNat ≤ s.bitmap.size.toNat
  | .freePages pa order => ⟨pa, order⟩ ∈ s.live

/-- The state `page_init` leaves. -/
def pageInitState (image : KernelImage) (totalMem : U64) : PageState :=
  ⟨pageInitBitmap image totalMem, []⟩

/-- One allowed call that returns. -/
def PageNext (s s' : PageState) : Prop := ∃ call : PageCall, call.Allowed s ∧ pageStep s call = some s'

/-- The states that runs of allowed calls reach from `s`. -/
abbrev PageReachable : PageState → PageState → Prop := Relation.ReflTransGen PageNext

/-- The frames that `page_init` marks, cut off at the end of memory. -/
def reservedFrames (image : KernelImage) (totalMem : U64) : Nat :=
  min (pageInitBits totalMem).toNat (pageInitUsed image totalMem).toNat

/-! ## The bitmap that `page_init` builds -/

/-- `ALIGN_UP` to pages goes to the *next* page boundary, also from a boundary. -/
theorem alignUp_page_toNat {val : U64} (h : val.toNat + 4096 < 2 ^ 64) :
    (alignUp val pageSize).toNat = (val.toNat / 4096 + 1) * 4096 := by
  unfold alignUp
  rw [show pageSize - 1#64 = 0xfff#64 from rfl, and_not_fff_toNat, BitVec.toNat_add, pageSize,
    BitVec.toNat_ofNat]
  omega

theorem bitmapDataBytes_toNat {bits : U64} (h : bits.toNat < 2 ^ 31) :
    (bitmapDataBytes bits).toNat = (bits.toNat / 8 / 4096 + 1) * 4096 := by
  have hShift : (bits >>> 3).toNat = bits.toNat / 8 := by
    simp [Nat.shiftRight_eq_div_pow]
  unfold bitmapDataBytes
  rw [alignUp_page_toNat (by rw [hShift]; omega), hShift]

theorem pageInitUsed_toNat (image : KernelImage) {totalMem : U64}
    (h : (pageInitBits totalMem).toNat < 2 ^ 31) :
    (pageInitUsed image totalMem).toNat =
      (image.kernelPhysEndAligned.toNat +
        ((pageInitBits totalMem).toNat / 8 / 4096 + 1) * 4096) / 4096 := by
  have hEnd := image.inHalf
  unfold pageInitUsed
  rw [BitVec.toNat_ushiftRight, BitVec.toNat_add, bitmapDataBytes_toNat h, pageShift,
    Nat.shiftRight_eq_div_pow]
  omega

@[simp] theorem pageInitBitmap_size (image : KernelImage) (totalMem : U64) :
    (pageInitBitmap image totalMem).size = pageInitBits totalMem := by
  simp [pageInitBitmap]

theorem pageInitBitmap_bit (image : KernelImage) (totalMem : U64) (k : Nat) :
    (pageInitBitmap image totalMem).bit k = decide (k < reservedFrames image totalMem) := by
  have hUsed := (pageInitUsed image totalMem).isLt
  unfold pageInitBitmap
  rw [bitmapSetRange_bit _ _ _ _ (by simp; omega), bitmapInit_bit, bitmapInit_size,
    Bool.false_or, decide_eq_decide, reservedFrames]
  simp
  omega

/-- The reserved prefix covers the kernel image and the storage of the bitmap itself. -/
theorem lt_reservedFrames_of_kernel (image : KernelImage) {totalMem : U64}
    (hn : (pageInitBits totalMem).toNat < 2 ^ 31) {k : Nat}
    (hk : k < (pageInitBits totalMem).toNat)
    (hkernel : k * 4096 < image.kernelPhysEndAligned.toNat +
      ((pageInitBits totalMem).toNat + 63) / 64 * 8) :
    k < reservedFrames image totalMem := by
  have hAligned := image.aligned
  unfold reservedFrames
  rw [pageInitUsed_toNat image hn]
  omega

/-! ## The invariant -/

/-- What every reachable state of the allocator satisfies, with `n` frames of which the first
`reserved` are not handed out. -/
structure PageInv (n reserved : Nat) (s : PageState) : Prop where
  size : s.bitmap.size.toNat = n
  disjoint : s.live.Pairwise Block.Disjoint
  inside : ∀ b ∈ s.live, reserved ≤ b.frame ∧ b.frame + b.pages ≤ n
  aligned : ∀ b ∈ s.live, b.pa.toNat = b.frame * 4096
  bits : ∀ k, s.bitmap.bit k = true ↔ k < reserved ∨ ∃ b ∈ s.live, b.Has k

theorem pageInv_init (image : KernelImage) (totalMem : U64) :
    PageInv (pageInitBits totalMem).toNat (reservedFrames image totalMem)
      (pageInitState image totalMem) where
  size := by simp [pageInitState]
  disjoint := List.Pairwise.nil
  inside := by simp [pageInitState]
  aligned := by simp [pageInitState]
  bits := by
    intro k
    simp [pageInitState, pageInitBitmap_bit]

/-- An allocated address is not negative as an `int64_t`. -/
theorem toInt_nonneg_of_lt {pa : U64} (h : pa.toNat < 2 ^ 63) : ¬ pa.toInt < 0 := by
  rw [BitVec.toInt_eq_toNat_cond, if_pos (by omega)]
  omega

variable {n reserved : Nat} {s s' : PageState}

/-- What an allocation does to the state: a new disjoint block of clear frames, or nothing. -/
theorem pageStep_alloc_cases (hInv : PageInv n reserved s) (hn : n < 2 ^ 31) {order : U64}
    (hOrder : 2 ^ order.toNat ≤ n) :
    (∃ (pa : U64) (bmp : Bitmap),
        pageStep s (.allocPages order) = some ⟨bmp, ⟨pa, order⟩ :: s.live⟩ ∧
        bmp.size = s.bitmap.size ∧
        Block.frame ⟨pa, order⟩ + Block.pages ⟨pa, order⟩ ≤ n ∧
        pa.toNat = Block.frame ⟨pa, order⟩ * 4096 ∧
        (∀ k, Block.Has ⟨pa, order⟩ k → s.bitmap.bit k = false) ∧
        ∀ k, bmp.bit k = true ↔ s.bitmap.bit k = true ∨ Block.Has ⟨pa, order⟩ k) ∨
      pageStep s (.allocPages order) = some s := by
  rcases allocPages_cases s.bitmap (by rw [hInv.size]; exact hn) order
      (by rw [hInv.size]; exact hOrder) with
    ⟨p, pa, bmp, hEq, hPa, hEnd, hFree, -, hSize, hBits⟩ | ⟨-, hEq⟩
  · left
    rw [hInv.size] at hEnd
    have hFrame : Block.frame ⟨pa, order⟩ = p := by
      simp only [Block.frame, hPa]
      omega
    have hPow : 0 < 2 ^ order.toNat := Nat.pow_pos (by decide)
    refine ⟨pa, bmp, ?_, hSize, ?_, by rw [hFrame]; exact hPa, ?_, ?_⟩
    · simp only [pageStep, hEq]
      rw [if_neg (toInt_nonneg_of_lt (by omega))]
    · rw [hFrame]
      exact hEnd
    · intro k hk
      rw [Block.Has, hFrame] at hk
      exact hFree k hk.1 hk.2
    · intro k
      rw [hBits, Bool.or_eq_true, decide_eq_true_eq, Block.Has, hFrame]
      rfl
  · right
    simp only [pageStep, hEq]
    rw [if_pos (by decide)]

/-- A block disjoint from the others of its list is the only one that has its frames. -/
theorem mem_erase_of_has {live : List Block} (hDisj : live.Pairwise Block.Disjoint) {b c : Block}
    (hb : b ∈ live) (hc : c ∈ live) {k : Nat} (hbk : b.Has k) (hck : c.Has k) : c = b := by
  by_contra hne
  exact hDisj.forall hb hc (Ne.symm hne) k hbk hck

/-- Every allowed call that returns preserves the invariant. -/
theorem pageInv_step (hn : n < 2 ^ 31) (hInv : PageInv n reserved s) (hNext : PageNext s s') :
    PageInv n reserved s' := by
  obtain ⟨call, hAllowed, hStep⟩ := hNext
  cases call with
  | allocPages order =>
      simp only [PageCall.Allowed, hInv.size] at hAllowed
      rcases pageStep_alloc_cases hInv hn hAllowed with
        ⟨pa, bmp, hEq, hSize, hEnd, hPa, hClear, hBits⟩ | hEq
      · rw [hEq, Option.some.injEq] at hStep
        subst hStep
        have hFresh : ∀ b ∈ s.live, Block.Disjoint ⟨pa, order⟩ b := by
          intro b hb k hk hbk
          have hSet := (hInv.bits k).mpr (Or.inr ⟨b, hb, hbk⟩)
          rw [hClear k hk] at hSet
          exact Bool.noConfusion hSet
        refine ⟨by rw [hSize]; exact hInv.size,
          List.pairwise_cons.mpr ⟨hFresh, hInv.disjoint⟩, ?_, ?_, ?_⟩
        · intro b hb
          rcases List.mem_cons.mp hb with rfl | hb
          · refine ⟨?_, hEnd⟩
            by_contra hlt
            have hSet := (hInv.bits _).mpr (Or.inl (Nat.lt_of_not_le hlt))
            rw [hClear _ (Block.has_frame _)] at hSet
            exact Bool.noConfusion hSet
          · exact hInv.inside b hb
        · intro b hb
          rcases List.mem_cons.mp hb with rfl | hb
          · exact hPa
          · exact hInv.aligned b hb
        · intro k
          rw [hBits, hInv.bits, List.exists_mem_cons_iff, or_assoc]
          exact or_congr_right or_comm
      · rw [hEq, Option.some.injEq] at hStep
        subst hStep
        exact hInv
  | freePages pa order =>
      simp only [PageCall.Allowed] at hAllowed
      simp only [pageStep, Option.some.injEq] at hStep
      subst hStep
      have hIn := hInv.inside _ hAllowed
      have hOrder : order.toNat < 31 :=
        order_lt_of_pow_le (show 2 ^ order.toNat ≤ n by
          have := hIn.2
          simp only [Block.pages] at this
          omega) hn
      refine ⟨by rw [freePages_size]; exact hInv.size,
        hInv.disjoint.sublist (List.erase_sublist),
        fun b hb => hInv.inside b (List.mem_of_mem_erase hb),
        fun b hb => hInv.aligned b (List.mem_of_mem_erase hb), ?_⟩
      intro k
      rw [freePages_bit (by omega) (by
        have := hIn.2
        simp only [Block.frame, Block.pages] at this
        omega), Bool.and_eq_true, decide_eq_true_eq, hInv.bits]
      show (k < reserved ∨ ∃ b ∈ s.live, b.Has k) ∧ ¬ Block.Has ⟨pa, order⟩ k ↔ _
      constructor
      · rintro ⟨hk | ⟨b, hb, hbk⟩, hNot⟩
        · exact Or.inl hk
        · refine Or.inr ⟨b, ?_, hbk⟩
          exact (List.mem_erase_of_ne (fun h : b = ⟨pa, order⟩ => hNot (h ▸ hbk))).mpr hb
      · rintro (hk | ⟨b, hb, hbk⟩)
        · exact ⟨Or.inl hk, fun hHas => by
            have := hIn.1
            have := hHas.1
            omega⟩
        · refine ⟨Or.inr ⟨b, List.mem_of_mem_erase hb, hbk⟩, fun hHas => ?_⟩
          have hSame := mem_erase_of_has hInv.disjoint hAllowed (List.mem_of_mem_erase hb) hHas hbk
          subst hSame
          -- a disjoint list holds a nonempty block only once
          have hNodup : s.live.Nodup := by
            apply hInv.disjoint.imp
            intro a c hac hEq
            subst hEq
            exact hac _ a.has_frame a.has_frame
          exact (hNodup.not_mem_erase) hb

/-- The invariant holds in every reachable state. -/
theorem pageInv_of_reachable (image : KernelImage) (totalMem : U64)
    (hn : (pageInitBits totalMem).toNat < 2 ^ 31)
    (hReach : PageReachable (pageInitState image totalMem) s) :
    PageInv (pageInitBits totalMem).toNat (reservedFrames image totalMem) s := by
  induction hReach with
  | refl => exact pageInv_init image totalMem
  | tail _ hNext ih => exact pageInv_step hn ih hNext

/-- **The page allocator over whole runs.**  In every state that a run reaches from the state
`page_init` builds, the live blocks are pairwise disjoint runs of `2 ^ order` frames inside `[0, n)`
that do not meet the reserved prefix, the prefix covers the kernel image and the bitmap's own
storage, and the set bits are the reserved frames and the frames of the live blocks.  Every further
allocation returns, and one that fails changes nothing. -/
theorem pageRun_blocks_exact (image : KernelImage) (totalMem : U64)
    (hn : (pageInitBits totalMem).toNat < 2 ^ 31) (s : PageState)
    (hReach : PageReachable (pageInitState image totalMem) s) :
    s.bitmap.size = pageInitBits totalMem ∧
    s.live.Pairwise Block.Disjoint ∧
    (∀ b ∈ s.live, b.frame + b.pages ≤ (pageInitBits totalMem).toNat ∧
      b.pa.toNat = b.frame * 4096 ∧
      ∀ k, b.Has k → reservedFrames image totalMem ≤ k) ∧
    (∀ k, k < (pageInitBits totalMem).toNat →
      k * 4096 < image.kernelPhysEndAligned.toNat +
        ((pageInitBits totalMem).toNat + 63) / 64 * 8 →
      k < reservedFrames image totalMem) ∧
    (∀ k, bitmapTest s.bitmap k = true ↔
      k.toNat < reservedFrames image totalMem ∨ ∃ b ∈ s.live, b.Has k.toNat) ∧
    (∀ order : U64, 2 ^ order.toNat ≤ (pageInitBits totalMem).toNat →
      ∃ pa bmp, allocPages s.bitmap order = some (pa, bmp) ∧
        (pa.toInt < 0 → bmp = s.bitmap)) := by
  have hInv := pageInv_of_reachable image totalMem hn hReach
  refine ⟨BitVec.eq_of_toNat_eq hInv.size, hInv.disjoint, ?_,
    fun k hk hKernel => lt_reservedFrames_of_kernel image hn hk hKernel, ?_, ?_⟩
  · intro b hb
    have hIn := hInv.inside b hb
    refine ⟨hIn.2, hInv.aligned b hb, fun k hk => ?_⟩
    have := hk.1
    omega
  · intro k
    rw [bitmapTest_eq_bit]
    exact hInv.bits k.toNat
  · intro order hOrder
    rcases allocPages_cases s.bitmap (by rw [hInv.size]; exact hn) order
        (by rw [hInv.size]; exact hOrder) with
      ⟨p, pa, bmp, hEq, hPa, hEnd, -⟩ | ⟨-, hEq⟩
    · refine ⟨pa, bmp, hEq, fun hNeg => absurd hNeg (toInt_nonneg_of_lt ?_)⟩
      have hPow : 0 < 2 ^ order.toNat := Nat.pow_pos (by decide)
      rw [hInv.size] at hEnd
      omega
    · exact ⟨_, _, hEq, fun _ => rfl⟩

/-- A kernel image of one page. -/
def tinyImage : KernelImage := ⟨0x1000#64, by decide, by decide⟩

/-- Nine frames, two of them reserved: an allocation of two frames takes frames 2 and 3. -/
theorem pageRun_blocks_exact_tiny :
    let s : PageState := ⟨bitmapSetRun (pageInitBitmap tinyImage 0x8000#64) 2#64 2,
      [⟨0x2000#64, 1#64⟩]⟩
    (∀ k, bitmapTest s.bitmap k = true ↔
      k.toNat < reservedFrames tinyImage 0x8000#64 ∨ ∃ b ∈ s.live, b.Has k.toNat) := by
  intro s
  have hStep : PageNext (pageInitState tinyImage 0x8000#64) s :=
    ⟨.allocPages 1#64, by simp [PageCall.Allowed, pageInitState]; decide, by decide⟩
  exact (pageRun_blocks_exact tinyImage 0x8000#64 (by decide) s
    (Relation.ReflTransGen.single hStep)).2.2.2.2.1

end Rayos
