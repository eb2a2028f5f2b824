import Mathlib.Tactic
import Mathlib.Order.CompletePartialOrder

/-!
# Words saved on a stack

A stack grows downwards in a memory of 64-bit words.  An address denotes a cell of the memory, or none; two addresses
may denote the same cell, and one address different cells under two translations.  `pushes` stores words below the
stack pointer, and `pops` loads them into a file of registers.

* `Holds` — words that stand at the stack pointer and above it, in given cells;
* `Vacant` — cells below the stack pointer, no two of them the same;
* `pushes_ok` — what is pushed stands above the words that are pushed later, and nothing else is changed;
* `pops_ok` — words that stand on the stack go to the registers in the order of the list.
-/

namespace SavedFrame

/-- Addresses and words. -/
abbrev Word := BitVec 64

variable {A S : Type}

section Words

variable (tr : Word → Option A) (m : A → Word)

/-- The word at an address. -/
def load (a : Word) : Option Word := (tr a).map m

/-- The memory with a word stored. -/
def store [DecidableEq A] (a v : Word) : Option (A → Word) := (tr a).map fun c => Function.update m c v

/-- The words `vs` stand at `sp` and above it, in cells of `keep`. -/
def Holds (keep : Set A) : Word → List Word → Prop
  | _, [] => True
  | sp, v :: vs => (∃ c, tr sp = some c ∧ c ∈ keep ∧ m c = v) ∧ Holds keep (sp + 8#64) vs

/-- There are `n` cells of `own` below `sp`, no two of them the same. -/
def Vacant (own : Set A) : Nat → Word → Prop
  | 0, _ => True
  | n + 1, sp => ∃ c, tr (sp - 8#64) = some c ∧ c ∈ own ∧ Vacant (own \ {c}) n (sp - 8#64)

end Words

variable {tr tr' : Word → Option A} {m m' : A → Word} {keep keep' own : Set A} {sp : Word} {vs ws : List Word}

/-- The address `n` words above `sp`. -/
def above (sp : Word) (n : Nat) : Word := sp + BitVec.ofNat 64 (8 * n)

@[simp] theorem above_zero (sp : Word) : above sp 0 = sp := by
  rw [above, Nat.mul_zero]
  exact BitVec.add_zero sp

theorem above_succ (sp : Word) (n : Nat) : above (sp + 8#64) n = above sp (n + 1) := by
  unfold above
  rw [Nat.mul_succ, Nat.add_comm (8 * n), BitVec.ofNat_add, ← BitVec.add_assoc]

/-- The address `n` words below `sp`. -/
def below (sp : Word) (n : Nat) : Word := sp - BitVec.ofNat 64 (8 * n)

theorem below_succ (sp : Word) (n : Nat) : below (sp - 8#64) n = below sp (n + 1) := by
  unfold below
  rw [Nat.mul_succ, Nat.add_comm (8 * n), BitVec.ofNat_add, BitVec.sub_eq_add_neg, BitVec.sub_eq_add_neg,
    BitVec.sub_eq_add_neg, BitVec.neg_add, BitVec.sub_eq_add_neg, BitVec.add_assoc]

theorem above_add (sp : Word) (n k : Nat) : above (above sp n) k = above sp (n + k) := by
  unfold above
  rw [Nat.mul_add, BitVec.ofNat_add, BitVec.add_assoc]

theorem above_add_word (sp : Word) (n : Nat) : above sp n + 8#64 = above sp (n + 1) := by
  rw [← above_add sp n 1]
  rfl

/-! ## Words above the stack pointer -/

theorem Holds.mono (h : Holds tr m keep sp vs) (hKeep : keep ⊆ keep') : Holds tr m keep' sp vs := by
  induction vs generalizing sp with
  | nil => trivial
  | cons v vs ih =>
      obtain ⟨⟨c, hc, hIn, hv⟩, hRest⟩ := h
      exact ⟨⟨c, hc, hKeep hIn, hv⟩, ih hRest⟩

/-- Only the cells matter. -/
theorem Holds.congr (h : Holds tr m keep sp vs) (hMem : ∀ c ∈ keep, m' c = m c) : Holds tr m' keep sp vs := by
  induction vs generalizing sp with
  | nil => trivial
  | cons v vs ih =>
      obtain ⟨⟨c, hc, hIn, hv⟩, hRest⟩ := h
      exact ⟨⟨c, hc, hIn, (hMem c hIn).trans hv⟩, ih hRest⟩

/-- Another translation that agrees on the words. -/
theorem Holds.translate (h : Holds tr m keep sp vs)
    (hTr : ∀ i, i < vs.length → tr' (above sp i) = tr (above sp i)) : Holds tr' m keep sp vs := by
  induction vs generalizing sp with
  | nil => trivial
  | cons v vs ih =>
      obtain ⟨⟨c, hc, hIn, hv⟩, hRest⟩ := h
      have hHead := hTr 0 (Nat.zero_lt_succ _)
      rw [above_zero] at hHead
      refine ⟨⟨c, hHead.trans hc, hIn, hv⟩, ih hRest fun i hi => ?_⟩
      rw [above_succ]
      exact hTr (i + 1) (Nat.succ_lt_succ hi)

theorem holds_append :
    Holds tr m keep sp (vs ++ ws) ↔ Holds tr m keep sp vs ∧ Holds tr m keep (above sp vs.length) ws := by
  induction vs generalizing sp with
  | nil => simp [Holds]
  | cons v vs ih => rw [List.cons_append, Holds, Holds, ih, above_succ, List.length_cons, and_assoc]

theorem Holds.load_head {v : Word} (h : Holds tr m keep sp (v :: vs)) : load tr m sp = some v := by
  obtain ⟨⟨c, hc, -, hv⟩, -⟩ := h
  rw [load, hc, Option.map_some, hv]

/-- The words by their places. -/
theorem holds_iff :
    Holds tr m keep sp vs ↔ ∀ i (hi : i < vs.length), ∃ c, tr (above sp i) = some c ∧ c ∈ keep ∧ m c = vs[i] := by
  induction vs generalizing sp with
  | nil => simp [Holds]
  | cons v vs ih =>
      rw [Holds, ih]
      constructor
      · rintro ⟨hHead, hRest⟩ i hi
        cases i with
        | zero =>
            rw [above_zero]
            exact hHead
        | succ i =>
            rw [← above_succ]
            exact hRest i (Nat.lt_of_succ_lt_succ hi)
      · intro h
        refine ⟨?_, fun i hi => ?_⟩
        · have hHead := h 0 (Nat.zero_lt_succ _)
          rwa [above_zero] at hHead
        · rw [above_succ]
          exact h (i + 1) (Nat.succ_lt_succ hi)

/-- The word at each place. -/
theorem Holds.load_get (h : Holds tr m keep sp vs) {i : Nat} (hi : i < vs.length) :
    load tr m (above sp i) = some vs[i] := by
  obtain ⟨c, hc, -, hv⟩ := holds_iff.mp h i hi
  rw [load, hc, Option.map_some, hv]

/-! ## Vacant below it -/

theorem Vacant.mono {n : Nat} (h : Vacant tr own n sp) (hOwn : own ⊆ keep) : Vacant tr keep n sp := by
  induction n generalizing sp own keep with
  | zero => trivial
  | succ n ih =>
      obtain ⟨c, hc, hIn, hRest⟩ := h
      exact ⟨c, hc, hOwn hIn, ih hRest (Set.sdiff_subset_sdiff_left hOwn)⟩

/-- Another translation that agrees on the room. -/
theorem Vacant.translate {n : Nat} (h : Vacant tr own n sp)
    (hTr : ∀ i, i < n → tr' (below sp (i + 1)) = tr (below sp (i + 1))) : Vacant tr' own n sp := by
  induction n generalizing sp own with
  | zero => trivial
  | succ n ih =>
      obtain ⟨c, hc, hIn, hRest⟩ := h
      refine ⟨c, (hTr 0 (Nat.zero_lt_succ n)).trans hc, hIn, ih hRest fun i hi => ?_⟩
      rw [below_succ]
      exact hTr (i + 1) (Nat.succ_lt_succ hi)

/-- Vacant for `n` words and then `k` more. -/
theorem vacant_add {n k : Nat} (h : Vacant tr own (n + k) sp) :
    ∃ first rest, first ∪ rest = own ∧ Disjoint first rest ∧ Vacant tr first n sp ∧ Vacant tr rest k (below sp n) := by
  induction n generalizing sp own with
  | zero =>
      refine ⟨∅, own, Set.empty_union own, Set.empty_disjoint own, trivial, ?_⟩
      rw [Nat.zero_add] at h
      have hZero : below sp 0 = sp := BitVec.sub_zero sp
      rwa [hZero]
  | succ n ih =>
      rw [Nat.succ_add] at h
      obtain ⟨c, hc, hIn, hRest⟩ := h
      obtain ⟨first, rest, hUnion, hApart, hFirst, hLast⟩ := ih hRest
      have hNotFirst : c ∉ first := fun hBad => (hUnion ▸ Set.mem_union_left rest hBad : c ∈ own \ {c}).2 rfl
      have hNotRest : c ∉ rest := fun hBad => (hUnion ▸ Set.mem_union_right first hBad : c ∈ own \ {c}).2 rfl
      refine ⟨insert c first, rest, ?_, ?_, ⟨c, hc, Set.mem_insert c first, ?_⟩, ?_⟩
      · rw [Set.insert_union, hUnion, Set.insert_sdiff_singleton, Set.insert_eq_of_mem hIn]
      · exact Set.disjoint_insert_left.mpr ⟨hNotRest, hApart⟩
      · refine hFirst.mono fun c' hc' => ⟨Set.mem_insert_of_mem c hc', ?_⟩
        rintro rfl
        exact hNotFirst hc'
      · rwa [below_succ] at hLast

/-- Cells below the stack pointer that are different for different addresses. -/
theorem vacant_of_injective {n : Nat} {cell : Nat → A} (hTr : ∀ i, i < n → tr (below sp (i + 1)) = some (cell i))
    (hOwn : ∀ i, i < n → cell i ∈ own) (hInj : ∀ i j, i < n → j < n → cell i = cell j → i = j) : Vacant tr own n sp := by
  induction n generalizing sp own cell with
  | zero => trivial
  | succ n ih =>
      refine ⟨cell 0, hTr 0 (Nat.zero_lt_succ n), hOwn 0 (Nat.zero_lt_succ n), ?_⟩
      refine @ih (own \ {cell 0}) (sp - 8#64) (fun i => cell (i + 1)) (fun i hi => ?_) (fun i hi => ⟨?_, ?_⟩)
        fun i j hi hj hEq => ?_
      · rw [below_succ]
        exact hTr (i + 1) (Nat.succ_lt_succ hi)
      · exact hOwn (i + 1) (Nat.succ_lt_succ hi)
      · intro hEq
        exact Nat.succ_ne_zero i (hInj (i + 1) 0 (Nat.succ_lt_succ hi) (Nat.zero_lt_succ n) hEq)
      · exact Nat.succ_injective (hInj (i + 1) (j + 1) (Nat.succ_lt_succ hi) (Nat.succ_lt_succ hj) hEq)

/-- The cells of the room, from the top. -/
theorem Vacant.cell {n : Nat} (h : Vacant tr own n sp) {i : Nat} (hi : i < n) :
    ∃ c ∈ own, tr (below sp (i + 1)) = some c := by
  induction n generalizing sp own i with
  | zero => exact absurd hi (Nat.not_lt_zero i)
  | succ n ih =>
      obtain ⟨c, hc, hIn, hRest⟩ := h
      cases i with
      | zero => exact ⟨c, hIn, hc⟩
      | succ i =>
          obtain ⟨c', hIn', hc'⟩ := ih hRest (Nat.lt_of_succ_lt_succ hi)
          rw [below_succ] at hc'
          exact ⟨c', hIn'.1, hc'⟩

/-- No two of them are the same. -/
theorem Vacant.injective {n : Nat} (h : Vacant tr own n sp) {i j : Nat} (hi : i < n) (hj : j < n)
    (hEq : tr (below sp (i + 1)) = tr (below sp (j + 1))) : i = j := by
  induction n generalizing sp own i j with
  | zero => exact absurd hi (Nat.not_lt_zero i)
  | succ n ih =>
      obtain ⟨c, hc, hIn, hRest⟩ := h
      -- a cell further down is not the first one
      have hFirst : ∀ k, k < n → tr (below sp (0 + 1)) ≠ tr (below sp (k + 1 + 1)) := by
        intro k hk hBad
        obtain ⟨c', hIn', hc'⟩ := hRest.cell hk
        rw [below_succ, ← hBad] at hc'
        exact hIn'.2 (Option.some.inj (hc'.symm.trans hc))
      cases i with
      | zero =>
          cases j with
          | zero => rfl
          | succ j => exact absurd hEq (hFirst j (Nat.lt_of_succ_lt_succ hj))
      | succ i =>
          cases j with
          | zero => exact absurd hEq.symm (hFirst i (Nat.lt_of_succ_lt_succ hi))
          | succ j =>
              rw [← below_succ sp (i + 1), ← below_succ sp (j + 1)] at hEq
              exact congrArg Nat.succ (ih hRest (Nat.lt_of_succ_lt_succ hi) (Nat.lt_of_succ_lt_succ hj) hEq)

/-- Without a translation each address is a cell. -/
theorem vacant_flat {n : Nat} (sp : Word) (h : 8 * n < 2 ^ 64) : Vacant (some : Word → Option Word) Set.univ n sp := by
  refine @vacant_of_injective _ _ Set.univ sp n (fun i => below sp (i + 1)) (fun i hi => rfl) (fun i hi => trivial) ?_
  intro i j hi hj hEq
  have hOff : BitVec.ofNat 64 (8 * (i + 1)) = BitVec.ofNat 64 (8 * (j + 1)) := by
    unfold below at hEq
    bv_omega
  have hNat := congrArg BitVec.toNat hOff
  rw [BitVec.toNat_ofNat, BitVec.toNat_ofNat, Nat.mod_eq_of_lt (by omega), Nat.mod_eq_of_lt (by omega)] at hNat
  omega

/-- Words that stand in given cells. -/
theorem holds_of_cells {cell : Nat → A} (hTr : ∀ i, i < vs.length → tr (above sp i) = some (cell i))
    (hKeep : ∀ i, i < vs.length → cell i ∈ keep) (hMem : ∀ i (hi : i < vs.length), m (cell i) = vs[i]) :
    Holds tr m keep sp vs :=
  holds_iff.mpr fun i hi => ⟨cell i, hTr i hi, hKeep i hi, hMem i hi⟩

theorem below_above (sp : Word) {n i : Nat} (hi : i < n) : below (above sp n) (n - 1 - i + 1) = above sp i := by
  unfold below above
  rw [show 8 * n = 8 * i + 8 * (n - 1 - i + 1) by omega, BitVec.ofNat_add, ← BitVec.add_assoc]
  exact BitVec.add_sub_cancel _ _

/-- One of the words is changed in place. -/
theorem Holds.set [DecidableEq A] (hRoom : Vacant tr own vs.length (above sp vs.length)) (h : Holds tr m keep sp vs)
    {i : Nat} (hi : i < vs.length) (v : Word) :
    ∃ c, tr (above sp i) = some c ∧ c ∈ keep ∧ Holds tr (Function.update m c v) keep sp (vs.set i v) := by
  rw [holds_iff] at h
  obtain ⟨c, hc, hIn, -⟩ := h i hi
  refine ⟨c, hc, hIn, holds_iff.mpr fun j hj => ?_⟩
  rw [List.length_set] at hj
  obtain ⟨c', hc', hIn', hv'⟩ := h j hj
  refine ⟨c', hc', hIn', ?_⟩
  by_cases hEq : i = j
  · subst hEq
    obtain rfl := Option.some.inj (hc.symm.trans hc')
    rw [Function.update_self, List.getElem_set_self]
  · have hNe : c' ≠ c := by
      rintro rfl
      rw [← below_above sp hi] at hc
      rw [← below_above sp hj] at hc'
      have hSame := hRoom.injective (by omega) (by omega) (hc.trans hc'.symm)
      omega
    rw [Function.update_of_ne hNe, List.getElem_set_of_ne hEq, hv']

/-! ## Pushing -/

section Push

variable [DecidableEq A]

/-- The stack pointer and the memory after words have been pushed, the first one first. -/
def pushes (tr : Word → Option A) : List Word → Word × (A → Word) → Option (Word × (A → Word))
  | [], s => some s
  | v :: vs, s => (store tr s.2 (s.1 - 8#64) v).bind fun m => pushes tr vs (s.1 - 8#64, m)

/-- What is pushed stands in the room that there was; the last word is the lowest. -/
theorem pushes_ok (hRoom : Vacant tr own ws.length sp) (hApart : Disjoint own keep) (h : Holds tr m keep sp vs) :
    ∃ m' sp', pushes tr ws (sp, m) = some (sp', m') ∧ above sp' ws.length = sp ∧
      Holds tr m' (own ∪ keep) sp' (ws.reverse ++ vs) ∧ ∀ c, c ∉ own → m' c = m c := by
  induction ws generalizing sp m own keep vs with
  | nil => exact ⟨m, sp, rfl, above_zero sp, h.mono Set.subset_union_right, fun c _ => rfl⟩
  | cons v ws ih =>
      obtain ⟨c, hc, hIn, hRest⟩ := hRoom
      have hFresh : c ∉ keep := Set.disjoint_left.mp hApart hIn
      -- the word stands on the stack, in a cell that is not free any more
      have hPushed : Holds tr (Function.update m c v) (insert c keep) (sp - 8#64) (v :: vs) := by
        refine ⟨⟨c, hc, Set.mem_insert c keep, Function.update_self c v m⟩, ?_⟩
        rw [BitVec.sub_add_cancel]
        refine (h.congr fun c' hc' => ?_).mono (Set.subset_insert c keep)
        have hNe : c' ≠ c := fun hEq => hFresh (hEq ▸ hc')
        exact Function.update_of_ne hNe v m
      have hApart' : Disjoint (own \ {c}) (insert c keep) := by
        rw [Set.disjoint_insert_right]
        exact ⟨fun hBad => hBad.2 rfl, hApart.mono_left Set.sdiff_subset⟩
      obtain ⟨m', sp', hRun, hSp, hHolds, hFrame⟩ := ih hRest hApart' hPushed
      refine ⟨m', sp', ?_, ?_, ?_, ?_⟩
      · rw [pushes, store, hc]
        exact hRun
      · rw [List.length_cons, ← above_add_word, hSp]
        exact BitVec.sub_add_cancel sp 8#64
      · rw [List.reverse_cons, List.append_assoc, List.singleton_append]
        refine hHolds.mono ?_
        rintro c' (hc' | rfl | hc')
        · exact .inl hc'.1
        · exact .inl hIn
        · exact .inr hc'
      · intro c' hc'
        rw [hFrame c' fun hBad => hc' hBad.1]
        have hNe : c' ≠ c := fun hEq => hc' (hEq ▸ hIn)
        exact Function.update_of_ne hNe v m

end Push

/-! ## Popping -/

section Pop

variable [DecidableEq S]

/-- The registers and the stack pointer after words have been popped into the registers of a list. -/
def pops (tr : Word → Option A) (m : A → Word) : List S → (S → Word) × Word → Option ((S → Word) × Word)
  | [], s => some s
  | r :: rs, s => (load tr m s.2).bind fun v => pops tr m rs (Function.update s.1 r v, s.2 + 8#64)

/-- Each register gets the word that was saved for it. -/
theorem pops_ok {rs : List S} (hNodup : rs.Nodup) (file saved : S → Word)
    (h : Holds tr m keep sp (rs.map saved ++ vs)) :
    pops tr m rs (file, sp) = some (fun r => if r ∈ rs then saved r else file r, above sp rs.length) ∧
      Holds tr m keep (above sp rs.length) vs := by
  induction rs generalizing file sp with
  | nil => exact ⟨by simp [pops], by simpa using h⟩
  | cons r rs ih =>
      obtain ⟨hr, hNodup'⟩ := List.nodup_cons.mp hNodup
      obtain ⟨hRun, hRest⟩ := ih hNodup' (Function.update file r (saved r)) h.2
      rw [above_succ] at hRun hRest
      refine ⟨?_, hRest⟩
      rw [pops, Holds.load_head h, Option.bind_some, hRun]
      congr 2
      funext r'
      by_cases hEq : r' = r
      · subst hEq
        rw [if_neg hr, if_pos List.mem_cons_self, Function.update_self]
      · rw [Function.update_of_ne hEq]
        simp only [List.mem_cons, hEq, false_or]

end Pop

end SavedFrame
