import Mathlib.Tactic

/-!
# A ledger of blocks

Blocks are numbered in the order in which they are given out.  The ledger has the blocks that are in use and
the history of those that have been given back.  `Since l l' own gone` says what a piece of code has done
between two states of the ledger: it owns the blocks `own`, and has given back the blocks `gone`, each once.
-/

/-- The blocks in use, and the history of the blocks given back. -/
structure Ledger where
  next : Nat
  live : List Nat
  given : List Nat

namespace Ledger

variable {l l' : Ledger} {own gone : List Nat} {b : Nat}

/-- A block is given out. -/
def take (l : Ledger) : Ledger := { l with next := l.next + 1, live := l.next :: l.live }

/-- A block is given back. -/
def giveBack (b : Nat) (l : Ledger) : Ledger := { l with live := l.live.erase b, given := l.given ++ [b] }

@[simp] theorem take_next (l : Ledger) : l.take.next = l.next + 1 := rfl

@[simp] theorem giveBack_next (l : Ledger) (b : Nat) : (l.giveBack b).next = l.next := rfl

/-- Blocks are given back one after the other. -/
def giveBackAll (l : Ledger) (bs : List Nat) : Ledger := bs.foldl (fun l b => l.giveBack b) l

theorem giveBack_length (l : Ledger) (b : Nat) : l.live.length ≤ (l.giveBack b).live.length + 1 := by
  show l.live.length ≤ (l.live.erase b).length + 1
  have := List.length_erase_add_one (l := l.live) (a := b)
  by_cases hMem : b ∈ l.live
  · exact (this hMem).ge
  · rw [List.erase_of_not_mem hMem]
    exact Nat.le_succ _

theorem giveBackAll_next (bs : List Nat) : ∀ l : Ledger, (l.giveBackAll bs).next = l.next := by
  induction bs with
  | nil => exact fun l => rfl
  | cons b rest ih => exact fun l => ih (l.giveBack b)

/-- No more blocks are gone than have been given back. -/
theorem giveBackAll_length (bs : List Nat) :
    ∀ l : Ledger, l.live.length ≤ (l.giveBackAll bs).live.length + bs.length := by
  induction bs with
  | nil => exact fun l => le_refl _
  | cons b rest ih =>
      intro l
      have hOne := l.giveBack_length b
      have hRest := ih (l.giveBack b)
      rw [giveBackAll, List.foldl_cons, List.length_cons]
      unfold giveBackAll at hRest
      omega

/-- What has happened since `l`: the blocks `own` have been taken and are in use, and the blocks `gone` have
been taken and given back. -/
structure Since (l l' : Ledger) (own gone : List Nat) : Prop where
  live : l'.live = own ++ l.live
  given : l'.given = l.given ++ gone
  nodup : (own ++ gone).Nodup
  bound : ∀ b ∈ own ++ gone, b < l'.next

theorem Since.refl : Since l l [] [] :=
  ⟨rfl, (List.append_nil _).symm, List.nodup_nil, nofun⟩

theorem Since.take (h : Since l l' own gone) : Since l l'.take (l'.next :: own) gone := by
  refine ⟨?_, h.given, ?_, fun b hb => ?_⟩
  · rw [Ledger.take, h.live]
    rfl
  · refine List.nodup_cons.mpr ⟨fun hMem => ?_, h.nodup⟩
    exact lt_irrefl _ (h.bound _ hMem)
  · show b < l'.next + 1
    rcases List.mem_cons.mp hb with rfl | hb
    · omega
    · exact Nat.lt_succ_of_lt (h.bound b hb)

/-- A block that is owned is given back. -/
theorem Since.giveBack (before after : List Nat) (h : Since l l' (before ++ b :: after) gone) :
    Since l (l'.giveBack b) (before ++ after) (gone ++ [b]) := by
  have hPerm : (before ++ after ++ (gone ++ [b])).Perm (before ++ b :: after ++ gone) := by
    rw [← List.append_assoc]
    refine (List.perm_append_singleton b _).trans ?_
    rw [← List.cons_append]
    exact (List.perm_middle.symm).append_right gone
  have hBefore : b ∉ before := by
    have hNodup := (List.nodup_append.mp h.nodup).1
    intro hMem
    exact (List.nodup_append.mp hNodup).2.2 b hMem b List.mem_cons_self rfl
  refine ⟨?_, ?_, hPerm.nodup_iff.mpr h.nodup, fun c hc => h.bound c (hPerm.mem_iff.mp hc)⟩
  · rw [Ledger.giveBack, h.live, List.append_assoc, List.erase_append_right _ hBefore, List.cons_append,
      List.erase_cons_head, List.append_assoc]
  · rw [Ledger.giveBack, h.given, List.append_assoc]

/-- A block is taken and given back at once. -/
theorem Since.lend (h : Since l l' own gone) :
    Since l (l'.take.giveBack l'.next) own (gone ++ [l'.next]) := h.take.giveBack [] own

/-- The blocks in use are the same exactly when nothing is owned. -/
theorem Since.live_eq_iff (h : Since l l' own gone) : l'.live = l.live ↔ own = [] := by
  rw [h.live]
  exact List.append_left_eq_self

theorem Since.gone_nodup (h : Since l l' own gone) : gone.Nodup := (List.nodup_append.mp h.nodup).2.1

end Ledger
