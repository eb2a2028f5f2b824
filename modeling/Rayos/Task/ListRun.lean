import Rayos.Lib.RingFamily
import Rayos.Task.QueueLinks

/-!
# Lists and queues as sequences (`list.c`, `queue.c`, `list.h`)

Memory holds any number of lists that share no node.  The functions of `list.c` act on one of them as the operations on
sequences, and the loops of `list.h` visit its elements in order; the functions of `queue.c` act on it as a first-in,
first-out queue that counts its elements.

* `lists_refine` — one operation, in any memory that holds lists;
* `ListNext`, `listsInv_of_run` — any number of them, on all lists and queues of memory.
-/

namespace Rayos

open Links

namespace QueueMem

/-- `list_add`. -/
def listAdd (node head : Nat) (m : QueueMem) : QueueMem :=
  let links := (m.links.setNext node (m.links.next head)).setPrev node head
  { m with links := (links.setPrev (links.next head) node).setNext head node }

/-- `list_for_each`: the values of `pos` in the body of the loop. -/
def listForEach (head fuel : Nat) (m : QueueMem) : Option (List Nat) :=
  m.links.walk head fuel (m.links.next head)

/-- `container_of`, for a member at `offset`.  For the head this may lie below the first address. -/
def containerOf (offset ptr : Nat) : Int := ptr - offset

/-- `&pos->member`. -/
def memberOf (offset : Nat) (pos : Int) : Nat := (pos + offset).toNat

/-- The loop of `list_for_each_entry`. -/
def listForEachEntryFrom (offset head : Nat) (m : QueueMem) : Nat → Int → Option (List Int)
  | 0, _ => none
  | fuel + 1, pos =>
      if memberOf offset pos = head then some []
      else
        let next := containerOf offset (m.links.next (memberOf offset pos))
        (listForEachEntryFrom offset head m fuel next).map (pos :: ·)

/-- `list_for_each_entry`: the values of `pos` in the body of the loop. -/
def listForEachEntry (offset head fuel : Nat) (m : QueueMem) : Option (List Int) :=
  listForEachEntryFrom offset head m fuel (containerOf offset (m.links.next head))

@[simp] theorem memberOf_containerOf (offset ptr : Nat) : memberOf offset (containerOf offset ptr) = ptr := by
  rw [memberOf, containerOf, Int.sub_add_cancel, Int.toNat_natCast]

/-- The entries are those of the nodes. -/
theorem listForEachEntryFrom_eq (m : QueueMem) (offset head : Nat) :
    ∀ (fuel node : Nat), listForEachEntryFrom offset head m fuel (containerOf offset node) =
      (m.links.walk head fuel node).map (List.map (containerOf offset)) := by
  intro fuel
  induction fuel with
  | zero => exact fun node => rfl
  | succ fuel ih =>
      intro node
      rw [listForEachEntryFrom, walk, memberOf_containerOf]
      by_cases hHead : node = head
      · rw [if_pos hHead, if_pos hHead]
        rfl
      · rw [if_neg hHead, if_neg hHead]
        simp only
        rw [ih (m.links.next node), Option.map_map, Option.map_map]
        rfl

variable {m : QueueMem} {lists : Nat → Option (List Nat)} {head x q : Nat} {l : List Nat}

theorem listEmpty_iff (h : m.links.Rings lists) (hList : lists head = some l) : m.listEmpty head = true ↔ l = [] := by
  rw [listEmpty, decide_eq_true_eq]
  exact (h.ring hList).next_eq_iff

/-- What `queue_dequeue` returns and leaves. -/
theorem queueDequeue_rings (h : m.links.Rings lists) (hList : lists q = some l) :
    (m.queueDequeue q).1 = l.head? ∧
      (m.queueDequeue q).2.links.Rings (Function.update lists q (some l.tail)) ∧
      (m.queueDequeue q).2.nrList = Function.update m.nrList q (m.nrList q - if l = [] then 0 else 1) := by
  have hEmpty := listEmpty_iff h hList
  cases l with
  | nil =>
      rw [queueDequeue, if_pos (hEmpty.mpr rfl), if_pos rfl, Int.sub_zero, Function.update_eq_self]
      refine ⟨rfl, ?_, rfl⟩
      rw [List.tail_nil, ← hList, Function.update_eq_self]
      exact h
  | cons x rest =>
      have hFirst : m.links.next q = x := (h.ring hList).next_head
      have hNot : ¬ m.listEmpty q = true := fun hNone => absurd (hEmpty.mp hNone) (List.cons_ne_nil x rest)
      rw [queueDequeue, if_neg hNot, if_neg (List.cons_ne_nil x rest)]
      refine ⟨congrArg some hFirst, ?_, rfl⟩
      show (m.links.unlink (m.links.next q)).Rings (Function.update lists q (some rest))
      have hRings := h.remove hList List.mem_cons_self
      rw [List.erase_cons_head] at hRings
      rw [hFirst]
      exact hRings

end QueueMem

/-! ## Runs -/

/-- The state of a run: memory, the lists by their heads, and for each queue what has been put into it and what it has
returned. -/
structure ListState where
  mem : QueueMem
  lists : Nat → Option (List Nat)
  put : Nat → List Nat
  got : Nat → List Nat

/-- One call.  Nodes that are added are in no list, and nodes that are deleted in one; the lists of `queues` are
changed with the functions of `queue.c` only. -/
inductive ListNext (queues : Nat → Prop) (s : ListState) : ListState → Prop
  | init {head : Nat} (hNot : ¬ queues head)
      (hHead : ∀ head' l', head' ≠ head → s.lists head' = some l' → head ∉ head' :: l') :
      ListNext queues s { s with
        mem := s.mem.initListHead head
        lists := Function.update s.lists head (some []) }
  | add {head x : Nat} {l : List Nat} (hNot : ¬ queues head) (hList : s.lists head = some l)
      (hx : Unlinked s.lists x) :
      ListNext queues s { s with
        mem := s.mem.listAdd x head
        lists := Function.update s.lists head (some (x :: l)) }
  | addTail {head x : Nat} {l : List Nat} (hNot : ¬ queues head) (hList : s.lists head = some l)
      (hx : Unlinked s.lists x) :
      ListNext queues s { s with
        mem := s.mem.listAddTail x head
        lists := Function.update s.lists head (some (l ++ [x])) }
  | del {head x : Nat} {l : List Nat} (hNot : ¬ queues head) (hList : s.lists head = some l) (hx : x ∈ l) :
      ListNext queues s { s with
        mem := s.mem.listDel x
        lists := Function.update s.lists head (some (l.erase x)) }
  | enqueue {q x : Nat} {l : List Nat} (hQueue : queues q) (hList : s.lists q = some l)
      (hx : Unlinked s.lists x) :
      ListNext queues s { s with
        mem := s.mem.queueEnqueue q x
        lists := Function.update s.lists q (some (l ++ [x]))
        put := Function.update s.put q (s.put q ++ [x]) }
  | dequeue {q : Nat} {l : List Nat} {node : Option Nat} {m : QueueMem} (hQueue : queues q)
      (hList : s.lists q = some l) (hRun : s.mem.queueDequeue q = (node, m)) :
      ListNext queues s { s with
        mem := m
        lists := Function.update s.lists q (some l.tail)
        got := Function.update s.got q (s.got q ++ node.toList) }

/-- Memory holds the lists; the counter of a queue is its length, and what has been put into it and has not been
returned yet is in it, in that order. -/
structure ListsInv (queues : Nat → Prop) (s : ListState) : Prop where
  rings : s.mem.links.Rings s.lists
  count : ∀ q l, queues q → s.lists q = some l → s.mem.nrList q = l.length
  fifo : ∀ q l, queues q → s.lists q = some l → s.put q = s.got q ++ l

namespace ListsInv

variable {queues : Nat → Prop} {s s' : ListState}

/-- A change of a list that is not a queue. -/
theorem of_list (h : ListsInv queues s) {head : Nat} {l : List Nat} {m : QueueMem} (hNot : ¬ queues head)
    (hRings : m.links.Rings (Function.update s.lists head (some l))) (hCount : m.nrList = s.mem.nrList) :
    ListsInv queues { s with mem := m, lists := Function.update s.lists head (some l) } := by
  have hOld : ∀ {q k}, queues q → Function.update s.lists head (some l) q = some k → s.lists q = some k := by
    intro q k hQueue hList
    have hNe : q ≠ head := fun hEq => hNot (hEq ▸ hQueue)
    rw [Function.update_of_ne hNe] at hList
    exact hList
  refine ⟨hRings, fun q k hQueue hList => ?_, fun q k hQueue hList => h.fifo q k hQueue (hOld hQueue hList)⟩
  show m.nrList q = k.length
  rw [hCount]
  exact h.count q k hQueue (hOld hQueue hList)

/-- A change of one queue: its new list has the length that is counted, and continues what it has returned. -/
theorem of_queue (h : ListsInv queues s) {q : Nat} {l put got : List Nat} {m : QueueMem} {n : Int}
    (hRings : m.links.Rings (Function.update s.lists q (some l)))
    (hCount : m.nrList = Function.update s.mem.nrList q n) (hLength : n = l.length) (hFifo : put = got ++ l) :
    ListsInv queues ⟨m, Function.update s.lists q (some l), Function.update s.put q put,
      Function.update s.got q got⟩ := by
  refine ⟨hRings, fun q' k hQueue hList => ?_, fun q' k hQueue hList => ?_⟩
  · show m.nrList q' = k.length
    rw [hCount]
    by_cases hEq : q' = q
    · subst hEq
      simp only [Function.update_self, Option.some.injEq] at hList ⊢
      rw [hLength, hList]
    · simp only [Function.update_of_ne hEq] at hList ⊢
      exact h.count q' k hQueue hList
  · show Function.update s.put q put q' = Function.update s.got q got q' ++ k
    by_cases hEq : q' = q
    · subst hEq
      simp only [Function.update_self, Option.some.injEq] at hList ⊢
      rw [hFifo, hList]
    · simp only [Function.update_of_ne hEq] at hList ⊢
      exact h.fifo q' k hQueue hList

theorem step (h : ListsInv queues s) (hNext : ListNext queues s s') : ListsInv queues s' := by
  cases hNext with
  | init hNot hHead => exact h.of_list hNot (h.rings.init hHead) rfl
  | add hNot hList hx => exact h.of_list hNot (h.rings.insertFirst hList hx) rfl
  | addTail hNot hList hx => exact h.of_list hNot (h.rings.insertLast hList hx) rfl
  | del hNot hList hx => exact h.of_list hNot (h.rings.remove hList hx) rfl
  | @enqueue q x l hQueue hList hx =>
      have hFifo : s.put q ++ [x] = s.got q ++ (l ++ [x]) := by
        rw [h.fifo q l hQueue hList, List.append_assoc]
      have hLength : s.mem.nrList q + 1 = ((l ++ [x]).length : Int) := by
        rw [h.count q l hQueue hList, List.length_append, List.length_singleton]
        rfl
      have hInv := h.of_queue (m := s.mem.queueEnqueue q x) (h.rings.insertLast hList hx) rfl hLength hFifo
      rw [Function.update_eq_self] at hInv
      exact hInv
  | @dequeue q l node m hQueue hList hRun =>
      obtain ⟨hFirst, hRings, hCount⟩ := QueueMem.queueDequeue_rings h.rings hList
      rw [hRun] at hFirst hRings hCount
      have hNode : node = l.head? := hFirst
      have hFifo : s.put q = s.got q ++ node.toList ++ l.tail := by
        rw [h.fifo q l hQueue hList, hNode, List.append_assoc]
        cases l <;> rfl
      have hLength : (s.mem.nrList q - if l = [] then 0 else 1) = (l.tail.length : Int) := by
        rw [h.count q l hQueue hList]
        cases l with
        | nil => rfl
        | cons x rest =>
            rw [if_neg (List.cons_ne_nil x rest), List.length_cons, List.tail_cons]
            omega
      have hInv := h.of_queue hRings hCount hLength hFifo
      rw [Function.update_eq_self] at hInv
      exact hInv

end ListsInv

theorem listsInv_of_run {queues : Nat → Prop} {s s' : ListState} (h : ListsInv queues s)
    (hSteps : Relation.ReflTransGen (ListNext queues) s s') : ListsInv queues s' := by
  induction hSteps with
  | refl => exact h
  | tail _ hNext ih => exact ih.step hNext

/-- **Intrusive lists are sequences.**  In memory that holds any number of lists without a common node,

1. `list_add` and `list_add_tail` of a node that is in no list make it the first or the last element of a list, and
2. `list_del` of an element removes it, while all other lists stay as they are;
3. `list_empty` tells whether a list is empty, and the loops end and visit its elements in order;
4. after any number of calls every queue returns what has been put into it in that order, and `nr_list` is its
   length. -/
theorem lists_refine (m : QueueMem) (lists : Nat → Option (List Nat)) (hRings : m.links.Rings lists) :
    (∀ head l x, lists head = some l → Unlinked lists x →
      (m.listAdd x head).links.Rings (Function.update lists head (some (x :: l))) ∧
        (m.listAddTail x head).links.Rings (Function.update lists head (some (l ++ [x])))) ∧
    (∀ head l x, lists head = some l → x ∈ l →
      (m.listDel x).links.Rings (Function.update lists head (some (l.erase x))) ∧
        Unlinked (Function.update lists head (some (l.erase x))) x) ∧
    (∀ head l, lists head = some l → (m.listEmpty head = true ↔ l = []) ∧
      ∀ fuel, l.length < fuel → m.listForEach head fuel = some l ∧
        ∀ offset, m.listForEachEntry offset head fuel = some (l.map (QueueMem.containerOf offset))) ∧
    (∀ (queues : Nat → Prop) (s s' : ListState), s.mem = m → s.lists = lists →
      (∀ q l, queues q → lists q = some l → m.nrList q = l.length ∧ s.put q = l ∧ s.got q = []) →
      Relation.ReflTransGen (ListNext queues) s s' →
      s'.mem.links.Rings s'.lists ∧
        ∀ q l, queues q → s'.lists q = some l → s'.mem.nrList q = l.length ∧ s'.put q = s'.got q ++ l ∧
          (s'.mem.queueEmpty q = true ↔ l = []) ∧ (s'.mem.queueDequeue q).1 = l.head?) := by
  refine ⟨?_, ?_, ?_, ?_⟩
  · intro head l x hList hx
    exact ⟨hRings.insertFirst hList hx, hRings.insertLast hList hx⟩
  · intro head l x hList hx
    exact ⟨hRings.remove hList hx, hRings.unlinked_of_removed hList hx⟩
  · intro head l hList
    refine ⟨QueueMem.listEmpty_iff hRings hList, fun fuel hFuel => ?_⟩
    have hWalk := (hRings.ring hList).walk hFuel
    refine ⟨hWalk, fun offset => ?_⟩
    rw [QueueMem.listForEachEntry, QueueMem.listForEachEntryFrom_eq, hWalk]
    rfl
  · intro queues s s' hMem hLists hStart hSteps
    subst hMem hLists
    have hInv : ListsInv queues s := by
      refine ⟨hRings, fun q l hQueue hList => (hStart q l hQueue hList).1, fun q l hQueue hList => ?_⟩
      obtain ⟨-, hPut, hGot⟩ := hStart q l hQueue hList
      rw [hPut, hGot, List.nil_append]
    have hAfter := listsInv_of_run hInv hSteps
    refine ⟨hAfter.rings, fun q l hQueue hList => ⟨hAfter.count q l hQueue hList, hAfter.fifo q l hQueue hList,
      QueueMem.listEmpty_iff hAfter.rings hList, (QueueMem.queueDequeue_rings hAfter.rings hList).1⟩⟩

/-- Two nodes go through the queue at address 0. -/
theorem lists_refine_fifo : ∃ s : ListState, s.put 0 = [16, 32] ∧ s.got 0 = [16] ∧ s.mem.nrList 0 = 1 ∧
    (s.mem.queueDequeue 0).1 = some 32 := by
  let m : QueueMem := ⟨⟨id, id⟩, fun _ => 0⟩
  let lists : Nat → Option (List Nat) := Function.update (fun _ => none) 0 (some [])
  let s : ListState := ⟨m, lists, fun _ => [], fun _ => []⟩
  have hHead : ∀ {head l}, lists head = some l → head = 0 ∧ l = [] := by
    intro head l hList
    by_cases hZero : head = 0
    · subst hZero
      exact ⟨rfl, (Option.some.inj hList).symm⟩
    · simp [lists, Function.update_of_ne hZero] at hList
  have hRings : m.links.Rings lists := by
    constructor
    · intro head l hList
      obtain ⟨rfl, rfl⟩ := hHead hList
      exact ⟨⟨rfl, rfl⟩, List.nodup_singleton 0⟩
    · intro head head' l l' hList hList' hNe
      exact absurd ((hHead hList).1.trans (hHead hList').1.symm) hNe
  let s1 : ListState := { s with
    mem := m.queueEnqueue 0 16
    lists := Function.update lists 0 (some [16])
    put := Function.update s.put 0 [16] }
  let s2 : ListState := { s1 with
    mem := s1.mem.queueEnqueue 0 32
    lists := Function.update s1.lists 0 (some [16, 32])
    put := Function.update s1.put 0 [16, 32] }
  let s3 : ListState := { s2 with
    mem := (s2.mem.queueDequeue 0).2
    lists := Function.update s2.lists 0 (some [32])
    got := Function.update s2.got 0 [16] }
  let queues : Nat → Prop := fun q => q = 0
  have hZeroQueue : queues 0 := rfl
  have hList : s.lists 0 = some [] := rfl
  have hList1 : s1.lists 0 = some [16] := rfl
  have hList2 : s2.lists 0 = some [16, 32] := rfl
  have hFirst : s2.mem.queueDequeue 0 = (some 16, s3.mem) := rfl
  have hOne : ListNext queues s s1 := by
    refine ListNext.enqueue hZeroQueue hList fun head l hList => ?_
    obtain ⟨rfl, rfl⟩ := hHead hList
    decide
  have hTwo : ListNext queues s1 s2 := by
    refine ListNext.enqueue hZeroQueue hList1 fun head l hList => ?_
    by_cases hZero : head = 0
    · subst hZero
      obtain rfl : [16] = l := Option.some.inj hList
      decide
    · simp [s1, lists, Function.update_of_ne hZero] at hList
  have hThree : ListNext queues s2 s3 := ListNext.dequeue hZeroQueue hList2 hFirst
  have hSteps := ((Relation.ReflTransGen.single hOne).tail hTwo).tail hThree
  obtain ⟨-, -, -, hRun⟩ := lists_refine m lists hRings
  obtain ⟨-, hQueue⟩ := hRun queues s s3 rfl rfl (by
    rintro q l rfl hList
    obtain ⟨-, rfl⟩ := hHead hList
    exact ⟨rfl, rfl, rfl⟩) hSteps
  obtain ⟨hCount, -, -, hNext⟩ := hQueue 0 [32] rfl rfl
  exact ⟨s3, rfl, rfl, hCount, hNext⟩

end Rayos
