import Rayos.Lib.LinkedRing
import Rayos.Task.Sched

/-!
# The queues in memory (`list.c`, `queue.c`)

A `queue_t` is a head node and a counter, and a task is in a queue when its `list` node is linked to the
head.  `Stands` says which `Queue` of the scheduler the links of a head stand for; the functions of `queue.c`
on the links do what the scheduler takes them to do, and leave the queues that share no node with theirs
alone.
-/

namespace Rayos

open Links

/-- The `list_head`s in memory by their address, and the `nr_list` of the queue with a given head. -/
structure QueueMem where
  links : Links Nat
  nrList : Nat → Int

namespace QueueMem

/-- `INIT_LIST_HEAD`. -/
def initListHead (list : Nat) (m : QueueMem) : QueueMem :=
  { m with links := (m.links.setPrev list list).setNext list list }

/-- `list_add_tail`. -/
def listAddTail (node head : Nat) (m : QueueMem) : QueueMem :=
  let prev := m.links.prev head
  { m with links := (((m.links.setNext node head).setPrev node prev).setNext prev node).setPrev head node }

/-- `list_del`. -/
def listDel (entry : Nat) (m : QueueMem) : QueueMem :=
  let links := m.links.setPrev (m.links.next entry) (m.links.prev entry)
  { m with links := links.setNext (links.prev entry) (links.next entry) }

/-- `list_empty`. -/
def listEmpty (head : Nat) (m : QueueMem) : Bool := m.links.next head = head

/-- `QUEUE_INIT`. -/
def queueInit (q : Nat) (m : QueueMem) : QueueMem :=
  initListHead q { m with nrList := Function.update m.nrList q 0 }

/-- `queue_enqueue`. -/
def queueEnqueue (q node : Nat) (m : QueueMem) : QueueMem :=
  listAddTail node q { m with nrList := Function.update m.nrList q (m.nrList q + 1) }

/-- `queue_dequeue`; `none` is the null pointer. -/
def queueDequeue (q : Nat) (m : QueueMem) : Option Nat × QueueMem :=
  if m.listEmpty q then (none, m)
  else
    let m := { m with nrList := Function.update m.nrList q (m.nrList q - 1) }
    let node := m.links.next q
    (some node, listDel node m)

/-- `queue_empty`. -/
def queueEmpty (q : Nat) (m : QueueMem) : Bool := m.listEmpty q

/-- The head `q` stands for a queue of tasks, where `node` gives the address of a task's `list`. -/
structure Stands (m : QueueMem) (node : Nat → Nat) (q : Nat) (queue : Queue) : Prop where
  ring : m.links.Ring q (queue.list.map node)
  count : m.nrList q = queue.nrList

variable {m : QueueMem} {node : Nat → Nat} {q : Nat} {queue : Queue}

theorem stands_init (m : QueueMem) (node : Nat → Nat) (q : Nat) :
    (m.queueInit q).Stands node q Rayos.queueInit := by
  refine ⟨⟨?_, List.nodup_singleton q⟩, ?_⟩
  · simp [Seg, Rayos.queueInit, queueInit, initListHead]
  · simp [queueInit, initListHead, Rayos.queueInit]

theorem Stands.empty (h : m.Stands node q queue) : m.queueEmpty q = Rayos.queueEmpty queue := by
  rw [Bool.eq_iff_iff, queueEmpty, listEmpty, decide_eq_true_eq, h.ring.next_eq_iff, List.map_eq_nil_iff,
    Rayos.queueEmpty, List.isEmpty_iff]

/-- Enqueuing a task whose node is not linked to the head. -/
theorem Stands.enqueue (h : m.Stands node q queue) {task : Nat} (hHead : node task ≠ q)
    (hFresh : node task ∉ queue.list.map node) :
    (m.queueEnqueue q (node task)).Stands node q (Rayos.queueEnqueue queue task) := by
  refine ⟨?_, ?_⟩
  · show (m.links.insertBefore (node task) q).Ring q ((queue.list ++ [task]).map node)
    rw [List.map_append]
    refine h.ring.insertLast fun hIn => ?_
    rcases List.mem_cons.mp hIn with hEq | hMem
    · exact hHead hEq
    · exact hFresh hMem
  · show Function.update m.nrList q (m.nrList q + 1) q = queue.nrList + 1
    rw [Function.update_self, h.count]

/-- Dequeuing returns the node of the first task. -/
theorem Stands.dequeue (h : m.Stands node q queue) :
    (m.queueDequeue q).1 = (Rayos.queueDequeue queue).1.map node ∧
      (m.queueDequeue q).2.Stands node q (Rayos.queueDequeue queue).2 := by
  have hEmpty := h.empty
  have hNext := h.ring.next_head
  cases hList : queue.list with
  | nil =>
      have hSome : m.listEmpty q = true := by
        rw [queueEmpty, Rayos.queueEmpty, hList] at hEmpty
        exact hEmpty
      simp only [queueDequeue, Rayos.queueDequeue, hList, hSome, if_true, Option.map_none]
      exact ⟨trivial, h⟩
  | cons task rest =>
      have hNone : m.listEmpty q = false := by
        rw [queueEmpty, Rayos.queueEmpty, hList] at hEmpty
        exact hEmpty
      rw [hList] at hNext
      have hRing := h.ring
      rw [hList, List.map_cons] at hRing
      simp only [queueDequeue, Rayos.queueDequeue, hList, hNone, Bool.false_eq_true, if_false, Option.map_some]
      refine ⟨congrArg some hNext, ?_, ?_⟩
      · show (m.links.unlink (m.links.next q)).Ring q (rest.map node)
        rw [hNext]
        exact hRing.removeFirst
      · show Function.update m.nrList q (m.nrList q - 1) q = queue.nrList - 1
        rw [Function.update_self, h.count]

/-- The node before the head belongs to the ring. -/
theorem Stands.prev_mem (h : m.Stands node q queue) : m.links.prev q ∈ q :: queue.list.map node :=
  h.ring.seg.prev_mem

/-- A queue that shares no node with the one that is enqueued to. -/
theorem Stands.enqueue_other {q' : Nat} {queue' : Queue} (h : m.Stands node q queue)
    (h' : m.Stands node q' queue') {x : Nat} (hApart : List.Disjoint (q :: queue.list.map node)
      (q' :: queue'.list.map node)) (hx : x ∉ q' :: queue'.list.map node) :
    (m.queueEnqueue q x).Stands node q' queue' := by
  have hSame : ∀ y ∈ q' :: queue'.list.map node,
      (m.links.insertBefore x q).next y = m.links.next y ∧ (m.links.insertBefore x q).prev y = m.links.prev y := by
    intro y hy
    refine insertBefore_of_ne (fun hEq => hx (hEq ▸ hy)) (fun hEq => ?_) fun hEq => ?_
    · exact hApart List.mem_cons_self (hEq ▸ hy)
    · exact hApart h.prev_mem (hEq ▸ hy)
  refine ⟨h'.ring.congr (fun y hy => (hSame y hy).1) fun y hy => (hSame y hy).2, ?_⟩
  have hNe : q' ≠ q := fun hEq => hApart List.mem_cons_self (hEq ▸ List.mem_cons_self)
  show Function.update m.nrList q _ q' = _
  rw [Function.update_of_ne hNe, h'.count]

/-- A queue that shares no node with the one that is dequeued from. -/
theorem Stands.dequeue_other {q' : Nat} {queue' : Queue} (h : m.Stands node q queue)
    (h' : m.Stands node q' queue') (hApart : List.Disjoint (q :: queue.list.map node)
      (q' :: queue'.list.map node)) : (m.queueDequeue q).2.Stands node q' queue' := by
  unfold queueDequeue
  split
  · exact h'
  rename_i hSome
  have hEmpty := h.empty
  cases hList : queue.list with
  | nil =>
      rw [queueEmpty, Rayos.queueEmpty, hList] at hEmpty
      exact absurd hEmpty hSome
  | cons task rest =>
      have hRing := h.ring
      rw [hList, List.map_cons] at hRing hApart
      have hNext : m.links.next q = node task := hRing.next_head
      obtain ⟨hPrev, hMem, hSelf⟩ := hRing.neighbours
      have hSame : ∀ y ∈ q' :: queue'.list.map node, (m.links.unlink (node task)).next y = m.links.next y ∧
          (m.links.unlink (node task)).prev y = m.links.prev y := by
        intro y hy
        refine unlink_of_ne (fun hEq => ?_) (fun hEq => ?_) hSelf
        · refine hApart ?_ (hEq ▸ hy)
          rcases List.mem_cons.mp hMem with hHead | hIn
          · rw [hHead]
            exact List.mem_cons_self
          · exact List.mem_cons_of_mem _ (List.mem_cons_of_mem _ hIn)
        · refine hApart ?_ (hEq ▸ hy)
          rw [hPrev]
          exact List.mem_cons_self
      have hNe : q' ≠ q := fun hEq => hApart List.mem_cons_self (hEq ▸ List.mem_cons_self)
      constructor
      · show (m.links.unlink (m.links.next q)).Ring q' (queue'.list.map node)
        rw [hNext]
        exact h'.ring.congr (fun y hy => (hSame y hy).1) fun y hy => (hSame y hy).2
      · show Function.update m.nrList q _ q' = _
        rw [Function.update_of_ne hNe, h'.count]

/-- The switch of `scheduler` on the ready queue: the first task leaves it, and the task that was current goes
to its end. -/
theorem Stands.switch (h : m.Stands node q queue) {old new : Nat} {rest : List Nat}
    (hList : queue.list = new :: rest) (hHead : node old ≠ q) (hFresh : node old ∉ rest.map node) :
    (m.queueDequeue q).1 = some (node new) ∧
      ((m.queueDequeue q).2.queueEnqueue q (node old)).Stands node q ⟨rest ++ [old], queue.nrList⟩ := by
  obtain ⟨hNode, hRest⟩ := h.dequeue
  simp only [Rayos.queueDequeue, hList, Option.map_some] at hNode hRest
  have hAll := hRest.enqueue hHead hFresh
  rw [Rayos.queueEnqueue, Int.sub_add_cancel] at hAll
  exact ⟨hNode, hAll⟩

end QueueMem

end Rayos
