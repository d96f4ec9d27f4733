import Mathlib.Data.List.Basic
import Mathlib.Logic.Function.Basic

/-!
# Singly linked tail queues

The `STAILQ` of `sys/queue.h` in a memory of blocks. The head holds a pointer to the first entry and the
address of the place where the next pointer has to go: its own first pointer while the queue is empty,
and the link of the last entry otherwise. An access to a block that is not allocated has no result, so
an operation that has one has touched allocated blocks only.

What the blocks spell is a list of addresses with their elements. Each operation is related to the one
on that list, together with the blocks it leaves as they were, and nothing that uses the queue has to
look at the links again.
-/

namespace TailQueue

structure Node (α : Type) where
  elm : α
  stqeNext : Option Nat

/-- Where a pointer to an entry can be stored. -/
inductive Slot where
  | first
  | next (a : Nat)

/-- The allocated blocks and the head of the queue. -/
structure Memory (α : Type) where
  heap : Nat → Option (Node α)
  stqhFirst : Option Nat
  stqhLast : Slot

variable {α : Type}

namespace Memory

def init (m : Memory α) : Memory α := { m with stqhFirst := none, stqhLast := .first }

/-- An address that is not in use, and the node that is written there. -/
def malloc (m : Memory α) (a : Nat) (node : Node α) : Option (Memory α) :=
  if (m.heap a).isSome then none else some { m with heap := Function.update m.heap a (some node) }

def free (m : Memory α) (a : Nat) : Option (Memory α) :=
  if (m.heap a).isSome then some { m with heap := Function.update m.heap a none } else none

/-- `*slot = value`. -/
def store (m : Memory α) (slot : Slot) (value : Option Nat) : Option (Memory α) :=
  match slot with
  | .first => some { m with stqhFirst := value }
  | .next a => (m.heap a).map fun node =>
      { m with heap := Function.update m.heap a (some { node with stqeNext := value }) }

/-- `STAILQ_INSERT_TAIL`. -/
def insertTail (m : Memory α) (a : Nat) : Option (Memory α) :=
  (m.store (.next a) none).bind fun m =>
    (m.store m.stqhLast (some a)).map fun m => { m with stqhLast := .next a }

/-- `STAILQ_REMOVE_HEAD`. -/
def removeHead (m : Memory α) : Option (Memory α) :=
  m.stqhFirst.bind fun a => (m.heap a).map fun node =>
    { m with
      stqhFirst := node.stqeNext
      stqhLast := if node.stqeNext.isNone then .first else m.stqhLast }

end Memory

/-! ### What the links spell -/

/-- The entries that follow from a pointer. -/
def Chain (heap : Nat → Option (Node α)) : Option Nat → List (Nat × α) → Prop
  | pointer, [] => pointer = none
  | pointer, (a, x) :: rest =>
      pointer = some a ∧ ∃ next, heap a = some ⟨x, next⟩ ∧ Chain heap next rest

def lastSlot (entries : List (Nat × α)) : Slot := entries.getLast?.elim .first fun e => .next e.1

def addresses (entries : List (Nat × α)) : List Nat := entries.map Prod.fst

/-- The queue holds these entries. -/
structure Holds (m : Memory α) (entries : List (Nat × α)) : Prop where
  chain : Chain m.heap m.stqhFirst entries
  last : m.stqhLast = lastSlot entries
  nodup : (addresses entries).Nodup

variable {m : Memory α} {heap heap' : Nat → Option (Node α)} {pointer : Option Nat}
  {entries rest : List (Nat × α)} {a b : Nat} {x y : α}

@[simp] theorem addresses_nil : addresses ([] : List (Nat × α)) = [] := rfl

@[simp] theorem addresses_cons : addresses ((a, x) :: entries) = a :: addresses entries := rfl

@[simp] theorem addresses_append : addresses (entries ++ rest) = addresses entries ++ addresses rest :=
  List.map_append

@[simp] theorem lastSlot_concat : lastSlot (entries ++ [(a, x)]) = .next a := by
  rw [lastSlot, List.getLast?_concat]
  rfl

theorem lastSlot_cons_cons : lastSlot ((a, x) :: (b, y) :: rest) = lastSlot ((b, y) :: rest) := by
  rw [lastSlot, lastSlot, List.getLast?_cons_cons]

namespace Chain

theorem congr (h : Chain heap pointer entries)
    (hsame : ∀ a ∈ addresses entries, heap' a = heap a) : Chain heap' pointer entries := by
  induction entries generalizing pointer with
  | nil => exact h
  | cons e rest ih =>
      obtain ⟨a, x⟩ := e
      obtain ⟨hpointer, next, hnode, hrest⟩ := h
      refine ⟨hpointer, next, ?_, ih hrest fun b hb => hsame b (List.mem_cons_of_mem _ hb)⟩
      rw [hsame a List.mem_cons_self, hnode]

theorem allocated (h : Chain heap pointer entries) (ha : a ∈ addresses entries) :
    (heap a).isSome = true := by
  induction entries generalizing pointer with
  | nil => cases ha
  | cons e rest ih =>
      obtain ⟨b, y⟩ := e
      obtain ⟨-, next, hnode, hrest⟩ := h
      rcases List.mem_cons.mp ha with rfl | ha
      · rw [hnode]
        rfl
      · exact ih hrest ha

/-- An entry of the chain is a block with its element. -/
theorem node (h : Chain heap pointer entries) (hmem : (a, x) ∈ entries) :
    ∃ next, heap a = some ⟨x, next⟩ := by
  induction entries generalizing pointer with
  | nil => cases hmem
  | cons e rest ih =>
      obtain ⟨b, y⟩ := e
      obtain ⟨-, next, hnode, hrest⟩ := h
      rcases List.mem_cons.mp hmem with heq | hmem
      · obtain ⟨rfl, rfl⟩ := Prod.mk.inj heq
        exact ⟨next, hnode⟩
      · exact ih hrest hmem

theorem isNone_iff (h : Chain heap pointer entries) : pointer.isNone = true ↔ entries = [] := by
  cases entries with
  | nil =>
      rw [show pointer = none from h]
      simp
  | cons e rest =>
      obtain ⟨a, x⟩ := e
      rw [h.1]
      simp

/-- A link is stored behind the last entry. -/
theorem concat (h : Chain heap pointer (entries ++ [(b, y)]))
    (hnodup : (addresses (entries ++ [(b, y)])).Nodup) (ha : a ∉ addresses (entries ++ [(b, y)]))
    (hnode : heap a = some ⟨x, none⟩) :
    Chain (Function.update heap b (some ⟨y, some a⟩)) pointer (entries ++ [(b, y), (a, x)]) := by
  induction entries generalizing pointer with
  | nil =>
      obtain ⟨hpointer, next, -, -⟩ := h
      have hab : a ≠ b := fun heq => ha (heq ▸ List.mem_singleton_self b)
      refine ⟨hpointer, some a, Function.update_self _ _ _, rfl, none, ?_, rfl⟩
      rw [Function.update_of_ne hab]
      exact hnode
  | cons e rest ih =>
      obtain ⟨c, z⟩ := e
      obtain ⟨hpointer, next, hnext, hrest⟩ := h
      simp only [List.cons_append, addresses_cons, List.nodup_cons, List.mem_cons, not_or] at hnodup ha
      have hcb : c ≠ b := by
        rintro rfl
        exact hnodup.1 (by simp)
      refine ⟨hpointer, next, ?_, ih hrest hnodup.2 ha.2⟩
      rw [Function.update_of_ne hcb]
      exact hnext

end Chain

/-! ### What the operations do -/

/-- What stays when links of some blocks are written: the other blocks, and which are allocated. -/
structure Frame (heap heap' : Nat → Option (Node α)) (touched : List Nat) : Prop where
  same : ∀ b, b ∉ touched → heap' b = heap b
  allocated : ∀ b, (heap' b).isSome = (heap b).isSome

namespace Frame

variable {touched : List Nat}

theorem update (ha : a ∈ touched) (hsome : (heap a).isSome = true) (node : Node α) :
    Frame heap (Function.update heap a (some node)) touched where
  same b hb := by
    apply Function.update_of_ne
    rintro rfl
    exact hb ha
  allocated b := by
    by_cases hba : b = a
    · subst hba
      rw [Function.update_self, hsome]
      rfl
    · rw [Function.update_of_ne hba]

theorem trans {heap'' : Nat → Option (Node α)} (h : Frame heap heap' touched)
    (h' : Frame heap' heap'' touched) : Frame heap heap'' touched where
  same b hb := (h'.same b hb).trans (h.same b hb)
  allocated b := (h'.allocated b).trans (h.allocated b)

end Frame

namespace Holds

theorem init (m : Memory α) : Holds m.init [] := ⟨rfl, rfl, List.nodup_nil⟩

theorem first (h : Holds m ((a, x) :: rest)) : m.stqhFirst = some a := h.chain.1

/-- Blocks that are not in the queue do not matter to it. -/
theorem congr (h : Holds m entries) (hsame : ∀ a ∈ addresses entries, heap' a = m.heap a) :
    Holds { m with heap := heap' } entries := ⟨h.chain.congr hsame, h.last, h.nodup⟩

theorem malloc (h : Holds m entries) (ha : m.heap a = none) (node : Node α) :
    m.malloc a node = some { m with heap := Function.update m.heap a (some node) } ∧
      Holds { m with heap := Function.update m.heap a (some node) } entries := by
  refine ⟨?_, h.congr fun b hb => Function.update_of_ne ?_ _ _⟩
  · rw [Memory.malloc, ha]
    rfl
  · rintro rfl
    have hsome := h.chain.allocated hb
    rw [ha] at hsome
    cases hsome

theorem free (h : Holds m entries) (hsome : (m.heap a).isSome = true) (ha : a ∉ addresses entries) :
    m.free a = some { m with heap := Function.update m.heap a none } ∧
      Holds { m with heap := Function.update m.heap a none } entries := by
  refine ⟨if_pos hsome, h.congr fun b hb => Function.update_of_ne ?_ _ _⟩
  rintro rfl
  exact ha hb

theorem removeHead (h : Holds m ((a, x) :: rest)) :
    ∃ m', m.removeHead = some m' ∧ m'.heap = m.heap ∧ Holds m' rest := by
  obtain ⟨hpointer, next, hnode, hrest⟩ := h.chain
  have hlast := h.last
  have hremove : m.removeHead = some { m with
      stqhFirst := next
      stqhLast := if next.isNone then .first else m.stqhLast } := by
    rw [Memory.removeHead, hpointer, Option.bind_some, hnode]
    rfl
  refine ⟨_, hremove, rfl, hrest, ?_, (List.nodup_cons.mp h.nodup).2⟩
  dsimp only
  cases rest with
  | nil => rw [if_pos (hrest.isNone_iff.mpr rfl)]; rfl
  | cons e rest =>
      rw [if_neg fun hnone => List.cons_ne_nil _ _ (hrest.isNone_iff.mp hnone), hlast,
        lastSlot_cons_cons]

theorem nodup_concat (h : Holds m entries) (ha : a ∉ addresses entries) (x : α) :
    (addresses (entries ++ [(a, x)])).Nodup := by
  rw [addresses_append, addresses_cons, addresses_nil, List.nodup_append]
  refine ⟨h.nodup, List.pairwise_singleton _ _, ?_⟩
  intro b hb c hc hbc
  rw [hbc, List.mem_singleton.mp hc] at hb
  exact ha hb

/-- `STAILQ_INSERT_TAIL` of an allocated block that is not in the queue yet. -/
theorem insertTail (h : Holds m entries) {junk : Option Nat} (hnode : m.heap a = some ⟨x, junk⟩)
    (ha : a ∉ addresses entries) :
    ∃ m', m.insertTail a = some m' ∧ Holds m' (entries ++ [(a, x)]) ∧
      Frame m.heap m'.heap (addresses (entries ++ [(a, x)])) := by
  have hmem : a ∈ addresses (entries ++ [(a, x)]) := by simp
  have hcleared : m.store (.next a) none
      = some { m with heap := Function.update m.heap a (some ⟨x, none⟩) } := by
    rw [Memory.store, hnode]
    rfl
  have hframe : Frame m.heap (Function.update m.heap a (some ⟨x, none⟩))
      (addresses (entries ++ [(a, x)])) := .update hmem (by rw [hnode]; rfl) _
  have hholds : Holds { m with heap := Function.update m.heap a (some ⟨x, none⟩) } entries := by
    apply h.congr
    intro b hb
    apply Function.update_of_ne
    rintro rfl
    exact ha hb
  have hnodup := h.nodup_concat ha x
  rw [Memory.insertTail, hcleared, Option.bind_some]
  rcases List.eq_nil_or_concat entries with rfl | ⟨front, ⟨b, y⟩, rfl⟩
  · have hlast : m.stqhLast = .first := h.last
    rw [hlast]
    exact ⟨_, rfl, ⟨⟨rfl, none, Function.update_self _ _ _, rfl⟩, rfl, hnodup⟩, hframe⟩
  · rw [List.concat_eq_append] at *
    have hlast : m.stqhLast = .next b := h.last.trans lastSlot_concat
    obtain ⟨link, hb⟩ := hholds.chain.node (List.mem_append_right front (List.mem_singleton_self (b, y)))
    have hchain := hholds.chain.concat hholds.nodup ha (Function.update_self a (some ⟨x, none⟩) m.heap)
    rw [hlast]
    dsimp only [Memory.store] at hb ⊢
    rw [hb]
    refine ⟨_, rfl, ⟨?_, lastSlot_concat.symm, hnodup⟩, ?_⟩
    · rw [List.append_assoc]
      exact hchain
    · exact hframe.trans (.update (by simp) (by rw [hb]; rfl) _)

end Holds

end TailQueue
