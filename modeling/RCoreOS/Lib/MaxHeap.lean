import Mathlib.Data.List.Sort
import Mathlib.Data.Multiset.AddSub
import Mathlib.Data.Multiset.Filter

/-!
# Heaps that hand out a maximum

A heap is taken by what it holds and by the element that it hands out next,
one that no other element is above.  Which of several maxima that is, and how
the elements are kept, is left open.

The loop that takes elements out as long as a test allows it comes with its
specification: what was taken is in descending order and above the rest, and
the maximum of the rest fails the test.
-/

namespace RCoreOS.Lib

open List

/-- A heap with the operations of a priority queue. -/
structure MaxHeap (α : Type) (le : α → α → Prop) where
  Carrier : Type
  items : Carrier → Multiset α
  empty : Carrier
  push : α → Carrier → Carrier
  peek : Carrier → Option α
  pop : Carrier → Carrier
  drain : Carrier → List α
  items_empty : items empty = 0
  items_push : ∀ element heap, items (push element heap) = element ::ₘ items heap
  items_of_peek_none : ∀ heap, peek heap = none → items heap = 0
  items_of_peek : ∀ heap top, peek heap = some top → items heap = top ::ₘ items (pop heap)
  le_of_peek : ∀ heap top, peek heap = some top → ∀ other ∈ items heap, le other top
  coe_drain : ∀ heap, (drain heap : Multiset α) = items heap

namespace MaxHeap

variable {α : Type} {le : α → α → Prop}

/-! ## Taking elements out -/

/-- Pop while the maximum passes the test; what was taken, in order. -/
def popWhile (heap : MaxHeap α le) (test : α → Bool) (content : heap.Carrier) :
    List α × heap.Carrier :=
  match found : heap.peek content with
  | none => ([], content)
  | some top =>
    if test top then
      let (taken, rest) := heap.popWhile test (heap.pop content)
      (top :: taken, rest)
    else ([], content)
termination_by (heap.items content).card
decreasing_by
  have items := heap.items_of_peek content top found
  rw [items, Multiset.card_cons]
  exact Nat.lt_succ_self _

/-- What `popWhile` took from the heap, and what it left. -/
structure Popped (heap : MaxHeap α le) (test : α → Bool)
    (content : heap.Carrier) (taken : List α) (rest : heap.Carrier) :
    Prop where
  split : heap.items content = (taken : Multiset α) + heap.items rest
  passed : ∀ element ∈ taken, test element = true
  descending : taken.Pairwise fun earlier later => le later earlier
  above : ∀ element ∈ taken, ∀ other ∈ heap.items rest, le other element
  stopped :
    heap.items rest ≠ 0 →
      ∃ top ∈ heap.items rest,
        test top = false ∧ ∀ other ∈ heap.items rest, le other top

theorem popWhile_popped (heap : MaxHeap α le) (test : α → Bool)
    (content : heap.Carrier) :
    heap.Popped test content (heap.popWhile test content).1
      (heap.popWhile test content).2 := by
  -- along the loop: the heap is empty, the maximum passes, or it fails
  fun_induction heap.popWhile test content with
  | case1 content found =>
    constructor
    · rw [Multiset.coe_nil, Multiset.zero_add]
    · exact nofun
    · exact List.Pairwise.nil
    · exact nofun
    · intro more
      exact absurd (heap.items_of_peek_none content found) more
  | case2 content top found passes taken rest popped ih =>
    rw [popped] at ih
    have items := heap.items_of_peek content top found
    have below := heap.le_of_peek content top found
    rw [items, ih.split] at below
    constructor
    · rw [items, ih.split, ← Multiset.cons_coe, Multiset.cons_add]
    · intro element member
      rcases mem_cons.mp member with rfl | later
      · exact passes
      · exact ih.passed element later
    · apply List.Pairwise.cons _ ih.descending
      intro later member
      apply below
      exact Multiset.mem_cons_of_mem
        (Multiset.mem_add.mpr (.inl (Multiset.mem_coe.mpr member)))
    · intro element member other inRest
      rcases mem_cons.mp member with rfl | later
      · apply below
        exact Multiset.mem_cons_of_mem (Multiset.mem_add.mpr (.inr inRest))
      · exact ih.above element later other inRest
    · exact ih.stopped
  | case3 content top found fails =>
    constructor
    · rw [Multiset.coe_nil, Multiset.zero_add]
    · exact nofun
    · exact List.Pairwise.nil
    · exact nofun
    · intro _
      refine ⟨top, ?_, Bool.eq_false_of_not_eq_true fails,
        heap.le_of_peek content top found⟩
      rw [heap.items_of_peek content top found]
      exact Multiset.mem_cons_self _ _

/-! ## Filling a heap -/

/-- Push the elements of a list one after the other. -/
def pushAll (heap : MaxHeap α le) (elements : List α) (content : heap.Carrier) :
    heap.Carrier :=
  elements.foldl (fun content element => heap.push element content) content

/-! ## Sorted lists -/

/-- The heap that keeps a list in descending order. -/
def sorted (le : α → α → Prop) [DecidableRel le] [Std.Total le]
    [IsTrans α le] : MaxHeap α le where
  Carrier := { elements : List α // elements.Pairwise fun a b => le b a }
  items heap := heap.val
  empty := ⟨[], List.Pairwise.nil⟩
  push element heap :=
    have : Std.Total fun a b => le b a := ⟨fun a b => Std.Total.total b a⟩
    have : IsTrans α fun a b => le b a :=
      ⟨fun _ _ _ first second => IsTrans.trans _ _ _ second first⟩
    ⟨heap.val.orderedInsert (fun a b => le b a) element,
      heap.property.orderedInsert element heap.val⟩
  peek heap := heap.val.head?
  pop heap := ⟨heap.val.tail, heap.property.sublist (tail_sublist _)⟩
  drain heap := heap.val
  items_empty := rfl
  items_push element heap :=
    Multiset.coe_eq_coe.mpr (perm_orderedInsert _ element heap.val)
  items_of_peek_none heap none := by
    rw [head?_eq_none_iff] at none
    exact congrArg _ none
  items_of_peek heap top found := by
    obtain ⟨elements, ordered⟩ := heap
    obtain ⟨rest, rfl⟩ := head?_eq_some_iff.mp found
    rfl
  le_of_peek heap top found := by
    intro other member
    obtain ⟨elements, ordered⟩ := heap
    obtain ⟨rest, rfl⟩ := head?_eq_some_iff.mp found
    rcases mem_cons.mp (Multiset.mem_coe.mp member) with rfl | later
    · exact (Std.Total.total other other).elim id id
    · exact (pairwise_cons.mp ordered).1 other later
  coe_drain _ := rfl

end MaxHeap

end RCoreOS.Lib
