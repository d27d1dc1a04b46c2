import Mathlib.Order.Lattice
import Mathlib.Logic.Function.Basic

set_option autoImplicit false

/- The standard library's `BinaryHeap` (`alloc::collections::binary_heap`), which orders the
World's in-flight envelopes. Its `Vec` is a buffer `data : Nat → α` whose first `len` cells are the
elements. The heap compares elements only through `key`, and is a max-heap for it:
`BinaryHeap<Reverse<Entry>>` is `key = toDual ∘ arrival_time`. Equal keys are not told apart. -/
namespace Amaru.Heap

variable {α β : Type} [LinearOrder β] (key : α → β)

/-- `Hole`: the buffer with the element at `pos` taken out. The cell at `pos` is stale until the
hole is dropped, which writes the element back. -/
structure Hole (α : Type) where
  data : Nat → α
  element : α
  pos : Nat

namespace Hole

def new (data : Nat → α) (pos : Nat) : Hole α := ⟨data, data pos, pos⟩

def get (hole : Hole α) (index : Nat) : α := hole.data index

/-- Moves the element at `index` into the hole, so that the hole is now at `index`. -/
def moveTo (hole : Hole α) (index : Nat) : Hole α :=
  ⟨Function.update hole.data hole.pos (hole.data index), hole.element, index⟩

/-- The buffer once the hole is dropped. -/
def fill (hole : Hole α) : Nat → α := Function.update hole.data hole.pos hole.element

@[simp] theorem new_pos (data : Nat → α) (pos : Nat) : (new data pos).pos = pos := rfl
@[simp] theorem moveTo_pos (hole : Hole α) (index : Nat) : (hole.moveTo index).pos = index := rfl
@[simp] theorem moveTo_element (hole : Hole α) (index : Nat) :
    (hole.moveTo index).element = hole.element := rfl

end Hole

/-- The loop of `sift_up`: while above `start`, move the parent down into the hole until the
element is at most its parent. -/
def siftUpLoop (start : Nat) (hole : Hole α) : Hole α :=
  if start < hole.pos then
    let parent := (hole.pos - 1) / 2
    if key hole.element ≤ key (hole.get parent) then hole
    else siftUpLoop start (hole.moveTo parent)
  else hole
termination_by hole.pos
decreasing_by simp only [Hole.moveTo_pos]; omega

/-- `sift_up(start, pos)`: the buffer after the sift, and the element's final position. -/
def siftUp (data : Nat → α) (start pos : Nat) : (Nat → α) × Nat :=
  let hole := siftUpLoop key start (Hole.new data pos)
  (hole.fill, hole.pos)

/-- The child a downward sift moves to when the hole has two children: the right one when
`hole.get(child) <= hole.get(child + 1)`, the left one otherwise. -/
def greaterChild (hole : Hole α) : Nat :=
  let child := 2 * hole.pos + 1
  child + if key (hole.get child) ≤ key (hole.get (child + 1)) then 1 else 0

theorem greaterChild_eq (hole : Hole α) :
    greaterChild key hole = 2 * hole.pos + 1 ∨ greaterChild key hole = 2 * hole.pos + 2 := by
  simp only [greaterChild]
  split <;> omega

/-- The loop of `sift_down_range`: move the greater child up into the hole while it exceeds the
element. -/
def siftDownRangeLoop (stop : Nat) (hole : Hole α) : Hole α :=
  if 2 * hole.pos + 1 ≤ stop - 2 then
    if key (hole.get (greaterChild key hole)) ≤ key hole.element then hole
    else siftDownRangeLoop stop (hole.moveTo (greaterChild key hole))
  else if 2 * hole.pos + 1 = stop - 1 ∧ key hole.element < key (hole.get (2 * hole.pos + 1)) then
    hole.moveTo (2 * hole.pos + 1)
  else hole
termination_by stop - hole.pos
decreasing_by simp only [Hole.moveTo_pos]; have := greaterChild_eq key hole; omega

/-- `sift_down_range(pos, end)`, where `stop` is `end`. -/
def siftDownRange (data : Nat → α) (pos stop : Nat) : Nat → α :=
  (siftDownRangeLoop key stop (Hole.new data pos)).fill

/-- `sift_down(pos)`. -/
def siftDown (data : Nat → α) (len pos : Nat) : Nat → α :=
  siftDownRange key data pos len

/-- The loop of `sift_down_to_bottom`: move the greater child up into the hole while the hole
has two children, without comparing with the element. -/
def siftDownToBottomLoop (stop : Nat) (hole : Hole α) : Hole α :=
  if 2 * hole.pos + 1 ≤ stop - 2 then
    siftDownToBottomLoop stop (hole.moveTo (greaterChild key hole))
  else hole
termination_by stop - hole.pos
decreasing_by simp only [Hole.moveTo_pos]; have := greaterChild_eq key hole; omega

/-- `sift_down_to_bottom(pos)`: the hole goes down to a leaf, then the element sifts up again,
no higher than `pos`. -/
def siftDownToBottom (data : Nat → α) (len pos : Nat) : Nat → α :=
  let stop := len
  let start := pos
  let hole := siftDownToBottomLoop key stop (Hole.new data pos)
  let child := 2 * hole.pos + 1
  let hole := if child = stop - 1 then hole.moveTo child else hole
  (siftUp key hole.fill start hole.pos).1

/-- `rebuild` from position `n`: `sift_down` at `n - 1`, ..., `0`. -/
def rebuildFrom (len : Nat) : Nat → (Nat → α) → Nat → α
  | 0, data => data
  | n + 1, data => rebuildFrom len n (siftDown key data len n)

def rebuild (data : Nat → α) (len : Nat) : Nat → α :=
  rebuildFrom key len (len / 2) data

end Amaru.Heap
