import Amaru.Heap.SiftOrder
import Mathlib.Data.Multiset.Range

set_option autoImplicit false

/- `BinaryHeap` with its order as a field, so that every heap the World holds is ordered. Its
operations are the standard library's `from`, `push` and `pop`, and their specifications say
what they do to the heap's elements as a multiset: the elements are all that the World's
refinement needs. -/
namespace Amaru.Heap

variable {α β : Type} [LinearOrder β] (key : α → β)

/-- The first `len` cells of a buffer. -/
def contents (data : Nat → α) (len : Nat) : Multiset α := ((List.range len).map data : List α)

theorem mem_contents {data : Nat → α} {len : Nat} {item : α} :
    item ∈ contents data len ↔ ∃ i < len, data i = item := by
  simp [contents]

theorem contents_succ (data : Nat → α) (len : Nat) :
    contents data (len + 1) = contents data len + {data len} := by
  simp only [contents, List.range_succ, List.map_append, List.map_cons, List.map_nil,
    ← Multiset.coe_add, Multiset.coe_singleton]

theorem contents_pred (data : Nat → α) {len : Nat} (positive : 0 < len) :
    contents data len = contents data (len - 1) + {data (len - 1)} := by
  obtain ⟨n, rfl⟩ : ∃ n, len = n + 1 := ⟨len - 1, by omega⟩
  exact contents_succ data n

theorem contents_congr {data other : Nat → α} {len : Nat} (same : ∀ i < len, data i = other i) :
    contents data len = contents other len := by
  simp only [contents]
  congr 1
  exact List.map_congr_left fun i mem => same i (List.mem_range.mp mem)

/-- Overwriting a cell trades its old element for the new one. -/
theorem contents_update (data : Nat → α) {len i : Nat} (inside : i < len) (item : α) :
    contents (Function.update data i item) len + {data i} = contents data len + {item} := by
  induction len with
  | zero => omega
  | succ len ih =>
    rw [contents_succ, contents_succ]
    by_cases atLast : i = len
    · subst atLast
      rw [contents_congr fun k below => Function.update_noteq (by omega) item data,
        Function.update_same, add_right_comm]
    · rw [Function.update_noteq (Ne.symm atLast), add_right_comm, ih (by omega), add_right_comm]

theorem contents_swap (data : Nat → α) {len i j : Nat} (left : i < len) (right : j < len) :
    contents (swap data i j) len = contents data len := by
  by_cases same : i = j
  · subst same
    simp [swap]
  · have first := contents_update data left (data j)
    have second := contents_update (Function.update data i (data j)) right (data i)
    rw [Function.update_noteq (Ne.symm same)] at second
    exact add_right_cancel (second.trans first)

theorem Hole.contents_moveTo (hole : Hole α) {len index : Nat} (ne : index ≠ hole.pos)
    (posInside : hole.pos < len) (indexInside : index < len) :
    contents (hole.moveTo index).fill len = contents hole.fill len := by
  rw [Hole.fill_moveTo _ ne, contents_swap _ posInside indexInside]

theorem siftUpLoop_contents {len : Nat} (start : Nat) (hole : Hole α) (inside : hole.pos < len) :
    contents (siftUpLoop key start hole).fill len = contents hole.fill len := by
  induction hole using siftUpLoop.induct key start with
  | case1 hole above _ stop => rw [siftUpLoop, if_pos above, if_pos stop]
  | case2 hole above _ climb ih =>
    rw [siftUpLoop, if_pos above, if_neg climb, ih (by simp only [Hole.moveTo_pos]; omega),
      hole.contents_moveTo (by omega) inside (by omega)]
  | case3 hole top => rw [siftUpLoop, if_neg top]

theorem siftDownToBottomLoop_contents (stop : Nat) (hole : Hole α) (inside : hole.pos < stop) :
    contents (siftDownToBottomLoop key stop hole).fill stop = contents hole.fill stop ∧
      (siftDownToBottomLoop key stop hole).pos < stop := by
  induction hole using siftDownToBottomLoop.induct key stop with
  | case1 hole both ih =>
    have child := greaterChild_eq key hole
    rw [siftDownToBottomLoop, if_pos both,
      ← hole.contents_moveTo (show greaterChild key hole ≠ hole.pos by omega) inside (by omega)]
    exact ih (by simp only [Hole.moveTo_pos]; omega)
  | case2 hole last =>
    rw [siftDownToBottomLoop, if_neg last]
    exact ⟨rfl, inside⟩

theorem siftDownRangeLoop_contents (stop : Nat) (hole : Hole α) (inside : hole.pos < stop) :
    contents (siftDownRangeLoop key stop hole).fill stop = contents hole.fill stop := by
  induction hole using siftDownRangeLoop.induct key stop with
  | case1 hole both settled => rw [siftDownRangeLoop, if_pos both, if_pos settled]
  | case2 hole both climb ih =>
    have child := greaterChild_eq key hole
    rw [siftDownRangeLoop, if_pos both, if_neg climb, ih (by simp only [Hole.moveTo_pos]; omega),
      hole.contents_moveTo (by omega) inside (by omega)]
  | case3 hole notBoth moves =>
    rw [siftDownRangeLoop, if_neg notBoth, if_pos moves,
      hole.contents_moveTo (by omega) inside (by omega)]
  | case4 hole notBoth settled => rw [siftDownRangeLoop, if_neg notBoth, if_neg settled]

theorem siftDownToBottom_contents (data : Nat → α) {len : Nat} (positive : 0 < len) :
    contents (siftDownToBottom key data len 0) len = contents data len := by
  obtain ⟨same, inside⟩ := siftDownToBottomLoop_contents key len (Hole.new data 0)
    (by simpa using positive)
  simp only [siftDownToBottom, siftUp]
  split_ifs with onlyChild
  · rw [siftUpLoop_contents key 0 _ (by simp only [Hole.new_pos, Hole.moveTo_pos]; omega),
      Hole.fill_new, Hole.contents_moveTo _ (by omega) inside (by omega), same, Hole.fill_new]
  · rw [siftUpLoop_contents key 0 _ (by simpa using inside), Hole.fill_new, same, Hole.fill_new]

theorem rebuildFrom_contents {len : Nat} :
    ∀ n (data : Nat → α), n ≤ len / 2 → contents (rebuildFrom key len n data) len = contents data len
  | 0, _, _ => rfl
  | n + 1, data, bound => by
    rw [rebuildFrom, rebuildFrom_contents n _ (by omega), siftDown, siftDownRange,
      siftDownRangeLoop_contents key len _ (by simp only [Hole.new_pos]; omega), Hole.fill_new]

/-- The root of an ordered buffer is its greatest element. -/
theorem Ordered.le_root {data : Nat → α} {len : Nat} (ordered : Ordered key data len) (i : Nat)
    (inside : i < len) : key (data i) ≤ key (data 0) := by
  induction i using Nat.strong_induction_on with
  | _ i ih =>
    rcases Nat.eq_zero_or_pos i with rfl | positive
    · exact le_rfl
    · exact (ordered i positive inside).trans (ih _ (by omega) (by omega))

theorem push_ready {data : Nat → α} {len : Nat} (ordered : Ordered key data len) (item : α) :
    UpReady key (Function.update data len item) (len + 1) len where
  inside := Nat.lt_succ_self len
  except i positive inside notLast := by
    rw [Function.update_noteq notLast, Function.update_noteq (by omega)]
    exact ordered i positive (by omega)
  grand _ c _ inside parent := absurd inside (by omega)

theorem pop_ready {data : Nat → α} {len : Nat} (ordered : Ordered key data (len + 1))
    (positive : 0 < len) : DownReady key (Function.update data 0 (data len)) 0 len 0 where
  inside := positive
  except i positive' inside _ notRoot parentNotRoot := by
    rw [Function.update_noteq notRoot, Function.update_noteq parentNotRoot]
    exact ordered i positive' (by omega)
  grand below := absurd below (Nat.lt_irrefl 0)

/-- A `BinaryHeap`: its buffer, its length, and the order every operation keeps. -/
structure BinaryHeap where
  data : Nat → α
  len : Nat
  ordered : Ordered key data len

namespace BinaryHeap

variable {key}

/-- The elements of the heap. -/
def elements (heap : BinaryHeap key) : Multiset α := contents heap.data heap.len

/-- `BinaryHeap::from(vec)`. -/
def fromVec [Inhabited α] (key : α → β) (vec : List α) : BinaryHeap key :=
  ⟨rebuild key (fun i => vec.getD i default) vec.length, vec.length, rebuild_ordered key _ _⟩

/-- `push`: the item goes at the end of the buffer and sifts up. -/
def push (heap : BinaryHeap key) (item : α) : BinaryHeap key :=
  let oldLen := heap.len
  ⟨(siftUp key (Function.update heap.data oldLen item) 0 oldLen).1, oldLen + 1,
    siftUpLoop_ordered key _ (by simpa using push_ready key heap.ordered item)⟩

theorem pop_ordered (heap : BinaryHeap key) (nonempty : heap.len ≠ 0)
    (notLast : heap.len - 1 ≠ 0) :
    Ordered key (siftDownToBottom key (Function.update heap.data 0 (heap.data (heap.len - 1)))
      (heap.len - 1) 0) (heap.len - 1) := by
  have ordered : Ordered key heap.data (heap.len - 1 + 1) := by
    rw [Nat.sub_add_cancel (Nat.pos_of_ne_zero nonempty)]
    exact heap.ordered
  exact siftDownToBottom_ordered key (pop_ready key ordered (Nat.pos_of_ne_zero notLast))

/-- `pop`: the last element replaces the root, which is returned, and sifts down to the
bottom. -/
def pop (heap : BinaryHeap key) : Option α × BinaryHeap key :=
  if nonempty : heap.len = 0 then (none, heap) else
  let len := heap.len - 1
  let item := heap.data len
  if last : len = 0 then
    (some item, ⟨heap.data, len, fun _ _ inside => absurd inside (by omega)⟩)
  else
    (some (heap.data 0), ⟨siftDownToBottom key (Function.update heap.data 0 item) len 0, len,
      pop_ordered heap nonempty last⟩)

theorem elements_fromVec [Inhabited α] (vec : List α) : (fromVec key vec).elements = vec := by
  simp only [elements, fromVec, rebuild]
  rw [rebuildFrom_contents key _ _ (Nat.le_refl _), contents]
  congr 1
  apply List.ext_getElem (by simp)
  intro n inside _
  simp [List.getElem?_eq_getElem (by simpa using inside)]

theorem elements_push (heap : BinaryHeap key) (item : α) :
    (heap.push item).elements = heap.elements + {item} := by
  simp only [elements, push, siftUp]
  rw [siftUpLoop_contents key 0 _ (by simp), Hole.fill_new, contents_succ, Function.update_same]
  congr 1
  exact contents_congr fun i below => Function.update_noteq (by omega) _ _

theorem pop_of_len_eq_zero {heap : BinaryHeap key} (empty : heap.len = 0) :
    heap.pop = (none, heap) := by
  simp [pop, empty]

theorem pop_fst_isSome {heap : BinaryHeap key} (nonempty : heap.len ≠ 0) :
    heap.pop.1.isSome := by
  simp only [pop, nonempty, ↓reduceDIte]
  split <;> rfl

@[simp] theorem card_elements (heap : BinaryHeap key) : Multiset.card heap.elements = heap.len := by
  simp [elements, contents]

theorem elements_eq_zero {heap : BinaryHeap key} : heap.elements = 0 ↔ heap.len = 0 := by
  simp [elements, contents]

/-- `pop` returns `None` only on an empty heap, and then leaves it as it is. -/
theorem pop_none {heap rest : BinaryHeap key} (popped : heap.pop = (none, rest)) :
    rest = heap ∧ heap.elements = 0 := by
  by_cases empty : heap.len = 0
  · rw [pop_of_len_eq_zero empty, Prod.mk.injEq] at popped
    exact ⟨popped.2.symm, by simp [elements, contents, empty]⟩
  · have := pop_fst_isSome empty
    simp [popped] at this

/-- A popped element leaves the heap, and no element of the heap exceeds it. -/
theorem pop_some {heap rest : BinaryHeap key} {item : α} (popped : heap.pop = (some item, rest)) :
    heap.elements = rest.elements + {item} ∧ ∀ other ∈ heap.elements, key other ≤ key item := by
  simp only [pop] at popped
  split_ifs at popped with empty last
  · simp at popped
  all_goals simp only [Prod.mk.injEq, Option.some.injEq] at popped; obtain ⟨rfl, rfl⟩ := popped
  · refine ⟨?_, fun other mem => ?_⟩
    · exact contents_pred _ (by omega)
    · obtain ⟨i, inside, rfl⟩ := mem_contents.mp mem
      rw [show i = heap.len - 1 by omega]
  · have positive : 0 < heap.len - 1 := by omega
    refine ⟨?_, fun other mem => ?_⟩
    · rw [elements, elements, siftDownToBottom_contents key _ positive,
        contents_update _ positive, contents_pred _ (by omega)]
    · obtain ⟨i, inside, rfl⟩ := mem_contents.mp mem
      exact heap.ordered.le_root key i inside

end BinaryHeap

end Amaru.Heap
