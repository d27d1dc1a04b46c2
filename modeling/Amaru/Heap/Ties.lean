import Amaru.Heap.BinaryHeap

set_option autoImplicit false

/- The heap on equal keys. `Entry::cmp` compares arrival times only, so entries due at one time
are equal to the heap, and which of them `pop` returns next is decided by the buffer's layout.
On a tied buffer no sift stops a hole early or lets an element climb, so the layout can be
followed exactly: `rebuild` leaves the buffer as it is, and `pop` on four elements or more puts
the root's right child in its place, since `sift_down_to_bottom` takes the right child when
`hole.get(child) <= hole.get(child + 1)`. -/
namespace Amaru.Heap

variable {α β : Type} [LinearOrder β] (key : α → β)

/-- Every element of the first `len` cells has the key `k`. -/
def Tied (data : Nat → α) (len : Nat) (k : β) : Prop := ∀ i < len, key (data i) = k

/-- A hole inside the first `len` cells of a tied buffer, holding an element of the same key. -/
structure TiedHole (len : Nat) (k : β) (hole : Hole α) : Prop where
  tied : Tied key hole.data len k
  element : key hole.element = k
  inside : hole.pos < len

variable {key}

omit [LinearOrder β] in
theorem Tied.update {data : Nat → α} {len : Nat} {k : β} (tied : Tied key data len k) (i : Nat)
    {item : α} (same : key item = k) : Tied key (Function.update data i item) len k := by
  intro j inside
  by_cases atI : j = i
  · rw [atI, Function.update_same, same]
  · rw [Function.update_noteq atI, tied j inside]

omit [LinearOrder β] in
theorem Tied.new {data : Nat → α} {len pos : Nat} {k : β} (tied : Tied key data len k)
    (inside : pos < len) : TiedHole key len k (Hole.new data pos) :=
  ⟨tied, tied pos inside, inside⟩

namespace TiedHole

variable {len : Nat} {k : β} {hole : Hole α}

omit [LinearOrder β] in
theorem moveTo (tiedHole : TiedHole key len k hole) {index : Nat} (indexInside : index < len) :
    TiedHole key len k (hole.moveTo index) :=
  ⟨tiedHole.tied.update _ (tiedHole.tied index indexInside), tiedHole.element, indexInside⟩

omit [LinearOrder β] in
theorem fill (tiedHole : TiedHole key len k hole) : Tied key hole.fill len k :=
  tiedHole.tied.update _ tiedHole.element

end TiedHole

variable (key)

/-- `sift_down_range` on a tied buffer stops where it starts. -/
theorem siftDownRangeLoop_of_tied {data : Nat → α} {stop pos : Nat} {k : β}
    (tied : Tied key data stop k) (inside : pos < stop) :
    siftDownRangeLoop key stop (Hole.new data pos) = Hole.new data pos := by
  have child := greaterChild_eq key (Hole.new data pos)
  have element : key (data pos) = k := tied pos inside
  rw [siftDownRangeLoop]
  simp only [Hole.new_pos] at child ⊢
  split_ifs with both settled moves
  · rfl
  · exact absurd ((tied _ (by omega)).trans element.symm).le settled
  · exact absurd moves.2 (((tied (2 * pos + 1) (by omega)).trans element.symm).symm ▸ lt_irrefl _)
  · rfl

theorem rebuildFrom_of_tied {data : Nat → α} {len : Nat} {k : β} (tied : Tied key data len k) :
    ∀ n, n ≤ len / 2 → rebuildFrom key len n data = data
  | 0, _ => rfl
  | n + 1, bound => by
    rw [rebuildFrom, siftDown, siftDownRange, siftDownRangeLoop_of_tied key tied (by omega),
      Hole.fill_new, rebuildFrom_of_tied tied n (by omega)]

/-- `sift_up` on a tied hole does not move it. -/
theorem siftUpLoop_of_tied {len : Nat} {k : β} (start : Nat) {hole : Hole α}
    (tiedHole : TiedHole key len k hole) : siftUpLoop key start hole = hole := by
  have parent := tiedHole.tied ((hole.pos - 1) / 2) (by have := tiedHole.inside; omega)
  rw [siftUpLoop]
  dsimp only
  split_ifs with above climb
  · rfl
  · exact absurd (tiedHole.element.trans parent.symm).le climb
  · rfl

theorem siftDownToBottomLoop_of_tied {stop : Nat} {k : β} {hole : Hole α}
    (tiedHole : TiedHole key stop k hole) : TiedHole key stop k (siftDownToBottomLoop key stop hole) := by
  induction hole using siftDownToBottomLoop.induct key stop with
  | case1 hole both ih =>
    have child := greaterChild_eq key hole
    rw [siftDownToBottomLoop, if_pos both]
    exact ih (tiedHole.moveTo (by omega))
  | case2 hole last => rwa [siftDownToBottomLoop, if_neg last]

/-- The loop of `sift_down_to_bottom` only moves the hole down, and writes no cell above where
it starts. -/
theorem siftDownToBottomLoop_frame (stop : Nat) (hole : Hole α) :
    hole.pos ≤ (siftDownToBottomLoop key stop hole).pos ∧
      ∀ i < hole.pos, (siftDownToBottomLoop key stop hole).data i = hole.data i := by
  induction hole using siftDownToBottomLoop.induct key stop with
  | case1 hole both ih =>
    have child := greaterChild_eq key hole
    rw [siftDownToBottomLoop, if_pos both]
    simp only [Hole.moveTo_pos] at ih
    refine ⟨by omega, fun i above => ?_⟩
    rw [ih.2 i (by omega)]
    exact Function.update_noteq (by omega) _ _
  | case2 hole last =>
    rw [siftDownToBottomLoop, if_neg last]
    exact ⟨le_rfl, fun _ _ => rfl⟩

/-- `sift_down_to_bottom` from the root of a tied buffer of three cells or more: the hole first
takes the right child, which is the new root, and the buffer stays tied. -/
theorem siftDownToBottom_of_tied {data : Nat → α} {len : Nat} {k : β} (tied : Tied key data len k)
    (long : 3 ≤ len) :
    siftDownToBottom key data len 0 0 = data 2 ∧ Tied key (siftDownToBottom key data len 0) len k := by
  have right : greaterChild key (Hole.new data 0) = 2 := by
    simp [greaterChild, Hole.get, Hole.new, tied 1 (by omega), tied 2 (by omega)]
  have first : TiedHole key len k ((Hole.new data 0).moveTo 2) :=
    (tied.new (by omega)).moveTo (by omega)
  have down : siftDownToBottomLoop key len (Hole.new data 0) =
      siftDownToBottomLoop key len ((Hole.new data 0).moveTo 2) := by
    rw [siftDownToBottomLoop, if_pos (by simp only [Hole.new_pos]; omega), right]
  obtain ⟨below, kept⟩ := siftDownToBottomLoop_frame key len ((Hole.new data 0).moveTo 2)
  have ended := siftDownToBottomLoop_of_tied key first
  simp only [Hole.moveTo_pos] at below kept
  set hole := siftDownToBottomLoop key len ((Hole.new data 0).moveTo 2)
  have root : hole.data 0 = data 2 := by
    rw [kept 0 (by omega)]
    simp [Hole.moveTo, Hole.new]
  simp only [siftDownToBottom, siftUp, down]
  split_ifs with onlyChild
  · have last : TiedHole key len k (hole.moveTo (2 * hole.pos + 1)) :=
      ended.moveTo (by have := ended.inside; omega)
    rw [siftUpLoop_of_tied key 0 (last.fill.new last.inside), Hole.fill_new]
    refine ⟨?_, last.fill⟩
    simp only [Hole.fill, Hole.moveTo]
    rw [Function.update_noteq (by omega), Function.update_noteq (by omega), root]
  · rw [siftUpLoop_of_tied key 0 (ended.fill.new ended.inside), Hole.fill_new]
    refine ⟨?_, ended.fill⟩
    rw [Hole.fill, Function.update_noteq (by omega), root]

namespace BinaryHeap

variable {key}

@[simp] theorem len_push (heap : BinaryHeap key) (item : α) : (heap.push item).len = heap.len + 1 :=
  rfl

/-- `pop` on a non-empty heap returns the root. -/
theorem pop_fst {heap : BinaryHeap key} (nonempty : heap.len ≠ 0) :
    heap.pop.1 = some (heap.data 0) := by
  simp only [pop, nonempty, ↓reduceDIte]
  split_ifs with last
  · show some (heap.data (heap.len - 1)) = some (heap.data 0)
    rw [last]
  · rfl

/-- `BinaryHeap::from` leaves a tied vector where it is. -/
theorem fromVec_data_of_tied [Inhabited α] {vec : List α} {k : β} (tied : ∀ item ∈ vec, key item = k) :
    (fromVec key vec).data = fun i => vec.getD i default := by
  have tiedVec : Tied key (fun i => vec.getD i default) vec.length k := fun i inside => by
    simp only [List.getD_eq_getElem?_getD, List.getElem?_eq_getElem inside, Option.getD_some]
    exact tied _ (List.getElem_mem inside)
  exact rebuildFrom_of_tied key tiedVec _ le_rfl

theorem fromVec_tied [Inhabited α] {vec : List α} {k : β} (tied : ∀ item ∈ vec, key item = k) :
    Tied key (fromVec key vec).data (fromVec key vec).len k := by
  intro i inside
  rw [fromVec_data_of_tied tied]
  simp only [fromVec] at inside
  simp only [List.getD_eq_getElem?_getD, List.getElem?_eq_getElem inside, Option.getD_some]
  exact tied _ (List.getElem_mem inside)

/-- `pop` on a tied heap of four elements or more returns the root, and the root's right child
takes its place: the third element of the buffer comes out before the second. -/
theorem pop_of_tied {heap : BinaryHeap key} {k : β} (tied : Tied key heap.data heap.len k)
    (long : 4 ≤ heap.len) :
    heap.pop.1 = some (heap.data 0) ∧ heap.pop.2.len = heap.len - 1 ∧
      heap.pop.2.data 0 = heap.data 2 ∧ Tied key heap.pop.2.data heap.pop.2.len k := by
  have short : Tied key heap.data (heap.len - 1) k := fun i inside => tied i (by omega)
  have moved := short.update 0 (tied (heap.len - 1) (by omega))
  obtain ⟨root, stillTied⟩ := siftDownToBottom_of_tied key moved (by omega)
  simp only [pop, show heap.len ≠ 0 by omega, show heap.len - 1 ≠ 0 by omega, ↓reduceDIte]
  rw [Function.update_noteq (by omega)] at root
  exact ⟨trivial, trivial, root, stillTied⟩

/-- A heap built from four tied elements or more pops the first, and then has the third at its
root. -/
theorem fromVec_pop_of_tied [Inhabited α] {first second third fourth : α} {rest : List α}
    (tied : ∀ item ∈ first :: second :: third :: fourth :: rest, key item = key first) :
    let heap := fromVec key (first :: second :: third :: fourth :: rest)
    heap.pop.1 = some first ∧ heap.pop.2.data 0 = third ∧ heap.pop.2.len ≠ 0 ∧
      Tied key heap.pop.2.data heap.pop.2.len (key first) := by
  obtain ⟨popped, shorter, root, stillTied⟩ := pop_of_tied (fromVec_tied tied) (by simp [fromVec])
  simp only [fromVec_data_of_tied tied, List.getD_cons_zero, List.getD_cons_succ] at popped root
  exact ⟨popped, root, by rw [shorter]; simp [fromVec], stillTied⟩

/-- Pushing an element that is at most every element already there leaves the buffer as it was,
with the element at the end. -/
theorem push_data_of_le {heap : BinaryHeap key} {item : α}
    (low : ∀ i < heap.len, key item ≤ key (heap.data i)) :
    (heap.push item).data = Function.update heap.data heap.len item := by
  simp only [push, siftUp]
  rw [siftUpLoop]
  dsimp only
  split_ifs with above climb
  · exact Hole.fill_new _ _
  · simp only [Hole.new_pos] at above
    have parent : (heap.len - 1) / 2 ≠ heap.len := by omega
    exact absurd (by simpa [Hole.get, Hole.new, Function.update_noteq parent] using low _ (by omega))
      climb
  · exact Hole.fill_new _ _

end BinaryHeap

end Amaru.Heap
