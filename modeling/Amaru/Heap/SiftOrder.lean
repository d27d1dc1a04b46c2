import Amaru.Heap.Sift

set_option autoImplicit false

/- Each sift leaves the buffer ordered, from the start its caller establishes. A moving hole is
reasoned about through `Hole.fill`, the buffer as it would be if the hole were dropped there: one
move of the hole exchanges two cells of it. -/
namespace Amaru.Heap

variable {α β : Type} [LinearOrder β] (key : α → β)

/-- `data` with the cells at `i` and `j` exchanged. -/
def swap (data : Nat → α) (i j : Nat) : Nat → α :=
  Function.update (Function.update data i (data j)) j (data i)

@[simp] theorem swap_apply_right (data : Nat → α) (i j : Nat) : swap data i j j = data i := by
  simp [swap]

theorem swap_apply_left (data : Nat → α) {i j : Nat} (ne : i ≠ j) :
    swap data i j i = data j := by
  simp [swap, ne]

theorem swap_apply_of_ne (data : Nat → α) {i j k : Nat} (left : k ≠ i) (right : k ≠ j) :
    swap data i j k = data k := by
  simp [swap, left, right]

namespace Hole

@[simp] theorem fill_new (data : Nat → α) (pos : Nat) : (new data pos).fill = data :=
  Function.update_eq_self pos data

theorem fill_pos (hole : Hole α) : hole.fill hole.pos = hole.element := by
  simp [fill]

theorem get_eq_fill (hole : Hole α) {index : Nat} (ne : index ≠ hole.pos) :
    hole.get index = hole.fill index := by
  simp [get, fill, ne]

/-- One move of the hole exchanges the hole's cell with the one it moves to. -/
theorem fill_moveTo (hole : Hole α) {index : Nat} (ne : index ≠ hole.pos) :
    (hole.moveTo index).fill = swap hole.fill hole.pos index := by
  funext k
  by_cases atIndex : k = index
  · subst atIndex
    simp [fill, moveTo]
  · by_cases atPos : k = hole.pos
    · subst atPos
      rw [swap_apply_left _ (Ne.symm ne)]
      simp [fill, moveTo, atIndex, ne]
    · rw [swap_apply_of_ne _ atPos atIndex]
      simp [fill, moveTo, atIndex, atPos]

end Hole

/-- Every element below the root is at most its parent. -/
def Ordered (data : Nat → α) (len : Nat) : Prop :=
  ∀ i, 0 < i → i < len → key (data i) ≤ key (data ((i - 1) / 2))

/-- What `sift_up` needs around the hole at `pos`: every pair but the hole and its parent is
ordered, and the hole's children are at most the hole's parent. -/
structure UpReady (data : Nat → α) (len pos : Nat) : Prop where
  inside : pos < len
  except : ∀ i, 0 < i → i < len → i ≠ pos → key (data i) ≤ key (data ((i - 1) / 2))
  grand : 0 < pos → ∀ c, 0 < c → c < len → (c - 1) / 2 = pos →
    key (data c) ≤ key (data ((pos - 1) / 2))

theorem UpReady.finish {data : Nat → α} {len pos : Nat} (ready : UpReady key data len pos)
    (stop : 0 < pos → key (data pos) ≤ key (data ((pos - 1) / 2))) : Ordered key data len := by
  intro i positive inside
  by_cases atPos : i = pos
  · subst atPos
    exact stop positive
  · exact ready.except i positive inside atPos

/-- The element climbs over its parent: the exchange leaves the hole ready one level up. -/
theorem UpReady.move {data : Nat → α} {len pos : Nat} (ready : UpReady key data len pos)
    (positive : 0 < pos) (climb : key (data ((pos - 1) / 2)) < key (data pos)) :
    UpReady key (swap data pos ((pos - 1) / 2)) len ((pos - 1) / 2) := by
  have below : (pos - 1) / 2 < pos := by omega
  constructor
  · have := ready.inside
    omega
  · intro i positive' inside ne
    by_cases atPos : i = pos
    · rw [atPos, swap_apply_left _ (by omega), swap_apply_right]
      exact climb.le
    · rw [swap_apply_of_ne _ atPos ne]
      by_cases sibling : (i - 1) / 2 = (pos - 1) / 2
      · have ordered := ready.except i positive' inside atPos
        rw [sibling] at ordered
        rw [sibling, swap_apply_right]
        exact ordered.trans climb.le
      · by_cases child : (i - 1) / 2 = pos
        · rw [child, swap_apply_left _ (by omega)]
          exact ready.grand positive i positive' inside child
        · rw [swap_apply_of_ne _ child sibling]
          exact ready.except i positive' inside atPos
  · intro parentPositive c cPositive cInside cParent
    rw [swap_apply_of_ne _ (show ((pos - 1) / 2 - 1) / 2 ≠ pos by omega) (by omega)]
    have parentOrdered := ready.except ((pos - 1) / 2) parentPositive
      (by have := ready.inside; omega) (by omega)
    by_cases atPos : c = pos
    · rw [atPos, swap_apply_left _ (by omega)]
      exact parentOrdered
    · rw [swap_apply_of_ne _ atPos (by omega)]
      have ordered := ready.except c cPositive cInside atPos
      rw [cParent] at ordered
      exact ordered.trans parentOrdered

/-- From a ready hole, the loop of `sift_up(0, pos)` leaves the buffer ordered. -/
theorem siftUpLoop_ordered {len : Nat} (hole : Hole α)
    (ready : UpReady key hole.fill len hole.pos) : Ordered key (siftUpLoop key 0 hole).fill len := by
  induction hole using siftUpLoop.induct key 0 with
  | case1 hole above _ stop =>
    rw [siftUpLoop, if_pos above, if_pos stop]
    refine ready.finish key fun _ => ?_
    rwa [hole.fill_pos, ← hole.get_eq_fill (by omega)]
  | case2 hole above _ climb ih =>
    rw [siftUpLoop, if_pos above, if_neg climb]
    apply ih
    rw [Hole.fill_moveTo _ (by omega), Hole.moveTo_pos]
    refine ready.move key above (lt_of_not_le ?_)
    rwa [hole.fill_pos, ← hole.get_eq_fill (by omega)]
  | case3 hole top =>
    rw [siftUpLoop, if_neg top]
    exact ready.finish key fun positive => absurd positive top

/-- What the downward sifts keep around the hole at `pos`, over the pairs whose parent is at or
after `low`: every pair off the hole is ordered, and the hole's children are at most the hole's
parent. -/
structure DownReady (data : Nat → α) (low len pos : Nat) : Prop where
  inside : pos < len
  except : ∀ i, 0 < i → i < len → low ≤ (i - 1) / 2 → i ≠ pos → (i - 1) / 2 ≠ pos →
    key (data i) ≤ key (data ((i - 1) / 2))
  grand : low < pos → ∀ c, 0 < c → c < len → (c - 1) / 2 = pos →
    key (data c) ≤ key (data ((pos - 1) / 2))

/-- The child a downward sift picks is at least its sibling. -/
theorem greaterChild_greatest (hole : Hole α) {s : Nat}
    (sibling : s = 2 * hole.pos + 1 ∨ s = 2 * hole.pos + 2) :
    key (hole.fill s) ≤ key (hole.fill (greaterChild key hole)) := by
  simp only [greaterChild]
  rw [hole.get_eq_fill (by omega), hole.get_eq_fill (by omega)]
  split_ifs with right
  · rcases sibling with rfl | rfl
    · exact right
    · exact le_rfl
  · rcases sibling with rfl | rfl
    · exact le_rfl
    · exact (lt_of_not_le right).le

/-- The greatest child rises into the hole: the hole is ready one level down. -/
theorem DownReady.move {data : Nat → α} {low len pos child : Nat}
    (ready : DownReady key data low len pos) (lowPos : low ≤ pos) (childParent : (child - 1) / 2 = pos)
    (childPositive : 0 < child) (childInside : child < len)
    (greatest : ∀ s, 0 < s → s < len → (s - 1) / 2 = pos → key (data s) ≤ key (data child)) :
    DownReady key (swap data pos child) low len child := by
  constructor
  · exact childInside
  · intro i positive inside lowParent notChild parentNotChild
    by_cases atPos : i = pos
    · rw [atPos, swap_apply_left _ (by omega),
        swap_apply_of_ne _ (show (pos - 1) / 2 ≠ pos by omega) (by omega)]
      exact ready.grand (by omega) child childPositive childInside childParent
    · rw [swap_apply_of_ne _ atPos notChild]
      by_cases sibling : (i - 1) / 2 = pos
      · rw [sibling, swap_apply_left _ (by omega)]
        exact greatest i positive inside sibling
      · rw [swap_apply_of_ne _ sibling parentNotChild]
        exact ready.except i positive inside lowParent atPos sibling
  · intro _ g gPositive gInside gParent
    rw [childParent, swap_apply_left _ (by omega), swap_apply_of_ne _ (by omega) (by omega)]
    have ordered := ready.except g gPositive gInside (by omega) (by omega) (by omega)
    rwa [gParent] at ordered

/-- At a leaf the downward invariant is the upward one. -/
theorem DownReady.up {data : Nat → α} {len pos : Nat} (ready : DownReady key data 0 len pos)
    (leaf : len ≤ 2 * pos + 1) : UpReady key data len pos where
  inside := ready.inside
  except i positive inside notPos :=
    ready.except i positive inside (Nat.zero_le _) notPos (by omega)
  grand _ c _ inside parent := absurd inside (by omega)

/-- The loop of `sift_down_to_bottom` keeps the hole ready and stops once it has no right
child. -/
theorem siftDownToBottomLoop_ready {stop : Nat} (hole : Hole α)
    (ready : DownReady key hole.fill 0 stop hole.pos) :
    DownReady key (siftDownToBottomLoop key stop hole).fill 0 stop
        (siftDownToBottomLoop key stop hole).pos ∧
      stop ≤ 2 * (siftDownToBottomLoop key stop hole).pos + 2 := by
  induction hole using siftDownToBottomLoop.induct key stop with
  | case1 hole both ih =>
    rw [siftDownToBottomLoop, if_pos both]
    have child := greaterChild_eq key hole
    apply ih
    rw [Hole.fill_moveTo _ (by omega), Hole.moveTo_pos]
    exact ready.move key (Nat.zero_le _) (by omega) (by omega) (by omega)
      fun s _ _ parent => greaterChild_greatest key hole (by omega)
  | case2 hole last =>
    rw [siftDownToBottomLoop, if_neg last]
    exact ⟨ready, by omega⟩

/-- `sift_down_to_bottom(0)` from a buffer ordered everywhere but at the root leaves it ordered. -/
theorem siftDownToBottom_ordered {data : Nat → α} {len : Nat} (ready : DownReady key data 0 len 0) :
    Ordered key (siftDownToBottom key data len 0) len := by
  obtain ⟨down, last⟩ := siftDownToBottomLoop_ready key (Hole.new data 0) (by simpa using ready)
  simp only [siftDownToBottom, siftUp]
  split_ifs with onlyChild
  · apply siftUpLoop_ordered
    rw [Hole.fill_new, Hole.new_pos, Hole.fill_moveTo _ (by omega), Hole.moveTo_pos]
    refine (down.move key (Nat.zero_le _) (by omega) (by omega) (by omega) fun s _ _ _ => ?_).up
      key (by omega)
    rw [show s = 2 * (siftDownToBottomLoop key len (Hole.new data 0)).pos + 1 by omega]
  · apply siftUpLoop_ordered
    rw [Hole.fill_new, Hole.new_pos]
    exact down.up key (by omega)

/-- Every pair whose parent is at or after `low` is ordered. -/
def OrderedFrom (low : Nat) (data : Nat → α) (len : Nat) : Prop :=
  ∀ i, 0 < i → i < len → low ≤ (i - 1) / 2 → key (data i) ≤ key (data ((i - 1) / 2))

theorem DownReady.finish {data : Nat → α} {low len pos : Nat}
    (ready : DownReady key data low len pos) (lowPos : low ≤ pos)
    (above : low < pos → key (data pos) ≤ key (data ((pos - 1) / 2)))
    (below : ∀ c, 0 < c → c < len → (c - 1) / 2 = pos → key (data c) ≤ key (data pos)) :
    OrderedFrom key low data len := by
  intro i positive inside lowParent
  by_cases atPos : i = pos
  · rw [atPos]
    exact above (by omega)
  · by_cases child : (i - 1) / 2 = pos
    · rw [child]
      exact below i positive inside child
    · exact ready.except i positive inside lowParent atPos child

/-- The loop of `sift_down_range` leaves ordered every pair whose parent is at or after `low`. -/
theorem siftDownRangeLoop_ordered {low stop : Nat} (hole : Hole α)
    (ready : DownReady key hole.fill low stop hole.pos) (lowPos : low ≤ hole.pos)
    (above : low < hole.pos → key (hole.fill hole.pos) ≤ key (hole.fill ((hole.pos - 1) / 2))) :
    OrderedFrom key low (siftDownRangeLoop key stop hole).fill stop := by
  induction hole using siftDownRangeLoop.induct key stop with
  | case1 hole both settled =>
    rw [siftDownRangeLoop, if_pos both, if_pos settled]
    have child := greaterChild_eq key hole
    rw [hole.get_eq_fill (by omega), ← hole.fill_pos] at settled
    exact ready.finish key lowPos above fun c _ _ _ =>
      (greaterChild_greatest key hole (by omega)).trans settled
  | case2 hole both climb ih =>
    rw [siftDownRangeLoop, if_pos both, if_neg climb]
    have child := greaterChild_eq key hole
    rw [hole.get_eq_fill (by omega), ← hole.fill_pos] at climb
    apply ih <;> rw [Hole.moveTo_pos]
    · rw [Hole.fill_moveTo _ (by omega)]
      exact ready.move key lowPos (by omega) (by omega) (by omega) fun s _ _ _ =>
        greaterChild_greatest key hole (by omega)
    · omega
    · intro _
      rw [Hole.fill_moveTo _ (by omega), swap_apply_right,
        show (greaterChild key hole - 1) / 2 = hole.pos by omega, swap_apply_left _ (by omega)]
      exact (lt_of_not_le climb).le
  | case3 hole notBoth moves =>
    rw [siftDownRangeLoop, if_neg notBoth, if_pos moves]
    obtain ⟨onlyChild, climb⟩ := moves
    rw [hole.get_eq_fill (by omega), ← hole.fill_pos] at climb
    have moved : DownReady key (swap hole.fill hole.pos (2 * hole.pos + 1)) low stop
        (2 * hole.pos + 1) := ready.move key lowPos (by omega) (by omega) (by omega)
      fun s _ _ _ => by rw [show s = 2 * hole.pos + 1 by omega]
    rw [Hole.fill_moveTo _ (by omega)]
    refine moved.finish key (by omega) (fun _ => ?_) fun c _ inside _ => absurd inside (by omega)
    rw [swap_apply_right, show (2 * hole.pos + 1 - 1) / 2 = hole.pos by omega,
      swap_apply_left _ (by omega)]
    exact climb.le
  | case4 hole notBoth settled =>
    rw [siftDownRangeLoop, if_neg notBoth, if_neg settled]
    refine ready.finish key lowPos above fun c _ inside parent => ?_
    rw [show c = 2 * hole.pos + 1 by omega]
    rw [hole.get_eq_fill (by omega), ← hole.fill_pos] at settled
    exact not_lt.mp fun climb => settled ⟨by omega, climb⟩

theorem siftDown_orderedFrom {data : Nat → α} {len n : Nat}
    (ordered : OrderedFrom key (n + 1) data len) (inside : n < len) :
    OrderedFrom key n (siftDown key data len n) len := by
  apply siftDownRangeLoop_ordered <;> simp only [Hole.fill_new, Hole.new_pos]
  · exact ⟨inside, fun i positive inside' lowParent notPos parentNotPos =>
      ordered i positive inside' (by omega), fun below => absurd below (Nat.lt_irrefl n)⟩
  · exact Nat.le_refl n
  · exact fun below => absurd below (Nat.lt_irrefl n)

theorem rebuildFrom_ordered {len : Nat} :
    ∀ n data, n ≤ len / 2 → OrderedFrom key n data len →
      Ordered key (rebuildFrom key len n data) len
  | 0, _, _, ordered => fun i positive inside => ordered i positive inside (Nat.zero_le _)
  | n + 1, _, bound, ordered =>
    rebuildFrom_ordered n _ (by omega) (siftDown_orderedFrom key ordered (by omega))

/-- `rebuild` orders any buffer. -/
theorem rebuild_ordered (data : Nat → α) (len : Nat) : Ordered key (rebuild key data len) len :=
  rebuildFrom_ordered key (len / 2) data (Nat.le_refl _) fun _ _ inside low => absurd inside (by omega)

end Amaru.Heap
