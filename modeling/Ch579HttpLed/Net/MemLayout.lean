import Ch579HttpLed.Foundation.Areas
import Ch579HttpLed.Net.Mem

/-!
# The heap as a row of areas

The headers of the heap are a doubly linked list in the order of their offsets.
`Laid` says that the heap is such a list for a given row of areas, and `Represents`
adds that no two free areas lie side by side.  Each operation of `core/mem.c` is
then a change of the row: one lemma says what relinking does to the bytes, and the
operations are cases of it.
-/

namespace Ch579HttpLed
namespace Net

open Foundation

/-!
# Headers in memory
-/

section Headers

variable {ram ram' : Nat -> UInt8} {p q v : Nat}

/-- Bytes below `low` and from `high` on are the same. -/
def SameOutside (low high : Nat) (ram ram' : Nat -> UInt8) : Prop :=
  forall q, q < low ∨ high <= q -> ram' q = ram q

theorem SameOutside.refl (low high : Nat) (ram : Nat -> UInt8) : SameOutside low high ram ram :=
  fun _ _ => rfl

theorem SameOutside.mono {low high low' high' : Nat} (h : SameOutside low high ram ram')
    (hlow : low' <= low) (hhigh : high <= high') : SameOutside low' high' ram ram' := by
  intro q hq
  apply h
  rcases hq with hbelow | habove
  · exact Or.inl (Nat.lt_of_lt_of_le hbelow hlow)
  · exact Or.inr (Nat.le_trans hhigh habove)

theorem SameOutside.trans {ram'' : Nat -> UInt8} {low high : Nat}
    (h : SameOutside low high ram ram') (h' : SameOutside low high ram' ram'') :
    SameOutside low high ram ram'' :=
  fun q hq => (h' q hq).trans (h q hq)

theorem ptrToMem_congr (h : forall k, k < 5 -> ram' (p + k) = ram (p + k)) :
    ptrToMem ram' p = ptrToMem ram p := by
  have h0 : ram' p = ram p := h 0 (by lia)
  unfold ptrToMem
  rw [h0, h 1 (by lia), h 2 (by lia), h 3 (by lia), h 4 (by lia)]

/-- A header that does not meet the changed bytes is unchanged. -/
theorem SameOutside.ptrToMem {low high : Nat} (h : SameOutside low high ram ram')
    (hq : q + 5 <= low ∨ high <= q) : ptrToMem ram' q = ptrToMem ram q := by
  apply ptrToMem_congr
  intro k hk
  apply h
  lia

theorem setNext_outside (ram : Nat -> UInt8) (p v : Nat) :
    SameOutside p (p + 5) ram (setNext ram p v) := by
  intro q hq
  apply writeBytes_outside
  simp only [memSizeBytes, List.length_cons, List.length_nil]
  lia

theorem setPrev_outside (ram : Nat -> UInt8) (p v : Nat) :
    SameOutside p (p + 5) ram (setPrev ram p v) := by
  intro q hq
  apply writeBytes_outside
  simp only [memSizeBytes, List.length_cons, List.length_nil]
  lia

theorem setUsed_outside (ram : Nat -> UInt8) (p : Nat) (u : UInt8) :
    SameOutside p (p + 5) ram (setUsed ram p u) := by
  intro q hq
  apply writeBytes_outside
  simp only [List.length_cons, List.length_nil]
  lia

theorem memSizeBytes_value (hv : v < 65536) : v % 256 + 256 * (v / 256 % 256) = v := by
  omega

theorem ptrToMem_setNext (hv : v < 65536) :
    ptrToMem (setNext ram p v) p = { ptrToMem ram p with next := v } := by
  simp [ptrToMem, setNext, writeBytes, memSizeBytes, memSizeBytes_value hv]

theorem ptrToMem_setPrev (hv : v < 65536) :
    ptrToMem (setPrev ram p v) p = { ptrToMem ram p with prev := v } := by
  have hbelow : ¬ p + 2 <= p := by lia
  simp [ptrToMem, setPrev, writeBytes, memSizeBytes, memSizeBytes_value hv, hbelow]

theorem ptrToMem_setUsed (u : UInt8) :
    ptrToMem (setUsed ram p u) p = { ptrToMem ram p with used := u } := by
  have hbelow : ¬ p + 4 <= p := by lia
  simp [ptrToMem, setUsed, writeBytes, hbelow]

theorem ptrToMem_storeMem {m : Mem} (hnext : m.next < 65536) (hprev : m.prev < 65536) :
    ptrToMem (storeMem ram p m) p = m := by
  rw [storeMem, ptrToMem_setUsed, ptrToMem_setPrev hprev, ptrToMem_setNext hnext]

theorem storeMem_outside (ram : Nat -> UInt8) (p : Nat) (m : Mem) :
    SameOutside p (p + 5) ram (storeMem ram p m) :=
  ((setNext_outside ram p m.next).trans (setPrev_outside _ p m.prev)).trans
    (setUsed_outside _ p m.used)

theorem linkBack_outside (ram : Nat -> UInt8) (next p : Nat) :
    SameOutside next (next + 5) ram (linkBack ram next p) := by
  unfold linkBack
  split
  · exact setPrev_outside ram next p
  · exact SameOutside.refl _ _ ram

end Headers

/-!
# The linked list
-/

def usedByte (used : Bool) : UInt8 :=
  if used then 1 else 0

theorem usedByte_true_ne : usedByte true ≠ 0 := by
  decide

theorem usedByte_cases (used : Bool) : usedByte used = 0 ∨ usedByte used = 1 := by
  cases used with
  | false => exact Or.inl rfl
  | true => exact Or.inr rfl

/-- The headers from `start` on are those of the areas, each linked to the one before it. -/
def Linked (ram : Nat -> UInt8) : Nat -> Nat -> List Area -> Prop
  | _, _, [] => True
  | prev, start, x :: xs =>
      ptrToMem ram start = ⟨start + x.size, prev, usedByte x.used⟩ ∧
        Linked ram start (start + x.size) xs

/-- Every area has room for a header and the least data, and keeps the alignment. -/
def GoodSizes (xs : List Area) : Prop :=
  forall x, x ∈ xs -> 20 <= x.size ∧ x.size % 4 = 0

theorem goodSizes_append {xs ys : List Area} :
    GoodSizes (xs ++ ys) <-> GoodSizes xs ∧ GoodSizes ys :=
  List.forall_mem_append

theorem goodSizes_cons {x : Area} {xs : List Area} :
    GoodSizes (x :: xs) <-> (20 <= x.size ∧ x.size % 4 = 0) ∧ GoodSizes xs :=
  List.forall_mem_cons

theorem goodSizes_nil : GoodSizes [] := by
  simp [GoodSizes]

theorem GoodSizes.pos {xs : List Area} (h : GoodSizes xs) : forall x, x ∈ xs -> 0 < x.size := by
  intro x hx
  have := h x hx
  lia

theorem GoodSizes.areasSize_mod {xs : List Area} (h : GoodSizes xs) : areasSize xs % 4 = 0 := by
  induction xs with
  | nil => rfl
  | cons x xs ih =>
      rcases goodSizes_cons.mp h with ⟨hx, hxs⟩
      have := ih hxs
      rw [areasSize]
      lia

theorem GoodSizes.length_le {xs : List Area} (h : GoodSizes xs) :
    20 * xs.length <= areasSize xs := by
  induction xs with
  | nil =>
      exact Nat.le_refl _
  | cons x xs ih =>
      rcases goodSizes_cons.mp h with ⟨hx, hxs⟩
      have := ih hxs
      rw [areasSize, List.length_cons]
      lia

section Links

variable {ram ram' : Nat -> UInt8} {prev start : Nat} {xs ys : List Area}

theorem linked_append :
    Linked ram prev start (xs ++ ys) <->
      Linked ram prev start xs ∧
        Linked ram (lastFrom prev start xs) (start + areasSize xs) ys := by
  induction xs generalizing prev start with
  | nil =>
      simp [Linked, lastFrom, areasSize]
  | cons x xs ih =>
      simp [Linked, lastFrom, areasSize, ih, and_assoc, Nat.add_assoc]

theorem Linked.congr (h : Linked ram prev start xs)
    (hsame : forall x, x ∈ areasFrom start xs -> ptrToMem ram' x.1 = ptrToMem ram x.1) :
    Linked ram' prev start xs := by
  induction xs generalizing prev start with
  | nil => trivial
  | cons x xs ih =>
      constructor
      · rw [hsame (start, x) List.mem_cons_self]
        exact h.left
      · exact ih h.right (fun y hy => hsame y (List.mem_cons_of_mem _ hy))

theorem Linked.of_sameOutside {low high : Nat} (h : Linked ram prev start xs)
    (hsizes : GoodSizes xs) (hsame : SameOutside low high ram ram')
    (haway : start + areasSize xs <= low ∨ high <= start) : Linked ram' prev start xs := by
  apply h.congr
  intro x hx
  apply hsame.ptrToMem
  have hbounds := areasFrom_bounds hx
  rcases areasFrom_split hx with ⟨left, right, hxs, _⟩
  have hsize := hsizes x.2 (by rw [hxs]; exact List.mem_append_right _ List.mem_cons_self)
  lia

/-- Storing the new neighbour turns the list behind it to that neighbour. -/
theorem Linked.linkBack {prev' : Nat} (h : Linked ram prev start ys) (hsizes : GoodSizes ys)
    (hend : start + areasSize ys = 4096) (hprev : prev' < 65536) :
    Linked (linkBack ram start prev') prev' start ys := by
  cases ys with
  | nil => trivial
  | cons y ys =>
      rcases goodSizes_cons.mp hsizes with ⟨hy, hys⟩
      rw [areasSize] at hend
      have hlink : Net.linkBack ram start prev' = setPrev ram start prev' := by
        unfold Net.linkBack memSizeAligned
        exact if_pos (by lia)
      rw [hlink]
      constructor
      · rw [ptrToMem_setPrev hprev, h.left]
      · exact h.right.of_sameOutside hys (setPrev_outside ram start prev') (by lia)

theorem lastFrom_le (hprev : prev <= start) (xs : List Area) :
    lastFrom prev start xs <= start + areasSize xs := by
  induction xs generalizing prev start with
  | nil =>
      exact Nat.le_trans hprev (Nat.le_add_right _ _)
  | cons x xs ih =>
      rw [lastFrom, areasSize, ← Nat.add_assoc]
      exact ih (Nat.le_add_right _ _)

end Links

/-!
# The heap and its row of areas
-/

/-- The heap is the row `xs`; free areas may still lie side by side. -/
structure Laid (heap : MemHeap) (xs : List Area) : Prop where
  linked : Linked heap.ram 0 0 xs
  ramEnd : ptrToMem heap.ram 4096 = ⟨4096, 4096, 1⟩
  size : areasSize xs = 4096
  sizes : GoodSizes xs
  lfree : heap.lfree = lowestFree 0 xs

structure Represents (heap : MemHeap) (xs : List Area) : Prop extends Laid heap xs where
  noFreePair : NoFreePair xs

/-- The data of these areas are the same bytes. -/
def KeepsData (areas : List (Nat × Area)) (ram ram' : Nat -> UInt8) : Prop :=
  forall x, x ∈ areas -> forall q, x.1 + 8 <= q -> q < x.1 + x.2.size -> ram' q = ram q

section Rows

variable {heap : MemHeap} {ram' : Nat -> UInt8} {xs mid mid' ys : List Area} {a : Nat}

theorem KeepsData.refl (areas : List (Nat × Area)) (ram : Nat -> UInt8) :
    KeepsData areas ram ram :=
  fun _ _ _ _ _ => rfl

theorem KeepsData.trans {areas : List (Nat × Area)} {ram ram' ram'' : Nat -> UInt8}
    (h : KeepsData areas ram ram') (h' : KeepsData areas ram' ram'') :
    KeepsData areas ram ram'' :=
  fun x hx q hlow hhigh => (h' x hx q hlow hhigh).trans (h x hx q hlow hhigh)

theorem keepsData_append {us vs : List (Nat × Area)} {ram ram' : Nat -> UInt8} :
    KeepsData (us ++ vs) ram ram' <-> KeepsData us ram ram' ∧ KeepsData vs ram ram' :=
  List.forall_mem_append

theorem mem_usedFrom {start : Nat} {x : Nat × Area} :
    x ∈ usedFrom start xs <-> x ∈ areasFrom start xs ∧ x.2.used = true := by
  simp [usedFrom]

/-- A change between two cuts and of the header behind them keeps the data around. -/
theorem SameOutside.keepsData {ram : Nat -> UInt8} {e : Nat}
    (h : SameOutside (areasSize xs) (e + 8) ram ram') :
    KeepsData (usedFrom 0 xs ++ usedFrom e ys) ram ram' := by
  apply keepsData_append.mpr
  constructor
  · intro x hx q hlow hhigh
    have hbounds := areasFrom_bounds (mem_usedFrom.mp hx).left
    exact h q (Or.inl (by lia))
  · intro x hx q hlow hhigh
    have hbounds := areasFrom_bounds (mem_usedFrom.mp hx).left
    exact h q (Or.inr (by lia))

theorem Laid.parts (h : Laid heap (xs ++ (mid ++ ys))) :
    areasSize xs + (areasSize mid + areasSize ys) = 4096 ∧
      GoodSizes xs ∧ GoodSizes mid ∧ GoodSizes ys ∧
      Linked heap.ram 0 0 xs ∧
      Linked heap.ram (lastFrom 0 0 xs) (areasSize xs) mid ∧
      Linked heap.ram (lastFrom (lastFrom 0 0 xs) (areasSize xs) mid)
        (areasSize xs + areasSize mid) ys := by
  have hsize := h.size
  have hsizes := h.sizes
  have hlinked := h.linked
  rw [areasSize_append, areasSize_append] at hsize
  rw [goodSizes_append, goodSizes_append] at hsizes
  rw [linked_append, linked_append, Nat.zero_add] at hlinked
  exact ⟨hsize, hsizes.left, hsizes.right.left, hsizes.right.right, hlinked.left,
    hlinked.right.left, hlinked.right.right⟩

theorem Laid.header {x : Area} (h : Laid heap (xs ++ x :: ys)) :
    ptrToMem heap.ram (areasSize xs) =
      ⟨areasSize xs + x.size, lastFrom 0 0 xs, usedByte x.used⟩ := by
  have hlinked := (linked_append.mp h.linked).right.left
  rw [Nat.zero_add] at hlinked
  exact hlinked

theorem Laid.nextHeader {x y : Area} (h : Laid heap (xs ++ x :: y :: ys)) :
    ptrToMem heap.ram (areasSize xs + x.size) =
      ⟨areasSize xs + x.size + y.size, areasSize xs, usedByte y.used⟩ := by
  have hlinked := (linked_append.mp h.linked).right.right.left
  rw [Nat.zero_add] at hlinked
  exact hlinked

theorem Laid.end_of_last {x : Area} (h : Laid heap (xs ++ [x])) :
    areasSize xs + x.size = 4096 := by
  have hsize := h.size
  rw [areasSize_append] at hsize
  exact hsize

theorem Laid.lt_end {x y : Area} (h : Laid heap (xs ++ x :: y :: ys)) :
    20 <= x.size ∧ 20 <= y.size ∧
      areasSize xs + x.size + y.size + areasSize ys = 4096 := by
  have hsize := h.size
  rcases goodSizes_cons.mp (goodSizes_append.mp h.sizes).right with ⟨hx, hrest⟩
  have hy := (goodSizes_cons.mp hrest).left
  simp only [areasSize_append, areasSize] at hsize
  lia

/-- A part of the row is replaced by areas of the same size, written inside that part. -/
theorem Laid.replace {lfree : Nat} (h : Laid heap (xs ++ (mid ++ ys)))
    (hsize : areasSize mid' = areasSize mid) (hsizes : GoodSizes mid')
    (hmid : Linked ram' (lastFrom 0 0 xs) (areasSize xs) (mid' ++ ys))
    (hsame : SameOutside (areasSize xs) (areasSize xs + areasSize mid + 5) heap.ram ram')
    (hend : ptrToMem ram' 4096 = ptrToMem heap.ram 4096)
    (hlfree : lfree = lowestFree 0 (xs ++ (mid' ++ ys))) :
    Laid ⟨ram', lfree⟩ (xs ++ (mid' ++ ys)) := by
  rcases h.parts with ⟨htotal, hxs, _, hys, hleft, _, _⟩
  constructor
  · apply linked_append.mpr
    rw [Nat.zero_add]
    exact ⟨hleft.of_sameOutside hxs hsame (by lia), hmid⟩
  · rw [hend, h.ramEnd]
  · rw [areasSize_append, areasSize_append, hsize, htotal]
  · rw [goodSizes_append, goodSizes_append]
    exact ⟨hxs, hsizes, hys⟩
  · exact hlfree

/-- Relinking: new headers inside a part of the row, and the next header linked back to them. -/
theorem Laid.relink {ram : Nat -> UInt8} {lfree : Nat} (h : Laid heap (xs ++ (mid ++ ys)))
    (hsize : areasSize mid' = areasSize mid) (hsizes : GoodSizes mid')
    (hmid : Linked ram (lastFrom 0 0 xs) (areasSize xs) mid')
    (hsame : SameOutside (areasSize xs) (areasSize xs + areasSize mid) heap.ram ram)
    (hlfree : lfree = lowestFree 0 (xs ++ (mid' ++ ys))) :
    Laid ⟨linkBack ram (areasSize xs + areasSize mid)
        (lastFrom (lastFrom 0 0 xs) (areasSize xs) mid'), lfree⟩ (xs ++ (mid' ++ ys)) := by
  rcases h.parts with ⟨htotal, hxs, _, hys, _, _, hright⟩
  have hback := linkBack_outside ram (areasSize xs + areasSize mid)
    (lastFrom (lastFrom 0 0 xs) (areasSize xs) mid')
  apply h.replace hsize hsizes
  · apply linked_append.mpr
    constructor
    · exact hmid.of_sameOutside hsizes hback (by lia)
    · rw [hsize]
      have hlast : lastFrom (lastFrom 0 0 xs) (areasSize xs) mid' <= 4096 := by
        have hxsLast : lastFrom 0 0 xs <= areasSize xs := by
          simpa using lastFrom_le (Nat.le_refl 0) xs
        have hle := lastFrom_le hxsLast mid'
        lia
      exact (hright.of_sameOutside hys hsame (by lia)).linkBack hys (by lia) (by lia)
  · exact (hsame.mono (Nat.le_refl _) (by lia)).trans (hback.mono (by lia) (by lia))
  · -- With no area behind the part, its end is the end of the heap and nothing is linked back.
    rcases Nat.lt_or_eq_of_le (show areasSize xs + areasSize mid <= 4096 by lia) with hlt | heq
    · rcases ys with _ | ⟨y, ys⟩
      · simp only [areasSize] at htotal
        lia
      · have hy := (goodSizes_cons.mp hys).left
        simp only [areasSize] at htotal
        rw [hback.ptrToMem (by lia), hsame.ptrToMem (by lia)]
    · rw [heq]
      unfold linkBack memSizeAligned
      rw [if_neg (by simp)]
      exact hsame.ptrToMem (by lia)
  · exact hlfree

end Rows

end Net
end Ch579HttpLed
