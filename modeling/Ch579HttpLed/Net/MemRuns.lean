import Ch579HttpLed.Foundation.Runs
import Ch579HttpLed.Net.MemOps
import Mathlib.Data.List.Nodup

/-!
# The heap and its clients

A machine for everything that can happen to the heap: the stack allocates, frees
and trims, and writes what it likes into the memory it was given.  Clients keep the
rules of `core/mem.c`: they free and trim only what they hold, trim to no more than
they hold, and write only inside it.  Beside the heap the machine records what each
client holds and what it last wrote there.  A failed assertion ends the run.
-/

namespace Ch579HttpLed
namespace Net

open Foundation

/-- Memory a client holds, with the bytes it has there. -/
structure Allocation where
  ptr : Nat
  contents : List UInt8
deriving DecidableEq, Repr

structure MemState where
  heap : MemHeap
  live : List Allocation
  failed : Option String

inductive MemEvent where
  | malloc (sizeIn : UInt16)
  | calloc (count size : UInt16)
  | free (rmem : Option Nat)
  | trim (rmem : Nat) (newSize : UInt16)
  | write (rmem offset : Nat) (bytes : List UInt8)

def memStart (ramHeap : Nat -> UInt8) : MemState where
  heap := memInit ramHeap
  live := []
  failed := none

def heldAt (live : List Allocation) (rmem : Nat) : Option Allocation :=
  live.find? (fun a => a.ptr = rmem)

def dropHeld (live : List Allocation) (rmem : Nat) : List Allocation :=
  live.filter (fun a => a.ptr ≠ rmem)

def changeHeld (live : List Allocation) (rmem : Nat) (f : List UInt8 -> List UInt8) :
    List Allocation :=
  live.map (fun a => if a.ptr = rmem then { a with contents := f a.contents } else a)

/-- The client takes what an allocation returned; `contents` reads what it finds there. -/
def MemState.allocated (s : MemState) (contents : MemHeap -> Nat -> List UInt8) :
    Except String (MemHeap × Option Nat) -> MemState
  | .error message => { s with failed := some message }
  | .ok (heap, none) => { s with heap := heap }
  | .ok (heap, some p) => { s with heap := heap, live := ⟨p, contents heap p⟩ :: s.live }

def MemState.freed (s : MemState) (live : List Allocation) : Except String MemHeap -> MemState
  | .error message => { s with failed := some message }
  | .ok heap => { s with heap := heap, live := live }

def MemState.trimmed (s : MemState) (live : List Allocation) :
    Except String (MemHeap × Option Int) -> MemState
  | .error message => { s with failed := some message }
  | .ok (heap, none) => { s with heap := heap }
  | .ok (heap, some _) => { s with heap := heap, live := live }

def memStep (s : MemState) (e : MemEvent) : MemState :=
  if s.failed.isSome then s
  else
    match e with
    | .malloc sizeIn =>
        s.allocated (fun heap p => readBytes heap.ram p sizeIn.toNat) (memMalloc s.heap sizeIn)
    | .calloc count size =>
        s.allocated (fun _ _ => List.replicate (count.toNat * size.toNat) 0)
          (memCalloc s.heap count size)
    | .free none => s.freed s.live (memFree s.heap none)
    | .free (some rmem) =>
        if (heldAt s.live rmem).isSome then
          s.freed (dropHeld s.live rmem) (memFree s.heap (some rmem))
        else
          s
    | .trim rmem newSize =>
        match heldAt s.live rmem with
        | none => s
        | some a =>
            if newSize.toNat <= a.contents.length then
              s.trimmed (changeHeld s.live rmem (List.take newSize.toNat))
                (memTrim s.heap rmem newSize)
            else
              s
    | .write rmem offset bytes =>
        match heldAt s.live rmem with
        | none => s
        | some a =>
            if offset + bytes.length <= a.contents.length then
              { s with
                heap := { s.heap with ram := writeBytes s.heap.ram (rmem + offset) bytes },
                live := changeHeld s.live rmem (fun c => overwriteAt c offset bytes) }
            else
              s

/-!
# What the clients hold are the areas in use
-/

/-- Data start behind the header. -/
def dataStart (x : Nat × Area) : Nat :=
  x.1 + 8

/-- The areas in use are what the clients hold, each with room for it. -/
structure Backed (areas : List (Nat × Area)) (live : List Allocation) : Prop where
  starts : (live.map Allocation.ptr).Perm (areas.map dataStart)
  rooms : forall a, a ∈ live ->
    exists x, x ∈ areas ∧ a.ptr = dataStart x ∧ a.contents.length + 8 <= x.2.size

/-- The row `zs` is the heap, its areas in use are held, and hold what was written. -/
structure HeapHolds (zs : List Area) (heap : MemHeap) (live : List Allocation) : Prop where
  represents : Represents heap zs
  backed : Backed (usedFrom 0 zs) live
  holds : forall a, a ∈ live -> readBytes heap.ram a.ptr a.contents.length = a.contents

section Held

variable {live : List Allocation} {us vs : List (Nat × Area)} {rmem p n : Nat}

theorem heldAt_some {a : Allocation} (h : heldAt live rmem = some a) :
    a ∈ live ∧ a.ptr = rmem := by
  refine ⟨List.mem_of_find?_eq_some h, ?_⟩
  simpa using List.find?_some h

theorem map_ptr_changeHeld (live : List Allocation) (rmem : Nat)
    (f : List UInt8 -> List UInt8) :
    (changeHeld live rmem f).map Allocation.ptr = live.map Allocation.ptr := by
  unfold changeHeld
  rw [List.map_map]
  apply List.map_congr_left
  intro a _
  simp only [Function.comp_apply]
  split <;> rfl

theorem nodup_starts {zs : List Area} (h : GoodSizes zs) :
    ((usedFrom 0 zs).map dataStart).Nodup := by
  have hpairwise := (pairwise_areasFrom 0 zs).filter (fun x => x.2.used)
  apply List.pairwise_map.mpr
  apply hpairwise.imp_of_mem
  intro x y hx _ hle heq
  rcases areasFrom_split (mem_usedFrom.mp hx).left with ⟨left, right, hzs, _⟩
  have hsize := h x.2 (by rw [hzs]; exact List.mem_append_right _ List.mem_cons_self)
  unfold dataStart at heq
  lia

theorem Backed.push (h : Backed (us ++ vs) live) {size : Nat} {contents : List UInt8}
    (hroom : contents.length + 8 <= size) :
    Backed (us ++ (p, ⟨size, true⟩) :: vs) (⟨p + 8, contents⟩ :: live) := by
  constructor
  · rw [List.map_append, List.map_cons, List.map_cons]
    have hstarts := h.starts
    rw [List.map_append] at hstarts
    exact (hstarts.cons (p + 8)).trans List.perm_middle.symm
  · intro a ha
    rcases List.mem_cons.mp ha with heq | hmem
    · rw [heq]
      exact ⟨(p, ⟨size, true⟩), List.mem_append_right _ List.mem_cons_self, rfl, hroom⟩
    · rcases h.rooms a hmem with ⟨x, hx, hptr, hfits⟩
      refine ⟨x, ?_, hptr, hfits⟩
      rcases List.mem_append.mp hx with hleft | hright
      · exact List.mem_append_left _ hleft
      · exact List.mem_append_right _ (List.mem_cons_of_mem _ hright)

/-- Who does not hold the area at a cut holds one beside it. -/
theorem Backed.other {x : Nat × Area} {b : Allocation} (h : Backed (us ++ x :: vs) live)
    (hb : b ∈ live) (hne : b.ptr ≠ dataStart x) :
    exists y, y ∈ us ++ vs ∧ b.ptr = dataStart y ∧ b.contents.length + 8 <= y.2.size := by
  rcases h.rooms b hb with ⟨y, hy, hptr, hfits⟩
  refine ⟨y, ?_, hptr, hfits⟩
  rcases List.mem_append.mp hy with hleft | hright
  · exact List.mem_append_left _ hleft
  · rcases List.mem_cons.mp hright with heq | hmem
    · rw [hptr, heq] at hne
      exact absurd rfl hne
    · exact List.mem_append_right _ hmem

theorem Backed.drop {x : Nat × Area} (h : Backed (us ++ x :: vs) live)
    (hnodup : ((us ++ x :: vs).map dataStart).Nodup) :
    Backed (us ++ vs) (dropHeld live (dataStart x)) := by
  have hperm := h.starts.filter (fun q => q ≠ dataStart x)
  rw [List.map_append, List.map_cons] at hnodup hperm
  have hothers := List.perm_middle.nodup_iff.mp hnodup
  constructor
  · have hleft : ((dropHeld live (dataStart x)).map Allocation.ptr) =
        (live.map Allocation.ptr).filter (fun q => q ≠ dataStart x) := by
      unfold dropHeld
      rw [List.filter_map]
      rfl
    have hright : (us.map dataStart ++ dataStart x :: vs.map dataStart).filter
        (fun q => q ≠ dataStart x) = (us ++ vs).map dataStart := by
      rw [List.filter_append, List.filter_cons_of_neg (by simp), ← List.filter_append,
        ← List.map_append]
      apply List.filter_eq_self.mpr
      intro q hq
      rw [List.map_append] at hq
      have hne : q ≠ dataStart x := fun hc => (List.nodup_cons.mp hothers).left (hc ▸ hq)
      simpa using hne
    rw [hleft, ← hright]
    exact hperm
  · intro a ha
    rcases List.mem_filter.mp ha with ⟨hmem, hne⟩
    exact h.other hmem (by simpa using hne)

end Held

/-!
# One step
-/

section Steps

variable {heap : MemHeap} {live : List Allocation} {zs : List Area}

theorem memInit_represents (ramHeap : Nat -> UInt8) :
    Represents (memInit ramHeap) [⟨4096, false⟩] := by
  have hstore := storeMem_outside (storeMem ramHeap 0 ⟨memSizeAligned, 0, 0⟩) memSizeAligned
    ⟨memSizeAligned, memSizeAligned, 1⟩
  refine ⟨⟨⟨?_, trivial⟩, ?_, rfl, ?_, rfl⟩, by simp [NoFreePair]⟩
  · unfold memInit
    rw [hstore.ptrToMem (Or.inl (by decide)), ptrToMem_storeMem (by decide) (by decide)]
    rfl
  · exact ptrToMem_storeMem (by decide) (by decide)
  · exact goodSizes_cons.mpr ⟨by decide, goodSizes_nil⟩

theorem Backed.holds {areas : List (Nat × Area)} {ram ram' : Nat -> UInt8}
    (hbacked : Backed areas live) (hkeeps : KeepsData areas ram ram')
    (hholds : forall a, a ∈ live -> readBytes ram a.ptr a.contents.length = a.contents) :
    forall a, a ∈ live -> readBytes ram' a.ptr a.contents.length = a.contents := by
  intro a ha
  rcases hbacked.rooms a ha with ⟨x, hx, hptr, hfits⟩
  rw [← hholds a ha, readBytes_length]
  apply readBytes_congr
  intro q hlow hhigh
  unfold dataStart at hptr
  exact hkeeps x hx q (by lia) (by lia)

/-- What a client holds is the data of an area in use. -/
theorem HeapHolds.area (h : HeapHolds zs heap live) {a : Allocation} (ha : a ∈ live) :
    exists xs n ys, zs = xs ++ ⟨n, true⟩ :: ys ∧ a.ptr = areasSize xs + 8 ∧
      a.contents.length + 8 <= n := by
  rcases h.backed.rooms a ha with ⟨⟨p, n, used⟩, hx, hptr, hfits⟩
  rcases mem_usedFrom.mp hx with ⟨hmem, hused⟩
  rcases areasFrom_split hmem with ⟨xs, ys, hzs, hoffset⟩
  simp only at hused hzs hoffset hfits
  rw [hused] at hzs
  refine ⟨xs, n, ys, hzs, ?_, hfits⟩
  rw [hptr, dataStart, hoffset, Nat.zero_add]

theorem usedFrom_taken (xs ys : List Area) (n size : Nat) (hfits : size + 8 <= n) :
    exists m, size + 8 <= m ∧ usedFrom 0 (xs ++ (taken n size ++ ys)) =
      usedFrom 0 xs ++ (areasSize xs, ⟨m, true⟩) :: usedFrom (areasSize xs + n) ys := by
  unfold taken
  rw [usedFrom_append, Nat.zero_add]
  split
  · refine ⟨size + 8, Nat.le_refl _, ?_⟩
    have hcut : areasSize xs + (size + 8) + (n - (size + 8)) = areasSize xs + n := by lia
    rw [List.cons_append, List.cons_append, List.nil_append, usedFrom_cons_used,
      usedFrom_cons_free, hcut]
  · exact ⟨n, hfits, by rw [List.cons_append, List.nil_append, usedFrom_cons_used]⟩

theorem HeapHolds.malloc (h : HeapHolds zs heap live) (sizeIn : UInt16) :
    (memMalloc heap sizeIn = .ok (heap, none) ∧ mallocFit sizeIn zs = none) ∨
      exists heap' p zs', memMalloc heap sizeIn = .ok (heap', some (p + 8)) ∧
        mallocFit sizeIn zs = some p ∧
        forall contents : List UInt8, contents.length <= sizeIn.toNat ->
          readBytes heap'.ram (p + 8) contents.length = contents ->
            HeapHolds zs' heap' (⟨p + 8, contents⟩ :: live) := by
  cases hfit : mallocFit sizeIn zs with
  | none =>
      exact Or.inl ⟨memMalloc_none h.represents.toLaid hfit, rfl⟩
  | some a =>
      apply Or.inr
      rcases memMalloc_some h.represents hfit with
        ⟨heap', xs, n, ys, hzs, ha, hfits, hsize, hok, hnew, hkeeps⟩
      rcases usedFrom_taken xs ys n _ hfits with ⟨m, hm, hused⟩
      refine ⟨heap', a, xs ++ (taken n (requestSize sizeIn) ++ ys), hok, rfl, ?_⟩
      intro contents hlength hread
      have hbacked := h.backed
      rw [hzs, usedFrom_append, usedFrom_cons_free, Nat.zero_add] at hbacked
      refine ⟨hnew, ?_, ?_⟩
      · rw [hused, ha]
        exact hbacked.push (by lia)
      · intro b hb
        rcases List.mem_cons.mp hb with heq | hmem
        · rw [heq]
          exact hread
        · exact h.backed.holds hkeeps h.holds b hmem

theorem HeapHolds.free (h : HeapHolds zs heap live) {a : Allocation} (ha : a ∈ live) :
    exists heap' zs', memFree heap (some (a.ptr : Int)) = .ok heap' ∧
      HeapHolds zs' heap' (dropHeld live a.ptr) := by
  rcases h.area ha with ⟨xs, n, ys, hzs, hptr, _⟩
  have hrow : Represents heap (xs ++ ⟨n, true⟩ :: ys) := hzs ▸ h.represents
  rcases freeMem_represents hrow with ⟨heap', zs', hok, hnew, hused, hkeeps⟩
  have hbacked := h.backed
  have hnodup := nodup_starts h.represents.sizes
  rw [hzs, usedFrom_append, usedFrom_cons_used, Nat.zero_add] at hbacked hnodup
  have hdrop := hbacked.drop hnodup
  rw [← hused] at hdrop
  rw [hptr]
  refine ⟨heap', zs', ?_, hnew, hdrop, ?_⟩
  · rw [memFree_represents hrow]
    exact hok
  · apply hdrop.holds hkeeps
    intro b hb
    exact h.holds b (List.mem_filter.mp hb).left

/-- Two different clients hold memory with at least a header between. -/
theorem HeapHolds.apart (h : HeapHolds zs heap live) {a b : Allocation} (ha : a ∈ live)
    (hb : b ∈ live) (hne : a.ptr ≠ b.ptr) :
    a.ptr + a.contents.length + 8 <= b.ptr ∨ b.ptr + b.contents.length + 8 <= a.ptr := by
  rcases h.backed.rooms a ha with ⟨x, hx, hxptr, hxfits⟩
  rcases h.backed.rooms b hb with ⟨y, hy, hyptr, hyfits⟩
  unfold dataStart at hxptr hyptr
  rcases areasFrom_apart (mem_usedFrom.mp hx).left (mem_usedFrom.mp hy).left with
    heq | hle | hle
  · rw [hxptr, hyptr, heq] at hne
    exact absurd rfl hne
  · exact Or.inl (by lia)
  · exact Or.inr (by lia)

theorem HeapHolds.nodup (h : HeapHolds zs heap live) : (live.map Allocation.ptr).Nodup :=
  h.backed.starts.nodup_iff.mpr (nodup_starts h.represents.sizes)

theorem HeapHolds.eq_of_ptr (h : HeapHolds zs heap live) {a b : Allocation} (ha : a ∈ live)
    (hb : b ∈ live) (heq : a.ptr = b.ptr) : a = b :=
  List.inj_on_of_nodup_map h.nodup ha hb heq

theorem mem_changeHeld {rmem : Nat} {f : List UInt8 -> List UInt8} {b : Allocation}
    (hb : b ∈ changeHeld live rmem f) :
    exists a, a ∈ live ∧ b.ptr = a.ptr ∧
      ((a.ptr = rmem ∧ b.contents = f a.contents) ∨
        (a.ptr ≠ rmem ∧ b.contents = a.contents)) := by
  rcases List.mem_map.mp hb with ⟨a, ha, hab⟩
  refine ⟨a, ha, ?_⟩
  split at hab
  next heq =>
    rw [← hab]
    exact ⟨rfl, Or.inl ⟨heq, rfl⟩⟩
  next hne =>
    rw [← hab]
    exact ⟨rfl, Or.inr ⟨hne, rfl⟩⟩

/-- A write into the data of an area in use changes no header. -/
theorem Represents.store (h : Represents heap zs) {x : Nat × Area} (hx : x ∈ usedFrom 0 zs)
    {q : Nat} {bytes : List UInt8} (hlow : x.1 + 8 <= q)
    (hhigh : q + bytes.length <= x.1 + x.2.size) :
    Represents { heap with ram := writeBytes heap.ram q bytes } zs := by
  have hmem := (mem_usedFrom.mp hx).left
  have hbounds := areasFrom_bounds hmem
  rw [h.size] at hbounds
  refine ⟨⟨?_, ?_, h.size, h.sizes, h.lfree⟩, h.noFreePair⟩
  · apply h.linked.congr
    intro y hy
    apply ptrToMem_congr
    intro k hk
    apply writeBytes_outside
    rcases areasFrom_split hy with ⟨left, right, hzs, _⟩
    have hysize := h.sizes y.2 (by rw [hzs]; exact List.mem_append_right _ List.mem_cons_self)
    rcases areasFrom_apart hmem hy with heq | hle | hle
    · rw [← heq]
      lia
    · lia
    · lia
  · rw [← h.ramEnd]
    apply ptrToMem_congr
    intro k hk
    apply writeBytes_outside
    lia

theorem length_overwriteAt {contents bytes : List UInt8} {offset : Nat}
    (hinside : offset + bytes.length <= contents.length) :
    (overwriteAt contents offset bytes).length = contents.length := by
  unfold overwriteAt
  rw [List.length_append, List.length_append, List.length_take, List.length_drop]
  lia

theorem HeapHolds.write (h : HeapHolds zs heap live) {a : Allocation} (ha : a ∈ live)
    {offset : Nat} {bytes : List UInt8} (hinside : offset + bytes.length <= a.contents.length) :
    HeapHolds zs { heap with ram := writeBytes heap.ram (a.ptr + offset) bytes }
      (changeHeld live a.ptr (fun c => overwriteAt c offset bytes)) := by
  rcases h.backed.rooms a ha with ⟨x, hx, hptr, hfits⟩
  unfold dataStart at hptr
  refine ⟨h.represents.store hx (by lia) (by lia), ⟨?_, ?_⟩, ?_⟩
  · rw [map_ptr_changeHeld]
    exact h.backed.starts
  · intro b hb
    rcases mem_changeHeld hb with ⟨c, hc, hbptr, ⟨hcptr, hcontents⟩ | ⟨_, hcontents⟩⟩
    · rcases h.backed.rooms c hc with ⟨y, hy, hyptr, hyfits⟩
      rw [h.eq_of_ptr hc ha hcptr] at hcontents hbptr hyptr hyfits
      refine ⟨y, hy, hbptr.trans hyptr, ?_⟩
      rw [hcontents, length_overwriteAt hinside]
      exact hyfits
    · rcases h.backed.rooms c hc with ⟨y, hy, hyptr, hyfits⟩
      exact ⟨y, hy, hbptr.trans hyptr, by rw [hcontents]; exact hyfits⟩
  · intro b hb
    rcases mem_changeHeld hb with ⟨c, hc, hbptr, ⟨hcptr, hcontents⟩ | ⟨hcptr, hcontents⟩⟩
    · rw [h.eq_of_ptr hc ha hcptr] at hcontents hbptr
      rw [hbptr, hcontents, length_overwriteAt hinside, readBytes_writeBytes_inside _ hinside,
        h.holds a ha]
    · rw [hbptr, hcontents, readBytes_writeBytes_disjoint, h.holds c hc]
      rcases h.apart hc ha hcptr with hle | hle
      · exact Or.inl (by lia)
      · exact Or.inr (by lia)

/-- The trimmed memory is the last of the heap, and another area would fit behind it. -/
def TrimsLast (heap : MemHeap) (rmem : Nat) (newSize : UInt16) : Prop :=
  (ptrToMem heap.ram (rmem - sizeofStructMem)).next = memSizeAligned ∧
    requestSize newSize + sizeofStructMem + minSizeAligned <= memSizeAligned - rmem

instance (heap : MemHeap) (rmem : Nat) (newSize : UInt16) :
    Decidable (TrimsLast heap rmem newSize) :=
  inferInstanceAs (Decidable (_ ∧ _))

/-- In terms of the row: nothing lies behind the area. -/
theorem trimsLast_iff {xs ys : List Area} {n : Nat} {newSize : UInt16}
    (h : Represents heap (xs ++ ⟨n, true⟩ :: ys)) :
    TrimsLast heap (areasSize xs + 8) newSize <->
      ys = [] ∧ requestSize newSize + 28 <= n := by
  unfold TrimsLast sizeofStructMem minSizeAligned memSizeAligned
  rw [Nat.add_sub_cancel, h.toLaid.header]
  constructor
  · rintro ⟨hnext, hroom⟩
    simp only at hnext
    refine ⟨?_, by lia⟩
    rcases ys with _ | ⟨y, ys⟩
    · rfl
    · have hend := h.toLaid.lt_end
      simp only at hend
      lia
  · rintro ⟨hnil, hroom⟩
    rw [hnil] at h
    have hend := h.toLaid.end_of_last
    simp only at hend
    exact ⟨hend, by lia⟩

theorem HeapHolds.trim_last (h : HeapHolds zs heap live) {a : Allocation} (ha : a ∈ live)
    {newSize : UInt16} (hold : newSize.toNat <= a.contents.length)
    (hlast : TrimsLast heap a.ptr newSize) :
    memTrim heap a.ptr newSize = .error "invalid next ptr" := by
  rcases h.area ha with ⟨xs, n, ys, hzs, hptr, hfits⟩
  have hrow : Represents heap (xs ++ ⟨n, true⟩ :: ys) := hzs ▸ h.represents
  rw [hptr] at hlast ⊢
  rcases (trimsLast_iff hrow).mp hlast with ⟨hnil, hroom⟩
  rw [hnil] at hrow
  exact memTrim_last hrow hroom (by lia)

theorem HeapHolds.trim (h : HeapHolds zs heap live) {a : Allocation} (ha : a ∈ live)
    {newSize : UInt16} (hold : newSize.toNat <= a.contents.length)
    (hlast : ¬ TrimsLast heap a.ptr newSize) :
    exists heap' zs', memTrim heap a.ptr newSize = .ok (heap', some (a.ptr : Int)) ∧
      HeapHolds zs' heap' (changeHeld live a.ptr (List.take newSize.toNat)) := by
  rcases h.area ha with ⟨xs, n, ys, hzs, hptr, hfits⟩
  have hrow : Represents heap (xs ++ ⟨n, true⟩ :: ys) := hzs ▸ h.represents
  rw [hptr] at hlast
  rcases memTrim_ok hrow (by lia) (fun hc => hlast ((trimsLast_iff hrow).mpr hc)) with
    ⟨heap', n', ys', hok, htrimmed⟩
  have hlarge := (requestSize_le
    (goodSizes_cons.mp (goodSizes_append.mp hrow.sizes).right).left
    (by have := hrow.toLaid.next_le; lia) (show newSize.toNat + 8 <= n by lia)).right
  have hsize : newSize.toNat <= requestSize newSize :=
    Nat.le_of_not_lt (fun hc => hlarge (Or.inr hc))
  have hnewFits := htrimmed.fits
  have holdUsed : usedFrom 0 zs =
      usedFrom 0 xs ++ (areasSize xs, ⟨n, true⟩) :: usedFrom (areasSize xs + n) ys := by
    rw [hzs, usedFrom_append, usedFrom_cons_used, Nat.zero_add]
  have hnewUsed : usedFrom 0 (xs ++ ⟨n', true⟩ :: ys') =
      usedFrom 0 xs ++ (areasSize xs, ⟨n', true⟩) :: usedFrom (areasSize xs + n) ys := by
    rw [usedFrom_append, usedFrom_cons_used, Nat.zero_add, htrimmed.used]
  have hbacked := h.backed
  rw [holdUsed] at hbacked
  refine ⟨heap', xs ++ ⟨n', true⟩ :: ys', by rw [hptr]; exact hok,
    htrimmed.represents, ⟨?_, ?_⟩, ?_⟩
  · have hstarts := hbacked.starts
    rw [map_ptr_changeHeld, hnewUsed]
    rw [List.map_append, List.map_cons] at hstarts ⊢
    exact hstarts
  · intro b hb
    rw [hnewUsed]
    rcases mem_changeHeld hb with ⟨c, hc, hbptr, ⟨hcptr, hcontents⟩ | ⟨hcptr, hcontents⟩⟩
    · refine ⟨(areasSize xs, ⟨n', true⟩), List.mem_append_right _ List.mem_cons_self, ?_, ?_⟩
      · rw [hbptr, hcptr, hptr]
        rfl
      · rw [hcontents, List.length_take]
        simp only
        lia
    · rcases hbacked.other hc (fun heq => hcptr (heq.trans hptr.symm)) with ⟨y, hy, hyptr, hyfits⟩
      refine ⟨y, ?_, hbptr.trans hyptr, by rw [hcontents]; exact hyfits⟩
      rcases List.mem_append.mp hy with hleft | hright
      · exact List.mem_append_left _ hleft
      · exact List.mem_append_right _ (List.mem_cons_of_mem _ hright)
  · intro b hb
    rcases mem_changeHeld hb with ⟨c, hc, hbptr, ⟨hcptr, hcontents⟩ | ⟨hcptr, hcontents⟩⟩
    · rw [h.eq_of_ptr hc ha hcptr] at hcontents hbptr
      rw [hbptr, hcontents, List.length_take, Nat.min_eq_left hold, ← h.holds a ha,
        take_readBytes _ _ _ _ hold]
      apply readBytes_congr
      intro q hlow hhigh
      exact htrimmed.own q (by lia) (by lia)
    · rcases hbacked.other hc (fun heq => hcptr (heq.trans hptr.symm)) with ⟨y, hy, hyptr, hyfits⟩
      rw [hbptr, hcontents, ← h.holds c hc, readBytes_length]
      apply readBytes_congr
      intro q hlow hhigh
      unfold dataStart at hyptr
      exact htrimmed.others y hy q (by lia) (by lia)

/-- A change of what the newest client holds. -/
theorem changeHeld_head {a : Allocation} {f : List UInt8 -> List UInt8}
    (h : forall b, b ∈ live -> b.ptr ≠ a.ptr) :
    changeHeld (a :: live) a.ptr f = ⟨a.ptr, f a.contents⟩ :: live := by
  unfold changeHeld
  rw [List.map_cons, if_pos rfl]
  congr 1
  calc
    live.map (fun b => if b.ptr = a.ptr then { b with contents := f b.contents } else b) =
        live.map id := List.map_congr_left (fun b hb => if_neg (h b hb))
    _ = live := List.map_id live

/-- `mem_calloc` hands out zeros. -/
theorem HeapHolds.calloc (h : HeapHolds zs heap live) (count size : UInt16) :
    memCalloc heap count size = .ok (heap, none) ∨
      exists heap' p zs', memCalloc heap count size = .ok (heap', some p) ∧
        HeapHolds zs' heap' (⟨p, List.replicate (count.toNat * size.toNat) 0⟩ :: live) := by
  unfold memCalloc
  simp only
  split
  · exact Or.inl rfl
  next hfitsWord =>
    have hword : (UInt16.ofNat (count.toNat * size.toNat)).toNat = count.toNat * size.toNat := by
      rw [UInt16.toNat_ofNat']
      lia
    rcases h.malloc (UInt16.ofNat (count.toNat * size.toNat)) with
      ⟨hnone, _⟩ | ⟨heap', p, zs', hok, _, hnew⟩
    · rw [hnone]
      exact Or.inl rfl
    · apply Or.inr
      rw [hok]
      refine ⟨_, p + 8, zs', rfl, ?_⟩
      have hread := hnew (readBytes heap'.ram (p + 8) (count.toNat * size.toNat))
        (by rw [readBytes_length, hword]) (by rw [readBytes_length])
      have hothers : forall b, b ∈ live -> b.ptr ≠ p + 8 := by
        intro b hb heq
        have hnodup := hread.nodup
        rw [List.map_cons] at hnodup
        apply (List.nodup_cons.mp hnodup).left
        change p + 8 ∈ live.map Allocation.ptr
        rw [← heq]
        exact List.mem_map_of_mem hb
      have hinside : 0 + (List.replicate (count.toNat * size.toNat) (0 : UInt8)).length <=
          (readBytes heap'.ram (p + 8) (count.toNat * size.toNat)).length := by
        rw [readBytes_length, List.length_replicate]
        lia
      have hwrite := hread.write List.mem_cons_self hinside
      rw [changeHeld_head hothers] at hwrite
      have hzeros : overwriteAt (readBytes heap'.ram (p + 8) (count.toNat * size.toNat)) 0
          (List.replicate (count.toNat * size.toNat) 0) =
            List.replicate (count.toNat * size.toNat) 0 := by
        unfold overwriteAt
        rw [List.drop_eq_nil_of_le (by simp), List.take_zero, List.nil_append, List.append_nil]
      rw [hzeros] at hwrite
      exact hwrite

/-- The step is not a trim that gives away the end of the heap. -/
def TrimsInside (s : MemState) (e : MemEvent) : Prop :=
  match e with
  | .trim rmem newSize =>
      match heldAt s.live rmem with
      | none => True
      | some a => newSize.toNat <= a.contents.length -> ¬ TrimsLast s.heap rmem newSize
  | _ => True

end Steps

/-!
# Whole runs
-/

section Runs

variable {s : MemState} {zs : List Area}

/-- A step keeps the heap sound, or it is the trim that `mem_trim` asserts against. -/
theorem memStep_spec (h : HeapHolds zs s.heap s.live) (hok : s.failed = none) (e : MemEvent) :
    (TrimsInside s e ∧ (memStep s e).failed = none ∧
      exists zs', HeapHolds zs' (memStep s e).heap (memStep s e).live) ∨
    (¬ TrimsInside s e ∧ memStep s e = { s with failed := some "invalid next ptr" }) := by
  have hrun : ¬ s.failed.isSome = true := by
    rw [hok]
    decide
  unfold memStep
  rw [if_neg hrun]
  cases e with
  | malloc sizeIn =>
      apply Or.inl
      rcases h.malloc sizeIn with ⟨hnone, _⟩ | ⟨heap', p, zs', hserved, _, hnew⟩
      · simp only [hnone]
        exact ⟨trivial, hok, zs, h⟩
      · simp only [hserved]
        exact ⟨trivial, hok, zs', hnew _ (by rw [readBytes_length]) (by rw [readBytes_length])⟩
  | calloc count size =>
      apply Or.inl
      rcases h.calloc count size with hnone | ⟨heap', p, zs', hserved, hnew⟩
      · simp only [hnone]
        exact ⟨trivial, hok, zs, h⟩
      · simp only [hserved]
        exact ⟨trivial, hok, zs', hnew⟩
  | free rmem =>
      apply Or.inl
      cases rmem with
      | none =>
          exact ⟨trivial, hok, zs, h⟩
      | some rmem =>
          simp only
          split
          next hheld =>
            rcases Option.isSome_iff_exists.mp hheld with ⟨a, ha⟩
            rcases heldAt_some ha with ⟨hmem, hptr⟩
            rcases h.free hmem with ⟨heap', zs', hfree, hnew⟩
            rw [hptr] at hfree hnew
            rw [hfree]
            exact ⟨trivial, hok, zs', hnew⟩
          next =>
            exact ⟨trivial, hok, zs, h⟩
  | trim rmem newSize =>
      unfold TrimsInside
      dsimp only
      cases ha : heldAt s.live rmem with
      | none =>
          exact Or.inl ⟨trivial, hok, zs, h⟩
      | some a =>
          rcases heldAt_some ha with ⟨hmem, hptr⟩
          rw [← hptr]
          simp only
          split
          next hold =>
            rcases Decidable.em (TrimsLast s.heap a.ptr newSize) with hlast | hlast
            · apply Or.inr
              rw [h.trim_last hmem hold hlast]
              exact ⟨fun hc => hc hold hlast, rfl⟩
            · apply Or.inl
              rcases h.trim hmem hold hlast with ⟨heap', zs', htrim, hnew⟩
              rw [htrim]
              exact ⟨fun _ => hlast, hok, zs', hnew⟩
          next hgrow =>
            exact Or.inl ⟨fun hc => absurd hc hgrow, hok, zs, h⟩
  | write rmem offset bytes =>
      apply Or.inl
      dsimp only
      cases ha : heldAt s.live rmem with
      | none =>
          exact ⟨trivial, hok, zs, h⟩
      | some a =>
          rcases heldAt_some ha with ⟨hmem, hptr⟩
          rw [← hptr]
          simp only
          split
          next hinside =>
            exact ⟨trivial, hok, zs, h.write hmem hinside⟩
          next =>
            exact ⟨trivial, hok, zs, h⟩

def MemSound (s : MemState) : Prop :=
  exists zs, HeapHolds zs s.heap s.live

theorem memStart_sound (ramHeap : Nat -> UInt8) : MemSound (memStart ramHeap) := by
  refine ⟨[⟨4096, false⟩], memInit_represents ramHeap, ⟨?_, ?_⟩, ?_⟩
  · exact List.Perm.nil
  · intro a ha
    cases ha
  · intro a ha
    cases ha

theorem memStep_of_failed {message : String} (h : s.failed = some message) (e : MemEvent) :
    memStep s e = s := by
  unfold memStep
  rw [if_pos (by rw [h]; rfl)]

theorem memStep_sound (s : MemState) (e : MemEvent) (h : MemSound s) : MemSound (memStep s e) := by
  rcases h with ⟨zs, hholds⟩
  cases hfailed : s.failed with
  | some message =>
      rw [memStep_of_failed hfailed]
      exact ⟨zs, hholds⟩
  | none =>
      rcases memStep_spec hholds hfailed e with ⟨_, _, hnew⟩ | ⟨_, hstep⟩
      · exact hnew
      · rw [hstep]
        exact ⟨zs, hholds⟩

theorem run_memSound (ramHeap : Nat -> UInt8) (es : List MemEvent) :
    MemSound (run memStep (memStart ramHeap) es) :=
  run_invariant memStep_sound (memStart_sound ramHeap) es

/-- In every reachable state the heap is a row of areas and passes its own checker. -/
theorem heap_always_sane (ramHeap : Nat -> UInt8) (es : List MemEvent) :
    memSanity (run memStep (memStart ramHeap) es).heap = .ok () ∧
      exists zs, Represents (run memStep (memStart ramHeap) es).heap zs := by
  rcases run_memSound ramHeap es with ⟨zs, hholds⟩
  exact ⟨memSanity_ok hholds.represents, zs, hholds.represents⟩

/-- Clients hold aligned memory inside the heap, apart from each other, and it keeps their data. -/
theorem allocations_private (ramHeap : Nat -> UInt8) (es : List MemEvent) :
    (forall a, a ∈ (run memStep (memStart ramHeap) es).live ->
      a.ptr % memAlignment = 0 ∧ sizeofStructMem <= a.ptr ∧
      a.ptr + a.contents.length <= memSizeAligned ∧
      readBytes (run memStep (memStart ramHeap) es).heap.ram a.ptr a.contents.length =
        a.contents) ∧
    (run memStep (memStart ramHeap) es).live.Pairwise (fun a b =>
      a.ptr + a.contents.length + sizeofStructMem <= b.ptr ∨
        b.ptr + b.contents.length + sizeofStructMem <= a.ptr) := by
  rcases run_memSound ramHeap es with ⟨zs, hholds⟩
  constructor
  · intro a ha
    rcases hholds.area ha with ⟨xs, n, ys, hzs, hptr, hfits⟩
    have hrow : Represents _ (xs ++ ⟨n, true⟩ :: ys) := hzs ▸ hholds.represents
    have halign := (goodSizes_append.mp hrow.sizes).left.areasSize_mod
    have hend := hrow.toLaid.next_le
    simp only at hend
    unfold memAlignment sizeofStructMem memSizeAligned
    exact ⟨by lia, by lia, by lia, hholds.holds a ha⟩
  · have hnodup := List.pairwise_map.mp hholds.nodup
    apply hnodup.imp_of_mem
    intro a b ha hb hne
    exact hholds.apart ha hb hne

/-- The scan from `lfree` is first fit over the whole heap, in every reachable state. -/
theorem memMalloc_is_firstFit (ramHeap : Nat -> UInt8) (es : List MemEvent) (sizeIn : UInt16) :
    exists zs heap', Represents (run memStep (memStart ramHeap) es).heap zs ∧
      memMalloc (run memStep (memStart ramHeap) es).heap sizeIn =
        .ok (heap', (mallocFit sizeIn zs).map (fun mem => mem + sizeofStructMem)) := by
  rcases run_memSound ramHeap es with ⟨zs, hholds⟩
  refine ⟨zs, ?_⟩
  rcases hholds.malloc sizeIn with ⟨hnone, hfit⟩ | ⟨heap', p, _, hserved, hfit, _⟩
  · exact ⟨_, hholds.represents, by rw [hnone, hfit]; rfl⟩
  · exact ⟨heap', hholds.represents, by rw [hserved, hfit]; rfl⟩

theorem run_memStep_of_failed {message : String} (h : s.failed = some message)
    (es : List MemEvent) : run memStep s es = s := by
  induction es with
  | nil => rfl
  | cons e es ih =>
      rw [run_cons, memStep_of_failed h, ih]

theorem run_failed_cases (hsound : MemSound s) (hok : s.failed = none) (es : List MemEvent) :
    ((run memStep s es).failed = none ∧ AllSteps memStep TrimsInside s es) ∨
    ((run memStep s es).failed = some "invalid next ptr" ∧
      ¬ AllSteps memStep TrimsInside s es) := by
  induction es generalizing s with
  | nil =>
      exact Or.inl ⟨hok, trivial⟩
  | cons e es ih =>
      rw [run_cons, AllSteps]
      rcases hsound with ⟨zs, hholds⟩
      rcases memStep_spec hholds hok e with ⟨hinside, hstepOk, hnew⟩ | ⟨houtside, hstep⟩
      · rcases ih hnew hstepOk with ⟨hnone, hall⟩ | ⟨hsome, hnot⟩
        · exact Or.inl ⟨hnone, hinside, hall⟩
        · exact Or.inr ⟨hsome, fun hall => hnot hall.right⟩
      · have hfailed : (memStep s e).failed = some "invalid next ptr" := by rw [hstep]
        rw [run_memStep_of_failed hfailed]
        exact Or.inr ⟨hfailed, fun hall => houtside hall.left⟩

/--
Clients that keep the rules meet one assertion only: a trim of the last area of the
heap, which fails the one of `mem_trim` on the next pointer.
-/
theorem heap_aborts_iff (ramHeap : Nat -> UInt8) (es : List MemEvent) :
    ((run memStep (memStart ramHeap) es).failed = none <->
      AllSteps memStep TrimsInside (memStart ramHeap) es) ∧
    ((run memStep (memStart ramHeap) es).failed = some "invalid next ptr" <->
      ¬ AllSteps memStep TrimsInside (memStart ramHeap) es) := by
  rcases run_failed_cases (memStart_sound ramHeap) rfl es with ⟨hnone, hall⟩ | ⟨hsome, hnot⟩
  · rw [hnone]
    exact ⟨⟨fun _ => hall, fun _ => rfl⟩, ⟨nofun, fun hnot => absurd hall hnot⟩⟩
  · rw [hsome]
    exact ⟨⟨nofun, fun hall => absurd hall hnot⟩, ⟨fun _ => hnot, fun _ => rfl⟩⟩

-- The whole heap handed out as one block and trimmed, which the rules of `mem_trim` allow.
example : (run memStep (memStart (fun _ => 0)) [.malloc 4088, .trim 8 100]).failed =
    some "invalid next ptr" := by
  decide +kernel

theorem dropHeld_head {a : Allocation} {live : List Allocation}
    (h : ((a :: live).map Allocation.ptr).Nodup) : dropHeld (a :: live) a.ptr = live := by
  unfold dropHeld
  rw [List.filter_cons_of_neg (by simp)]
  apply List.filter_eq_self.mpr
  intro b hb
  have hne : b.ptr ≠ a.ptr := by
    intro heq
    apply (List.nodup_cons.mp h).left
    rw [← heq]
    exact List.mem_map_of_mem hb
  simpa using hne

/-- Freeing everything, the newest first, works and leaves nothing in use. -/
theorem run_free_all {live : List Allocation} (hsound : MemSound s) (hok : s.failed = none)
    (hlive : s.live = live) :
    MemSound (run memStep s (live.map (fun a => .free (some a.ptr)))) ∧
      (run memStep s (live.map (fun a => .free (some a.ptr)))).failed = none ∧
      (run memStep s (live.map (fun a => .free (some a.ptr)))).live = [] := by
  induction live generalizing s with
  | nil =>
      exact ⟨hsound, hok, hlive⟩
  | cons a live ih =>
      rcases hsound with ⟨zs, hholds⟩
      have hnodup := hholds.nodup
      rw [hlive] at hnodup
      have hheld : heldAt (a :: live) a.ptr = some a := by
        simp [heldAt]
      rcases hholds.free (show a ∈ s.live by rw [hlive]; exact List.mem_cons_self) with
        ⟨heap', zs', hfree, hnew⟩
      rw [hlive, dropHeld_head hnodup] at hnew
      have hstep : memStep s (.free (some a.ptr)) = ⟨heap', live, none⟩ := by
        unfold memStep
        rw [if_neg (by rw [hok]; decide)]
        simp only [hlive, hheld, hfree, Option.isSome_some, if_true, dropHeld_head hnodup]
        rw [MemState.freed, hok]
      rw [List.map_cons, run_cons, hstep]
      exact ih ⟨zs', hnew⟩ rfl rfl

/-- A row of free areas without two of them side by side is one area. -/
theorem Represents.one_area {heap : MemHeap} (h : Represents heap zs)
    (hused : usedFrom 0 zs = []) : zs = [⟨4096, false⟩] := by
  have hsize := h.size
  rcases zs with _ | ⟨⟨n, _ | _⟩, zs⟩
  · exact absurd hsize (by decide)
  · rcases zs with _ | ⟨⟨m, _ | _⟩, zs⟩
    · simp only [areasSize, Nat.add_zero] at hsize
      rw [hsize]
    · have hpair := (noFreePair_free_cons.mp h.noFreePair).left ⟨m, false⟩ rfl
      cases hpair
    · rw [usedFrom_cons_free, usedFrom_cons_used] at hused
      cases hused
  · rw [usedFrom_cons_used] at hused
    cases hused

/-- After any run, freeing what is held joins the heap to one free area again. -/
theorem heap_empties (ramHeap : Nat -> UInt8) (es : List MemEvent)
    (hok : (run memStep (memStart ramHeap) es).failed = none) :
    (run memStep (run memStep (memStart ramHeap) es)
        ((run memStep (memStart ramHeap) es).live.map (fun a => .free (some a.ptr)))).live = [] ∧
      Represents (run memStep (run memStep (memStart ramHeap) es)
        ((run memStep (memStart ramHeap) es).live.map (fun a => .free (some a.ptr)))).heap
        [⟨4096, false⟩] := by
  rcases run_free_all (run_memSound ramHeap es) hok rfl with ⟨⟨zs, hholds⟩, _, hlive⟩
  refine ⟨hlive, ?_⟩
  have hstarts := hholds.backed.starts
  rw [hlive] at hstarts
  have hnone : usedFrom 0 zs = [] := List.map_eq_nil_iff.mp hstarts.symm.eq_nil
  rw [← hholds.represents.one_area hnone]
  exact hholds.represents

theorem heap_empties_after_mallocs :
    (run memStep (memStart (fun _ => 0)) [.malloc 100, .calloc 3 20, .free none]).failed = none ∧
      (run memStep (run memStep (memStart (fun _ => 0)) [.malloc 100, .calloc 3 20, .free none])
        ((run memStep (memStart (fun _ => 0))
          [.malloc 100, .calloc 3 20, .free none]).live.map
            (fun a => .free (some a.ptr)))).live = [] := by
  have hok : (run memStep (memStart (fun _ => 0))
      [.malloc 100, .calloc 3 20, .free none]).failed = none := by
    rcases run_failed_cases (memStart_sound (fun _ => 0)) rfl
      [.malloc 100, .calloc 3 20, .free none] with ⟨hnone, _⟩ | ⟨_, hnot⟩
    · exact hnone
    · exact absurd ⟨trivial, trivial, trivial, trivial⟩ hnot
  exact ⟨hok, (heap_empties (fun _ => 0) _ hok).left⟩

end Runs

end Net
end Ch579HttpLed
