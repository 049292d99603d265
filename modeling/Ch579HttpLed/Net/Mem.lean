import Ch579HttpLed.Foundation.Memory
import Mathlib.Algebra.GroupWithZero.Nat

/-!
# The lwIP heap

Model of `core/mem.c` as the project configures it: a heap of 4096 bytes, 16-bit
offsets, headers of eight bytes, no pools and no overflow regions.  The heap is
the array `ram` byte by byte; a `struct mem` is what its bytes say, little-endian.
Pointers are offsets from `ram`, which is aligned, and may lie outside the heap
where the source checks for it.  A failing `LWIP_ASSERT` calls `abort`, so every
function that asserts may end with the message of the assertion instead of a
result.
-/

namespace Ch579HttpLed
namespace Net

open Foundation

def memSizeAligned : Nat := 4096

def sizeofStructMem : Nat := 8

def minSizeAligned : Nat := 12

def memAlignment : Nat := 4

/-- The macro `LWIP_MEM_ALIGN_SIZE`. -/
def lwipMemAlignSize (size : Nat) : Nat :=
  (size + memAlignment - 1) / memAlignment * memAlignment

/-- The macro `LWIP_ASSERT`; a failed assertion ends the program with its message. -/
def lwipAssert (message : String) (assertion : Bool) : Except String Unit :=
  if assertion then .ok () else .error message

@[ext] structure Mem where
  next : Nat
  prev : Nat
  used : UInt8
deriving DecidableEq, Repr

/-- The `struct mem` at the offset `ptr`, read from its five bytes. -/
def ptrToMem (ram : Nat -> UInt8) (ptr : Nat) : Mem where
  next := (ram ptr).toNat + 256 * (ram (ptr + 1)).toNat
  prev := (ram (ptr + 2)).toNat + 256 * (ram (ptr + 3)).toNat
  used := ram (ptr + 4)

/-- A `mem_size_t` as its two bytes. -/
def memSizeBytes (n : Nat) : List UInt8 :=
  [UInt8.ofNat n, UInt8.ofNat (n / 256)]

def setNext (ram : Nat -> UInt8) (ptr next : Nat) : Nat -> UInt8 :=
  writeBytes ram ptr (memSizeBytes next)

def setPrev (ram : Nat -> UInt8) (ptr prev : Nat) : Nat -> UInt8 :=
  writeBytes ram (ptr + 2) (memSizeBytes prev)

def setUsed (ram : Nat -> UInt8) (ptr : Nat) (used : UInt8) : Nat -> UInt8 :=
  writeBytes ram (ptr + 4) [used]

/-- All three fields of the `struct mem` at `ptr`. -/
def storeMem (ram : Nat -> UInt8) (ptr : Nat) (m : Mem) : Nat -> UInt8 :=
  setUsed (setPrev (setNext ram ptr m.next) ptr m.prev) ptr m.used

/-- `if (next != MEM_SIZE_ALIGNED) ptr_to_mem(next)->prev = ptr`, which ends every relinking. -/
def linkBack (ram : Nat -> UInt8) (next ptr : Nat) : Nat -> UInt8 :=
  if next ≠ memSizeAligned then setPrev ram next ptr else ram

structure MemHeap where
  ram : Nat -> UInt8
  lfree : Nat

/-- `mem_init` on whatever the array `ram_heap` holds. -/
def memInit (ramHeap : Nat -> UInt8) : MemHeap where
  ram := storeMem (storeMem ramHeap 0 ⟨memSizeAligned, 0, 0⟩)
    memSizeAligned ⟨memSizeAligned, memSizeAligned, 1⟩
  lfree := 0

/-- The body of both halves of `plug_holes`: `nmem` is joined to `mem` before it. -/
def combine (heap : MemHeap) (mem nmem : Nat) : MemHeap :=
  let lfree := if heap.lfree = nmem then mem else heap.lfree
  let ram := setNext heap.ram mem (ptrToMem heap.ram nmem).next
  { ram := linkBack ram (ptrToMem ram nmem).next mem, lfree := lfree }

def plugForward (heap : MemHeap) (mem : Nat) : MemHeap :=
  let nmem := (ptrToMem heap.ram mem).next
  if mem ≠ nmem ∧ (ptrToMem heap.ram nmem).used = 0 ∧ nmem ≠ memSizeAligned then
    combine heap mem nmem
  else
    heap

def plugBackward (heap : MemHeap) (mem : Nat) : MemHeap :=
  let pmem := (ptrToMem heap.ram mem).prev
  if pmem ≠ mem ∧ (ptrToMem heap.ram pmem).used = 0 then
    combine heap pmem mem
  else
    heap

-- The assertion `mem >= ram` is the type of the offset.
def plugHoles (heap : MemHeap) (mem : Nat) : Except String MemHeap := do
  lwipAssert "plug_holes: mem < ram_end" (mem < memSizeAligned)
  lwipAssert "plug_holes: mem->used == 0" ((ptrToMem heap.ram mem).used = 0)
  lwipAssert "plug_holes: mem->next <= MEM_SIZE_ALIGNED"
    ((ptrToMem heap.ram mem).next <= memSizeAligned)
  return plugBackward (plugForward heap mem) mem

def memLinkValid (ram : Nat -> UInt8) (mem : Nat) : Bool :=
  let next := (ptrToMem ram mem).next
  let prev := (ptrToMem ram mem).prev
  if next > memSizeAligned ∨ prev > memSizeAligned ∨
      (prev ≠ mem ∧ (ptrToMem ram prev).next ≠ mem) ∨
      (next ≠ memSizeAligned ∧ (ptrToMem ram next).prev ≠ mem) then
    false
  else
    true

/-- Part of `mem_free` behind the check of the pointer. -/
def freeMem (heap : MemHeap) (mem : Nat) : Except String MemHeap := do
  lwipAssert "mem_free: illegal memory: double free" ((ptrToMem heap.ram mem).used ≠ 0)
  lwipAssert "mem_free: illegal memory: non-linked: double free" (memLinkValid heap.ram mem)
  let ram := setUsed heap.ram mem 0
  let lfree := if mem < heap.lfree then mem else heap.lfree
  plugHoles { ram := ram, lfree := lfree } mem

def memFree (heap : MemHeap) (rmem : Option Int) : Except String MemHeap :=
  match rmem with
  | none => .ok heap
  | some p => do
      lwipAssert "mem_free: sanity check alignment" (p % memAlignment = 0)
      lwipAssert "mem_free: illegal memory"
        (¬ (p - sizeofStructMem < 0 ∨ p + minSizeAligned > memSizeAligned))
      freeMem heap (p - sizeofStructMem).toNat

/-- The aligned `mem_size_t` that `mem_malloc` and `mem_trim` make of a size. -/
def requestSize (size : UInt16) : Nat :=
  max (lwipMemAlignSize size.toNat % 65536) minSizeAligned

/-- The test behind it: the size does not fit the heap or has wrapped. -/
def RequestTooLarge (size : UInt16) : Prop :=
  requestSize size > memSizeAligned ∨ requestSize size < size.toNat

instance (size : UInt16) : Decidable (RequestTooLarge size) :=
  inferInstanceAs (Decidable (_ ∨ _))

/-- `mem->next - (ptr + SIZEOF_STRUCT_MEM)` in 32-bit arithmetic. -/
def userDataSize (ram : Nat -> UInt8) (ptr : Nat) : Nat :=
  ((ptrToMem ram ptr).next + 2 ^ 32 - (ptr + sizeofStructMem)) % 2 ^ 32

/-- The `for` loop of `mem_malloc` up to the block it takes. -/
def scanFree (ram : Nat -> UInt8) (size : Nat) : Nat -> Nat -> Option Nat
  | 0, _ => none
  | fuel + 1, ptr =>
      if ptr < memSizeAligned - size then
        if (ptrToMem ram ptr).used = 0 ∧ size <= userDataSize ram ptr then
          some ptr
        else
          scanFree ram size fuel (ptrToMem ram ptr).next
      else
        none

/-- The `while` loop of `mem_malloc` that moves `lfree`. -/
def nextFree (ram : Nat -> UInt8) : Nat -> Nat -> Nat
  | 0, cur => cur
  | fuel + 1, cur =>
      if (ptrToMem ram cur).used ≠ 0 ∧ cur ≠ memSizeAligned then
        nextFree ram fuel (ptrToMem ram cur).next
      else
        cur

/-- A new free `struct mem` between `ptr` and the one at `next`. -/
def insertMem (ram : Nat -> UInt8) (ptr ptr2 next : Nat) : Nat -> UInt8 :=
  let ram := storeMem ram ptr2 ⟨next, ptr, 0⟩
  setNext ram ptr ptr2

/-- `mem_malloc` marks the block it found and cuts off what is left of it. -/
def takeBlock (ram : Nat -> UInt8) (ptr size : Nat) : Except String (Nat -> UInt8) :=
  if userDataSize ram ptr >= size + sizeofStructMem + minSizeAligned then do
    let ptr2 := (ptr + sizeofStructMem + size) % 65536
    lwipAssert "invalid next ptr" (ptr2 ≠ memSizeAligned)
    let ram := insertMem ram ptr ptr2 (ptrToMem ram ptr).next
    let ram := setUsed ram ptr 1
    return linkBack ram (ptrToMem ram ptr2).next ptr2
  else
    return setUsed ram ptr 1

/-- `mem_malloc` moves `lfree` when it took the lowest free block. -/
def adjustLfree (heap : MemHeap) (ptr : Nat) : Except String MemHeap :=
  if ptr = heap.lfree then do
    let cur := nextFree heap.ram memSizeAligned heap.lfree
    lwipAssert "mem_malloc: !lfree->used"
      (cur = memSizeAligned ∨ (ptrToMem heap.ram cur).used = 0)
    return { heap with lfree := cur }
  else
    return heap

def memMalloc (heap : MemHeap) (sizeIn : UInt16) : Except String (MemHeap × Option Nat) :=
  if sizeIn = 0 then
    .ok (heap, none)
  else if RequestTooLarge sizeIn then
    .ok (heap, none)
  else
    match scanFree heap.ram (requestSize sizeIn) memSizeAligned heap.lfree with
    | none => .ok (heap, none)
    | some ptr => do
        let ram ← takeBlock heap.ram ptr (requestSize sizeIn)
        let heap ← adjustLfree { heap with ram := ram } ptr
        lwipAssert "mem_malloc: allocated memory not above ram_end."
          (ptr + sizeofStructMem + requestSize sizeIn <= memSizeAligned)
        lwipAssert "mem_malloc: allocated memory properly aligned."
          ((ptr + sizeofStructMem) % memAlignment = 0)
        lwipAssert "mem_malloc: sanity check alignment" (ptr % memAlignment = 0)
        return (heap, some (ptr + sizeofStructMem))

def memCalloc (heap : MemHeap) (count size : UInt16) :
    Except String (MemHeap × Option Nat) :=
  let allocSize := count.toNat * size.toNat
  if allocSize % 65536 ≠ allocSize then
    .ok (heap, none)
  else do
    let (heap, p) ← memMalloc heap (UInt16.ofNat allocSize)
    match p with
    | none => return (heap, none)
    | some p =>
        return ({ heap with ram := writeBytes heap.ram p (List.replicate allocSize 0) }, some p)

/-- `(mem_size_t)((mem_size_t)(mem->next - ptr) - SIZEOF_STRUCT_MEM)`. -/
def trimmedSize (ram : Nat -> UInt8) (ptr : Nat) : Nat :=
  (((ptrToMem ram ptr).next + 65536 - ptr) % 65536 + 65536 - sizeofStructMem) % 65536

/-- `mem_trim` gives the end of a block away, to the free block behind it or to a new one. -/
def shrinkBlock (heap : MemHeap) (ptr newsize : Nat) : Except String MemHeap :=
  let next := (ptrToMem heap.ram ptr).next
  let ptr2 := (ptr + sizeofStructMem + newsize) % 65536
  if (ptrToMem heap.ram next).used = 0 then do
    lwipAssert "invalid next ptr" (next ≠ memSizeAligned)
    let lfree := if heap.lfree = next then ptr2 else heap.lfree
    let ram := insertMem heap.ram ptr ptr2 (ptrToMem heap.ram next).next
    return { ram := linkBack ram (ptrToMem ram ptr2).next ptr2, lfree := lfree }
  else if newsize + sizeofStructMem + minSizeAligned <= trimmedSize heap.ram ptr then do
    lwipAssert "invalid next ptr" (next ≠ memSizeAligned)
    let lfree := if ptr2 < heap.lfree then ptr2 else heap.lfree
    let ram := insertMem heap.ram ptr ptr2 next
    return { ram := linkBack ram (ptrToMem ram ptr2).next ptr2, lfree := lfree }
  else
    return heap

-- A pointer into the first header would be read below `ram`; here its offset wraps.
def memTrim (heap : MemHeap) (rmem : Int) (newSize : UInt16) :
    Except String (MemHeap × Option Int) :=
  if RequestTooLarge newSize then
    .ok (heap, none)
  else do
    lwipAssert "mem_trim: legal memory" (0 <= rmem ∧ rmem < memSizeAligned)
    let ptr := ((rmem - sizeofStructMem) % 65536).toNat
    lwipAssert "mem_trim can only shrink memory"
      (requestSize newSize <= trimmedSize heap.ram ptr)
    if requestSize newSize = trimmedSize heap.ram ptr then
      return (heap, some rmem)
    else do
      let heap ← shrinkBlock heap ptr (requestSize newSize)
      return (heap, some rmem)

/-!
# The checker

`mem_sanity` is compiled in with `MEM_SANITY_CHECK` only; the calls of `MEM_SANITY`
say where the authors expect it to pass.  Its tests for aligned links have the
closing parenthesis behind the comparison, so what they align is a truth value.
-/

/-- The macro `LWIP_MEM_ALIGN` on an offset or on the number a comparison gives. -/
def lwipMemAlign (address : Nat) : Nat :=
  lwipMemAlignSize address

def memSanityLoop (ram : Nat -> UInt8) : Nat -> Nat -> UInt8 -> Except String Nat
  | 0, mem, _ => .ok mem
  | fuel + 1, mem, lastUsed =>
      if 0 < mem ∧ mem < memSizeAligned then do
        let m := ptrToMem ram mem
        lwipAssert "heap element aligned" (lwipMemAlign mem = mem)
        lwipAssert "heap element prev ptr valid" (m.prev <= memSizeAligned)
        lwipAssert "heap element next ptr valid" (m.next <= memSizeAligned)
        lwipAssert "heap element prev ptr aligned" (lwipMemAlign (m.prev == m.prev).toNat ≠ 0)
        lwipAssert "heap element next ptr aligned" (lwipMemAlign (m.next == m.next).toNat ≠ 0)
        if lastUsed = 0 then
          lwipAssert "heap element unused?" (m.used = 1)
        else
          lwipAssert "heap element unused member" (m.used = 0 ∨ m.used = 1)
        lwipAssert "heap element link valid" (memLinkValid ram mem)
        memSanityLoop ram fuel m.next m.used
      else
        .ok mem

def memSanity (heap : MemHeap) : Except String Unit := do
  let m := ptrToMem heap.ram 0
  lwipAssert "heap element used valid" (m.used = 0 ∨ m.used = 1)
  lwipAssert "heap element prev ptr valid" (m.prev = 0)
  lwipAssert "heap element next ptr valid" (m.next <= memSizeAligned)
  lwipAssert "heap element next ptr aligned" (lwipMemAlign (m.next == m.next).toNat ≠ 0)
  let mem ← memSanityLoop heap.ram memSizeAligned m.next m.used
  lwipAssert "heap end ptr sanity" (mem = memSizeAligned)
  let m := ptrToMem heap.ram mem
  lwipAssert "heap element used valid" (m.used = 1)
  lwipAssert "heap element prev ptr valid" (m.prev = memSizeAligned)
  lwipAssert "heap element next ptr valid" (m.next = memSizeAligned)

end Net
end Ch579HttpLed
