import Mathlib.Data.List.Basic

/-!
# Byte-addressed memory

Memory is a total function from addresses to bytes.  Block reads and block
writes are enough to describe a DMA engine that fills a buffer and a program
that copies out of it; the lemmas say when one write is seen by a later read.
-/

namespace Ch579HttpLed
namespace Foundation

section Memory

variable {byte : Type*}

/-- The bytes at `len` consecutive addresses starting at `addr`. -/
def readBytes (mem : Nat -> byte) (addr len : Nat) : List byte :=
  (List.range len).map (fun k => mem (addr + k))

/-- Memory after storing `bs` at consecutive addresses starting at `addr`. -/
def writeBytes (mem : Nat -> byte) (addr : Nat) (bs : List byte) : Nat -> byte :=
  fun a => if addr <= a then bs.getD (a - addr) (mem a) else mem a

@[simp] theorem readBytes_length (mem : Nat -> byte) (addr len : Nat) :
    (readBytes mem addr len).length = len := by
  simp [readBytes]

theorem readBytes_congr {mem mem' : Nat -> byte} {addr len : Nat}
    (h : forall a, addr <= a -> a < addr + len -> mem a = mem' a) :
    readBytes mem addr len = readBytes mem' addr len := by
  apply List.map_congr_left
  intro k hk
  have hk' : k < len := List.mem_range.mp hk
  exact h (addr + k) (by omega) (by omega)

theorem take_readBytes (mem : Nat -> byte) (addr len n : Nat) (h : n <= len) :
    (readBytes mem addr len).take n = readBytes mem addr n := by
  unfold readBytes
  rw [← List.map_take, List.take_range, Nat.min_eq_left h]

theorem readBytes_add (mem : Nat -> byte) (addr m n : Nat) :
    readBytes mem addr (m + n) = readBytes mem addr m ++ readBytes mem (addr + m) n := by
  unfold readBytes
  rw [List.range_add, List.map_append, List.map_map]
  simp [Function.comp_def, Nat.add_assoc]

/-- A block write is read back at its own address. -/
theorem readBytes_writeBytes_same (mem : Nat -> byte) (addr : Nat)
    (bs : List byte) :
    readBytes (writeBytes mem addr bs) addr bs.length = bs := by
  apply List.ext_getElem
  · simp
  · intro k hk hk'
    simp [readBytes, writeBytes, hk']

theorem writeBytes_outside (mem : Nat -> byte) {addr a : Nat} {bs : List byte}
    (h : a < addr ∨ addr + bs.length <= a) : writeBytes mem addr bs a = mem a := by
  unfold writeBytes
  rcases h with hlow | hhigh
  · rw [if_neg (Nat.not_le.mpr hlow)]
  · rw [if_pos (by omega), List.getD_eq_getElem?_getD, List.getElem?_eq_none (by omega)]
    rfl

/-- A block write is not seen by a read of a disjoint block. -/
theorem readBytes_writeBytes_disjoint (mem : Nat -> byte)
    {addr addr' len : Nat} {bs : List byte}
    (h : addr' + len <= addr ∨ addr + bs.length <= addr') :
    readBytes (writeBytes mem addr bs) addr' len = readBytes mem addr' len := by
  apply readBytes_congr
  intro a hlow hhigh
  unfold writeBytes
  by_cases ha : addr <= a
  · have hlen : bs.length <= a - addr := by omega
    rw [if_pos ha, List.getD_eq_getElem?_getD, List.getElem?_eq_none hlen]
    rfl
  · rw [if_neg ha]

/-- Bytes at an offset of a buffer replaced by `bs`. -/
def overwriteAt (buf : List byte) (offset : Nat) (bs : List byte) : List byte :=
  buf.take offset ++ (bs ++ buf.drop (offset + bs.length))

/-- A write inside a block is the same change of what is read from the block. -/
theorem readBytes_writeBytes_inside (mem : Nat -> byte) {addr offset len : Nat}
    {bs : List byte} (h : offset + bs.length <= len) :
    readBytes (writeBytes mem (addr + offset) bs) addr len =
      overwriteAt (readBytes mem addr len) offset bs := by
  have hlen : len = offset + (bs.length + (len - (offset + bs.length))) := by omega
  have hrest : (readBytes mem addr len).drop (offset + bs.length) =
      readBytes mem (addr + (offset + bs.length)) (len - (offset + bs.length)) := by
    rw [← Nat.add_sub_of_le h, readBytes_add, List.drop_left' (readBytes_length _ _ _),
      Nat.add_sub_cancel_left]
  unfold overwriteAt
  rw [hrest, take_readBytes _ _ _ _ (by omega), hlen, readBytes_add, readBytes_add,
    readBytes_writeBytes_disjoint mem (Or.inl (Nat.le_refl _)), readBytes_writeBytes_same,
    readBytes_writeBytes_disjoint mem (Or.inr (Nat.le_refl _)), ← hlen, Nat.add_assoc]

/-- A caller's buffer after its first bytes were overwritten by `bs`. -/
def overwrite (buf bs : List byte) : List byte :=
  bs ++ buf.drop bs.length

theorem overwrite_of_length_le {buf bs : List byte}
    (h : buf.length <= bs.length) : overwrite buf bs = bs := by
  simp [overwrite, List.drop_eq_nil_of_le h]

theorem take_overwrite (buf bs : List byte) :
    (overwrite buf bs).take bs.length = bs := by
  simp [overwrite]

end Memory

end Foundation
end Ch579HttpLed
