import L4Rdma.Machine

/-!
# 32-bit words, the byte order of the device, and arrays of words

The driver's processor is little-endian and the device is big-endian. The driver swaps the bytes of
every word that it writes to memory it shares with the device, and of every word that it reads from
there (`server/src/device.h`). A field of such memory holds the word as the processor sees it, so
the device sees the field with its bytes swapped.
-/

namespace L4Rdma

open Lib

/-- `l4_uint32_t`. -/
abbrev Word : Type := BitVec 32

namespace Device

/-- Byte `k` of a word in memory, on a little-endian processor. -/
def byte (u : Word) (k : ℕ) : BitVec 8 := u.extractLsb' (8 * k) 8

/-- `swap_endian`: byte `k` of the result is byte `3 - k` of the source. -/
def swapEndian (u : Word) : Word := byte u 0 ++ byte u 1 ++ byte u 2 ++ byte u 3

/-- Bit `i` of the result is the bit at the same place in the byte across. -/
theorem getLsbD_swapEndian (u : Word) {i : ℕ} (hi : i < 32) :
    (swapEndian u).getLsbD i = u.getLsbD (8 * (3 - i / 8) + i % 8) := by
  unfold swapEndian byte
  simp only [BitVec.getLsbD_append, BitVec.getLsbD_extractLsb']
  interval_cases i <;> rfl

/-- Swapping the bytes twice gives the word back. -/
@[simp] theorem swapEndian_swapEndian (u : Word) : swapEndian (swapEndian u) = u := by
  refine BitVec.eq_of_getLsbD_eq fun i hi => ?_
  rw [getLsbD_swapEndian _ hi, getLsbD_swapEndian _ (by omega)]
  congr 1
  omega

/-- Zero stays zero. -/
@[simp] theorem swapEndian_zero : swapEndian 0 = 0 := by decide

/-- What `iowrite32be` leaves in a field. -/
abbrev iowrite32be (value : Word) : Word := swapEndian value

/-- What `ioread32be` returns for a field. -/
abbrev ioread32be (field : Word) : Word := swapEndian field

/-- A field holds the word that has been written to it. -/
theorem ioread32be_iowrite32be (value : Word) : ioread32be (iowrite32be value) = value :=
  swapEndian_swapEndian value

end Device

/-! ## Halves of an address -/

/-- `(l4_uint32_t)(addr >> 32)`. -/
def msb (addr : ℕ) : Word := BitVec.ofNat 32 (addr >>> 32)

/-- `(l4_uint32_t)addr`. -/
def lsb (addr : ℕ) : Word := BitVec.ofNat 32 addr

/-- `(l4_uint64_t)m << 32 | (l4_uint64_t)l`. -/
def address (m l : Word) : ℕ := (m.toNat <<< 32) ||| l.toNat

/-- The halves of a 64-bit address make the address. -/
theorem address_msb_lsb {addr : ℕ} (h : addr < 2 ^ 64) : address (msb addr) (lsb addr) = addr := by
  have hlt : addr % 2 ^ 32 < 2 ^ 32 := Nat.mod_lt _ (by decide)
  have hm : addr / 2 ^ 32 < 2 ^ 32 := by omega
  rw [address, msb, lsb, BitVec.toNat_ofNat, BitVec.toNat_ofNat, Nat.shiftRight_eq_div_pow,
    Nat.mod_eq_of_lt hm, ← Nat.shiftLeft_add_eq_or_of_lt hlt, Nat.shiftLeft_eq]
  exact Nat.div_add_mod' addr (2 ^ 32)

/-- Two halves make a 64-bit address. -/
theorem address_lt (m l : Word) : address m l < 2 ^ 64 := by
  have hm : m.toNat <<< 32 < 2 ^ 64 := by
    rw [Nat.shiftLeft_eq]
    exact Nat.mul_lt_mul_of_pos_right m.isLt (by norm_num)
  exact Nat.or_lt_two_pow hm (l.isLt.trans (by norm_num))

/-! ## Arrays of words -/

/-- Arrays of two words have an element 0, and so have the numerals of their indexes. -/
instance neZeroTwo : NeZero 2 := ⟨Nat.succ_ne_zero 1⟩

/-- An array of words: its length, and what it contains. -/
structure Buf where
  size : ℕ
  word : ℕ → Word

/-- The array that holds the words of a list. -/
def Buf.ofList (l : List Word) : Buf := ⟨l.length, fun i => l.getD i 0⟩

/-- Reads an element of an array. -/
def Buf.read {σ : Type} (b : Buf) (i : ℕ) : Exec σ Word :=
  if i < b.size then pure (b.word i) else throw (.undefined .out_of_bounds)

/-- Writes an element of an array. -/
def Buf.write {σ : Type} (b : Buf) (i : ℕ) (w : Word) : Exec σ Buf :=
  if i < b.size then pure { b with word := Function.update b.word i w }
  else throw (.undefined .out_of_bounds)

/-- A word inside of the array is read. -/
theorem Buf.read_of_lt {σ : Type} {b : Buf} {i : ℕ} (h : i < b.size) (s : σ) :
    b.read i s = .ok (b.word i) s := by
  simp [Buf.read, h]

/-- A word inside of the array is written. -/
theorem Buf.write_of_lt {σ : Type} {b : Buf} {i : ℕ} (h : i < b.size) (w : Word) (s : σ) :
    b.write i w s = .ok { b with word := Function.update b.word i w } s := by
  simp [Buf.write, h]

/-- A word outside of the array is not read. -/
theorem Buf.read_of_ge {σ : Type} {b : Buf} {i : ℕ} (h : b.size ≤ i) (s : σ) :
    b.read i s = .error (.undefined .out_of_bounds) s := by
  simp [Buf.read, Nat.not_lt_of_le h]

end L4Rdma
