import PhpSandbox.Lib.CString

/-!
# Bytes in memory

A memory is a function from addresses to bytes. `slice` is a part of it as a list, `blit` writes a list into it; a
slice of what was written is the list (`slice_blit`).
-/

namespace PhpSandbox.Lib

variable (mem : ℕ → UInt8) (a : ℕ)

/-- The `n` bytes from `a` on. -/
def slice (n : ℕ) : Bytes := (List.range n).map fun i => mem (a + i)

/-- The memory after bytes are written from `a` on. -/
def blit (bs : Bytes) : ℕ → UInt8 :=
  fun i => if a ≤ i then (bs[i - a]?).getD (mem i) else mem i

@[simp] theorem length_slice (n : ℕ) : (slice mem a n).length = n := by
  rw [slice, List.length_map, List.length_range]

theorem slice_add (m n : ℕ) : slice mem a (m + n) = slice mem a m ++ slice mem (a + m) n := by
  rw [slice, List.range_add, List.map_append, List.map_map]
  congr 1
  refine List.map_congr_left fun i _ => ?_
  rw [Function.comp, Nat.add_assoc]

theorem slice_blit (bs : Bytes) : slice (blit mem a bs) a bs.length = bs := by
  apply List.ext_getElem (length_slice _ _ _)
  intro i hi hi'
  simp [slice, blit, hi']

variable {m n : ℕ}

theorem take_slice (h : m ≤ n) : (slice mem a n).take m = slice mem a m := by
  rw [slice, slice, ← List.map_take, List.take_range, Nat.min_eq_left h]

theorem slice_zero : slice mem a 0 = [] := rfl

/-- A part of a slice that was moved. -/
theorem slice_blit_slice (b : ℕ) (h : m ≤ n) : slice (blit mem b (slice mem a n)) b m = slice mem a m := by
  have hall := slice_blit mem b (slice mem a n)
  rw [length_slice] at hall
  rw [← take_slice _ b h, hall, take_slice _ a h]

end PhpSandbox.Lib
