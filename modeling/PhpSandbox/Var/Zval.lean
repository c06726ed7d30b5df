import PhpSandbox.Lib.OrderedMap
import PhpSandbox.Zend.Symtable

/-!
# Variables

The values that `serialize` and `unserialize` are about, as they are in memory: a
variable (`zval`) is at an address, with a flag that says whether it is a reference
(`is_ref`), and holds a scalar, an array or an object. The slots of an array and the
properties of an object hold addresses of variables. An object is known by its handle,
so that several variables can hold the same one.

## The model

Memory is a list of variables and a list of objects; addresses and handles are
positions. Nothing is ever freed, and reference counts are left out: they decide when
memory is given back, and when a variable is copied before it is written to. Objects
are of class `stdClass`. `long` has 64 bits and is a number in that range. What a
`double` is, and the functions that print and read one (`php_gcvt`, `zend_strtod`),
is a parameter.
-/

namespace PhpSandbox.Var

open Lib Zend

/-- The `long` that a number becomes. -/
def toLong (n : ℤ) : ℤ := n.bmod (2 ^ 64)

/-- The `int` that a number becomes. -/
def toInt (n : ℤ) : ℤ := n.bmod (2 ^ 32)

/-- The numbers that a `long` can hold. -/
def IsLong (n : ℤ) : Prop := -2 ^ 63 ≤ n ∧ n < 2 ^ 63

instance (n : ℤ) : Decidable (IsLong n) := inferInstanceAs (Decidable (_ ∧ _))

theorem toLong_eq {n : ℤ} (hn : IsLong n) : toLong n = n := by
  obtain ⟨h1, h2⟩ := hn
  exact Int.bmod_eq_of_le (by omega) (by omega)

theorem toInt_eq {n : ℕ} (hn : n < 2 ^ 31) : toInt n = n := by
  exact Int.bmod_eq_of_le (by omega) (by omega)

/-- The address of a variable. -/
abbrev Addr := ℕ

/-- The values without parts. -/
inductive Scalar (D : Type) where
  /-- `IS_NULL`. -/
  | null
  /-- `IS_BOOL`. -/
  | bool (b : Bool)
  /-- `IS_LONG`. -/
  | long (n : ℤ)
  /-- `IS_DOUBLE`. -/
  | double (d : D)
  /-- `IS_STRING`. -/
  | string (s : Bytes)
  deriving DecidableEq

/-- What a variable holds. -/
inductive Content (D : Type) where
  /-- A value without parts. -/
  | scalar (s : Scalar D)
  /-- `IS_ARRAY`: the keys in their order, each with the variable in its slot. -/
  | array (ht : List (ArrayKey × Addr))
  /-- `IS_OBJECT`. -/
  | object (handle : ℕ)
  deriving DecidableEq

/-- A `zval`. -/
structure Zval (D : Type) where
  isRef : Bool
  /-- The value. -/
  content : Content D
  deriving DecidableEq

/-- The memory. -/
structure Heap (D : Type) where
  /-- The variables. -/
  zvals : List (Zval D)
  /-- The properties of each object, in their order. -/
  objects : List (List (ArrayKey × Addr))
  deriving DecidableEq

namespace Heap

variable {D : Type} (heap : Heap D)

/-- `ALLOC_INIT_ZVAL`: a new variable, which holds `NULL`. -/
def alloc : Addr × Heap D :=
  (heap.zvals.length, { heap with zvals := heap.zvals ++ [⟨false, .scalar .null⟩] })

variable (a : Addr)

/-- `INIT_PZVAL` and the assignment of a value. -/
def assign (content : Content D) : Heap D :=
  { heap with zvals := heap.zvals.set a ⟨false, content⟩ }

/-- `Z_SET_ISREF_TO`. -/
def setIsref (isRef : Bool) : Heap D :=
  { heap with zvals := heap.zvals.modify a fun z => { z with isRef } }

/-- `object_init`: a new object without properties in a variable. -/
def objectInit : Heap D :=
  { zvals := heap.zvals.set a ⟨false, .object heap.objects.length⟩, objects := heap.objects ++ [[]] }

/-- `zend_hash_update` of the array or of the properties in a variable. -/
def store (key : ArrayKey) (data : Addr) : Heap D :=
  match heap.zvals[a]? with
  | some ⟨isRef, .array ht⟩ => { heap with zvals := heap.zvals.set a ⟨isRef, .array (update ht key data)⟩ }
  | some ⟨_, .object handle⟩ => { heap with objects := heap.objects.modify handle fun props => update props key data }
  | _ => heap

end Heap

end PhpSandbox.Var
