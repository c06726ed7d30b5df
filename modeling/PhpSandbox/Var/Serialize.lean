import PhpSandbox.Var.Zval

/-!
# `serialize`

`php_var_serialize` of `ext/standard/var.c`: the text of a variable.

## The model

`phpVarSerializeIntern` goes through memory as the source does, with `var_hash`, which
has an entry for everything that was written so far: an object under its address, and
any other variable under its own. The entries are numbered; what was written before is
written as `R:n;` if it is in a reference, and as `r:n;` if it is an object. An array
counts how often it is being gone through (`nApplyCount`), and is cut off if it is inside
itself too often. The recursion is bounded by `fuel`. An exception while writing, and
classes with code of their own, are left out.

`Data` is the syntax of such texts, and `Data.text` prints it.
-/

namespace PhpSandbox.Var

open Lib Zend

/-! ### Texts -/

/-- `smart_str_append_long`. -/
def printLong (n : ℤ) : Bytes := if n < 0 then 45 :: decimal n.natAbs else decimal n.natAbs

/-- The characters of a printed number. -/
theorem mem_printLong {n : ℤ} {c : UInt8} (hc : c ∈ printLong n) : c = 45 ∨ isDecimal c := by
  unfold printLong at hc
  split_ifs at hc
  · exact (List.mem_cons.mp hc).imp_right isDecimal_of_mem_decimal
  · exact .inr (isDecimal_of_mem_decimal hc)

variable (t : Bytes)

/-- `[0-9]+`. -/
def isDigits : Bool := t ≠ [] && t.all isDecimal

/-- What comes after a sign. -/
def unsigned (signs : Bytes) (t : Bytes) : Bytes := if t.head?.any (signs.contains ·) then t.tail else t

/-- `iv`. -/
def isIv : Bool := isDigits (unsigned (ascii "+-") t)

/-- `uiv`. -/
def isUiv : Bool := isDigits (unsigned (ascii "+") t)

/-- `nv`. -/
def isNv : Bool :=
  let u := unsigned (ascii "+-") t
  let whole := u.takeWhile isDecimal
  let fraction := (u.drop whole.length).tail
  (u.drop whole.length).head? = some 46 && fraction.all isDecimal && (whole ≠ [] || fraction ≠ [])

/-- `nvexp`. -/
def isNvexp : Bool :=
  let base := t.takeWhile fun c => c ≠ 101 && c ≠ 69
  let exponent := (t.drop base.length).tail
  base.length < t.length && (isIv base || isNv base) && isIv (unsigned (ascii "+-") exponent)

/-- The doubles, with `php_gcvt` at the precision in force (`serialize_precision`), which is so that
`zend_strtod` gives the number back. -/
structure Doubles where
  /-- The numbers. -/
  Val : Type
  /-- `php_gcvt`. -/
  gcvt : Val → Bytes
  /-- `zend_strtod`. -/
  strtod : Bytes → Val
  /-- `php_get_nan`. -/
  nan : Val
  /-- `php_get_inf`. -/
  inf : Val
  /-- `-php_get_inf`. -/
  negInf : Val
  /-- A number is printed as one, and read again. -/
  strtod_gcvt : ∀ d, (isIv (gcvt d) ∨ isNv (gcvt d) ∨ isNvexp (gcvt d)) ∧ strtod (gcvt d) = d ∨
    gcvt d = ascii "NAN" ∧ nan = d ∨ gcvt d = ascii "INF" ∧ inf = d ∨ gcvt d = ascii "-INF" ∧ negInf = d

/-- No doubles but one that is not a number. -/
def noDoubles : Doubles where
  Val := Unit
  gcvt _ := ascii "NAN"
  strtod _ := ()
  nan := ()
  inf := ()
  negInf := ()
  strtod_gcvt _ := .inr (.inl ⟨rfl, rfl⟩)

instance : DecidableEq noDoubles.Val := inferInstanceAs (DecidableEq Unit)

/-- `php_var_serialize_long`. -/
def phpVarSerializeLong (n : ℤ) : Bytes := ascii "i:" ++ printLong n ++ ascii ";"

/-- `php_var_serialize_string`; the length is an `int`. -/
def phpVarSerializeString (s : Bytes) : Bytes :=
  ascii "s:" ++ printLong (toInt s.length) ++ ascii ":\"" ++ s ++ ascii "\";"

/-- The key of a slot or the name of a property. -/
def keyText : ArrayKey → Bytes
  | .index h => phpVarSerializeLong h
  | .name arKey => phpVarSerializeString arKey

/-- The texts of the values without parts. -/
def scalarText (dbl : Doubles) : Scalar dbl.Val → Bytes
  | .null => ascii "N;"
  | .bool b => ascii "b:" ++ printLong (if b then 1 else 0) ++ ascii ";"
  | .long n => phpVarSerializeLong n
  | .double d => ascii "d:" ++ dbl.gcvt d ++ ascii ";"
  | .string s => phpVarSerializeString s

/-- What comes before the elements of an array or of an object. -/
def openText (isObject : Bool) (count : ℕ) : Bytes :=
  (if isObject then ascii "O:8:\"stdClass\":" else ascii "a:") ++ printLong (toInt count) ++ ascii ":\x7b"

/-- `R:n;` or `r:n;`. -/
def backText (isRef : Bool) (n : ℕ) : Bytes :=
  (if isRef then ascii "R:" else ascii "r:") ++ printLong n ++ ascii ";"

/-! ### The serializer -/

/-- The keys of `var_hash`. -/
inductive VarId where
  /-- A variable, by its address. -/
  | zval (a : Addr)
  /-- An object, by its own. -/
  | object (handle : ℕ)
  deriving DecidableEq

/-- `var_hash`: what was written, with the places of things that were counted without a key. The number of an
entry is its place, counted from one. -/
abbrev VarHash := List (Option VarId)

/-- What a variable is known as. -/
def varId {D : Type} (a : Addr) (z : Zval D) : VarId :=
  match z.content with
  | .object handle => .object handle
  | _ => .zval a

/-- `php_add_var_hash`: the entries afterwards. What is known already is counted unless it is in a reference. -/
def phpAddVarHash {D : Type} (a : Addr) (z : Zval D) (vh : VarHash) : VarHash :=
  if some (varId a z) ∈ vh then if z.isRef then vh else vh ++ [none] else vh ++ [some (varId a z)]

/-- Whether a variable holds an object. -/
def Zval.isObject {D : Type} (z : Zval D) : Bool :=
  match z.content with
  | .object _ => true
  | _ => false

/-- The number that is written instead of what was written before. -/
def backReference {D : Type} (a : Addr) (z : Zval D) (vh : VarHash) : Option ℕ :=
  if some (varId a z) ∈ vh ∧ (z.isRef ∨ z.isObject) then some (vh.idxOf (some (varId a z)) + 1) else none

variable (dbl : Doubles) (heap : Heap dbl.Val)

/-- Whether a variable holds an array. -/
def isArray (a : Addr) : Bool :=
  match heap.zvals[a]? with
  | some ⟨_, .array _⟩ => true
  | _ => false

/-- The loop over the elements of an array or the properties of an object. `active` are the arrays that are
being gone through. -/
def serializeElements (intern : List Addr → Addr → VarHash → Option (Bytes × VarHash)) (active : List Addr) :
    List (ArrayKey × Addr) → VarHash → Option (Bytes × VarHash)
  | [], vh => some ([], vh)
  | (key, data) :: ht, vh =>
    let written :=
      if isArray dbl heap data then
        -- `nApplyCount > 1`
        if 1 < active.count data then some (ascii "N;", vh) else intern (data :: active) data vh
      else intern active data vh
    match written with
    | none => none
    | some (text, vh) =>
      match serializeElements intern active ht vh with
      | none => none
      | some (rest, vh) => some (keyText key ++ text ++ rest, vh)

/-- The elements, with what is written around them. -/
def serializeTable (intern : List Addr → Addr → VarHash → Option (Bytes × VarHash)) (active : List Addr)
    (isObject : Bool) (ht : List (ArrayKey × Addr)) (vh : VarHash) : Option (Bytes × VarHash) :=
  if 0 < toInt ht.length then
    match serializeElements dbl heap intern active ht vh with
    | none => none
    | some (text, vh) => some (openText isObject ht.length ++ text ++ ascii "\x7d", vh)
  else some (openText isObject ht.length ++ ascii "\x7d", vh)

/-- `php_var_serialize_intern`, `none` if there is not enough fuel. -/
def phpVarSerializeIntern : ℕ → List Addr → Addr → VarHash → Option (Bytes × VarHash)
  | 0, _, _, _ => none
  | fuel + 1, active, a, vh =>
    match heap.zvals[a]? with
    | none => none
    | some z =>
      match backReference a z vh with
      | some n => some (backText z.isRef n, phpAddVarHash a z vh)
      | none =>
        match z.content with
        | .scalar s => some (scalarText dbl s, phpAddVarHash a z vh)
        | .array ht => serializeTable dbl heap (phpVarSerializeIntern fuel) active false ht (phpAddVarHash a z vh)
        | .object handle =>
          serializeTable dbl heap (phpVarSerializeIntern fuel) active true (heap.objects.getD handle [])
            (phpAddVarHash a z vh)

/-- `php_var_serialize`, with a new `var_hash`. -/
def phpVarSerialize (fuel : ℕ) (a : Addr) : Option Bytes :=
  (phpVarSerializeIntern dbl heap fuel [] a []).map Prod.fst

/-! ### The syntax of the texts -/

mutual

/-- The syntax of a text. -/
inductive Data (D : Type) where
  /-- A value without parts. -/
  | scalar (s : Scalar D)
  /-- An array or an object, with its elements. -/
  | table (isObject : Bool) (elements : Elements D)
  /-- What was written before. -/
  | back (isRef : Bool) (n : ℕ)

/-- The elements of an array or of an object. -/
inductive Elements (D : Type) where
  /-- No more. -/
  | nil
  /-- One more. -/
  | cons (key : ArrayKey) (data : Data D) (rest : Elements D)

end

/-- How many elements there are. -/
def Elements.length {D : Type} : Elements D → ℕ
  | .nil => 0
  | .cons _ _ rest => rest.length + 1

mutual

/-- The text. -/
def Data.text : Data dbl.Val → Bytes
  | .scalar s => scalarText dbl s
  | .table isObject elements =>
    openText isObject elements.length ++ (if 0 < toInt elements.length then elements.text else []) ++ ascii "\x7d"
  | .back isRef n => backText isRef n

/-- The text of elements. -/
def Elements.text : Elements dbl.Val → Bytes
  | .nil => []
  | .cons key data rest => keyText key ++ data.text ++ rest.text

end

end PhpSandbox.Var
