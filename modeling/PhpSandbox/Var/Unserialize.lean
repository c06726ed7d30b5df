import PhpSandbox.Var.Serialize
import Mathlib.Data.List.TakeWhile

/-!
# `unserialize`

`php_var_unserialize` of `ext/standard/var_unserializer.re`: the variable that a text
describes.

## The model

`scan` is the scanner that `re2c` makes of the rules: which rule matches at the cursor,
with the part of the text that varies. `phpVarUnserialize` carries the rule out. The
text is in a buffer that ends with a NUL byte, of which a read past the end of the text
sees the first; a read behind it is a fault. The cursor is a position in the buffer, and
is where the source leaves it also on failure. `vars` are the entries of `var_hash`. A
class other than `stdClass` is `outside`: its code can do anything. The recursion is
bounded by `fuel`, the depth to which values may be nested.

`Data.build` is what the rules do with a text that is printed from syntax, without the text.

## What is proved

`phpVarUnserialize_text`: on the text of some syntax the parser does what the syntax
says, and takes all of the text.
-/

namespace PhpSandbox.Var

open Lib Zend Data List

/-! ### Numbers -/

variable (s : Bytes)

/-- `parse_iv2`: the number, and how much of the text it takes. -/
def parseIv2 : ℤ × ℕ :=
  let u := unsigned (ascii "+-") s
  let digits := u.takeWhile isDecimal
  let result := digits.foldl (fun r c => toLong (r * 10 + ((c.toNat - 48 : ℕ) : ℤ))) 0
  (if s.head? = some 45 then toLong (-result) else result, s.length - u.length + digits.length)

/-- `parse_iv`. -/
def parseIv : ℤ := (parseIv2 s).1

/-- `parse_uiv`. -/
def parseUiv : ℕ :=
  ((unsigned (ascii "+") s).takeWhile isDecimal).foldl (fun r c => (r * 10 + (c.toNat - 48)) % 2 ^ 64) 0

/-! ### The scanner -/

/-- The rules, with what varies in their texts. -/
inductive Rule where
  /-- `R:` -/
  | ref (iv : Bytes)
  /-- `r:` -/
  | same (iv : Bytes)
  /-- `N;` -/
  | null
  /-- `b:` -/
  | bool (iv : Bytes)
  /-- `i:` -/
  | long (iv : Bytes)
  /-- `d:` -/
  | double (text : Bytes)
  /-- `s:` -/
  | string (uiv : Bytes)
  /-- `S:` -/
  | escaped (uiv : Bytes)
  /-- `a:` -/
  | array (uiv : Bytes)
  /-- `o:` -/
  | oldObject (iv : Bytes)
  /-- `O:` or `C:` -/
  | object (custom : Bool) (uiv : Bytes)
  /-- Anything else. -/
  | any

/-- What varies between a tag and a stop. -/
def token (tag : Bytes) (lang : Bytes → Bool) (stop : Bytes) (s : Bytes) : Option Bytes :=
  if tag <+: s then
    let t := (s.drop tag.length).takeWhile fun c => stop.head? ≠ some c
    if lang t ∧ stop <+: s.drop (tag.length + t.length) then some t else none
  else none

/-- The texts of doubles. -/
def isDoubleText (t : Bytes) : Bool :=
  t = ascii "NAN" || t = ascii "INF" || t = ascii "-INF" || isIv t || isNv t || isNvexp t

/-- A rule of the scanner: a tag, what may vary, and a stop. -/
structure Pattern where
  /-- How it begins. -/
  tag : Bytes
  /-- What varies. -/
  lang : Bytes → Bool
  /-- How it ends. -/
  stop : Bytes
  /-- The rule. -/
  rule : Bytes → Rule

/-- All rules. -/
def patterns : List Pattern :=
  [⟨ascii "R:", isIv, ascii ";", .ref⟩,
   ⟨ascii "r:", isIv, ascii ";", .same⟩,
   ⟨ascii "N", fun t => t = [], ascii ";", fun _ => .null⟩,
   ⟨ascii "b:", fun t => t = ascii "0" || t = ascii "1", ascii ";", .bool⟩,
   ⟨ascii "i:", isIv, ascii ";", .long⟩,
   ⟨ascii "d:", isDoubleText, ascii ";", .double⟩,
   ⟨ascii "s:", isUiv, ascii ":\"", .string⟩,
   ⟨ascii "S:", isUiv, ascii ":\"", .escaped⟩,
   ⟨ascii "a:", isUiv, ascii ":\x7b", .array⟩,
   ⟨ascii "o:", isIv, ascii ":\"", .oldObject⟩,
   ⟨ascii "O:", isUiv, ascii ":\"", .object false⟩,
   ⟨ascii "C:", isUiv, ascii ":\"", .object true⟩]

/-- The rule that matches at the beginning of a text. -/
def scan : Rule :=
  (patterns.findSome? fun r => (token r.tag r.lang r.stop s).map r.rule).getD .any

/-! ### The parser -/

/-- The memory, and the entries of `var_hash`. -/
structure State (D : Type) where
  /-- The memory. -/
  heap : Heap D
  /-- The variables that back references are to. -/
  vars : List Addr
  deriving DecidableEq

open State

/-- How a call ends. -/
inductive Outcome (D : Type) where
  /-- It returns 1 or 0, with the variable in `rval` and the cursor. -/
  | ret (success : Bool) (rval : Addr) (p : ℕ) (st : State D)
  /-- It reads behind the buffer. -/
  | fault
  /-- It runs code of a class. -/
  | outside
  /-- There is not enough fuel. -/
  | fuel

namespace State

variable {D : Type} (st : State D)

/-- `var_push`. -/
def varPush (a : Addr) : State D := { st with vars := st.vars ++ [a] }

/-- `var_access`. -/
def varAccess (id : ℤ) : Option Addr := if id < 0 then none else st.vars[id.toNat]?

/-- A new variable. -/
def alloc (st : State D) : Addr × State D := (st.heap.alloc.1, { st with heap := st.heap.alloc.2 })

/-- The assignment of a value to a variable. -/
def assign (st : State D) (a : Addr) (content : Content D) : State D := { st with heap := st.heap.assign a content }

/-- A new object in a variable. -/
def objectInit (st : State D) (a : Addr) : State D := { st with heap := st.heap.objectInit a }

/-- A variable is made a reference, or not one. -/
def setIsref (st : State D) (a : Addr) (isRef : Bool) : State D := { st with heap := st.heap.setIsref a isRef }

/-- An element is stored. -/
def store (st : State D) (a : Addr) (key : ArrayKey) (data : Addr) : State D :=
  { st with heap := st.heap.store a key data }

/-- The key that was read, if it is one: an array's like `zend_symtable_update` takes it, and a property's as text. -/
def keyOf (objprops : Bool) (a : Addr) : Option ArrayKey :=
  match st.heap.zvals[a]? with
  | some ⟨_, .scalar (.long n)⟩ => some (if objprops then .name (printLong n) else .index n)
  | some ⟨_, .scalar (.string s)⟩ => some (if objprops then .name s else symtableKey s)
  | _ => none

end State

section Parser

variable {D : Type}

/-- What is at a position of the buffer; a NUL is behind the text. -/
def byteAt (buf : Bytes) (p : ℕ) : UInt8 := buf.getD p 0

/-- `unserialize_str`, from the cursor on: the string, and how much of the text it takes. -/
def unserializeStr : ℕ → Bytes → Option (Bytes × ℕ)
  | 0, _ => some ([], 0)
  | _ + 1, [] => none
  | n + 1, c :: s =>
    if c ≠ 92 then (unserializeStr n s).map fun r => (c :: r.1, r.2 + 1)
    else
      match s with
      | h :: l :: s =>
        match hexValue h, hexValue l with
        | some h, some l => (unserializeStr n s).map fun r => (UInt8.ofNat (16 * h + l) :: r.1, r.2 + 3)
        | _, _ => none
      | _ => none
where
  /-- The value of a hexadecimal digit. -/
  hexValue (c : UInt8) : Option ℕ :=
    if 48 ≤ c ∧ c ≤ 57 then some (c.toNat - 48)
    else if 97 ≤ c ∧ c ≤ 102 then some (c.toNat - 87)
    else if 65 ≤ c ∧ c ≤ 70 then some (c.toNat - 55)
    else none

/-- The characters of class names. -/
def isClassChar (c : UInt8) : Bool :=
  isDecimal c || c = 95 || (97 ≤ c && c ≤ 122) || (65 ≤ c && c ≤ 90) || 127 ≤ c || c = 92

/-- `stdClass`, in any case. -/
def isStdClass (name : Bytes) : Bool :=
  (name.map fun c => if 65 ≤ c ∧ c ≤ 90 then c + 32 else c) = ascii "stdclass"

/-- `finish_nested_data`. -/
def finishNestedData (buf : Bytes) (rval : Addr) (p : ℕ) (st : State D) : Outcome D :=
  if buf.length < p then .fault else .ret (byteAt buf p = 125) rval (p + 1) st

/-- `process_nested_data`, with the parser for what is nested. -/
def processNestedData (unserialize : Addr → ℕ → Bool → State D → Outcome D) (buf : Bytes) (rval : Addr)
    (objprops hash : Bool) : ℕ → ℕ → State D → Outcome D
  | 0, p, st => .ret true rval p st
  | elements + 1, p, st =>
    -- the key is not counted in `var_hash`
    match unserialize st.alloc.1 p false st.alloc.2 with
    | .ret true key p st =>
      match st.keyOf objprops key with
      | none => .ret false rval p st
      | some k =>
        match unserialize st.alloc.1 p hash st.alloc.2 with
        | .ret true data p st =>
          if elements ≠ 0 ∧ byteAt buf (p - 1) ≠ 59 ∧ byteAt buf (p - 1) ≠ 125 then
            .ret false rval (p - 1) (st.store rval k data)
          else processNestedData unserialize buf rval objprops hash elements p (st.store rval k data)
        | .ret false _ p st => .ret false rval p st
        | .fault => .fault
        | .outside => .outside
        | .fuel => .fuel
    | .ret false _ p st => .ret false rval p st
    | .fault => .fault
    | .outside => .outside
    | .fuel => .fuel

variable (unserialize : Addr → ℕ → Bool → State D → Outcome D)

/-- The elements, and what comes after them. -/
def nestedData (buf : Bytes) (rval : Addr) (objprops hash : Bool) (elements p : ℕ) (st : State D) : Outcome D :=
  match processNestedData unserialize buf rval objprops hash elements p st with
  | .ret true _ p st => finishNestedData buf rval p st
  | outcome => outcome

/-- The rule for objects of a class. -/
def unserializeObject (buf : Bytes) (custom : Bool)
    (uiv : Bytes) (rval : Addr) (p : ℕ) (hash : Bool) (st : State D) : Outcome D :=
  let len := parseUiv uiv
  let start := p + 2 + uiv.length + 2
  let name := (buf.drop start).take len
  let q := start + len
  if buf.length - start < len ∨ len = 0 then .ret false rval (p + 2) st
  else if byteAt buf q ≠ 34 then .ret false rval q st
  else if byteAt buf (q + 1) ≠ 58 then .ret false rval (q + 1) st
  else if (name.takeWhile isClassChar).length ≠ len then .ret false rval
    (start + (name.takeWhile isClassChar).length) st
  else if !isStdClass name then .outside
  else
    let (n, taken) := parseIv2 (buf.drop (q + 2))
    let p := q + 2 + taken + 2
    if custom then
      -- `object_custom`, of a class without an unserializer
      if n < 0 ∨ (buf.length : ℤ) - p ≤ n then .ret false rval p st
      else finishNestedData buf rval (p + n.toNat) (st.objectInit rval)
    else nestedData unserialize buf rval true hash n.toNat p (st.objectInit rval)

end Parser

section Unserialize

variable (dbl : Doubles) (buf : Bytes)

/-- The number that is read for a text of `d:`. -/
def doubleOf (t : Bytes) : dbl.Val :=
  if t = ascii "NAN" then dbl.nan
  else if t = ascii "INF" then dbl.inf
  else if t = ascii "-INF" then dbl.negInf
  else dbl.strtod t

/-- What is done for a rule, with the parser for what is nested. -/
def applyRule (unserialize : Addr → ℕ → Bool → State dbl.Val → Outcome dbl.Val) (rval : Addr) (p : ℕ) (hash : Bool)
    (st : State dbl.Val) : Rule → Outcome dbl.Val
  | .ref iv =>
    match if hash then st.varAccess (toLong (parseIv iv - 1)) else none with
    | none => .ret false rval (p + 2 + iv.length + 1) st
    | some a => .ret true a (p + 2 + iv.length + 1) (st.setIsref a true)
  | .same iv =>
    match if hash then st.varAccess (toLong (parseIv iv - 1)) else none with
    | none => .ret false rval (p + 2 + iv.length + 1) st
    | some a =>
      if rval = a then .ret false rval (p + 2 + iv.length + 1) st
      else .ret true a (p + 2 + iv.length + 1) (st.setIsref a false)
  | .null => .ret true rval (p + 2) (st.assign rval (.scalar .null))
  | .bool iv => .ret true rval (p + 2 + iv.length + 1) (st.assign rval (.scalar (.bool (parseIv iv ≠ 0))))
  | .long iv => .ret true rval (p + 2 + iv.length + 1) (st.assign rval (.scalar (.long (parseIv iv))))
  | .double t => .ret true rval (p + 2 + t.length + 1) (st.assign rval (.scalar (.double (doubleOf dbl t))))
  | .string uiv =>
    let len := parseUiv uiv
    let start := p + 2 + uiv.length + 2
    if buf.length - start < len then .ret false rval (p + 2) st
    else if byteAt buf (start + len) ≠ 34 then .ret false rval (start + len) st
    else .ret true rval (start + len + 2) (st.assign rval (.scalar (.string ((buf.drop start).take len))))
  | .escaped uiv =>
    let len := parseUiv uiv
    let start := p + 2 + uiv.length + 2
    if buf.length - start < len then .ret false rval (p + 2) st
    else
      match unserializeStr len (buf.drop start) with
      | none => .ret false rval p st
      | some (str, taken) =>
        if byteAt buf (start + taken) ≠ 34 then .ret false rval (start + taken) st
        else .ret true rval (start + taken + 2) (st.assign rval (.scalar (.string str)))
  | .array uiv =>
    let elements := parseIv uiv
    let p := p + 2 + uiv.length + 2
    if elements < 0 then .ret false rval p st
    else nestedData unserialize buf rval false hash elements.toNat p (st.assign rval (.array []))
  | .oldObject iv =>
    nestedData unserialize buf rval true hash (parseIv iv).toNat (p + 2 + iv.length + 2) (st.objectInit rval)
  | .object custom uiv => unserializeObject unserialize buf custom uiv rval p hash st
  | .any => .ret false rval p st

/-- `php_var_unserialize`. `hash` says whether there is a `var_hash`. -/
def phpVarUnserialize : ℕ → Addr → ℕ → Bool → State dbl.Val → Outcome dbl.Val
  | 0, _, _, _, _ => .fuel
  | fuel + 1, rval, p, hash, st =>
    if buf.length ≤ p then .ret false rval p st
    else
      let st := if hash ∧ byteAt buf p ≠ 82 then st.varPush rval else st
      applyRule dbl buf (phpVarUnserialize fuel) rval p hash st (scan (buf.drop p))

/-- `php_var_unserialize` of a text, with a new variable and a new `var_hash`. -/
def unserialize (fuel : ℕ) : Outcome dbl.Val :=
  phpVarUnserialize dbl buf fuel 0 0 true ⟨⟨[⟨false, .scalar .null⟩], []⟩, []⟩

end Unserialize

/-! ### Numbers in texts -/

section Numbers

variable {c : UInt8} {n : ℕ}

theorem isDigits_decimal (n : ℕ) : isDigits (decimal n) := by
  simp [isDigits, decimal_ne_nil, all_isDecimal_decimal]

variable {signs : Bytes}

/-- Digits are no signs. -/
theorem unsigned_decimal_append (hsigns : ∀ c ∈ signs, ¬ isDecimal c) (n : ℕ) (rest : Bytes) :
    unsigned signs (decimal n ++ rest) = decimal n ++ rest := by
  obtain ⟨c, s, h, hc, -⟩ := head_decimal n
  have hno : c ∉ signs := fun hmem => hsigns c hmem hc
  simp [unsigned, h, hno]

theorem unsigned_decimal (hsigns : ∀ c ∈ signs, ¬ isDecimal c) (n : ℕ) : unsigned signs (decimal n) = decimal n := by
  have h := unsigned_decimal_append hsigns n []
  rwa [append_nil] at h

theorem signs_not_decimal : ∀ c ∈ ascii "+-", ¬ isDecimal c := by decide

theorem sign_not_decimal : ∀ c ∈ ascii "+", ¬ isDecimal c := by decide

theorem unsigned_printLong (n : ℤ) : unsigned (ascii "+-") (printLong n) = decimal n.natAbs := by
  unfold printLong
  split_ifs
  · rfl
  · exact unsigned_decimal signs_not_decimal _

theorem printLong_natCast (n : ℕ) : printLong n = decimal n := by
  rw [printLong, if_neg (by omega), Int.natAbs_natCast]

theorem printLong_bool (b : Bool) : printLong (if b then 1 else 0) = if b then ascii "1" else ascii "0" := by
  cases b
  · exact (printLong_natCast 0).trans (decimal_of_lt (by decide))
  · exact (printLong_natCast 1).trans (decimal_of_lt (by decide))

theorem isIv_printLong (n : ℤ) : isIv (printLong n) := by
  rw [isIv, unsigned_printLong]
  exact isDigits_decimal _

theorem isUiv_decimal (n : ℕ) : isUiv (decimal n) := by
  rw [isUiv, unsigned_decimal sign_not_decimal]
  exact isDigits_decimal n

theorem not_mem_printLong (hc : c ≠ 45 ∧ ¬ isDecimal c) (n : ℤ) : c ∉ printLong n := by
  intro hmem
  rcases mem_printLong hmem with h | h
  · exact hc.1 h
  · exact hc.2 h

theorem takeWhile_decimal (n : ℕ) : (decimal n).takeWhile isDecimal = decimal n := by
  have h := @takeWhile_isDecimal_decimal n [] (by simp)
  rwa [append_nil] at h

theorem toLong_step (r : ℤ) (d : ℤ) : toLong (toLong r * 10 + d) = toLong (r * 10 + d) := by
  unfold toLong
  rw [← Int.bmod_add_bmod, Int.bmod_mul_bmod, Int.bmod_add_bmod]

/-- Overflow on the way does not matter. -/
theorem foldl_toLong (s : Bytes) (r : ℕ) :
    s.foldl (fun r c => toLong (r * 10 + ((c.toNat - 48 : ℕ) : ℤ))) (toLong r) =
      toLong (s.foldl (fun n c => n * 10 + (c.toNat - 48)) r : ℕ) := by
  induction s generalizing r with
  | nil => rw [foldl_nil, foldl_nil]
  | cons c s ih =>
    rw [foldl_cons, toLong_step, foldl_cons, ← ih, Int.natCast_add, Int.natCast_mul]
    rfl

theorem foldl_decimal (n : ℕ) :
    (decimal n).foldl (fun r c => toLong (r * 10 + ((c.toNat - 48 : ℕ) : ℤ))) 0 = toLong n := by
  have hzero : (0 : ℤ) = toLong (0 : ℕ) := (toLong_eq (by decide)).symm
  rw [hzero, foldl_toLong, ← decimalValue, decimalValue_decimal]

/-- Digits do not begin with a minus sign. -/
theorem head_decimal_append (n : ℕ) (rest : Bytes) : (decimal n ++ rest).head? ≠ some 45 := by
  obtain ⟨c, s, h, hc, -⟩ := head_decimal n
  rw [h, cons_append, head?_cons]
  intro heq
  cases heq
  cases hc

/-- A number at the beginning of a text. -/
theorem parseIv2_decimal (hn : n < 2 ^ 63) {rest : Bytes} (hrest : ∀ c ∈ rest.head?, ¬ isDecimal c) :
    parseIv2 (decimal n ++ rest) = ((n : ℤ), (decimal n).length) := by
  have hlong : IsLong n := ⟨by omega, by omega⟩
  simp only [parseIv2, unsigned_decimal_append signs_not_decimal, takeWhile_isDecimal_decimal n hrest, foldl_decimal,
    if_neg (head_decimal_append n rest), toLong_eq hlong, Nat.sub_self, Nat.zero_add]

theorem parseIv_decimal (hn : n < 2 ^ 63) : parseIv (decimal n) = n := by
  have h := @parseIv2_decimal n hn [] (by simp)
  rw [append_nil] at h
  rw [parseIv, h]

theorem parseIv_printLong {n : ℤ} (hn : IsLong n) : parseIv (printLong n) = n := by
  by_cases hneg : n < 0
  · have hnat : -(n.natAbs : ℤ) = n := by omega
    have hhead : (printLong n).head? = some 45 := by rw [printLong, if_pos hneg, head?_cons]
    simp only [parseIv, parseIv2, unsigned_printLong, takeWhile_decimal, foldl_decimal, if_pos hhead]
    rw [toLong, toLong, Int.bmod_neg_bmod, hnat]
    exact toLong_eq hn
  · obtain ⟨n, rfl⟩ := Int.eq_ofNat_of_zero_le (Int.not_lt.mp hneg)
    obtain ⟨-, hlt⟩ := hn
    rw [printLong_natCast, parseIv_decimal (by omega)]

theorem parseUiv_decimal (hn : n < 2 ^ 64) : parseUiv (decimal n) = n := by
  rw [parseUiv, unsigned_decimal sign_not_decimal, takeWhile_decimal]
  have h := foldl_mod (decimal n) 0
  rwa [Nat.zero_mod, ← decimalValue, decimalValue_decimal, Nat.mod_eq_of_lt hn] at h

end Numbers

/-! ### What the scanner sees -/

variable {c : UInt8}

section Scan

variable {tag stop s t rest : Bytes} {lang : Bytes → Bool}

theorem token_eq_some (hlang : lang t) (hc : c ∉ t) :
    token tag lang (c :: stop) (tag ++ (t ++ (c :: stop ++ rest))) = some t := by
  have htake : (t ++ (c :: stop ++ rest)).takeWhile (fun b => (c :: stop).head? ≠ some b) = t := by
    rw [takeWhile_append_of_pos]
    · simp
    · intro b hb
      simp only [head?_cons, ne_eq, Option.some_inj, decide_eq_true_eq]
      rintro rfl
      exact hc hb
  have hstop : c :: stop <+: (tag ++ (t ++ (c :: stop ++ rest))).drop (tag.length + t.length) := by
    rw [← append_assoc, ← length_append, drop_left]
    exact prefix_append _ _
  rw [token, if_pos (prefix_append _ _)]
  simp only [drop_left, htake]
  rw [if_pos ⟨hlang, hstop⟩]

theorem head_of_token (h : token tag lang stop s = some t) (htag : tag ≠ []) : s.head? = tag.head? := by
  unfold token at h
  split_ifs at h with hpre
  obtain ⟨u, rfl⟩ := hpre
  exact head?_append_of_ne_nil _ htag

/-- The rules begin with different letters. -/
theorem nodup_patterns : (patterns.map fun r => r.tag.head?).Nodup := by decide

theorem tag_ne_nil : ∀ r ∈ patterns, r.tag ≠ [] := by
  have h : ∀ tag ∈ patterns.map Pattern.tag, tag ≠ [] := by decide
  exact fun r hr => h r.tag (mem_map_of_mem hr)

/-- So at most one of them matches. -/
theorem scan_eq {r : Pattern} (hr : r ∈ patterns) (h : token r.tag r.lang r.stop s = some t) : scan s = r.rule t := by
  unfold scan
  cases hfind : patterns.findSome? fun r => (token r.tag r.lang r.stop s).map r.rule with
  | none =>
    have hnone := findSome?_eq_none_iff.mp hfind r hr
    rw [h] at hnone
    cases hnone
  | some b =>
    obtain ⟨r', hr', hb⟩ := exists_of_findSome?_eq_some hfind
    obtain ⟨t', ht', rfl⟩ := Option.map_eq_some_iff.mp hb
    have hhead : r'.tag.head? = r.tag.head? :=
      (head_of_token ht' (tag_ne_nil r' hr')).symm.trans (head_of_token h (tag_ne_nil r hr))
    obtain rfl := inj_on_of_nodup_map nodup_patterns hr' hr hhead
    rw [h] at ht'
    cases ht'
    rfl

/-- And none, if the one with the letter does not. -/
theorem scan_eq_any {r : Pattern} (hr : r ∈ patterns) (hhead : s.head? = r.tag.head?)
    (h : token r.tag r.lang r.stop s = none) : scan s = .any := by
  have hnone : patterns.findSome? (fun r => (token r.tag r.lang r.stop s).map r.rule) = none := by
    rw [findSome?_eq_none_iff]
    intro r' hr'
    rw [Option.map_eq_none_iff, Option.eq_none_iff_forall_ne_some]
    intro t ht
    obtain rfl := inj_on_of_nodup_map nodup_patterns hr hr' (hhead.symm.trans (head_of_token ht (tag_ne_nil r' hr')))
    rw [h] at ht
    cases ht
  rw [scan, hnone, Option.getD_none]

end Scan

/-! ### Syntax -/

/-- The value that a key is read as. -/
def keyScalar {D : Type} : ArrayKey → Scalar D
  | .index h => .long h
  | .name arKey => .string arKey

/-- The key that is stored for one that is read. -/
def storedKey (objprops : Bool) : ArrayKey → ArrayKey
  | .index h => if objprops then .name (printLong h) else .index h
  | .name arKey => if objprops then .name arKey else symtableKey arKey

/-- The entry of `var_hash` for a variable. -/
def State.count {D : Type} (st : State D) (hash : Bool) (a : Addr) : State D := if hash then st.varPush a else st

mutual

/-- What the text says is done to a variable. -/
def Data.build {D : Type} : Data D → Addr → Bool → State D → Option (Addr × State D)
  | .scalar s, rval, hash, st => some (rval, (st.count hash rval).assign rval (.scalar s))
  | .table true elements, rval, hash, st =>
    (elements.build rval true hash ((st.count hash rval).objectInit rval)).map (rval, ·)
  | .table false elements, rval, hash, st =>
    (elements.build rval false hash ((st.count hash rval).assign rval (.array []))).map (rval, ·)
  | .back true n, _, hash, st =>
    if hash then (st.varAccess (n - 1)).map fun a => (a, st.setIsref a true) else none
  | .back false n, rval, hash, st =>
    if hash then
      ((st.varPush rval).varAccess (n - 1)).bind fun a =>
        if rval = a then none else some (a, (st.varPush rval).setIsref a false)
    else none

/-- What elements do. -/
def Elements.build {D : Type} : Elements D → Addr → Bool → Bool → State D → Option (State D)
  | .nil, _, _, _, st => some st
  | .cons key data rest, rval, isObject, hash, st =>
    let st := st.alloc.2.assign st.alloc.1 (.scalar (keyScalar key))
    (data.build st.alloc.1 hash st.alloc.2).bind fun r =>
      rest.build rval isObject hash (r.2.store rval (storedKey isObject key) r.1)

end

/-- The numbers and strings that there can be. -/
def Scalar.Fits {D : Type} : Scalar D → Prop
  | .long n => IsLong n
  | .string s => s.length < 2 ^ 31
  | _ => True

instance {D : Type} (s : Scalar D) : Decidable s.Fits :=
  match s with
  | .null | .bool _ | .double _ => inferInstanceAs (Decidable True)
  | .long n => inferInstanceAs (Decidable (IsLong n))
  | .string s => inferInstanceAs (Decidable (s.length < 2 ^ 31))

/-- The keys that there can be. -/
def KeyFits : ArrayKey → Prop
  | .index h => IsLong h
  | .name arKey => arKey.length < 2 ^ 31

instance (key : ArrayKey) : Decidable (KeyFits key) :=
  match key with
  | .index h => inferInstanceAs (Decidable (IsLong h))
  | .name arKey => inferInstanceAs (Decidable (arKey.length < 2 ^ 31))

mutual

/-- The syntax of what the serializer can write, with fewer than `2 ^ 31` elements in every array and object. -/
def Data.Fits {D : Type} : Data D → Prop
  | .scalar s => s.Fits
  | .table _ elements => elements.length < 2 ^ 31 ∧ elements.Fits
  | .back _ n => n < 2 ^ 63

/-- The same for elements. -/
def Elements.Fits {D : Type} : Elements D → Prop
  | .nil => True
  | .cons key data rest => KeyFits key ∧ data.Fits ∧ rest.Fits

end

mutual

/-- How deep values are nested. -/
def Data.depth {D : Type} : Data D → ℕ
  | .scalar _ => 1
  | .table _ elements => elements.depth + 1
  | .back _ _ => 1

/-- The same for elements. -/
def Elements.depth {D : Type} : Elements D → ℕ
  | .nil => 0
  | .cons _ data rest => max data.depth rest.depth

end

/-! ### Texts and their syntax -/

section Texts

variable {dbl : Doubles} {buf rest : Bytes} {p : ℕ}

theorem byteAt_add (buf : Bytes) (p k : ℕ) : byteAt buf (p + k) = (buf.drop p).getD k 0 := by
  simp [byteAt, getD_eq_getElem?_getD, getElem?_drop]

variable {s : Bytes}

theorem lt_length_of_drop (h : buf.drop p = c :: s) : p < buf.length := by
  by_contra hlen
  rw [drop_eq_nil_of_le (Nat.le_of_not_lt hlen)] at h
  cases h

/-- One step of the parser, where a rule matches. -/
theorem phpVarUnserialize_step {rule : Rule} (hbuf : buf.drop p = s) (hc : s.head? = some c) (hscan : scan s = rule)
    (fuel : ℕ) (rval : Addr) (hash : Bool) (st : State dbl.Val) :
    phpVarUnserialize dbl buf (fuel + 1) rval p hash st =
      applyRule dbl buf (phpVarUnserialize dbl buf fuel) rval p hash (st.count (hash && c ≠ 82) rval) rule := by
  obtain ⟨s, rfl⟩ : ∃ u, s = c :: u := head?_eq_some_iff.mp hc
  have hbyte : byteAt buf p = c := by
    have h := byteAt_add buf p 0
    rwa [hbuf, Nat.add_zero] at h
  rw [phpVarUnserialize, if_neg (Nat.not_le.mpr (lt_length_of_drop hbuf)), hbuf, hbyte, hscan]
  simp [State.count]

/-- One step, of what is counted in `var_hash`. -/
theorem phpVarUnserialize_counted (c : UInt8) {rule : Rule} (hbuf : buf.drop p = s) (hc : s.head? = some c)
    (hne : c ≠ 82) (hscan : scan s = rule) (fuel : ℕ) (rval : Addr) (hash : Bool) (st : State dbl.Val) :
    phpVarUnserialize dbl buf (fuel + 1) rval p hash st =
      applyRule dbl buf (phpVarUnserialize dbl buf fuel) rval p hash (st.count hash rval) rule := by
  rw [phpVarUnserialize_step hbuf hc hscan]
  simp [hne]

variable {t : Bytes}

/-- The rule for a text that is printed with a number. -/
theorem scan_tagged {r : Pattern} (hr : r ∈ patterns) {stop : Bytes} (hstop : r.stop = c :: stop) (hlang : r.lang t)
    (hc : c ∉ t) : scan (r.tag ++ (t ++ (r.stop ++ rest))) = r.rule t := by
  refine scan_eq hr ?_
  rw [hstop]
  exact token_eq_some hlang hc

theorem scan_long (n : ℤ) : scan (ascii "i:" ++ (printLong n ++ (ascii ";" ++ rest))) = .long (printLong n) :=
  scan_tagged (r := ⟨ascii "i:", isIv, ascii ";", .long⟩) (by simp [patterns]) rfl (isIv_printLong n)
    (not_mem_printLong (by decide) n)

theorem scan_null : scan (ascii "N" ++ ([] ++ (ascii ";" ++ rest))) = .null :=
  scan_tagged (r := ⟨ascii "N", fun t => t = [], ascii ";", fun _ => .null⟩) (t := []) (by simp [patterns]) rfl rfl
    (by simp)

theorem scan_bool (b : Bool) :
    scan (ascii "b:" ++ (printLong (if b then 1 else 0) ++ (ascii ";" ++ rest))) =
      .bool (printLong (if b then 1 else 0)) := by
  refine scan_tagged (r := ⟨ascii "b:", fun t => t = ascii "0" || t = ascii "1", ascii ";", .bool⟩)
    (by simp [patterns]) rfl ?_ (not_mem_printLong (by decide) _)
  rw [printLong_bool]
  cases b <;> decide

theorem colon_not_mem_decimal (n : ℕ) : 58 ∉ decimal n := fun h => by cases isDecimal_of_mem_decimal h

theorem scan_string (n : ℕ) : scan (ascii "s:" ++ (decimal n ++ (ascii ":\"" ++ rest))) = .string (decimal n) :=
  scan_tagged (r := ⟨ascii "s:", isUiv, ascii ":\"", .string⟩) (by simp [patterns]) rfl (isUiv_decimal n)
    (colon_not_mem_decimal n)

theorem scan_array (n : ℕ) : scan (ascii "a:" ++ (decimal n ++ (ascii ":\x7b" ++ rest))) = .array (decimal n) :=
  scan_tagged (r := ⟨ascii "a:", isUiv, ascii ":\x7b", .array⟩) (by simp [patterns]) rfl (isUiv_decimal n)
    (colon_not_mem_decimal n)

theorem scan_object : scan (ascii "O:" ++ (ascii "8" ++ (ascii ":\"" ++ rest))) = .object false (ascii "8") :=
  scan_tagged (r := ⟨ascii "O:", isUiv, ascii ":\"", .object false⟩) (by simp [patterns]) rfl (by decide) (by decide)

theorem scan_ref (n : ℤ) : scan (ascii "R:" ++ (printLong n ++ (ascii ";" ++ rest))) = .ref (printLong n) :=
  scan_tagged (r := ⟨ascii "R:", isIv, ascii ";", .ref⟩) (by simp [patterns]) rfl (isIv_printLong n)
    (not_mem_printLong (by decide) n)

theorem scan_same (n : ℤ) : scan (ascii "r:" ++ (printLong n ++ (ascii ";" ++ rest))) = .same (printLong n) :=
  scan_tagged (r := ⟨ascii "r:", isIv, ascii ";", .same⟩) (by simp [patterns]) rfl (isIv_printLong n)
    (not_mem_printLong (by decide) n)

variable {signs : Bytes}

theorem mem_unsigned (hc : c ∈ t) (hsigns : c ∉ signs) : c ∈ unsigned signs t := by
  unfold unsigned
  cases t with
  | nil => cases hc
  | cons b t =>
    by_cases hb : b ∈ signs
    · rcases mem_cons.mp hc with rfl | hc
      · exact absurd hb hsigns
      · simp [hb, hc]
    · simpa [hb] using hc

theorem semicolon_of_isDigits (h : isDigits t) : 59 ∉ t := by
  intro hmem
  rw [isDigits, Bool.and_eq_true, all_eq_true] at h
  have hdec := h.2 59 hmem
  cases hdec

theorem semicolon_of_isIv (h : isIv t) : 59 ∉ t := by
  intro hmem
  exact semicolon_of_isDigits h (mem_unsigned hmem (by decide))

/-- The characters that are cut off a text, the one after them, and the rest. -/
theorem mem_cases {p : UInt8 → Bool} (hc : c ∈ t) :
    c ∈ t.takeWhile p ∨ (t.drop (t.takeWhile p).length).head? = some c ∧ ¬ p c ∨
      c ∈ (t.drop (t.takeWhile p).length).tail := by
  induction t with
  | nil => cases hc
  | cons b t ih =>
    by_cases hb : p b
    · rw [takeWhile_cons_of_pos hb]
      rcases mem_cons.mp hc with rfl | hc
      · exact .inl mem_cons_self
      · exact (ih hc).imp_left (mem_cons_of_mem b)
    · rw [takeWhile_cons_of_neg hb]
      rcases mem_cons.mp hc with rfl | hc
      · exact .inr (.inl ⟨rfl, hb⟩)
      · exact .inr (.inr hc)

theorem semicolon_of_isNv (h : isNv t) : 59 ∉ t := by
  intro hmem
  simp only [isNv, Bool.and_eq_true, decide_eq_true_eq, all_eq_true] at h
  obtain ⟨⟨hdot, hfraction⟩, -⟩ := h
  have hc : 59 ∈ unsigned (ascii "+-") t := mem_unsigned hmem (by decide)
  rcases @mem_cases 59 _ isDecimal hc with hc | ⟨hc, -⟩ | hc
  · cases mem_takeWhile_imp hc
  · rw [hdot] at hc
    cases hc
  · cases hfraction 59 hc

theorem semicolon_of_isNvexp (h : isNvexp t) : 59 ∉ t := by
  intro hmem
  simp only [isNvexp, Bool.and_eq_true, Bool.or_eq_true] at h
  obtain ⟨⟨-, hbase⟩, hexp⟩ := h
  rcases @mem_cases 59 t (fun c => c ≠ 101 && c ≠ 69) hmem with hc | ⟨-, hc⟩ | hc
  · rcases hbase with hbase | hbase
    · exact semicolon_of_isIv hbase hc
    · exact semicolon_of_isNv hbase hc
  · exact hc rfl
  · exact semicolon_of_isIv hexp (mem_unsigned hc (by decide))

/-- What is printed for a double is read as one, and has no semicolon in it. -/
theorem gcvt_cases (d : dbl.Val) : isDoubleText (dbl.gcvt d) ∧ 59 ∉ dbl.gcvt d ∧ doubleOf dbl (dbl.gcvt d) = d := by
  have hnumber (t : Bytes) (h : isIv t ∨ isNv t ∨ isNvexp t) :
      59 ∉ t ∧ t ≠ ascii "NAN" ∧ t ≠ ascii "INF" ∧ t ≠ ascii "-INF" := by
    refine ⟨?_, ?_, ?_, ?_⟩
    · rcases h with h | h | h
      · exact semicolon_of_isIv h
      · exact semicolon_of_isNv h
      · exact semicolon_of_isNvexp h
    all_goals
      rintro rfl
      revert h
      decide
  rcases dbl.strtod_gcvt d with ⟨h, hd⟩ | ⟨h, hd⟩ | ⟨h, hd⟩ | ⟨h, hd⟩
  · obtain ⟨hsemi, h1, h2, h3⟩ := hnumber _ h
    refine ⟨?_, hsemi, ?_⟩
    · rcases h with h | h | h <;> simp [isDoubleText, h]
    · rw [doubleOf, if_neg h1, if_neg h2, if_neg h3, hd]
  all_goals
    rw [h]
    exact ⟨by decide, by decide, hd⟩

theorem scan_double (d : dbl.Val) : scan (ascii "d:" ++ (dbl.gcvt d ++ (ascii ";" ++ rest))) = .double (dbl.gcvt d) :=
  scan_tagged (r := ⟨ascii "d:", isDoubleText, ascii ";", .double⟩) (by simp [patterns]) rfl (gcvt_cases d).1
    (gcvt_cases d).2.1

theorem add_length_tagged (p : ℕ) (tag t stop : Bytes) :
    p + (tag ++ (t ++ stop)).length = p + tag.length + t.length + stop.length := by
  simp only [length_append]
  omega

/-- What is behind a part of the text. -/
theorem drop_behind (hbuf : buf.drop p = s ++ rest) : buf.drop (p + s.length) = rest := by
  rw [← drop_drop, hbuf, drop_left]

/-- A value without parts. -/
theorem phpVarUnserialize_scalar {s : Scalar dbl.Val} (hs : s.Fits) (hbuf : buf.drop p = scalarText dbl s ++ rest)
    (fuel : ℕ) (rval : Addr) (hash : Bool) (st : State dbl.Val) :
    phpVarUnserialize dbl buf (fuel + 1) rval p hash st =
      .ret true rval (p + (scalarText dbl s).length) ((st.count hash rval).assign rval (.scalar s)) := by
  cases s with
  | null =>
    rw [phpVarUnserialize_counted 78 hbuf rfl (by decide) scan_null, applyRule]
    rfl
  | bool b =>
    simp only [scalarText, append_assoc] at hbuf ⊢
    rw [phpVarUnserialize_counted 98 hbuf rfl (by decide) (scan_bool b), applyRule,
      parseIv_printLong (by cases b <;> decide), add_length_tagged]
    cases b <;> rfl
  | long n =>
    simp only [scalarText, phpVarSerializeLong, append_assoc] at hbuf ⊢
    rw [phpVarUnserialize_counted 105 hbuf rfl (by decide) (scan_long n), applyRule, parseIv_printLong hs,
      add_length_tagged]
    rfl
  | double d =>
    simp only [scalarText, append_assoc] at hbuf ⊢
    rw [phpVarUnserialize_counted 100 hbuf rfl (by decide) (scan_double d), applyRule, (gcvt_cases d).2.2,
      add_length_tagged]
    rfl
  | string t =>
    have ht : t.length < 2 ^ 31 := hs
    simp only [scalarText, phpVarSerializeString, toInt_eq ht, printLong_natCast, append_assoc] at hbuf ⊢
    rw [phpVarUnserialize_counted 115 hbuf rfl (by decide) (scan_string t.length), applyRule,
      parseUiv_decimal (by omega)]
    -- the string is behind the tag, its length and the stop
    have hstart : buf.drop (p + 2 + (decimal t.length).length + 2) = t ++ (ascii "\";" ++ rest) := by
      have h := drop_behind (s := ascii "s:" ++ (decimal t.length ++ ascii ":\"")) (by simpa using hbuf)
      rwa [add_length_tagged] at h
    have hlen : ¬ buf.length - (p + 2 + (decimal t.length).length + 2) < t.length := by
      rw [← length_drop, hstart, length_append]
      omega
    have hquote : byteAt buf (p + 2 + (decimal t.length).length + 2 + t.length) = 34 := by
      rw [byteAt_add, hstart]
      simp [ascii]
    have hend : p + (ascii "s:" ++ (decimal t.length ++ (ascii ":\"" ++ (t ++ ascii "\";")))).length =
        p + 2 + (decimal t.length).length + 2 + t.length + 2 := by
      simp only [length_append]
      show p + (2 + (_ + (2 + (_ + 2)))) = _
      omega
    simp only [hlen, hquote, hstart, hend, take_left, if_false, ne_eq, not_true_eq_false]

/-- A text ends with a semicolon or a brace. -/
theorem getLast_text (d : Data dbl.Val) : ∃ s c, d.text dbl = s ++ [c] ∧ (c = 59 ∨ c = 125) := by
  cases d with
  | scalar s =>
    cases s with
    | null => exact ⟨ascii "N", 59, rfl, .inl rfl⟩
    | bool b | long n | double d => exact ⟨_, 59, rfl, .inl rfl⟩
    | string t =>
      refine ⟨ascii "s:" ++ printLong (toInt t.length) ++ ascii ":\"" ++ t ++ ascii "\"", 59, ?_, .inl rfl⟩
      rw [append_assoc _ _ [59]]
      rfl
  | table isObject elements => exact ⟨_, 125, by rw [text]; rfl, .inr rfl⟩
  | back isRef n => exact ⟨_, 59, by rw [text]; rfl, .inl rfl⟩

variable {n : ℕ}

/-- What comes after the elements of a table. -/
theorem nestedData_text {unserialize : Addr → ℕ → Bool → State dbl.Val → Outcome dbl.Val} {rval : Addr}
    {objprops hash : Bool} {st st' : State dbl.Val} (hbuf : buf.drop p = s ++ (ascii "\x7d" ++ rest))
    (h : processNestedData unserialize buf rval objprops hash n p st = .ret true rval (p + s.length) st') :
    nestedData unserialize buf rval objprops hash n p st = .ret true rval (p + s.length + 1) st' := by
  have hbrace := drop_behind hbuf
  have hbyte : byteAt buf (p + s.length) = 125 := by
    have hadd := byteAt_add buf (p + s.length) 0
    rwa [hbrace] at hadd
  rw [nestedData, h]
  simp only [finishNestedData, hbyte, (lt_length_of_drop hbrace).le.not_gt, if_false, decide_true]

theorem Data.one_le_depth (d : Data dbl.Val) : 1 ≤ d.depth := by
  cases d <;> simp [depth]

/-- The rule for arrays. -/
theorem phpVarUnserialize_array (hn : n < 2 ^ 31) (hbuf : buf.drop p = openText false n ++ rest) (fuel : ℕ)
    (rval : Addr) (hash : Bool) (st : State dbl.Val) :
    phpVarUnserialize dbl buf (fuel + 1) rval p hash st =
      nestedData (phpVarUnserialize dbl buf fuel) buf rval false hash n (p + (openText false n).length)
        ((st.count hash rval).assign rval (.array [])) := by
  have hlen : p + (openText false n).length = p + 2 + (decimal n).length + 2 := by
    rw [openText, toInt_eq hn, printLong_natCast, append_assoc, add_length_tagged]
    rfl
  simp only [openText, toInt_eq hn, printLong_natCast, append_assoc] at hbuf
  rw [phpVarUnserialize_counted 97 hbuf rfl (by decide) (scan_array n), applyRule, parseIv_decimal (by omega), hlen]
  simp only [Int.toNat_natCast, show ¬ (n : ℤ) < 0 by omega, if_false]

/-- The rule for objects. -/
theorem phpVarUnserialize_object (hn : n < 2 ^ 31) (hbuf : buf.drop p = openText true n ++ rest) (fuel : ℕ)
    (rval : Addr) (hash : Bool) (st : State dbl.Val) :
    phpVarUnserialize dbl buf (fuel + 1) rval p hash st =
      nestedData (phpVarUnserialize dbl buf fuel) buf rval true hash n (p + (openText true n).length)
        ((st.count hash rval).objectInit rval) := by
  have hopen : openText true n = ascii "O:" ++ (ascii "8" ++ (ascii ":\"" ++ (ascii "stdClass" ++ (ascii "\":" ++
      (decimal n ++ ascii ":\x7b"))))) := by
    rw [openText, toInt_eq hn, printLong_natCast, if_pos rfl, append_assoc]
    rfl
  have hlen : p + (openText true n).length = p + 2 + (ascii "8").length + 2 + 8 + 2 + (decimal n).length + 2 := by
    rw [hopen]
    simp only [length_append]
    show p + (2 + (1 + (2 + (8 + (2 + (_ + 2)))))) = p + 2 + 1 + 2 + 8 + 2 + _ + 2
    omega
  rw [hopen] at hbuf
  -- the name of the class, and the number of properties behind it
  have hname : buf.drop (p + 2 + (ascii "8").length + 2) = ascii "stdClass" ++ (ascii "\":" ++ (decimal n ++
      (ascii ":\x7b" ++ rest))) := by
    have hdrop := drop_behind (s := ascii "O:" ++ (ascii "8" ++ ascii ":\"")) (by simpa using hbuf)
    rwa [add_length_tagged] at hdrop
  have hcount : buf.drop (p + 2 + (ascii "8").length + 2 + 8 + 2) = decimal n ++ (ascii ":\x7b" ++ rest) :=
    drop_behind (p := p + 2 + (ascii "8").length + 2 + 8) (s := ascii "\":") (drop_behind (s := ascii "stdClass") hname)
  have hquote : byteAt buf (p + 2 + (ascii "8").length + 2 + 8) = 34 := by
    rw [byteAt_add, hname]
    rfl
  have hcolon : byteAt buf (p + 2 + (ascii "8").length + 2 + 8 + 1) = 58 := by
    rw [Nat.add_assoc _ 8 1, byteAt_add, hname]
    rfl
  have hroom : ¬ (buf.length - (p + 2 + (ascii "8").length + 2) < 8 ∨ 8 = 0) := by
    rw [← length_drop, hname, length_append]
    show ¬ (8 + _ < 8 ∨ 8 = 0)
    omega
  have htake : (buf.drop (p + 2 + (ascii "8").length + 2)).take 8 = ascii "stdClass" := by
    rw [hname]
    rfl
  have height : parseUiv (ascii "8") = 8 := by decide
  have hnumber := @parseIv2_decimal n (by omega) (ascii ":\x7b" ++ rest) <| by
    intro c hc
    cases hc
    decide
  rw [phpVarUnserialize_counted 79 hbuf rfl (by decide) scan_object, applyRule, unserializeObject, hlen]
  simp only [height, htake, hroom, hquote, hcolon, hcount, hnumber, if_false, ne_eq, not_true_eq_false]
  rw [if_neg (by decide), if_neg (by decide), if_neg Bool.false_ne_true, Int.toNat_natCast]

/-- The text of a table that is not too long. -/
theorem text_table {isObject : Bool} {elements : Elements dbl.Val} (h : elements.length < 2 ^ 31) :
    (table isObject elements).text dbl =
      openText isObject elements.length ++ (elements.text dbl ++ ascii "\x7d") := by
  rw [text, toInt_eq h, append_assoc]
  cases elements with
  | nil => rfl
  | cons key data rest => rw [if_pos (by simp only [Elements.length]; omega)]

theorem keyText_eq (key : ArrayKey) : keyText key = scalarText dbl (keyScalar key) := by
  cases key <;> rfl

theorem fits_keyScalar {key : ArrayKey} (h : KeyFits key) : (keyScalar (D := dbl.Val) key).Fits := by
  cases key <;> exact h

/-- The key that was just read. -/
theorem keyOf_keyScalar (st : State dbl.Val) (objprops : Bool) (key : ArrayKey) :
    (st.alloc.2.assign st.alloc.1 (.scalar (keyScalar key))).keyOf objprops st.alloc.1 =
      some (storedKey objprops key) := by
  have hget : (st.alloc.2.assign st.alloc.1 (.scalar (keyScalar key))).heap.zvals[st.alloc.1]? =
      some ⟨false, .scalar (keyScalar key)⟩ := by
    simp [alloc, assign, Heap.alloc, Heap.assign]
  rw [keyOf, hget]
  cases key <;> rfl

section Slot

variable {key : ArrayKey} (hkey : KeyFits key)

include hkey

variable {st st' : State dbl.Val} {isObject hash : Bool}

/-- The key is read first. -/
theorem phpVarUnserialize_key (hbuf : buf.drop p = keyText key ++ rest) (fuel : ℕ) :
    phpVarUnserialize dbl buf (fuel + 1) st.alloc.1 p false st.alloc.2 =
      .ret true st.alloc.1 (p + (keyText key).length) (st.alloc.2.assign st.alloc.1 (.scalar (keyScalar key))) := by
  rw [@keyText_eq dbl] at hbuf ⊢
  exact phpVarUnserialize_scalar (fits_keyScalar hkey) hbuf fuel st.alloc.1 false st.alloc.2

/-- An element whose data is read. -/
theorem processNestedData_cons {d : Data dbl.Val} (hbuf : buf.drop p = keyText key ++ (d.text dbl ++ rest)) {fuel : ℕ}
    {rval data : Addr}
    (hread : phpVarUnserialize dbl buf (fuel + 1) (st.alloc.2.assign st.alloc.1 (.scalar (keyScalar key))).alloc.1
      (p + (keyText key).length) hash (st.alloc.2.assign st.alloc.1 (.scalar (keyScalar key))).alloc.2 =
        .ret true data (p + (keyText key).length + (d.text dbl).length) st')
    (n : ℕ) :
    processNestedData (phpVarUnserialize dbl buf (fuel + 1)) buf rval isObject hash (n + 1) p st =
      processNestedData (phpVarUnserialize dbl buf (fuel + 1)) buf rval isObject hash n
        (p + (keyText key).length + (d.text dbl).length) (st'.store rval (storedKey isObject key) data) := by
  have hlast : ¬ (n ≠ 0 ∧ byteAt buf (p + (keyText key).length + (d.text dbl).length - 1) ≠ 59 ∧
      byteAt buf (p + (keyText key).length + (d.text dbl).length - 1) ≠ 125) := by
    obtain ⟨s, c, hs, hc⟩ := getLast_text d
    have hbyte : byteAt buf (p + (keyText key).length + s.length) = c := by
      rw [byteAt_add, drop_behind hbuf, hs]
      simp
    rw [hs, length_append, length_singleton, ← Nat.add_assoc, Nat.add_sub_cancel, hbyte]
    rintro ⟨-, h1, h2⟩
    exact hc.elim h1 h2
  rw [processNestedData, phpVarUnserialize_key hkey hbuf]
  simp only [keyOf_keyScalar, hread, hlast, if_false]

/-- An element whose data is not. -/
theorem processNestedData_fail (hbuf : buf.drop p = keyText key ++ rest) {fuel q : ℕ} {rval data : Addr}
    (hread : phpVarUnserialize dbl buf (fuel + 1) (st.alloc.2.assign st.alloc.1 (.scalar (keyScalar key))).alloc.1
      (p + (keyText key).length) hash (st.alloc.2.assign st.alloc.1 (.scalar (keyScalar key))).alloc.2 =
        .ret false data q st')
    (n : ℕ) :
    processNestedData (phpVarUnserialize dbl buf (fuel + 1)) buf rval isObject hash (n + 1) p st =
      .ret false rval q st' := by
  rw [processNestedData, phpVarUnserialize_key hkey hbuf]
  simp only [keyOf_keyScalar, hread]

end Slot

mutual

/-- **On the text of some syntax the parser does what the syntax says**, and takes all of the text. -/
theorem phpVarUnserialize_text (d : Data dbl.Val) (hd : d.Fits) {fuel p : ℕ} {rest : Bytes} {rval a : Addr}
    {hash : Bool} {st st' : State dbl.Val} (hfuel : d.depth ≤ fuel) (hbuf : buf.drop p = d.text dbl ++ rest)
    (hbuild : d.build rval hash st = some (a, st')) :
    phpVarUnserialize dbl buf fuel rval p hash st = .ret true a (p + (d.text dbl).length) st' := by
  obtain ⟨fuel, rfl⟩ := Nat.exists_eq_add_of_le' (d.one_le_depth.trans hfuel)
  match d with
  | .scalar s =>
    rw [text] at hbuf ⊢
    rw [build] at hbuild
    cases hbuild
    exact phpVarUnserialize_scalar hd hbuf fuel rval hash st
  | .table isObject elements =>
    obtain ⟨hlen, hels⟩ := hd
    rw [text_table hlen] at hbuf ⊢
    simp only [append_assoc] at hbuf
    rw [add_length_tagged]
    cases isObject with
    | false | true =>
      rw [build] at hbuild
      obtain ⟨st1, hbuild, heq⟩ := Option.map_eq_some_iff.mp hbuild
      cases heq
      first | rw [phpVarUnserialize_array hlen hbuf] | rw [phpVarUnserialize_object hlen hbuf]
      apply nestedData_text (drop_behind hbuf)
      exact processNestedData_text elements hels (Nat.le_of_succ_le_succ hfuel) (drop_behind hbuf) hbuild
  | .back true n =>
    have hn : n < 2 ^ 63 := hd
    rw [build] at hbuild
    rw [text] at hbuf ⊢
    simp only [backText, if_true, append_assoc] at hbuf ⊢
    rw [phpVarUnserialize_step (c := 82) hbuf rfl (scan_ref n), applyRule, parseIv_printLong ⟨by omega, by omega⟩,
      toLong_eq ⟨by omega, by omega⟩, add_length_tagged]
    cases hash with
    | false => cases hbuild
    | true =>
      obtain ⟨b, hb, heq⟩ := Option.map_eq_some_iff.mp hbuild
      cases heq
      simp only [State.count, ne_eq, not_true_eq_false, decide_false, Bool.and_false, Bool.false_eq_true, if_false,
        if_true, hb]
      rfl
  | .back false n =>
    have hn : n < 2 ^ 63 := hd
    rw [build] at hbuild
    rw [text] at hbuf ⊢
    simp only [backText, Bool.false_eq_true, if_false, append_assoc] at hbuf ⊢
    rw [phpVarUnserialize_counted 114 hbuf rfl (by decide) (scan_same n), applyRule,
      parseIv_printLong ⟨by omega, by omega⟩, toLong_eq ⟨by omega, by omega⟩, add_length_tagged]
    cases hash with
    | false => cases hbuild
    | true =>
      obtain ⟨b, hb, heq⟩ := Option.bind_eq_some_iff.mp hbuild
      split_ifs at heq with hne
      cases heq
      simp only [State.count, if_true, hb, hne, if_false]
      rfl

/-- The same for elements. -/
theorem processNestedData_text (elements : Elements dbl.Val) (hels : elements.Fits) {fuel p : ℕ} {rest : Bytes}
    {rval : Addr} {isObject hash : Bool} {st st' : State dbl.Val} (hfuel : elements.depth ≤ fuel)
    (hbuf : buf.drop p = elements.text dbl ++ rest) (hbuild : elements.build rval isObject hash st = some st') :
    processNestedData (phpVarUnserialize dbl buf fuel) buf rval isObject hash elements.length p st =
      .ret true rval (p + (elements.text dbl).length) st' := by
  match elements with
  | .nil =>
    rw [Elements.build] at hbuild
    cases hbuild
    rfl
  | .cons key data els =>
    obtain ⟨hkey, hdata, hels⟩ := hels
    have hfuel' : data.depth ≤ fuel ∧ els.depth ≤ fuel := Nat.max_le.mp hfuel
    rw [Elements.build] at hbuild
    obtain ⟨⟨a, st1⟩, hbuild1, hbuild2⟩ := Option.bind_eq_some_iff.mp hbuild
    rw [Elements.text, append_assoc, append_assoc] at hbuf
    rw [Elements.text, append_assoc, add_length_tagged]
    -- the fuel is enough for the key too
    obtain ⟨fuel, rfl⟩ := Nat.exists_eq_add_of_le' (data.one_le_depth.trans hfuel'.1)
    have hread := phpVarUnserialize_text data hdata hfuel'.1 (drop_behind hbuf) hbuild1
    rw [Elements.length, processNestedData_cons hkey hbuf hread]
    exact processNestedData_text els hels hfuel'.2 (drop_behind (drop_behind hbuf)) hbuild2

end

end Texts

end PhpSandbox.Var
