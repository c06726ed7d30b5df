import PhpSandbox.Codec.Base64
import PhpSandbox.Codec.Url

/-!
# `main/php_variables.c`: the variables of a form

The body of a POST request comes in pieces. `add_post_vars` is called when a piece was appended to what the calls
before have left of the body, and once more at its end; it takes a variable off the text for each separator in it.
The query string and the cookies are cut up by `php_default_treat_data`. Both count the variables: `add_post_vars`
after it has registered one, `php_default_treat_data` before.

The input filter is the default one, which lets everything pass. Lengths fit an `int`, which is what `php_url_decode`
takes.
-/

namespace PhpSandbox.Post

open Lib Codec List

/-- What `php_url_decode` makes of a text. -/
def urlDecoded (s : Bytes) : Bytes :=
  let (mem, len) := phpUrlDecode (s ++ [0]) s.length
  mem.take len

/-- A field cut at its first `=` and decoded. -/
def formField (piece : Bytes) : Bytes × Bytes :=
  match cut 61 piece with
  | some (name, val) => (urlDecoded name, urlDecoded val)
  | none => (urlDecoded piece, [])

/-- What is passed to `php_register_variable_safe`; the name is a C string. -/
def formVar (piece : Bytes) : Bytes × Bytes := ((formField piece).1.takeWhile (· ≠ 0), (formField piece).2)

/-- `add_post_var`: the variable, and the text behind it. -/
def addPostVar (eof : Bool) (text : Bytes) : Option ((Bytes × Bytes) × Bytes) :=
  if text = [] then none
  else
    match cut 38 text with
    | some (piece, rest) => some (formVar piece, rest)
    | none => if eof then some (formVar text, []) else none

/-- The loop of `add_post_vars`: what it registers, the count, and the text that is left or `none` for `FAILURE`. A
variable has at least one byte, so there are no more turns than bytes. -/
def addPostVars (maxVars : ℕ) (eof : Bool) : ℕ → ℕ → Bytes → List (Bytes × Bytes) × ℕ × Option Bytes
  | 0, cnt, text => ([], cnt, some text)
  | turns + 1, cnt, text =>
    match addPostVar eof text with
    | none => ([], cnt, some text)
    | some (var, rest) =>
      if cnt + 1 > maxVars then ([var], cnt + 1, none)
      else
        let (vars, r) := addPostVars maxVars eof turns (cnt + 1) rest
        (var :: vars, r)

/-- What is registered for a body that comes in pieces, when `cnt` variables have been and `str` is left. -/
def postVars (maxVars : ℕ) : ℕ → Bytes → List Bytes → List (Bytes × Bytes)
  | cnt, str, [] => (addPostVars maxVars true str.length cnt str).1
  | cnt, str, piece :: pieces =>
    match addPostVars maxVars false (str ++ piece).length cnt (str ++ piece) with
    | (vars, cnt, some rest) => vars ++ postVars maxVars cnt rest pieces
    | (vars, _, none) => vars

/-- `php_strtok_r`: the token, and where the next call starts. -/
def phpStrtokR (delim s : Bytes) : Option (Bytes × Bytes) :=
  match s.dropWhile (· ∈ delim) with
  | [] => none
  | tok => some (tok.takeWhile (· ∉ delim), (tok.dropWhile (· ∉ delim)).drop 1)

/-- The loop of `php_default_treat_data`. -/
def treatData (maxInputVars : ℕ) (cookie : Bool) (separator : Bytes) : ℕ → ℕ → Bytes → List (Bytes × Bytes)
  | 0, _, _ => []
  | turns + 1, count, res =>
    match phpStrtokR separator res with
    | none => []
    | some (tok, rest) =>
      let var := if cookie then tok.dropWhile Codec.isSpace else tok
      if cookie ∧ (var = [] ∨ var.head? = some 61) then treatData maxInputVars cookie separator turns count rest
      else if count + 1 > maxInputVars then []
      else formVar var :: treatData maxInputVars cookie separator turns (count + 1) rest

/-- The variables of a text, whatever the limit. -/
def formVars (text : Bytes) : List (Bytes × Bytes) := (entries 38 text).map formVar

variable {maxVars cnt turns : ℕ} {text : Bytes}

/-- One turn takes a variable off, unless none is complete; `more` is the rest of the body. -/
theorem addPostVar_cases {eof : Bool} {more : Bytes} (heof : eof → more = []) (text : Bytes) :
    (addPostVar eof text = none ∧ (eof → text = [])) ∨
      ∃ piece rest, addPostVar eof text = some (formVar piece, rest) ∧ rest.length < text.length ∧
        formVars (text ++ more) = formVar piece :: formVars (rest ++ more) := by
  rw [addPostVar]
  by_cases hnil : text = []
  · exact .inl ⟨if_pos hnil, fun _ => hnil⟩
  rw [if_neg hnil]
  cases hcut : cut 38 text with
  | none =>
    cases eof with
    | false => exact .inl ⟨rfl, fun h => Bool.noConfusion h⟩
    | true =>
      refine .inr ⟨text, [], rfl, length_pos_iff.mpr hnil, ?_⟩
      rw [heof rfl, append_nil, formVars, entries_of_not_mem (cut_eq_none_iff.mp hcut) hnil]
      rfl
  | some p =>
    obtain ⟨piece, rest⟩ := p
    obtain ⟨hmem, rfl⟩ := cut_eq_some_iff.mp hcut
    refine .inr ⟨piece, rest, rfl, by simp; omega, ?_⟩
    rw [append_assoc, cons_append, formVars, entries_append_cons hmem]
    rfl

/-- The loop registers what the text has, up to the first variable above the limit. -/
theorem addPostVars_spec {eof : Bool} {more : Bytes} (heof : eof → more = []) (hcnt : cnt ≤ maxVars)
    (hturns : text.length ≤ turns) :
    (match addPostVars maxVars eof turns cnt text with
      | (vars, cnt', some rest) =>
        cnt' ≤ maxVars ∧ (eof → rest = []) ∧ vars ++ (formVars (rest ++ more)).take (maxVars + 1 - cnt') =
          (formVars (text ++ more)).take (maxVars + 1 - cnt)
      | (vars, _, none) => vars = (formVars (text ++ more)).take (maxVars + 1 - cnt)) := by
  induction turns generalizing cnt text with
  | zero => exact ⟨hcnt, fun _ => length_eq_zero_iff.mp (Nat.le_zero.mp hturns), rfl⟩
  | succ turns ih =>
    rw [addPostVars]
    rcases addPostVar_cases heof text with ⟨hnone, hnil⟩ | ⟨piece, rest, hsome, hlt, hvars⟩
    · rw [hnone]
      exact ⟨hcnt, hnil, rfl⟩
    rw [hsome, hvars]
    dsimp only
    split_ifs with hlimit
    · have hone : maxVars + 1 - cnt = 1 := by omega
      rw [hone, take_succ_cons, take_zero]
    have hleft : maxVars + 1 - cnt = maxVars + 1 - (cnt + 1) + 1 := by omega
    have hrest := @ih (cnt + 1) rest (by omega) (by omega)
    rw [hleft, take_succ_cons]
    generalize addPostVars maxVars eof turns (cnt + 1) rest = r at hrest ⊢
    obtain ⟨vars, cnt', rest' | rest'⟩ := r
    · exact congrArg _ hrest
    · exact ⟨hrest.1, hrest.2.1, congrArg _ hrest.2.2⟩

/-- However a body comes, its variables are registered up to the first one above the limit. -/
theorem postVars_eq_take (hcnt : cnt ≤ maxVars) (str : Bytes) (pieces : List Bytes) :
    postVars maxVars cnt str pieces = (formVars (str ++ pieces.flatten)).take (maxVars + 1 - cnt) := by
  induction pieces generalizing cnt str with
  | nil =>
    have hend : true = true → ([] : Bytes) = [] := fun _ => rfl
    have hspec := addPostVars_spec hend hcnt (le_refl str.length)
    rw [postVars, flatten_nil]
    generalize addPostVars maxVars true str.length cnt str = r at hspec ⊢
    obtain ⟨vars, cnt', rest | rest⟩ := r
    · exact hspec
    · obtain ⟨-, hrest, hvars⟩ := hspec
      rw [← hvars, hrest rfl]
      simp [formVars]
  | cons piece pieces ih =>
    have hmore : false = true → pieces.flatten = [] := fun h => Bool.noConfusion h
    have hspec := addPostVars_spec hmore hcnt (le_refl (str ++ piece).length)
    rw [flatten_cons, ← append_assoc, postVars]
    generalize addPostVars maxVars false (str ++ piece).length cnt (str ++ piece) = r at hspec ⊢
    obtain ⟨vars, cnt', rest | rest⟩ := r
    · exact hspec
    · dsimp only at hspec ⊢
      rw [ih hspec.1, hspec.2.2]

/-- **Forms in pieces**: with no more fields than the limit, what is registered is what the whole body has. -/
theorem postVars_eq (maxVars : ℕ) (pieces : List Bytes) (h : (entries 38 pieces.flatten).length ≤ maxVars) :
    postVars maxVars 0 [] pieces = (entries 38 pieces.flatten).map formVar := by
  have hle : (formVars pieces.flatten).length ≤ maxVars + 1 := by
    rw [formVars, length_map]
    omega
  rw [postVars_eq_take (Nat.zero_le _), nil_append, Nat.sub_zero, take_of_length_le hle, formVars]

theorem postVars_eq_cut : postVars 2 0 [] [[97], [61, 49, 38], [98]] = [([97], [49]), ([98], [])] :=
  (postVars_eq 2 [[97], [61, 49, 38], [98]] (by decide)).trans (by decide +kernel)

/-- `a%00b=1`: the name that is registered is not the decoded one. -/
theorem postVars_nul :
    postVars 1 0 [] [ascii "a%00b=1"] = [([97], [49])] ∧ formField (ascii "a%00b=1") = ([97, 0, 98], [49]) := by
  decide +kernel

theorem length_treatData_le (maxInputVars : ℕ) (cookie : Bool) (separator res : Bytes) (turns count : ℕ) :
    (treatData maxInputVars cookie separator turns count res).length ≤ maxInputVars - count := by
  induction turns generalizing count res with
  | zero => exact Nat.zero_le _
  | succ turns ih =>
    rw [treatData]
    cases phpStrtokR separator res with
    | none => exact Nat.zero_le _
    | some p =>
      obtain ⟨tok, rest⟩ := p
      dsimp only
      generalize (if cookie = true then tok.dropWhile Codec.isSpace else tok) = var
      split_ifs
      · exact ih rest count
      · exact Nat.zero_le _
      · have hrest := ih rest (count + 1)
        rw [length_cons]
        omega

/-- **The limit on variables**: one more than it allows are registered from a body. -/
theorem registered_count (maxVars : ℕ) (pieces : List Bytes) (cookie : Bool) (separator res : Bytes) :
    (postVars maxVars 0 [] pieces).length = min (maxVars + 1) (entries 38 pieces.flatten).length ∧
      (treatData maxVars cookie separator res.length 0 res).length ≤ maxVars := by
  refine ⟨?_, length_treatData_le ..⟩
  rw [postVars_eq_take (Nat.zero_le _), length_take, formVars, length_map, nil_append, Nat.sub_zero]

/-- With a limit of 0 the body `a` registers a variable. -/
theorem registered_above_limit : postVars 0 0 [] [[97]] = [([97], [])] := by decide

end PhpSandbox.Post
