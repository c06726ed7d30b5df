import PhpSandbox.Var.RoundTrip

/-!
# How far `unserialize` gets

`phpVarUnserialize_advancing`: on any text the cursor does not go back, and a call that succeeds takes something.
Every element of an array that is built has a key and a value of its own in the text, so no array gets more
elements than the cursor advances.
-/

namespace PhpSandbox.Var

open Lib Zend

section Counts

variable {D : Type} {heap : Heap D} {m n : ℕ}

/-- The number of elements, if it is an array. -/
def Content.count : Content D → ℕ
  | .array ht => ht.length
  | _ => 0

/-- No array has more than `n` elements. -/
def Heap.Within (heap : Heap D) (n : ℕ) : Prop := ∀ z ∈ heap.zvals, z.content.count ≤ n

namespace Heap.Within

theorem mono (h : heap.Within m) (hmn : m ≤ n) : heap.Within n := fun z hz => (h z hz).trans hmn

variable (h : heap.Within n)

include h

theorem set {z : Zval D} (hz : z.content.count ≤ n) (a : Addr) : ∀ z' ∈ heap.zvals.set a z, z'.content.count ≤ n := by
  intro z' hmem
  rcases List.mem_or_eq_of_mem_set hmem with hmem | rfl
  · exact h z' hmem
  · exact hz

theorem alloc : heap.alloc.2.Within n := by
  intro z hz
  rcases List.mem_append.mp hz with hz | hz
  · exact h z hz
  · cases List.mem_singleton.mp hz
    exact Nat.zero_le n

theorem assign {content : Content D} (hcontent : content.count = 0) (a : Addr) : (heap.assign a content).Within n :=
  h.set (hcontent.le.trans (Nat.zero_le n)) a

theorem objectInit (a : Addr) : (heap.objectInit a).Within n :=
  h.set (z := ⟨false, .object heap.objects.length⟩) (Nat.zero_le n) a

theorem setIsref (a : Addr) (isRef : Bool) : (heap.setIsref a isRef).Within n := by
  intro z hz
  obtain ⟨i, hi⟩ := List.mem_iff_getElem?.mp hz
  rw [Heap.setIsref, List.getElem?_modify] at hi
  obtain ⟨z', hz', rfl⟩ := Option.map_eq_some_iff.mp hi
  have hle := h z' (List.mem_iff_getElem?.mpr ⟨i, hz'⟩)
  split_ifs <;> exact hle

theorem store (a : Addr) (key : ArrayKey) (data : Addr) : (heap.store a key data).Within (n + 1) := by
  have hsucc := h.mono (Nat.le_succ n)
  unfold Heap.store
  split
  · rename_i isRef ht hget
    have hle : ht.length ≤ n := h _ (List.mem_iff_getElem?.mpr ⟨a, hget⟩)
    exact hsucc.set (z := ⟨isRef, .array (update ht key data)⟩)
      ((length_update_le ht key data).trans (Nat.succ_le_succ hle)) a
  · exact hsucc
  · exact hsucc

end Heap.Within

end Counts

/-! ### The cursor -/

section Progress

variable {dbl : Doubles} {buf : Bytes} {p q r : ℕ} {st st' st'' : State dbl.Val}

/-- How far a call gets: the cursor does not go back, and arrays get no more elements than it advances. -/
structure Advances (buf : Bytes) (p : ℕ) (st : State dbl.Val) (q : ℕ) (st' : State dbl.Val) : Prop where
  le : p ≤ q
  /-- The number of elements, as far as there is text. -/
  within : ∀ n, st.heap.Within n → st'.heap.Within (n + (min q buf.length - min p buf.length))

/-- A call that succeeds has something to read, and a byte to spare. -/
structure Reads (buf : Bytes) (p : ℕ) (st : State dbl.Val) (q : ℕ) (st' : State dbl.Val) : Prop where
  lt : p < q
  room : p < buf.length
  within : ∀ n, st.heap.Within n → st'.heap.Within (n + (min q buf.length - min p buf.length - 1))

/-- How a call advances, if it returns. -/
def Outcome.Advanced (buf : Bytes) (p : ℕ) (st : State dbl.Val) : Outcome dbl.Val → Prop
  | .ret true _ q st' => Reads buf p st q st'
  | .ret false _ q st' => Advances buf p st q st'
  | _ => True

theorem Advances.of_le (hle : p ≤ q) (h : ∀ n, st.heap.Within n → st'.heap.Within n) : Advances buf p st q st' :=
  ⟨hle, fun n hst => (h n hst).mono (Nat.le_add_right n _)⟩

theorem Reads.of_lt (hlt : p < q) (hroom : p < buf.length) (h : ∀ n, st.heap.Within n → st'.heap.Within n) :
    Reads buf p st q st' :=
  ⟨hlt, hroom, fun n hst => (h n hst).mono (Nat.le_add_right n _)⟩

theorem Advances.trans (h : Advances buf p st q st') (h' : Advances buf q st' r st'') : Advances buf p st r st'' := by
  have hle := h.le
  have hle' := h'.le
  exact ⟨hle.trans hle', fun n hst => (h'.within _ (h.within n hst)).mono (by omega)⟩

theorem Reads.advances (h : Reads buf p st q st') : Advances buf p st q st' :=
  ⟨h.lt.le, fun n hst => (h.within n hst).mono (by omega)⟩

theorem Reads.advanced (h : Reads buf p st q st') (success : Bool) (a : Addr) :
    (Outcome.ret success a q st').Advanced buf p st := by
  cases success with
  | true => exact h
  | false => exact h.advances

/-- What is read before makes room for a byte to spare. -/
theorem Reads.of_advances (hlt : p < q) (hroom : p < buf.length) (h : Advances buf q st r st')
    : Reads buf p st r st' := by
  have hle := h.le
  exact ⟨hlt.trans_le hle, hroom, fun n hst => (h.within n hst).mono (by omega)⟩

/-- A key and what is stored under it are two calls, each with a byte to spare; one is used for the element. -/
theorem Reads.store (h : Reads buf p st q st') (h' : Reads buf q st' r st'') (a : Addr) (key : ArrayKey) (data : Addr) :
    Advances buf p st (r - 1) (st''.store a key data) := by
  have hlt := h.lt
  have hlt' := h'.lt
  have hroom' := h'.room
  exact ⟨by omega, fun n hst => ((h'.within _ (h.within n hst)).store a key data).mono (by omega)⟩

/-- The parser for what is nested advances. -/
def Advancing (buf : Bytes) (unserialize : Addr → ℕ → Bool → State dbl.Val → Outcome dbl.Val) : Prop :=
  ∀ rval p hash st, (unserialize rval p hash st).Advanced buf p st

variable {unserialize : Addr → ℕ → Bool → State dbl.Val → Outcome dbl.Val}

/-- What is done before a call, without text. -/
theorem Outcome.Advanced.before {o : Outcome dbl.Val} (h : o.Advanced buf p st')
    (hst : ∀ n, st.heap.Within n → st'.heap.Within n) : o.Advanced buf p st := by
  match o with
  | .ret true a q st'' => exact ⟨h.lt, h.room, fun n hn => h.within n (hst n hn)⟩
  | .ret false a q st'' => exact ⟨h.le, fun n hn => h.within n (hst n hn)⟩
  | .fault | .outside | .fuel => exact trivial

section Step

variable (hu : Advancing buf unserialize)

include hu

/-- With a new variable. -/
theorem Advancing.alloc (p : ℕ) (hash : Bool) (st : State dbl.Val) :
    (unserialize st.alloc.1 p hash st.alloc.2).Advanced buf p st :=
  (hu st.alloc.1 p hash st.alloc.2).before fun _ h => h.alloc

/-- The loop over the elements. -/
theorem processNestedData_advances {rval : Addr} {objprops hash : Bool} {n p : ℕ} {st : State dbl.Val}
    {success : Bool} {a : Addr}
    (h : processNestedData unserialize buf rval objprops hash n p st = .ret success a q st') :
    Advances buf p st q st' := by
  induction n generalizing p st with
  | zero =>
    cases h
    exact .of_le le_rfl fun _ h => h
  | succ n ih =>
    have hkey := hu.alloc p false st
    rw [processNestedData] at h
    cases hk : unserialize st.alloc.1 p false st.alloc.2 with
    | ret success key p1 st1 =>
      rw [hk] at h hkey
      cases success with
      | false =>
        cases h
        exact hkey
      | true =>
        cases hkeyOf : st1.keyOf objprops key with
        | none =>
          simp only [hkeyOf] at h
          cases h
          exact hkey.advances
        | some k =>
          have hdata := hu.alloc p1 hash st1
          simp only [hkeyOf] at h
          cases hd : unserialize st1.alloc.1 p1 hash st1.alloc.2 with
          | ret success data p2 st2 =>
            rw [hd] at h hdata
            cases success with
            | false =>
              cases h
              exact hkey.advances.trans hdata
            | true =>
              have hstore := Reads.store hkey hdata rval k data
              simp only at h
              split_ifs at h
              · cases h
                exact hstore
              · exact (hstore.trans (.of_le (Nat.sub_le _ _) fun _ h => h)).trans (ih h)
          | fault | outside | fuel => rw [hd] at h; cases h
    | fault | outside | fuel => rw [hk] at h; cases h

/-- The elements and what is behind them, if the cursor has advanced before. -/
theorem nestedData_advanced (hlt : p < q) (hroom : p < buf.length) (hst : ∀ n, st.heap.Within n → st'.heap.Within n)
    (rval : Addr) (objprops hash : Bool) (n : ℕ) :
    (nestedData unserialize buf rval objprops hash n q st').Advanced buf p st := by
  have hbefore : Advances buf q st q st' := .of_le le_rfl hst
  cases h : processNestedData unserialize buf rval objprops hash n q st' with
  | ret success a r st'' =>
    have hrun := hbefore.trans (processNestedData_advances hu h)
    cases success with
    | false =>
      rw [nestedData, h]
      exact (Reads.of_advances hlt hroom hrun).advances
    | true =>
      have hend : Reads buf p st (r + 1) st'' :=
        .of_advances hlt hroom (hrun.trans (.of_le (Nat.le_succ r) fun _ h => h))
      rw [nestedData, h]
      simp only [finishNestedData]
      split_ifs
      · exact trivial
      · exact hend.advanced _ rval
  | fault | outside | fuel => rw [nestedData, h]; exact trivial

/-- The rule for objects of a class. -/
theorem unserializeObject_advanced (hroom : p < buf.length) (custom : Bool) (uiv : Bytes) (rval : Addr) (hash : Bool)
    (st : State dbl.Val) : (unserializeObject unserialize buf custom uiv rval p hash st).Advanced buf p st := by
  have hinit : ∀ n, st.heap.Within n → (st.objectInit rval).heap.Within n := fun _ h => h.objectInit rval
  have hfail {q : ℕ} (hlt : p < q) : (Outcome.ret false rval q st).Advanced buf p st :=
    (Reads.of_lt hlt hroom fun _ h => h).advanced false rval
  simp only [unserializeObject]
  split_ifs
  · exact hfail (by omega)
  · exact hfail (by omega)
  · exact hfail (by omega)
  · exact hfail (by omega)
  · exact trivial
  · exact hfail (by omega)
  · rw [finishNestedData]
    split_ifs
    · exact trivial
    · exact (Reads.of_lt (by omega) hroom hinit).advanced _ rval
  · exact nestedData_advanced hu (by omega) hroom hinit rval true hash _

/-- **What is done for a rule advances.** -/
theorem applyRule_advanced (hroom : p < buf.length) (rval : Addr) (hash : Bool) (st : State dbl.Val) (rule : Rule) :
    (applyRule dbl buf unserialize rval p hash st rule).Advanced buf p st := by
  have hfail {q : ℕ} (hlt : p < q) : (Outcome.ret false rval q st).Advanced buf p st :=
    (Reads.of_lt hlt hroom fun _ h => h).advanced false rval
  have hscalar {q : ℕ} (hlt : p < q) (s : Scalar dbl.Val) : Reads buf p st q (st.assign rval (.scalar s)) :=
    .of_lt hlt hroom fun _ h => h.assign rfl rval
  have hisref {q : ℕ} (hlt : p < q) (a : Addr) (isRef : Bool) : Reads buf p st q (st.setIsref a isRef) :=
    .of_lt hlt hroom fun _ h => h.setIsref a isRef
  cases rule with
  | ref iv =>
    simp only [applyRule]
    split
    · exact hfail (by omega)
    · exact hisref (by omega) _ true
  | same iv =>
    simp only [applyRule]
    split
    · exact hfail (by omega)
    · split_ifs
      · exact hfail (by omega)
      · exact hisref (by omega) _ false
  | null | bool iv | long iv | double t => exact hscalar (by omega) _
  | string uiv =>
    simp only [applyRule]
    split_ifs
    · exact hfail (by omega)
    · exact hfail (by omega)
    · exact hscalar (by omega) _
  | escaped uiv =>
    simp only [applyRule]
    split_ifs
    · exact hfail (by omega)
    split
    · exact .of_le le_rfl fun _ h => h
    · split_ifs
      · exact hfail (by omega)
      · exact hscalar (by omega) _
  | array uiv =>
    simp only [applyRule]
    split_ifs
    · exact hfail (by omega)
    · exact nestedData_advanced hu (by omega) hroom (fun _ h => h.assign rfl rval) rval false hash _
  | oldObject iv =>
    exact nestedData_advanced hu (by omega) hroom (fun _ h => h.objectInit rval) rval true hash _
  | object custom uiv => exact unserializeObject_advanced hu hroom custom uiv rval hash st
  | any => exact .of_le le_rfl fun _ h => h

end Step

/-- **The parser advances**, and arrays get no more elements than it advances. -/
theorem phpVarUnserialize_advancing (fuel : ℕ) : Advancing buf (phpVarUnserialize dbl buf fuel) := by
  induction fuel with
  | zero => exact fun _ _ _ _ => trivial
  | succ fuel ih =>
    intro rval p hash st
    rw [phpVarUnserialize]
    by_cases hp : buf.length ≤ p
    · rw [if_pos hp]
      exact .of_le le_rfl fun _ h => h
    · rw [if_neg hp]
      refine (applyRule_advanced ih (Nat.lt_of_not_le hp) rval hash _ _).before fun n h => ?_
      split_ifs <;> exact h

end Progress

/-! ### Values that come back -/

section Within

variable {D : Type} {heap : Heap D} {n : ℕ}

mutual

/-- A value in memory that has no large array is small. -/
theorem Data.HeldAt.small {v : Data D} {a : Addr} (hv : v.HeldAt heap a) (hheap : heap.Within n) (hn : n < 2 ^ 31) :
    v.Small := by
  match v with
  | .scalar s => exact trivial
  | .table false elements =>
    obtain ⟨ht, ha, hels⟩ := hv
    have hlen : ht.length ≤ n := hheap _ (List.mem_iff_getElem?.mpr ⟨a, ha⟩)
    rw [hels.length] at hlen
    exact ⟨hlen.trans_lt hn, Elements.HeldIn.small hels hheap hn⟩

/-- The same for elements. -/
theorem Elements.HeldIn.small {elements : Elements D} {ht : List (ArrayKey × Addr)} (hels : elements.HeldIn heap ht)
    (hheap : heap.Within n) (hn : n < 2 ^ 31) : elements.Small := by
  match elements with
  | .nil => exact trivial
  | .cons key data rest =>
    obtain ⟨a, ht', rfl, hdata, hrest⟩ := hels
    exact ⟨Data.HeldAt.small hdata hheap hn, Elements.HeldIn.small hrest hheap hn⟩

end

end Within

end PhpSandbox.Var
