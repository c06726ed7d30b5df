import PhpSandbox.Var.Unserialize

/-!
# `unserialize` of `serialize`

What comes back of a value that has no references and no objects in it.

## The model

A value is a tree: `Data` without back references. `Data.HeldAt` says that a variable in
memory holds it; variables may be shared, as long as none is a reference.
`Data.IsValue` are the trees that there can be: numbers are `long`s, lengths of strings
are `int`s and numbers of elements are `uint`s, and the keys of an array are different
from each other and are what `zend_symtable_update` makes of them.

## What is proved

The serializer prints the tree (`phpVarSerializeIntern_heldAt`). The unserializer builds
it again, if every array in it has fewer than `2 ^ 31` elements; otherwise the number of
elements is printed as a negative `int`, and the unserializer fails
(`phpVarUnserialize_large`). Together this is `unserialize_phpVarSerialize_iff`.
-/

namespace PhpSandbox.Var

open Lib Zend State Data List Option

section Values

variable {D : Type}

/-- The keys of elements, in their order. -/
def Elements.keys : Elements D → List ArrayKey
  | .nil => []
  | .cons key _ rest => key :: rest.keys

mutual

/-- The values without references and objects. -/
def Data.IsValue : Data D → Prop
  | .scalar s => s.Fits
  | .table isObject elements =>
    isObject = false ∧ elements.length < 2 ^ 32 ∧ elements.keys.Nodup ∧ elements.AreValues
  | .back _ _ => False

/-- The same for elements. -/
def Elements.AreValues : Elements D → Prop
  | .nil => True
  | .cons key data rest => KeyFits key ∧ storedKey false key = key ∧ data.IsValue ∧ rest.AreValues

end

mutual

/-- A variable holds a value. -/
def Data.HeldAt (heap : Heap D) : Data D → Addr → Prop
  | .scalar s, a => heap.zvals[a]? = some ⟨false, .scalar s⟩
  | .table false elements, a => ∃ ht, heap.zvals[a]? = some ⟨false, .array ht⟩ ∧ elements.HeldIn heap ht
  | _, _ => False

/-- The slots of an array hold elements. -/
def Elements.HeldIn (heap : Heap D) : Elements D → List (ArrayKey × Addr) → Prop
  | .nil, ht => ht = []
  | .cons key data rest, ht => ∃ a ht', ht = (key, a) :: ht' ∧ data.HeldAt heap a ∧ rest.HeldIn heap ht'

end

mutual

/-- Every array has fewer than `2 ^ 31` elements. -/
def Data.Small : Data D → Prop
  | .table _ elements => elements.length < 2 ^ 31 ∧ elements.Small
  | _ => True

/-- The same for elements. -/
def Elements.Small : Elements D → Prop
  | .nil => True
  | .cons _ data rest => data.Small ∧ rest.Small

end

mutual

theorem Data.fits_iff_small (v : Data D) (hv : v.IsValue) : v.Fits ↔ v.Small := by
  match v with
  | .scalar s => exact iff_of_true hv trivial
  | .table isObject elements => exact and_congr_right fun _ => elements.fits_iff_small hv.2.2.2
  | .back _ _ => exact hv.elim

theorem Elements.fits_iff_small (elements : Elements D) (hels : elements.AreValues) :
    elements.Fits ↔ elements.Small := by
  match elements with
  | .nil => exact Iff.rfl
  | .cons key data rest =>
    obtain ⟨hkey, -, hdata, hrest⟩ := hels
    exact (and_iff_right hkey).trans (and_congr (data.fits_iff_small hdata) (rest.fits_iff_small hrest))

end

theorem Elements.HeldIn.length {heap : Heap D} {elements : Elements D} {ht : List (ArrayKey × Addr)}
    (h : elements.HeldIn heap ht) : ht.length = elements.length := by
  match elements with
  | .nil =>
    rw [Elements.HeldIn] at h
    rw [h, Elements.length, length_nil]
  | .cons key data rest =>
    obtain ⟨a, ht', rfl, -, hrest⟩ := h
    rw [length_cons, Elements.HeldIn.length hrest, Elements.length]

mutual

/-- A variable holds no more than one value. -/
theorem Data.HeldAt.unique {heap : Heap D} {v w : Data D} {a : Addr} (hv : v.HeldAt heap a) (hw : w.HeldAt heap a) :
    v = w := by
  match v, w with
  | .scalar s, .scalar t =>
    cases Eq.trans (Eq.symm hv) hw
    rfl
  | .table false elements, .table false elements' =>
    obtain ⟨ht, h, hels⟩ := hv
    obtain ⟨ht', h', hels'⟩ := hw
    cases h.symm.trans h'
    rw [Elements.HeldIn.unique hels hels']
  | .scalar s, .table false elements' =>
    obtain ⟨ht', h', -⟩ := hw
    cases Eq.trans (Eq.symm hv) h'
  | .table false elements, .scalar t =>
    obtain ⟨ht, h, -⟩ := hv
    cases h.symm.trans hw

theorem Elements.HeldIn.unique {heap : Heap D} {elements elements' : Elements D} {ht : List (ArrayKey × Addr)}
    (h : elements.HeldIn heap ht) (h' : elements'.HeldIn heap ht) : elements = elements' := by
  match elements, elements' with
  | .nil, .nil => rfl
  | .nil, .cons key data rest =>
    obtain ⟨a, ht', heq, -, -⟩ := h'
    cases Eq.trans (Eq.symm h) heq
  | .cons key data rest, .nil =>
    obtain ⟨a, ht', heq, -, -⟩ := h
    cases Eq.trans (Eq.symm heq) h'
  | .cons key data rest, .cons key' data' rest' =>
    obtain ⟨a, ht', rfl, hdata, hrest⟩ := h
    obtain ⟨a', ht'', heq, hdata', hrest'⟩ := h'
    cases heq
    rw [Data.HeldAt.unique hdata hdata', Elements.HeldIn.unique hrest hrest']

end

end Values

/-! ### What is printed -/

section Printed

variable {dbl : Doubles} {heap : Heap dbl.Val}

/-- The arrays that are being gone through are not smaller than a value. -/
def Around (heap : Heap dbl.Val) (active : List Addr) (depth : ℕ) : Prop :=
  ∀ b ∈ active, ∃ w : Data dbl.Val, w.HeldAt heap b ∧ depth ≤ w.depth

variable {active : List Addr} {a : Addr}

theorem Around.not_mem {v : Data dbl.Val} (h : Around heap active (v.depth + 1)) (hv : v.HeldAt heap a) :
    a ∉ active := by
  intro hmem
  obtain ⟨w, hw, hdepth⟩ := h a hmem
  rw [hw.unique hv] at hdepth
  exact Nat.not_succ_le_self _ hdepth

theorem Around.cons {v : Data dbl.Val} (h : Around heap active (v.depth + 1)) (hv : v.HeldAt heap a) :
    Around heap (a :: active) v.depth := by
  intro b hb
  rcases mem_cons.mp hb with rfl | hb
  · exact ⟨v, hv, le_rfl⟩
  · obtain ⟨w, hw, hdepth⟩ := h b hb
    exact ⟨w, hw, Nat.le_of_succ_le hdepth⟩

theorem Around.mono {m n : ℕ} (h : Around heap active n) (hmn : m ≤ n) : Around heap active m := by
  intro b hb
  obtain ⟨w, hw, hdepth⟩ := h b hb
  exact ⟨w, hw, hmn.trans hdepth⟩

/-- There are no back references to what is neither a reference nor an object. -/
theorem backReference_eq_none {D : Type} {z : Zval D} {vh : VarHash} (hz : z.isRef = false) (ho : z.isObject = false) :
    backReference a z vh = none := by
  simp [backReference, hz, ho]

mutual

/-- **The serializer prints a value**, whatever was printed before it. -/
theorem phpVarSerializeIntern_heldAt {v : Data dbl.Val} {a : Addr} (hv : v.HeldAt heap a) {fuel : ℕ}
    (hfuel : v.depth ≤ fuel) {active : List Addr} (hactive : Around heap active v.depth) (vh : VarHash) :
    ∃ vh', phpVarSerializeIntern dbl heap fuel active a vh = some (v.text dbl, vh') := by
  obtain ⟨fuel, rfl⟩ := Nat.exists_eq_add_of_le' (v.one_le_depth.trans hfuel)
  match v with
  | .scalar s =>
    rw [Data.HeldAt] at hv
    have hback : backReference a ⟨false, .scalar s⟩ vh = none := backReference_eq_none rfl rfl
    simp only [phpVarSerializeIntern, hv, hback, text]
    exact ⟨_, rfl⟩
  | .table false elements =>
    obtain ⟨ht, ha, hels⟩ := hv
    have hback : backReference a (⟨false, .array ht⟩ : Zval dbl.Val) vh = none := backReference_eq_none rfl rfl
    simp only [phpVarSerializeIntern, ha, hback, serializeTable, hels.length, text]
    by_cases hlen : 0 < toInt elements.length
    · obtain ⟨vh', hvh⟩ := serializeElements_heldIn hels (Nat.le_of_succ_le_succ hfuel) hactive
        (phpAddVarHash a ⟨false, .array ht⟩ vh)
      exact ⟨vh', by rw [if_pos hlen, if_pos hlen, hvh]⟩
    · exact ⟨_, by rw [if_neg hlen, if_neg hlen, append_nil]⟩

/-- The same for elements. -/
theorem serializeElements_heldIn {elements : Elements dbl.Val} {ht : List (ArrayKey × Addr)}
    (hels : elements.HeldIn heap ht) {fuel : ℕ} (hfuel : elements.depth ≤ fuel) {active : List Addr}
    (hactive : Around heap active (elements.depth + 1)) (vh : VarHash) :
    ∃ vh', serializeElements dbl heap (phpVarSerializeIntern dbl heap fuel) active ht vh =
      some (elements.text dbl, vh') := by
  match elements with
  | .nil =>
    rw [Elements.HeldIn] at hels
    rw [hels]
    exact ⟨vh, by rw [serializeElements, Elements.text]⟩
  | .cons key data rest =>
    obtain ⟨a, ht, rfl, hdata, hrest⟩ := hels
    have hdepth : data.depth ≤ (Elements.cons key data rest).depth ∧ rest.depth ≤ (Elements.cons key data rest).depth :=
      ⟨Nat.le_max_left .., Nat.le_max_right ..⟩
    have haround := hactive.mono (Nat.succ_le_succ hdepth.1)
    obtain ⟨vh1, h1⟩ : ∃ vh1, (if isArray dbl heap a then
        if 1 < active.count a then some (ascii "N;", vh) else phpVarSerializeIntern dbl heap fuel (a :: active) a vh
        else phpVarSerializeIntern dbl heap fuel active a vh) = some (data.text dbl, vh1) := by
      by_cases harr : isArray dbl heap a
      · rw [if_pos harr, count_eq_zero_of_not_mem (haround.not_mem hdata), if_neg (by omega)]
        exact phpVarSerializeIntern_heldAt hdata (hdepth.1.trans hfuel) (haround.cons hdata) vh
      · rw [if_neg harr]
        exact phpVarSerializeIntern_heldAt hdata (hdepth.1.trans hfuel) (haround.mono (Nat.le_succ _)) vh
    obtain ⟨vh2, h2⟩ := serializeElements_heldIn hrest (hdepth.2.trans hfuel)
      (hactive.mono (Nat.succ_le_succ hdepth.2)) vh1
    refine ⟨vh2, ?_⟩
    rw [serializeElements]
    simp only [h1, h2, Elements.text]

end

end Printed

/-! ### What is built -/

section Built

variable {D : Type}

/-- Memory has grown, and is as it was but for one variable. -/
structure Heap.Grew (heap heap' : Heap D) (a : Addr) : Prop where
  length : heap.zvals.length ≤ heap'.zvals.length
  frame : ∀ b < heap.zvals.length, b ≠ a → heap'.zvals[b]? = heap.zvals[b]?

/-- The variables between two addresses are the same. -/
def Heap.Same (heap heap' : Heap D) (lo hi : ℕ) : Prop :=
  ∀ b, lo ≤ b → b < hi → heap'.zvals[b]? = heap.zvals[b]?

variable (st : State D)

/-- The variables after those for a key and for what is stored under it were made. -/
theorem State.zvals_slot (s : Scalar D) :
    (st.alloc.2.assign st.alloc.1 (.scalar s)).alloc.2.heap.zvals =
      st.heap.zvals ++ [⟨false, .scalar s⟩] ++ [⟨false, .scalar .null⟩] := by
  simp [alloc, assign, Heap.alloc, Heap.assign]

theorem State.alloc_slot (s : Scalar D) :
    (st.alloc.2.assign st.alloc.1 (.scalar s)).alloc.1 = st.heap.zvals.length + 1 := by
  simp [alloc, assign, Heap.alloc, Heap.assign]

theorem State.zvals_assign (a : Addr) (content : Content D) :
    (st.assign a content).heap.zvals = st.heap.zvals.set a ⟨false, content⟩ := rfl

theorem State.heap_count (hash : Bool) (a : Addr) : (st.count hash a).heap = st.heap := by
  cases hash <;> rfl

variable {a : Addr}

theorem State.zvals_store {st : State D} {isRef : Bool} {ht : List (ArrayKey × Addr)}
    (h : st.heap.zvals[a]? = some ⟨isRef, .array ht⟩) (key : ArrayKey) (data : Addr) :
    (st.store a key data).heap.zvals = st.heap.zvals.set a ⟨isRef, .array (update ht key data)⟩ := by
  simp only [store, Heap.store, h]

mutual

/-- **A value is built again**, in the variable and in new ones. -/
theorem Data.build_value {v : Data D} (hv : v.IsValue) (rval : ℕ) (st : State D)
    (hrval : rval < st.heap.zvals.length) (hash : Bool) :
    ∃ st', v.build rval hash st = some (rval, st') ∧ st.heap.Grew st'.heap rval ∧
      ∀ heap' : Heap D, heap'.zvals[rval]? = st'.heap.zvals[rval]? →
        st'.heap.Same heap' st.heap.zvals.length st'.heap.zvals.length → v.HeldAt heap' rval := by
  match v with
  | .scalar s =>
    refine ⟨_, by rw [build], ⟨?_, ?_⟩, ?_⟩
    · rw [zvals_assign, length_set, heap_count]
    · intro b hb hne
      rw [zvals_assign, getElem?_set_ne hne.symm, heap_count]
    · intro heap' hat _
      rw [Data.HeldAt, hat, zvals_assign, heap_count, getElem?_set_self hrval]
  | .table isObject elements =>
    obtain ⟨rfl, -, hkeys, hels⟩ := hv
    have hset : ((st.count hash rval).assign rval (.array [])).heap.zvals = st.heap.zvals.set rval
      ⟨false, .array []⟩ := by
      rw [zvals_assign, heap_count]
    have harr : ((st.count hash rval).assign rval (.array [])).heap.zvals[rval]? = some ⟨false, .array []⟩ := by
      rw [hset, getElem?_set_self hrval]
    obtain ⟨st', ht, hbuild, hgrew, hat, hheld⟩ := elements.build_values hels hkeys harr (by simp) hash
    have hlength : ((st.count hash rval).assign rval (.array [])).heap.zvals.length = st.heap.zvals.length := by
      rw [hset, length_set]
    refine ⟨st', by rw [build, hbuild, map_some], ⟨hlength ▸ hgrew.length, ?_⟩, ?_⟩
    · intro b hb hne
      rw [hgrew.frame b (hlength ▸ hb) hne, hset, getElem?_set_ne hne.symm]
    · intro heap' hat' hsame
      exact ⟨ht, hat'.trans hat, hheld heap' (hlength ▸ hsame)⟩

/-- The same for elements, which are put behind those that are there. -/
theorem Elements.build_values {elements : Elements D} (hels : elements.AreValues) (hkeys : elements.keys.Nodup)
    {rval : ℕ} {st : State D} {ht : List (ArrayKey × Addr)} (harr : st.heap.zvals[rval]? = some ⟨false, .array ht⟩)
    (hnew : ∀ key ∈ elements.keys, key ∉ ht.map Prod.fst) (hash : Bool) :
    ∃ st' ht', elements.build rval false hash st = some st' ∧ st.heap.Grew st'.heap rval ∧
      st'.heap.zvals[rval]? = some ⟨false, .array (ht ++ ht')⟩ ∧
      ∀ heap' : Heap D, st'.heap.Same heap' st.heap.zvals.length st'.heap.zvals.length → elements.HeldIn heap' ht' := by
  match elements with
  | .nil =>
    refine ⟨st, [], by rw [Elements.build], ⟨le_rfl, fun _ _ _ => rfl⟩, by rw [append_nil]; exact harr, ?_⟩
    intro heap' _
    rw [Elements.HeldIn]
  | .cons key data rest =>
    obtain ⟨-, hkey, hdata, hrest⟩ := hels
    obtain ⟨hfresh, hkeys⟩ := nodup_cons.mp hkeys
    have hrval : rval < st.heap.zvals.length := (List.getElem?_eq_some_iff.mp harr).1
    have hslot := st.zvals_slot (keyScalar key)
    have hlen : (st.alloc.2.assign st.alloc.1 (.scalar (keyScalar key))).alloc.2.heap.zvals.length =
        st.heap.zvals.length + 2 := by
      rw [hslot]
      simp
    obtain ⟨st1, hbuild1, hgrew1, hheld1⟩ := data.build_value hdata (st.heap.zvals.length + 1)
      (st.alloc.2.assign st.alloc.1 (.scalar (keyScalar key))).alloc.2 (by omega) hash
    have hlen1 := hgrew1.length
    -- the variable of the array is as it was
    have hframe1 : ∀ b < st.heap.zvals.length, st1.heap.zvals[b]? = st.heap.zvals[b]? := by
      intro b hb
      rw [hgrew1.frame b (by omega) (by omega), hslot, append_assoc, getElem?_append_left hb]
    have harr1 : st1.heap.zvals[rval]? = some ⟨false, .array ht⟩ := (hframe1 rval hrval).trans harr
    have hset := zvals_store harr1 key (st.heap.zvals.length + 1)
    rw [update_of_not_mem (hnew key mem_cons_self)] at hset
    have harr2 : (st1.store rval key (st.heap.zvals.length + 1)).heap.zvals[rval]? =
        some ⟨false, .array (ht ++ [(key, st.heap.zvals.length + 1)])⟩ := by
      rw [hset, getElem?_set_self (by omega)]
    have hlen2 : (st1.store rval key (st.heap.zvals.length + 1)).heap.zvals.length = st1.heap.zvals.length := by
      rw [hset, length_set]
    obtain ⟨st', ht', hbuild', hgrew', harr', hheld'⟩ := rest.build_values hrest hkeys harr2
      (not_mem_keys_append hnew hfresh (st.heap.zvals.length + 1)) hash
    have hlen' := hgrew'.length
    have hframe' : ∀ b < st1.heap.zvals.length, b ≠ rval → st'.heap.zvals[b]? = st1.heap.zvals[b]? := by
      intro b hb hne
      rw [hgrew'.frame b (hlen2 ▸ hb) hne, hset, getElem?_set_ne hne.symm]
    refine ⟨st', (key, st.heap.zvals.length + 1) :: ht', ?_, ⟨by omega, ?_⟩, ?_, ?_⟩
    · rw [Elements.build, alloc_slot, hbuild1, bind_some, hkey]
      exact hbuild'
    · intro b hb hne
      rw [hframe' b (by omega) hne, hframe1 b hb]
    · rw [harr', append_assoc, singleton_append]
    · intro heap' hsame
      refine ⟨_, _, rfl, hheld1 heap' ?_ ?_, hheld' heap' ?_⟩
      · rw [hsame _ (by omega) (by omega), hframe' _ (by omega) (by omega)]
      · intro b hlo hhi
        rw [hsame b (by omega) (by omega), hframe' b hhi (by omega)]
      · intro b hlo hhi
        exact hsame b (by omega) hhi

end

end Built

/-! ### Arrays that are too large -/

section Large

variable {dbl : Doubles} {buf : Bytes}

/-- The number of elements of an array that is too large. -/
theorem toInt_of_le {n : ℕ} (h1 : 2 ^ 31 ≤ n) (h2 : n < 2 ^ 32) : toInt n = n - 2 ^ 32 := by
  rw [toInt, Int.bmod_def]
  omega

/-- No rule matches a negative number of elements. -/
theorem scan_negative {n : ℤ} (hn : n < 0) (rest : Bytes) :
    scan (ascii "a:" ++ (printLong n ++ (ascii ":\x7b" ++ rest))) = .any := by
  refine scan_eq_any (r := ⟨ascii "a:", isUiv, ascii ":\x7b", .array⟩) (by simp [patterns]) rfl ?_
  rw [printLong, if_pos hn, token, if_pos (prefix_append _ _), drop_left, cons_append,
    takeWhile_cons_of_pos (by decide)]
  exact if_neg fun h => Bool.false_ne_true h.1

mutual

/-- **The parser fails on an array that is too large**, or on what has one in it. -/
theorem phpVarUnserialize_large {v : Data dbl.Val} (hv : v.IsValue) (hlarge : ¬ v.Small) {fuel p : ℕ} {rest : Bytes}
    (hfuel : v.depth ≤ fuel) (hbuf : buf.drop p = v.text dbl ++ rest) (rval : ℕ) (hash : Bool) (st : State dbl.Val) :
    ∃ q st', phpVarUnserialize dbl buf fuel rval p hash st = .ret false rval q st' := by
  obtain ⟨fuel, rfl⟩ := Nat.exists_eq_add_of_le' (v.one_le_depth.trans hfuel)
  match v with
  | .scalar s => exact absurd trivial hlarge
  | .table isObject elements =>
    obtain ⟨rfl, hlen, -, hels⟩ := hv
    by_cases hsmall : elements.length < 2 ^ 31
    · rw [text_table hsmall] at hbuf
      simp only [append_assoc] at hbuf
      obtain ⟨q, st', h⟩ := processNestedData_large hels (fun h => hlarge ⟨hsmall, h⟩) (Nat.le_of_succ_le_succ hfuel)
        (drop_behind hbuf) rval hash ((st.count hash rval).assign rval (.array []))
      refine ⟨q, st', ?_⟩
      rw [phpVarUnserialize_array hsmall hbuf, nestedData, h]
    · rw [text, toInt_of_le (Nat.le_of_not_lt hsmall) hlen, if_neg (by omega), openText,
        toInt_of_le (Nat.le_of_not_lt hsmall) hlen] at hbuf
      simp only [append_assoc, nil_append] at hbuf
      refine ⟨p, st.count hash rval, ?_⟩
      rw [phpVarUnserialize_counted 97 hbuf rfl (by decide) (scan_negative (by omega) _), applyRule]

/-- The same for elements. -/
theorem processNestedData_large {elements : Elements dbl.Val} (hels : elements.AreValues) (hlarge : ¬ elements.Small)
    {fuel p : ℕ} {rest : Bytes} (hfuel : elements.depth ≤ fuel) (hbuf : buf.drop p = elements.text dbl ++ rest)
    (rval : ℕ) (hash : Bool) (st : State dbl.Val) :
    ∃ q st', processNestedData (phpVarUnserialize dbl buf fuel) buf rval false hash elements.length p st =
      .ret false rval q st' := by
  match elements with
  | .nil => exact absurd trivial hlarge
  | .cons key data els =>
    obtain ⟨hkey, -, hdata, hels⟩ := hels
    have hfuel' : data.depth ≤ fuel ∧ els.depth ≤ fuel := Nat.max_le.mp hfuel
    obtain ⟨fuel, rfl⟩ := Nat.exists_eq_add_of_le' (data.one_le_depth.trans hfuel'.1)
    rw [Elements.text, append_assoc, append_assoc] at hbuf
    rw [Elements.length]
    by_cases hsmall : data.Small
    · obtain ⟨st1, hbuild, -, -⟩ := data.build_value hdata
        (st.alloc.2.assign st.alloc.1 (.scalar (keyScalar key))).alloc.1
        (st.alloc.2.assign st.alloc.1 (.scalar (keyScalar key))).alloc.2
        (by rw [alloc_slot, zvals_slot]; simp) hash
      have hread := phpVarUnserialize_text data ((data.fits_iff_small hdata).mpr hsmall) hfuel'.1
        (drop_behind hbuf) hbuild
      rw [processNestedData_cons hkey hbuf hread]
      exact processNestedData_large hels (fun h => hlarge ⟨hsmall, h⟩) hfuel'.2 (drop_behind (drop_behind hbuf)) ..
    · obtain ⟨q, st1, hread⟩ := phpVarUnserialize_large hdata hsmall hfuel'.1 (drop_behind hbuf)
        (st.alloc.2.assign st.alloc.1 (.scalar (keyScalar key))).alloc.1 hash
        (st.alloc.2.assign st.alloc.1 (.scalar (keyScalar key))).alloc.2
      exact ⟨q, st1, processNestedData_fail hkey hbuf hread els.length⟩

end

end Large

/-! ### The round trip -/

section RoundTrip

/-- **`unserialize` inverts `serialize` just when no array is too large**: on the text of a value it succeeds,
takes all of the text, and leaves the same value. -/
theorem unserialize_phpVarSerialize_iff (dbl : Doubles) (heap : Heap dbl.Val) (a : Addr) (v : Data dbl.Val)
    (hv : v.IsValue) (ha : v.HeldAt heap a) :
    ∃ text, (∀ fuel, v.depth ≤ fuel → phpVarSerialize dbl heap fuel a = some text) ∧
      ((∀ fuel, v.depth ≤ fuel → ∃ st, unserialize dbl text fuel = .ret true 0 text.length st ∧ v.HeldAt st.heap 0) ↔
        v.Small) := by
  have hbuf : (v.text dbl).drop 0 = v.text dbl ++ [] := (append_nil _).symm
  refine ⟨v.text dbl, ?_, ?_, ?_⟩
  · intro fuel hfuel
    obtain ⟨vh, h⟩ := phpVarSerializeIntern_heldAt ha hfuel (forall_mem_nil _) []
    rw [phpVarSerialize, h, map_some]
  · intro h
    by_contra hlarge
    obtain ⟨st, h, -⟩ := h v.depth le_rfl
    obtain ⟨q, st', hfail⟩ := phpVarUnserialize_large hv hlarge le_rfl hbuf 0 true
      ⟨⟨[⟨false, .scalar .null⟩], []⟩, []⟩
    rw [unserialize, hfail] at h
    cases h
  · intro hsmall fuel hfuel
    obtain ⟨st, hbuild, -, hheld⟩ := v.build_value hv 0 ⟨⟨[⟨false, .scalar .null⟩], []⟩, []⟩ (by simp) true
    have h := phpVarUnserialize_text v ((v.fits_iff_small hv).mpr hsmall) hfuel hbuf hbuild
    rw [Nat.zero_add] at h
    exact ⟨st, h, hheld st.heap rfl fun b _ _ => rfl⟩

/-- An array with the smallest number in it twice, once in an array of its own. -/
def nestedHeap : Heap noDoubles.Val where
  zvals := [⟨false, .array [(.index (-2 ^ 63), 1), (.name (ascii "01"), 2)]⟩, ⟨false, .scalar (.long (-2 ^ 63))⟩,
    ⟨false, .array [(.index 0, 1)]⟩]
  objects := []

/-- Its value. -/
def nestedValue : Data noDoubles.Val :=
  .table false (.cons (.index (-2 ^ 63)) (.scalar (.long (-2 ^ 63)))
    (.cons (.name (ascii "01")) (.table false (.cons (.index 0) (.scalar (.long (-2 ^ 63))) .nil)) .nil))

theorem unserialize_phpVarSerialize_nested :
    ∃ text, (∀ fuel, 3 ≤ fuel → phpVarSerialize noDoubles nestedHeap fuel 0 = some text) ∧
      ∀ fuel, 3 ≤ fuel → ∃ st, unserialize noDoubles text fuel = .ret true 0 text.length st ∧
        nestedValue.HeldAt st.heap 0 := by
  have hlong : IsLong (-2 ^ 63) := by decide
  have hinner : (table false (.cons (.index 0) (.scalar (.long (-2 ^ 63))) .nil) : Data noDoubles.Val).IsValue :=
    ⟨rfl, by decide, by decide, by decide, rfl, hlong, trivial⟩
  have hvalue : nestedValue.IsValue :=
    ⟨rfl, by decide, by decide, hlong, rfl, hlong, by decide, by decide, hinner, trivial⟩
  have hheld : nestedValue.HeldAt nestedHeap 0 :=
    ⟨_, rfl, 1, _, rfl, rfl, 2, _, rfl, ⟨_, rfl, 1, _, rfl, rfl, rfl⟩, rfl⟩
  obtain ⟨text, hser, hunser⟩ := unserialize_phpVarSerialize_iff noDoubles nestedHeap 0 nestedValue hvalue hheld
  exact ⟨text, hser, hunser.mpr ⟨by decide, trivial, ⟨by decide, trivial, trivial⟩, trivial⟩⟩

/-- Elements that are all `NULL`, with the keys from `i` on. -/
def nullElements : ℕ → ℕ → Elements noDoubles.Val
  | _, 0 => .nil
  | i, n + 1 => .cons (.index i) (.scalar .null) (nullElements (i + 1) n)

/-- Their slots, with one variable in all of them. -/
def nullSlots : ℕ → ℕ → List (ArrayKey × Addr)
  | _, 0 => []
  | i, n + 1 => (.index i, 1) :: nullSlots (i + 1) n

/-- An array with `n` of them. -/
def nullHeap (n : ℕ) : Heap noDoubles.Val := ⟨[⟨false, .array (nullSlots 0 n)⟩, ⟨false, .scalar .null⟩], []⟩

variable (i n : ℕ)

theorem length_nullElements : (nullElements i n).length = n := by
  induction n generalizing i with
  | zero => rfl
  | succ n ih => rw [nullElements, Elements.length, ih]

theorem depth_nullElements : (nullElements i n).depth ≤ 1 := by
  induction n generalizing i with
  | zero => exact Nat.zero_le 1
  | succ n ih => exact Nat.max_le.mpr ⟨le_rfl, ih (i + 1)⟩

theorem depth_table_nullElements (n : ℕ) : (table false (nullElements 0 n)).depth ≤ 2 :=
  Nat.succ_le_succ (depth_nullElements 0 n)

theorem keys_nullElements : (nullElements i n).keys = (range' i n).map fun j : ℕ => ArrayKey.index j := by
  induction n generalizing i with
  | zero => rfl
  | succ n ih => rw [nullElements, Elements.keys, ih, range'_succ, map_cons]

theorem areValues_nullElements {i n : ℕ} (h : i + n ≤ 2 ^ 63) : (nullElements i n).AreValues := by
  induction n generalizing i with
  | zero => exact trivial
  | succ n ih => exact ⟨⟨by omega, by omega⟩, rfl, trivial, ih (by omega)⟩

theorem heldIn_nullSlots (i m n : ℕ) : (nullElements i n).HeldIn (nullHeap m) (nullSlots i n) := by
  induction n generalizing i with
  | zero => rfl
  | succ n ih => exact ⟨_, _, rfl, rfl, ih (i + 1)⟩

theorem isValue_nullElements {n : ℕ} (hn : n < 2 ^ 32) : (table false (nullElements 0 n)).IsValue := by
  refine ⟨rfl, by rwa [length_nullElements], ?_, areValues_nullElements (by omega)⟩
  rw [keys_nullElements]
  exact List.Nodup.map (fun j k h => by cases h; rfl) nodup_range'

/-- An array of `2 ^ 31` elements is printed as one with a negative number of them, and nothing comes back. -/
theorem unserialize_phpVarSerialize_huge :
    (table false (nullElements 0 (2 ^ 31))).IsValue ∧
      (table false (nullElements 0 (2 ^ 31))).HeldAt (nullHeap (2 ^ 31)) 0 ∧
      (∀ fuel, 2 ≤ fuel → phpVarSerialize noDoubles (nullHeap (2 ^ 31)) fuel 0 =
        some (ascii "a:-2147483648:\x7b\x7d")) ∧
      ∀ fuel, 2 ≤ fuel → unserialize noDoubles (ascii "a:-2147483648:\x7b\x7d") fuel =
        .ret false 0 0 ⟨⟨[⟨false, .scalar .null⟩], []⟩, [0]⟩ := by
  have hheld : (table false (nullElements 0 (2 ^ 31))).HeldAt (nullHeap (2 ^ 31)) 0 :=
    ⟨_, rfl, heldIn_nullSlots 0 (2 ^ 31) (2 ^ 31)⟩
  refine ⟨isValue_nullElements (by decide), hheld, ?_, ?_⟩
  · intro fuel hfuel
    have hdepth : (table false (nullElements 0 (2 ^ 31))).depth ≤ fuel :=
      (depth_table_nullElements (2 ^ 31)).trans hfuel
    have htext : (table false (nullElements 0 (2 ^ 31))).text noDoubles = ascii "a:-2147483648:\x7b\x7d" := by
      rw [text, length_nullElements, if_neg (by decide)]
      decide +kernel
    obtain ⟨vh, h⟩ := phpVarSerializeIntern_heldAt hheld hdepth (forall_mem_nil _) []
    rw [phpVarSerialize, h, map_some, htext]
  · intro fuel hfuel
    obtain ⟨fuel, rfl⟩ := Nat.exists_eq_add_of_le' hfuel
    rfl

end RoundTrip

end PhpSandbox.Var
