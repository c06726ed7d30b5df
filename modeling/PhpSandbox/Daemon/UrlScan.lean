import PhpSandbox.Daemon.UrlAllow

/-!
# The allow-list scan, read by read

`is_url_allowed` (`ext/daemon/daemon.c`) works on a copy of `daemon.allowed_hosts`
with a cursor: it puts a NUL over the comma behind an entry, looks the entry up in
the URL, walks backwards from the match, and moves the cursor behind the comma.

## The model

An object in memory is the list of its bytes, and every access to one is checked: it
gives `none` outside the object, which is a `Fault`. A C string at a position goes
up to the next NUL of its object. Positions before the match are the natural numbers
below it, and the walk is a recursion on them.

## What is proved

`urlScan_eq`: the scan gives what `isUrlAllowed` says of the two texts.
`urlScan_inside_iff`: so it comes to an answer with every access inside the objects
just when it meets an accepted entry, with none before it that makes the walk read
`url[-1]`. It never answers `false`: with no match it runs past the copy.
-/

namespace PhpSandbox.Daemon

open Lib List

/-! ### Objects -/

/-- A C string as an object: its bytes and a NUL. -/
def cObject (s : Bytes) : Bytes := s ++ [0]

variable (obj : Bytes)

/-- `strchrnul(obj + pos, c)`: the position of the first `c` or NUL. -/
def strchrnul (c : UInt8) (pos : ℕ) : Option ℕ :=
  ((obj.drop pos).findIdx? fun b => b == c || b == 0).map (pos + ·)

/-- The C string at a position. -/
def cStringAt (pos : ℕ) : Option Bytes := (cut 0 (obj.drop pos)).map Prod.fst

/-- The write of a byte. -/
def store (pos : ℕ) (b : UInt8) : Option Bytes :=
  if pos < obj.length then some (obj.set pos b) else none

/-! ### The walk

Each part gives `true` for `return true`, `false` for `goto next`, and nothing for an access
outside the URL. -/

variable (url : Bytes)

/-- The byte before a position; there is none before the start of the object. -/
def byteBefore : ℕ → Option UInt8
  | 0 => none
  | m + 1 => url[m]?

/-- `while (--match >= url) if (! ISLETTER(*match)) goto next;`, then `return true`. -/
def schemeLetters (url : Bytes) : ℕ → Option Bool
  | 0 => some true
  | m + 1 =>
    match url[m]? with
    | none => none
    | some c => if !isLetter c then some false else schemeLetters url m

/-- From label `scheme`, with `match` at a slash. -/
def schemeAt (slash : ℕ) : Option Bool :=
  match byteBefore url slash with
  | none => none
  | some c =>
    if c ≠ 47 then some false
    else
      match byteBefore url (slash - 1) with
      | none => none
      | some d => if d ≠ 58 then some false else schemeLetters url (slash - 2)

/-- `while (--match >= url)`, after a `.` before the match. -/
def hostAt (url : Bytes) : ℕ → Option Bool
  | 0 => some true
  | m + 1 =>
    match url[m]? with
    | none => none
    | some c =>
      if c = 47 then schemeAt url m
      else if !isHostChar c && c ≠ 46 then some false
      else hostAt url m

/-- The check of a match at a position. -/
def matchAt : ℕ → Option Bool
  | 0 => some true
  | m + 1 =>
    match url[m]? with
    | none => none
    | some c =>
      if c = 47 then schemeAt url m
      else if c ≠ 46 then some false
      else hostAt url m

/-! ### The loop -/

theorem strchrnul_lt {obj : Bytes} {c : UInt8} {pos comma : ℕ} (h : strchrnul obj c pos = some comma) :
    pos ≤ comma ∧ comma < obj.length := by
  obtain ⟨i, hi, rfl⟩ := Option.map_eq_some_iff.mp h
  have hlt := (findIdx?_eq_some_iff_getElem.mp hi).1
  rw [length_drop] at hlt
  omega

theorem length_of_store {obj obj' : Bytes} {pos : ℕ} {b : UInt8} (h : store obj pos b = some obj') :
    obj'.length = obj.length := by
  unfold store at h
  split_ifs at h
  cases h
  exact length_set

/-- The loop of `is_url_allowed` from a cursor on; `obj` is the copy of the list, and `url` the
object of the URL. -/
def urlScan (url obj : Bytes) (cursor : ℕ) : Except Fault Bool :=
  match _hcomma : strchrnul obj 44 cursor with
  | none => .error .pastAllowedHosts
  | some comma =>
    match _hstore : store obj comma 0 with
    | none => .error .pastAllowedHosts
    | some obj' =>
      match cStringAt obj' cursor, cStringAt url 0 with
      | some entry, some hay =>
        match strstr entry hay with
        | none => urlScan url obj' (comma + 1)
        | some k =>
          match matchAt url k with
          | none => .error .beforeUrl
          | some true => .ok true
          | some false => urlScan url obj' (comma + 1)
      | _, _ => .error .pastAllowedHosts
termination_by obj.length - cursor
decreasing_by
  all_goals
    have hlt := strchrnul_lt _hcomma
    have hlen := length_of_store _hstore
    omega

/-! ### The walk and the text before the match -/

/-- What a verdict is as the answer of the walk. -/
def Verdict.answer : Verdict → Option Bool
  | .accept => some true
  | .next => some false
  | .fault => none

section Walk

variable {url : Bytes} {m : ℕ} (h : m < url.length)

theorem getElem?_cObject : (cObject url)[m]? = some url[m] := by
  rw [cObject, getElem?_append_left h, getElem?_eq_getElem h]

theorem byteBefore_cObject : byteBefore (cObject url) (m + 1) = some url[m] := getElem?_cObject h

/-- The text before a position, nearest byte first. -/
theorem reverse_take_succ : (url.take (m + 1)).reverse = url[m] :: (url.take m).reverse := by
  rw [take_succ_eq_append_getElem h, reverse_append]
  rfl

theorem schemeLetters_eq (h : m ≤ url.length) :
    schemeLetters (cObject url) m = some ((url.take m).reverse.all isLetter) := by
  induction m with
  | zero => rfl
  | succ m ih =>
    rw [schemeLetters, getElem?_cObject h, reverse_take_succ h, all_cons]
    cases hc : isLetter url[m] with
    | false => simp [hc]
    | true => simp [hc, ih (Nat.le_of_lt h)]

theorem schemeAt_eq (h : m ≤ url.length) : schemeAt (cObject url) m = (schemeScan (url.take m).reverse).answer := by
  match m, h with
  | 0, _ => rfl
  | 1, h =>
    rw [schemeAt, byteBefore_cObject h, reverse_take_succ h, take_zero, reverse_nil, schemeScan]
    simp only [Nat.sub_self, byteBefore]
    split_ifs <;> rfl
  | m + 2, h =>
    have h' : m < url.length := Nat.lt_of_succ_lt h
    rw [schemeAt, byteBefore_cObject h, reverse_take_succ h, reverse_take_succ h', schemeScan]
    simp only [Nat.add_one_sub_one, byteBefore_cObject h', Nat.add_sub_cancel, schemeLetters_eq (Nat.le_of_lt h')]
    split_ifs <;> simp_all [Verdict.answer]

theorem hostAt_eq (h : m ≤ url.length) : hostAt (cObject url) m = (backScan (url.take m).reverse).answer := by
  induction m with
  | zero => rfl
  | succ m ih =>
    rw [hostAt, getElem?_cObject h, reverse_take_succ h, backScan]
    simp only [schemeAt_eq (Nat.le_of_lt h), ih (Nat.le_of_lt h)]
    split_ifs <;> rfl

theorem matchAt_eq {entry : Bytes} {k : ℕ} (hk : strstr entry url = some k) :
    matchAt (cObject url) k = (entryVerdict url entry).answer := by
  have hle : k ≤ url.length := (strstr_eq_some_iff.mp hk).1
  rw [entryVerdict, hk]
  cases k with
  | zero => rfl
  | succ m =>
    simp only [matchAt, getElem?_cObject hle, reverse_take_succ hle, schemeAt_eq (Nat.le_of_lt hle),
      hostAt_eq (Nat.le_of_lt hle)]
    split_ifs <;> rfl

end Walk

/-! ### The loop and the entries -/

section Loop

variable {url obj e tail : Bytes} {cursor : ℕ} {b : UInt8}

theorem cStringAt_eq {s t : Bytes} (h : obj.drop cursor = s ++ 0 :: t) (hs : 0 ∉ s) :
    cStringAt obj cursor = some s := by
  rw [cStringAt, h, cut_append hs, Option.map_some]

/-- An entry ends at the first comma or NUL. -/
theorem strchrnul_eq (h : obj.drop cursor = e ++ b :: tail) (he : 44 ∉ e ∧ 0 ∉ e) (hb : b = 44 ∨ b = 0) :
    strchrnul obj 44 cursor = some (cursor + e.length) := by
  have hfirst : (e.findIdx? fun c => c == 44 || c == 0) = none := by
    rw [findIdx?_eq_none_iff]
    intro c hc
    have h44 : c ≠ 44 := fun h => he.1 (h ▸ hc)
    have h0 : c ≠ 0 := fun h => he.2 (h ▸ hc)
    simp [h44, h0]
  have hlast : (b == 44 || b == 0) = true := by simpa using hb
  rw [strchrnul, h, findIdx?_append, hfirst, findIdx?_cons, hlast]
  simp

/-- The NUL over the comma ends the entry, and leaves what is behind it. -/
theorem store_comma (h : obj.drop cursor = e ++ b :: tail) :
    ∃ obj', store obj (cursor + e.length) 0 = some obj' ∧ obj'.drop cursor = e ++ 0 :: tail ∧
      obj'.drop (cursor + e.length + 1) = tail := by
  obtain ⟨front, rfl, hobj⟩ : ∃ front : Bytes, front.length = cursor ∧ obj = front ++ (e ++ b :: tail) := by
    refine ⟨obj.take cursor, ?_, by rw [← h, take_append_drop]⟩
    have hlen := congrArg List.length h
    rw [length_drop, length_append, length_cons] at hlen
    rw [length_take]
    omega
  have hset : obj.set (front.length + e.length) 0 = front ++ (e ++ 0 :: tail) := by
    rw [hobj, set_append_right _ _ (Nat.le_add_right ..), set_append_right _ _ (by omega)]
    simp
  have hin : front.length + e.length < obj.length := by
    rw [hobj]
    simp
  refine ⟨obj.set (front.length + e.length) 0, if_pos hin, ?_, ?_⟩
  · rw [hset, drop_left]
  · rw [hset, ← append_assoc, ← length_append, ← drop_drop, drop_left]
    rfl

/-- **One entry**: it is looked up, and the cursor moves behind it if it is not accepted. -/
theorem urlScan_entry (hurl : 0 ∉ url) (h : obj.drop cursor = e ++ b :: tail) (he : 44 ∉ e ∧ 0 ∉ e)
    (hb : b = 44 ∨ b = 0) :
    ∃ obj', obj'.drop (cursor + e.length + 1) = tail ∧ urlScan (cObject url) obj cursor =
      match entryVerdict url e with
      | .accept => .ok true
      | .next => urlScan (cObject url) obj' (cursor + e.length + 1)
      | .fault => .error .beforeUrl := by
  obtain ⟨obj', hstore, hentry, htail⟩ := store_comma h
  refine ⟨obj', htail, ?_⟩
  have hhay : cStringAt (cObject url) 0 = some url := cStringAt_eq (t := []) rfl hurl
  rw [urlScan]
  split
  · next hnone => simp [strchrnul_eq h he hb] at hnone
  next comma hcomma =>
  obtain rfl : cursor + e.length = comma := Option.some.inj ((strchrnul_eq h he hb).symm.trans hcomma)
  split
  · next hnone => simp [hstore] at hnone
  next obj'' hstore' =>
  obtain rfl : obj' = obj'' := Option.some.inj (hstore.symm.trans hstore')
  rw [cStringAt_eq hentry he.2, hhay]
  simp only
  cases hk : strstr e url with
  | none => simp [entryVerdict, hk]
  | some k =>
    simp only [matchAt_eq hk]
    cases entryVerdict url e <;> rfl

/-- Behind the copy there is nothing to read. -/
theorem urlScan_end (h : obj.drop cursor = []) : urlScan url obj cursor = .error .pastAllowedHosts := by
  have hnone : strchrnul obj 44 cursor = none := by
    rw [strchrnul, h]
    rfl
  rw [urlScan]
  split
  · rfl
  · next hsome => simp [hnone] at hsome

/-- The loop goes through the entries of what is behind the cursor. -/
theorem urlScan_eq_scanEntries (hurl : 0 ∉ url) {rest : Bytes} (hrest : 0 ∉ rest) (h : obj.drop cursor = cObject rest) :
    urlScan (cObject url) obj cursor = scanEntries url (rest.splitOn 44) := by
  induction hlen : rest.length using Nat.strong_induction_on generalizing rest obj cursor with
  | _ n ih =>
    rcases exists_first_separator 44 rest with hsep | ⟨e, t, he, rfl⟩
    · -- the last entry
      obtain ⟨obj', htail, hstep⟩ := urlScan_entry hurl h ⟨hsep, hrest⟩ (.inr rfl)
      rw [hstep, splitOn_eq_singleton hsep, scanEntries]
      cases entryVerdict url rest
      · rfl
      · exact urlScan_end htail
      · rfl
    · have h' : obj.drop cursor = e ++ 44 :: (cObject t) := by
        rw [h]
        simp [cObject]
      have he0 : 0 ∉ e := fun hmem => hrest (mem_append_left _ hmem)
      have ht0 : 0 ∉ t := fun hmem => hrest (mem_append_right _ (mem_cons_of_mem _ hmem))
      obtain ⟨obj', htail, hstep⟩ := urlScan_entry hurl h' ⟨he, he0⟩ (.inl rfl)
      have hlt : t.length < n := by
        rw [← hlen, length_append, length_cons]
        omega
      rw [hstep, splitOn_append_cons_self_of_not_mem he, scanEntries]
      cases entryVerdict url e
      · rfl
      · exact ih t.length hlt ht0 htail rfl
      · rfl

end Loop

/-- **The scan of the memory** gives what the texts say. -/
theorem urlScan_eq {allowedHosts url : Bytes} (hlist : 0 ∉ allowedHosts) (hurl : 0 ∉ url) :
    urlScan (cObject url) (cObject allowedHosts) 0 = isUrlAllowed allowedHosts url :=
  urlScan_eq_scanEntries hurl hlist rfl

/-- The scan never answers `false`. -/
theorem scanEntries_ne_false (es : List Bytes) : scanEntries url es ≠ .ok false := by
  intro h
  induction es with
  | nil => cases h
  | cons e es ih =>
    rw [scanEntries] at h
    cases hverdict : entryVerdict url e <;> rw [hverdict] at h
    · cases h
    · exact ih h
    · cases h

/-- **When the scan stays inside its objects**: it comes to an answer, `false` if no entry matches,
just when some entry is accepted and all before it are passed over. -/
theorem urlScan_inside_iff (allowedHosts url : Bytes) (hlist : 0 ∉ allowedHosts) (hurl : 0 ∉ url) :
    (∃ allowed, urlScan (cObject url) (cObject allowedHosts) 0 = .ok allowed ∧
        ((∀ e ∈ allowedHosts.splitOn 44, ¬ ScanAccepts url e) → allowed = false)) ↔
      ∃ es₁ e es₂, allowedHosts.splitOn 44 = es₁ ++ e :: es₂ ∧ (∀ e' ∈ es₁, ScanSkips url e') ∧ ScanAccepts url e := by
  rw [urlScan_eq hlist hurl]
  constructor
  · rintro ⟨allowed, h, -⟩
    cases allowed with
    | false => exact absurd h (scanEntries_ne_false url _)
    | true => exact (scanEntries_eq_true_iff url _).mp h
  · intro h
    refine ⟨true, (scanEntries_eq_true_iff url _).mpr h, fun hnone => ?_⟩
    obtain ⟨es₁, e, es₂, heq, -, hacc⟩ := h
    exact absurd hacc (hnone e (by simp [heq]))

/-- The second entry of a list is met. -/
theorem urlScan_inside_second :
    ∃ allowed, urlScan (cObject (ascii "http://b.org/")) (cObject (ascii "a.com,b.org")) 0 = .ok allowed ∧
      ((∀ e ∈ (ascii "a.com,b.org").splitOn 44, ¬ ScanAccepts (ascii "http://b.org/") e) → allowed = false) :=
  (urlScan_inside_iff (ascii "a.com,b.org") (ascii "http://b.org/") (by decide) (by decide)).mpr
    ⟨[ascii "a.com"], ascii "b.org", [], by decide,
      forall_mem_singleton.mpr ((entryVerdict_eq_next_iff _ _).mp (by decide)),
      (entryVerdict_eq_accept_iff _ _).mp (by decide)⟩

/-- Without a match the loop reads behind the copy of the list, and a match behind a first slash
makes the walk read before the URL. -/
theorem urlScan_leaves_objects :
    urlScan (cObject (ascii "http://b.org/")) (cObject (ascii "a.com")) 0 = .error .pastAllowedHosts ∧
      urlScan (cObject (ascii "/a.com")) (cObject (ascii "a.com")) 0 = .error .beforeUrl := by
  rw [urlScan_eq (by decide) (by decide), urlScan_eq (by decide) (by decide)]
  decide

end PhpSandbox.Daemon
