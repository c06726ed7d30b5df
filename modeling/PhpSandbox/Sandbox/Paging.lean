import PhpSandbox.Sandbox.Query

/-!
# Rows of a long result

`do_buffered_get_next_row` (`ext/sandbox/sandbox.c`) reads the result of a query page by
page, with `LIMIT`, and keeps the page and its place in static variables.
`init_buffered_get_next_row` begins with another query, at any time.

## The model

The static variables are a state (`Statics`). A result is what is left of its rows, and
`mysql_free_result` has no effect. `server` is what `do_mysql_query` makes of a statement
on a connection: the rows of the result, or nothing if it fails. A call can end in a
`Fault`: the statement does not fit the buffer of `new_sprintf`, or a row is read from
`NULL`.

## What is proved

`Reads` is what the static variables have to do with the rows of the query, and
`reads_step` says what one call makes of it. `readAll_eq_iff`: after
`init_buffered_get_next_row`, from any state, the calls return the rows one after the
other and then `NULL`, if and only if the statement for what follows the last row fits
its buffer.
-/

namespace PhpSandbox.Sandbox.Paging

open Lib Sandbox List

/-- `BUFFER_SIZE`. -/
def bufferSize : ℕ := 65536

/-- How a call can go wrong. -/
inductive Fault where
  /-- `new_sprintf` writes past its buffer. -/
  | overflow (e : Overflow)
  /-- `mysql_fetch_row` from `NULL`. -/
  | nullResult
  deriving DecidableEq

section Model

variable {σ ρ : Type}

/-- The static variables. -/
structure Statics (σ ρ : Type) where
  buffered : UInt32
  start : UInt32
  query : Option Bytes
  sock : Option σ
  /-- `res`, as the rows that are left of it. -/
  res : Option (List ρ)

/-- The text of a `char*` for `%s`. -/
def textOf (s : Option Bytes) : Bytes := s.getD (ascii "(null)")

/-- `full_query`. `start` is printed as an `int`. -/
def fullQuery (query : Option Bytes) (start : UInt32) : Except Overflow Bytes :=
  newSprintf (textOf query ++ ascii " LIMIT " ++ ltostr ((start.toNat : ℤ).bmod (2 ^ 32)) ++ ascii "," ++
    ltostr bufferSize)

/-- What is returned, and the static variables then: `NULL`, or the result with the row in `*row`. -/
abbrev Returned (σ ρ : Type) := Except Fault (Option (Option ρ) × Statics σ ρ)

/-- The end of a call: a row of the page. -/
def fetchRow (s : Statics σ ρ) : Returned σ ρ :=
  match s.res with
  | none => .error .nullResult
  | some rows => .ok (some rows.head?, { s with buffered := s.buffered - 1, res := some rows.tail })

variable (server : Option σ → Bytes → Option (List ρ))

/-- `do_buffered_get_next_row`. -/
def doBufferedGetNextRow (newSock : Option σ) (newQuery : Option Bytes) (s : Statics σ ρ) : Returned σ ρ :=
  match newQuery with
  | some query => .ok (none, { s with buffered := 0, start := 0, sock := newSock, query := some query })
  | none =>
    if s.buffered = 0 then
      match fullQuery s.query s.start with
      | .error e => .error (.overflow e)
      | .ok text =>
        match server s.sock text with
        | none => .ok (none, { s with res := none })
        | some rows =>
          if UInt32.ofNat rows.length = 0 then .ok (none, { s with buffered := 0, res := some rows })
          else fetchRow { s with
            buffered := UInt32.ofNat rows.length
            start := s.start + UInt32.ofNat rows.length
            res := some rows }
    else fetchRow s

/-- `init_buffered_get_next_row`. -/
def initBufferedGetNextRow (sock : Option σ) (query : Bytes)
    (s : Statics σ ρ) : Returned σ ρ := doBufferedGetNextRow server sock (some query) s

/-- `buffered_get_next_row`. -/
def bufferedGetNextRow (s : Statics σ ρ) : Returned σ ρ :=
  doBufferedGetNextRow server none none s

/-- What that many calls of `buffered_get_next_row` return, one after the other. -/
def calls (server : Option σ → Bytes → Option (List ρ)) (s : Statics σ ρ) :
    ℕ → Except Fault (List (Option (Option ρ)) × Statics σ ρ)
  | 0 => .ok ([], s)
  | k + 1 => do
    let (rs, s) ← calls server s k
    let (r, s) ← bufferedGetNextRow server s
    return (rs ++ [r], s)

/-- `init_buffered_get_next_row`, and then that many calls. -/
def readAll (sock : Option σ) (query : Bytes) (s : Statics σ ρ)
    (k : ℕ) : Except Fault (List (Option (Option ρ))) := do
  let (_, s) ← initBufferedGetNextRow server sock query s
  let (rs, _) ← calls server s k
  return rs

end Model

/-! ### The statement -/

/-- The text of the statement for the rows from this one on. -/
def limitText (query : Bytes) (start : ℕ) : Bytes :=
  query ++ ascii " LIMIT " ++ decimal start ++ ascii ",65536"

theorem fullQuery_eq {query : Bytes} {start : UInt32} (h : start.toNat < 2 ^ 31) :
    fullQuery (some query) start = newSprintf (limitText query start.toNat) := by
  have hmod : (start.toNat : ℤ).bmod (2 ^ 32) = start.toNat := Int.bmod_eq_of_le (by omega) (by omega)
  have hsize : ascii "," ++ ltostr bufferSize = ascii ",65536" := by decide
  rw [fullQuery, hmod, ltostr_natCast, limitText, append_assoc _ (ascii ","), hsize]
  rfl

/-- A statement for earlier rows is not longer. -/
theorem fits_limitText_mono {query : Bytes} {m n : ℕ} (hmn : m ≤ n) (h : Fits (limitText query n)) :
    Fits (limitText query m) := by
  have hlen := length_decimal_mono hmn
  unfold Fits limitText at *
  simp only [length_append] at *
  omega

/-! ### Reading the rows -/

section Reads

variable {σ ρ : Type} {server : Option σ → Bytes → Option (List ρ)} {sock : Option σ} {query : Bytes} {rows : List ρ}

/-- The server has this result for the query, in a fixed order: `LIMIT o,c` gives the rows from `o` on, and no
more than `c`. -/
def Serves (server : Option σ → Bytes → Option (List ρ)) (sock : Option σ) (query : Bytes) (rows : List ρ) : Prop :=
  ∀ o, server sock (limitText query o) = some ((rows.drop o).take bufferSize)

/-- `d` rows have been read: the page holds the rows that follow, up to `start`. -/
structure Reads (sock : Option σ) (query : Bytes) (rows : List ρ) (d : ℕ) (s : Statics σ ρ) : Prop where
  query_eq : s.query = some query
  sock_eq : s.sock = sock
  start_eq : s.start.toNat = d + s.buffered.toNat
  start_le : s.start.toNat ≤ rows.length
  res_eq : s.buffered ≠ 0 → s.res = some ((rows.drop d).take s.buffered.toNat)

variable {d : ℕ} {s : Statics σ ρ}

theorem buffered_toNat_pos (hne : s.buffered ≠ 0) : 0 < s.buffered.toNat := by
  rw [Nat.pos_iff_ne_zero, ← UInt32.toNat_zero, Ne, UInt32.toNat_inj]
  exact hne

/-- A row of the page. -/
theorem fetchRow_eq (h : Reads sock query rows d s) (hne : s.buffered ≠ 0) :
    ∃ s', fetchRow s = .ok (rows[d]?.map some, s') ∧ Reads sock query rows (min (d + 1) rows.length) s' := by
  have hpos := buffered_toNat_pos hne
  have hstart := h.start_eq
  have hle := h.start_le
  have hd : d < rows.length := by omega
  have hpage : (rows.drop d).take s.buffered.toNat = rows[d] :: (rows.drop (d + 1)).take (s.buffered.toNat - 1) := by
    rw [drop_eq_getElem_cons hd, take_cons hpos]
  have hres : s.res = some (rows[d] :: (rows.drop (d + 1)).take (s.buffered.toNat - 1)) := by
    rw [h.res_eq hne, hpage]
  have hpred : (s.buffered - 1).toNat = s.buffered.toNat - 1 :=
    UInt32.toNat_sub_of_le _ _ (UInt32.le_iff_toNat_le.mpr hpos)
  refine ⟨{ s with buffered := s.buffered - 1, res := some ((rows.drop (d + 1)).take (s.buffered.toNat - 1)) }, ?_, ?_⟩
  · rw [fetchRow, hres, getElem?_eq_getElem hd]
    rfl
  · rw [Nat.min_eq_left hd]
    constructor
    · exact h.query_eq
    · exact h.sock_eq
    · show s.start.toNat = d + 1 + (s.buffered - 1).toNat
      omega
    · exact hle
    · intro _
      rw [hpred]

/-- The variables after a page was fetched. -/
def Statics.fetched (s : Statics σ ρ) (page : List ρ) : Statics σ ρ :=
  { s with
    buffered := UInt32.ofNat page.length
    start := s.start + UInt32.ofNat page.length
    res := some page }

theorem toNat_length_page (rows : List ρ) (d : ℕ) :
    (UInt32.ofNat ((rows.drop d).take bufferSize).length).toNat = min bufferSize (rows.length - d) := by
  rw [length_take, length_drop]
  exact UInt32.toNat_ofNat_of_lt' (by simp only [UInt32.size, bufferSize]; omega)

/-- A page that was just fetched. -/
theorem Reads.fetched (h : Reads sock query rows d s) (hbuffered : s.buffered = 0) (hrows : rows.length < 2 ^ 31) :
    Reads sock query rows d (s.fetched ((rows.drop d).take bufferSize)) := by
  have hstart : s.start.toNat = d := by
    rw [h.start_eq, hbuffered]
    rfl
  have hle := h.start_le
  have hsum : (s.start + UInt32.ofNat ((rows.drop d).take bufferSize).length).toNat =
      d + min bufferSize (rows.length - d) := by
    rw [UInt32.toNat_add, toNat_length_page, hstart, Nat.mod_eq_of_lt (by omega)]
  refine ⟨h.query_eq, h.sock_eq, ?_, ?_, ?_⟩
  · exact hsum.trans (congrArg (d + ·) (toNat_length_page rows d).symm)
  · refine hsum.trans_le ?_
    omega
  · intro _
    show some ((rows.drop d).take bufferSize) = some ((rows.drop d).take (UInt32.ofNat _).toNat)
    rw [toNat_length_page, Option.some_inj, take_eq_take_iff, length_drop]
    omega

/-- **One call** returns the next row, or `NULL` after the last one; if there is no page, then the statement for
the next one has to fit its buffer. -/
theorem reads_step (hserver : Serves server sock query rows) (hrows : rows.length < 2 ^ 31)
    (h : Reads sock query rows d s) :
    (s.buffered = 0 ∧ ¬ Fits (limitText query d) ∧
      bufferedGetNextRow server s = .error (.overflow .queryBuffer)) ∨
    ((s.buffered = 0 → Fits (limitText query d)) ∧
      ∃ s', bufferedGetNextRow server s = .ok (rows[d]?.map some, s') ∧
        Reads sock query rows (min (d + 1) rows.length) s') := by
  have hd : d ≤ rows.length := by
    have := h.start_eq
    have := h.start_le
    omega
  by_cases hbuffered : s.buffered = 0
  · have hstart : s.start.toNat = d := by
      rw [h.start_eq, hbuffered]
      rfl
    have hquery : fullQuery s.query s.start = newSprintf (limitText query d) := by
      rw [h.query_eq, fullQuery_eq (by omega), hstart]
    by_cases hfits : Fits (limitText query d)
    · refine .inr ⟨fun _ => hfits, ?_⟩
      have htext : fullQuery s.query s.start = .ok (limitText query d) := by
        rw [hquery, newSprintf, if_pos hfits]
      have hcall : bufferedGetNextRow server s =
          if UInt32.ofNat ((rows.drop d).take bufferSize).length = 0 then
            .ok (none, { s with buffered := 0, res := some ((rows.drop d).take bufferSize) })
          else fetchRow (s.fetched ((rows.drop d).take bufferSize)) := by
        have hanswer : server s.sock (limitText query d) = some ((rows.drop d).take bufferSize) := by
          rw [h.sock_eq]
          exact hserver d
        simp only [bufferedGetNextRow, doBufferedGetNextRow, if_pos hbuffered, htext, hanswer]
        rfl
      have hpage := h.fetched hbuffered hrows
      rw [hcall]
      split_ifs with hzero
      · -- the page is empty: all rows have been read
        have hall : d = rows.length := by
          have hnat := toNat_length_page rows d
          rw [hzero] at hnat
          have : min bufferSize (rows.length - d) = 0 := hnat.symm
          simp only [bufferSize] at this
          omega
        refine ⟨{ s with buffered := 0, res := some ((rows.drop d).take bufferSize) }, ?_, ?_⟩
        · rw [getElem?_eq_none hall.ge]
          rfl
        · rw [Nat.min_eq_right (by omega), ← hall]
          refine ⟨h.query_eq, h.sock_eq, hstart, h.start_le, fun h0 => absurd rfl h0⟩
      · exact fetchRow_eq hpage hzero
    · have htext : fullQuery s.query s.start = .error .queryBuffer := by
        rw [hquery, newSprintf, if_neg hfits]
      refine .inl ⟨hbuffered, hfits, ?_⟩
      simp only [bufferedGetNextRow, doBufferedGetNextRow, if_pos hbuffered, htext]
  · refine .inr ⟨fun h0 => absurd h0 hbuffered, ?_⟩
    obtain ⟨s', hfetch, hs'⟩ := fetchRow_eq h hbuffered
    refine ⟨s', ?_, hs'⟩
    simp only [bufferedGetNextRow, doBufferedGetNextRow, if_neg hbuffered, hfetch]

/-- The variables after `init_buffered_get_next_row`. -/
def Statics.begun (s : Statics σ ρ) (sock : Option σ) (query : Bytes) : Statics σ ρ :=
  { s with buffered := 0, start := 0, sock := sock, query := some query }

theorem Reads.begun (sock : Option σ) (query : Bytes) (rows : List ρ) (s : Statics σ ρ) :
    Reads sock query rows 0 (s.begun sock query) :=
  ⟨rfl, rfl, rfl, Nat.zero_le _, fun h0 => absurd rfl h0⟩

variable {rs : List (Option (Option ρ))}

theorem bind_eq_ok_iff {ε α β : Type} {x : Except ε α} {f : α → Except ε β} {b : β} :
    x.bind f = .ok b ↔ ∃ a, x = .ok a ∧ f a = .ok b := by
  cases x <;> simp [Except.bind]

theorem calls_succ_eq_ok_iff {k : ℕ} {s' : Statics σ ρ} :
    calls server s (k + 1) = .ok (rs, s') ↔ ∃ rs₀ r s₀, calls server s k = .ok (rs₀, s₀) ∧
      bufferedGetNextRow server s₀ = .ok (r, s') ∧ rs = rs₀ ++ [r] := by
  have hcalls : calls server s (k + 1) = (calls server s k).bind fun p =>
      (bufferedGetNextRow server p.2).bind fun q => .ok (p.1 ++ [q.1], q.2) := rfl
  rw [hcalls, bind_eq_ok_iff]
  constructor
  · rintro ⟨⟨rs₀, s₀⟩, hk, h⟩
    obtain ⟨⟨r, s₁⟩, hcall, h⟩ := bind_eq_ok_iff.mp h
    cases h
    exact ⟨rs₀, r, s₀, hk, hcall, rfl⟩
  · rintro ⟨rs₀, r, s₀, hk, hcall, rfl⟩
    exact ⟨(rs₀, s₀), hk, bind_eq_ok_iff.mpr ⟨(r, s'), hcall, rfl⟩⟩

/-- **A run**: if the calls return, they return the rows one after the other, and then `NULL`. -/
theorem calls_eq (hserver : Serves server sock query rows) (hrows : rows.length < 2 ^ 31)
    (h : Reads sock query rows 0 s) {k : ℕ} {s' : Statics σ ρ}
    (hcalls : calls server s k = .ok (rs, s')) :
    rs = (List.range k).map (fun i => rows[i]?.map some) ∧ Reads sock query rows (min k rows.length) s' := by
  induction k generalizing rs s' with
  | zero =>
    cases hcalls
    exact ⟨rfl, by rwa [Nat.zero_min]⟩
  | succ k ih =>
    obtain ⟨rs₀, r, s₀, hbefore, hcall, rfl⟩ := calls_succ_eq_ok_iff.mp hcalls
    obtain ⟨rfl, hreads⟩ := ih hbefore
    rcases reads_step hserver hrows hreads with ⟨-, -, herror⟩ | ⟨-, s'', hok, hreads'⟩
    · rw [herror] at hcall
      cases hcall
    rw [hok] at hcall
    cases hcall
    have hrow : rows[min k rows.length]? = rows[k]? := by
      rcases Nat.le_total k rows.length with hk | hk
      · rw [Nat.min_eq_left hk]
      · rw [Nat.min_eq_right hk, getElem?_eq_none le_rfl, getElem?_eq_none hk]
    refine ⟨?_, ?_⟩
    · rw [range_succ, map_append, map_singleton, hrow]
    · rwa [show min (min k rows.length + 1) rows.length = min (k + 1) rows.length by omega] at hreads'

/-- The calls return, if the last statement fits its buffer. -/
theorem exists_calls_eq_ok (hserver : Serves server sock query rows) (hrows : rows.length < 2 ^ 31)
    (h : Reads sock query rows 0 s) (hfits : Fits (limitText query rows.length)) (k : ℕ) :
    ∃ rs s', calls server s k = .ok (rs, s') := by
  induction k with
  | zero => exact ⟨[], s, rfl⟩
  | succ k ih =>
    obtain ⟨rs, s', hcalls⟩ := ih
    obtain ⟨-, hreads⟩ := calls_eq hserver hrows h hcalls
    rcases reads_step hserver hrows hreads with ⟨-, hnot, -⟩ | ⟨-, s'', hcall, -⟩
    · exact absurd (fits_limitText_mono (Nat.min_le_right _ _) hfits) hnot
    · exact ⟨_, s'', calls_succ_eq_ok_iff.mpr ⟨rs, _, s', hcalls, hcall, rfl⟩⟩

/-- **The rows are read exactly**: after `init_buffered_get_next_row`, from any state of the static variables, the
calls return the rows one after the other and `NULL` from then on, if and only if the statement for what follows
the last row fits its buffer. -/
theorem readAll_eq_iff (hserver : Serves server sock query rows) (hrows : rows.length < 2 ^ 31) (s : Statics σ ρ) :
    (∀ k, readAll server sock query s k = .ok ((List.range k).map fun i => rows[i]?.map some)) ↔
      Fits (limitText query rows.length) := by
  have hread (k : ℕ) : readAll server sock query s k =
      (calls server (s.begun sock query) k).bind fun p => .ok p.1 := rfl
  have hbegun := Reads.begun sock query rows s
  constructor
  · intro hall
    -- after all rows there is no page, so that the next call builds this statement
    have hlast := hall (rows.length + 1)
    rw [hread] at hlast
    obtain ⟨p, hcalls, -⟩ := bind_eq_ok_iff.mp hlast
    obtain ⟨rs₀, r, s₀, hbefore, hcall, -⟩ := calls_succ_eq_ok_iff.mp hcalls
    obtain ⟨-, hreads⟩ := calls_eq hserver hrows hbegun hbefore
    rw [Nat.min_self] at hreads
    rcases reads_step hserver hrows hreads with ⟨-, -, herror⟩ | ⟨hfits, -⟩
    · rw [herror] at hcall
      cases hcall
    · refine hfits ?_
      have := hreads.start_eq
      have := hreads.start_le
      exact UInt32.toNat_inj.mp (by rw [UInt32.toNat_zero]; omega)
  · intro hfits k
    obtain ⟨rs, s', hcalls⟩ := exists_calls_eq_ok hserver hrows hbegun hfits k
    obtain ⟨rfl, -⟩ := calls_eq hserver hrows hbegun hcalls
    rw [hread, hcalls]
    rfl

end Reads

/-! ### A server -/

section TableServer

variable {ρ : Type} (query : Bytes) (rows : List ρ)

/-- A server with these rows for a query, which reads the number after `LIMIT`. -/
def tableServer (_ : Option Unit) (statement : Bytes) : Option (List ρ) :=
  let digits := (statement.drop (query ++ ascii " LIMIT ").length).takeWhile isDecimal
  some ((rows.drop (decimalValue digits)).take bufferSize)

theorem serves_tableServer (sock : Option Unit) : Serves (tableServer query rows) sock query rows := by
  intro o
  have hdigits : ((limitText query o).drop (query ++ ascii " LIMIT ").length).takeWhile isDecimal = decimal o := by
    rw [limitText, append_assoc (query ++ ascii " LIMIT "), drop_left,
      takeWhile_isDecimal_decimal o fun c hc => by cases hc; decide]
  simp only [tableServer, hdigits, decimalValue_decimal]

end TableServer

/-- The static variables in the middle of a page of another query. -/
def abandoned : Statics Unit ℕ := ⟨2, 5, some (ascii "SELECT b FROM u"), none, some [8, 9]⟩

/-- Three rows, after another query was abandoned. -/
theorem readAll_three :
    Fits (limitText (ascii "SELECT a FROM t") 3) ∧
      ∀ k, readAll (tableServer (ascii "SELECT a FROM t") [0, 1, 2]) none (ascii "SELECT a FROM t") abandoned k =
        .ok ((List.range k).map fun i => [0, 1, 2][i]?.map some) := by
  have hfits : Fits (limitText (ascii "SELECT a FROM t") 3) := by decide +kernel
  exact ⟨hfits, (readAll_eq_iff (serves_tableServer _ _ none) (by decide) abandoned).mpr hfits⟩

/-- A query of 500 characters is copied, but does not fit the buffer of its first statement. -/
theorem readAll_overflow :
    Serves (tableServer (replicate 500 120) [0]) none (replicate 500 120) [0] ∧
      readAll (tableServer (replicate 500 120) [0]) none (replicate 500 120) ⟨0, 0, none, none, none⟩ 1 =
        .error (.overflow .queryBuffer) := by
  exact ⟨serves_tableServer _ _ none, by decide +kernel⟩

end PhpSandbox.Sandbox.Paging
