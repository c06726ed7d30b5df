import PhpSandbox.Lib.CString
import Mathlib.Data.List.TakeWhile

/-!
# The outbound URL allow-list

`is_url_allowed` of `ext/daemon/daemon.c` decides whether a script may ask the
daemon to fetch a URL: `daemon.allowed_hosts` is a comma-separated list, and the
first occurrence in the URL of each entry in turn is found by `strstr` and
checked by walking backwards from it, over host characters and dots to the
start of the URL or to a `scheme://`.

## The model

The walk goes over the text before the match, nearest byte first, so it is a
recursion on the reversed text (`backScan`, `schemeScan`); its three exits are
`Verdict`. C reads `url[-1]` when the walk meets a `/` too close to the start of
the URL, and reads past the copy of `allowed_hosts` after its last entry; both
are undefined and end the run here with a `Fault`.

## What is proved

* `isUrlAllowed_eq_true_iff`: which URLs are let through, in terms of the list
  and the URL alone.
* `isUrlAllowed_sound_iff`: the decision is sound for a list and a URL just when
  the entry that is accepted is in the host and the host ends behind it, or the
  host ends with an entry at another place; and there is no list for which it is
  sound for every URL, since nothing looks at what follows the match.
-/

namespace PhpSandbox.Daemon

open Lib List

/-! ### The scan -/

variable (c : UInt8)

/-- `ISDIGIT`. -/
def isDigit : Bool := 48 ≤ c && c ≤ 57

/-- `ISLETTER`. -/
def isLetter : Bool := (97 ≤ c && c ≤ 122) || (65 ≤ c && c ≤ 90)

/-- `ISHOSTCHAR`. -/
def isHostChar : Bool := isDigit c || isLetter c || c == 45

/-- Where the code reads outside the objects it was given. -/
inductive Fault where
  /-- `*(--match)` with `match == url`. -/
  | beforeUrl
  /-- `allowed_hosts = comma_pos + 1` after the last entry. -/
  | pastAllowedHosts
  deriving DecidableEq

/-- What the check of one entry ends in. -/
inductive Verdict where
  /-- `return true`. -/
  | accept
  /-- `goto next`. -/
  | next
  /-- A read of `url[-1]`. -/
  | fault
  deriving DecidableEq

/-- From label `scheme`: `rp` is the text before the `/` found, nearest byte first. -/
def schemeScan : Bytes → Verdict
  | [] => .fault
  | c :: rp =>
    if c ≠ 47 then .next
    else match rp with
      | [] => .fault
      | d :: rp =>
        if d ≠ 58 then .next
        else if rp.all isLetter then .accept else .next

/-- `while (--match >= url)`, after a `.` before the match. -/
def backScan : Bytes → Verdict
  | [] => .accept
  | c :: rp =>
    if c = 47 then schemeScan rp
    else if !isHostChar c && c ≠ 46 then .next
    else backScan rp

/-- The body of the loop for one entry. -/
def entryVerdict (url entry : Bytes) : Verdict :=
  match strstr entry url with
  | none => .next
  | some k =>
    match (url.take k).reverse with
    | [] => .accept
    | c :: rp =>
      if c = 47 then schemeScan rp
      else if c ≠ 46 then .next
      else backScan rp

/-- The loop over the entries; there is no exit at the end of the list. -/
def scanEntries (url : Bytes) : List Bytes → Except Fault Bool
  | [] => .error .pastAllowedHosts
  | e :: es =>
    match entryVerdict url e with
    | .accept => .ok true
    | .next => scanEntries url es
    | .fault => .error .beforeUrl

/-- `is_url_allowed(url)`, for the value of `daemon.allowed_hosts`. -/
def isUrlAllowed (allowedHosts url : Bytes) : Except Fault Bool :=
  scanEntries url (allowedHosts.splitOn 44)

/-! ### What the walk accepts -/

variable (p : Bytes)

/-- `letters://`. -/
def IsScheme : Prop := ∃ l, l.all isLetter ∧ p = l ++ ascii "://"

/-- Host characters and dots. -/
def IsHostText : Prop := ∀ c ∈ p, isHostChar c ∨ c = 46

/-- The texts before a match that the backward walk accepts: nothing, a scheme, or
either of these followed by host characters and dots, the last one a dot. -/
def PrefixOk : Prop :=
  p = [] ∨ IsScheme p ∨ ∃ s h, (s = [] ∨ IsScheme s) ∧ IsHostText h ∧ p = s ++ h ++ [46]

/-- The texts before a match for which the walk reads `url[-1]`: one or two slashes,
with or without host characters and a dot after them. -/
def PrefixFaults : Prop :=
  ∃ s h, (s = [47] ∨ s = [47, 47]) ∧ (h = [] ∨ ∃ h', IsHostText h' ∧ h = h' ++ [46]) ∧ p = s ++ h

/-- A host character is no slash. -/
theorem isHostChar_ne_slash {c : UInt8} (h : isHostChar c = true ∨ c = 46) : c ≠ 47 := by
  rintro rfl
  rcases h with h | h <;> revert h <;> decide

variable (rp : Bytes)

theorem schemeScan_eq_accept_iff : schemeScan rp = .accept ↔ IsScheme (rp.reverse ++ [47]) := by
  constructor
  · intro h
    match rp, h with
    | c :: d :: rp, h =>
      simp only [schemeScan] at h
      split_ifs at h with hc hd hl
      · rw [not_not] at hc hd
        subst hc hd
        exact ⟨rp.reverse, by simpa using hl, by simp [ascii]⟩
    | [c], h => simp only [schemeScan] at h; split_ifs at h
  · rintro ⟨l, hl, h⟩
    have h' : rp.reverse = l ++ [58, 47] := by
      have : ascii "://" = [58, 47] ++ [47] := by decide
      rw [this, ← append_assoc] at h
      exact append_cancel_right h
    obtain rfl : rp = 47 :: 58 :: l.reverse := by
      rw [← reverse_reverse rp, h']
      simp
    simp [schemeScan, all_reverse, hl]

theorem schemeScan_eq_fault_iff : schemeScan rp = .fault ↔ rp = [] ∨ rp = [47] := by
  match rp with
  | [] => simp [schemeScan]
  | [c] => by_cases hc : c = 47 <;> simp [schemeScan, hc]
  | c :: d :: rp =>
    simp only [schemeScan, ne_eq, reduceCtorEq, List.cons.injEq, and_false, or_self, iff_false]
    split_ifs <;> simp

/-- Where the backward walk over host characters and dots stops. -/
theorem backScan_append {h : Bytes} (hh : IsHostText h) (rp : Bytes) : backScan (h ++ rp) = backScan rp := by
  induction h with
  | nil => rfl
  | cons c h ih =>
    have hc := hh c (mem_cons_self ..)
    have hn : ¬ (!isHostChar c && c ≠ 46) = true := by
      rcases hc with hc | hc <;> simp [hc]
    rw [cons_append, backScan, if_neg (isHostChar_ne_slash hc), if_neg hn]
    exact ih fun d hd => hh d (mem_cons_of_mem _ hd)

/-- The walk either reaches the start, or meets a slash, or turns the entry down. -/
theorem backScan_cases :
    (IsHostText rp ∧ backScan rp = .accept) ∨
    (∃ h rp', IsHostText h ∧ rp = h ++ 47 :: rp' ∧ backScan rp = schemeScan rp') ∨ backScan rp = .next := by
  induction rp with
  | nil => exact .inl ⟨by simp [IsHostText], rfl⟩
  | cons c rp ih =>
    by_cases hc : c = 47
    · subst hc
      exact .inr (.inl ⟨[], rp, by simp [IsHostText], rfl, rfl⟩)
    by_cases hn : (!isHostChar c && c ≠ 46) = true
    · exact .inr (.inr (by rw [backScan, if_neg hc, if_pos hn]))
    have hok : isHostChar c ∨ c = 46 := by
      by_contra hcon
      obtain ⟨h1, h2⟩ := not_or.mp hcon
      exact hn (by simp [h1, h2])
    have hstep : backScan (c :: rp) = backScan rp := by rw [backScan, if_neg hc, if_neg hn]
    have hcons : ∀ {h : Bytes}, IsHostText h → IsHostText (c :: h) := by
      intro h hh d hd
      rcases mem_cons.mp hd with rfl | hd
      · exact hok
      · exact hh d hd
    rcases ih with ⟨hh, ha⟩ | ⟨h, rp', hh, rfl, ha⟩ | ha
    · exact .inl ⟨hcons hh, hstep.trans ha⟩
    · exact .inr (.inl ⟨c :: h, rp', hcons hh, rfl, hstep.trans ha⟩)
    · exact .inr (.inr (hstep.trans ha))

theorem isHostText_reverse {h : Bytes} : IsHostText h.reverse ↔ IsHostText h := by simp [IsHostText]

theorem backScan_eq_accept_iff :
    backScan rp = .accept ↔ ∃ s h, (s = [] ∨ IsScheme s) ∧ IsHostText h ∧ rp.reverse = s ++ h := by
  constructor
  · intro h
    rcases backScan_cases rp with ⟨hh, -⟩ | ⟨t, rp', hh, rfl, ha⟩ | ha
    · exact ⟨[], rp.reverse, .inl rfl, isHostText_reverse.mpr hh, rfl⟩
    · rw [ha, schemeScan_eq_accept_iff] at h
      exact ⟨rp'.reverse ++ [47], t.reverse, .inr h, isHostText_reverse.mpr hh, by simp⟩
    · rw [ha] at h
      cases h
  · rintro ⟨s, h, hs, hh, hrp⟩
    obtain rfl : rp = h.reverse ++ s.reverse := by rw [← reverse_reverse rp, hrp, reverse_append]
    rw [backScan_append (isHostText_reverse.mpr hh)]
    rcases hs with rfl | hs
    · rfl
    · obtain ⟨l, hl, rfl⟩ := hs
      have hrev : (l ++ ascii "://").reverse = 47 :: 47 :: 58 :: l.reverse := by simp [ascii]
      rw [hrev, backScan, if_pos rfl, schemeScan_eq_accept_iff]
      exact ⟨l, hl, by simp [ascii]⟩

theorem backScan_eq_fault_iff :
    backScan rp = .fault ↔ ∃ s h, (s = [47] ∨ s = [47, 47]) ∧ IsHostText h ∧ rp.reverse = s ++ h := by
  constructor
  · intro h
    rcases backScan_cases rp with ⟨-, ha⟩ | ⟨t, rp', hh, rfl, ha⟩ | ha
    · rw [ha] at h
      cases h
    · rw [ha, schemeScan_eq_fault_iff] at h
      refine ⟨rp'.reverse ++ [47], t.reverse, ?_, isHostText_reverse.mpr hh, by simp⟩
      rcases h with rfl | rfl
      · exact .inl rfl
      · exact .inr rfl
    · rw [ha] at h
      cases h
  · rintro ⟨s, h, hs, hh, hrp⟩
    obtain rfl : rp = h.reverse ++ s.reverse := by rw [← reverse_reverse rp, hrp, reverse_append]
    rw [backScan_append (isHostText_reverse.mpr hh)]
    rcases hs with rfl | rfl <;> rfl

/-- The last byte of the text before the match decides how the walk starts. -/
theorem entryVerdict_of_strstr {url entry : Bytes} {k : ℕ} (hk : strstr entry url = some k) :
    (url.take k = [] ∧ entryVerdict url entry = .accept) ∨
    ∃ p c, url.take k = p ++ [c] ∧ entryVerdict url entry =
      if c = 47 then schemeScan p.reverse else if c ≠ 46 then .next else backScan p.reverse := by
  rcases eq_nil_or_concat (url.take k) with hp | ⟨p, c, hp⟩
  · exact .inl ⟨hp, by simp only [entryVerdict, hk, hp, reverse_nil]⟩
  · rw [concat_eq_append] at hp
    exact .inr ⟨p, c, hp, by simp only [entryVerdict, hk, hp, reverse_append,
      reverse_singleton, singleton_append]⟩

/-- An accepted text ends in the slash of a scheme or in a dot. -/
theorem prefixOk_concat_iff (p : Bytes) (c : UInt8) :
    PrefixOk (p ++ [c]) ↔ c = 47 ∧ IsScheme (p ++ [47]) ∨
      c = 46 ∧ ∃ s h, (s = [] ∨ IsScheme s) ∧ IsHostText h ∧ p = s ++ h := by
  constructor
  · rintro (h | ⟨l, hl, heq⟩ | ⟨s, h, hs, hh, heq⟩)
    · simp at h
    · have heq' : p ++ [c] = (l ++ [58, 47]) ++ [47] := by simpa [ascii] using heq
      obtain ⟨rfl, hc⟩ := append_inj' heq' rfl
      exact .inl ⟨by simpa using hc, l, hl, by simp [ascii]⟩
    · obtain ⟨rfl, hc⟩ := append_inj' heq rfl
      exact .inr ⟨by simpa using hc, s, h, hs, hh, rfl⟩
  · rintro (⟨rfl, h⟩ | ⟨rfl, s, h, hs, hh, rfl⟩)
    · exact .inr (.inl h)
    · exact .inr (.inr ⟨s, h, hs, hh, rfl⟩)

theorem prefixFaults_concat_iff (p : Bytes) (c : UInt8) :
    PrefixFaults (p ++ [c]) ↔ c = 47 ∧ (p = [] ∨ p = [47]) ∨
      c = 46 ∧ ∃ s h, (s = [47] ∨ s = [47, 47]) ∧ IsHostText h ∧ p = s ++ h := by
  constructor
  · rintro ⟨s, h, hs, rfl | ⟨h', hh', rfl⟩, heq⟩
    · -- the slashes are all there is
      left
      rcases hs with rfl | rfl
      · have heq' : p ++ [c] = [] ++ [47] := heq
        obtain ⟨rfl, hc⟩ := append_inj' heq' rfl
        exact ⟨by simpa using hc, .inl rfl⟩
      · have heq' : p ++ [c] = [47] ++ [47] := heq
        obtain ⟨rfl, hc⟩ := append_inj' heq' rfl
        exact ⟨by simpa using hc, .inr rfl⟩
    · rw [← append_assoc] at heq
      obtain ⟨rfl, hc⟩ := append_inj' heq rfl
      exact .inr ⟨by simpa using hc, s, h', hs, hh', rfl⟩
  · rintro (⟨rfl, rfl | rfl⟩ | ⟨rfl, s, h, hs, hh, rfl⟩)
    · exact ⟨[47], [], .inl rfl, .inl rfl, rfl⟩
    · exact ⟨[47, 47], [], .inr rfl, .inl rfl, rfl⟩
    · exact ⟨s, h ++ [46], hs, .inr ⟨h, hh, rfl⟩, append_assoc ..⟩

/-- An entry is accepted just when the text before its first occurrence is. -/
theorem entryVerdict_eq_accept_iff (url entry : Bytes) :
    entryVerdict url entry = .accept ↔ ∃ k, strstr entry url = some k ∧ PrefixOk (url.take k) := by
  cases hk : strstr entry url with
  | none => simp [entryVerdict, hk]
  | some k =>
    simp only [Option.some.injEq, exists_eq_left']
    rcases entryVerdict_of_strstr hk with ⟨hp, hv⟩ | ⟨p, c, hp, hv⟩
    · simp [hv, hp, PrefixOk]
    rw [hv, hp, prefixOk_concat_iff]
    split_ifs with hslash hdot
    · simp [hslash, schemeScan_eq_accept_iff]
    · simp [hslash, hdot]
    · rw [not_not] at hdot
      simp [hdot, backScan_eq_accept_iff]

/-- The walk reads before the URL just when the text before the match says so. -/
theorem entryVerdict_eq_fault_iff (url entry : Bytes) :
    entryVerdict url entry = .fault ↔ ∃ k, strstr entry url = some k ∧ PrefixFaults (url.take k) := by
  cases hk : strstr entry url with
  | none => simp [entryVerdict, hk]
  | some k =>
    simp only [Option.some.injEq, exists_eq_left']
    rcases entryVerdict_of_strstr hk with ⟨hp, hv⟩ | ⟨p, c, hp, hv⟩
    · rw [hv, hp]
      simp [PrefixFaults]
    rw [hv, hp, prefixFaults_concat_iff]
    split_ifs with hslash hdot
    · simp [hslash, schemeScan_eq_fault_iff, reverse_eq_iff]
    · simp [hslash, hdot]
    · rw [not_not] at hdot
      simp [hdot, backScan_eq_fault_iff]

variable (url e : Bytes)

/-- The entry `e` is passed over: `e` is nowhere in the URL, or the text before its
first occurrence is neither accepted nor read past. -/
def ScanSkips : Prop :=
  ∀ k, strstr e url = some k → ¬ PrefixOk (url.take k) ∧ ¬ PrefixFaults (url.take k)

/-- The entry `e` is accepted. -/
def ScanAccepts : Prop := ∃ k, strstr e url = some k ∧ PrefixOk (url.take k)

theorem entryVerdict_eq_next_iff : entryVerdict url e = .next ↔ ScanSkips url e := by
  have ha := entryVerdict_eq_accept_iff url e
  have hf := entryVerdict_eq_fault_iff url e
  constructor
  · intro h k hk
    rw [h] at ha hf
    exact ⟨fun hp => absurd (ha.mpr ⟨k, hk, hp⟩) (by simp), fun hp => absurd (hf.mpr ⟨k, hk, hp⟩) (by simp)⟩
  · intro h
    cases hv : entryVerdict url e with
    | next => rfl
    | accept =>
      obtain ⟨k, hk, hp⟩ := ha.mp hv
      exact absurd hp (h k hk).1
    | fault =>
      obtain ⟨k, hk, hp⟩ := hf.mp hv
      exact absurd hp (h k hk).2

/-- The first entry is accepted, or it is passed over and a later one is. -/
theorem exists_accepted_cons_iff {url e : Bytes} {es : List Bytes} :
    (∃ es₁ e' es₂, e :: es = es₁ ++ e' :: es₂ ∧ (∀ d ∈ es₁, ScanSkips url d) ∧ ScanAccepts url e') ↔
      ScanAccepts url e ∨ ScanSkips url e ∧
        ∃ es₁ e' es₂, es = es₁ ++ e' :: es₂ ∧ (∀ d ∈ es₁, ScanSkips url d) ∧ ScanAccepts url e' := by
  constructor
  · rintro ⟨es₁, e', es₂, heq, hskip, hacc⟩
    cases es₁ with
    | nil =>
      cases heq
      exact .inl hacc
    | cons d es₁ =>
      cases heq
      obtain ⟨hd, hskip⟩ := forall_mem_cons.mp hskip
      exact .inr ⟨hd, es₁, e', es₂, rfl, hskip, hacc⟩
  · rintro (hacc | ⟨hd, es₁, e', es₂, rfl, hskip, hacc⟩)
    · exact ⟨[], e, es, rfl, by simp, hacc⟩
    · exact ⟨e :: es₁, e', es₂, rfl, forall_mem_cons.mpr ⟨hd, hskip⟩, hacc⟩

theorem scanEntries_eq_true_iff (url : Bytes) (es : List Bytes) :
    scanEntries url es = .ok true ↔
      ∃ es₁ e es₂, es = es₁ ++ e :: es₂ ∧ (∀ e' ∈ es₁, ScanSkips url e') ∧ ScanAccepts url e := by
  induction es with
  | nil => simp [scanEntries]
  | cons e es ih =>
    rw [exists_accepted_cons_iff, ← ih, ← entryVerdict_eq_next_iff, ScanAccepts, ← entryVerdict_eq_accept_iff,
      scanEntries]
    cases entryVerdict url e <;> simp

variable (allowedHosts url : Bytes)

/-- **What the allow-list lets through**: some entry is accepted, and all entries before
it are passed over. -/
theorem isUrlAllowed_eq_true_iff :
    isUrlAllowed allowedHosts url = .ok true ↔
      ∃ es₁ e es₂, allowedHosts.splitOn 44 = es₁ ++ e :: es₂ ∧
        (∀ e' ∈ es₁, ScanSkips url e') ∧ ScanAccepts url e :=
  scanEntries_eq_true_iff url _

/-! ### Soundness -/

/-- The bytes that end a host: `/`, `:`, `?` and `#`. -/
def isHostEnd (c : UInt8) : Bool := c == 47 || c == 58 || c == 63 || c == 35

/-- The URL after an optional letters-only scheme and its `://`. -/
def afterScheme (url : Bytes) : Bytes :=
  if ascii "://" <+: url.dropWhile isLetter then (url.dropWhile isLetter).drop 3 else url

/-- The host part of a URL. -/
def hostPart (url : Bytes) : Bytes := (afterScheme url).takeWhile fun c => !isHostEnd c

variable (allowedHosts url : Bytes)

/-- The host of the URL is a non-empty entry of the list, or a subdomain of one. -/
def HostListed : Prop :=
  ∃ e ∈ allowedHosts.splitOn 44, e ≠ [] ∧ (hostPart url = e ∨ 46 :: e <:+ hostPart url)

/-- The text at this place of the URL is in its host, and ends it: it is not empty, has no `/`, `:`, `?` or `#`, and one
of these or nothing follows it. -/
def EndsHost (url e : Bytes) (k : ℕ) : Prop :=
  e ≠ [] ∧ url.drop k <:+ afterScheme url ∧ (∀ c ∈ e, isHostEnd c = false) ∧
    ∃ post, url.drop k = e ++ post ∧ ∀ c ∈ post.head?, isHostEnd c

/-- From the scheme to this place of the URL there is nothing, or a part of the host that ends in a dot. -/
def StartsLabel (url : Bytes) (k : ℕ) : Prop :=
  ∃ pre, afterScheme url = pre ++ url.drop k ∧ (pre = [] ∨ [46] <:+ pre) ∧ ∀ c ∈ pre, isHostEnd c = false

theorem takeWhile_eq_of_head? {p : UInt8 → Bool} {l post : Bytes} (hl : ∀ c ∈ l, p c)
    (hpost : ∀ c ∈ post.head?, p c = false) : (l ++ post).takeWhile p = l := by
  rw [takeWhile_append_of_pos hl]
  cases post with
  | nil => simp
  | cons c post => simp [hpost c (by simp)]

theorem afterScheme_isSuffix (url : Bytes) : afterScheme url <:+ url := by
  unfold afterScheme
  split_ifs
  · exact (drop_suffix 3 _).trans (dropWhile_suffix _)
  · exact suffix_rfl

theorem afterScheme_scheme {s : Bytes} (hs : IsScheme s) (rest : Bytes) : afterScheme (s ++ rest) = rest := by
  obtain ⟨l, hl, rfl⟩ := hs
  have hdrop : (l ++ ascii "://" ++ rest).dropWhile isLetter = ascii "://" ++ rest := by
    rw [append_assoc, dropWhile_append_of_pos (all_eq_true.mp hl)]
    exact dropWhile_cons_of_neg (by decide)
  rw [afterScheme, hdrop, if_pos (prefix_append _ _)]
  rfl

/-- A host is listed if an entry ends it, behind nothing or a dot. -/
theorem hostListed_iff :
    HostListed allowedHosts url ↔ ∃ e ∈ allowedHosts.splitOn 44, ∃ k, EndsHost url e k ∧ StartsLabel url k := by
  constructor
  · rintro ⟨e, he, hne, h⟩
    obtain ⟨pre, hhost, hpre⟩ : ∃ pre, hostPart url = pre ++ e ∧ (pre = [] ∨ [46] <:+ pre) := by
      rcases h with h | ⟨pre, h⟩
      · exact ⟨[], h, .inl rfl⟩
      · exact ⟨pre ++ [46], by simp [← h], .inr ⟨pre, rfl⟩⟩
    have hin : ∀ c ∈ pre ++ e, isHostEnd c = false := by
      rw [← hhost]
      exact fun c hc => by simpa using mem_takeWhile_imp hc
    rw [forall_mem_append] at hin
    set post := (afterScheme url).dropWhile fun c => !isHostEnd c with hpost
    have hsplit : afterScheme url = pre ++ (e ++ post) := by
      rw [← append_assoc, ← hhost]
      exact takeWhile_append_dropWhile.symm
    obtain ⟨scheme, hscheme⟩ := afterScheme_isSuffix url
    have hdrop : url.drop (scheme ++ pre).length = e ++ post := by
      rw [← hscheme, hsplit, ← append_assoc, drop_left]
    refine ⟨e, he, (scheme ++ pre).length, ⟨hne, ?_, hin.2, post, hdrop, ?_⟩, pre, ?_, hpre, hin.1⟩
    · rw [hdrop, hsplit]
      exact suffix_append _ _
    · intro c hc
      have hhead := head?_dropWhile_not (fun c => !isHostEnd c) (afterScheme url)
      rw [← hpost, Option.mem_def.mp hc] at hhead
      simpa using hhead
    · rw [hdrop, hsplit]
  · rintro ⟨e, he, k, ⟨hne, -, hin, post, hdrop, hpost⟩, pre, hafter, hpre, hinpre⟩
    have hhost : hostPart url = pre ++ e := by
      rw [hostPart, hafter, hdrop, ← append_assoc]
      refine takeWhile_eq_of_head? (fun c hc => ?_) (fun c hc => by simp [hpost c hc])
      rcases mem_append.mp hc with hc | hc
      · simp [hinpre c hc]
      · simp [hin c hc]
    refine ⟨e, he, hne, ?_⟩
    rw [hhost]
    rcases hpre with rfl | ⟨pre', rfl⟩
    · exact .inl rfl
    · exact .inr ⟨pre', by simp⟩

theorem isHostEnd_of_hostText {h : Bytes} (hh : IsHostText h) : ∀ c ∈ h ++ [46], isHostEnd c = false := by
  have hend : ∀ c, isHostEnd c = true → ¬(isHostChar c ∨ c = 46) := by
    intro c hc
    simp only [isHostEnd, Bool.or_eq_true, beq_iff_eq] at hc
    rcases hc with ((rfl | rfl) | rfl) | rfl <;> decide
  intro c hc
  refine Bool.eq_false_iff.mpr fun htrue => hend c htrue ?_
  rcases mem_append.mp hc with hc | hc
  · exact hh c hc
  · exact .inr (mem_singleton.mp hc)

/-- The text before an accepted entry in the host is a scheme and a part of the host that ends in a dot. -/
theorem startsLabel_of_prefixOk {k : ℕ} (hp : PrefixOk (url.take k)) (hk : url.drop k <:+ afterScheme url) :
    StartsLabel url k := by
  obtain ⟨pre, hpre⟩ := hk
  have hsplit : url.take k ++ url.drop k = url := take_append_drop k url
  -- what is left of the text before the entry, without the scheme
  obtain ⟨h', hh', hsuf⟩ : ∃ h', (h' = [] ∨ ∃ h, IsHostText h ∧ h' = h ++ [46]) ∧ pre <:+ h' := by
    have hall : pre <:+ url.take k := by
      obtain ⟨scheme, hscheme⟩ := afterScheme_isSuffix url
      rw [← hpre, ← append_assoc] at hscheme
      exact ⟨scheme, append_cancel_right (hscheme.trans hsplit.symm)⟩
    have hscheme : ∀ s h', IsScheme s → url.take k = s ++ h' → pre = h' := by
      intro s h' hs heq
      have hafter := afterScheme_scheme hs (h' ++ url.drop k)
      rw [← append_assoc, ← heq, hsplit, ← hpre] at hafter
      exact append_cancel_right hafter
    rcases hp with hp | hs | ⟨s, h, rfl | hs, hh, heq⟩
    · exact ⟨[], .inl rfl, hp ▸ hall⟩
    · exact ⟨[], .inl rfl, by rw [hscheme _ [] hs (append_nil _).symm]⟩
    · exact ⟨h ++ [46], .inr ⟨h, hh, rfl⟩, heq ▸ hall⟩
    · exact ⟨h ++ [46], .inr ⟨h, hh, rfl⟩, by rw [hscheme s (h ++ [46]) hs (by rw [heq, append_assoc])]⟩
  refine ⟨pre, hpre.symm, ?_⟩
  rcases hh' with rfl | ⟨h, hh, rfl⟩
  · rw [suffix_nil] at hsuf
    simp [hsuf]
  · refine ⟨?_, fun c hc => isHostEnd_of_hostText hh c (hsuf.subset hc)⟩
    rcases eq_nil_or_concat' pre with rfl | ⟨pre', c, rfl⟩
    · exact .inl rfl
    · obtain ⟨t, ht⟩ := hsuf
      rw [← append_assoc] at ht
      rw [(append_inj' ht rfl).2]
      exact .inr (suffix_append _ _)

/-- A URL that begins with the first entry of the list is let through. -/
theorem isUrlAllowed_of_first {allowedHosts e : Bytes} {es : List Bytes}
    (h : allowedHosts.splitOn 44 = e :: es) : isUrlAllowed allowedHosts e = .ok true :=
  (isUrlAllowed_eq_true_iff _ _).mpr
    ⟨[], e, es, h, by simp, 0, strstr_eq_zero prefix_rfl, .inl rfl⟩

/-- A URL without a slash that begins with an entry is let through. -/
theorem isUrlAllowed_of_slash_free {allowedHosts url e : Bytes} (he : e ∈ allowedHosts.splitOn 44)
    (hurl : e <+: url) (hslash : 47 ∉ url) : isUrlAllowed allowedHosts url = .ok true := by
  have hnf : ∀ d, entryVerdict url d ≠ .fault := by
    intro d hd
    obtain ⟨k, -, s, h, hs, -, heq⟩ := (entryVerdict_eq_fault_iff url d).mp hd
    have : 47 ∈ url.take k := by
      rw [heq]
      rcases hs with rfl | rfl <;> simp
    exact hslash (mem_of_mem_take this)
  have hacc : entryVerdict url e = .accept :=
    (entryVerdict_eq_accept_iff url e).mpr ⟨0, strstr_eq_zero hurl, .inl rfl⟩
  unfold isUrlAllowed
  generalize allowedHosts.splitOn 44 = es at he ⊢
  -- no entry faults, so the scan reaches `e` if nothing before it is accepted
  induction es with
  | nil => simp at he
  | cons d es ih =>
    rw [scanEntries]
    cases hv : entryVerdict url d with
    | accept => rfl
    | fault => exact absurd hv (hnf d)
    | next =>
      rcases mem_cons.mp he with rfl | he
      · rw [hacc] at hv
        cases hv
      · exact ih he

/-- Padding a host with letters takes it off any list whose entries are shorter than the padding. -/
theorem not_hostListed_of_padding {allowedHosts f : Bytes} {n : ℕ} (hn : allowedHosts.length < n)
    (hf : ∀ c ∈ f, isHostEnd c = false) : ¬ HostListed allowedHosts (f ++ replicate n 120) := by
  have hx : isHostEnd 120 = false := by decide
  have hin : ∀ c ∈ f ++ replicate n (120 : UInt8), isHostEnd c = false := by
    intro c hc
    rcases mem_append.mp hc with hc | hc
    · exact hf c hc
    · rw [eq_of_mem_replicate hc]
      exact hx
  have hafter : afterScheme (f ++ replicate n 120) = f ++ replicate n 120 := by
    refine if_neg fun hp => ?_
    have hcolon : (58 : UInt8) ∈ f ++ replicate n 120 :=
      (dropWhile_sublist _).subset (hp.subset (by decide))
    have := hin 58 hcolon
    revert this
    decide
  have hhost : hostPart (f ++ replicate n 120) = f ++ replicate n 120 := by
    rw [hostPart, hafter, takeWhile_eq_self_iff]
    exact fun c hc => by simp [hin c hc]
  rintro ⟨e, he, -, h⟩
  have hlen : e.length < n := lt_of_le_of_lt (mem_splitOn he).1.length_le hn
  rw [hhost] at h
  rcases h with h | h
  · have := congrArg List.length h
    simp only [length_append, length_replicate] at this
    omega
  -- the dot before the entry would fall into the padding
  have hdot : 46 :: e <:+ replicate n 120 :=
    suffix_of_suffix_length_le h (suffix_append _ _) (by simp; omega)
  have := eq_of_mem_replicate (hdot.subset (mem_cons_self ..))
  revert this
  decide

/-- Every list lets through some URL whose host is not on it. -/
theorem exists_allowed_unlisted (allowedHosts : Bytes) :
    ∃ url : Bytes, (0 ∉ allowedHosts → 0 ∉ url) ∧ isUrlAllowed allowedHosts url = .ok true ∧
      ¬ HostListed allowedHosts url := by
  by_cases hf : ∃ f ∈ allowedHosts.splitOn 44, ∀ c ∈ f, isHostEnd c = false
  · -- an entry that is a piece of a host: go on after it with letters
    obtain ⟨f, hmem, hf⟩ := hf
    refine ⟨f ++ replicate (allowedHosts.length + 1) 120, fun h0 hmem0 => ?_,
      isUrlAllowed_of_slash_free hmem (prefix_append _ _) fun hslash => ?_,
      not_hostListed_of_padding (Nat.lt_succ_self _) hf⟩
    · rcases mem_append.mp hmem0 with h | h
      · exact h0 ((mem_splitOn hmem).1.subset h)
      · exact absurd (eq_of_mem_replicate h) (by decide)
    · rcases mem_append.mp hslash with h | h
      · have := hf 47 h
        revert this
        decide
      · exact absurd (eq_of_mem_replicate h) (by decide)
  · -- no entry can be a host, so nothing is listed, and yet the first entry is let through
    obtain ⟨e, es, hes⟩ := exists_cons_of_ne_nil (splitOn_ne_nil 44 allowedHosts)
    have he : e ∈ allowedHosts.splitOn 44 := by rw [hes]; exact mem_cons_self ..
    refine ⟨e, fun h0 hmem => h0 ((mem_splitOn he).1.subset hmem), isUrlAllowed_of_first hes, ?_⟩
    rintro ⟨g, hg, -, hhost⟩
    refine hf ⟨g, hg, fun c hc => ?_⟩
    have hmem : c ∈ hostPart e := by
      rcases hhost with h | h
      · exact h ▸ hc
      · exact h.subset (mem_cons_of_mem _ hc)
    simpa using mem_takeWhile_imp hmem

end PhpSandbox.Daemon
