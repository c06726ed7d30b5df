import PhpSandbox.Sandbox.Query

/-!
# Which application a request belongs to

`init_appid` of `ext/sandbox/sandbox.c` runs at the start of every request and
sets `SANDBOX_G(appid)` from the host name the request was made to: `0` gives the
privileged API (`ASSERT_PRIVILEGE`), a positive number an application's sandbox,
and `-1` neither.

## The model

`initAppid` takes the SAPI name, `SERVER_NAME` (if the FastCGI request has it),
`sandbox.hostname_for_subdomain`, the `appid` left by the request before, and the
answer of the admin database to the one statement it makes, as a function of the
name looked up: `none` when there is no such row or the statement fails.

## What is proved

`initAppid_meets_hostClass_iff`: the code agrees with the intended mapping of
hosts (`hostClass`) just when the configured host name is not in `SERVER_NAME` at
all, or is the whole of it, or is not at its start and `SERVER_NAME` has no dot or
is one label, a dot and the configured name. Every other host is given to the
wrong party; `localhost.evil.com` gets the privileged API.
-/

namespace PhpSandbox.Sandbox

open Lib List

/-- What `init_appid` leaves behind. -/
structure AppidOutcome where
  /-- `SANDBOX_G(appid)`. -/
  appid : ℤ
  /-- `SANDBOX_G(appname)`. -/
  appname : Bytes
  /-- The name looked up in `appinfo`, if one was. -/
  lookup : Option Bytes
  /-- The text of the `E_ERROR` raised, if one was. -/
  error : Option Bytes
  deriving DecidableEq

/-- The statement that looks up an application by name. -/
def appidQuery (subdomain : Bytes) : Bytes :=
  ascii "SELECT id FROM appinfo WHERE \x60appname\x60='" ++ phpAddslashes subdomain ++ ascii "'"

/-- `init_appid`. -/
def initAppid (sapi : Bytes) (serverName : Option Bytes) (hostname : Bytes) (appid : ℤ)
    (appinfo : Bytes → Option ℤ) : Except Overflow AppidOutcome :=
  if sapi = ascii "cli" then .ok ⟨0, [], none, none⟩
  else if sapi ≠ ascii "fpm-fcgi" then .ok ⟨-1, [], none, some (ascii "Unsupported SAPI module")⟩
  else match serverName with
    | none => .ok ⟨appid, [], none,
        some (ascii "Internal error: Cannot find SERVER_NAME in FastCGI header")⟩
    | some host =>
      match strstr hostname host with
      | none => .ok ⟨-1, [], none, none⟩
      | some 0 => .ok ⟨0, [], none, none⟩
      | some _ =>
        match strstr (ascii ".") host with
        | none => .ok ⟨-1, [], none, none⟩
        | some pos =>
          let subdomain := host.take pos
          match newSprintf (appidQuery subdomain) with
          | .error e => .error e
          | .ok _ =>
            match appinfo subdomain with
            | none => .ok ⟨-1, subdomain, some subdomain, none⟩
            | some n => .ok ⟨n, subdomain, some subdomain, none⟩

/-! ### The intended mapping -/

/-- Who a host name belongs to. -/
inductive HostClass where
  /-- The configured host itself. -/
  | privileged
  /-- The host of the application of that name. -/
  | app (name : Bytes)
  /-- Any other host. -/
  | outOfControl
  deriving DecidableEq

variable (hostname host : Bytes)

/-- The label before `.hostname` in `host`, if that is what `host` is. -/
def subdomainOf : Option Bytes :=
  let label := host.take (host.length - (hostname.length + 1))
  if host = label ++ 46 :: hostname ∧ label ≠ [] ∧ 46 ∉ label then some label else none

/-- The intended mapping of host names. -/
def hostClass : HostClass :=
  if host = hostname then .privileged
  else match subdomainOf hostname host with
    | some label => .app label
    | none => .outOfControl

/-- The outcome agrees with the class of the host: the privileged host gets `appid` 0
without a look-up, an application's host the number its name is looked up to (`-1` if the
look-up fails), any other host `-1` without a look-up. -/
def AppidOutcome.Meets (appinfo : Bytes → Option ℤ) (out : AppidOutcome) : HostClass → Prop
  | .privileged => out.appid = 0 ∧ out.lookup = none
  | .app name => out.appid = (appinfo name).getD (-1) ∧ out.lookup = some name
  | .outOfControl => out.appid = -1 ∧ out.lookup = none

theorem subdomainOf_eq_some_iff {hostname host label : Bytes} :
    subdomainOf hostname host = some label ↔ host = label ++ 46 :: hostname ∧ label ≠ [] ∧ 46 ∉ label := by
  unfold subdomainOf
  constructor
  · intro h
    dsimp only at h
    split_ifs at h with hc
    · cases h
      exact hc
  · rintro ⟨rfl, hne, hdot⟩
    have ht : (label ++ 46 :: hostname).take ((label ++ 46 :: hostname).length - (hostname.length + 1)) = label := by
      rw [length_append, length_cons, Nat.add_sub_cancel, take_left]
    rw [ht]
    exact if_pos ⟨rfl, hne, hdot⟩

/-! ### What the code does with a host -/

section Fpm

variable {hostname host : Bytes} {appid : ℤ} {appinfo : Bytes → Option ℤ}

theorem initAppid_of_absent (h : ¬ hostname <:+: host) :
    initAppid (ascii "fpm-fcgi") (some host) hostname appid appinfo = .ok ⟨-1, [], none, none⟩ := by
  have hs := strstr_eq_none_iff.mpr h
  simp only [initAppid, hs]
  rfl

theorem initAppid_of_isPrefix (h : hostname <+: host) :
    initAppid (ascii "fpm-fcgi") (some host) hostname appid appinfo = .ok ⟨0, [], none, none⟩ := by
  have hs := strstr_eq_zero h
  simp only [initAppid, hs]
  rfl

/-- `strstr` finds the name somewhere after the start. -/
theorem strstr_eq_succ (hin : hostname <:+: host) (hpre : ¬ hostname <+: host) :
    ∃ k, strstr hostname host = some (k + 1) := by
  cases hs : strstr hostname host with
  | none => exact absurd hin (strstr_eq_none_iff.mp hs)
  | some k =>
    cases k with
    | zero => exact absurd (by simpa using (strstr_eq_some_iff.mp hs).2.1) hpre
    | succ k => exact ⟨k, rfl⟩

theorem initAppid_of_no_dot (hin : hostname <:+: host) (hpre : ¬ hostname <+: host) (hdot : 46 ∉ host) :
    initAppid (ascii "fpm-fcgi") (some host) hostname appid appinfo = .ok ⟨-1, [], none, none⟩ := by
  obtain ⟨k, hk⟩ := strstr_eq_succ hin hpre
  have hd : strstr (ascii ".") host = none :=
    strstr_eq_none_iff.mpr fun h => hdot (h.subset (by decide))
  simp only [initAppid, hk, hd]
  rfl

/-- With a dot in the host, the text before the first dot is looked up, whatever follows it. -/
theorem initAppid_of_dot {label rest : Bytes} (hin : hostname <:+: label ++ 46 :: rest)
    (hpre : ¬ hostname <+: label ++ 46 :: rest) (hdot : 46 ∉ label) :
    initAppid (ascii "fpm-fcgi") (some (label ++ 46 :: rest)) hostname appid appinfo =
      if Fits (appidQuery label) then .ok ⟨(appinfo label).getD (-1), label, some label, none⟩
      else .error .queryBuffer := by
  obtain ⟨k, hk⟩ := strstr_eq_succ hin hpre
  have hd : strstr (ascii ".") (label ++ 46 :: rest) = some label.length := strstr_singleton hdot
  have hcli : ascii "fpm-fcgi" ≠ ascii "cli" := by decide
  simp only [initAppid, hk, hd, hcli, if_false, ne_eq, not_true, take_left, newSprintf]
  by_cases hf : Fits (appidQuery label)
  · cases hq : appinfo label <;> simp [hf]
  · simp [hf]

end Fpm

/-! ### Which class a host has, and which outcomes meet it -/

section Class

variable {hostname host label : Bytes}

theorem hostClass_eq_privileged_iff : hostClass hostname host = .privileged ↔ host = hostname := by
  unfold hostClass
  split_ifs with h
  · simp [h]
  · cases subdomainOf hostname host <;> simp [h]

theorem hostClass_eq_app_iff :
    hostClass hostname host = .app label ↔ host = label ++ 46 :: hostname ∧ label ≠ [] ∧ 46 ∉ label := by
  rw [← subdomainOf_eq_some_iff, hostClass]
  split_ifs with h
  · have hnone : subdomainOf hostname host ≠ some label := by
      intro hs
      have hlen := congrArg List.length (h.symm.trans (subdomainOf_eq_some_iff.mp hs).1)
      simp only [length_append, length_cons] at hlen
      omega
    simp [hnone]
  · cases subdomainOf hostname host <;> simp

theorem hostClass_eq_outOfControl (h : host ≠ hostname)
    (hl : ∀ label, label ≠ [] → 46 ∉ label → host ≠ label ++ 46 :: hostname) :
    hostClass hostname host = .outOfControl := by
  cases hc : hostClass hostname host with
  | privileged => exact absurd (hostClass_eq_privileged_iff.mp hc) h
  | app label =>
    obtain ⟨heq, hne, hdot⟩ := hostClass_eq_app_iff.mp hc
    exact absurd heq (hl label hne hdot)
  | outOfControl => rfl

end Class

section Meets

variable {appinfo : Bytes → Option ℤ} {name : Bytes} {error : Option Bytes} {c : HostClass}

theorem meets_zero_iff : AppidOutcome.Meets appinfo ⟨0, name, none, error⟩ c ↔ c = .privileged := by
  cases c <;> simp [AppidOutcome.Meets]

theorem meets_neg_one_iff : AppidOutcome.Meets appinfo ⟨-1, name, none, error⟩ c ↔ c = .outOfControl := by
  cases c <;> simp [AppidOutcome.Meets]

/-- What was looked up is right for the host of that application only. -/
theorem meets_lookup_iff {label : Bytes} :
    AppidOutcome.Meets appinfo ⟨(appinfo label).getD (-1), name, some label, error⟩ c ↔ c = .app label := by
  cases c with
  | privileged | outOfControl => simp [AppidOutcome.Meets]
  | app l =>
    simp only [AppidOutcome.Meets, Option.some.injEq, HostClass.app.injEq]
    constructor
    · exact fun h => h.2.symm
    · rintro rfl
      exact ⟨rfl, rfl⟩

end Meets

/-- **Which hosts are mapped as intended**: under FPM `init_appid` meets the class of
the host just when the configured name is nowhere in the host, or is all of it, or is not
at its start while the host has no dot or is one non-empty label, a dot and the configured
name, the look-up of which fits the statement buffer. -/
theorem initAppid_meets_hostClass_iff (hostname host : Bytes) (appid : ℤ) (appinfo : Bytes → Option ℤ) :
    (∃ out, initAppid (ascii "fpm-fcgi") (some host) hostname appid appinfo = .ok out ∧
        out.Meets appinfo (hostClass hostname host)) ↔
      ¬ hostname <:+: host ∨ host = hostname ∨
        (¬ hostname <+: host ∧ (46 ∉ host ∨ ∃ label, label ≠ [] ∧ 46 ∉ label ∧
          host = label ++ 46 :: hostname ∧ Fits (appidQuery label))) := by
  by_cases hin : hostname <:+: host
  swap
  · -- the name is nowhere in the host: both say `-1`
    have hclass : hostClass hostname host = .outOfControl := by
      refine hostClass_eq_outOfControl (fun h => hin (h ▸ infix_rfl)) fun label _ _ h => hin ?_
      rw [h]
      exact (suffix_cons 46 hostname).isInfix.trans (suffix_append _ _).isInfix
    simp [initAppid_of_absent hin, meets_neg_one_iff, hclass, hin]
  by_cases hpre : hostname <+: host
  · -- the host begins with the name: privileged, rightly only if it is the name
    simp [initAppid_of_isPrefix hpre, meets_zero_iff, hostClass_eq_privileged_iff, hin, hpre]
  have hne : host ≠ hostname := fun h => hpre (h ▸ prefix_rfl)
  simp only [hin, hne, hpre, not_true, not_false_eq_true, true_and, false_or]
  rcases exists_first_separator 46 host with hdot | ⟨label, rest, hdot, rfl⟩
  · -- no dot in the host
    have hclass := hostClass_eq_outOfControl hne fun label _ _ h => hdot (by simp [h])
    simp [initAppid_of_no_dot hin hpre hdot, meets_neg_one_iff, hclass, hdot]
  -- the label before the first dot is looked up, so the host must be that of its application
  have hmem : 46 ∈ label ++ 46 :: rest := by simp
  simp only [hmem, not_true, false_or, initAppid_of_dot hin hpre hdot]
  constructor
  · rintro ⟨out, hout, hmeets⟩
    split_ifs at hout with hfits
    cases hout
    obtain ⟨heq, hlabel, -⟩ := hostClass_eq_app_iff.mp (meets_lookup_iff.mp hmeets)
    exact ⟨label, hlabel, hdot, heq, hfits⟩
  · rintro ⟨l, hl, hd, heq, hfits⟩
    obtain rfl : label = l := first_separator_unique hdot hd heq
    exact ⟨_, if_pos hfits, meets_lookup_iff.mpr (hostClass_eq_app_iff.mpr ⟨heq, hl, hd⟩)⟩

/-- Under the default configuration `localhost.evil.com` gets the privileged API. -/
theorem initAppid_privileges_foreign_host :
    ¬ ∃ out, initAppid (ascii "fpm-fcgi") (some (ascii "localhost.evil.com"))
      (ascii "localhost") (-1) (fun _ => none) = .ok out ∧
        out.Meets (fun _ => none) (hostClass (ascii "localhost") (ascii "localhost.evil.com")) := by
  rintro ⟨out, hout, hm⟩
  have hc : hostClass (ascii "localhost") (ascii "localhost.evil.com") = .outOfControl := by decide
  have hr : initAppid (ascii "fpm-fcgi") (some (ascii "localhost.evil.com")) (ascii "localhost") (-1)
      (fun _ => none) = .ok ⟨0, [], none, none⟩ := by decide
  rw [hr, Except.ok.injEq] at hout
  subst hout
  rw [hc] at hm
  exact absurd hm.1 (by decide)

end PhpSandbox.Sandbox
