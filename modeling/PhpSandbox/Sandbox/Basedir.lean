import PhpSandbox.Fs.OpenBasedir
import PhpSandbox.Sandbox.Query

/-!
# Confining an application to its directories

`set_basedir` of `ext/sandbox/sandbox.c`: it builds the list of the directories
that an application may use, and makes it the `open_basedir` of the request with
`ini_set`.

## The model

The list is built in a buffer of `QUERY_MAXLEN` bytes by appending, and `ini_set`
is the one of `Fs.OpenBasedir`, whose handler may refuse the value. `ini_set` is
not among the disabled functions.

## What is proved

`buildBasedir_eq_ok_iff`: the text that is built, and when it fits the buffer.
`setBasedir_inside_iff`: what the length check leaves open, since the name of the
application is appended once for every entry.
`setBasedir_in_force_iff`: when a reported success means that the list is in force.
-/

namespace PhpSandbox.Sandbox

open Lib Fs List

/-- What `set_basedir` reads of the sandbox's globals. -/
structure BasedirGlobals where
  /-- `sandbox.chroot_basedir`. -/
  chrootBasedir : Bytes
  /-- `sandbox.chroot_basedir_peruser`, a list separated by colons. -/
  chrootBasedirPeruser : Bytes
  /-- The application's name. -/
  appname : Bytes

open BasedirGlobals

/-- The loop of `set_basedir` over the entries of `chroot_basedir_peruser`. -/
def appendUserbase (appname basedir userbase : Bytes) : Except Overflow Bytes :=
  if _h : userbase = [] then .ok basedir
  else
    match strstr [58] userbase with
    | none => [userbase, [47], appname].foldlM appendStr basedir
    | some separator =>
      match [userbase.take separator, [47], appname, [58]].foldlM appendStr basedir with
      | .error e => .error e
      | .ok basedir => appendUserbase appname basedir (userbase.drop (separator + 1))
termination_by userbase.length
decreasing_by
  have := length_pos_of_ne_nil _h
  rw [length_drop]
  omega

variable (g : BasedirGlobals)

/-- The text that `set_basedir` builds. -/
def buildBasedir : Except Overflow Bytes :=
  if g.chrootBasedir = [] then appendUserbase g.appname [] g.chrootBasedirPeruser
  else
    match [g.chrootBasedir, [58]].foldlM appendStr [] with
    | .error e => .error e
    | .ok basedir => appendUserbase g.appname basedir g.chrootBasedirPeruser

/-- The length check, which ends in `FAILURE`. -/
def basedirTooLong : Bool :=
  queryMaxlen ≤ g.appname.length + g.chrootBasedir.length + g.chrootBasedirPeruser.length + 3

/-- `set_basedir`: whether it returns `SUCCESS`, and the `open_basedir` in force afterwards. -/
def setBasedir (env : Env) (cwd : Place) (g : BasedirGlobals) (openBasedir : Bytes) : Except Overflow (Bool × Bytes) :=
  if basedirTooLong g then .ok (false, openBasedir)
  else
    match buildBasedir g with
    | .error e => .error e
    | .ok basedir => .ok (true, iniSetOpenBasedir env cwd openBasedir basedir)

/-! ### The text -/

/-- Entries, each with a colon behind it. -/
def terminated (pieces : List Bytes) : Bytes := pieces.flatMap (· ++ [58])

/-- The text is a list of these entries: the colon behind the last one may be left out. -/
def IsListOf (text : Bytes) (pieces : List Bytes) : Prop :=
  text = terminated pieces ∨ text ++ [58] = terminated pieces

instance (text : Bytes) (pieces : List Bytes) : Decidable (IsListOf text pieces) :=
  inferInstanceAs (Decidable (_ ∨ _))

variable (appname userbase : Bytes)

/-- The application's own directories. -/
def userDirs : List Bytes := (entries 58 userbase).map (· ++ 47 :: appname)

/-- The directories that an application shall be confined to. -/
def BasedirGlobals.dirs : List Bytes :=
  (if g.chrootBasedir = [] then [] else [g.chrootBasedir]) ++ userDirs g.appname g.chrootBasedirPeruser

/-- The text of the application's own directories: with a colon at its end if `userbase` has one. -/
def userText : Bytes :=
  if userbase.getLast? = some 58 then terminated (userDirs appname userbase)
  else (terminated (userDirs appname userbase)).dropLast

/-- The text of the directories an application shall be confined to. -/
def BasedirGlobals.text : Bytes :=
  (if g.chrootBasedir = [] then [] else g.chrootBasedir ++ [58]) ++ userText g.appname g.chrootBasedirPeruser

section Text

variable {appname basedir userbase value : Bytes}

@[simp] theorem terminated_nil : terminated [] = [] := rfl

@[simp] theorem terminated_cons (p : Bytes) (pieces : List Bytes) :
    terminated (p :: pieces) = p ++ 58 :: terminated pieces := by
  simp [terminated]

theorem terminated_append (pieces pieces' : List Bytes) :
    terminated (pieces ++ pieces') = terminated pieces ++ terminated pieces' := flatMap_append

theorem entries_ne_nil (h : userbase ≠ []) : entries 58 userbase ≠ [] := by
  rcases exists_first_separator 58 userbase with hsep | ⟨e, t, he, rfl⟩
  · rw [entries_of_not_mem hsep h]
    simp
  · rw [entries_append_cons he]
    simp

theorem userText_nil : userText appname [] = [] := rfl

/-- The last entry, without a colon behind it. -/
theorem userText_last (hsep : 58 ∉ userbase) (hne : userbase ≠ []) :
    userText appname userbase = userbase ++ 47 :: appname := by
  have hlast : userbase.getLast? ≠ some 58 := fun h => hsep (mem_of_getLast? h)
  rw [userText, if_neg hlast, userDirs, entries_of_not_mem hsep hne, map_singleton, terminated_cons,
    terminated_nil, dropLast_concat]

/-- An entry with a colon behind it. -/
theorem userText_entry {e : Bytes} (he : 58 ∉ e) (t : Bytes) :
    userText appname (e ++ 58 :: t) = e ++ 47 :: appname ++ [58] ++ userText appname t := by
  have hdirs : userDirs appname (e ++ 58 :: t) = (e ++ 47 :: appname) :: userDirs appname t := by
    rw [userDirs, entries_append_cons he, map_cons, userDirs]
  unfold userText
  rw [hdirs, terminated_cons]
  by_cases ht : t = []
  · subst ht
    simp [userDirs]
  obtain ⟨p, ps, hps⟩ : ∃ p ps, userDirs appname t = p :: ps :=
    exists_cons_of_ne_nil (by simp [userDirs, entries_ne_nil ht])
  have hlast : (e ++ 58 :: t).getLast? = t.getLast? := by
    rw [getLast?_append_cons, getLast?_cons_of_ne_nil ht]
  rw [hlast]
  split_ifs
  · simp
  · rw [hps, terminated_cons, dropLast_append_of_ne_nil (by simp)]
    simp [dropLast_cons_of_ne_nil]

/-- **The loop** appends the application's own directories, if they fit the buffer. -/
theorem appendUserbase_eq_ok_iff (h : Fits basedir) :
    appendUserbase appname basedir userbase = .ok value ↔
      Fits (basedir ++ userText appname userbase) ∧ value = basedir ++ userText appname userbase := by
  induction hlen : userbase.length using Nat.strong_induction_on generalizing basedir userbase with
  | _ n ih =>
    rw [appendUserbase]
    by_cases hne : userbase = []
    · subst hne
      rw [dif_pos rfl, userText_nil, append_nil, Except.ok.injEq, eq_comm, and_iff_right h]
    rw [dif_neg hne]
    rcases exists_first_separator 58 userbase with hsep | ⟨e, t, he, rfl⟩
    · have hstr : strstr [58] userbase = none :=
        strstr_eq_none_iff.mpr fun hin => hsep (hin.subset (by simp))
      simp only [hstr]
      rw [foldlM_appendStr_eq_ok_iff h, userText_last hsep hne]
      simp
    · have htake : (e ++ 58 :: t).take e.length = e := take_left
      have hdrop : (e ++ 58 :: t).drop (e.length + 1) = t := by
        rw [← drop_drop, drop_left]
        rfl
      simp only [strstr_singleton he, htake, hdrop]
      have hflat : [e, [47], appname, [58]].flatten = e ++ 47 :: appname ++ [58] := by simp
      rw [userText_entry he, ← append_assoc, ← hflat]
      have hlt : t.length < n := by
        rw [← hlen, length_append, length_cons]
        omega
      exact appendStr_then_eq_ok_iff (f := fun basedir => appendUserbase appname basedir t) h
        [e, [47], appname, [58]] fun hfit => ih t.length hlt hfit rfl

/-- The text that is built, and when it fits the buffer. -/
theorem buildBasedir_eq_ok_iff {g : BasedirGlobals} : buildBasedir g = .ok value ↔ Fits g.text ∧ value = g.text := by
  have hempty : Fits [] := by decide
  unfold buildBasedir text
  split_ifs
  · rw [appendUserbase_eq_ok_iff hempty]
  · have hflat : g.chrootBasedir ++ [58] = [] ++ [g.chrootBasedir, [58]].flatten := by simp
    rw [hflat]
    exact appendStr_then_eq_ok_iff (f := fun basedir => appendUserbase g.appname basedir g.chrootBasedirPeruser)
      hempty [g.chrootBasedir, [58]] fun hfit => appendUserbase_eq_ok_iff hfit

variable (appname userbase : Bytes)

/-- The loop writes the list again, with a slash and the name for every entry. -/
theorem length_userText :
    (userText appname userbase).length = userbase.length + (entries 58 userbase).length * (appname.length + 1) := by
  induction hlen : userbase.length using Nat.strong_induction_on generalizing userbase with
  | _ n ih =>
    subst hlen
    by_cases hne : userbase = []
    · subst hne
      rw [userText_nil]
      simp
    rcases exists_first_separator 58 userbase with hsep | ⟨e, t, he, rfl⟩
    · rw [userText_last hsep hne, entries_of_not_mem hsep hne]
      simp
    · have ht := ih t.length (by rw [length_append, length_cons]; omega) t rfl
      rw [userText_entry he, entries_append_cons he]
      simp only [length_append, length_cons, length_nil, ht, Nat.add_mul]
      omega

/-- A list with a colon behind each of its entries ends with one. -/
theorem dropLast_terminated {pieces : List Bytes} (h : pieces ≠ []) :
    (terminated pieces).dropLast ++ [58] = terminated pieces := by
  obtain ⟨front, p, rfl⟩ := (eq_nil_or_concat pieces).resolve_left h
  have hconcat : terminated (front.concat p) = terminated front ++ p ++ [58] := by simp [terminated]
  rw [hconcat, dropLast_concat]

theorem isListOf_userText : IsListOf (userText appname userbase) (userDirs appname userbase) := by
  unfold userText
  split_ifs with h
  · exact .inl rfl
  · by_cases hne : userbase = []
    · subst hne
      exact .inl rfl
    · exact .inr (dropLast_terminated (by simp [userDirs, entries_ne_nil hne]))

/-- It is a list of the directories. -/
theorem BasedirGlobals.isListOf_text (g : BasedirGlobals) : IsListOf g.text g.dirs := by
  have huser := isListOf_userText g.appname g.chrootBasedirPeruser
  unfold text dirs
  split_ifs
  · exact huser
  · rcases huser with h | h
    · exact .inl (by simp [h])
    · exact .inr (by simp [h])

end Text

theorem BasedirGlobals.length_text :
    g.text.length = (if g.chrootBasedir = [] then 0 else g.chrootBasedir.length + 1) + g.chrootBasedirPeruser.length +
      (entries 58 g.chrootBasedirPeruser).length * (g.appname.length + 1) := by
  rw [text, length_append, length_userText, Nat.add_assoc]
  split_ifs <;> simp

/-- **When the text stays inside its buffer.** The length check counts the name of the application
once; the text has it once for every entry of the list. -/
theorem setBasedir_inside_iff (env : Env) (cwd : Place) (g : BasedirGlobals) (openBasedir : Bytes) :
    (∃ result, setBasedir env cwd g openBasedir = .ok result) ↔
      basedirTooLong g ∨ (if g.chrootBasedir = [] then 0 else g.chrootBasedir.length + 1) +
        g.chrootBasedirPeruser.length + (entries 58 g.chrootBasedirPeruser).length * (g.appname.length + 1) <
          queryMaxlen := by
  have hfits : Fits g.text ↔ g.text.length < queryMaxlen := Iff.rfl
  rw [← g.length_text, ← hfits, setBasedir]
  split_ifs with hlong
  · simp [hlong]
  rw [or_iff_right hlong]
  constructor
  · rintro ⟨result, h⟩
    cases hbuild : buildBasedir g with
    | error _ => simp [hbuild] at h
    | ok basedir => exact (buildBasedir_eq_ok_iff.mp hbuild).1
  · intro hfit
    rw [buildBasedir_eq_ok_iff.mpr ⟨hfit, rfl⟩]
    exact ⟨_, rfl⟩

/-- Ten entries and a name of 60 bytes pass the length check, and do not fit. -/
theorem buildBasedir_overflow :
    let g : BasedirGlobals := ⟨[], ascii "/a:/b:/c:/d:/e:/f:/g:/h:/i:/j", replicate 60 97⟩
    ¬ basedirTooLong g ∧ ∀ basedir, buildBasedir g ≠ .ok basedir := by
  intro g
  have hfit : ¬ Fits g.text := by decide +kernel
  exact ⟨by decide, fun basedir h => hfit (buildBasedir_eq_ok_iff.mp h).1⟩

/-- When `ini_set` of a list leaves a list of the directories in force. -/
theorem isListOf_iniSetOpenBasedir_iff {env : Env} {cwd : Place} {g : BasedirGlobals} {openBasedir : Bytes} :
    IsListOf (iniSetOpenBasedir env cwd openBasedir g.text) g.dirs ↔
      openBasedir = [] ∨ IsListOf openBasedir g.dirs ∨
        g.text ≠ [] ∧ ∀ e ∈ entries 58 g.text, phpCheckOpenBasedirEx env cwd openBasedir e := by
  have htext := g.isListOf_text
  unfold iniSetOpenBasedir onUpdateBaseDir
  split_ifs with hold hnew hall
  · simp [hold, htext]
  · simp [hold, hnew]
  · exact iff_of_true htext (.inr (.inr ⟨hnew, all_eq_true.mp hall⟩))
  · have hall : ¬ ∀ e ∈ entries 58 g.text, phpCheckOpenBasedirEx env cwd openBasedir e :=
      fun h => hall (all_eq_true.mpr h)
    simp [hold, hall]

/-- **A reported success means that the list is in force** exactly when the text fits its buffer
and nothing was in force before, or the old value accepts all entries of the new one, or already
was the list. -/
theorem setBasedir_in_force_iff (env : Env) (cwd : env.Cwd) (g : BasedirGlobals) (openBasedir : Bytes) :
    (∃ success value, setBasedir env cwd.place g openBasedir = .ok (success, value) ∧
        (success → IsListOf value g.dirs)) ↔
      basedirTooLong g ∨ Fits g.text ∧
        (openBasedir = [] ∨ IsListOf openBasedir g.dirs ∨
          g.text ≠ [] ∧ ∀ e ∈ entries 58 g.text, phpCheckOpenBasedirEx env cwd.place openBasedir e) := by
  unfold setBasedir
  split_ifs with hlong
  · simp [hlong]
  rw [or_iff_right hlong, ← isListOf_iniSetOpenBasedir_iff]
  by_cases hfit : Fits g.text
  · simp [buildBasedir_eq_ok_iff.mpr ⟨hfit, rfl⟩, hfit]
  · cases hbuild : buildBasedir g with
    | error _ => simp [hfit]
    | ok basedir => exact absurd (buildBasedir_eq_ok_iff.mp hbuild).1 hfit

/-- With `/srv` in force, `set_basedir` reports success for `/tmp` and `/home/blog`, and `/srv`
stays in force. -/
theorem setBasedir_ignores_refusal :
    ∃ (env : Env) (cwd : env.Cwd) (g : BasedirGlobals) (openBasedir value : Bytes),
      setBasedir env cwd.place g openBasedir = .ok (true, value) ∧ ¬ IsListOf value g.dirs :=
  ⟨⟨.ofDirs [[ascii "srv"], [ascii "tmp"]] (by decide +kernel), 40⟩, ⟨[], by decide +kernel, by decide +kernel⟩,
    ⟨ascii "/tmp", ascii "/home", ascii "blog"⟩, ascii "/srv", ascii "/srv", by decide +kernel,
    by decide +kernel⟩

end PhpSandbox.Sandbox
