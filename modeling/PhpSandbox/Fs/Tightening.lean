import PhpSandbox.Fs.OpenBasedir
import PhpSandbox.Lib.Runs

/-!
# Changing `open_basedir` and the current directory

A script may change `open_basedir` with `ini_set`, whose handler lets it only
choose directories that are accepted so far, and the current directory with
`chdir` (`ext/standard/dir.c`), which has to be accepted as well. Entries of
`open_basedir` that are relative are looked up again at each check, in the current
directory of that time.

## The model

A process has a current directory and a value of `open_basedir`; its calls are
`chdir` and `ini_set`. The tree of files does not change.

## What is proved

`onUpdateBaseDir_accepts`: in one directory, `ini_set` adds no path to those that
are accepted. `chdir_accepts`: neither does `chdir`, if the entries are absolute
or `.`, and the current directory is accepted itself. `run_accepts`: so the
accepted paths only become fewer in every run of such calls.
-/

namespace PhpSandbox.Fs

open Lib Option List

/-- The state that matters for the check. -/
structure Process where
  /-- The current directory. -/
  cwd : Place
  openBasedir : Bytes

open Process

/-- A call of the script. -/
inductive Call where
  | chdir (path : Bytes)
  /-- `ini_set` of `open_basedir`. -/
  | iniSet (value : Bytes)

variable (env : Env) (s : Process)

/-- `php_check_open_basedir_ex` accepts the path. -/
def Process.accepts (path : Bytes) : Bool :=
  phpCheckOpenBasedirEx env s.cwd s.openBasedir path

/-- The system's `chdir`. -/
def Env.chdir (cwd : Place) (path : Bytes) : Option Place :=
  (env.openCreat cwd path).filter fun t => env.tree.node t = some .dir

/-- A call, which leaves the state as it is when it fails. -/
def Process.call : Call → Process
  | .chdir path =>
    if s.accepts env path then
      match env.chdir s.cwd path with
      | some t => { s with cwd := t }
      | none => s
    else s
  | .iniSet value => { s with openBasedir := iniSetOpenBasedir env s.cwd s.openBasedir value }

/-! ### `ini_set` -/

section IniSet

variable {env : Env} {cwd : Place} {basedir path : Bytes} {b n m : Place}

/-- Where something is, there are its ancestors, and none is a link. -/
theorem exists_of_suffix (hn : env.tree.IsThere n) (h : b <:+ n) : env.tree.IsThere b := by
  induction n with
  | nil =>
    rw [suffix_nil.mp h]
    exact hn
  | cons c n ih =>
    rcases suffix_cons_iff.mp h with rfl | h
    · exact hn
    · exact ih (.inr (hn.elim env.tree.parent env.tree.parent)) h

section

variable (hcwd : env.tree.node cwd = some .dir)

include hcwd

/-- `.` is the current directory as an entry, -/
theorem basePlace_dot (h : basePlace env cwd [46] = some b) : b = cwd := by
  obtain ⟨hb, resolved, hexp, htext⟩ := basePlace_eq_some hcwd h
  rw [localOpenBasedir, if_pos rfl] at hexp
  rw [expandFilepath_dir hcwd (length_lt_of_expandFilepath hexp)] at hexp
  cases hexp
  rw [← htext.placeOf hb.names, IsTextOf.placeOf (.inl rfl) (env.tree.names hcwd)]

/-- and as a path. -/
theorem nearest_dot (h : nearest env cwd [46] = some n) : n = cwd := by
  have hopen : env.openCreat cwd [46] = some cwd := by
    have hwalk : env.tree.walk true env.symloopMax cwd [[46]] = some (cwd, env.symloopMax) :=
      (FileTree.walk_here rfl).trans FileTree.walk_nil
    exact congrArg (Option.map Prod.fst) hwalk
  obtain ⟨pathTmp, hexp⟩ := exists_expandFilepath h
  rw [nearest_of_openCreat hcwd hopen hexp (.inr hcwd)] at h
  exact (some.inj h).symm

/-- **An entry of something that is there is judged by itself.** -/
theorem nearest_basePlace (hb : basePlace env cwd basedir = some b)
    (hx : env.tree.IsThere b) (hm : nearest env cwd basedir = some m) : m = b := by
  by_cases hdot : basedir = [46]
  · subst hdot
    rw [nearest_dot hcwd hm, basePlace_dot hcwd hb]
  obtain ⟨hb, resolved, hexp, htext⟩ := basePlace_eq_some hcwd hb
  obtain ⟨pathTmp, hexp'⟩ := exists_expandFilepath hm
  rw [localOpenBasedir, if_neg hdot, take_of_length_le (length_lt_of_expandFilepath hexp').le, hexp'] at hexp
  cases hexp
  rw [nearest_of_expandFilepath hexp' hb htext hx] at hm
  exact (some.inj hm).symm

end

/-- What is accepted through an entry that is accepted itself, is accepted. -/
theorem Accepts.trans {e e' : Bytes} (he : e.getLast? = some 47 → m = [] → e'.getLast? = some 47)
    (h' : Accepts e' m b) (h : Accepts e b n) : Accepts e' m n := by
  refine ⟨h'.1.trans h.1, fun hm => ?_⟩
  rcases h'.2 hm with hslash | hb
  · exact .inl hslash
  · exact (h.2 hb).imp_left fun hslash => he hslash hm

/-- No entry of the list stands for the root without a slash at its end. -/
def NoBareRoot (env : Env) (s : Process) : Prop :=
  ∀ e ∈ entries 58 s.openBasedir, basePlace env s.cwd e = some [] → e.getLast? = some 47

/-- **`ini_set` adds nothing** to what is accepted in the current directory, unless an entry that
stands for the root is written without a slash. -/
theorem onUpdateBaseDir_accepts {s : Process} {value : Bytes} (hcwd : env.tree.node s.cwd = some .dir)
    (hne : s.openBasedir ≠ []) (hroot : NoBareRoot env s)
    (hset : onUpdateBaseDir env s.cwd s.openBasedir value = some value)
    (h : phpCheckOpenBasedirEx env s.cwd value path) : s.accepts env path := by
  unfold onUpdateBaseDir at hset
  rw [if_neg hne] at hset
  split_ifs at hset with hvalue hall
  obtain ⟨hlen, n, hn, e, he, b, hb, hacc⟩ := (phpCheckOpenBasedirEx_iff hcwd hvalue).mp h
  -- the entry that accepts the path was accepted by one of the old list
  obtain ⟨-, m, hm, e', he', b', hb', hacc'⟩ :=
    (phpCheckOpenBasedirEx_iff hcwd hne).mp (all_eq_true.mp hall e he)
  have hx := exists_of_suffix (nearest_exists hcwd hn).2 hacc.1
  obtain rfl := nearest_basePlace hcwd hb hx hm
  refine (phpCheckOpenBasedirEx_iff hcwd hne).mpr ⟨hlen, n, hn, e', he', b', hb', ?_⟩
  exact Accepts.trans (fun _ hbare => hroot e' he' (hbare ▸ hb')) hacc' hacc

end IniSet

/-! ### `chdir` -/

section Chdir

variable {env : Env} {cwd cwd' : Place} {basedir path pathTmp : Bytes}

/-- What an absolute path is expanded to does not depend on the current directory. -/
theorem expandFilepath_absolute (habs : isAbsolute path) :
    expandFilepath env cwd path = expandFilepath env cwd' path := by
  simp [expandFilepath, virtualFileEx, rawComponents, origin, habs]

theorem basePlace_absolute (habs : isAbsolute basedir) : basePlace env cwd basedir = basePlace env cwd' basedir := by
  have hdot : basedir ≠ [46] := by
    rintro rfl
    cases habs
  have htake : isAbsolute (basedir.take (maxPathLen - 1)) := by
    cases basedir with
    | nil => cases habs
    | cons b s => exact habs
  simp only [basePlace, resolvedBasedir, localOpenBasedir, hdot, if_false]
  rw [expandFilepath_absolute htake]

/-- A text that is left when an absolute one is cut at slashes. -/
def Rooted (s : Bytes) : Prop := s = [] ∨ isAbsolute s

theorem Rooted.beforeLast {s u : Bytes} (hs : Rooted s) (h : beforeLast 47 s = some u) : Rooted u := by
  obtain ⟨t, -, rfl⟩ := beforeLast_eq_some_iff.mp h
  cases u with
  | nil => exact .inl rfl
  | cons b u => exact .inr (hs.resolve_left (by simp))

/-- The loop depends on the current directory only in that it may end there. -/
theorem stripMissing_rooted (hs : Rooted pathTmp) :
    stripMissing env cwd pathTmp = stripMissing env cwd' pathTmp ∨
      stripMissing env cwd pathTmp = tsrmRealpath env cwd [] ∧
        stripMissing env cwd' pathTmp = tsrmRealpath env cwd' [] := by
  induction hlen : pathTmp.length using Nat.strong_induction_on generalizing pathTmp with
  | _ k ih =>
    rw [stripMissing_eq, stripMissing_eq]
    rcases hs with rfl | habs
    · right
      simp [beforeLast]
    have hreal : tsrmRealpath env cwd pathTmp = tsrmRealpath env cwd' pathTmp := by
      rw [tsrmRealpath_absolute habs, tsrmRealpath_absolute habs]
    rw [hreal]
    cases tsrmRealpath env cwd' pathTmp with
    | some r => exact .inl rfl
    | none =>
      cases hcut : beforeLast 47 pathTmp with
      | none => exact .inl rfl
      | some rest =>
        have hlt : rest.length < k := by
          obtain ⟨t, -, rfl⟩ := beforeLast_eq_some_iff.mp hcut
          simp [← hlen]
        exact ih _ hlt (Rooted.beforeLast (.inr habs) hcut) rfl

/-- The text of a link to an absolute path, or to a name in the same directory. -/
def Plain (t : Bytes) : Prop := isAbsolute t ∨ 47 ∉ t

/-- It has no slash, or an absolute text before its last one. -/
theorem Plain.beforeLast {t u : Bytes} (ht : Plain t) (hcut : beforeLast 47 t = some u) : Rooted u := by
  rcases ht with habs | hslash
  · exact Rooted.beforeLast (.inr habs) hcut
  · obtain ⟨v, -, rfl⟩ := beforeLast_eq_some_iff.mp hcut
    exact absurd (by simp) hslash

theorem resolveExisting_absolute (habs : isAbsolute pathTmp) (hplain : ∀ t ∈ env.readlink cwd' pathTmp, Plain t) :
    resolveExisting env cwd pathTmp = resolveExisting env cwd' pathTmp ∨
      resolveExisting env cwd pathTmp = tsrmRealpath env cwd [] ∧
        resolveExisting env cwd' pathTmp = tsrmRealpath env cwd' [] := by
  have hreal : tsrmRealpath env cwd pathTmp = tsrmRealpath env cwd' pathTmp := by
    rw [tsrmRealpath_absolute habs, tsrmRealpath_absolute habs]
  have hlink : env.readlink cwd pathTmp = env.readlink cwd' pathTmp := by
    simp [Env.readlink, origin, habs]
  unfold resolveExisting
  rw [hreal, hlink]
  cases tsrmRealpath env cwd' pathTmp with
  | some r => exact .inl rfl
  | none =>
    simp only
    cases hcut : beforeLast 47 ((env.readlink cwd' pathTmp).getD pathTmp) with
    | none => exact .inl rfl
    | some u =>
      have hu : Rooted u := by
        cases ht : env.readlink cwd' pathTmp with
        | none =>
          rw [ht, getD_none] at hcut
          exact Rooted.beforeLast (.inr habs) hcut
        | some t =>
          rw [ht, getD_some] at hcut
          exact (hplain t ht).beforeLast hcut
      exact stripMissing_rooted hu

/-- If the path is itself a link, it is a plain one. -/
def PlainLink (env : Env) (cwd : Place) (path : Bytes) : Prop :=
  ∀ t ∈ (expandFilepath env cwd path).bind (env.readlink cwd), Plain t

instance (env : Env) (cwd : Place) (path : Bytes) : Decidable (PlainLink env cwd path) :=
  inferInstanceAs (Decidable (∀ t ∈ (expandFilepath env cwd path).bind (env.readlink cwd), isAbsolute t ∨ 47 ∉ t))

/-- **The place an absolute path is judged by** depends on the current directory only in that it
may be that directory. -/
theorem nearest_absolute (habs : isAbsolute path) (hlink : PlainLink env cwd' path)
    (hcwd' : env.tree.node cwd' = some .dir) :
    nearest env cwd path = nearest env cwd' path ∨
      nearest env cwd path = (tsrmRealpath env cwd []).map placeOf ∧
        nearest env cwd' path = (tsrmRealpath env cwd' []).map placeOf := by
  unfold nearest resolvedName
  have hexp : expandFilepath env cwd path = expandFilepath env cwd' path := expandFilepath_absolute habs
  rw [hexp]
  cases hexp' : expandFilepath env cwd' path with
  | none => exact .inl rfl
  | some pathTmp =>
    obtain ⟨p, -, -, hs⟩ := expandFilepath_eq_some hcwd' hexp'
    have habs' : isAbsolute pathTmp := by
      rcases hs with rfl | ⟨-, -, rfl⟩
      · exact isAbsolute_pathText p
      · exact isAbsolute_joined (by simp)
    rw [bind_some, bind_some]
    rw [PlainLink, hexp', bind_some] at hlink
    rcases resolveExisting_absolute habs' hlink with h | ⟨h, h'⟩
    · exact .inl (congrArg _ h)
    · exact .inr ⟨congrArg _ h, congrArg _ h'⟩

/-- The current directory is judged by itself, if it is not too long. -/
theorem nearest_cwd (hcwd : env.tree.node cwd = some .dir) {n : Place} (h : nearest env cwd (pathText cwd) = some n) :
    n = cwd ∧ (pathText cwd).length < maxPathLen - 1 := by
  obtain ⟨pathTmp, hexp⟩ := exists_expandFilepath h
  have hlen := length_lt_of_expandFilepath hexp
  rw [nearest_of_expandFilepath (expandFilepath_dir hcwd hlen) ⟨env.tree.names hcwd, hlen⟩ (.inl rfl)
    (.inr hcwd)] at h
  exact ⟨(some.inj h).symm, hlen⟩

/-- What `chdir` needs of the state for it not to add this path. -/
structure ChdirSafe (env : Env) (path : Bytes) (s : Process) : Prop where
  entries : ∀ e ∈ entries 58 s.openBasedir, isAbsolute e ∨ e = [46]
  cwd : s.accepts env (pathText s.cwd)
  link : PlainLink env s.cwd path

/-- **`chdir` does not add** an absolute path to what is accepted, in such a state. -/
theorem chdir_accepts {s : Process} {q : Bytes} {t : Place} (hcwd : env.tree.node s.cwd = some .dir)
    (hne : s.openBasedir ≠ []) (hsafe : ChdirSafe env path s) (hq : s.accepts env q) (ht : env.chdir s.cwd q = some t)
    (habs : isAbsolute path) (h : accepts env { s with cwd := t } path) : s.accepts env path := by
  obtain ⟨hopen, hdir⟩ := filter_eq_some_iff.mp ht
  replace hdir : env.tree.node t = some .dir := by simpa using hdir
  obtain ⟨hlen, n, hn, e, he, b, hb, hacc⟩ := (phpCheckOpenBasedirEx_iff hdir hne).mp h
  have hagain : nearest env t path = nearest env s.cwd path ∨ _ := nearest_absolute habs hsafe.link hcwd
  rcases hagain with hsame | ⟨-, hsame⟩
  · -- judged by the same place as before
    rw [hsame] at hn
    rcases hsafe.entries e he with heabs | rfl
    · have hbase : basePlace env t e = basePlace env s.cwd e := basePlace_absolute heabs
      rw [hbase] at hb
      exact (phpCheckOpenBasedirEx_iff hcwd hne).mpr ⟨hlen, n, hn, e, he, b, hb, hacc⟩
    -- by the new current directory, which is accepted
    obtain rfl := basePlace_dot hdir hb
    obtain ⟨-, m, hm, e', he', b', hb', hacc'⟩ := (phpCheckOpenBasedirEx_iff hcwd hne).mp hq
    obtain ⟨pathTmp, hexp⟩ := exists_expandFilepath hm
    rw [nearest_of_openCreat hcwd hopen hexp (.inr hdir)] at hm
    cases hm
    have hdot : [46].getLast? ≠ some (47 : UInt8) := by decide
    exact (phpCheckOpenBasedirEx_iff hcwd hne).mpr
      ⟨hlen, n, hn, e', he', b', hb', Accepts.trans (fun hslash => absurd hslash hdot) hacc' hacc⟩
  · -- by the current directory, which was accepted before
    obtain ⟨-, m, hm, e', he', b', hb', hacc'⟩ := (phpCheckOpenBasedirEx_iff hcwd hne).mp hsafe.cwd
    obtain ⟨rfl, hshort⟩ := nearest_cwd hcwd hm
    rw [tsrmRealpath_nil hcwd, if_pos hshort, map_some, IsTextOf.placeOf (.inl rfl) (env.tree.names hcwd)] at hsame
    exact (phpCheckOpenBasedirEx_iff hcwd hne).mpr ⟨hlen, _, hsame, e', he', b', hb', hacc'⟩

end Chdir

/-! ### Runs -/

/-- What holds of a process as long as `open_basedir` is set. -/
structure Process.Confined (env : Env) (s : Process) : Prop where
  /-- The current directory is a directory, -/
  isDir : env.tree.node s.cwd = some .dir
  /-- which `getcwd` can report. -/
  fits : (pathText s.cwd).length < maxPathLen
  openBasedir_ne : s.openBasedir ≠ []

/-- The calls that do not add this path to what is accepted, by the state they are made in. -/
def Safe (path : Bytes) (s : Process) : Call → Prop
  | .chdir _ => ChdirSafe env path s
  | .iniSet _ => NoBareRoot env s

/-- The path is not accepted in the second state only. -/
def Tighter (path : Bytes) (s s' : Process) : Prop := s'.accepts env path → s.accepts env path

instance (env : Env) (path : Bytes) : Std.Refl (Tighter env path) := ⟨fun _ h => h⟩

instance (env : Env) (path : Bytes) : IsTrans Process (Tighter env path) := ⟨fun _ _ _ h h' hacc => h (h' hacc)⟩

section Runs

variable {env : Env} {s : Process}

/-- What a call can do: nothing, go to a directory that is accepted, or set another list. -/
theorem call_cases (hne : s.openBasedir ≠ []) (c : Call) :
    s.call env c = s ∨
      (∃ q t, c = .chdir q ∧ s.accepts env q ∧ env.chdir s.cwd q = some t ∧ s.call env c = { s with cwd := t }) ∨
      ∃ value, c = .iniSet value ∧ value ≠ [] ∧ onUpdateBaseDir env s.cwd s.openBasedir value = some value ∧
        s.call env c = { s with openBasedir := value } := by
  cases c with
  | chdir q =>
    rw [call]
    by_cases hq : s.accepts env q
    · rw [if_pos hq]
      cases ht : env.chdir s.cwd q with
      | none => exact .inl rfl
      | some t => exact .inr (.inl ⟨q, t, rfl, hq, ht, rfl⟩)
    · exact .inl (if_neg hq)
  | iniSet value =>
    rw [call, iniSetOpenBasedir]
    cases hset : onUpdateBaseDir env s.cwd s.openBasedir value with
    | none => exact .inl rfl
    | some value' =>
      have hset' := hset
      unfold onUpdateBaseDir at hset'
      rw [if_neg hne] at hset'
      split_ifs at hset' with hvalue hall
      cases hset'
      exact .inr (.inr ⟨value, rfl, hvalue, hset, rfl⟩)

variable (hs : s.Confined env)

include hs

/-- A directory that `chdir` goes to is not too long for `getcwd`. -/
theorem chdir_fits {q : Bytes} {t : Place} (hq : s.accepts env q)
    (ht : env.chdir s.cwd q = some t) : env.tree.node t = some .dir ∧ (pathText t).length < maxPathLen := by
  obtain ⟨hopen, hdir⟩ := filter_eq_some_iff.mp ht
  obtain ⟨-, m, hm, -⟩ := (phpCheckOpenBasedirEx_iff hs.isDir hs.openBasedir_ne).mp hq
  obtain ⟨pathTmp, hexp⟩ := exists_expandFilepath hm
  have hshort := (expandFilepath_openCreat hs.isDir hopen hexp).1.short
  exact ⟨by simpa using hdir, by omega⟩

/-- **A call keeps a process confined.** -/
theorem call_confined (c : Call) : (s.call env c).Confined env := by
  rcases call_cases hs.openBasedir_ne c with h | ⟨q, t, -, hq, ht, h⟩ | ⟨value, -, hvalue, -, h⟩
  · rwa [h]
  · rw [h]
    obtain ⟨hdir, hfits⟩ := chdir_fits hs hq ht
    exact ⟨hdir, hfits, hs.openBasedir_ne⟩
  · rw [h]
    exact ⟨hs.isDir, hs.fits, hvalue⟩

/-- **A safe call does not add an absolute path** to those that are accepted. -/
theorem call_tighter {c : Call} {path : Bytes} (habs : isAbsolute path) (hsafe : Safe env path s c) :
    Tighter env path s (s.call env c) := by
  intro hacc
  rcases call_cases hs.openBasedir_ne c with h | ⟨q, t, rfl, hq, ht, h⟩ | ⟨value, rfl, -, hset, h⟩
  · rwa [h] at hacc
  · rw [h] at hacc
    exact chdir_accepts hs.isDir hs.openBasedir_ne hsafe hq ht habs hacc
  · rw [h] at hacc
    exact onUpdateBaseDir_accepts hs.isDir hs.openBasedir_ne hsafe hset hacc

end Runs

/-- **In every run of safe calls the accepted absolute paths only become fewer**, from any of its
states on. -/
theorem run_accepts (env : Env) (cwd : env.Cwd) (openBasedir : Bytes) (hne : openBasedir ≠ [])
    (before after : List Call) (path : Bytes) (habs : isAbsolute path)
    (hsafe : Along (call env) (Safe env path) ⟨cwd.place, openBasedir⟩ (before ++ after))
    (h : (run (call env) ⟨cwd.place, openBasedir⟩ (before ++ after)).accepts env path) :
    (run (call env) ⟨cwd.place, openBasedir⟩ before).accepts env path := by
  obtain ⟨hbefore, hafter⟩ := along_append.mp hsafe
  rw [run_append] at h
  have hconf : Process.Confined env (run (call env) ⟨cwd.place, openBasedir⟩ before) :=
    run_invariant (I := Process.Confined env) (fun _ c hs _ => call_confined hs c)
      ⟨cwd.isDir, cwd.fits, hne⟩ hbefore
  exact run_rel (I := Process.Confined env) (r := Tighter env path) (fun _ c hs _ => call_confined hs c)
    (fun _ _ hs hok => call_tighter hs habs hok) hconf hafter h

/-- A run of safe calls in `/base`, with `/base/sub` in it: the list becomes `/base/sub`. -/
theorem run_accepts_sub :
    ∃ (env : Env) (cwd : env.Cwd),
      (run (call env) ⟨cwd.place, ascii "/base"⟩ [.chdir (ascii "sub")]).accepts env (ascii "/base/sub/x") :=
  let env : Env := ⟨.ofDirs [[ascii "sub", ascii "base"]] (by decide +kernel), 40⟩
  ⟨env, ⟨[ascii "base"], by decide +kernel, by decide +kernel⟩,
    run_accepts env _ _ (by decide) [.chdir (ascii "sub")] [.iniSet (ascii "/base/sub")] (ascii "/base/sub/x")
      (by decide) ⟨⟨by decide +kernel, by decide +kernel, by decide +kernel⟩,
        by unfold Safe NoBareRoot; decide +kernel, trivial⟩ (by decide +kernel)⟩

/-- In `/a/base`, with `/a/base` in force: going to `/a/base/sub`, setting `..`, and going back to
`..` adds `/a/other`. -/
theorem run_gains_path :
    ∃ (env : Env) (cwd : env.Cwd) (openBasedir : Bytes) (calls : List Call) (path : Bytes),
      openBasedir ≠ [] ∧ isAbsolute path ∧ ¬ accepts env ⟨cwd.place, openBasedir⟩ path ∧
        (run (call env) ⟨cwd.place, openBasedir⟩ calls).accepts env path :=
  ⟨⟨.ofDirs [[ascii "sub", ascii "base", ascii "a"], [ascii "other", ascii "a"]] (by decide +kernel), 40⟩,
    ⟨[ascii "base", ascii "a"], by decide +kernel, by decide +kernel⟩, ascii "/a/base",
    [.chdir (ascii "sub"), .iniSet (ascii ".."), .chdir (ascii "..")], ascii "/a/other", by decide +kernel,
    by decide +kernel, by decide +kernel, by decide +kernel⟩

end PhpSandbox.Fs
