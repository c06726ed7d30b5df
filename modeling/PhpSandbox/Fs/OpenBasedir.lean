import PhpSandbox.Fs.Realpath

/-!
# The `open_basedir` check

`php_check_specific_open_basedir`, `php_check_open_basedir_ex` and `OnUpdateBaseDir`
of `main/fopen_wrappers.c`: whether a path may be used while `open_basedir` is set,
and whether `open_basedir` may be changed.

## The model

The check is on texts, as in the source: the path is expanded, what is missing at
its end is cut off until the rest resolves, and the result is compared with the
expanded base directory. The loop that cuts has a first turn of its own, in which
a broken link is replaced by its target.

Over it, `nearest` and `basePlace` say which places the two texts stand for. A
base directory accepts a place (`Accepts`) if the place is in it, with one
exception: a root that is not written with a slash at its end accepts the root
only.

## What is proved

`phpCheckSpecificOpenBasedir_iff`: the comparison of the texts is `Accepts` of
the places. `nearest_exists`: the place a path is judged by is there, and no
link. `nearest_of_openCreat`: it is the place that opening the path would open, or
the directory it would create a file in, but for one case: where the file would be
created in the root, it is the current directory. `phpCheckSpecificOpenBasedir_sound_iff`:
the check is sound outside of this case.
-/

namespace PhpSandbox.Fs

open Lib FileTree List Option

variable (env : Env) (cwd : Place)

/-- `readlink`, into a buffer of `MAXPATHLEN - 1` bytes. -/
def Env.readlink (path : Bytes) : Option Bytes :=
  match env.tree.walk false env.symloopMax (origin path cwd) (components path) with
  | none => none
  | some (p, _) =>
    match env.tree.node p with
    | some (.link target) => some (target.take (maxPathLen - 1))
    | _ => none

/-- The loop of `php_check_specific_open_basedir`, from its second turn on. -/
def stripMissing (env : Env) (cwd : Place) (pathTmp : Bytes) : Option Bytes :=
  match tsrmRealpath env cwd pathTmp with
  | some resolvedName => some resolvedName
  | none =>
    match _h : beforeLast 47 pathTmp with
    | none => none
    | some rest => stripMissing env cwd rest
termination_by pathTmp.length
decreasing_by
  obtain ⟨t, -, rfl⟩ := beforeLast_eq_some_iff.mp _h
  simp

/-- The name that the expanded path is resolved to. -/
def resolveExisting (pathTmp : Bytes) : Option Bytes :=
  match tsrmRealpath env cwd pathTmp with
  | some resolved =>
    if pathTmp.getLast? = some 47 ∧ resolved.getLast? ≠ some 47 then some (resolved ++ [47]) else some resolved
  | none =>
    -- the first turn of the loop: a broken symlink is replaced by its target
    (beforeLast 47 ((env.readlink cwd pathTmp).getD pathTmp)).bind (stripMissing env cwd)

/-- The name that `php_check_specific_open_basedir` looks up in the base directory. -/
def resolvedName (path : Bytes) : Option Bytes :=
  (expandFilepath env cwd path).bind (resolveExisting env cwd)

/-- `local_open_basedir`: `.` is the current directory, all else is copied by `strlcpy`. -/
def localOpenBasedir (basedir : Bytes) : Bytes :=
  if basedir = [46] then pathText cwd else basedir.take (maxPathLen - 1)

/-- The base directory that it is looked up in, with a slash at its end. -/
def resolvedBasedir (basedir : Bytes) : Option Bytes :=
  (expandFilepath env cwd (localOpenBasedir cwd basedir)).map fun resolved =>
    if basedir.getLast? = some 47 then
      if resolved.getLast? ≠ some 47 then resolved ++ [47] else resolved
    else resolved ++ [47]

/-- The comparison of the two. -/
def isWithin (base name : Bytes) : Bool :=
  if base.isPrefixOf name then
    !(decide (base.length < name.length) && name.getD (base.length - 1) 0 != 47)
  else
    -- `/openbasedir/` and `/openbasedir` are the same directory
    base.length == name.length + 1 && base.getD (base.length - 1) 0 == 47 && name.isPrefixOf base

/-- `php_check_specific_open_basedir` returns 0. -/
def phpCheckSpecificOpenBasedir (basedir path : Bytes) : Bool :=
  if maxPathLen - 1 < path.length then false
  else
    match resolvedName env cwd path, resolvedBasedir env cwd basedir with
    | some name, some base => isWithin base name
    | _, _ => false

/-- `php_check_open_basedir_ex` returns 0. -/
def phpCheckOpenBasedirEx (openBasedir path : Bytes) : Bool :=
  if openBasedir = [] then true
  else if maxPathLen - 1 < path.length then false
  else (entries 58 openBasedir).any fun basedir => phpCheckSpecificOpenBasedir env cwd basedir path

variable (openBasedir newValue : Bytes)

/-- `OnUpdateBaseDir` at run time: the value of `open_basedir` afterwards, or none for `FAILURE`. -/
def onUpdateBaseDir : Option Bytes :=
  if openBasedir = [] then some newValue
  else if newValue = [] then none
  else if (entries 58 newValue).all (phpCheckOpenBasedirEx env cwd openBasedir) then some newValue
  else none

/-- `ini_set` of `open_basedir`: the value in force afterwards. -/
def iniSetOpenBasedir : Bytes :=
  (onUpdateBaseDir env cwd openBasedir newValue).getD openBasedir

/-! ### Comparing texts is comparing places -/

section Compare

variable {b n : Place} {base name : Bytes}

/-- The place that an absolute text without `.` and `..` stands for. -/
def placeOf (s : Bytes) : Place := ((components s).filter (· ≠ [])).reverse

theorem placeOf_joined {cs : List Bytes} (hne : cs ≠ []) (hcs : ∀ c ∈ cs, 47 ∉ c) :
    placeOf (joined cs) = (cs.filter (· ≠ [])).reverse := by
  rw [placeOf, components_joined hne hcs]

theorem ne_nil_of_isName {c : Bytes} (hc : isName c) : c ≠ [] := by
  rintro rfl
  cases hc

theorem filter_names (hn : ∀ c ∈ n, isName c) : n.reverse.filter (· ≠ []) = n.reverse :=
  filter_eq_self.mpr fun c hc => by simpa using ne_nil_of_isName (hn c (mem_reverse.mp hc))

/-- A text of a place, with a slash behind it or not. -/
def IsTextOf (name : Bytes) (n : Place) : Prop := name = pathText n ∨ name = dirText n

/-- The components of such a text. -/
theorem IsTextOf.joined (hname : IsTextOf name n) :
    ∃ cs, name = joined cs ∧ cs ≠ [] ∧ (cs = n.reverse ∨ cs = n.reverse ++ [[]]) := by
  by_cases hn : n = []
  · subst hn
    refine ⟨[[]], ?_, by simp, .inr rfl⟩
    rcases hname with rfl | rfl <;> rfl
  · rcases hname with rfl | rfl
    · exact ⟨n.reverse, pathText_of_ne_root hn, by simpa using hn, .inl rfl⟩
    · exact ⟨_, rfl, by simp, .inr rfl⟩

theorem slash_free_of_names {cs : List Bytes} (hn : ∀ c ∈ n, isName c) (hcs : cs = n.reverse ∨ cs = n.reverse ++ [[]]) :
    ∀ c ∈ cs, 47 ∉ c := by
  have hrev := slash_free_reverse hn
  rcases hcs with rfl | rfl
  · exact hrev
  · exact forall_mem_append.mpr ⟨hrev, by simp⟩

theorem IsTextOf.placeOf (hname : IsTextOf name n) (hn : ∀ c ∈ n, isName c) : placeOf name = n := by
  obtain ⟨cs, rfl, hne, hcs⟩ := hname.joined
  rw [placeOf_joined hne (slash_free_of_names hn hcs)]
  have hfilter := filter_names hn
  rcases hcs with rfl | rfl
  · rw [hfilter, reverse_reverse]
  · rw [filter_append, hfilter]
    simp

/-- The comparison is one of prefixes, up to a slash behind the name. -/
theorem isWithin_iff (hbase : base.getLast? = some 47) : isWithin base name ↔ base <+: name ++ [47] := by
  obtain ⟨front, rfl⟩ := getLast?_eq_some_iff.mp hbase
  rw [prefix_concat_iff]
  unfold isWithin
  split_ifs with h
  · have hpre := List.isPrefixOf_iff_prefix.mp h
    obtain ⟨tail, rfl⟩ := hpre
    simp
  have hpre : ¬ front ++ [47] <+: name := fun hp => h (List.isPrefixOf_iff_prefix.mpr hp)
  simp only [hpre, or_false]
  constructor
  · simp only [Bool.and_eq_true, beq_iff_eq, isPrefixOf_iff_prefix, and_assoc]
    rintro ⟨hlen, -, hname⟩
    have hfront := (prefix_concat_iff.mp hname).resolve_left (by rintro rfl; simp at hlen)
    rw [hfront.eq_of_length (by simpa using hlen.symm)]
  · intro heq
    obtain rfl := append_cancel_right heq
    simp

/-- In a directory, which may be the root. -/
theorem isWithin_dirText (hb : ∀ c ∈ b, isName c) (hn : ∀ c ∈ n, isName c) (hname : IsTextOf name n) :
    isWithin (dirText b) name ↔ b <:+ n := by
  obtain ⟨cs, rfl, -, hcs⟩ := hname.joined
  rw [isWithin_iff (by simp [dirText_eq]), dirText_eq,
    joined_isPrefix_iff (slash_free_of_names hb (.inl rfl)) (slash_free_of_names hn hcs)]
  rcases hcs with rfl | rfl
  · exact reverse_prefix
  rw [prefix_concat_iff, reverse_prefix, or_iff_right]
  -- a name is not empty
  intro heq
  have hmem : [] ∈ b := mem_reverse.mp (heq ▸ by simp)
  exact ne_nil_of_isName (hb _ hmem) rfl

/-- In the root that is written without a slash at its end, whose text gets a second slash. -/
theorem isWithin_root (hn : ∀ c ∈ n, isName c) (hname : IsTextOf name n) : isWithin [47, 47] name ↔ n = [] := by
  obtain ⟨cs, rfl, hne, hcs⟩ := hname.joined
  have hroot : [47, 47] = joined [[]] ++ [47] := rfl
  rw [isWithin_iff rfl, hroot, joined_isPrefix_iff (by simp) (slash_free_of_names hn hcs)]
  obtain ⟨c, cs, rfl⟩ := exists_cons_of_ne_nil hne
  rw [cons_prefix_cons]
  cases hrev : n.reverse with
  | nil => simp_all
  | cons d ds =>
    have hd := ne_nil_of_isName (hn d (mem_reverse.mp (hrev ▸ by simp)))
    have hn : n ≠ [] := by
      rintro rfl
      cases hrev
    rw [hrev] at hcs
    rcases hcs with hcs | hcs <;> simp_all

end Compare

/-! ### The places that are compared -/

section Places

variable {env : Env} {cwd : Place} {basedir path : Bytes} {b n : Place}

/-- The place a path is judged by. -/
def nearest (env : Env) (cwd : Place) (path : Bytes) : Option Place := (resolvedName env cwd path).map placeOf

/-- The place a base directory stands for. -/
def basePlace (env : Env) (cwd : Place) (basedir : Bytes) : Option Place :=
  (resolvedBasedir env cwd basedir).map placeOf

/-- What a base directory accepts. -/
def Accepts (basedir : Bytes) (b n : Place) : Prop := b <:+ n ∧ (b = [] → basedir.getLast? = some 47 ∨ n = [])

theorem stripMissing_eq (pathTmp : Bytes) :
    stripMissing env cwd pathTmp =
      (tsrmRealpath env cwd pathTmp).or ((beforeLast 47 pathTmp).bind (stripMissing env cwd)) := by
  rw [stripMissing]
  cases tsrmRealpath env cwd pathTmp with
  | some r => rfl
  | none =>
    simp only [none_or]
    split
    next h => rw [h, bind_none]
    next rest h => rw [h, bind_some]

variable {pathTmp : Bytes}

/-- The comparison of the texts is that of the places. -/
theorem isWithin_iff_accepts {base name : Bytes} (hb : Resolved b) (hn : Resolved n) (hname : IsTextOf name n)
    (hbase : base = if b = [] ∧ basedir.getLast? ≠ some 47 then [47, 47] else dirText b) :
    isWithin base name ↔ Accepts basedir b n := by
  subst hbase
  unfold Accepts
  split_ifs with hroot
  · rw [isWithin_root hn.names hname]
    simp [hroot.1, hroot.2]
  · rw [isWithin_dirText hb.names hn.names hname, and_iff_left]
    exact fun h => .inl (not_not.mp fun hslash => hroot ⟨h, hslash⟩)

variable {p : Place}

/-- A broken link at the end of the text of something that is there: there is none. -/
theorem readlink_exists (hp : Resolved p) (htext : IsTextOf pathTmp p) (hx : env.tree.IsThere p) :
    env.readlink cwd pathTmp = none := by
  obtain ⟨cs, rfl, hne, hcs⟩ := htext.joined
  have hwalk (follow : Bool) : env.tree.walk follow env.symloopMax [] p.reverse = some (p, env.symloopMax) :=
    hx.elim walk_reverse_file walk_reverse
  rw [Env.readlink, origin, if_pos (isAbsolute_joined hne), components_joined hne (slash_free_of_names hp.names hcs)]
  rcases hcs with rfl | rfl
  · rw [hwalk]
    rcases hx with hx | hx <;> simp [hx]
  · rw [walk_append env.tree.root _ (by simp), hwalk]
    rcases hx with hx | hx
    · simp [andThen, hx]
    · simp [andThen, hx, walk_here (c := []) rfl]

/-- The text of something that is there resolves to it. -/
theorem resolveExisting_exists (hp : Resolved p) (htext : IsTextOf pathTmp p) (hx : env.tree.IsThere p) :
    ∃ name, resolveExisting env cwd pathTmp = some name ∧ IsTextOf name p := by
  have hreal : tsrmRealpath env cwd (pathText p) = some (pathText p) := tsrmRealpath_exists hp hx
  have hplain : resolveExisting env cwd (pathText p) = some (pathText p) := by
    unfold resolveExisting
    rw [hreal]
    exact if_neg fun h => h.2 h.1
  by_cases hroot : p = []
  · subst hroot
    obtain rfl : pathTmp = pathText [] := htext.elim id id
    exact ⟨_, hplain, .inl rfl⟩
  rcases htext with rfl | rfl
  · exact ⟨_, hplain, .inl rfl⟩
  unfold resolveExisting
  have hdir : tsrmRealpath env cwd (dirText p) = _ := tsrmRealpath_dirText hp
  cases hreal' : tsrmRealpath env cwd (dirText p) with
  | some resolved =>
    -- it is a directory
    rw [hreal'] at hdir
    split_ifs at hdir
    obtain ⟨q, hq, rfl⟩ := map_eq_some_iff.mp hdir.symm
    rcases hx with hx | hx
    · rw [tsrmRealpathR_file hx hp.short] at hq
      cases hq
    rw [tsrmRealpathR_dir hx hp.short] at hq
    cases hq
    refine ⟨dirText p, ?_, .inr rfl⟩
    simp only
    rw [if_pos ⟨by simp [dirText_eq], mt (getLast_pathText_iff hp.names).mp hroot⟩, dirText_of_ne_root hroot]
  | none =>
    -- a file, or the text is too long by the slash: the slash is cut off
    refine ⟨pathText p, ?_, .inl rfl⟩
    have hcut : beforeLast 47 (dirText p) = some (pathText p) := by
      rw [dirText_of_ne_root hroot]
      exact beforeLast_append _ not_mem_nil
    simp only
    rw [readlink_exists hp (.inr rfl) hx, getD_none, hcut, bind_some, stripMissing_eq, hreal, some_or]

/-- A path that is expanded to the text of something that is there is judged by it. -/
theorem nearest_of_expandFilepath (hexp : expandFilepath env cwd path = some pathTmp) (hp : Resolved p)
    (htext : IsTextOf pathTmp p) (hx : env.tree.IsThere p) : nearest env cwd path = some p := by
  obtain ⟨name, hname, htext'⟩ : ∃ name, resolveExisting env cwd pathTmp = some name ∧ IsTextOf name p :=
    resolveExisting_exists hp htext hx
  rw [nearest, resolvedName, hexp, bind_some, hname, map_some, htext'.placeOf hp.names]

/-- A path that is judged at all is expanded. -/
theorem exists_expandFilepath (h : nearest env cwd path = some n) :
    ∃ pathTmp, expandFilepath env cwd path = some pathTmp := by
  obtain ⟨name, hname, -⟩ := map_eq_some_iff.mp h
  obtain ⟨pathTmp, hexp, -⟩ := bind_eq_some_iff.mp hname
  exact ⟨pathTmp, hexp⟩

section Judged

variable (hcwd : env.tree.node cwd = some .dir)

include hcwd

theorem stripMissing_eq_some {name : Bytes} (h : stripMissing env cwd pathTmp = some name) :
    ∃ n, Resolved n ∧ env.tree.IsThere n ∧ name = pathText n := by
  induction hlen : pathTmp.length using Nat.strong_induction_on generalizing pathTmp with
  | _ k ih =>
    rw [stripMissing_eq] at h
    rcases or_eq_some_iff.mp h with hreal | ⟨-, hcut⟩
    · obtain ⟨n, hn, hname, hx⟩ := tsrmRealpath_eq_some hcwd hreal
      exact ⟨n, hn, hx, hname⟩
    · obtain ⟨rest, hrest, hstrip⟩ := bind_eq_some_iff.mp hcut
      obtain ⟨t, -, rfl⟩ := beforeLast_eq_some_iff.mp hrest
      exact ih _ (by simp [← hlen]) hstrip rfl

/-- The name that is looked up is that of something that is there, and no link. -/
theorem resolvedName_eq_some {name : Bytes} (h : resolvedName env cwd path = some name) :
    ∃ n, Resolved n ∧ env.tree.IsThere n ∧ IsTextOf name n := by
  obtain ⟨pathTmp, -, h⟩ := bind_eq_some_iff.mp h
  unfold resolveExisting at h
  cases hreal : tsrmRealpath env cwd pathTmp with
  | some resolved =>
    obtain ⟨n, hn, rfl, hx⟩ := tsrmRealpath_eq_some hcwd hreal
    refine ⟨n, hn, hx, ?_⟩
    simp only [hreal, ne_eq, getLast_pathText_iff hn.names] at h
    split_ifs at h with hslash
    · cases h
      exact .inr (dirText_of_ne_root hslash.2).symm
    · cases h
      exact .inl rfl
  | none =>
    simp only [hreal] at h
    obtain ⟨rest, -, h⟩ := bind_eq_some_iff.mp h
    obtain ⟨n, hn, hx, hname⟩ := stripMissing_eq_some hcwd h
    exact ⟨n, hn, hx, .inl hname⟩

/-- **The place a path is judged by is there**, and no link. -/
theorem nearest_exists (h : nearest env cwd path = some n) : Resolved n ∧ env.tree.IsThere n := by
  obtain ⟨name, hname, rfl⟩ := map_eq_some_iff.mp h
  obtain ⟨n, hn, hx, htext⟩ := resolvedName_eq_some hcwd hname
  rw [htext.placeOf hn.names]
  exact ⟨hn, hx⟩

/-- A base directory without a slash at its end is expanded to a text without one. -/
theorem expandFilepath_localOpenBasedir {resolved : Bytes} (hslash : basedir.getLast? ≠ some 47)
    (h : expandFilepath env cwd (localOpenBasedir cwd basedir) = some resolved) :
    ∃ b, Resolved b ∧ resolved = pathText b := by
  obtain ⟨b, hb, hfound, hs | ⟨hlast, hne, -⟩⟩ := expandFilepath_eq_some hcwd h
  · exact ⟨b, hb, hs⟩
  exfalso
  unfold localOpenBasedir at h hfound hlast
  split_ifs at h hfound hlast with hdot
  · -- the current directory's text ends with a slash, so it is the root
    rw [(getLast_pathText_iff (env.tree.names hcwd)).mp hlast] at hfound
    have hroot : tsrmRealpathR env linkMax .filepath false (rawComponents (pathText []) []) = some [] :=
      (tsrmRealpathR_here rfl).trans tsrmRealpathR_nil
    exact hne (some.inj (hfound.symm.trans hroot))
  · have hlen := length_lt_of_expandFilepath h
    rw [length_take] at hlen
    rw [take_of_length_le (by omega)] at hlast
    exact hslash hlast

/-- The text of a base directory, by its place. -/
theorem resolvedBasedir_eq_some {base : Bytes} (h : resolvedBasedir env cwd basedir = some base) :
    Resolved (placeOf base) ∧
      (∃ resolved, expandFilepath env cwd (localOpenBasedir cwd basedir) = some resolved ∧
        IsTextOf resolved (placeOf base)) ∧
      base = if placeOf base = [] ∧ basedir.getLast? ≠ some 47 then [47, 47] else dirText (placeOf base) := by
  obtain ⟨resolved, hexp, rfl⟩ := map_eq_some_iff.mp h
  by_cases hslash : basedir.getLast? = some 47
  · obtain ⟨b, hb, -, hs⟩ := expandFilepath_eq_some hcwd hexp
    have htext : (if resolved.getLast? ≠ some 47 then resolved ++ [47] else resolved) = dirText b := by
      rcases hs with rfl | ⟨-, hne, rfl⟩
      · by_cases hroot : b = []
        · subst hroot
          rfl
        · rw [if_pos (mt (getLast_pathText_iff hb.names).mp hroot), dirText_of_ne_root hroot]
      · rw [if_neg (by simp [dirText_eq])]
    rw [if_pos hslash, htext, IsTextOf.placeOf (.inr rfl) hb.names, if_neg (by simp [hslash])]
    exact ⟨hb, ⟨resolved, hexp, hs.imp_right fun h => h.2.2⟩, rfl⟩
  · obtain ⟨b, hb, rfl⟩ := expandFilepath_localOpenBasedir hcwd hslash hexp
    rw [if_neg hslash]
    by_cases hroot : b = []
    · subst hroot
      have hplace : placeOf (pathText [] ++ [47]) = [] := by decide
      rw [hplace, if_pos ⟨rfl, hslash⟩]
      exact ⟨hb, ⟨_, hexp, .inl rfl⟩, rfl⟩
    · rw [← dirText_of_ne_root hroot, IsTextOf.placeOf (.inr rfl) hb.names, if_neg (by simp [hroot])]
      exact ⟨hb, ⟨_, hexp, .inl rfl⟩, rfl⟩

/-- The place of a base directory, which need not be there. -/
theorem basePlace_eq_some (h : basePlace env cwd basedir = some b) :
    Resolved b ∧
      ∃ resolved, expandFilepath env cwd (localOpenBasedir cwd basedir) = some resolved ∧ IsTextOf resolved b := by
  obtain ⟨base, hbase, rfl⟩ := map_eq_some_iff.mp h
  obtain ⟨hb, hexp, -⟩ := resolvedBasedir_eq_some hcwd hbase
  exact ⟨hb, hexp⟩

/-- **The check compares places.** -/
theorem phpCheckSpecificOpenBasedir_iff :
    phpCheckSpecificOpenBasedir env cwd basedir path ↔
      path.length ≤ maxPathLen - 1 ∧
        ∃ n b, nearest env cwd path = some n ∧ basePlace env cwd basedir = some b ∧ Accepts basedir b n := by
  unfold phpCheckSpecificOpenBasedir nearest basePlace
  split_ifs with hlen
  · simp [hlen.not_ge]
  rw [and_iff_right (Nat.le_of_not_lt hlen)]
  cases hname : resolvedName env cwd path with
  | none => simp
  | some name =>
    cases hbase : resolvedBasedir env cwd basedir with
    | none => simp
    | some base =>
      obtain ⟨n, hn, -, htext⟩ := resolvedName_eq_some hcwd hname
      obtain ⟨hb, -, hbase⟩ := resolvedBasedir_eq_some hcwd hbase
      simp [htext.placeOf hn.names, isWithin_iff_accepts hb hn htext hbase]

/-- The whole list accepts what one entry accepts. -/
theorem phpCheckOpenBasedirEx_iff {openBasedir : Bytes} (hne : openBasedir ≠ []) :
    phpCheckOpenBasedirEx env cwd openBasedir path ↔
      path.length ≤ maxPathLen - 1 ∧ ∃ n, nearest env cwd path = some n ∧
        ∃ basedir ∈ entries 58 openBasedir, ∃ b, basePlace env cwd basedir = some b ∧ Accepts basedir b n := by
  unfold phpCheckOpenBasedirEx
  rw [if_neg hne]
  split_ifs with hlen
  · simp [hlen.not_ge]
  simp only [List.any_eq_true, phpCheckSpecificOpenBasedir_iff hcwd]
  constructor
  · rintro ⟨basedir, hmem, hpath, n, b, hn, hb, hacc⟩
    exact ⟨hpath, n, hn, basedir, hmem, b, hb, hacc⟩
  · rintro ⟨hpath, n, hn, basedir, hmem, b, hb, hacc⟩
    exact ⟨basedir, hmem, hpath, n, b, hn, hb, hacc⟩

end Judged

/-! ### Opening a path -/

/-- The place that opening the path with `O_CREAT` would open or create. -/
def Env.openCreat (env : Env) (cwd : Place) (path : Bytes) : Option Place :=
  if path = [] then none
  else (env.tree.walk true env.symloopMax (origin path cwd) (components path)).map Prod.fst

/-- A path with a slash at its end has an empty last component. -/
theorem components_slash (hslash : path.getLast? = some 47) : ∃ cs, components path = cs ++ [[]] := by
  obtain ⟨front, rfl⟩ := getLast?_eq_some_iff.mp hslash
  unfold components
  split_ifs
  · cases front with
    | nil => exact ⟨[], rfl⟩
    | cons b front => exact ⟨_, splitOn_concat 47 front⟩
  · exact ⟨_, splitOn_concat 47 front⟩

variable {f : Place}

/-- What is missing is no link. -/
theorem readlink_missing {c : Bytes} (hnames : ∀ d ∈ c :: f, isName d) (hf : env.tree.node f = some .dir)
    (hx : env.tree.node (c :: f) = none) : env.readlink cwd (pathText (c :: f)) = none := by
  obtain ⟨hh, hu, -⟩ := isName_iff.mp (hnames c (by simp))
  have hwalk : env.tree.walk false env.symloopMax [] (c :: f).reverse = some (c :: f, env.symloopMax) := by
    rw [walk_reverse_cons_iff]
    exact ⟨f, _, walk_reverse hf, hf, walk_name hh hu⟩
  rw [Env.readlink, origin, if_pos (isAbsolute_pathText _), pathText_of_ne_root (by simp),
    components_joined (by simp) (slash_free_of_names hnames (.inl rfl)), hwalk]
  simp [hx]

variable {d : Place}

/-- A base directory that is written as its place. -/
theorem basePlace_pathText (hd : env.tree.node d = some .dir) :
    basePlace env cwd (pathText d) = if (pathText d).length < maxPathLen - 1 then some d else none := by
  unfold basePlace resolvedBasedir localOpenBasedir
  simp only [pathText_ne_dot, if_false]
  by_cases hlen : (pathText d).length < maxPathLen - 1
  · have hnames := env.tree.names hd
    rw [if_pos hlen, take_of_length_le hlen.le, expandFilepath_dir hd hlen, map_some, map_some]
    by_cases hroot : d = []
    · subst hroot
      rfl
    · rw [if_neg (mt (getLast_pathText_iff hnames).mp hroot), ← dirText_of_ne_root hroot,
        IsTextOf.placeOf (.inr rfl) hnames]
  · have hnone : expandFilepath env cwd ((pathText d).take (maxPathLen - 1)) = none := by
      refine eq_none_iff_forall_ne_some.mpr fun s hs => ?_
      have := length_lt_of_expandFilepath hs
      rw [length_take] at this
      omega
    rw [if_neg hlen, hnone]
    rfl

theorem accepts_pathText : Accepts (pathText d) d n ↔ d <:+ n := by
  refine and_iff_left ?_
  rintro rfl
  exact .inl rfl

theorem length_pathText_of_suffix {d e : Place} (h : d <:+ e) : (pathText d).length ≤ (pathText e).length := by
  induction e with
  | nil => rw [suffix_nil.mp h]
  | cons c e ih =>
    rcases suffix_cons_iff.mp h with rfl | h
    · exact le_rfl
    · exact (ih h).trans (length_pathText_le c e)

variable {t : Place} (hcwd : env.tree.node cwd = some .dir)

include hcwd

theorem walk_rawComponents :
    env.tree.walk true env.symloopMax [] (rawComponents path cwd).reverse =
      env.tree.walk true env.symloopMax (origin path cwd) (components path) := by
  have hor := node_origin hcwd path
  rw [rawComponents, reverse_append, reverse_reverse,
    walk_append env.tree.root _ (components_ne_nil path), walk_reverse hor]
  simp [andThen, hor]

/-- Opening such a path opens a directory. -/
theorem openCreat_slash (hslash : path.getLast? = some 47) (h : env.openCreat cwd path = some t) :
    env.tree.node t = some .dir := by
  unfold Env.openCreat at h
  split_ifs at h
  obtain ⟨⟨t, m⟩, hwalk, rfl⟩ := map_eq_some_iff.mp h
  obtain ⟨cs, hcs⟩ := components_slash hslash
  rw [hcs] at hwalk
  obtain ⟨f, k, -, hf, hlast⟩ := (walk_concat_iff (node_origin hcwd path)).mp hwalk
  rw [walk_here rfl, walk_nil] at hlast
  cases hlast
  exact hf

/-- The path is expanded to the place that opening it would open or create. -/
theorem expandFilepath_openCreat (h : env.openCreat cwd path = some t)
    (hexp : expandFilepath env cwd path = some pathTmp) :
    Resolved t ∧ (pathTmp = pathText t ∨ env.tree.node t = some .dir ∧ pathTmp = dirText t) := by
  obtain ⟨p, hp, hfound, hs⟩ := expandFilepath_eq_some hcwd hexp
  have hopen := h
  unfold Env.openCreat at hopen
  split_ifs at hopen
  obtain ⟨⟨t, m⟩, hwalk, rfl⟩ := map_eq_some_iff.mp hopen
  rw [← walk_rawComponents hcwd] at hwalk
  obtain rfl := tsrmRealpathR_eq_of_walk hwalk hfound
  exact ⟨hp, hs.imp_right fun ⟨hslash, _, hs⟩ => ⟨openCreat_slash hcwd hslash h, hs⟩⟩

/-- What opening the path opens, the path is judged by. -/
theorem nearest_of_openCreat (h : env.openCreat cwd path = some t) (hexp : expandFilepath env cwd path = some pathTmp)
    (hx : env.tree.IsThere t) : nearest env cwd path = some t := by
  obtain ⟨ht, hs⟩ := expandFilepath_openCreat hcwd h hexp
  exact nearest_of_expandFilepath hexp ht (hs.imp_right And.right) hx

/-- The loop stops at a directory, but for the root, whose text without its slash is the empty
one and stands for the current directory. -/
theorem stripMissing_dir (hf : env.tree.node f = some .dir) (hres : Resolved f) :
    (stripMissing env cwd (joined f.reverse)).map placeOf =
      if f ≠ [] then some f else if (pathText cwd).length < maxPathLen - 1 then some cwd else none := by
  rw [stripMissing_eq]
  split_ifs with hroot hlen
  · rw [← pathText_of_ne_root hroot, tsrmRealpath_exists hres (.inr hf), some_or, map_some,
      IsTextOf.placeOf (.inl rfl) hres.names]
  · obtain rfl := not_not.mp hroot
    rw [reverse_nil, joined_nil, tsrmRealpath_nil hcwd, if_pos hlen, some_or, map_some,
      IsTextOf.placeOf (.inl rfl) (env.tree.names hcwd)]
  · obtain rfl := not_not.mp hroot
    rw [reverse_nil, joined_nil, tsrmRealpath_nil hcwd, if_neg hlen]
    rfl

/-- A path that would be created is judged by the directory it would be created in; but if that
is the root, by the current directory. -/
theorem nearest_of_openCreat_missing {c : Bytes} (h : env.openCreat cwd path = some (c :: f))
    (hexp : expandFilepath env cwd path = some pathTmp) (hf : env.tree.node f = some .dir)
    (hx : env.tree.node (c :: f) = none) :
    nearest env cwd path =
      if f ≠ [] then some f else if (pathText cwd).length < maxPathLen - 1 then some cwd else none := by
  obtain ⟨ht, hs⟩ := expandFilepath_openCreat hcwd h hexp
  obtain rfl : pathTmp = pathText (c :: f) := hs.resolve_right (by simp [hx])
  have hc := ht.names c (by simp)
  obtain ⟨hh, hu, hslash⟩ := isName_iff.mp hc
  have hreal : tsrmRealpath env cwd (pathText (c :: f)) = none := by
    rw [tsrmRealpath_pathText ht, tsrmRealpathR_missing_realpath hh hu ((Env.lstat_cons hf hc).trans hx)]
    rfl
  have hcut : beforeLast 47 (pathText (c :: f)) = some (joined f.reverse) := by
    rw [pathText_cons]
    exact beforeLast_append _ hslash
  unfold nearest resolvedName resolveExisting
  rw [hexp, bind_some, hreal]
  simp only
  rw [readlink_missing ht.names hf hx, getD_none, hcut, bind_some, stripMissing_dir hcwd hf ht.tail]

/-- The check against a directory that is written as its place. -/
theorem phpCheckSpecificOpenBasedir_pathText (hd : env.tree.node d = some .dir) :
    phpCheckSpecificOpenBasedir env cwd (pathText d) path ↔
      path.length ≤ maxPathLen - 1 ∧ (pathText d).length < maxPathLen - 1 ∧
        ∃ n, nearest env cwd path = some n ∧ d <:+ n := by
  rw [phpCheckSpecificOpenBasedir_iff hcwd, basePlace_pathText hd]
  split_ifs with hlen
  · simp [hlen, accepts_pathText]
  · simp [hlen]

/-- The current directory, as `getcwd` can report it. -/
structure Env.Cwd (env : Env) where
  /-- Where it is. -/
  place : Place
  /-- It is a directory, -/
  isDir : env.tree.node place = some .dir
  /-- and its text fits into `MAXPATHLEN` bytes. -/
  fits : (pathText place).length < maxPathLen

/-- A directory, by its place. -/
abbrev Env.Directory (env : Env) := {d : Place // env.tree.node d = some .dir}

/-- Opening the path would create a file in the root. -/
def CreatesInRoot (env : Env) (cwd : Place) (path : Bytes) : Prop :=
  ∃ c, env.openCreat cwd path = some [c] ∧ env.tree.node [c] = none

/-- A path that the check expands is judged by the place it opens or the directory it creates a
file in, unless it creates one in the root. -/
theorem nearest_suffix_openCreat (h : env.openCreat cwd path = some t)
    (hexp : expandFilepath env cwd path = some pathTmp) (hroot : ¬ CreatesInRoot env cwd path) :
    ∃ n, nearest env cwd path = some n ∧ n <:+ t := by
  have hopen := h
  unfold Env.openCreat at hopen
  split_ifs at hopen
  obtain ⟨⟨t, m⟩, hwalk, rfl⟩ := map_eq_some_iff.mp hopen
  have hcases := walk_follow_cases (node_origin hcwd path)
    (fun c hc => (mem_splitOn hc).2) hwalk
  rcases hcases with hx | hx | ⟨hx, c, f, rfl, -, hf⟩
  · exact ⟨t, nearest_of_openCreat hcwd h hexp (.inl hx), suffix_rfl⟩
  · exact ⟨t, nearest_of_openCreat hcwd h hexp (.inr hx), suffix_rfl⟩
  · have hf0 : f ≠ [] := by
      rintro rfl
      exact hroot ⟨c, h, hx⟩
    refine ⟨f, ?_, suffix_cons c f⟩
    rw [nearest_of_openCreat_missing hcwd h hexp hf hx, if_pos hf0]

end Places

/-- **The check is sound** but for a path that would create a file in the root: it is judged
by the current directory, and accepted if that is in a base directory other than the root. -/
theorem phpCheckSpecificOpenBasedir_sound_iff (env : Env) (cwd : env.Cwd) (basedir : env.Directory) (path : Bytes) :
    (phpCheckSpecificOpenBasedir env cwd.place (pathText basedir) path →
        ∀ t, env.openCreat cwd.place path = some t → basedir.1 <:+ t) ↔
      ¬ (CreatesInRoot env cwd.place path ∧ (expandFilepath env cwd.place path).isSome ∧ basedir.1 ≠ [] ∧
        basedir.1 <:+ cwd.place ∧ (pathText cwd.place).length < maxPathLen - 1) := by
  obtain ⟨cwd, hcwd, -⟩ := cwd
  obtain ⟨basedir, hbasedir⟩ := basedir
  simp only [phpCheckSpecificOpenBasedir_pathText hcwd hbasedir]
  constructor
  · rintro hsound ⟨⟨c, hopen, hx⟩, hexp, hne, hin, hlen⟩
    obtain ⟨pathTmp, hexp⟩ := isSome_iff_exists.mp hexp
    have hnear := nearest_of_openCreat_missing hcwd hopen hexp env.tree.root hx
    rw [if_neg (by simp), if_pos hlen] at hnear
    have hpath := (length_lt_of_expandFilepath hexp).le
    have hmem := hsound ⟨hpath, (length_pathText_of_suffix hin).trans_lt hlen, cwd, hnear, hin⟩ _ hopen
    -- the base directory is there and the new file is not
    rcases suffix_cons_iff.mp hmem with rfl | hmem
    · simp [hbasedir] at hx
    · exact hne (suffix_nil.mp hmem)
  · rintro hroot ⟨-, hlen, n, hnear, hin⟩ t hopen
    cases hexp : expandFilepath env cwd path with
    | none => simp [nearest, resolvedName, hexp] at hnear
    | some pathTmp =>
      by_cases hcreates : CreatesInRoot env cwd path
      · obtain ⟨c, hopen', hx⟩ := hcreates
        rw [nearest_of_openCreat_missing hcwd hopen' hexp env.tree.root hx, if_neg (by simp)] at hnear
        split_ifs at hnear with hshort
        cases hnear
        by_cases hne : basedir = []
        · subst hne
          exact nil_suffix
        · exact absurd ⟨⟨c, hopen', hx⟩, by simp [hexp], hne, hin, hshort⟩ hroot
      · obtain ⟨m, hm, hsuf⟩ := nearest_suffix_openCreat hcwd hopen hexp hcreates
        cases hnear.symm.trans hm
        exact hin.trans hsuf

/-- With only the directory `/www`, which is the base directory and the current one, `/new` is
accepted. -/
theorem phpCheckSpecificOpenBasedir_unsound :
    ∃ (env : Env) (cwd : env.Cwd) (basedir : env.Directory) (path : Bytes) (t : Place),
      phpCheckSpecificOpenBasedir env cwd.place (pathText basedir) path ∧
        env.openCreat cwd.place path = some t ∧ ¬ basedir.1 <:+ t :=
  ⟨⟨.ofDirs [[ascii "www"]] (by decide +kernel), 40⟩, ⟨[ascii "www"], by decide +kernel, by decide +kernel⟩,
    ⟨[ascii "www"], by decide +kernel⟩, ascii "/new", [ascii "new"], by decide +kernel, by decide +kernel,
    by decide +kernel⟩

end PhpSandbox.Fs
