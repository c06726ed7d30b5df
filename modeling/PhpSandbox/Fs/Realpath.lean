import PhpSandbox.Lib.FileTree
import Mathlib.Algebra.GroupWithZero.Nat

/-!
# Resolving paths

`tsrm_realpath_r`, `virtual_file_ex` and `tsrm_realpath` of
`Zend/zend_virtual_cwd.c`, and `expand_filepath` of `main/fopen_wrappers.c`: how
the engine itself finds out which file a path name means.

## The model

`tsrm_realpath_r` cuts components off the end of an absolute path in a buffer. Its
path is here the list of these components, the last first, and what it leaves in
the buffer the place it found. The lengths it checks are those of the texts. The
system's own resolution (`lstat`, `readlink`) is that of `Lib.FileTree`, with the
system's limit on links as a parameter. `getcwd` succeeds, the files are all
accessible, and as they do not change there is no cache of earlier results.

## What is proved

`tsrmRealpathR_iff`: how the engine gets from a path to a place, as a relation.
`tsrmRealpathR_eq_of_walk`: where the system finds a place for a path, existing or
to be created, the engine finds no other one. `tsrmRealpathR_realpath`: in
`CWD_REALPATH` mode the engine only finds what is there and is no link.
`tsrmRealpathR_dir`, `tsrmRealpathR_file`: the names on the way to such a place are
resolved to it.
-/

namespace PhpSandbox.Fs

open Lib FileTree List Option

/-- `MAXPATHLEN`. -/
def maxPathLen : ℕ := 4096

/-- `LINK_MAX`, as `zend_virtual_cwd.c` sets it. -/
def linkMax : ℕ := 32

/-- `CWD_FILEPATH` and `CWD_REALPATH`. -/
inductive CwdMode where
  /-- Missing components stay as they are. -/
  | filepath
  /-- All components have to exist. -/
  | realpath
  deriving DecidableEq

/-- The system: its files, and how many links it follows. -/
structure Env where
  /-- The files. -/
  tree : FileTree
  symloopMax : ℕ

/-- `lstat` of a path with these components, the last first. -/
def Env.lstat (env : Env) (path : List Bytes) : Option Node := env.tree.lstat env.symloopMax path.reverse

/-- How far the text of an absolute path goes up to the component after these. -/
def rawLength (path : List Bytes) : ℕ := 1 + (path.map fun c => c.length + 1).sum

/-- The last component behind its resolved parent, if the text is not too long. -/
def appendName (c : Bytes) (parent : Place) : Option Place :=
  if maxPathLen - 1 ≤ (pathText (c :: parent)).length then none else some (c :: parent)

/-- `tsrm_realpath_r`, with what to do with the path after a link is substituted. -/
def realpathWith (env : Env) (jump : CwdMode → Bool → List Bytes → Option Place) (useRealpath : CwdMode) :
    Bool → List Bytes → Option Place
  | _, [] => some []
  | isDir, c :: path =>
    -- double slashes and `.`
    if isHere c then realpathWith env jump useRealpath true path
    else if isUp c then (realpathWith env jump useRealpath true path).map tail
    else
      match env.lstat (c :: path) with
      | none =>
        if useRealpath = .realpath then none
        else (realpathWith env jump .filepath true path).bind (appendName c)
      | some (.link target) =>
        if isAbsolute target then jump useRealpath isDir (components target).reverse
        else if maxPathLen - 1 ≤ rawLength path + target.length then none
        else jump useRealpath isDir ((components target).reverse ++ path)
      | some node =>
        if isDir ∧ node ≠ .dir then none
        else (realpathWith env jump .filepath true path).bind (appendName c)

/-- `tsrm_realpath_r`, through at most this many more links. -/
def tsrmRealpathR (env : Env) : ℕ → CwdMode → Bool → List Bytes → Option Place
  | 0 => realpathWith env fun _ _ _ => none
  | links + 1 => realpathWith env (tsrmRealpathR env links)

/-- The components of the path in the directory `cwd`, from the root and the last first. -/
def rawComponents (path : Bytes) (cwd : Place) : List Bytes := (components path).reverse ++ origin path cwd

/-- `virtual_file_ex`: `path` in the directory `cwd`. -/
def virtualFileEx (env : Env) (cwd : Place) (path : Bytes) (useRealpath : CwdMode) : Option Bytes :=
  if path = [] ∨ maxPathLen - 1 ≤ path.length then none
  else if !isAbsolute path ∧ maxPathLen - 1 ≤ path.length + (pathText cwd).length + 1 then none
  else
    match tsrmRealpathR env linkMax useRealpath false (rawComponents path cwd) with
    | none => none
    | some p =>
      let resolved := pathText p
      let addSlash := useRealpath ≠ .realpath ∧ path.getLast? = some 47
      if addSlash ∧ resolved.getLast? ≠ some 47 then
        if maxPathLen - 1 ≤ resolved.length then none else some (resolved ++ [47])
      else some resolved

/-- `expand_filepath`. -/
def expandFilepath (env : Env) (cwd : Place) (filepath : Bytes) : Option Bytes :=
  if filepath = [] then none else virtualFileEx env cwd filepath .filepath

/-- `tsrm_realpath`; the empty path is the current directory. -/
def tsrmRealpath (env : Env) (cwd : Place) (path : Bytes) : Option Bytes :=
  virtualFileEx env cwd (if path = [] then pathText cwd else path) .realpath

/-! ### One component -/

/-- How `tsrm_realpath_r` gets from a path to a place, through at most so many links. -/
inductive Leads (env : Env) : ℕ → CwdMode → Bool → List Bytes → Place → Prop where
  /-- The root. -/
  | nil {links mode isDir} : Leads env links mode isDir [] []
  /-- A double slash or `.` at the end. -/
  | here {links mode isDir c path p} (hh : isHere c) (h : Leads env links mode true path p) :
      Leads env links mode isDir (c :: path) p
  /-- `..` at the end. -/
  | up {links mode isDir c path p} (hh : ¬ isHere c) (hu : isUp c) (h : Leads env links mode true path p) :
      Leads env links mode isDir (c :: path) p.tail
  /-- A name at the end, of no link. -/
  | name {links mode c path parent p} {isDir : Bool} (hh : ¬ isHere c) (hu : ¬ isUp c)
      (h : Leads env links .filepath true path parent) (happend : appendName c parent = some p)
      (hlink : ∀ t, env.lstat (c :: path) ≠ some (.link t))
      (hthere : mode = .realpath → env.lstat (c :: path) ≠ none)
      (hdir : isDir → env.lstat (c :: path) ≠ some .file) : Leads env links mode isDir (c :: path) p
  /-- A link at the end. -/
  | link {links mode isDir c path target p} (hh : ¬ isHere c) (hu : ¬ isUp c)
      (hx : env.lstat (c :: path) = some (.link target))
      (hlen : isAbsolute target ∨ rawLength path + target.length < maxPathLen - 1)
      (h : Leads env links mode isDir ((components target).reverse ++ if isAbsolute target then [] else path) p) :
      Leads env (links + 1) mode isDir (c :: path) p

section Step

variable {env : Env} {links : ℕ} {mode : CwdMode} {isDir : Bool} {c : Bytes} {path : List Bytes}

/-- What `tsrm_realpath_r` does with the path after a link. -/
def jumpR (env : Env) : ℕ → CwdMode → Bool → List Bytes → Option Place
  | 0 => fun _ _ _ => none
  | links + 1 => tsrmRealpathR env links

theorem tsrmRealpathR_eq (links : ℕ) : tsrmRealpathR env links = realpathWith env (jumpR env links) := by
  cases links <;> rfl

@[simp] theorem tsrmRealpathR_nil : tsrmRealpathR env links mode isDir [] = some [] := by
  rw [tsrmRealpathR_eq, realpathWith]

theorem tsrmRealpathR_here (hc : isHere c) :
    tsrmRealpathR env links mode isDir (c :: path) = tsrmRealpathR env links mode true path := by
  rw [tsrmRealpathR_eq, realpathWith, if_pos hc]

section

variable (hh : ¬ isHere c)

include hh

theorem tsrmRealpathR_up (hc : isUp c) :
    tsrmRealpathR env links mode isDir (c :: path) =
      (tsrmRealpathR env links mode true path).map tail := by
  rw [tsrmRealpathR_eq, realpathWith, if_neg hh, if_pos hc]

variable (hu : ¬ isUp c)

include hu

theorem tsrmRealpathR_missing (hx : env.lstat (c :: path) = none) :
    tsrmRealpathR env links .filepath isDir (c :: path) =
      (tsrmRealpathR env links .filepath true path).bind (appendName c) := by
  rw [tsrmRealpathR_eq, realpathWith, if_neg hh, if_neg hu]
  simp [hx, reduceCtorEq]

theorem tsrmRealpathR_missing_realpath (hx : env.lstat (c :: path) = none) :
    tsrmRealpathR env links .realpath isDir (c :: path) = none := by
  rw [tsrmRealpathR_eq, realpathWith, if_neg hh, if_neg hu]
  simp [hx]

theorem tsrmRealpathR_link {t : Bytes} (hx : env.lstat (c :: path) = some (.link t)) :
    tsrmRealpathR env links mode isDir (c :: path) =
      if isAbsolute t then jumpR env links mode isDir (components t).reverse
      else if maxPathLen - 1 ≤ rawLength path + t.length then none
      else jumpR env links mode isDir ((components t).reverse ++ path) := by
  rw [tsrmRealpathR_eq, realpathWith, if_neg hh, if_neg hu]
  simp only [hx]

theorem tsrmRealpathR_node {x : Node} (hx : env.lstat (c :: path) = some x) (hlink : x = .file ∨ x = .dir) :
    tsrmRealpathR env links mode isDir (c :: path) =
      if isDir ∧ x ≠ .dir then none else (tsrmRealpathR env links .filepath true path).bind (appendName c) := by
  rw [tsrmRealpathR_eq, realpathWith, if_neg hh, if_neg hu]
  rcases hlink with rfl | rfl <;> simp only [hx]

end

variable {p : Place} {parent : Place}

theorem appendName_eq_some (h : appendName c parent = some p) :
    p = c :: parent ∧ (pathText p).length < maxPathLen - 1 := by
  unfold appendName at h
  split_ifs at h with hlen
  cases h
  exact ⟨rfl, Nat.lt_of_not_le hlen⟩

/-- What `tsrm_realpath_r` does with a name: it puts it behind its resolved parent, or follows a link. -/
theorem tsrmRealpathR_name_iff (hh : ¬ isHere c) (hu : ¬ isUp c) :
    tsrmRealpathR env links mode isDir (c :: path) = some p ↔
      (∃ parent, tsrmRealpathR env links .filepath true path = some parent ∧ appendName c parent = some p ∧
          (∀ t, env.lstat (c :: path) ≠ some (.link t)) ∧
          (mode = .realpath → env.lstat (c :: path) ≠ none) ∧ (isDir → env.lstat (c :: path) ≠ some .file)) ∨
        ∃ target links', env.lstat (c :: path) = some (.link target) ∧ links = links' + 1 ∧
          (isAbsolute target ∨ rawLength path + target.length < maxPathLen - 1) ∧
          tsrmRealpathR env links' mode isDir
            ((components target).reverse ++ if isAbsolute target then [] else path) = some p := by
  rcases node_cases (env.lstat (c :: path)) with (hx | hx) | hx | ⟨target, hx⟩
  · cases mode with
    | realpath => simp [tsrmRealpathR_missing_realpath hh hu hx, hx]
    | filepath => simp [tsrmRealpathR_missing hh hu hx, hx, bind_eq_some_iff]
  · rw [tsrmRealpathR_node hh hu hx (.inl rfl)]
    cases isDir <;> simp [hx, bind_eq_some_iff]
  · rw [tsrmRealpathR_node hh hu hx (.inr rfl)]
    simp [hx, bind_eq_some_iff]
  · rw [tsrmRealpathR_link hh hu hx]
    cases links with
    | zero => simp [hx, jumpR]
    | succ links =>
      by_cases habs : isAbsolute target
      · simp [hx, habs, jumpR]
      · by_cases hlen : maxPathLen - 1 ≤ rawLength path + target.length
        · simp [hx, habs, hlen, hlen.not_gt]
        · simp [hx, habs, hlen, Nat.lt_of_not_le hlen, jumpR]

/-- `tsrm_realpath_r` finds the place that it gets to. -/
theorem tsrmRealpathR_iff : tsrmRealpathR env links mode isDir path = some p ↔ Leads env links mode isDir path p := by
  constructor
  · -- over the links; within a number of links, over the components
    intro h
    induction links using Nat.strong_induction_on generalizing mode isDir path p with
    | _ links ihlinks =>
      induction path generalizing mode isDir p with
      | nil =>
        rw [tsrmRealpathR_nil] at h
        cases h
        exact .nil
      | cons c path ih =>
        by_cases hh : isHere c
        · rw [tsrmRealpathR_here hh] at h
          exact .here hh (ih h)
        by_cases hu : isUp c
        · rw [tsrmRealpathR_up hh hu] at h
          obtain ⟨q, hq, rfl⟩ := Option.map_eq_some_iff.mp h
          exact .up hh hu (ih hq)
        rcases (tsrmRealpathR_name_iff hh hu).mp h with
          ⟨parent, hparent, hname, hlink, hthere, hdir⟩ | ⟨target, links', hx, rfl, hlen, hjump⟩
        · exact .name hh hu (ih hparent) hname hlink hthere hdir
        · exact .link hh hu hx hlen (ihlinks links' (Nat.lt_succ_self _) hjump)
  · intro h
    induction h with
    | nil => exact tsrmRealpathR_nil
    | here hh _ ih => rw [tsrmRealpathR_here hh, ih]
    | up hh hu _ ih => rw [tsrmRealpathR_up hh hu, ih, map_some]
    | name hh hu _ hname hlink hthere hdir ih =>
      exact (tsrmRealpathR_name_iff hh hu).mpr (.inl ⟨_, ih, hname, hlink, hthere, hdir⟩)
    | link hh hu hx hlen _ ih => exact (tsrmRealpathR_name_iff hh hu).mpr (.inr ⟨_, _, hx, rfl, hlen, ih⟩)

end Step

/-! ### The engine and the system agree -/

variable {p : Place}

section Agree

variable {env : Env} {links : ℕ} {mode : CwdMode} {isDir : Bool} {path : List Bytes} {c : Bytes}

/-- `lstat` of a name in the directory that the system finds. -/
theorem Env.lstat_of_walk {f : Place} {k : ℕ}
    (hwalk : env.tree.walk true env.symloopMax [] path.reverse = some (f, k)) (hf : env.tree.node f = some .dir)
    (hh : ¬ isHere c) (hu : ¬ isUp c) : env.lstat (c :: path) = env.tree.node (c :: f) := by
  rw [Env.lstat, FileTree.lstat, walk_reverse_cons hwalk hf, walk_name hh hu, bind_some]

/-- After the target of a link is put in its place, one link less is needed. -/
theorem walk_substitute_pred {f t : Place} {n k m : ℕ} {target : Bytes}
    (hwalk : env.tree.walk true n [] path.reverse = some (f, k)) (hf : env.tree.node f = some .dir)
    (hjump : env.tree.jump true k (origin target f) (components target) = some (t, m)) :
    ∃ n' m', n = n' + 1 ∧ env.tree.walk true n' []
      ((components target).reverse ++ if isAbsolute target then [] else path).reverse = some (t, m') := by
  have hle := walk_le hwalk
  obtain _ | k := k
  · cases hjump
  obtain ⟨n, rfl⟩ : ∃ n', n = n' + 1 := ⟨n - 1, by omega⟩
  rw [reverse_append, reverse_reverse]
  unfold origin at hjump
  split_ifs at hjump ⊢
  · -- an absolute target: the links spent on the path so far are not needed
    have hmono := walk_mono hjump (n - k)
    rw [Nat.add_sub_cancel' (Nat.le_of_succ_le_succ hle)] at hmono
    exact ⟨n, _, rfl, by simpa using hmono⟩
  · refine ⟨n, m, rfl, ?_⟩
    rw [walk_append env.tree.root _ (components_ne_nil target), walk_succ_iff.mp hwalk, andThen, bind_some, if_pos hf]
    exact hjump

/-- Substituting a link at the end of a path leads the system to the same place. -/
theorem walk_substitute {t : Place} {m : ℕ} {target : Bytes} (hh : ¬ isHere c) (hu : ¬ isUp c)
    (hx : env.lstat (c :: path) = some (.link target))
    (hwalk : env.tree.walk true env.symloopMax [] (c :: path).reverse = some (t, m)) :
    ∃ m', env.tree.walk true env.symloopMax []
      ((components target).reverse ++ if isAbsolute target then [] else path).reverse = some (t, m') := by
  obtain ⟨f, k, hpath, hf, hc⟩ := walk_reverse_cons_iff.mp hwalk
  rw [env.lstat_of_walk hpath hf hh hu] at hx
  rw [walk_link hh hu hx, if_neg (by simp), append_nil] at hc
  obtain ⟨n', m', hn, hnew⟩ := walk_substitute_pred hpath hf hc
  rw [hn]
  exact ⟨m' + 1, walk_succ_iff.mpr hnew⟩

/-- **The engine finds the place the system finds**, existing or to be created, or none. -/
theorem Leads.eq_of_walk {t : Place} {m : ℕ} (h : Leads env links mode isDir path p)
    (hwalk : env.tree.walk true env.symloopMax [] path.reverse = some (t, m)) : p = t := by
  induction h generalizing t m with
  | nil =>
    rw [reverse_nil, walk_nil] at hwalk
    cases hwalk
    rfl
  | here hh _ ih =>
    obtain ⟨f, k, hpath, -, hc⟩ := walk_reverse_cons_iff.mp hwalk
    rw [walk_here hh, walk_nil] at hc
    cases hc
    exact ih hpath
  | up hh hu _ ih =>
    obtain ⟨f, k, hpath, -, hc⟩ := walk_reverse_cons_iff.mp hwalk
    rw [walk_up hh hu, walk_nil] at hc
    cases hc
    rw [ih hpath]
  | name hh hu _ hname hlink _ _ ih =>
    obtain ⟨f, k, hpath, hf, hc⟩ := walk_reverse_cons_iff.mp hwalk
    simp only [env.lstat_of_walk hpath hf hh hu] at hlink
    rw [walk_name_of_ne_link hh hu hlink] at hc
    cases hc
    rw [(appendName_eq_some hname).1, ih hpath]
  | link hh hu hx _ _ ih =>
    obtain ⟨m', hnew⟩ := walk_substitute hh hu hx hwalk
    exact ih hnew

theorem tsrmRealpathR_eq_of_walk {t : Place} {m : ℕ}
    (hwalk : env.tree.walk true env.symloopMax [] path.reverse = some (t, m))
    (h : tsrmRealpathR env links mode isDir path = some p) : p = t :=
  (tsrmRealpathR_iff.mp h).eq_of_walk hwalk

variable {parent : Place}

/-- Where the system finds something under a name, so does the engine. -/
theorem Leads.node_append {x : Node} (h : Leads env links mode isDir path parent)
    (hname : appendName c parent = some p) (hh : ¬ isHere c) (hu : ¬ isUp c) (hx : env.lstat (c :: path) = some x) :
    env.tree.node p = some x := by
  obtain ⟨f, k, hpath, hf, hnode⟩ := lstat_reverse_cons_eq_some hx hh hu
  rw [(appendName_eq_some hname).1, h.eq_of_walk hpath, hnode]

/-- In `CWD_REALPATH` mode the engine finds what is there and is no link, a directory if it
has to be one. -/
theorem Leads.realpath (h : Leads env links mode isDir path p) (hmode : mode = .realpath) :
    env.tree.IsThere p ∧ (isDir → env.tree.node p = some .dir) := by
  induction h with
  | nil => exact ⟨.inr env.tree.root, fun _ => env.tree.root⟩
  | here _ _ ih =>
    have hdir := (ih hmode).2 rfl
    exact ⟨.inr hdir, fun _ => hdir⟩
  | up _ _ _ ih =>
    have hdir := node_tail ((ih hmode).2 rfl)
    exact ⟨.inr hdir, fun _ => hdir⟩
  | @name _ _ c path _ _ _ hh hu hparent hname hlink hthere hfile =>
    rcases node_cases (env.lstat (c :: path)) with (hx | hx) | hx | ⟨t, hx⟩
    · exact absurd hx (hthere hmode)
    · exact ⟨.inl (hparent.node_append hname hh hu hx), fun hd => absurd hx (hfile hd)⟩
    · have hdir := hparent.node_append hname hh hu hx
      exact ⟨.inr hdir, fun _ => hdir⟩
    · exact absurd hx (hlink t)
  | link _ _ _ _ _ ih => exact ih hmode

theorem tsrmRealpathR_realpath (h : tsrmRealpathR env links .realpath isDir path = some p) :
    env.tree.IsThere p ∧ (isDir → env.tree.node p = some .dir) :=
  (tsrmRealpathR_iff.mp h).realpath rfl

/-- What the engine finds has names, and a text its buffers have room for. -/
structure Resolved (p : Place) : Prop where
  names : ∀ c ∈ p, isName c
  short : (pathText p).length < maxPathLen - 1

theorem Resolved.root : Resolved [] := ⟨by simp, by decide⟩

theorem Resolved.tail (hp : Resolved p) : Resolved p.tail := by
  cases p with
  | nil => exact hp
  | cons c p =>
    exact ⟨fun b hb => hp.names b (mem_cons_of_mem c hb), (length_pathText_le c p).trans_lt hp.short⟩

/-- A name behind a place that the engine found. -/
theorem Resolved.appendName (hparent : Resolved parent) (hc : isName c) (h : appendName c parent = some p) :
    Resolved p := by
  obtain ⟨rfl, hlen⟩ := appendName_eq_some h
  exact ⟨forall_mem_cons.mpr ⟨hc, hparent.names⟩, hlen⟩

theorem tsrmRealpathR_resolved (hpath : ∀ c ∈ path, 47 ∉ c) (h : tsrmRealpathR env links mode isDir path = some p) :
    Resolved p := by
  replace h := tsrmRealpathR_iff.mp h
  induction h with
  | nil => exact .root
  | here _ _ ih => exact ih (forall_mem_cons.mp hpath).2
  | up _ _ _ ih => exact (ih (forall_mem_cons.mp hpath).2).tail
  | name hh hu _ hname _ _ _ ih =>
    obtain ⟨hc, hpath⟩ := forall_mem_cons.mp hpath
    exact (ih hpath).appendName (isName_iff.mpr ⟨hh, hu, hc⟩) hname
  | link _ _ _ _ _ ih =>
    refine ih (forall_mem_append.mpr ⟨?_, ?_⟩)
    · exact fun b hb => (mem_splitOn (mem_reverse.mp hb)).2
    · split_ifs
      · simp
      · exact (forall_mem_cons.mp hpath).2

/-- `lstat` of a name in a directory. -/
theorem Env.lstat_cons {d : Place} (hd : env.tree.node d = some .dir) (hc : isName c) :
    env.lstat (c :: d) = env.tree.node (c :: d) := by
  obtain ⟨hh, hu, -⟩ := isName_iff.mp hc
  exact env.lstat_of_walk (walk_reverse hd) hd hh hu

/-- The names on the way to a directory are resolved to it. -/
theorem tsrmRealpathR_dir {d : Place} (hd : env.tree.node d = some .dir) (hlen : (pathText d).length < maxPathLen - 1) :
    tsrmRealpathR env links mode isDir d = some d := by
  induction d generalizing mode isDir with
  | nil => exact tsrmRealpathR_nil
  | cons c d ih =>
    have hc := env.tree.name hd
    have hp := env.tree.parent hd
    obtain ⟨hh, hu, -⟩ := isName_iff.mp hc
    rw [tsrmRealpathR_node hh hu ((Env.lstat_cons hp hc).trans hd) (.inr rfl), if_neg (by simp),
      ih hp ((length_pathText_le c d).trans_lt hlen), bind_some, appendName, if_neg hlen.not_ge]

/-- The names on the way to a file are resolved to it, unless it has to be a directory. -/
theorem tsrmRealpathR_file (hp : env.tree.node p = some .file) (hlen : (pathText p).length < maxPathLen - 1) :
    tsrmRealpathR env links mode isDir p = if isDir then none else some p := by
  cases p with
  | nil => simp [env.tree.root] at hp
  | cons c d =>
    have hc := env.tree.name hp
    have hd := env.tree.parent hp
    obtain ⟨hh, hu, -⟩ := isName_iff.mp hc
    rw [tsrmRealpathR_node hh hu ((Env.lstat_cons hd hc).trans hp) (.inl rfl),
      tsrmRealpathR_dir hd ((length_pathText_le c d).trans_lt hlen), bind_some, appendName,
      if_neg hlen.not_ge]
    simp

end Agree

/-! ### Texts -/

section Texts

variable {env : Env} {cwd : Place} {path s : Bytes} {mode : CwdMode}

theorem rawComponents_slash_free (hcwd : env.tree.node cwd = some .dir) : ∀ c ∈ rawComponents path cwd, 47 ∉ c := by
  intro c hc
  rcases mem_append.mp hc with hc | hc
  · exact (mem_splitOn (mem_reverse.mp hc)).2
  · exact (isName_iff.mp (env.tree.names (node_origin hcwd path) c hc)).2.2

/-- What `virtual_file_ex` returns is the text of a place, with a slash behind it if there
was one and the mode keeps it. -/
theorem virtualFileEx_eq_some (hcwd : env.tree.node cwd = some .dir) (h : virtualFileEx env cwd path mode = some s) :
    ∃ p, Resolved p ∧ tsrmRealpathR env linkMax mode false (rawComponents path cwd) = some p ∧
      (s = pathText p ∨ mode = .filepath ∧ path.getLast? = some 47 ∧ p ≠ [] ∧ s = dirText p) := by
  unfold virtualFileEx at h
  split_ifs at h with h1 h2
  split at h
  · cases h
  next p hp =>
    have hres := tsrmRealpathR_resolved (rawComponents_slash_free hcwd) hp
    refine ⟨p, hres, hp, ?_⟩
    simp only at h
    split_ifs at h with hslash hlong
    · cases h
      obtain ⟨⟨hmode, hlast⟩, hne⟩ := hslash
      have hne : p ≠ [] := mt (getLast_pathText_iff hres.names).mpr hne
      refine .inr ⟨?_, hlast, hne, (dirText_of_ne_root hne).symm⟩
      cases mode
      · rfl
      · exact absurd rfl hmode
    · cases h
      exact .inl rfl

/-- `tsrm_realpath` of an absolute path. -/
theorem tsrmRealpath_absolute (habs : isAbsolute path) :
    tsrmRealpath env cwd path =
      if maxPathLen - 1 ≤ path.length then none
      else (tsrmRealpathR env linkMax .realpath false (components path).reverse).map pathText := by
  have hne : path ≠ [] := by
    rintro rfl
    cases habs
  rw [tsrmRealpath, if_neg hne, virtualFileEx, rawComponents, origin, if_pos habs, append_nil]
  by_cases hlen : maxPathLen - 1 ≤ path.length
  · rw [if_pos (.inr hlen), if_pos hlen]
  · rw [if_neg (not_or.mpr ⟨hne, hlen⟩), if_neg hlen, if_neg (by simp [habs])]
    cases tsrmRealpathR env linkMax .realpath false (components path).reverse <;> simp

/-- `tsrm_realpath` of the text of a place with a slash behind it. -/
theorem tsrmRealpath_dirText (hp : Resolved p) :
    tsrmRealpath env cwd (dirText p) =
      if maxPathLen - 1 ≤ (dirText p).length then none
      else (tsrmRealpathR env linkMax .realpath true p).map pathText := by
  have hcs : ∀ b ∈ p.reverse ++ [[]], 47 ∉ b := by
    refine forall_mem_append.mpr ⟨slash_free_reverse hp.names, by simp⟩
  rw [dirText, tsrmRealpath_absolute (isAbsolute_joined (by simp)), components_joined (by simp) hcs,
    reverse_append, reverse_reverse, reverse_singleton, singleton_append,
    tsrmRealpathR_here rfl]

/-- `tsrm_realpath` of the text of a place. -/
theorem tsrmRealpath_pathText (hp : Resolved p) :
    tsrmRealpath env cwd (pathText p) = (tsrmRealpathR env linkMax .realpath false p).map pathText := by
  cases p with
  | nil =>
    rw [pathText_root, tsrmRealpath_dirText hp, if_neg (by decide)]
    simp
  | cons c p =>
    have hcs := slash_free_reverse hp.names
    rw [tsrmRealpath_absolute (isAbsolute_pathText _), if_neg hp.short.not_ge,
      pathText_of_ne_root (by simp), components_joined (by simp) hcs, reverse_reverse]

/-- What `tsrm_realpath` finds is there, and no link. -/
theorem tsrmRealpath_eq_some (hcwd : env.tree.node cwd = some .dir) (h : tsrmRealpath env cwd path = some s) :
    ∃ r, Resolved r ∧ s = pathText r ∧ env.tree.IsThere r := by
  obtain ⟨r, hr, hfound, hs⟩ := virtualFileEx_eq_some hcwd h
  refine ⟨r, hr, ?_, (tsrmRealpathR_realpath hfound).1⟩
  rcases hs with hs | ⟨hmode, -⟩
  · exact hs
  · cases hmode

/-- `tsrm_realpath` of the text of something that is there, and no link. -/
theorem tsrmRealpath_exists (hp : Resolved p) (hx : env.tree.IsThere p) :
    tsrmRealpath env cwd (pathText p) = some (pathText p) := by
  rw [tsrmRealpath_pathText hp]
  rcases hx with hx | hx
  · rw [tsrmRealpathR_file hx hp.short]
    rfl
  · rw [tsrmRealpathR_dir hx hp.short]
    rfl

/-- `tsrm_realpath` of the empty path. -/
theorem tsrmRealpath_nil (hcwd : env.tree.node cwd = some .dir) :
    tsrmRealpath env cwd [] = if (pathText cwd).length < maxPathLen - 1 then some (pathText cwd) else none := by
  have hcwd' : tsrmRealpath env cwd [] = tsrmRealpath env cwd (pathText cwd) := by
    simp [tsrmRealpath, pathText_ne_nil]
  rw [hcwd']
  split_ifs with hlen
  · exact tsrmRealpath_exists ⟨env.tree.names hcwd, hlen⟩ (.inr hcwd)
  · rw [tsrmRealpath_absolute (isAbsolute_pathText cwd), if_pos (Nat.le_of_not_lt hlen)]

/-- What `expand_filepath` returns is the text of a place, which need not be there. -/
theorem expandFilepath_eq_some (hcwd : env.tree.node cwd = some .dir) (h : expandFilepath env cwd path = some s) :
    ∃ p, Resolved p ∧ tsrmRealpathR env linkMax .filepath false (rawComponents path cwd) = some p ∧
      (s = pathText p ∨ path.getLast? = some 47 ∧ p ≠ [] ∧ s = dirText p) := by
  unfold expandFilepath at h
  split_ifs at h
  obtain ⟨p, hp, hfound, hs⟩ := virtualFileEx_eq_some hcwd h
  exact ⟨p, hp, hfound, hs.imp_right And.right⟩

/-- The text of a directory is expanded to itself. -/
theorem expandFilepath_dir {d : Place} (hd : env.tree.node d = some .dir)
    (hlen : (pathText d).length < maxPathLen - 1) : expandFilepath env cwd (pathText d) = some (pathText d) := by
  have hraw : tsrmRealpathR env linkMax .filepath false (rawComponents (pathText d) cwd) = some d := by
    rw [rawComponents, origin, if_pos (isAbsolute_pathText d), append_nil]
    cases d with
    | nil => exact (tsrmRealpathR_here rfl).trans tsrmRealpathR_nil
    | cons c d =>
      have hcs := slash_free_reverse (env.tree.names hd)
      rw [pathText_of_ne_root (by simp), components_joined (by simp) hcs, reverse_reverse]
      exact tsrmRealpathR_dir hd hlen
  rw [expandFilepath, if_neg (pathText_ne_nil d), virtualFileEx,
    if_neg (not_or.mpr ⟨pathText_ne_nil d, hlen.not_ge⟩), if_neg (by simp [isAbsolute_pathText]), hraw]
  exact if_neg fun h => h.2 h.1.2

theorem length_lt_of_expandFilepath (h : expandFilepath env cwd path = some s) : path.length < maxPathLen - 1 := by
  unfold expandFilepath virtualFileEx at h
  split_ifs at h with h1 h2
  exact Nat.lt_of_not_le fun hlen => h2 (.inr hlen)

end Texts

end PhpSandbox.Fs
