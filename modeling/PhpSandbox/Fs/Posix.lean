import PhpSandbox.Fs.RealpathCache

/-!
# The engine's resolution is the system's

`virtual_file_ex` with `CWD_REALPATH` (`Zend/zend_virtual_cwd.c`) does by itself what
`realpath` of POSIX does: it finds the place that a path name leads to, if there is
something, and returns its name without `.`, `..`, empty components and links. It
goes through the path from its end, and the system from its beginning.

## The model

The engine is that of `Fs.RealpathCache` with an empty cache, and POSIX resolution is
`FileTree.walk`, with any number of links (`Resolves`). The engine has limits of its
own (`WithinLimits`): `LINK_MAX` links, and texts shorter than `MAXPATHLEN - 1`, which
are those of the paths that come about (`Arises`) and of the places they lead to.

## What is proved

`Leads.of_walk`, `Leads.exists_walk`: within its limits the engine finds what the
system finds, and it finds nothing else. `run_realpath_iff` puts them together.
-/

namespace PhpSandbox.Fs

open Lib FileTree PathCall List

/-- The texts in the resolution of a path are shorter than `bound`. -/
structure StaysBelow (bound : ℕ) (env : Env) (path : List Bytes) : Prop where
  /-- Those of the paths that come about. -/
  raw : ∀ q, Arises env path q → (joined q.reverse).length < bound
  /-- Those of the places they lead to. -/
  place : ∀ q, Arises env path q → ∀ n t m, env.tree.walk true n [] q.reverse = some (t, m) →
    (pathText t).length < bound

/-- POSIX resolution of an absolute path name: it leads to this place, and there is something. -/
def Resolves (fs : FileTree) (path : Bytes) (p : Place) : Prop :=
  ∃ n m, fs.walk true n [] (components path) = some (p, m) ∧ fs.node p ≠ none

/-- The resolution follows at most `LINK_MAX` links, and its texts are shorter than `bound`. -/
structure WithinLimits (bound : ℕ) (env : Env) (path : Bytes) : Prop where
  links : ∃ found, env.tree.walk true linkMax [] (components path) = some found
  below : StaysBelow bound env (components path).reverse

/-- The components of the place are names, and none of them is a link. -/
structure Canonical (fs : FileTree) (p : Place) : Prop where
  names : ∀ c ∈ p, isName c
  not_link : ∀ q, q <:+ p → ∀ t, fs.node q ≠ some (.link t)

section Posix

variable {env : Env} {links n m bound : ℕ} {mode : CwdMode} {isDir : Bool} {path : List Bytes} {p t : Place}

theorem StaysBelow.of_arises {q : List Bytes} (h : StaysBelow bound env path) (hq : Arises env path q) :
    StaysBelow bound env q :=
  ⟨fun r hr => h.raw r (hq.trans hr), fun r hr => h.place r (hq.trans hr)⟩

/-- The text of a path with a relative target at its end. -/
theorem length_substituted {target : Bytes} (habs : ¬ isAbsolute target) (path : List Bytes) :
    (joined ((components target).reverse ++ path).reverse).length = rawLength path + target.length := by
  have hraw : (joined path.reverse).length = (path.map fun c => c.length + 1).sum := by
    induction path with
    | nil => rfl
    | cons c path ih =>
      rw [reverse_cons, joined_append, length_append, ih, map_cons, sum_cons]
      simp only [joined_cons, joined_nil, append_nil, length_cons]
      omega
  rw [reverse_append, reverse_reverse, joined_append, length_append, hraw, components, if_neg habs,
    joined_splitOn, length_cons, rawLength]
  omega

/-- **What the system finds, the engine finds** within its limits. -/
theorem Leads.of_walk (hn : n ≤ env.symloopMax) (hwalk : env.tree.walk true n [] path.reverse = some (t, m))
    (hbelow : StaysBelow (maxPathLen - 1) env path) (hthere : mode = .realpath → env.tree.node t ≠ none)
    (hdir : isDir → env.tree.node t ≠ some .file) : Leads env n mode isDir path t := by
  -- over the links; within a number of links, over the components
  induction n using Nat.strong_induction_on generalizing mode isDir path t m with
  | _ n ihn =>
    induction path generalizing mode isDir t m with
    | nil =>
      rw [reverse_nil, walk_nil] at hwalk
      cases hwalk
      exact .nil
    | cons c path ih =>
      have hlen := hbelow.place _ .self n t m hwalk
      have hcut := hbelow.of_arises (.cut .self)
      obtain ⟨f, k, hpath, hf, hc⟩ := walk_reverse_cons_iff.mp hwalk
      have hparent {mode} : Leads env n mode true path f := ih hpath hcut (by simp [hf]) (by simp [hf])
      by_cases hh : isHere c
      · rw [walk_here hh, walk_nil] at hc
        cases hc
        exact .here hh hparent
      by_cases hu : isUp c
      · rw [walk_up hh hu, walk_nil] at hc
        cases hc
        exact .up hh hu hparent
      have hstat : env.lstat (c :: path) = env.tree.node (c :: f) := by
        have hmono := walk_mono hpath (env.symloopMax - n)
        rw [Nat.add_sub_cancel' hn] at hmono
        exact env.lstat_of_walk hmono hf hh hu
      by_cases hlink : ∃ target, env.tree.node (c :: f) = some (.link target)
      · obtain ⟨target, hx⟩ := hlink
        rw [walk_link hh hu hx, if_neg (by simp), append_nil] at hc
        obtain ⟨n', m', rfl, hnew⟩ := walk_substitute_pred hpath hf hc
        rw [← hstat] at hx
        have hbelow' := hbelow.of_arises (.link .self hx)
        refine .link hh hu hx ?_ (ihn n' (Nat.lt_succ_self _) (Nat.le_of_succ_le hn) hnew hbelow' hthere hdir)
        by_cases habs : isAbsolute target
        · exact .inl habs
        · have hraw := hbelow'.raw _ .self
          rw [if_neg habs, length_substituted habs] at hraw
          exact .inr hraw
      · have hne (target) : env.tree.node (c :: f) ≠ some (.link target) := fun hx => hlink ⟨target, hx⟩
        rw [walk_name_of_ne_link hh hu hne] at hc
        cases hc
        refine .name hh hu hparent ?_ ?_ ?_ ?_
        · rw [appendName, if_neg hlen.not_ge]
        · rwa [hstat]
        · rwa [hstat]
        · rwa [hstat]

/-- **What the engine finds, the system finds**, though maybe through more links. -/
theorem Leads.exists_walk (h : Leads env links mode isDir path p) (hmode : mode = .realpath) :
    ∃ n m, env.tree.walk true n [] path.reverse = some (p, m) := by
  induction h with
  | nil => exact ⟨0, 0, rfl⟩
  | here hh h ih =>
    obtain ⟨n, m, hwalk⟩ := ih hmode
    refine ⟨n, m, ?_⟩
    rw [walk_reverse_cons hwalk ((h.realpath hmode).2 rfl), walk_here hh, walk_nil]
  | up hh hu h ih =>
    obtain ⟨n, m, hwalk⟩ := ih hmode
    refine ⟨n, m, ?_⟩
    rw [walk_reverse_cons hwalk ((h.realpath hmode).2 rfl), walk_up hh hu, walk_nil]
  | @name _ _ c path parent p _ hh hu h hname hlink hthere _ _ =>
    -- the system has resolved the parent, so the engine resolves it to the same directory
    obtain ⟨x, hx⟩ := Option.ne_none_iff_exists'.mp (hthere hmode)
    obtain ⟨f, k, hpath, hf, hnode⟩ := lstat_reverse_cons_eq_some hx hh hu
    obtain rfl := h.eq_of_walk hpath
    rw [(appendName_eq_some hname).1]
    refine ⟨env.symloopMax, k, ?_⟩
    rw [walk_reverse_cons hpath hf, walk_name_of_ne_link hh hu]
    rwa [hnode, ← hx]
  | @link _ _ _ c path target p hh hu hx _ _ ih =>
    obtain ⟨n, m, hwalk⟩ := ih hmode
    obtain ⟨f, k, hpath, hf, hnode⟩ := lstat_reverse_cons_eq_some hx hh hu
    have hjump : ∃ n m, env.tree.walk true n (origin target f) (components target) = some (p, m) := by
      rw [reverse_append, reverse_reverse] at hwalk
      unfold origin
      split_ifs at hwalk ⊢
      · exact ⟨n, m, by simpa using hwalk⟩
      rw [walk_append env.tree.root _ (components_ne_nil target), andThen] at hwalk
      obtain ⟨⟨f', k'⟩, hpath', hwalk⟩ := Option.bind_eq_some_iff.mp hwalk
      split_ifs at hwalk
      rw [walk_unique hpath hpath']
      exact ⟨k', m, hwalk⟩
    obtain ⟨n', m', hjump⟩ := hjump
    refine ⟨env.symloopMax + (n' + 1), m' + k, ?_⟩
    rw [walk_reverse_cons (walk_mono hpath (n' + 1)) hf, walk_link hh hu hnode,
      if_neg (by simp), append_nil, ← Nat.add_assoc, jump, Nat.add_comm k]
    exact walk_mono hjump k

/-- What is resolved is canonical. -/
theorem Resolves.canonical {path : Bytes} (h : Resolves env.tree path p) : Canonical env.tree p := by
  obtain ⟨n, m, hwalk, hp⟩ := h
  have hslash : ∀ c ∈ components path, 47 ∉ c := fun c hc => (mem_splitOn hc).2
  obtain ⟨x, hx⟩ := Option.ne_none_iff_exists'.mp hp
  have hend (t) : env.tree.node p ≠ some (.link t) := by
    rcases walk_follow_cases env.tree.root hslash hwalk with h | h | ⟨h, -⟩ <;> simp [h]
  refine ⟨env.tree.names hx, ?_⟩
  intro q hq t
  rcases node_suffix hx hq with rfl | hdir
  · exact hend t
  · simp [hdir]

/-- `virtual_file_ex` of an absolute path with an empty cache. -/
theorem run_realpath_absolute (env : Env) (limit : ℤ) (cwd : Place) {path : Bytes} (habs : isAbsolute path)
    (s : Bytes) :
    (run env limit cwd ⟨path, .mode .realpath⟩ .empty).1 = .ok s ↔
      path.length < maxPathLen - 1 ∧ ∃ p, Leads env linkMax .realpath false (components path).reverse p ∧
        s = pathText p := by
  have hne : path ≠ [] := by
    rintro rfl
    cases habs
  have hraw : rawComponents path cwd = (components path).reverse := by
    rw [rawComponents, origin, if_pos habs, append_nil]
  unfold run
  by_cases hlen : maxPathLen - 1 ≤ path.length
  · simp [hlen, hlen.not_gt]
  · rw [if_neg (not_or.mpr ⟨hne, hlen⟩), if_neg (by simp [habs])]
    simp only [resolve, hraw, cachedRealpathR_of_miss (lookup_empty limit), ← tsrmRealpathR_iff, Nat.lt_of_not_le hlen,
      true_and]
    cases tsrmRealpathR env linkMax .realpath false (components path).reverse <;> simp [finish, eq_comm]

/-- **`virtual_file_ex` with `CWD_REALPATH` is POSIX `realpath`**: for an absolute path whose resolution stays
within the limits, it succeeds exactly when the system resolves the path, and returns the canonical name of the
same place. -/
theorem run_realpath_iff (env : Env) (hsym : linkMax ≤ env.symloopMax) (limit : ℤ) (cwd : Place) {path : Bytes}
    (habs : isAbsolute path)
    (hlimits : ∀ p, Resolves env.tree path p → WithinLimits (maxPathLen - 1) env path) :
    (∀ s, (run env limit cwd ⟨path, .mode .realpath⟩ .empty).1 = .ok s ↔
        ∃ p, Resolves env.tree path p ∧ s = pathText p) ∧
      ∀ p, Resolves env.tree path p → Canonical env.tree p := by
  refine ⟨fun s => ?_, fun p h => h.canonical⟩
  rw [run_realpath_absolute env limit cwd habs]
  constructor
  · rintro ⟨-, p, hp, rfl⟩
    obtain ⟨n, m, hwalk⟩ := hp.exists_walk rfl
    rw [reverse_reverse] at hwalk
    refine ⟨p, ⟨n, m, hwalk, ?_⟩, rfl⟩
    rcases (hp.realpath rfl).1 with hx | hx <;> simp [hx]
  · rintro ⟨p, hp, rfl⟩
    obtain ⟨⟨⟨q, k⟩, hwalk⟩, hbelow⟩ := hlimits p hp
    obtain ⟨n, m, hp, hnode⟩ := hp
    obtain rfl := walk_unique hp hwalk
    have hlen := hbelow.raw _ .self
    rw [reverse_reverse, joined_components_absolute habs] at hlen
    refine ⟨hlen, p, ?_, rfl⟩
    rw [← reverse_reverse (components path)] at hwalk
    exact .of_walk hsym hwalk hbelow (fun _ => hnode) nofun

end Posix

theorem withinLimits_linkTree : WithinLimits (maxPathLen - 1) ⟨linkTree true, 40⟩ [47, 108] := by
  refine ⟨⟨([[109]], 31), rfl⟩, ?_, ?_⟩
  · intro q hq
    rcases arises_linkTree hq with rfl | rfl | rfl <;> decide
  · intro q hq n t m hwalk
    rcases arises_linkTree hq with rfl | rfl | rfl
    · have hwalk' : (linkTree true).walk true 1 [] [[108]] = some ([[109]], 0) := rfl
      rw [walk_unique hwalk hwalk']
      decide
    · have hwalk' : (linkTree true).walk true 0 [] [[109]] = some ([[109]], 0) := rfl
      rw [walk_unique hwalk hwalk']
      decide
    · have hwalk' : (linkTree true).walk true 0 [] [] = some ([], 0) := rfl
      rw [walk_unique hwalk hwalk']
      decide

/-- A link to a file is resolved to it. -/
theorem run_realpath_link : WithinLimits (maxPathLen - 1) ⟨linkTree true, 40⟩ [47, 108] ∧
    (run ⟨linkTree true, 40⟩ 16384 [] ⟨[47, 108], .mode .realpath⟩ .empty).1 = .ok [47, 109] := by
  have hiff := (run_realpath_iff ⟨linkTree true, 40⟩ (by decide) 16384 [] rfl fun _ _ => withinLimits_linkTree).1
  refine ⟨withinLimits_linkTree, (hiff _).mpr ⟨[[109]], ⟨1, 0, rfl, ?_⟩, rfl⟩⟩
  decide

/-! ### A path that is one byte too long -/

section Slashes

/-- A tree with nothing in it. -/
def emptyTree : FileTree := .ofDirs [] rfl

theorem lstat_emptyTree (path : List Bytes) (t : Bytes) : (Env.mk emptyTree 40).lstat path ≠ some (.link t) := by
  intro hx
  obtain ⟨e, -, hnode⟩ := Option.bind_eq_some_iff.mp hx
  exact ofDirs_ne_link [] rfl e.1 t hnode

theorem components_slashes (n : ℕ) : components (replicate (n + 1) 47) = replicate (n + 1) [] := by
  have hslash : (replicate n 47 : Bytes).splitOn 47 = replicate (n + 1) [] := by
    induction n with
    | zero => rfl
    | succ n ih =>
      have hsplit : (47 :: replicate n 47 : Bytes).splitOn 47 = [] :: (replicate n 47).splitOn 47 :=
        splitOn_append_cons_self_of_not_mem (not_mem_nil) _
      rw [replicate_succ, hsplit, ih, ← replicate_succ]
  exact hslash

theorem walk_slashes (links n : ℕ) : emptyTree.walk true links [] (replicate n []) = some ([], links) := by
  induction n with
  | zero => exact walk_nil
  | succ n ih => rw [replicate_succ, walk_here rfl, ih]

/-- Cutting off components is all that can be done. -/
theorem arises_slashes {n : ℕ} {q : List Bytes} (h : Arises ⟨emptyTree, 40⟩ (replicate n []) q) :
    ∃ k, k ≤ n ∧ q = replicate k [] := by
  induction h with
  | self => exact ⟨n, le_rfl, rfl⟩
  | cut _ ih =>
    obtain ⟨k, hk, heq⟩ := ih
    cases k with
    | zero => cases heq
    | succ k =>
      rw [replicate_succ] at heq
      cases heq
      exact ⟨k, Nat.le_of_succ_le hk, rfl⟩
  | link _ hx => exact absurd hx (lstat_emptyTree _ _)

theorem length_joined_slashes (n : ℕ) : (joined (replicate n [])).length = n := by
  induction n with
  | zero => rfl
  | succ n ih => rw [replicate_succ, joined_cons, length_cons, nil_append, ih]

/-- `MAXPATHLEN - 1` slashes, which name the root, are too many, though they fit into `MAXPATHLEN` bytes. -/
theorem run_realpath_slashes :
    WithinLimits maxPathLen ⟨emptyTree, 40⟩ (replicate 4095 47) ∧
      Resolves emptyTree (replicate 4095 47) [] ∧
      (run ⟨emptyTree, 40⟩ 0 [] ⟨replicate 4095 47, .mode .realpath⟩ .empty).1 = .error 1 := by
  have hwalk (links : ℕ) : emptyTree.walk true links [] (components (replicate 4095 47)) = some ([], links) := by
    rw [components_slashes, walk_slashes]
  refine ⟨⟨⟨_, hwalk linkMax⟩, ?_, ?_⟩, ⟨0, 0, hwalk 0, by simp [emptyTree.root]⟩, ?_⟩
  · intro q hq
    rw [components_slashes, reverse_replicate] at hq
    obtain ⟨k, hk, rfl⟩ := arises_slashes hq
    rw [reverse_replicate, length_joined_slashes]
    exact Nat.lt_succ_of_le hk
  · intro q hq n t m hwalk
    rw [components_slashes, reverse_replicate] at hq
    obtain ⟨k, hk, rfl⟩ := arises_slashes hq
    rw [reverse_replicate, walk_slashes] at hwalk
    cases hwalk
    decide
  · rw [run, if_pos (.inr (by rw [length_replicate]; decide))]

end Slashes

end PhpSandbox.Fs
