import PhpSandbox.Fs.Realpath

/-!
# What the resolution of a path depends on

How the place that `tsrm_realpath_r` gets to (`Leads`, of `Fs.Realpath`) depends on
the mode, on whether a directory is asked for and on the number of links it may follow.

## The model

`Arises` are the paths that the resolution has to do with: those that come about by
cutting off the last component, or by putting the target of a link in its place.
`Follows` counts the links, and `stat` is the system call that follows them.

## What is proved

`Leads.unique`: there is one place at most, in whatever mode. `Leads.mono`,
`Leads.exists_follows`: it is found through as many links as the resolution follows,
and through more. `Leads.realpath_of_stat`: where the system finds something, the
modes do not differ.
-/

namespace PhpSandbox.Fs

open Lib FileTree Env List

/-- The paths, the last component first, that come about when `path` is resolved from its end. -/
inductive Arises (env : Env) (path : List Bytes) : List Bytes → Prop where
  /-- The path itself. -/
  | self : Arises env path path
  /-- The last component is cut off. -/
  | cut {c : Bytes} {q : List Bytes} : Arises env path (c :: q) → Arises env path q
  /-- The last component is a link, and its target is put in its place. -/
  | link {c t : Bytes} {q : List Bytes} : Arises env path (c :: q) → env.lstat (c :: q) = some (.link t) →
      Arises env path ((components t).reverse ++ if isAbsolute t then [] else q)

/-- The resolution of the path from its end follows so many links. -/
inductive Follows (env : Env) : ℕ → List Bytes → Prop where
  /-- The root. -/
  | nil : Follows env 0 []
  /-- The last component is no link. -/
  | pass {n : ℕ} {c : Bytes} {path : List Bytes} :
      (isHere c ∨ isUp c ∨ ∀ t, env.lstat (c :: path) ≠ some (.link t)) → Follows env n path →
      Follows env n (c :: path)
  /-- The last component is a link. -/
  | link {n : ℕ} {c t : Bytes} {path : List Bytes} : ¬ isHere c → ¬ isUp c → env.lstat (c :: path) = some (.link t) →
      Follows env n ((components t).reverse ++ if isAbsolute t then [] else path) → Follows env (n + 1) (c :: path)

/-- `stat` of a path with these components, the last first. -/
def Env.stat (env : Env) (path : List Bytes) : Option Node :=
  (env.tree.walk true env.symloopMax [] path.reverse).bind fun found => env.tree.node found.1

/-- No link in the resolution of the path leads nowhere. -/
def NoDangling (env : Env) (path : List Bytes) : Prop :=
  ∀ q t, Arises env path q → env.lstat q = some (.link t) → env.stat q ≠ none

section Leads

variable {env : Env} {links : ℕ} {mode : CwdMode} {isDir : Bool} {path : List Bytes} {p : Place}

theorem Arises.trans {q r : List Bytes} (hq : Arises env path q) (hr : Arises env q r) : Arises env path r := by
  induction hr with
  | self => exact hq
  | cut _ ih => exact .cut ih
  | link _ hx ih => exact .link ih hx

theorem NoDangling.of_arises {q : List Bytes} (h : NoDangling env path) (hq : Arises env path q) : NoDangling env q :=
  fun r t hr => h r t (hq.trans hr)

variable {c : Bytes}

/-- How a path with a link at its end leads somewhere. -/
theorem Leads.of_link {target : Bytes} (hx : env.lstat (c :: path) = some (.link target)) (hh : ¬ isHere c)
    (hu : ¬ isUp c) (h : Leads env links mode isDir (c :: path) p) :
    ∃ k, links = k + 1 ∧ (isAbsolute target ∨ rawLength path + target.length < maxPathLen - 1) ∧
      Leads env k mode isDir ((components target).reverse ++ if isAbsolute target then [] else path) p := by
  rcases (tsrmRealpathR_name_iff hh hu).mp (tsrmRealpathR_iff.mpr h) with
    ⟨-, -, -, hlink, -⟩ | ⟨target', k, hx', hk, hlen, hjump⟩
  · exact absurd hx (hlink target)
  · rw [hx] at hx'
    cases hx'
    exact ⟨k, hk, hlen, tsrmRealpathR_iff.mp hjump⟩

/-- How a path with a name of no link at its end leads somewhere. -/
theorem Leads.of_name (hlink : ∀ t, env.lstat (c :: path) ≠ some (.link t)) (hh : ¬ isHere c) (hu : ¬ isUp c)
    (h : Leads env links mode isDir (c :: path) p) :
    ∃ parent, Leads env links .filepath true path parent ∧ appendName c parent = some p ∧
      (mode = .realpath → env.lstat (c :: path) ≠ none) ∧ (isDir → env.lstat (c :: path) ≠ some .file) := by
  rcases (tsrmRealpathR_name_iff hh hu).mp (tsrmRealpathR_iff.mpr h) with
    ⟨parent, hparent, hname, -, hthere, hdir⟩ | ⟨target, -, hx, -⟩
  · exact ⟨parent, tsrmRealpathR_iff.mp hparent, hname, hthere, hdir⟩
  · exact absurd hx (hlink target)

section Mono

variable (h : Leads env links mode isDir path p)

include h

variable {links' : ℕ}

/-- What leads somewhere through links does so through more of them. -/
theorem Leads.mono (hle : links ≤ links') : Leads env links' mode isDir path p := by
  induction h generalizing links' with
  | nil => exact .nil
  | here hh _ ih => exact .here hh (ih hle)
  | up hh hu _ ih => exact .up hh hu (ih hle)
  | name hh hu _ hname hlink hthere hdir ih => exact .name hh hu (ih hle) hname hlink hthere hdir
  | link hh hu hx hlen _ ih =>
    cases links' with
    | zero => exact absurd hle (Nat.not_succ_le_zero _)
    | succ links' => exact .link hh hu hx hlen (ih (Nat.le_of_succ_le_succ hle))

/-- `CWD_FILEPATH` finds what the other mode finds. -/
theorem Leads.filepath : Leads env links .filepath isDir path p := by
  induction h with
  | nil => exact .nil
  | here hh _ ih => exact .here hh ih
  | up hh hu _ ih => exact .up hh hu ih
  | name hh hu h hname hlink _ hdir _ => exact .name hh hu h hname hlink nofun hdir
  | link hh hu hx hlen _ ih => exact .link hh hu hx hlen ih

/-- A directory is found where anything is asked for. -/
theorem Leads.any : Leads env links mode false path p := by
  induction h with
  | nil => exact .nil
  | here hh h _ => exact .here hh h
  | up hh hu h _ => exact .up hh hu h
  | name hh hu h hname hlink hthere _ _ => exact .name hh hu h hname hlink hthere nofun
  | link hh hu hx hlen _ ih => exact .link hh hu hx hlen ih

/-- A directory that is found is found where one is asked for. -/
theorem Leads.dir (hmode : mode = .realpath) (hp : env.tree.node p = some .dir) : Leads env links mode true path p := by
  induction h with
  | nil => exact .nil
  | here hh h _ => exact .here hh h
  | up hh hu h _ => exact .up hh hu h
  | name hh hu h hname hlink hthere _ _ =>
    refine .name hh hu h hname hlink hthere fun _ hfile => ?_
    rw [h.node_append hname hh hu hfile] at hp
    cases hp
  | link hh hu hx hlen _ ih => exact .link hh hu hx hlen (ih hmode hp)

/-- Both modes lead to the same place, through however many links. -/
theorem Leads.unique {mode' : CwdMode} {isDir' : Bool} {p' : Place}
    (h' : Leads env links' mode' isDir' path p') : p = p' := by
  have h1 := tsrmRealpathR_iff.mpr (h.filepath.any.mono (Nat.le_max_left links links'))
  have h2 := tsrmRealpathR_iff.mpr (h'.filepath.any.mono (Nat.le_max_right links links'))
  exact Option.some.inj (h1.symm.trans h2)

/-- What is there is a directory, where a mode finds one. -/
theorem Leads.dir_of_realpath {mode' : CwdMode} {p' : Place} (hmode : mode = .realpath)
    (h' : Leads env links' mode' true path p') : env.tree.node p = some .dir := by
  induction h generalizing links' p' with
  | nil => exact env.tree.root
  | here _ h _ => exact (h.realpath hmode).2 rfl
  | up _ _ h _ => exact node_tail ((h.realpath hmode).2 rfl)
  | @name _ _ c path _ _ _ hh hu h hname hlink hthere _ _ =>
    obtain ⟨-, -, -, -, hdir⟩ := h'.of_name hlink hh hu
    rcases node_cases (env.lstat (c :: path)) with (hx | hx) | hx | ⟨t, hx⟩
    · exact absurd hx (hthere hmode)
    · exact absurd hx (hdir rfl)
    · exact h.node_append hname hh hu hx
    · exact absurd hx (hlink t)
  | link hh hu hx _ _ ih =>
    obtain ⟨k, -, -, h'⟩ := h'.of_link hx hh hu
    exact ih hmode h'

end Mono

theorem Env.stat_ne_none : env.stat path ≠ none ↔
    ∃ t m, env.tree.walk true env.symloopMax [] path.reverse = some (t, m) ∧ env.tree.node t ≠ none := by
  rcases hwalk : env.tree.walk true env.symloopMax [] path.reverse with _ | ⟨t, m⟩ <;> simp [stat, hwalk]

/-- A link is under a name. -/
theorem Env.name_of_lstat_link {t : Bytes} (hx : env.lstat (c :: path) = some (.link t)) : ¬ isHere c ∧ ¬ isUp c := by
  obtain ⟨⟨e, k⟩, he, hnode⟩ := Option.bind_eq_some_iff.mp hx
  obtain ⟨f, m, -, hf, hc⟩ := walk_reverse_cons_iff.mp he
  constructor
  · intro hh
    rw [walk_here hh, walk_nil] at hc
    cases hc
    rw [hf] at hnode
    cases hnode
  · intro hu
    have hh : ¬ isHere c := by
      rw [isUp, beq_iff_eq] at hu
      subst hu
      decide
    rw [walk_up hh hu, walk_nil] at hc
    cases hc
    rw [node_tail hf] at hnode
    cases hnode

/-- What has something in it is there. -/
theorem Env.stat_cut (h : env.stat (c :: path) ≠ none) : env.stat path ≠ none := by
  obtain ⟨t, m, hwalk, -⟩ := stat_ne_none.mp h
  obtain ⟨f, k, hpath, hf, -⟩ := walk_reverse_cons_iff.mp hwalk
  exact stat_ne_none.mpr ⟨f, k, hpath, by simp [hf]⟩

/-- What is there under a name is seen by `lstat`. -/
theorem Env.lstat_ne_none_of_stat (hh : ¬ isHere c) (hu : ¬ isUp c) (h : env.stat (c :: path) ≠ none) :
    env.lstat (c :: path) ≠ none := by
  obtain ⟨t, m, hwalk, ht⟩ := stat_ne_none.mp h
  obtain ⟨f, k, hpath, hf, hc⟩ := walk_reverse_cons_iff.mp hwalk
  rw [env.lstat_of_walk hpath hf hh hu]
  intro hx
  rw [walk_other hh hu (.inl hx), if_pos rfl] at hc
  cases hc
  exact ht hx

/-- What `lstat` sees under a name is in something that is there. -/
theorem Env.stat_of_lstat (hh : ¬ isHere c) (hu : ¬ isUp c) (h : env.lstat (c :: path) ≠ none) :
    env.stat path ≠ none := by
  obtain ⟨x, hx⟩ := Option.ne_none_iff_exists'.mp h
  obtain ⟨f, k, hpath, hf, -⟩ := lstat_reverse_cons_eq_some hx hh hu
  exact stat_ne_none.mpr ⟨f, k, hpath, by simp [hf]⟩

/-- A link leads to what is there after its target is put in its place. -/
theorem Env.stat_link {target : Bytes} (hx : env.lstat (c :: path) = some (.link target))
    (h : env.stat (c :: path) ≠ none) :
    env.stat ((components target).reverse ++ if isAbsolute target then [] else path) ≠ none := by
  obtain ⟨hh, hu⟩ := name_of_lstat_link hx
  obtain ⟨t, m, hwalk, ht⟩ := stat_ne_none.mp h
  obtain ⟨m', hnew⟩ := walk_substitute hh hu hx hwalk
  exact stat_ne_none.mpr ⟨t, m', hnew, ht⟩

/-- Where the system finds something, no link on the way leads nowhere. -/
theorem NoDangling.of_stat (h : env.stat path ≠ none) : NoDangling env path := by
  intro q t hq hx
  clear hx
  induction hq with
  | self => exact h
  | cut _ ih => exact stat_cut ih
  | link _ hx ih => exact stat_link hx ih

variable (h : Leads env links mode isDir path p)

include h

/-- Where the system finds something, what `CWD_FILEPATH` finds is found by `CWD_REALPATH`. -/
theorem Leads.realpath_of_stat (hstat : env.stat path ≠ none) : Leads env links .realpath isDir path p := by
  induction h with
  | nil => exact .nil
  | here hh _ ih => exact .here hh (ih (stat_cut hstat))
  | up hh hu _ ih => exact .up hh hu (ih (stat_cut hstat))
  | name hh hu h hname hlink _ hdir _ =>
    exact .name hh hu h hname hlink (fun _ => lstat_ne_none_of_stat hh hu hstat) hdir
  | link hh hu hx hlen _ ih => exact .link hh hu hx hlen (ih (stat_link hx hstat))

/-- The links that the resolution follows are all it needs. -/
theorem Leads.exists_follows : ∃ k, Follows env k path ∧ Leads env k mode isDir path p := by
  induction h with
  | nil => exact ⟨0, .nil, .nil⟩
  | here hh _ ih =>
    obtain ⟨k, hk, h⟩ := ih
    exact ⟨k, .pass (.inl hh) hk, .here hh h⟩
  | up hh hu _ ih =>
    obtain ⟨k, hk, h⟩ := ih
    exact ⟨k, .pass (.inr (.inl hu)) hk, .up hh hu h⟩
  | name hh hu _ hname hlink hthere hdir ih =>
    obtain ⟨k, hk, h⟩ := ih
    exact ⟨k, .pass (.inr (.inr hlink)) hk, .name hh hu h hname hlink hthere hdir⟩
  | link hh hu hx hlen _ ih =>
    obtain ⟨k, hk, h⟩ := ih
    exact ⟨k + 1, .link hh hu hx hk, .link hh hu hx hlen h⟩

end Leads

end PhpSandbox.Fs
