import PhpSandbox.Fs.OpenBasedir

/-!
# The check in a tree without links

Without symbolic links a path means what its components say: the engine only takes
`.` and `..` out (`normalForm`).

## What is proved

`tsrmRealpathR_normalForm`: the engine finds the normal form of a path or nothing.
`nearest_isSuffix`: a path is judged by an ancestor of its normal form, as long as
the first name in it is there.
-/

namespace PhpSandbox.Fs

open Lib Option List

/-- There are no symbolic links. -/
def Env.LinkFree (env : Env) : Prop := ∀ p t, env.tree.node p ≠ some (.link t)

/-- The place that components stand for, the last component first. -/
def normalForm : List Bytes → Place
  | [] => []
  | c :: path =>
    if isHere c then normalForm path
    else if isUp c then (normalForm path).tail
    else c :: normalForm path

section LinkFree

variable {env : Env} {cwd p r n : Place} {path s : Bytes} {cs : List Bytes} {links : ℕ} {mode : CwdMode}
  {isDir : Bool}

theorem normalForm_names (h : ∀ c ∈ p, isName c) : normalForm p = p := by
  induction p with
  | nil => rfl
  | cons c p ih =>
    obtain ⟨hc, hp⟩ := forall_mem_cons.mp h
    obtain ⟨hh, hu, -⟩ := FileTree.isName_iff.mp hc
    rw [normalForm, if_neg hh, if_neg hu, ih hp]

/-- The text of a place has the place as its normal form. -/
theorem normalForm_pathText (h : ∀ c ∈ r, isName c) : normalForm (rawComponents (pathText r) cwd) = r := by
  rw [rawComponents, origin, if_pos (isAbsolute_pathText r), append_nil]
  by_cases hr : r = []
  · subst hr
    rfl
  · rw [pathText_of_ne_root hr, components_joined (by simpa using hr) (slash_free_of_names h (.inl rfl)),
      reverse_reverse, normalForm_names h]

variable (hfree : env.LinkFree)

include hfree

theorem Env.LinkFree.lstat_ne_link (t : Bytes) : env.lstat cs ≠ some (.link t) := by
  intro h
  obtain ⟨e, -, he⟩ := bind_eq_some_iff.mp h
  exact hfree e.1 t he

/-- **The engine takes out `.` and `..`.** -/
theorem tsrmRealpathR_normalForm (h : tsrmRealpathR env links mode isDir cs = some p) : p = normalForm cs := by
  induction cs generalizing mode isDir p with
  | nil =>
    rw [tsrmRealpathR_nil] at h
    exact (some.inj h).symm
  | cons c cs ih =>
    rw [normalForm]
    split_ifs with hh hu
    · rw [tsrmRealpathR_here hh] at h
      exact ih h
    · rw [tsrmRealpathR_up hh hu] at h
      obtain ⟨q, hq, rfl⟩ := map_eq_some_iff.mp h
      rw [ih hq]
    · rcases (tsrmRealpathR_name_iff hh hu).mp h with ⟨parent, hparent, hname, -⟩ | ⟨target, links', hx, -⟩
      · rw [(appendName_eq_some hname).1, ih hparent]
      · exact absurd hx (hfree.lstat_ne_link target)

/-- What a path is expanded to. -/
theorem expandFilepath_normalForm (hcwd : env.tree.node cwd = some .dir) (h : expandFilepath env cwd path = some s) :
    Resolved (normalForm (rawComponents path cwd)) ∧ IsTextOf s (normalForm (rawComponents path cwd)) := by
  obtain ⟨p, hp, hfound, hs⟩ := expandFilepath_eq_some hcwd h
  obtain rfl := tsrmRealpathR_normalForm hfree hfound
  exact ⟨hp, hs.imp_right fun h => h.2.2⟩

/-- A base directory that is written as its place, which need not be there. -/
theorem basePlace_normalForm (hcwd : env.tree.node cwd = some .dir) (hr : ∀ c ∈ r, isName c) {b : Place}
    (h : basePlace env cwd (pathText r) = some b) : b = r := by
  obtain ⟨hb, resolved, hexp, htext⟩ := basePlace_eq_some hcwd h
  have hlen := length_lt_of_expandFilepath hexp
  rw [localOpenBasedir, if_neg (pathText_ne_dot r)] at hexp hlen
  rw [length_take] at hlen
  rw [take_of_length_le (by omega)] at hexp
  have hnormal := (expandFilepath_normalForm hfree hcwd hexp).2
  rw [normalForm_pathText hr] at hnormal
  rw [← htext.placeOf hb.names, hnormal.placeOf hr]

theorem Env.LinkFree.readlink_eq_none : env.readlink cwd s = none := by
  unfold Env.readlink
  split
  · rfl
  · split
    next t ht => exact absurd ht (hfree _ t)
    · rfl

theorem Env.LinkFree.exists_of_ne_none (h : env.tree.node p ≠ none) : env.tree.IsThere p := by
  rcases FileTree.node_cases (env.tree.node p) with (hx | hx) | hx | ⟨t, hx⟩
  · exact absurd hx h
  · exact .inl hx
  · exact .inr hx
  · exact absurd hx (hfree p t)

/-- `tsrm_realpath` of a text of a place finds that place or nothing. -/
theorem tsrmRealpath_normalForm (hp : Resolved p) {resolved : Bytes} (htext : IsTextOf s p)
    (h : tsrmRealpath env cwd s = some resolved) : resolved = pathText p := by
  have hself := normalForm_names hp.names
  rcases htext with rfl | rfl
  · rw [tsrmRealpath_pathText hp] at h
    obtain ⟨q, hq, rfl⟩ := map_eq_some_iff.mp h
    rw [tsrmRealpathR_normalForm hfree hq, hself]
  · rw [tsrmRealpath_dirText hp] at h
    split_ifs at h
    obtain ⟨q, hq, rfl⟩ := map_eq_some_iff.mp h
    rw [tsrmRealpathR_normalForm hfree hq, hself]

/-- The first name of a place is there. -/
def FirstExists (env : Env) (p : Place) : Prop := ∃ c, [c] <:+ p ∧ env.tree.node [c] ≠ none

/-- Cutting off what is missing ends at an ancestor, before the root. -/
theorem stripMissing_isSuffix (hp : Resolved p) (hfirst : FirstExists env p) {name : Bytes}
    (h : stripMissing env cwd (joined p.reverse) = some name) : ∃ m, m <:+ p ∧ Resolved m ∧ name = pathText m := by
  induction p with
  | nil =>
    obtain ⟨c, hc, -⟩ := hfirst
    cases suffix_nil.mp hc
  | cons c p ih =>
    rw [← pathText_of_ne_root (by simp), stripMissing_eq] at h
    rcases or_eq_some_iff.mp h with hreal | ⟨hmissing, hcut⟩
    · exact ⟨c :: p, suffix_rfl, hp, tsrmRealpath_normalForm hfree hp (.inl rfl) hreal⟩
    have hslash := (FileTree.isName_iff.mp (hp.names c (by simp))).2.2
    rw [pathText_cons, beforeLast_append _ hslash, bind_some] at hcut
    obtain ⟨c', hc', hx⟩ := hfirst
    rcases suffix_cons_iff.mp hc' with hc' | hc'
    · -- the first name is there, so nothing is cut off it
      cases hc'
      rw [tsrmRealpath_exists hp (hfree.exists_of_ne_none hx)] at hmissing
      cases hmissing
    · obtain ⟨m, hm, hres⟩ := ih hp.tail ⟨c', hc', hx⟩ hcut
      exact ⟨m, hm.trans (suffix_cons c p), hres⟩

/-- **A path is judged by an ancestor of its normal form**, if the first name in it is there. -/
theorem nearest_isSuffix (hcwd : env.tree.node cwd = some .dir)
    (hfirst : FirstExists env (normalForm (rawComponents path cwd))) (h : nearest env cwd path = some n) :
    n <:+ normalForm (rawComponents path cwd) := by
  obtain ⟨name, hname, rfl⟩ := map_eq_some_iff.mp h
  obtain ⟨pathTmp, hexp, hres⟩ := bind_eq_some_iff.mp hname
  obtain ⟨hq, htext⟩ := expandFilepath_normalForm hfree hcwd hexp
  generalize normalForm (rawComponents path cwd) = q at hfirst hq htext
  have hne : q ≠ [] := by
    rintro rfl
    obtain ⟨c, hc, -⟩ := hfirst
    cases suffix_nil.mp hc
  unfold resolveExisting at hres
  cases hreal : tsrmRealpath env cwd pathTmp with
  | some resolved =>
    have hres' : IsTextOf name q := by
      rw [hreal] at hres
      simp only [tsrmRealpath_normalForm hfree hq htext hreal] at hres
      split_ifs at hres
      · cases hres
        exact .inr (dirText_of_ne_root hne).symm
      · cases hres
        exact .inl rfl
    rw [hres'.placeOf hq.names]
  | none =>
    rw [hreal] at hres
    simp only [hfree.readlink_eq_none, getD_none] at hres
    have hstrip : stripMissing env cwd (joined q.reverse) = some name := by
      rcases htext with rfl | rfl
      · rw [← pathText_of_ne_root hne, stripMissing_eq, hreal, none_or, hres]
      · rw [dirText_eq, beforeLast_append _ not_mem_nil, bind_some] at hres
        exact hres
    obtain ⟨m, hm, hmres, rfl⟩ := stripMissing_isSuffix hfree hq hfirst hstrip
    rwa [IsTextOf.placeOf (.inl rfl) hmres.names]

end LinkFree

end PhpSandbox.Fs
