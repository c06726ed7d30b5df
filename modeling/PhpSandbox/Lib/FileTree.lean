import PhpSandbox.Lib.CString

/-!
# File trees and the resolution of path names

A tree of directories, files and symbolic links, and the resolution of a path
name in it as POSIX describes it: component by component from a directory, with
the target of a link put in front of the components that are left, up to a number
of links.

## The model

A place in a tree is the list of the names on the way to it, the innermost first,
so that the parent of a place is its tail and an ancestor a suffix of it. A tree
says what is at a place. `walk` resolves components to a place where something is,
or where something could be created: its last component may be missing, and all
else has to be there. With `follow` a link at the end is followed as well.

## What is proved

`walk_append`: a walk along two paths is a walk along one and then the other.
`walk_succ_iff`: more links never hurt, and those left over are not needed.
`walk_reverse`: the names on the way to a directory lead there. `walk_follow_cases`:
what is at the end of a walk that follows links.
-/

namespace PhpSandbox.Lib

open List Option

/-- What there can be at a place. -/
inductive Node where
  /-- A file. -/
  | file
  /-- A directory. -/
  | dir
  /-- A symbolic link. -/
  | link (target : Bytes)
  deriving DecidableEq

/-- A place: the names on the way to it, the innermost first. -/
abbrev Place := List Bytes

variable (c : Bytes)

/-- A component that stays where it is: an empty one or `.`. -/
def isHere : Bool := c == [] || c == [46]

/-- The component `..`. -/
def isUp : Bool := c == [46, 46]

/-- A component that can be the name of something. -/
def isName : Bool := !isHere c && !isUp c && !c.contains 47

/-- A tree. -/
structure FileTree where
  /-- What is at a place. -/
  node : Place → Option Node
  /-- The root is a directory. -/
  root : node [] = some .dir
  /-- What is somewhere is in a directory, -/
  parent : ∀ {c d x}, node (c :: d) = some x → node d = some .dir
  /-- under a name. -/
  name : ∀ {c d x}, node (c :: d) = some x → isName c

/-- The tree of these directories and those on the way to them. -/
def FileTree.ofDirs (ds : List Place) (h : ds.all fun d => d.all isName) : FileTree where
  node p := if p = [] ∨ ds.any fun d => p.isSuffixOf d then some .dir else none
  root := if_pos (.inl rfl)
  parent := by
    intro c p x hx
    obtain ⟨hp, -⟩ := ite_none_right_eq_some.mp hx
    obtain ⟨d, hd, hsuf⟩ := any_eq_true.mp (hp.resolve_left (by simp))
    refine if_pos (.inr (any_eq_true.mpr ⟨d, hd, ?_⟩))
    exact isSuffixOf_iff_suffix.mpr ((suffix_cons c p).trans (isSuffixOf_iff_suffix.mp hsuf))
  name := by
    intro c p x hx
    obtain ⟨hp, -⟩ := ite_none_right_eq_some.mp hx
    obtain ⟨d, hd, hsuf⟩ := any_eq_true.mp (hp.resolve_left (by simp))
    have hnames := all_eq_true.mp (all_eq_true.mp h d hd)
    exact hnames c ((isSuffixOf_iff_suffix.mp hsuf).subset (by simp))

theorem FileTree.ofDirs_ne_link (ds : List Place) (h : ds.all fun d => d.all isName) (p : Place) (t : Bytes) :
    (FileTree.ofDirs ds h).node p ≠ some (.link t) := by
  intro hx
  have hdir := (ite_none_right_eq_some.mp hx).2
  cases hdir

variable (t : Bytes)

/-- A path name from the root. -/
def isAbsolute : Bool := t.head? == some 47

/-- The components of a path name; those after the first slash of an absolute one. -/
def components : List Bytes := (if isAbsolute t then t.tail else t).splitOn 47

/-- Where the resolution of a path name begins, in the directory `d`. -/
def origin (d : Place) : Place := if isAbsolute t then [] else d

namespace FileTree

variable (fs : FileTree)

/-- A file or a directory is at the place. -/
abbrev IsThere (p : Place) : Prop := fs.node p = some .file ∨ fs.node p = some .dir

/-- The walk along components, with what to do at a link. -/
def walkWith (follow : Bool) (jump : Place → List Bytes → Option (Place × ℕ)) (n : ℕ) :
    Place → List Bytes → Option (Place × ℕ)
  | d, [] => some (d, n)
  | d, c :: rest =>
    if isHere c then walkWith follow jump n d rest
    else if isUp c then walkWith follow jump n d.tail rest
    else
      match fs.node (c :: d) with
      | some .dir => walkWith follow jump n (c :: d) rest
      | some (.link t) =>
        if rest = [] ∧ !follow then some (c :: d, n) else jump (origin t d) (components t ++ rest)
      | _ => if rest = [] then some (c :: d, n) else none

/-- The walk along components from a directory, through at most `n` links: the place it
ends at, and how many links are left. -/
def walk (follow : Bool) : ℕ → Place → List Bytes → Option (Place × ℕ)
  | 0 => fs.walkWith follow (fun _ _ => none) 0
  | n + 1 => fs.walkWith follow (walk follow n) (n + 1)

/-- What the walk does at a link. -/
def jump (follow : Bool) : ℕ → Place → List Bytes → Option (Place × ℕ)
  | 0 => fun _ _ => none
  | n + 1 => fs.walk follow n

section Walk

variable {fs} {follow : Bool} {n : ℕ} {d : Place} {c : Bytes} {rest : List Bytes}

theorem walk_eq (follow : Bool) (n : ℕ) : fs.walk follow n = fs.walkWith follow (fs.jump follow n) n := by
  cases n <;> rfl

@[simp] theorem walk_nil : fs.walk follow n d [] = some (d, n) := by
  rw [walk_eq, walkWith]

theorem walk_here (hc : isHere c) : fs.walk follow n d (c :: rest) = fs.walk follow n d rest := by
  rw [walk_eq, walkWith, if_pos hc]

section

variable (hh : ¬ isHere c)

include hh

theorem walk_up (hc : isUp c) : fs.walk follow n d (c :: rest) = fs.walk follow n d.tail rest := by
  rw [walk_eq, walkWith, if_neg hh, if_pos hc]

theorem walk_dir (hu : ¬ isUp c) (hx : fs.node (c :: d) = some .dir) :
    fs.walk follow n d (c :: rest) = fs.walk follow n (c :: d) rest := by
  rw [walk_eq, walkWith, if_neg hh, if_neg hu]
  simp only [hx]

theorem walk_other (hu : ¬ isUp c) (hx : fs.node (c :: d) = none ∨ fs.node (c :: d) = some .file) :
    fs.walk follow n d (c :: rest) = if rest = [] then some (c :: d, n) else none := by
  rw [walk_eq, walkWith, if_neg hh, if_neg hu]
  rcases hx with hx | hx <;> simp only [hx]

theorem walk_link {t : Bytes} (hu : ¬ isUp c) (hx : fs.node (c :: d) = some (.link t)) :
    fs.walk follow n d (c :: rest) =
      if rest = [] ∧ !follow then some (c :: d, n)
      else fs.jump follow n (origin t d) (components t ++ rest) := by
  rw [walk_eq, walkWith, if_neg hh, if_neg hu]
  simp only [hx]

end

/-- What can be at a place, as the walk tells it apart. -/
theorem node_cases (x : Option Node) : (x = none ∨ x = some .file) ∨ x = some .dir ∨ ∃ t, x = some (.link t) := by
  rcases x with _ | _ | _ | t
  · exact .inl (.inl rfl)
  · exact .inl (.inr rfl)
  · exact .inr (.inl rfl)
  · exact .inr (.inr ⟨t, rfl⟩)

/-- The parent of a directory is one. -/
theorem node_tail (hd : fs.node d = some .dir) : fs.node d.tail = some .dir := by
  cases d with
  | nil => exact hd
  | cons c d => exact fs.parent hd

variable {x : Node}

/-- Whatever is somewhere, the components on the way to it are names. -/
theorem names (hd : fs.node d = some x) : ∀ c ∈ d, isName c := by
  induction d generalizing x with
  | nil => simp
  | cons c d ih => exact forall_mem_cons.mpr ⟨fs.name hd, ih (fs.parent hd)⟩

variable {e : Place} {m : ℕ}

/-- What is on the way to something is a directory. -/
theorem node_suffix (hd : fs.node d = some x) (he : e <:+ d) : e = d ∨ fs.node e = some .dir := by
  induction d generalizing x with
  | nil => exact .inl (suffix_nil.mp he)
  | cons c d ih =>
    rcases suffix_cons_iff.mp he with rfl | he
    · exact .inl rfl
    · have hp := fs.parent hd
      rcases ih hp he with rfl | h
      · exact .inr hp
      · exact .inr h

theorem components_ne_nil (t : Bytes) : components t ≠ [] := splitOn_ne_nil _ _

theorem node_origin (hd : fs.node d = some .dir) (t : Bytes) : fs.node (origin t d) = some .dir := by
  unfold origin
  split_ifs
  · exact fs.root
  · exact hd

/-- Going on along `ds` from where a walk along a first path ended. -/
def andThen (fs : FileTree) (follow : Bool) (ds : List Bytes) (r : Option (Place × ℕ)) : Option (Place × ℕ) :=
  r.bind fun em => if fs.node em.1 = some .dir then fs.walk follow em.2 em.1 ds else none

/-- A walk along two paths. -/
theorem walk_append (hd : fs.node d = some .dir) (cs : List Bytes) {ds : List Bytes} (hds : ds ≠ []) :
    fs.walk follow n d (cs ++ ds) = fs.andThen follow ds (fs.walk true n d cs) := by
  -- over the links; within a number of links, over the first path
  induction n using Nat.strong_induction_on generalizing d cs with
  | _ n ihn =>
    have hjump : ∀ e, fs.node e = some .dir → ∀ cs,
        fs.jump follow n e (cs ++ ds) = fs.andThen follow ds (fs.jump true n e cs) := by
      intro e he cs
      cases n with
      | zero => rfl
      | succ n => exact ihn n (Nat.lt_succ_self n) he cs
    induction cs generalizing d with
    | nil => simp [andThen, hd]
    | cons c cs ih =>
      rw [cons_append]
      by_cases hh : isHere c
      · rw [walk_here hh, walk_here hh, ih hd]
      by_cases hu : isUp c
      · rw [walk_up hh hu, walk_up hh hu, ih (node_tail hd)]
      rcases node_cases (fs.node (c :: d)) with hx | hx | ⟨t, hx⟩
      · rw [walk_other hh hu hx, walk_other hh hu hx, if_neg (by simp [hds])]
        split_ifs
        · rcases hx with hx | hx <;> simp [andThen, hx]
        · rfl
      · rw [walk_dir hh hu hx, walk_dir hh hu hx, ih hx]
      · rw [walk_link hh hu hx, walk_link hh hu hx, if_neg (by simp [hds]), if_neg (by simp),
          ← append_assoc, hjump _ (node_origin hd t)]

variable {cs : List Bytes}

theorem walk_le (h : fs.walk follow n d cs = some (e, m)) : m ≤ n := by
  induction n generalizing d cs with
  | zero =>
    rw [walk] at h
    fun_induction walkWith fs follow (fun _ _ => none) 0 d cs <;> simp_all
  | succ n ih =>
    rw [walk] at h
    fun_induction walkWith fs follow (fs.walk follow n) (n + 1) d cs <;> simp_all
    exact (ih h).trans n.le_succ

theorem walkWith_succ_iff {jump jump' : Place → List Bytes → Option (Place × ℕ)}
    (hjump : ∀ d cs, jump' d cs = some (e, m + 1) ↔ jump d cs = some (e, m)) :
    fs.walkWith follow jump' (n + 1) d cs = some (e, m + 1) ↔ fs.walkWith follow jump n d cs = some (e, m) := by
  fun_induction walkWith fs follow jump n d cs <;> grind [walkWith]

/-- More links never hurt, and those left over need not have been there. -/
theorem walk_succ_iff : fs.walk follow (n + 1) d cs = some (e, m + 1) ↔ fs.walk follow n d cs = some (e, m) := by
  induction n generalizing d cs with
  | zero => exact walkWith_succ_iff fun d cs => ⟨fun h => absurd (walk_le h) (by simp), fun h => by cases h⟩
  | succ n ih => exact walkWith_succ_iff fun d cs => ih

theorem walk_mono (h : fs.walk follow n d cs = some (e, m)) (k : ℕ) :
    fs.walk follow (n + k) d cs = some (e, m + k) := by
  induction k with
  | zero => exact h
  | succ k ih => exact walk_succ_iff.mpr ih

/-- However many links are allowed, a walk leads to one place only. -/
theorem walk_unique {e' : Place} {n' m' : ℕ} (h : fs.walk follow n d cs = some (e, m))
    (h' : fs.walk follow n' d cs = some (e', m')) : e = e' := by
  have hmono' := walk_mono h' n
  rw [Nat.add_comm, walk_mono h n'] at hmono'
  exact congrArg Prod.fst (some.inj hmono')

theorem isName_iff : isName c ↔ ¬ isHere c ∧ ¬ isUp c ∧ 47 ∉ c := by
  simp [isName, and_assoc]

/-- One more component, behind a path that leads to a directory. -/
theorem walk_reverse_cons {p : Place} (hp : fs.walk true n [] p.reverse = some (d, m)) (hd : fs.node d = some .dir) :
    fs.walk follow n [] (c :: p).reverse = fs.walk follow m d [c] := by
  rw [reverse_cons, walk_append fs.root _ (by simp), hp]
  simp [andThen, hd]

/-- The names on the way to a directory lead there. -/
theorem walk_reverse (hd : fs.node d = some .dir) : fs.walk follow n [] d.reverse = some (d, n) := by
  induction d generalizing follow with
  | nil => exact walk_nil
  | cons c d ih =>
    obtain ⟨hh, hu, -⟩ := isName_iff.mp (fs.name hd)
    have hp := fs.parent hd
    rw [walk_reverse_cons (ih hp) hp, walk_dir hh hu hd, walk_nil]

/-- So do those on the way to a file. -/
theorem walk_reverse_file (hd : fs.node d = some .file) : fs.walk follow n [] d.reverse = some (d, n) := by
  cases d with
  | nil => simp [fs.root] at hd
  | cons c d =>
    obtain ⟨hh, hu, -⟩ := isName_iff.mp (fs.name hd)
    have hp := fs.parent hd
    rw [walk_reverse_cons (walk_reverse hp) hp, walk_other hh hu (.inr hd), if_pos rfl]

/-- A walk along a path and one more component. -/
theorem walk_concat_iff (hd : fs.node d = some .dir) {e : Place × ℕ} :
    fs.walk follow n d (cs ++ [c]) = some e ↔
      ∃ f m, fs.walk true n d cs = some (f, m) ∧ fs.node f = some .dir ∧ fs.walk follow m f [c] = some e := by
  rw [walk_append hd cs (by simp), andThen, bind_eq_some_iff]
  constructor
  · rintro ⟨⟨f, m⟩, hf, h⟩
    split_ifs at h with hdir
    exact ⟨f, m, hf, hdir, h⟩
  · rintro ⟨f, m, hf, hdir, h⟩
    exact ⟨(f, m), hf, by rw [if_pos hdir, h]⟩

theorem walk_reverse_cons_iff {p : Place} {e : Place × ℕ} :
    fs.walk follow n [] (c :: p).reverse = some e ↔
      ∃ f m, fs.walk true n [] p.reverse = some (f, m) ∧ fs.node f = some .dir ∧ fs.walk follow m f [c] = some e := by
  rw [reverse_cons]
  exact walk_concat_iff fs.root

/-- Without following a link, one name leads to its place, whatever is there. -/
theorem walk_name (hh : ¬ isHere c) (hu : ¬ isUp c) : fs.walk false n d [c] = some (c :: d, n) := by
  rcases node_cases (fs.node (c :: d)) with hx | hx | ⟨t, hx⟩
  · rw [walk_other hh hu hx, if_pos rfl]
  · rw [walk_dir hh hu hx, walk_nil]
  · rw [walk_link hh hu hx, if_pos ⟨rfl, rfl⟩]

/-- So it does where there is no link. -/
theorem walk_name_of_ne_link (hh : ¬ isHere c) (hu : ¬ isUp c) (hx : ∀ t, fs.node (c :: d) ≠ some (.link t)) :
    fs.walk follow n d [c] = some (c :: d, n) := by
  rcases node_cases (fs.node (c :: d)) with hx' | hx' | ⟨t, hx'⟩
  · rw [walk_other hh hu hx', if_pos rfl]
  · rw [walk_dir hh hu hx', walk_nil]
  · exact absurd hx' (hx t)

/-- A walk that follows links ends at something that is no link, or at a name that is
missing in a directory. -/
theorem walk_follow_cases (hd : fs.node d = some .dir) (hcs : ∀ c ∈ cs, 47 ∉ c)
    (h : fs.walk true n d cs = some (e, m)) :
    fs.node e = some .file ∨ fs.node e = some .dir ∨
      fs.node e = none ∧ ∃ c f, e = c :: f ∧ isName c ∧ fs.node f = some .dir := by
  induction n using Nat.strong_induction_on generalizing d cs m with
  | _ n ihn =>
    induction cs generalizing d with
    | nil =>
      rw [walk_nil] at h
      cases h
      exact .inr (.inl hd)
    | cons c cs ih =>
      obtain ⟨hc, hcs⟩ := forall_mem_cons.mp hcs
      by_cases hh : isHere c
      · rw [walk_here hh] at h
        exact ih hd hcs h
      by_cases hu : isUp c
      · rw [walk_up hh hu] at h
        exact ih (node_tail hd) hcs h
      rcases node_cases (fs.node (c :: d)) with hx | hx | ⟨t, hx⟩
      · rw [walk_other hh hu hx] at h
        split_ifs at h
        cases h
        rcases hx with hx | hx
        · exact .inr (.inr ⟨hx, c, d, rfl, isName_iff.mpr ⟨hh, hu, hc⟩, hd⟩)
        · exact .inl hx
      · rw [walk_dir hh hu hx] at h
        exact ih hx hcs h
      · rw [walk_link hh hu hx, if_neg (by simp)] at h
        cases n with
        | zero => cases h
        | succ n =>
          refine ihn n (Nat.lt_succ_self n) (node_origin hd t) (forall_mem_append.mpr ⟨?_, hcs⟩) h
          exact fun b hb => (mem_splitOn hb).2

/-- `lstat`, at the path name with these components from the root. -/
def lstat (fs : FileTree) (n : ℕ) (cs : List Bytes) : Option Node := (fs.walk false n [] cs).bind (fs.node ·.1)

theorem lstat_reverse_cons_eq_some {p : Place} (h : fs.lstat n (c :: p).reverse = some x) (hh : ¬ isHere c)
    (hu : ¬ isUp c) :
    ∃ d m, fs.walk true n [] p.reverse = some (d, m) ∧ fs.node d = some .dir ∧ fs.node (c :: d) = some x := by
  obtain ⟨e, he, hx⟩ := bind_eq_some_iff.mp h
  obtain ⟨d, m, hwalk, hd, hc⟩ := walk_reverse_cons_iff.mp he
  rw [walk_name hh hu] at hc
  cases hc
  exact ⟨d, m, hwalk, hd, hx⟩

end Walk

end FileTree

/-! ### Texts of places -/

/-- The path name with these components from the root. -/
def joined (cs : List Bytes) : Bytes := cs.flatMap (47 :: ·)

/-- The text of a place. -/
def pathText (p : Place) : Bytes := if p = [] then [47] else joined p.reverse

/-- The text of a place with a slash at its end. -/
def dirText (p : Place) : Bytes := joined (p.reverse ++ [[]])

section Text

variable {cs ds : List Bytes} {p r : Place}

@[simp] theorem joined_nil : joined [] = [] := rfl

variable (c : Bytes)

@[simp] theorem joined_cons (cs : List Bytes) : joined (c :: cs) = 47 :: (c ++ joined cs) := rfl

@[simp] theorem joined_append (cs ds : List Bytes) : joined (cs ++ ds) = joined cs ++ joined ds :=
  flatMap_append

theorem pathText_cons (p : Place) : pathText (c :: p) = joined p.reverse ++ 47 :: c := by
  simp [pathText]

theorem length_pathText_le (p : Place) : (pathText p).length ≤ (pathText (c :: p)).length := by
  rw [pathText_cons, pathText, length_append]
  split_ifs
  · simp only [length_cons, length_nil]
    omega
  · exact Nat.le_add_right _ _

theorem dirText_eq (p : Place) : dirText p = joined p.reverse ++ [47] := by
  simp [dirText]

theorem pathText_root : pathText [] = dirText [] := rfl

theorem pathText_of_ne_root (hp : p ≠ []) : pathText p = joined p.reverse := if_neg hp

theorem dirText_of_ne_root (hp : p ≠ []) : dirText p = pathText p ++ [47] := by
  rw [dirText_eq, pathText_of_ne_root hp]

theorem slash_free_reverse (hp : ∀ c ∈ p, isName c) : ∀ c ∈ p.reverse, 47 ∉ c :=
  fun c hc => (FileTree.isName_iff.mp (hp c (mem_reverse.mp hc))).2.2

theorem pathText_ne_nil (p : Place) : pathText p ≠ [] := by
  cases p with
  | nil => simp [pathText]
  | cons c p => simp [pathText_cons]

/-- Only the root's text ends with a slash. -/
theorem getLast_pathText_iff (hp : ∀ c ∈ p, isName c) : (pathText p).getLast? = some 47 ↔ p = [] := by
  cases p with
  | nil => simp [pathText]
  | cons c p =>
    obtain ⟨hh, -, hc⟩ := FileTree.isName_iff.mp (hp c (by simp))
    have hne : c ≠ [] := fun h => hh (by simp [h, isHere])
    simp only [pathText_cons, reduceCtorEq, iff_false]
    rw [getLast?_append_cons, getLast?_cons_of_ne_nil hne]
    exact fun h => hc (mem_of_getLast? h)

theorem isAbsolute_joined (h : cs ≠ []) : isAbsolute (joined cs) := by
  cases cs with
  | nil => exact absurd rfl h
  | cons c cs => simp [isAbsolute]

theorem isAbsolute_pathText (p : Place) : isAbsolute (pathText p) := by
  unfold pathText
  split_ifs with hp
  · rfl
  · exact isAbsolute_joined (by simpa using hp)

theorem pathText_ne_dot (p : Place) : pathText p ≠ [46] := by
  intro h
  have habs := isAbsolute_pathText p
  rw [h] at habs
  cases habs

/-- A path name is that of its components. -/
theorem components_joined (h : cs ≠ []) (hcs : ∀ c ∈ cs, 47 ∉ c) : components (joined cs) = cs := by
  rw [components, if_pos (isAbsolute_joined h)]
  induction cs with
  | nil => exact absurd rfl h
  | cons c cs ih =>
    obtain ⟨hc, hcs⟩ := forall_mem_cons.mp hcs
    cases cs with
    | nil => simpa using splitOn_eq_singleton hc
    | cons d ds =>
      have ih := ih (by simp) hcs
      rw [joined_cons, tail_cons] at ih ⊢
      rw [joined_cons, splitOn_append_cons_self_of_not_mem hc, ih]

/-- The text of the components that a text is split into. -/
theorem joined_splitOn (t : Bytes) : joined (t.splitOn 47) = 47 :: t := by
  have hjoined : ∀ cs : List Bytes, cs ≠ [] → joined cs = 47 :: [47].intercalate cs := by
    intro cs hcs
    induction cs with
    | nil => exact absurd rfl hcs
    | cons c cs ih =>
      cases cs with
      | nil => simp
      | cons d ds =>
        rw [joined_cons, ih (by simp)]
        simp [intercalate]
  rw [hjoined _ (splitOn_ne_nil _ _), intercalate_splitOn]

theorem exists_cons_of_isAbsolute {t : Bytes} (h : isAbsolute t) : ∃ u, t = 47 :: u :=
  head?_eq_some_iff.mp (beq_iff_eq.mp h)

theorem joined_components_absolute {t : Bytes} (h : isAbsolute t) : joined (components t) = t := by
  rw [components, if_pos h, joined_splitOn]
  obtain ⟨u, rfl⟩ := exists_cons_of_isAbsolute h
  rfl

/-- The first components of two path names, up to the slashes after them. -/
theorem append_slash_isPrefix_iff {c d u v : Bytes} (hc : 47 ∉ c) (hd : 47 ∉ d) :
    c ++ 47 :: u <+: d ++ 47 :: v ↔ c = d ∧ u <+: v := by
  induction c generalizing d with
  | nil =>
    cases d with
    | nil => simp
    | cons b d =>
      have hb : 47 ≠ b := ne_of_not_mem_cons hd
      simp [cons_prefix_cons, hb]
  | cons a c ih =>
    have ha : a ≠ 47 := (ne_of_not_mem_cons hc).symm
    cases d with
    | nil => simp [cons_prefix_cons, ha]
    | cons b d =>
      simp [cons_prefix_cons, ih (not_mem_of_not_mem_cons hc) (not_mem_of_not_mem_cons hd), and_assoc]

/-- One path name continues another exactly when its components do. -/
theorem joined_isPrefix_iff (hcs : ∀ c ∈ cs, 47 ∉ c) (hds : ∀ d ∈ ds, 47 ∉ d) :
    joined cs ++ [47] <+: joined ds ++ [47] ↔ cs <+: ds := by
  induction cs generalizing ds with
  | nil => cases ds <;> simp [cons_prefix_cons]
  | cons c cs ih =>
    obtain ⟨hc, hcs⟩ := forall_mem_cons.mp hcs
    cases ds with
    | nil => simp [cons_prefix_cons]
    | cons d ds =>
      obtain ⟨hd, hds⟩ := forall_mem_cons.mp hds
      have hslash : ∀ es, ∃ u, joined es ++ [47] = 47 :: u := fun es => by cases es <;> simp
      obtain ⟨u, hu⟩ := hslash cs
      obtain ⟨v, hv⟩ := hslash ds
      have ih := ih hcs hds
      rw [hu, hv, cons_prefix_cons] at ih
      simp [cons_prefix_cons, hu, hv, append_slash_isPrefix_iff hc hd, ih.symm]

end Text

end PhpSandbox.Lib
