import PhpSandbox.Fs.Resolution

/-!
# The cache of resolved paths

`realpath_cache_find` and `realpath_cache_add` of `Zend/zend_virtual_cwd.c`, and
`tsrm_realpath_r` and `virtual_file_ex` as they use them: what was found out about
an absolute path is looked up before the files are asked, and stored afterwards.

## The model

The functions are those of `Fs.Realpath` with the cache as a state. A bucket belongs
to the text of a path, which is here the list of its components. The buckets are in
one list, the newest first, as they are in each of the chains of the source: those
with the same path are in the same chain. `tsrm_realpath_r` also says whether it found
a directory (`link_is_dir`; nothing said is no). Nothing expires. `CWD_EXPAND`, which
asks neither the files nor the cache, is here as well.

## What is proved

`Agrees`: with a cache in which every bucket is what `CWD_REALPATH` finds, the engine
finds everything that it finds without one, and only what it finds without one if it
may follow more links; and it keeps the cache like that, unless `CWD_FILEPATH` follows
a link that leads nowhere. `runCalls_eq`: so the cache goes unnoticed in every run
of calls that follow no such link and no more than `LINK_MAX` links.
-/

namespace PhpSandbox.Fs

open Lib Option

/-- `sizeof(realpath_cache_bucket)`. -/
def bucketSize : ℕ := 56

/-- `realpath_cache_bucket`. -/
structure Bucket where
  /-- The path, the last component first. -/
  path : List Bytes
  /-- Where it leads. -/
  realpath : Place
  /-- Whether that is a directory. -/
  isDir : Bool

/-- `realpath_cache` and `realpath_cache_size`. -/
structure Cache where
  /-- The buckets. -/
  buckets : List Bucket
  /-- Their size. -/
  size : ℕ

/-- The cache in the beginning. -/
def Cache.empty : Cache := ⟨[], 0⟩

/-- The size of a bucket: the two texts are stored once if they are the same. -/
def Bucket.size (bucket : Bucket) : ℕ :=
  let path := joined bucket.path.reverse
  let realpath := pathText bucket.realpath
  bucketSize + path.length + 1 + if realpath = path then 0 else realpath.length + 1

variable (limit : ℤ)

/-- `realpath_cache_add`, with `realpath_cache_size_limit`. -/
def realpathCacheAdd (bucket : Bucket) (cache : Cache) : Cache :=
  if ((cache.size + bucket.size : ℕ) : ℤ) ≤ limit then ⟨bucket :: cache.buckets, cache.size + bucket.size⟩
  else cache

variable (path : List Bytes)

/-- `realpath_cache_find`. -/
def realpathCacheFind (cache : Cache) : Option Bucket :=
  cache.buckets.find? fun bucket => bucket.path = path

/-- What a function that uses the cache returns, and the cache it leaves. -/
abbrev Found := Option (Place × Bool) × Cache

/-- The lookup; without a limit there is no cache. -/
def lookup (cache : Cache) : Option Bucket :=
  if limit = 0 then none else realpathCacheFind path cache

/-- What was found is stored. -/
def save : Found → Found
  | (none, cache) => (none, cache)
  | (some (p, directory), cache) =>
    (some (p, directory), if limit = 0 then cache else realpathCacheAdd limit ⟨path, p, directory⟩ cache)

/-- The last component behind its resolved parent, if the text is not too long. -/
def behind (c : Bytes) (directory : Bool) (found : Found) : Found :=
  ((found.1.bind fun parent => appendName c parent.1).map (·, directory), found.2)

/-- `tsrm_realpath_r`, with what to do with the path after a link is substituted. -/
def cachedWith (env : Env) (limit : ℤ) (jump : CwdMode → Bool → List Bytes → Cache → Found) (useRealpath : CwdMode) :
    Bool → List Bytes → Cache → Found
  | _, [], cache => (some ([], true), cache)
  | isDir, c :: path, cache =>
    if isHere c then cachedWith env limit jump useRealpath true path cache
    else if isUp c then
      let found := cachedWith env limit jump useRealpath true path cache
      (found.1.map fun p => (p.1.tail, true), found.2)
    else
      match lookup limit (c :: path) cache with
      | some bucket =>
        if isDir ∧ !bucket.isDir then (none, cache) else (some (bucket.realpath, bucket.isDir), cache)
      | none =>
        match env.lstat (c :: path) with
        | none =>
          -- the result is not saved
          if useRealpath = .realpath then (none, cache)
          else behind c false (cachedWith env limit jump .filepath true path cache)
        | some (.link target) =>
          if isAbsolute target then save limit (c :: path) (jump useRealpath isDir (components target).reverse cache)
          else if maxPathLen - 1 ≤ rawLength path + target.length then (none, cache)
          else save limit (c :: path) (jump useRealpath isDir ((components target).reverse ++ path) cache)
        | some node =>
          if isDir ∧ node ≠ .dir then (none, cache)
          else save limit (c :: path) (behind c (node = .dir) (cachedWith env limit jump .filepath true path cache))

/-- `tsrm_realpath_r`, through at most this many more links. -/
def cachedRealpathR (env : Env) (limit : ℤ) : ℕ → CwdMode → Bool → List Bytes → Cache → Found
  | 0 => cachedWith env limit fun _ _ _ cache => (none, cache)
  | links + 1 => cachedWith env limit (cachedRealpathR env limit links)

/-- `tsrm_realpath_r` with `CWD_EXPAND`, which knows nothing of the files. -/
def expandR : List Bytes → Option Place
  | [] => some []
  | c :: path =>
    if isHere c then expandR path
    else if isUp c then (expandR path).map List.tail
    else (expandR path).bind (appendName c)

/-- `use_realpath`. -/
inductive UseRealpath where
  /-- `CWD_EXPAND`. -/
  | expand
  /-- `CWD_FILEPATH` or `CWD_REALPATH`. -/
  | mode (mode : CwdMode)
  deriving DecidableEq

/-- `tsrm_realpath_r` in each of the modes. -/
def resolve (env : Env) (limit : ℤ) (path : List Bytes) (cache : Cache) : UseRealpath → Option Place × Cache
  | .expand => (expandR path, cache)
  | .mode mode =>
    let found := cachedRealpathR env limit linkMax mode false path cache
    (found.1.map Prod.fst, found.2)

/-- What `virtual_file_ex` makes of the place that was found: a text, or the status that says it failed. -/
def finish (useRealpath : UseRealpath) (path : Bytes) : Option Place → Except ℤ Bytes
  | none => .error 1
  | some p =>
    let resolved := pathText p
    let addSlash := useRealpath ≠ .mode .realpath ∧ path.getLast? = some 47
    if addSlash ∧ resolved.getLast? ≠ some 47 then
      if maxPathLen - 1 ≤ resolved.length then .error (-1) else .ok (resolved ++ [47])
    else .ok resolved

/-- A call of `virtual_file_ex`. -/
structure PathCall where
  /-- The path. -/
  path : Bytes
  /-- The mode. -/
  useRealpath : UseRealpath

/-- `virtual_file_ex`: `path` in the directory `cwd`. -/
def PathCall.run (env : Env) (limit : ℤ) (cwd : Place) (call : PathCall) (cache : Cache) : Except ℤ Bytes × Cache :=
  if call.path = [] ∨ maxPathLen - 1 ≤ call.path.length then (.error 1, cache)
  else if !isAbsolute call.path ∧ maxPathLen - 1 ≤ call.path.length + (pathText cwd).length + 1 then (.error 1, cache)
  else
    let found := resolve env limit (rawComponents call.path cwd) cache call.useRealpath
    (finish call.useRealpath call.path found.1, found.2)

/-- Calls one after the other: what they return. -/
def runCalls (env : Env) (limit : ℤ) (cwd : Place) : List PathCall → Cache → List (Except ℤ Bytes)
  | [], _ => []
  | call :: calls, cache =>
    let result := call.run env limit cwd cache
    result.1 :: runCalls env limit cwd calls result.2

/-! ### One component -/

section Step

variable {env : Env} {limit : ℤ} {links : ℕ} {mode : CwdMode} {isDir : Bool} {c : Bytes} {path : List Bytes}
  {cache : Cache}

/-- What `tsrm_realpath_r` does with the path after a link. -/
def cachedJump (env : Env) (limit : ℤ) : ℕ → CwdMode → Bool → List Bytes → Cache → Found
  | 0 => fun _ _ _ cache => (none, cache)
  | links + 1 => cachedRealpathR env limit links

theorem cachedRealpathR_eq (links : ℕ) :
    cachedRealpathR env limit links = cachedWith env limit (cachedJump env limit links) := by
  cases links <;> rfl

@[simp] theorem cachedRealpathR_nil :
    cachedRealpathR env limit links mode isDir [] cache = (some ([], true), cache) := by
  rw [cachedRealpathR_eq, cachedWith]

theorem cachedRealpathR_here (hc : isHere c) :
    cachedRealpathR env limit links mode isDir (c :: path) cache =
      cachedRealpathR env limit links mode true path cache := by
  rw [cachedRealpathR_eq, cachedWith, if_pos hc]

section

variable (hh : ¬ isHere c)

include hh

theorem cachedRealpathR_up (hc : isUp c) :
    cachedRealpathR env limit links mode isDir (c :: path) cache =
      ((cachedRealpathR env limit links mode true path cache).1.map fun p => (p.1.tail, true),
        (cachedRealpathR env limit links mode true path cache).2) := by
  rw [cachedRealpathR_eq, cachedWith, if_neg hh, if_pos hc]

variable (hu : ¬ isUp c)

include hu

theorem cachedRealpathR_hit {bucket : Bucket} (hl : lookup limit (c :: path) cache = some bucket) :
    cachedRealpathR env limit links mode isDir (c :: path) cache =
      if isDir ∧ !bucket.isDir then (none, cache) else (some (bucket.realpath, bucket.isDir), cache) := by
  rw [cachedRealpathR_eq, cachedWith, if_neg hh, if_neg hu]
  simp only [hl]

variable (hl : lookup limit (c :: path) cache = none)

include hl

theorem cachedRealpathR_missing (hx : env.lstat (c :: path) = none) :
    cachedRealpathR env limit links mode isDir (c :: path) cache =
      if mode = .realpath then (none, cache)
      else behind c false (cachedRealpathR env limit links .filepath true path cache) := by
  rw [cachedRealpathR_eq, cachedWith, if_neg hh, if_neg hu]
  simp only [hl, hx]

theorem cachedRealpathR_link {target : Bytes} (hx : env.lstat (c :: path) = some (.link target)) :
    cachedRealpathR env limit links mode isDir (c :: path) cache =
      if isAbsolute target ∨ rawLength path + target.length < maxPathLen - 1 then
        save limit (c :: path) (cachedJump env limit links mode isDir
          ((components target).reverse ++ if isAbsolute target then [] else path) cache)
      else (none, cache) := by
  rw [cachedRealpathR_eq, cachedWith, if_neg hh, if_neg hu]
  simp only [hl, hx]
  by_cases habs : isAbsolute target
  · simp [habs]
  · by_cases hlen : maxPathLen - 1 ≤ rawLength path + target.length
    · simp [habs, hlen, hlen.not_gt]
    · simp [habs, hlen, Nat.lt_of_not_le hlen]

theorem cachedRealpathR_node {x : Node} (hx : env.lstat (c :: path) = some x) (hlink : x = .file ∨ x = .dir) :
    cachedRealpathR env limit links mode isDir (c :: path) cache =
      if isDir ∧ x ≠ .dir then (none, cache)
      else save limit (c :: path)
        (behind c (x = .dir) (cachedRealpathR env limit links .filepath true path cache)) := by
  rw [cachedRealpathR_eq, cachedWith, if_neg hh, if_neg hu]
  rcases hlink with rfl | rfl <;> simp only [hl, hx]

end

@[simp] theorem save_fst (found : Found) : (save limit path found).1 = found.1 := by
  obtain ⟨_ | ⟨p, d⟩, cache⟩ := found <;> rfl

theorem behind_fst_eq_some {directory : Bool} {found : Found} {p : Place} {d : Bool} :
    (behind c directory found).1 = some (p, d) ↔
      d = directory ∧ ∃ parent d', found.1 = some (parent, d') ∧ appendName c parent = some p := by
  obtain ⟨_ | ⟨q, d'⟩, cache⟩ := found
  · simp [behind]
  · cases happend : appendName c q <;> simp [behind, happend, and_comm, eq_comm]

end Step

/-! ### The engine with a cache and without -/

/-- A bucket says what `CWD_REALPATH` finds out about its path. -/
structure Bucket.Ok (env : Env) (bucket : Bucket) : Prop where
  /-- The place, through however many links. -/
  leads : ∃ k, Leads env k .realpath false bucket.path bucket.realpath
  isDir : bucket.isDir ↔ env.tree.node bucket.realpath = some .dir

/-- All buckets do. -/
def Cache.Ok (env : Env) (cache : Cache) : Prop := ∀ bucket ∈ cache.buckets, bucket.Ok env

/-- What `tsrm_realpath_r` returns with a cache is what it finds without one. -/
structure Agrees (env : Env) (links : ℕ) (mode : CwdMode) (isDir : Bool) (path : List Bytes) (found : Found)
    : Prop where
  cache : found.2.Ok env
  /-- It finds nothing else, though it may get there through more links. -/
  sound : ∀ p d, found.1 = some (p, d) → ∃ k, Leads env k mode isDir path p
  dir : ∀ p d k, found.1 = some (p, d) → Leads env k .realpath false path p → (d ↔ env.tree.node p = some .dir)
  /-- It finds no less. -/
  complete : ∀ p, Leads env links mode isDir path p → ∃ d, found.1 = some (p, d)

section Agree

variable {env : Env} {limit : ℤ} {links : ℕ} {mode : CwdMode} {isDir : Bool} {c : Bytes} {path : List Bytes}
  {cache : Cache} {found : Found} {bucket : Bucket}

theorem Cache.Ok.empty : Cache.empty.Ok env := by
  intro bucket hb
  cases hb

section

variable (hcache : cache.Ok env)

include hcache

theorem Cache.Ok.add (hb : bucket.Ok env) : (realpathCacheAdd limit bucket cache).Ok env := by
  unfold realpathCacheAdd
  split_ifs
  · exact List.forall_mem_cons.mpr ⟨hb, hcache⟩
  · exact hcache

theorem Cache.Ok.lookup (h : lookup limit path cache = some bucket) : bucket.path = path ∧ bucket.Ok env := by
  unfold Fs.lookup at h
  split_ifs at h
  exact ⟨by simpa using List.find?_some h, hcache bucket (List.mem_of_find?_eq_some h)⟩

theorem Agrees.fail (hfail : ∀ p, ¬ Leads env links mode isDir path p) :
    Agrees env links mode isDir path (none, cache) :=
  ⟨hcache, nofun, nofun, fun p h => absurd h (hfail p)⟩

theorem Agrees.root : Agrees env links mode isDir [] (some ([], true), cache) := by
  refine ⟨hcache, ?_, ?_, ?_⟩
  · rintro p d ⟨⟩
    exact ⟨0, .nil⟩
  · rintro p d k ⟨⟩ -
    simp [env.tree.root]
  · rintro p ⟨⟩
    exact ⟨true, rfl⟩

end

namespace Agrees

theorem here (hc : isHere c) (h : Agrees env links mode true path found) :
    Agrees env links mode isDir (c :: path) found := by
  refine ⟨h.cache, ?_, ?_, ?_⟩
  · intro p d hp
    obtain ⟨k, hk⟩ := h.sound p d hp
    exact ⟨k, .here hc hk⟩
  · intro p d k hp hk
    rw [← tsrmRealpathR_iff, tsrmRealpathR_here hc, tsrmRealpathR_iff] at hk
    exact h.dir p d k hp hk.any
  · intro p hp
    rw [← tsrmRealpathR_iff, tsrmRealpathR_here hc, tsrmRealpathR_iff] at hp
    exact h.complete p hp

theorem up (hh : ¬ isHere c) (hc : isUp c) (h : Agrees env links mode true path found) :
    Agrees env links mode isDir (c :: path) (found.1.map fun p => (p.1.tail, true), found.2) := by
  refine ⟨h.cache, ?_, ?_, ?_⟩
  · intro p d hp
    obtain ⟨q, hq, heq⟩ := map_eq_some_iff.mp hp
    cases heq
    obtain ⟨k, hk⟩ := h.sound q.1 q.2 hq
    exact ⟨k, .up hh hc hk⟩
  · intro p d k hp hk
    obtain ⟨q, hq, heq⟩ := map_eq_some_iff.mp hp
    cases heq
    rw [← tsrmRealpathR_iff, tsrmRealpathR_up hh hc] at hk
    obtain ⟨r, hr, hrq⟩ := map_eq_some_iff.mp hk
    rw [← hrq]
    simp [FileTree.node_tail ((tsrmRealpathR_realpath hr).2 rfl)]
  · intro p hp
    rw [← tsrmRealpathR_iff, tsrmRealpathR_up hh hc] at hp
    obtain ⟨q, hq, rfl⟩ := map_eq_some_iff.mp hp
    obtain ⟨d, hd⟩ := h.complete q (tsrmRealpathR_iff.mp hq)
    exact ⟨true, by rw [hd, map_some]⟩

/-- What a bucket says. -/
theorem hit (hcache : cache.Ok env) (hb : bucket.Ok env) (hpath : bucket.path = path) :
    Agrees env links mode isDir path
      (if isDir ∧ !bucket.isDir then (none, cache) else (some (bucket.realpath, bucket.isDir), cache)) := by
  obtain ⟨⟨k, hk⟩, hdir⟩ := hb
  rw [hpath] at hk
  split_ifs with hno
  · -- a directory is asked for, and the bucket is not of one
    obtain ⟨rfl, hno⟩ := hno
    refine .fail hcache fun p hp => ?_
    have hd := hdir.mpr (hk.dir_of_realpath rfl hp)
    simp [hd] at hno
  · refine ⟨hcache, ?_, ?_, ?_⟩
    · rintro p d ⟨⟩
      refine ⟨k, ?_⟩
      have hk' : Leads env k .realpath isDir path bucket.realpath := by
        cases isDir with
        | false => exact hk
        | true => exact hk.dir rfl (hdir.mp (by simpa using hno))
      cases mode with
      | filepath => exact hk'.filepath
      | realpath => exact hk'
    · rintro p d k' ⟨⟩ -
      exact hdir
    · intro p hp
      exact ⟨bucket.isDir, by rw [hk.unique hp]⟩

/-- A name behind its resolved parent. -/
theorem behind {directory : Bool} (hh : ¬ isHere c) (hu : ¬ isUp c)
    (hlink : ∀ t, env.lstat (c :: path) ≠ some (.link t))
    (hthere : mode = .realpath → env.lstat (c :: path) ≠ none)
    (hfile : isDir → env.lstat (c :: path) ≠ some .file)
    (hdirectory : ∀ x, env.lstat (c :: path) = some x → (directory ↔ x = .dir))
    (h : Agrees env links .filepath true path found) :
    Agrees env links mode isDir (c :: path) (behind c directory found) := by
  refine ⟨h.cache, ?_, ?_, ?_⟩
  · intro p d hp
    obtain ⟨-, parent, d', hparent, hname⟩ := behind_fst_eq_some.mp hp
    obtain ⟨k, hk⟩ := h.sound parent d' hparent
    exact ⟨k, .name hh hu hk hname hlink hthere hfile⟩
  · intro p d k hp hk
    obtain ⟨rfl, -⟩ := behind_fst_eq_some.mp hp
    obtain ⟨parent, hparent, hname, hsome, -⟩ := hk.of_name hlink hh hu
    obtain ⟨x, hx⟩ := ne_none_iff_exists'.mp (hsome rfl)
    rw [hdirectory x hx, hparent.node_append hname hh hu hx, some_inj]
  · intro p hp
    obtain ⟨parent, hparent, hname, -⟩ := hp.of_name hlink hh hu
    obtain ⟨d, hd⟩ := h.complete parent hparent
    exact ⟨directory, behind_fst_eq_some.mpr ⟨rfl, parent, d, hd, hname⟩⟩

/-- What is found after a link is followed. -/
theorem link {target : Bytes} (hx : env.lstat (c :: path) = some (.link target))
    (hlen : isAbsolute target ∨ rawLength path + target.length < maxPathLen - 1)
    (h : Agrees env links mode isDir ((components target).reverse ++ if isAbsolute target then [] else path) found) :
    Agrees env (links + 1) mode isDir (c :: path) found := by
  obtain ⟨hh, hu⟩ := Env.name_of_lstat_link hx
  refine ⟨h.cache, ?_, ?_, ?_⟩
  · intro p d hp
    obtain ⟨k, hk⟩ := h.sound p d hp
    exact ⟨k + 1, .link hh hu hx hlen hk⟩
  · intro p d k hp hk
    obtain ⟨k', rfl, -, hk'⟩ := hk.of_link hx hh hu
    exact h.dir p d k' hp hk'
  · intro p hp
    obtain ⟨k', hk', -, hjump⟩ := hp.of_link hx hh hu
    cases hk'
    exact h.complete p hjump

/-- What is stored, if `CWD_REALPATH` would find it as well. -/
theorem save (h : Agrees env links mode isDir path found)
    (hthere : ∀ p k, Leads env k mode isDir path p → ∃ k', Leads env k' .realpath false path p) :
    Agrees env links mode isDir path (save limit path found) := by
  refine ⟨?_, by simpa using h.sound, by simpa using h.dir, by simpa using h.complete⟩
  obtain ⟨_ | ⟨p, d⟩, cache⟩ := found
  · exact h.cache
  · unfold Fs.save
    split_ifs
    · exact h.cache
    · obtain ⟨k, hk⟩ := h.sound p d rfl
      obtain ⟨k', hk'⟩ := hthere p k hk
      exact h.cache.add ⟨⟨k', hk'⟩, h.dir p d k' rfl hk'⟩

/-- A name that is missing. -/
theorem missing (hcache : cache.Ok env) (hh : ¬ isHere c) (hu : ¬ isUp c) (hx : env.lstat (c :: path) = none)
    (h : mode ≠ .realpath → Agrees env links .filepath true path found) :
    Agrees env links mode isDir (c :: path)
      (if mode = .realpath then (none, cache) else Fs.behind c false found) := by
  split_ifs with hmode
  · subst hmode
    refine .fail hcache fun p hp => ?_
    rw [← tsrmRealpathR_iff, tsrmRealpathR_missing_realpath hh hu hx] at hp
    cases hp
  · exact (h hmode).behind hh hu (by simp [hx]) (absurd · hmode) (by simp [hx]) (by simp [hx])

/-- A name of something that is no link. -/
theorem node (hcache : cache.Ok env) (hh : ¬ isHere c) (hu : ¬ isUp c) {x : Node}
    (hx : env.lstat (c :: path) = some x) (hlink : x = .file ∨ x = .dir)
    (h : Agrees env links .filepath true path found) :
    Agrees env links mode isDir (c :: path)
      (if isDir ∧ x ≠ .dir then (none, cache) else Fs.save limit (c :: path) (Fs.behind c (x = .dir) found)) := by
  have hne (t) : env.lstat (c :: path) ≠ some (.link t) := by
    rcases hlink with rfl | rfl <;> simp [hx]
  split_ifs with hno
  · refine .fail hcache fun p hp => ?_
    obtain ⟨-, -, -, -, hdir⟩ := hp.of_name hne hh hu
    exact hdir hno.1 (by rw [hx, hlink.resolve_right hno.2])
  have hfile : isDir → env.lstat (c :: path) ≠ some .file := by
    intro hd hfile
    rw [hx] at hfile
    cases hfile
    exact hno ⟨hd, nofun⟩
  refine (h.behind hh hu hne (by simp [hx]) hfile (by simp [hx])).save fun p k hk => ?_
  obtain ⟨parent, hk, hname, -⟩ := hk.of_name hne hh hu
  exact ⟨k, .name hh hu hk hname hne (by simp [hx]) nofun⟩

end Agrees

/-- **With a cache the engine finds what it finds without one**, if `CWD_FILEPATH` follows no link
that leads nowhere. -/
theorem cachedRealpathR_agrees (limit : ℤ) (links : ℕ) (isDir : Bool) (hcache : cache.Ok env)
    (hpath : mode = .realpath ∨ NoDangling env path) :
    Agrees env links mode isDir path (cachedRealpathR env limit links mode isDir path cache) := by
  induction links using Nat.strong_induction_on generalizing mode isDir path cache with
  | _ links ihlinks =>
    induction path generalizing mode isDir cache with
    | nil =>
      rw [cachedRealpathR_nil]
      exact .root hcache
    | cons c path ih =>
      have hcut : mode = .realpath ∨ NoDangling env path := hpath.imp_right fun h => h.of_arises (.cut .self)
      by_cases hh : isHere c
      · rw [cachedRealpathR_here hh]
        exact (ih true hcache hcut).here hh
      by_cases hu : isUp c
      · rw [cachedRealpathR_up hh hu]
        exact (ih true hcache hcut).up hh hu
      cases hl : lookup limit (c :: path) cache with
      | some bucket =>
        obtain ⟨hpath, hb⟩ := hcache.lookup hl
        rw [cachedRealpathR_hit hh hu hl]
        exact .hit hcache hb hpath
      | none =>
        rcases hx : env.lstat (c :: path) with _ | x
        · rw [cachedRealpathR_missing hh hu hl hx]
          exact .missing hcache hh hu hx fun hmode => ih true hcache (.inr (hcut.resolve_left hmode))
        by_cases hlink : x = .file ∨ x = .dir
        · -- it is in something that is there, so no link on the way to it leads nowhere
          have hparent : NoDangling env path := .of_stat (Env.stat_of_lstat hh hu (by simp [hx]))
          rw [cachedRealpathR_node hh hu hl hx hlink]
          exact .node hcache hh hu hx hlink (ih true hcache (.inr hparent))
        · obtain ⟨target, rfl⟩ : ∃ t, x = .link t := by
            cases x <;> simp at hlink ⊢
          rw [cachedRealpathR_link hh hu hl hx]
          by_cases hlen : isAbsolute target ∨ rawLength path + target.length < maxPathLen - 1
          · rw [if_pos hlen]
            cases links with
            | zero =>
              refine .fail hcache fun p hp => ?_
              obtain ⟨k, hk, -⟩ := hp.of_link hx hh hu
              cases hk
            | succ links =>
              refine ((ihlinks links (Nat.lt_succ_self _) isDir hcache ?_).link hx hlen).save ?_
              · exact hpath.imp_right fun h => h.of_arises (.link .self hx)
              · intro p k hk
                rcases hpath with rfl | h
                · exact ⟨k, hk.any⟩
                · exact ⟨k, (hk.realpath_of_stat (h _ target .self hx)).any⟩
          · rw [if_neg hlen]
            refine .fail hcache fun p hp => ?_
            obtain ⟨-, -, hlen', -⟩ := hp.of_link hx hh hu
            exact hlen hlen'

end Agree

/-! ### A call that finds no bucket -/

section Miss

variable {env : Env} {limit : ℤ} {links : ℕ} {mode : CwdMode} {isDir : Bool} {path : List Bytes} {cache : Cache}

theorem lookup_off (path : List Bytes) (cache : Cache) : lookup 0 path cache = none := rfl

theorem lookup_empty (limit : ℤ) (path : List Bytes) : lookup limit path .empty = none := by
  unfold lookup
  split_ifs <;> rfl

theorem map_behind (c : Bytes) (directory : Bool) (found : Found) :
    (behind c directory found).1.map Prod.fst = (found.1.map Prod.fst).bind (appendName c) := by
  obtain ⟨_ | ⟨p, d⟩, cache⟩ := found
  · rfl
  · cases happend : appendName c p <;> simp [behind, happend]

/-- Buckets are only stored on the way back, so a call that finds none in the beginning finds none at all. -/
theorem cachedRealpathR_of_miss (hmiss : ∀ q, lookup limit q cache = none) :
    (cachedRealpathR env limit links mode isDir path cache).1.map Prod.fst =
      tsrmRealpathR env links mode isDir path := by
  induction links using Nat.strong_induction_on generalizing mode isDir path with
  | _ links ihlinks =>
    induction path generalizing mode isDir with
    | nil => rw [cachedRealpathR_nil, tsrmRealpathR_nil, map_some]
    | cons c path ih =>
      by_cases hh : isHere c
      · rw [cachedRealpathR_here hh, tsrmRealpathR_here hh, ih]
      by_cases hu : isUp c
      · rw [cachedRealpathR_up hh hu, tsrmRealpathR_up hh hu, ← ih, map_map, map_map]
        rfl
      rcases hx : env.lstat (c :: path) with _ | x
      · rw [cachedRealpathR_missing hh hu (hmiss _) hx]
        cases mode with
        | realpath => rw [if_pos rfl, tsrmRealpathR_missing_realpath hh hu hx, map_none]
        | filepath => rw [if_neg nofun, tsrmRealpathR_missing hh hu hx, map_behind, ih]
      by_cases hlink : x = .file ∨ x = .dir
      · rw [cachedRealpathR_node hh hu (hmiss _) hx hlink, tsrmRealpathR_node hh hu hx hlink]
        split_ifs
        · rfl
        · rw [save_fst, map_behind, ih]
      · obtain ⟨target, rfl⟩ : ∃ t, x = .link t := by
          cases x <;> simp at hlink ⊢
        have hjump (q : List Bytes) : (cachedJump env limit links mode isDir q cache).1.map Prod.fst =
            jumpR env links mode isDir q := by
          cases links with
          | zero => rfl
          | succ links => exact ihlinks links (Nat.lt_succ_self _)
        rw [cachedRealpathR_link hh hu (hmiss _) hx, tsrmRealpathR_link hh hu hx]
        by_cases habs : isAbsolute target
        · simp [habs, hjump]
        · by_cases hlen : maxPathLen - 1 ≤ rawLength path + target.length
          · simp [habs, hlen, hlen.not_gt]
          · simp [habs, hlen, Nat.lt_of_not_le hlen, hjump]

end Miss

/-! ### Runs -/

/-- What a call has to do with the files so that the cache makes no difference to it. -/
structure PathCall.Fits (env : Env) (cwd : Place) (call : PathCall) : Prop where
  /-- If the links it follows come to an end, they are no more than `LINK_MAX`. -/
  links : call.useRealpath ≠ .expand → ∀ k, Follows env k (rawComponents call.path cwd) → k ≤ linkMax
  /-- With `CWD_FILEPATH`, none of them leads nowhere. -/
  dangling : call.useRealpath = .mode .filepath → NoDangling env (rawComponents call.path cwd)

section Runs

variable {env : Env} {limit : ℤ} {cwd : Place} {call : PathCall} {cache : Cache}

/-- One call with a cache and without. -/
theorem resolve_eq (limit : ℤ) (hcall : call.Fits env cwd) (hcache : cache.Ok env) :
    (resolve env limit (rawComponents call.path cwd) cache call.useRealpath).1 =
        (resolve env 0 (rawComponents call.path cwd) .empty call.useRealpath).1 ∧
      (resolve env limit (rawComponents call.path cwd) cache call.useRealpath).2.Ok env := by
  obtain ⟨path, _ | mode⟩ := call
  · exact ⟨rfl, hcache⟩
  have hmode : mode = .realpath ∨ NoDangling env (rawComponents path cwd) := by
    cases mode with
    | realpath => exact .inl rfl
    | filepath => exact .inr (hcall.dangling rfl)
  have h := cachedRealpathR_agrees limit linkMax false hcache hmode
  refine ⟨?_, h.cache⟩
  show Option.map Prod.fst (cachedRealpathR env limit linkMax mode false (rawComponents path cwd) cache).1 =
    Option.map Prod.fst (cachedRealpathR env 0 linkMax mode false (rawComponents path cwd) .empty).1
  rw [cachedRealpathR_of_miss fun q => lookup_off q _]
  apply ext
  intro p
  rw [tsrmRealpathR_iff, map_eq_some_iff]
  constructor
  · rintro ⟨⟨p, d⟩, hp, rfl⟩
    obtain ⟨n, hn⟩ := h.sound p d hp
    obtain ⟨k, hk, hleads⟩ := hn.exists_follows
    exact hleads.mono (hcall.links nofun k hk)
  · intro hp
    obtain ⟨d, hd⟩ := h.complete p hp
    exact ⟨(p, d), hd, rfl⟩

theorem PathCall.run_eq (limit : ℤ) (hcall : call.Fits env cwd) (hcache : cache.Ok env) :
    (call.run env limit cwd cache).1 = (call.run env 0 cwd .empty).1 ∧ (call.run env limit cwd cache).2.Ok env := by
  obtain ⟨hresult, hleft⟩ := resolve_eq limit hcall hcache
  unfold PathCall.run
  split_ifs
  · exact ⟨rfl, hcache⟩
  · exact ⟨rfl, hcache⟩
  · exact ⟨congrArg (finish call.useRealpath call.path) hresult, hleft⟩

theorem runCalls_eq_of_ok {calls : List PathCall} (hcalls : ∀ call ∈ calls, call.Fits env cwd) (hcache : cache.Ok env) :
    runCalls env limit cwd calls cache = calls.map fun call => (call.run env 0 cwd .empty).1 := by
  induction calls generalizing cache with
  | nil => rfl
  | cons call calls ih =>
    obtain ⟨hcall, hcalls⟩ := List.forall_mem_cons.mp hcalls
    obtain ⟨hresult, hleft⟩ := PathCall.run_eq limit hcall hcache
    rw [runCalls, List.map_cons, hresult, ih hcalls hleft]

/-- **The cache goes unnoticed**: every call of a run returns what it would return without it, if the calls
follow no more than `LINK_MAX` links, and with `CWD_FILEPATH` none that leads nowhere. -/
theorem runCalls_eq (env : Env) (limit : ℤ) (cwd : Place) {calls : List PathCall}
    (hcalls : ∀ call ∈ calls, call.Fits env cwd) :
    runCalls env limit cwd calls .empty = calls.map fun call => (call.run env 0 cwd .empty).1 :=
  runCalls_eq_of_ok hcalls .empty

end Runs

/-- A tree with a link `l` to `m`, which is a file or missing. -/
def linkTree (there : Bool) : FileTree where
  node p :=
    if p = [] then some .dir else if p = [[108]] then some (.link [109])
    else if p = [[109]] ∧ there then some .file else none
  root := rfl
  parent := by
    intro c d x hx
    simp only [List.cons_ne_nil, if_false, List.cons.injEq] at hx
    split_ifs at hx with h1 h2
    · simp [h1.2]
    · simp [h2.1.2]
  name := by
    intro c d x hx
    simp only [List.cons_ne_nil, if_false, List.cons.injEq] at hx
    split_ifs at hx with h1 h2
    · rw [h1.1]
      decide
    · rw [h2.1.1]
      decide

/-- The link is expanded, and then resolved. -/
def linkCalls : List PathCall := [⟨[47, 108], .mode .filepath⟩, ⟨[47, 108], .mode .realpath⟩]

theorem arises_linkTree {q : List Bytes} (h : Arises ⟨linkTree true, 40⟩ [[108]] q) :
    q = [[108]] ∨ q = [[109]] ∨ q = [] := by
  induction h with
  | self => exact .inl rfl
  | cut _ ih =>
    right
    right
    rcases ih with ih | ih | ih <;> cases ih <;> rfl
  | @link c t q _ hx ih =>
    rcases ih with ih | ih | ih
    · cases ih
      cases (show some (Node.link [109]) = some (.link t) from hx)
      exact .inr (.inl rfl)
    · cases ih
      cases (show some Node.file = some (.link t) from hx)
    · cases ih

theorem follows_linkTree {k : ℕ} (h : Follows ⟨linkTree true, 40⟩ k [[108]]) : k ≤ linkMax := by
  cases h with
  | pass hno _ =>
    rcases hno with hh | hu | hlink
    · cases hh
    · cases hu
    · exact absurd rfl (hlink [109])
  | @link n _ t _ _ _ hx h =>
    cases (show some (Node.link [109]) = some (.link t) from hx)
    -- the target is no link
    cases (show Follows ⟨linkTree true, 40⟩ n [[109]] from h) with
    | pass _ h =>
      cases h
      decide
    | @link _ _ t _ _ _ hx _ => cases (show some Node.file = some (.link t) from hx)

/-- The cache is not noticed where the link leads to a file. -/
theorem runCalls_link : (∀ call ∈ linkCalls, call.Fits ⟨linkTree true, 40⟩ []) ∧
    runCalls ⟨linkTree true, 40⟩ 16384 [] linkCalls .empty =
      linkCalls.map fun call => (call.run ⟨linkTree true, 40⟩ 0 [] .empty).1 := by
  have hdangling : NoDangling ⟨linkTree true, 40⟩ [[108]] := by
    intro q t hq _
    rcases arises_linkTree hq with rfl | rfl | rfl <;> decide
  have hcalls : ∀ call ∈ linkCalls, call.Fits ⟨linkTree true, 40⟩ [] := by
    intro call hcall
    have hpath : rawComponents call.path [] = [[108]] := by
      rcases List.mem_pair.mp hcall with rfl | rfl <;> rfl
    constructor
    · intro _ k hk
      rw [hpath] at hk
      exact follows_linkTree hk
    · intro _
      rw [hpath]
      exact hdangling
  exact ⟨hcalls, runCalls_eq _ _ _ hcalls⟩

/-- A link that leads nowhere: once it was expanded, it is resolved to a file that is missing. -/
theorem runCalls_dangling :
    runCalls ⟨linkTree false, 40⟩ 16384 [] linkCalls .empty = [.ok [47, 109], .ok [47, 109]] ∧
      linkCalls.map (fun call => (call.run ⟨linkTree false, 40⟩ 0 [] .empty).1) = [.ok [47, 109], .error 1] := by
  decide

end PhpSandbox.Fs
