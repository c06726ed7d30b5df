import PhpSandbox.Fs.LinkFree
import PhpSandbox.Fs.Tightening
import PhpSandbox.Sandbox.Basedir

/-!
# One application and the directories of another

The list that `set_basedir` builds for an application, against the paths in the
directories of another one.

## The model

A configuration has the places of the shared directories and of the per-user
directories, from which the two settings of `set_basedir` are made. What a path
means is its normal form, in a tree without links.

## What is proved

`Config.entries_text`: the list has the shared directories and the application's
own ones. `isolated`: it accepts no path of another application, if no per-user
directory is in that of one of the two, and the shared ones are apart from those of
the other. `run_within`: in every run of safe calls, the application stays in its
own places.
-/

namespace PhpSandbox.Sandbox

open Lib Fs List

/-- A directory of a list separated by colons, absolute and normalised. -/
structure ListedDir where
  /-- Where it is. -/
  place : Place
  /-- It is written with names, -/
  names : ∀ c ∈ place, isName c
  /-- and without colons. -/
  noColon : ∀ c ∈ place, 58 ∉ c

/-- The name of an application. -/
structure AppName where
  /-- The name. -/
  name : Bytes
  /-- It is the name of a directory, -/
  valid : isName name
  /-- without a colon. -/
  noColon : 58 ∉ name

/-- The directories of a configuration. -/
structure Config where
  /-- `sandbox.chroot_basedir`, which is put into the list as it is. -/
  chroot : List ListedDir
  /-- `sandbox.chroot_basedir_peruser`. -/
  peruser : List ListedDir
  /-- The root is not a per-user directory. -/
  nonroot : ∀ d ∈ peruser, d.place ≠ []

/-- The directory of an application in a per-user directory. -/
def AppName.dir (a : AppName) (d : ListedDir) : Place := a.name :: d.place

/-- The settings of this configuration, for an application. -/
def Config.globals (cfg : Config) (a : AppName) : BasedirGlobals where
  chrootBasedir := [58].intercalate (cfg.chroot.map (pathText ·.place))
  chrootBasedirPeruser := [58].intercalate (cfg.peruser.map (pathText ·.place))
  appname := a.name

/-- The places that an application shall be confined to. -/
def Config.places (cfg : Config) (a : AppName) : List Place :=
  cfg.chroot.map (·.place) ++ cfg.peruser.map a.dir

/-! ### The list -/

theorem intercalate_colon (p : Bytes) (pieces : List Bytes) :
    [58].intercalate (p :: pieces) ++ [58] = terminated (p :: pieces) := by
  induction pieces generalizing p with
  | nil => simp
  | cons p' pieces ih =>
    rw [intercalate_cons_cons, terminated_cons, ← ih]
    simp

theorem isListOf_intercalate (pieces : List Bytes) : IsListOf ([58].intercalate pieces) pieces := by
  cases pieces with
  | nil => exact .inl rfl
  | cons p pieces => exact .inr (intercalate_colon p pieces)

theorem pathText_noColon {p : Place} (hp : ∀ c ∈ p, 58 ∉ c) : 58 ∉ pathText p := by
  intro h
  unfold pathText at h
  split_ifs at h
  · simp at h
  · obtain ⟨c, hc, h⟩ := mem_flatMap.mp h
    exact hp c (mem_reverse.mp hc) (by simpa using h)

namespace Config

variable (cfg : Config) (a b : AppName)

/-- The application's own directories, as `set_basedir` writes them. -/
theorem userDirs_globals :
    userDirs a.name (cfg.globals a).chrootBasedirPeruser = cfg.peruser.map fun d => pathText (a.dir d) := by
  have hpieces : ∀ p ∈ cfg.peruser.map (pathText ·.place), 58 ∉ p ∧ p ≠ [] := by
    intro p hp
    obtain ⟨d, -, rfl⟩ := mem_map.mp hp
    exact ⟨pathText_noColon d.noColon, pathText_ne_nil _⟩
  rw [userDirs, globals, entries_of_terminated hpieces (isListOf_intercalate _), map_map]
  refine map_congr_left fun d hd => ?_
  have hne := cfg.nonroot d hd
  rw [AppName.dir, pathText_cons, ← pathText_of_ne_root hne]
  rfl

/-- The shared directories, each with a colon behind it. -/
theorem chrootBasedir_globals :
    (if (cfg.globals a).chrootBasedir = [] then [] else (cfg.globals a).chrootBasedir ++ [58]) =
      terminated (cfg.chroot.map (pathText ·.place)) := by
  unfold globals
  cases cfg.chroot with
  | nil => simp
  | cons c cs =>
    have hcolon := intercalate_colon (pathText c.place) (cs.map (pathText ·.place))
    rw [map_cons, ← hcolon]
    refine if_neg fun (hempty : [58].intercalate _ = []) => ?_
    obtain ⟨b, t, ht⟩ := exists_cons_of_ne_nil (pathText_ne_nil c.place)
    rw [hempty, ht, terminated_cons] at hcolon
    simp at hcolon

theorem isListOf_globals : IsListOf (cfg.globals a).text ((cfg.places a).map pathText) := by
  have huser := isListOf_userText a.name (cfg.globals a).chrootBasedirPeruser
  rw [userDirs_globals] at huser
  rw [BasedirGlobals.text, chrootBasedir_globals, places, map_append, map_map, map_map]
  rw [IsListOf, append_assoc, terminated_append]
  exact huser.imp (congrArg _) (congrArg _)

variable {cfg a b}

theorem mem_places {r : Place} :
    r ∈ cfg.places a ↔ (∃ c ∈ cfg.chroot, r = c.place) ∨ ∃ d ∈ cfg.peruser, r = a.dir d := by
  simp [places, eq_comm]

/-- They are written with names, without colons. -/
theorem names_of_mem_places {r : Place} (hr : r ∈ cfg.places a) : ∀ c ∈ r, isName c ∧ 58 ∉ c := by
  rcases mem_places.mp hr with ⟨d, -, rfl⟩ | ⟨d, -, rfl⟩
  · exact fun c hc => ⟨d.names c hc, d.noColon c hc⟩
  · exact forall_mem_cons.mpr ⟨⟨a.valid, a.noColon⟩, fun c hc => ⟨d.names c hc, d.noColon c hc⟩⟩

/-- **The entries of the list that is built.** -/
theorem entries_text : entries 58 (cfg.globals a).text = (cfg.places a).map pathText := by
  refine entries_of_terminated (fun p hp => ?_) (isListOf_globals cfg a)
  obtain ⟨r, hr, rfl⟩ := mem_map.mp hp
  exact ⟨pathText_noColon fun c hc => (names_of_mem_places hr c hc).2, pathText_ne_nil r⟩

/-- **What is accepted lies in one of the application's places**, if its first name is there. -/
theorem exists_place_of_accepted {env : Env} {cwd : Place} {path : Bytes} (hfree : env.LinkFree)
    (hcwd : env.tree.node cwd = some .dir) (hne : cfg.places a ≠ [])
    (hfirst : FirstExists env (normalForm (rawComponents path cwd)))
    (h : phpCheckOpenBasedirEx env cwd (cfg.globals a).text path) :
    ∃ r ∈ cfg.places a, r <:+ normalForm (rawComponents path cwd) := by
  have htext : (cfg.globals a).text ≠ [] := by
    intro htext
    have hentries : entries 58 (cfg.globals a).text = _ := entries_text
    rw [htext, entries_nil] at hentries
    exact hne (map_eq_nil_iff.mp hentries.symm)
  obtain ⟨-, n, hn, e, he, p, hp, hacc⟩ := (phpCheckOpenBasedirEx_iff hcwd htext).mp h
  rw [entries_text] at he
  obtain ⟨r, hr, rfl⟩ := mem_map.mp he
  obtain rfl := basePlace_normalForm hfree hcwd (fun c hc => (names_of_mem_places hr c hc).1) hp
  exact ⟨p, hr, hacc.1.trans (nearest_isSuffix hfree hcwd hfirst hn)⟩

/-- Two applications' directories are apart, if no per-user directory is in one of them. -/
theorem dirs_apart (hab : a.name ≠ b.name) {d d' : ListedDir} (hd : ¬ a.dir d' <:+ d.place)
    (hd' : ¬ b.dir d <:+ d'.place) : ¬ a.dir d' <:+ b.dir d ∧ ¬ b.dir d <:+ a.dir d' := by
  constructor
  · intro h
    rcases suffix_cons_iff.mp h with h | h
    · exact hab (List.cons.inj h).1
    · exact hd h
  · intro h
    rcases suffix_cons_iff.mp h with h | h
    · exact hab (List.cons.inj h).1.symm
    · exact hd' h

end Config

/-- **Applications are isolated**: the list of one accepts no path in a directory of another, if
the first name of that directory is there, no per-user directory is in a directory of the two, and
no shared directory is above or in one of the other's. -/
theorem isolated (env : Env) (hfree : env.LinkFree) (cwd : env.Cwd) (cfg : Config) (a b : AppName)
    (hab : a.name ≠ b.name)
    (hchroot : ∀ c ∈ cfg.chroot, ∀ d ∈ cfg.peruser, ¬ c.place <:+ b.dir d ∧ ¬ b.dir d <:+ c.place)
    (hnested : ∀ d ∈ cfg.peruser, ∀ d' ∈ cfg.peruser, ¬ a.dir d' <:+ d.place ∧ ¬ b.dir d' <:+ d.place)
    (openBasedir : Bytes) (hbuilt : buildBasedir (cfg.globals a) = .ok openBasedir)
    (d : ListedDir) (hd : d ∈ cfg.peruser) (hfirst : FirstExists env d.place)
    (path : Bytes) (hpath : b.dir d <:+ normalForm (rawComponents path cwd.place)) :
    ¬ phpCheckOpenBasedirEx env cwd.place openBasedir path := by
  intro h
  obtain ⟨-, rfl⟩ := buildBasedir_eq_ok_iff.mp hbuilt
  have hne : cfg.places a ≠ [] := ne_nil_of_mem (Config.mem_places.mpr (.inr ⟨d, hd, rfl⟩))
  obtain ⟨c, hc, hx⟩ := hfirst
  have hfirst' : FirstExists env (normalForm (rawComponents path cwd.place)) :=
    ⟨c, hc.trans ((suffix_cons _ _).trans hpath), hx⟩
  obtain ⟨r, hr, hsuf⟩ := Config.exists_place_of_accepted hfree cwd.isDir hne hfirst' h
  -- of two ancestors of one place, one is above the other
  have hcomparable := suffix_or_suffix_of_suffix hsuf hpath
  rcases Config.mem_places.mp hr with ⟨c, hc, rfl⟩ | ⟨d', hd', rfl⟩
  · exact hcomparable.elim (hchroot c hc d hd).1 (hchroot c hc d hd).2
  · have hapart := Config.dirs_apart hab (hnested d hd d' hd').1 (hnested d' hd' d hd).2
    exact hcomparable.elim hapart.1 hapart.2

/-- The directories `/tmp`, `/opt/wordpress` and `/home/blog`. -/
def homeEnv : Env :=
  ⟨.ofDirs [[ascii "tmp"], [ascii "wordpress", ascii "opt"], [ascii "blog", ascii "home"]] (by decide +kernel), 40⟩

/-- The per-user directory `/home`. -/
def home : ListedDir := ⟨[ascii "home"], by decide +kernel, by decide +kernel⟩

/-- The shared directories `/tmp` and `/opt/wordpress`, and the per-user directory `/home`. -/
def homeConfig : Config where
  chroot := [⟨[ascii "tmp"], by decide +kernel, by decide +kernel⟩,
    ⟨[ascii "wordpress", ascii "opt"], by decide +kernel, by decide +kernel⟩]
  peruser := [home]
  nonroot := by decide +kernel

/-- The application `blog`. -/
def blog : AppName := ⟨ascii "blog", by decide +kernel, by decide +kernel⟩

theorem linkFree_homeEnv : homeEnv.LinkFree := FileTree.ofDirs_ne_link _ (by decide +kernel)

/-- With `/home` and the shared `/tmp` and `/opt/wordpress`, the list of `blog` does not accept `/home/shop/x`. -/
theorem isolated_home : buildBasedir (homeConfig.globals blog) = .ok (ascii "/tmp:/opt/wordpress:/home/blog") ∧
    ¬ phpCheckOpenBasedirEx homeEnv [] (ascii "/tmp:/opt/wordpress:/home/blog") (ascii "/home/shop/x") :=
  ⟨by decide +kernel, isolated homeEnv linkFree_homeEnv ⟨[], by decide +kernel, by decide +kernel⟩ homeConfig blog
    ⟨ascii "shop", by decide +kernel, by decide +kernel⟩ (by decide +kernel) (by decide +kernel) (by decide +kernel)
    (ascii "/tmp:/opt/wordpress:/home/blog") (by decide +kernel) home (mem_singleton.mpr rfl)
    ⟨ascii "home", suffix_rfl, by decide +kernel⟩ (ascii "/home/shop/x") (by decide +kernel)⟩

/-- With the per-user directories `/u` and `/u/B`, the directory `/u/B/A` of `A` is in the directory
`/u/B` of `B`. -/
theorem not_isolated_nested :
    ∃ (env : Env) (cwd : env.Cwd) (cfg : Config) (a b : AppName) (openBasedir : Bytes) (d : ListedDir) (path : Bytes),
      env.LinkFree ∧ a.name ≠ b.name ∧ (∀ c ∈ cfg.chroot, ∀ d ∈ cfg.peruser, ¬ c.place <:+ b.dir d) ∧
        buildBasedir (cfg.globals a) = .ok openBasedir ∧ d ∈ cfg.peruser ∧
        b.dir d <:+ normalForm (rawComponents path cwd.place) ∧ phpCheckOpenBasedirEx env cwd.place openBasedir path :=
  let env : Env := ⟨.ofDirs [[ascii "A", ascii "B", ascii "u"]] (by decide +kernel), 40⟩
  let u : ListedDir := ⟨[ascii "u"], by decide +kernel, by decide +kernel⟩
  let ub : ListedDir := ⟨[ascii "B", ascii "u"], by decide +kernel, by decide +kernel⟩
  ⟨env, ⟨[], by decide +kernel, by decide +kernel⟩, ⟨[], [u, ub], by decide +kernel⟩,
    ⟨ascii "A", by decide +kernel, by decide +kernel⟩, ⟨ascii "B", by decide +kernel, by decide +kernel⟩,
    ascii "/u/A:/u/B/A", u, ascii "/u/B/A/x", FileTree.ofDirs_ne_link _ (by decide +kernel), by decide +kernel, by simp,
    by decide +kernel, mem_cons_self, by decide +kernel, by decide +kernel⟩

/-! ### Runs -/

open Process

/-- **An application stays in its places.** From the list that `set_basedir` has built on, in every run of safe calls of
`chdir` and `ini_set`, an absolute path that is accepted is in one of them, if its first name is there. -/
theorem run_within {env : Env} (hfree : env.LinkFree) (cwd : env.Cwd) {cfg : Config} {a : AppName}
    (hne : cfg.places a ≠ []) {openBasedir path : Bytes} (hbuilt : buildBasedir (cfg.globals a) = .ok openBasedir)
    (calls : List Call) (hsafe : Along (call env) (Safe env path) ⟨cwd.place, openBasedir⟩ calls)
    (habs : isAbsolute path) (hfirst : FirstExists env (normalForm (rawComponents path cwd.place)))
    (h : (run (call env) ⟨cwd.place, openBasedir⟩ calls).accepts env path) :
    ∃ r ∈ cfg.places a, r <:+ normalForm (rawComponents path cwd.place) := by
  obtain ⟨-, rfl⟩ := buildBasedir_eq_ok_iff.mp hbuilt
  have htext : (cfg.globals a).text ≠ [] := fun htext => hne (by simpa [htext] using @Config.entries_text cfg a)
  have htighter : Tighter env path ⟨cwd.place, (cfg.globals a).text⟩ _ :=
    run_rel (fun _ c hs _ => call_confined hs c) (fun _ _ hs hok => call_tighter hs habs hok)
      ⟨cwd.isDir, cwd.fits, htext⟩ hsafe
  exact Config.exists_place_of_accepted hfree cwd.isDir hne hfirst (htighter h)

/-- `blog` goes from `/tmp` to its directory, leaves out `/opt/wordpress`, and goes back to `/tmp`. -/
def homeCalls : List Call :=
  [.chdir (ascii "/home/blog"), .iniSet (ascii ".:/tmp"), .iniSet (ascii "/home/blog:/tmp"), .chdir (ascii "/tmp")]

/-- At the end the list is `/home/blog:/tmp`, and `/home/blog/x` is accepted, which is in `/home/blog`. -/
theorem run_within_home :
    let s := run (call homeEnv) ⟨[ascii "tmp"], ascii "/tmp:/opt/wordpress:/home/blog"⟩ homeCalls
    s.cwd = [ascii "tmp"] ∧ s.openBasedir = ascii "/home/blog:/tmp" ∧ s.accepts homeEnv (ascii "/home/blog/x") ∧
      ¬ s.accepts homeEnv (ascii "/opt/wordpress/x") ∧
      ∃ r ∈ homeConfig.places blog, r <:+ [ascii "x", ascii "blog", ascii "home"] :=
  have haccepts : (run (call homeEnv) ⟨[ascii "tmp"], ascii "/tmp:/opt/wordpress:/home/blog"⟩ homeCalls).accepts homeEnv
      (ascii "/home/blog/x") := by decide +kernel
  ⟨by decide +kernel, by decide +kernel, haccepts, by decide +kernel,
    run_within linkFree_homeEnv ⟨[ascii "tmp"], by decide +kernel, by decide +kernel⟩ (by decide +kernel)
      (show buildBasedir (homeConfig.globals blog) = _ by decide +kernel) homeCalls
      ⟨⟨by decide +kernel, by decide +kernel, by decide +kernel⟩, by unfold Safe NoBareRoot; decide +kernel,
        by unfold Safe NoBareRoot; decide +kernel, ⟨by decide +kernel, by decide +kernel, by decide +kernel⟩, trivial⟩
      (by decide) ⟨ascii "home", by decide +kernel, by decide +kernel⟩ haccepts⟩

end PhpSandbox.Sandbox
