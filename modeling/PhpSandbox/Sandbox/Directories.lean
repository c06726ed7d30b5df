import PhpSandbox.Lib.FileTree
import PhpSandbox.Sandbox.Query
import PhpSandbox.Streams.PlainWrapper

/-!
# Which files are in a directory

`is_in_trusted_code_dir` and `is_in_upload_dir` of `ext/sandbox/sandbox.c` compare the
name of a file with configured directories byte by byte. What they should say is a
matter of directories: the file is below one of them.

## The model

The two functions are those of `Streams.PlainWrapper`; `php_app_root_path` writes into
a buffer of `QUERY_MAXLEN` bytes, which `uploadDirCheck` adds. The name of a file is
absolute and normalised, so it is the text of a place.

## What is proved

* `isInTrustedCodeDir_iff`: the answer is right unless an entry that merely begins the
  file's name stands before the directories that the file is in, and depends on the
  order of the entries just when there is such an entry and such a directory.
* `uploadDirCheck_iff`: the answer is right for all files just when the settings are
  written without empty components, a slash at the end of the upload directory apart,
  or name a directory that no file can be in.
-/

namespace PhpSandbox.Sandbox

open Lib Streams List

/-- A directory, without the slash at its end. -/
def withoutSlash (dir : Bytes) : Bytes := if dir.getLast? = some 47 then dir.dropLast else dir

/-! ### Trusted code -/

/-- The file is below the directory of an entry. -/
def Holds (e file : Bytes) : Prop := e ≠ [] ∧ withoutSlash e ++ [47] <+: file

/-- The file's name begins with an entry, but the file is not below it. -/
def MerelyBegins (e file : Bytes) : Prop := e ≠ [] ∧ e <+: file ∧ ¬ Holds e file

section Trusted

variable {list file e : Bytes} {es : List Bytes}

theorem withoutSlash_of_slash {dir : Bytes} (h : dir.getLast? = some 47) : withoutSlash dir ++ [47] = dir := by
  rw [withoutSlash, if_pos h, dropLast_append_getLast? 47 h]

theorem withoutSlash_of_ne {dir : Bytes} (h : dir.getLast? ≠ some 47) : withoutSlash dir = dir := if_neg h

/-- A directory's name begins the names of the files below it. -/
theorem Holds.isPrefix (h : Holds e file) : e <+: file := by
  by_cases hslash : e.getLast? = some 47
  · rw [← withoutSlash_of_slash hslash]
    exact h.2
  · have hfile := h.2
    rw [withoutSlash_of_ne hslash] at hfile
    exact (prefix_append e [47]).trans hfile

/-- The test that the code makes of an entry that begins the file's name. -/
theorem holds_iff (hne : e ≠ []) (hpre : e <+: file) :
    Holds e file ↔ (e.getLast? == some 47 || file.getD e.length 0 == 47) = true := by
  obtain ⟨rest, rfl⟩ := hpre
  by_cases hslash : e.getLast? = some 47
  · simp [Holds, hne, withoutSlash_of_slash hslash, hslash]
  · rw [Holds, withoutSlash_of_ne hslash, prefix_append_right_inj]
    cases rest with
    | nil => simp [hslash]
    | cons c rest => simp [hne, hslash, cons_prefix_cons, @eq_comm _ 47 c]

/-- What the loop says of these entries: the first one that begins the file's name decides. -/
def trusts (es : List Bytes) (file : Bytes) : Bool :=
  match es.find? fun base => base ≠ [] && base.isPrefixOf file with
  | none => false
  | some base => base.getLast? == some 47 || file.getD base.length 0 == 47

theorem trusts_cons_of_begins (hne : e ≠ []) (hpre : e <+: file) : trusts (e :: es) file = true ↔ Holds e file := by
  have hfind : ((e :: es).find? fun base => base ≠ [] && base.isPrefixOf file) = some e := by
    simp [hne, List.isPrefixOf_iff_prefix.mpr hpre]
  rw [holds_iff hne hpre, trusts, hfind]

theorem trusts_cons_of_not_begins (h : ¬ (e ≠ [] ∧ e <+: file)) : trusts (e :: es) file = trusts es file := by
  have hfind : ((e :: es).find? fun base => base ≠ [] && base.isPrefixOf file) =
      es.find? fun base => base ≠ [] && base.isPrefixOf file := by
    refine find?_cons_of_neg fun hbase => h ?_
    simpa [List.isPrefixOf_iff_prefix] using hbase
  rw [trusts, hfind, trusts]

/-- The empty entry that the loop does not visit makes no difference. -/
theorem isInTrustedCodeDir_eq (list file : Bytes) : isInTrustedCodeDir list file = trusts (list.splitOn 58) file := by
  have hentries : isInTrustedCodeDir list file = trusts (entries 58 list) file := rfl
  rw [hentries, entries]
  split_ifs with h
  · obtain ⟨front, hfront⟩ := getLast?_eq_some_iff.mp h
    rw [hfront, dropLast_concat, trusts, trusts, find?_append]
    simp
  · rfl

/-- An entry that merely begins the file's name stands before all entries that the file is below. -/
def Shadowed (es : List Bytes) (file : Bytes) : Prop :=
  ∃ es₁ e es₂, es = es₁ ++ e :: es₂ ∧ (∀ d ∈ es₁, ¬ Holds d file) ∧ MerelyBegins e file ∧ ∃ d ∈ es₂, Holds d file

theorem shadowed_cons_iff :
    Shadowed (e :: es) file ↔ MerelyBegins e file ∧ (∃ d ∈ es, Holds d file) ∨ ¬ Holds e file ∧ Shadowed es file := by
  constructor
  · rintro ⟨es₁, e', es₂, heq, hbefore, hbegins, hholds⟩
    cases es₁ with
    | nil =>
      cases heq
      exact .inl ⟨hbegins, hholds⟩
    | cons d es₁ =>
      cases heq
      obtain ⟨hd, hbefore⟩ := forall_mem_cons.mp hbefore
      exact .inr ⟨hd, es₁, e', es₂, rfl, hbefore, hbegins, hholds⟩
  · rintro (⟨hbegins, hholds⟩ | ⟨he, es₁, e', es₂, rfl, hbefore, hbegins, hholds⟩)
    · exact ⟨[], e, es, rfl, by simp, hbegins, hholds⟩
    · exact ⟨e :: es₁, e', es₂, rfl, forall_mem_cons.mpr ⟨he, hbefore⟩, hbegins, hholds⟩

theorem Shadowed.exists_holds (h : Shadowed es file) : (∃ e ∈ es, MerelyBegins e file) ∧ ∃ d ∈ es, Holds d file := by
  obtain ⟨es₁, e, es₂, rfl, -, hbegins, d, hd, hholds⟩ := h
  exact ⟨⟨e, by simp, hbegins⟩, d, by simp [hd], hholds⟩

/-- **The loop finds the directory** of a file unless it is shadowed. -/
theorem trusts_iff (es : List Bytes) (file : Bytes) :
    (trusts es file = true ↔ ∃ e ∈ es, Holds e file) ↔ ¬ Shadowed es file := by
  induction es with
  | nil =>
    have hnone : ¬ Shadowed [] file := fun h => by simpa using h.exists_holds
    simp [trusts, hnone]
  | cons e es ih =>
    rw [shadowed_cons_iff, exists_mem_cons_iff]
    by_cases hbegins : e ≠ [] ∧ e <+: file
    · rw [trusts_cons_of_begins hbegins.1 hbegins.2]
      by_cases hholds : Holds e file
      · have hmere : ¬ MerelyBegins e file := fun h => h.2.2 hholds
        simp [hholds, hmere]
      · have hmere : MerelyBegins e file := ⟨hbegins.1, hbegins.2, hholds⟩
        have hshadow : Shadowed es file → ∃ d ∈ es, Holds d file := fun h => h.exists_holds.2
        simp only [hholds, hmere, false_or, false_iff, true_and, not_false_eq_true]
        exact ⟨fun h => not_or.mpr ⟨h, fun hs => h (hshadow hs)⟩, fun h => (not_or.mp h).1⟩
    · have hholds : ¬ Holds e file := fun h => hbegins ⟨h.1, h.isPrefix⟩
      have hmere : ¬ MerelyBegins e file := fun h => hbegins ⟨h.1, h.2.1⟩
      rw [trusts_cons_of_not_begins hbegins]
      simpa [hholds, hmere] using ih

end Trusted

/-- **Which files count as trusted code.** The file is below an entry of the list just when the
function says so, unless an entry that merely begins the file's name stands before all those; and
the order of the entries matters just when there is an entry of both kinds. -/
theorem isInTrustedCodeDir_iff (list file : Bytes) :
    ((isInTrustedCodeDir list file = true ↔ ∃ e ∈ list.splitOn 58, Holds e file) ↔ ¬ Shadowed (list.splitOn 58) file) ∧
    ((∀ list' : Bytes, (list'.splitOn 58).Perm (list.splitOn 58) →
        isInTrustedCodeDir list' file = isInTrustedCodeDir list file) ↔
      ¬ ((∃ e ∈ list.splitOn 58, MerelyBegins e file) ∧ ∃ d ∈ list.splitOn 58, Holds d file)) := by
  simp only [isInTrustedCodeDir_eq]
  refine ⟨trusts_iff _ file, ?_⟩
  constructor
  · rintro horder ⟨⟨e, he, hbegins⟩, d, hd, hholds⟩
    -- the list with one of its entries moved to the front
    have hfront : ∀ c ∈ list.splitOn 58,
        trusts (c :: (list.splitOn 58).erase c) file = trusts (list.splitOn 58) file := by
      intro c hc
      have hperm := perm_cons_erase hc
      have hsplit : ([58].intercalate (c :: (list.splitOn 58).erase c)).splitOn 58 = c :: (list.splitOn 58).erase c :=
        splitOn_intercalate 58 (fun x hx => (mem_splitOn (hperm.mem_iff.mpr hx)).2) (by simp)
      rw [← hsplit]
      exact horder _ (by rw [hsplit]; exact hperm.symm)
    have htrue : trusts (list.splitOn 58) file = true := by
      rw [← hfront d hd, trusts_cons_of_begins hholds.1 hholds.isPrefix]
      exact hholds
    rw [← hfront e he, trusts_cons_of_begins hbegins.1 hbegins.2.1] at htrue
    exact hbegins.2.2 htrue
  · intro hnot list' hperm
    have hright := (trusts_iff _ file).mpr fun h => hnot h.exists_holds
    have hright' := (trusts_iff (list'.splitOn 58) file).mpr fun h => by
      obtain ⟨⟨e, he, hbegins⟩, d, hd, hholds⟩ := h.exists_holds
      exact hnot ⟨⟨e, hperm.mem_iff.mp he, hbegins⟩, d, hperm.mem_iff.mp hd, hholds⟩
    rw [Bool.eq_iff_iff, hright, hright']
    simp only [hperm.mem_iff]

/-- With `/srv/app` before `/srv/app2`, code in `/srv/app2` is not trusted; the other way round it is. -/
theorem isInTrustedCodeDir_shadowed :
    isInTrustedCodeDir (ascii "/srv/app:/srv/app2") (ascii "/srv/app2/x.php") = false ∧
      (∃ e ∈ (ascii "/srv/app:/srv/app2").splitOn 58, Holds e (ascii "/srv/app2/x.php")) ∧
      isInTrustedCodeDir (ascii "/srv/app2:/srv/app") (ascii "/srv/app2/x.php") = true := by
  refine ⟨by decide, ⟨ascii "/srv/app2", by decide, ?_⟩, by decide⟩
  unfold Holds
  decide

/-! ### Uploads -/

variable (ctx : Context)

/-- The first directory of `sandbox.chroot_basedir_peruser`. -/
def firstUserbase : Bytes := ctx.chrootBasedirPeruser.takeWhile (· ≠ 58)

/-- `is_in_upload_dir`, with the buffer that `php_app_root_path` writes into. -/
def uploadDirCheck (file : Bytes) : Except Overflow Bool :=
  match phpAppRootPath ctx with
  | none => .ok false
  | some rootPath => if Fits rootPath then .ok (isInUploadDir ctx file) else .error .queryBuffer

/-- The components that are not empty. -/
def nonEmpty (cs : List Bytes) : List Bytes := cs.filter (· ≠ [])

/-- The components of a directory, whatever slashes it is written with. -/
def dirComponents (dir : Bytes) : List Bytes := nonEmpty (dir.splitOn 47)

/-- The components of an application's upload directory. -/
def uploadComponents : List Bytes :=
  dirComponents (firstUserbase ctx) ++ ctx.appname :: dirComponents ctx.userUploadDir

/-- What stands between the slashes of the text that the file's name is compared with. -/
def uploadPieces : List Bytes :=
  components (firstUserbase ctx) ++ (ctx.appname.splitOn 47 ++ (withoutSlash ctx.userUploadDir).splitOn 47)

/-- The settings are written without empty components, a slash behind the upload directory apart. -/
structure WellWritten (ctx : Context) : Prop where
  /-- No slash behind the per-user directory, and none doubled in it. -/
  userbase : [] ∉ components (firstUserbase ctx)
  appname : 47 ∉ ctx.appname
  uploadDir : [] ∉ (withoutSlash ctx.userUploadDir).splitOn 47

section Uploads

variable {ctx : Context} {file : Bytes}

theorem slash_free_uploadPieces : ∀ c ∈ uploadPieces ctx, 47 ∉ c := by
  intro c hc
  simp only [uploadPieces, components, mem_append] at hc
  rcases hc with hc | hc | hc <;> exact (mem_splitOn hc).2

theorem uploadPieces_ne_nil (ctx : Context) : uploadPieces ctx ≠ [] := by simp [uploadPieces]

/-- A path name with something behind its last slash continues another just when its components do. -/
theorem joined_isPrefix_joined_iff {cs ds : List Bytes} (hcs : ∀ c ∈ cs, 47 ∉ c) (hds : ∀ d ∈ ds, 47 ∉ d) :
    joined cs ++ [47] <+: joined ds ↔ cs <+: ds ∧ cs ≠ ds := by
  constructor
  · intro h
    refine ⟨(joined_isPrefix_iff hcs hds).mp (h.trans (prefix_append _ _)), ?_⟩
    rintro rfl
    have := h.length_le
    rw [length_append, length_singleton] at this
    omega
  · rintro ⟨⟨es, rfl⟩, hne⟩
    cases es with
    | nil => simp at hne
    | cons e es =>
      rw [joined_append, joined_cons]
      exact (prefix_append_right_inj _).mpr (by simp [cons_prefix_cons])

theorem length_nonEmpty_le (cs : List Bytes) : (nonEmpty cs).length ≤ cs.length := length_filter_le _ _

theorem nonEmpty_eq_self_iff {cs : List Bytes} : nonEmpty cs = cs ↔ [] ∉ cs := by
  rw [nonEmpty, filter_eq_self]
  simp only [decide_eq_true_eq]
  exact ⟨fun h hmem => h [] hmem rfl, fun h c hc hnil => h (hnil ▸ hc)⟩

/-- Two lists of components that the same places are below are equal, or no place is below one of them. -/
theorem agree_of_forall {cs ds : List Bytes} (hlen : ds.length ≤ cs.length)
    (h : ∀ p : Place, (∀ c ∈ p, isName c) → (cs <+: p.reverse ∧ cs ≠ p.reverse ↔ ds <+: p.reverse ∧ ds ≠ p.reverse)) :
    cs = ds ∨ ¬ (∀ c ∈ cs, isName c) ∧ ¬ ∀ c ∈ ds, isName c := by
  -- by a file right below the one
  have hbelow : ∀ {es fs : List Bytes}, (∀ c ∈ es, isName c) → (∀ p : Place, (∀ c ∈ p, isName c) →
      es <+: p.reverse ∧ es ≠ p.reverse → fs <+: p.reverse ∧ fs ≠ p.reverse) → fs <+: es := by
    intro es fs hes hproper
    have hnames : ∀ c ∈ [120] :: es.reverse, isName c :=
      forall_mem_cons.mpr ⟨by decide, fun c hc => hes c (mem_reverse.mp hc)⟩
    have hpre := hproper _ hnames (by simp)
    rw [reverse_cons, reverse_reverse] at hpre
    exact (prefix_concat_iff.mp hpre.1).resolve_left hpre.2
  by_cases hnames : ∀ c ∈ ds, isName c
  · exact .inl ((hbelow hnames fun p hp => (h p hp).mpr).eq_of_length_le hlen)
  · refine .inr ⟨fun hcs => hnames fun c hc => hcs c ?_, hnames⟩
    exact (hbelow hcs fun p hp => (h p hp).mp).subset hc

variable (habs : isAbsolute ctx.chrootBasedirPeruser)

include habs

theorem isAbsolute_firstUserbase : isAbsolute (firstUserbase ctx) := by
  obtain ⟨t, ht⟩ := exists_cons_of_isAbsolute habs
  simp [firstUserbase, ht, isAbsolute]

section

variable (happ : ctx.appname ≠ [])

include happ

theorem phpAppRootPath_eq : phpAppRootPath ctx = some (firstUserbase ctx ++ 47 :: ctx.appname ++ [47]) := by
  have hne : ctx.chrootBasedirPeruser ≠ [] := by
    intro h
    simp [isAbsolute, h] at habs
  exact if_neg (by simp [happ, hne])

/-- The file's name is compared with the pieces, each behind a slash, and a last slash. -/
theorem isInUploadDir_iff_isPrefix (hup : ctx.userUploadDir ≠ []) :
    isInUploadDir ctx file = true ↔ joined (uploadPieces ctx) ++ [47] <+: file := by
  have htext : joined (uploadPieces ctx) ++ [47] =
      (firstUserbase ctx ++ 47 :: ctx.appname ++ [47]) ++ (withoutSlash ctx.userUploadDir ++ [47]) := by
    rw [uploadPieces, joined_append, joined_append, joined_splitOn, joined_splitOn,
      joined_components_absolute (isAbsolute_firstUserbase habs)]
    simp
  rw [htext, isInUploadDir, phpAppRootPath_eq habs happ]
  generalize firstUserbase ctx ++ 47 :: ctx.appname ++ [47] = root
  simp only [Bool.and_eq_true, decide_eq_true_eq, isPrefixOf_iff_prefix]
  constructor
  · rintro ⟨⟨⟨⟨rest, rfl⟩, -⟩, hpre⟩, hslash⟩
    rw [drop_left] at hpre hslash
    exact (prefix_append_right_inj _).mpr ((holds_iff hup hpre).mpr hslash).2
  · intro h
    obtain ⟨rest, rfl⟩ := (prefix_append root _).trans h
    rw [drop_left]
    have hholds : Holds ctx.userUploadDir rest := ⟨hup, (prefix_append_right_inj _).mp h⟩
    exact ⟨⟨⟨prefix_append _ _, hup⟩, hholds.isPrefix⟩, (holds_iff hup hholds.isPrefix).mp hholds⟩

/-- **The answer is about the pieces**: they are the first components of the file, and not all. -/
theorem isInUploadDir_iff (hup : ctx.userUploadDir ≠ []) {p : Place} (hp : ∀ c ∈ p, isName c) :
    isInUploadDir ctx (pathText p) = true ↔ uploadPieces ctx <+: p.reverse ∧ uploadPieces ctx ≠ p.reverse := by
  rw [isInUploadDir_iff_isPrefix habs happ hup]
  by_cases hroot : p = []
  · subst hroot
    have hlen : 0 < (joined (uploadPieces ctx)).length := by
      obtain ⟨c, cs, hcs⟩ := exists_cons_of_ne_nil (uploadPieces_ne_nil ctx)
      rw [hcs]
      simp
    refine iff_of_false (fun h => ?_) fun h => uploadPieces_ne_nil ctx (prefix_nil.mp h.1)
    have := h.length_le
    simp only [length_append, pathText, if_true, length_cons, length_nil] at this
    omega
  · rw [pathText_of_ne_root hroot, joined_isPrefix_joined_iff slash_free_uploadPieces (slash_free_reverse hp)]

end

/-- The pieces without the empty ones. -/
theorem uploadComponents_eq :
    uploadComponents ctx = nonEmpty (components (firstUserbase ctx)) ++
      ctx.appname :: nonEmpty ((withoutSlash ctx.userUploadDir).splitOn 47) := by
  have hfirst : dirComponents (firstUserbase ctx) = nonEmpty (components (firstUserbase ctx)) := by
    have hslash := isAbsolute_firstUserbase habs
    obtain ⟨t, ht⟩ := exists_cons_of_isAbsolute hslash
    rw [components, if_pos hslash, dirComponents, ht]
    simp [nonEmpty, splitOn_cons_eq_if_modifyHead]
  have hupload : dirComponents ctx.userUploadDir = nonEmpty ((withoutSlash ctx.userUploadDir).splitOn 47) := by
    by_cases h : ctx.userUploadDir.getLast? = some 47
    · rw [dirComponents, ← withoutSlash_of_slash h, splitOn_concat, nonEmpty, filter_append, withoutSlash_of_slash h]
      simp [nonEmpty]
    · rw [dirComponents, withoutSlash_of_ne h]
  rw [uploadComponents, hfirst, hupload]

theorem length_uploadComponents_le : (uploadComponents ctx).length ≤ (uploadPieces ctx).length := by
  have hname : 0 < (ctx.appname.splitOn 47).length := length_pos_of_ne_nil (splitOn_ne_nil _ _)
  have hfirst := length_nonEmpty_le (components (firstUserbase ctx))
  have hupload := length_nonEmpty_le ((withoutSlash ctx.userUploadDir).splitOn 47)
  rw [uploadComponents_eq habs, uploadPieces]
  simp only [length_append, length_cons]
  omega

/-- The pieces are the components just when none of them is empty and the name is one. -/
theorem uploadPieces_eq_iff : uploadPieces ctx = uploadComponents ctx ↔ WellWritten ctx := by
  rw [uploadComponents_eq habs, uploadPieces]
  constructor
  · intro h
    have hname : 0 < (ctx.appname.splitOn 47).length := length_pos_of_ne_nil (splitOn_ne_nil _ _)
    have hfirst := length_nonEmpty_le (components (firstUserbase ctx))
    have hupload := length_nonEmpty_le ((withoutSlash ctx.userUploadDir).splitOn 47)
    have hlen := congrArg List.length h
    simp only [length_append, length_cons] at hlen
    -- nothing was left out, so the three parts agree
    obtain ⟨hbase, hrest⟩ := append_inj h (by omega)
    have hone : (ctx.appname.splitOn 47).length = 1 := by omega
    obtain ⟨name, hsingle⟩ := length_eq_one_iff.mp hone
    rw [hsingle, singleton_append] at hrest
    obtain ⟨rfl, hdir⟩ := List.cons.inj hrest
    refine ⟨nonEmpty_eq_self_iff.mp hbase.symm, ?_, nonEmpty_eq_self_iff.mp hdir.symm⟩
    exact (mem_splitOn (by rw [hsingle]; exact mem_singleton_self _)).2
  · rintro ⟨hbase, hname, hdir⟩
    rw [nonEmpty_eq_self_iff.mpr hbase, nonEmpty_eq_self_iff.mpr hdir, splitOn_eq_singleton hname]
    rfl

end Uploads

/-- **Which files count as uploads.** The answer is right for every file just when the path of the
application's root fits its buffer, and the settings are written without empty components or name
a directory that no file can be in, as they stand and by their components. -/
theorem uploadDirCheck_iff (ctx : Context) (habs : isAbsolute ctx.chrootBasedirPeruser) (happ : ctx.appname ≠ [])
    (hup : ctx.userUploadDir ≠ []) :
    (∀ p : Place, (∀ c ∈ p, isName c) → uploadDirCheck ctx (pathText p) =
        .ok (decide (uploadComponents ctx <+: p.reverse ∧ uploadComponents ctx ≠ p.reverse))) ↔
      Fits (firstUserbase ctx ++ 47 :: ctx.appname ++ [47]) ∧
        (WellWritten ctx ∨ ¬ (∀ c ∈ uploadPieces ctx, isName c) ∧ ¬ ∀ c ∈ uploadComponents ctx, isName c) := by
  have hroot := phpAppRootPath_eq habs happ
  rw [← uploadPieces_eq_iff habs]
  constructor
  · intro h
    have hfits : Fits (firstUserbase ctx ++ 47 :: ctx.appname ++ [47]) := by
      by_contra hlong
      have := h [] (by simp)
      simp only [uploadDirCheck, hroot, if_neg hlong] at this
      cases this
    have hright : ∀ p : Place, (∀ c ∈ p, isName c) → (uploadPieces ctx <+: p.reverse ∧ uploadPieces ctx ≠ p.reverse ↔
        uploadComponents ctx <+: p.reverse ∧ uploadComponents ctx ≠ p.reverse) := by
      intro p hp
      have hanswer := h p hp
      simp only [uploadDirCheck, hroot, if_pos hfits, Except.ok.injEq] at hanswer
      rw [← isInUploadDir_iff habs happ hup hp, hanswer, decide_eq_true_eq]
    exact ⟨hfits, agree_of_forall (length_uploadComponents_le habs) hright⟩
  · rintro ⟨hfits, hagree⟩ p hp
    simp only [uploadDirCheck, hroot, if_pos hfits, Except.ok.injEq]
    rw [Bool.eq_iff_iff, isInUploadDir_iff habs happ hup hp, decide_eq_true_eq]
    rcases hagree with heq | ⟨hpieces, hcomponents⟩
    · rw [heq]
    · -- neither leads to a file
      have hnone : ∀ {cs : List Bytes}, ¬ (∀ c ∈ cs, isName c) → ¬ cs <+: p.reverse := fun hcs hpre =>
        hcs fun c hc => hp c (mem_reverse.mp (hpre.subset hc))
      exact iff_of_false (fun h => hnone hpieces h.1) fun h => hnone hcomponents h.1

/-- Settings for uploads, in a request that may open anything. -/
def uploadSettings (userbase uploadDir : Bytes) : Context :=
  ⟨some, fun _ => true, [], uploadDir, userbase, ascii "blog"⟩

/-- With `/home` and `up/`, a file in `/home/blog/up` is an upload. -/
theorem uploadDirCheck_home :
    uploadDirCheck (uploadSettings (ascii "/home") (ascii "up/"))
      (pathText [ascii "x", ascii "up", ascii "blog", ascii "home"]) = .ok true :=
  (uploadDirCheck_iff (uploadSettings (ascii "/home") (ascii "up/")) (by decide) (by decide) (by decide)).mpr
    ⟨by decide, .inl ⟨by decide, by decide, by decide⟩⟩ [ascii "x", ascii "up", ascii "blog", ascii "home"] (by decide)

/-- With a slash behind `/home` it is none, though the directory is the same. -/
theorem uploadDirCheck_trailing_slash :
    uploadDirCheck (uploadSettings (ascii "/home/") (ascii "up"))
        (pathText [ascii "x", ascii "up", ascii "blog", ascii "home"]) = .ok false ∧
      uploadComponents (uploadSettings (ascii "/home/") (ascii "up")) = [ascii "home", ascii "blog", ascii "up"] := by
  decide

end PhpSandbox.Sandbox
