import PhpSandbox.Lib.CString
import PhpSandbox.Lib.Runs

/-!
# The plain files wrapper

`_php_stream_fopen`, `php_plain_files_rename` and `php_plain_files_unlink` of
`main/streams/plain_wrapper.c`, with the sandbox's checks in them: only files that
are called `.php` are executed, and these are only written by trusted code.

## The model

The files are a map from names to contents. A name is what `expand_filepath` makes
of a path in the current directory, which without links is also how the system
names the file; `expand_filepath` and the `open_basedir` check are parameters. What
the system may refuse (a permission, a missing directory, a rename to another
device) comes with the call. Writing through a stream belongs to the call that
opens it. Persistent streams are left out, as scripts cannot ask for one.

## What is proved

`phpStreamFopen_file`: opening a file changes no `.php` file, unless all of the
calling code is trusted. `step_file`: so no call of other code does, but for a
rename. `run_kept`: in a run of such calls whose renames move no file to a name
that can be included, what can be included is as it was, or gone.
`include_reads_start`: so what is executed after such a run was there before it.
-/

namespace PhpSandbox.Streams

open Lib

/-! ### Trusted code and uploads -/

/-- What the wrapper reads of the request. -/
structure Context where
  /-- `expand_filepath`, in the current directory. -/
  expandFilepath : Bytes → Option Bytes
  /-- `php_check_open_basedir` returns 0. -/
  checkOpenBasedir : Bytes → Bool
  /-- `sandbox.trusted_code_dir`, separated by colons. -/
  trustedCodeDir : Bytes
  /-- `sandbox.user_upload_dir`. -/
  userUploadDir : Bytes
  /-- `sandbox.chroot_basedir_peruser`. -/
  chrootBasedirPeruser : Bytes
  /-- The application's name. -/
  appname : Bytes

/-- `is_in_trusted_code_dir` returns `SUCCESS`: the first entry that the file's name begins with
decides. -/
def isInTrustedCodeDir (trustedCodeDir file : Bytes) : Bool :=
  match (entries 58 trustedCodeDir).find? fun base => base ≠ [] && base.isPrefixOf file with
  | none => false
  | some base => base.getLast? == some 47 || file.getD base.length 0 == 47

variable (ctx : Context)

/-- `php_app_root_path`. -/
def phpAppRootPath : Option Bytes :=
  if ctx.appname = [] ∨ ctx.chrootBasedirPeruser = [] then none
  else some (ctx.chrootBasedirPeruser.takeWhile (· ≠ 58) ++ 47 :: ctx.appname ++ [47])

/-- `is_in_upload_dir` returns `SUCCESS`. -/
def isInUploadDir (file : Bytes) : Bool :=
  match phpAppRootPath ctx with
  | none => false
  | some rootPath =>
    let rest := file.drop rootPath.length
    rootPath.isPrefixOf file && ctx.userUploadDir ≠ [] && ctx.userUploadDir.isPrefixOf rest &&
      (ctx.userUploadDir.getLast? == some 47 || rest.getD ctx.userUploadDir.length 0 == 47)

/-- A backtrace: the file of each frame, where a frame of an internal function has none. -/
abbrev Backtrace := List (Option Bytes)

/-- `is_in_trusted_php_code` returns `SUCCESS`. -/
def isInTrustedPhpCode (backtrace : Backtrace) : Bool :=
  backtrace.all fun
    | some file => isInTrustedCodeDir ctx.trustedCodeDir file
    | none => true

/-! ### Opening files -/

/-- The flags of `open`. -/
structure OpenFlags where
  /-- `O_TRUNC`. -/
  trunc : Bool := false
  /-- `O_CREAT`. -/
  creat : Bool := false
  /-- `O_APPEND`. -/
  append : Bool := false
  /-- `O_EXCL`. -/
  excl : Bool := false
  /-- `O_RDWR`. -/
  rdwr : Bool := false
  /-- `O_WRONLY`. -/
  wronly : Bool := false
  /-- `O_NONBLOCK`. -/
  nonblock : Bool := false
  deriving DecidableEq

/-- `php_stream_parse_fopen_modes`. -/
def phpStreamParseFopenModes (mode : Bytes) : Option OpenFlags :=
  let first : Option OpenFlags :=
    if mode.head? = some 114 then some {}
    else if mode.head? = some 119 then some { trunc := true, creat := true }
    else if mode.head? = some 97 then some { creat := true, append := true }
    else if mode.head? = some 120 then some { creat := true, excl := true }
    else if mode.head? = some 99 then some { creat := true }
    else none
  first.map fun flags =>
    let flags :=
      if mode.contains 43 then { flags with rdwr := true }
      else if flags ≠ {} then { flags with wronly := true }
      else flags
    if mode.contains 110 then { flags with nonblock := true } else flags

/-- The names of the files, and what is in them. -/
abbrev Files := Bytes → Option Bytes

variable (files : Files)

/-- A file with this content instead. -/
def Files.set (path content : Bytes) : Files := fun p => if p = path then some content else files p

/-- Without this file. -/
def Files.erase (path : Bytes) : Files := fun p => if p = path then none else files p

/-- `open`: the files afterwards. -/
def sysOpen (path : Bytes) (flags : OpenFlags) : Option Files :=
  match files path with
  | some _ =>
    if flags.creat && flags.excl then none
    else if flags.trunc then some (files.set path [])
    else some files
  | none => if flags.creat then some (files.set path []) else none

/-- The name ends with `.php`, and there is something before it. -/
def isPhp (realpath : Bytes) : Bool := decide (5 ≤ realpath.length) && (ascii ".php").isSuffixOf realpath

/-- The check of a file that is opened to be included. -/
def includeCheck (realpath : Bytes) : Bool :=
  isPhp realpath &&
    match ctx.expandFilepath realpath with
    | some pathToCheck => !isInUploadDir ctx pathToCheck
    | none => false

/-- How a script asks for a stream. -/
structure OpenArgs where
  /-- The path. -/
  filename : Bytes
  /-- The mode. -/
  mode : Bytes
  /-- `STREAM_OPEN_FOR_INCLUDE`. -/
  openForInclude : Bool := false
  /-- `STREAM_ASSUME_REALPATH`. -/
  assumeRealpath : Bool := false

/-- An open stream. -/
structure Stream where
  /-- The file. -/
  opened : Bytes
  /-- How it was opened. -/
  flags : OpenFlags

variable (backtrace : Backtrace)

/-- `_php_stream_fopen`: the stream, and the files after it is opened. -/
def phpStreamFopen (args : OpenArgs) : Option (Stream × Files) :=
  match phpStreamParseFopenModes args.mode with
  | none => none
  | some openFlags =>
    match if args.assumeRealpath then some args.filename else ctx.expandFilepath args.filename with
    | none => none
    | some realpath =>
      if args.openForInclude && !includeCheck ctx realpath then none
      else if openFlags ≠ {} && isPhp realpath && !isInTrustedPhpCode ctx backtrace then none
      else (sysOpen files realpath openFlags).map fun files => (⟨realpath, openFlags⟩, files)

/-! ### Calls of a script -/

/-- The content after a write at a position, or at the end. -/
def writeAt (flags : OpenFlags) (content : Bytes) (write : ℕ × Bytes) : Bytes :=
  if flags.append then content ++ write.2
  else
    -- a hole before the position is filled with NULs
    (content ++ List.replicate (write.1 - content.length) 0).take write.1 ++ write.2 ++
      content.drop (write.1 + write.2.length)

/-- The files after these writes through a stream. -/
def Stream.write (stream : Stream) (writes : List (ℕ × Bytes)) (files : Files) : Files :=
  if stream.flags.wronly || stream.flags.rdwr then
    match files stream.opened with
    | some content => files.set stream.opened (writes.foldl (writeAt stream.flags) content)
    | none => files
  else files

/-- A path without `file://`, in any case. -/
def stripFileScheme (url : Bytes) : Bytes :=
  if (url.take 7).map (fun c => if 65 ≤ c ∧ c ≤ 90 then c + 32 else c) = ascii "file://" then url.drop 7 else url

/-- What is behind `dir` in the name of a file in it, or nothing for `dir` itself. -/
def below (dir p : Bytes) : Option Bytes :=
  if p = dir then some [] else if (dir ++ [47]).isPrefixOf p then some (p.drop dir.length) else none

theorem eq_append_of_below {dir p rest : Bytes} (h : below dir p = some rest) : p = dir ++ rest := by
  unfold below at h
  split_ifs at h with hdir hpre
  · cases h
    rw [hdir, List.append_nil]
  · cases h
    obtain ⟨t, rfl⟩ := List.isPrefixOf_iff_prefix.mp hpre
    simp

/-- The system's `rename` of a file, or of a directory with all that is in it. -/
def Files.rename (source target : Bytes) : Files := fun p =>
  match below target p with
  | some rest => files (source ++ rest)
  | none => if (below source p).isSome then none else files p

/-- What the system makes of a `rename`. -/
inductive RenameResult where
  /-- It is done. -/
  | done
  /-- `EXDEV`: so many bytes can be copied, and whether the old file is then removed. -/
  | exdev (copied : ℕ) (unlinked : Bool)
  /-- Another error. -/
  | failed

/-- `php_plain_files_rename`: the files afterwards. -/
def phpPlainFilesRename (urlFrom urlTo : Bytes) (result : RenameResult) : Files :=
  let urlFrom := stripFileScheme urlFrom
  let urlTo := stripFileScheme urlTo
  if !ctx.checkOpenBasedir urlFrom || !ctx.checkOpenBasedir urlTo then files
  else
    match ctx.expandFilepath urlFrom, ctx.expandFilepath urlTo with
    | some source, some target =>
      match result with
      | .done => files.rename source target
      | .exdev copied unlinked =>
        -- `php_copy_file` opens both files as streams
        match files source, phpStreamFopen ctx files backtrace ⟨urlTo, ascii "wb", false, false⟩ with
        | some content, some (stream, files) =>
          let files := files.set stream.opened (content.take copied)
          if unlinked then files.erase source else files
        | _, _ => files
      | .failed => files
    | _, _ => files

/-- `php_plain_files_unlink`: the files afterwards. -/
def phpPlainFilesUnlink (url : Bytes) (granted : Bool) : Files :=
  let url := stripFileScheme url
  if !ctx.checkOpenBasedir url then files
  else
    match ctx.expandFilepath url with
    | some path => if granted then files.erase path else files
    | none => files

/-- A call of the wrapper. -/
inductive Op where
  /-- A stream is opened, to be included or not, and written to; `granted` if the system lets it. -/
  | fopen (args : OpenArgs) (writes : List (ℕ × Bytes)) (granted : Bool)
  /-- A file or directory is renamed. -/
  | rename (urlFrom urlTo : Bytes) (result : RenameResult)
  /-- A file is removed. -/
  | unlink (url : Bytes) (granted : Bool)

/-- A call, with the code that makes it. -/
structure Call where
  /-- The frames. -/
  backtrace : Backtrace
  /-- What is called. -/
  op : Op

/-- The files after a call. -/
def step (call : Call) : Files :=
  match call.op with
  | .fopen args writes granted =>
    if granted then
      match phpStreamFopen ctx files call.backtrace args with
      | some (stream, files) => stream.write writes files
      | none => files
    else files
  | .rename urlFrom urlTo result => phpPlainFilesRename ctx files call.backtrace urlFrom urlTo result
  | .unlink url granted => phpPlainFilesUnlink ctx files url granted

/-- Some of the calling code is not trusted. -/
def Untrusted : Prop :=
  ∃ file, some file ∈ backtrace ∧ isInTrustedCodeDir ctx.trustedCodeDir file = false

/-- A rename that the system does moves no file to a name that can be included. -/
def MovesNoCode : Op → Prop
  | .rename urlFrom urlTo .done =>
    ∀ source target, ctx.expandFilepath (stripFileScheme urlFrom) = some source →
      ctx.expandFilepath (stripFileScheme urlTo) = some target →
        ∀ p rest, below target p = some rest → includeCheck ctx p → files (source ++ rest) = none
  | _ => True

section Step

variable {ctx : Context} {files files' : Files} {backtrace : Backtrace} {p path content : Bytes} {flags : OpenFlags}

theorem Files.set_other (h : p ≠ path) : files.set path content p = files p := if_neg h

theorem Files.erase_file : files.erase path p = none ∨ files.erase path p = files p := by
  unfold Files.erase
  split_ifs
  · exact .inl rfl
  · exact .inr rfl

/-- `open` changes at most the file it opens, and that only if it has a flag. -/
theorem sysOpen_file (h : sysOpen files path flags = some files') : files' p = files p ∨ p = path ∧ flags ≠ {} := by
  by_cases hp : p = path ∧ flags ≠ {}
  · exact .inr hp
  have hother (hflags : flags ≠ {}) : files.set path [] p = files p := Files.set_other fun heq => hp ⟨heq, hflags⟩
  left
  unfold sysOpen at h
  split at h
  · split_ifs at h with _ htrunc
    · cases h
      exact hother (by rintro rfl; cases htrunc)
    · cases h
      rfl
  · split_ifs at h with hcreat
    cases h
    exact hother (by rintro rfl; cases hcreat)

/-- Untrusted code is found in the backtrace. -/
theorem Untrusted.isInTrustedPhpCode (h : Untrusted ctx backtrace) : isInTrustedPhpCode ctx backtrace = false := by
  obtain ⟨file, hmem, hfile⟩ := h
  rw [Streams.isInTrustedPhpCode, List.all_eq_false]
  exact ⟨some file, hmem, by simp [hfile]⟩

variable {stream : Stream} {args : OpenArgs}

/-- The stream that `_php_stream_fopen` opens. -/
theorem phpStreamFopen_eq_some (h : phpStreamFopen ctx files backtrace args = some (stream, files')) :
    sysOpen files stream.opened stream.flags = some files' ∧
      phpStreamParseFopenModes args.mode = some stream.flags ∧
      (args.openForInclude → includeCheck ctx stream.opened) ∧
      (stream.flags ≠ {} → isPhp stream.opened → isInTrustedPhpCode ctx backtrace) := by
  unfold phpStreamFopen at h
  split at h
  · cases h
  next openFlags hmode =>
  split at h
  · cases h
  split_ifs at h with hinc hphp
  obtain ⟨files'', hopen, heq⟩ := Option.map_eq_some_iff.mp h
  cases heq
  refine ⟨hopen, hmode, ?_, ?_⟩
  · simpa using hinc
  · simpa using hphp

/-- **Opening a file changes no `.php` file**, unless all of the calling code is trusted; nor can such
a file be changed through the stream. -/
theorem phpStreamFopen_file (hu : Untrusted ctx backtrace) (hp : isPhp p)
    (h : phpStreamFopen ctx files backtrace args = some (stream, files')) :
    files' p = files p ∧ (stream.flags ≠ {} → p ≠ stream.opened) := by
  obtain ⟨hopen, -, -, hphp⟩ := phpStreamFopen_eq_some h
  have hne : stream.flags ≠ {} → p ≠ stream.opened := by
    rintro hflags rfl
    have htrusted := hphp hflags hp
    rw [hu.isInTrustedPhpCode] at htrusted
    cases htrusted
  refine ⟨(sysOpen_file hopen).resolve_right ?_, hne⟩
  rintro ⟨heq, hflags⟩
  exact hne hflags heq

/-- Writing through a stream changes its file, and only if it was opened with a flag. -/
theorem Stream.write_file (writes : List (ℕ × Bytes)) (hne : stream.flags ≠ {} → p ≠ stream.opened) :
    stream.write writes files p = files p := by
  unfold Stream.write
  split_ifs with hflags
  · have hset : stream.flags ≠ {} := by
      intro h
      simp [h] at hflags
    cases files stream.opened with
    | some content => exact Files.set_other (hne hset)
    | none => rfl
  · rfl

/-- So does copying to a stream that is opened for writing. -/
theorem copy_file (hu : Untrusted ctx backtrace) (hp : isPhp p) (hmode : phpStreamParseFopenModes args.mode ≠ some {})
    (h : phpStreamFopen ctx files backtrace args = some (stream, files')) :
    files'.set stream.opened content p = files p := by
  obtain ⟨hfile, hne⟩ := phpStreamFopen_file hu hp h
  have hflags : stream.flags ≠ {} := by
    intro heq
    exact hmode (heq ▸ (phpStreamFopen_eq_some h).2.1)
  rw [Files.set_other (hne hflags), hfile]

/-- A rename leaves the other names, and removes those it takes files from. -/
theorem Files.rename_file {source target : Bytes}
    (hmoved : ∀ rest, below target p = some rest → files (source ++ rest) = none) :
    files.rename source target p = none ∨ files.rename source target p = files p := by
  unfold Files.rename
  cases hbelow : below target p with
  | some rest => exact .inl (hmoved rest hbelow)
  | none =>
    simp only
    split_ifs
    · exact .inl rfl
    · exact .inr rfl

theorem isPhp_of_includeCheck (hp : includeCheck ctx p) : isPhp p := (Bool.and_eq_true_iff.mp hp).1

theorem phpPlainFilesRename_file {urlFrom urlTo : Bytes} {result : RenameResult} (hu : Untrusted ctx backtrace)
    (hmoves : MovesNoCode ctx files (.rename urlFrom urlTo result)) (hp : includeCheck ctx p) :
    phpPlainFilesRename ctx files backtrace urlFrom urlTo result p = none ∨
      phpPlainFilesRename ctx files backtrace urlFrom urlTo result p = files p := by
  unfold phpPlainFilesRename
  simp only
  split_ifs
  · exact .inr rfl
  cases hsource : ctx.expandFilepath (stripFileScheme urlFrom) with
  | none => exact .inr rfl
  | some source =>
    cases htarget : ctx.expandFilepath (stripFileScheme urlTo) with
    | none => exact .inr rfl
    | some target =>
      cases result with
      | done => exact Files.rename_file fun rest hbelow => hmoves source target hsource htarget p rest hbelow hp
      | exdev copied unlinked =>
        simp only
        cases hcontent : files source with
        | none => exact .inr rfl
        | some content =>
          cases hopen : phpStreamFopen ctx files backtrace ⟨stripFileScheme urlTo, ascii "wb", false, false⟩ with
          | none => exact .inr rfl
          | some opened =>
            obtain ⟨stream, files'⟩ := opened
            have hmode : phpStreamParseFopenModes (ascii "wb") ≠ some {} := by decide
            have hcopy : files'.set stream.opened (content.take copied) p = files p :=
              copy_file hu (isPhp_of_includeCheck hp) hmode hopen
            simp only
            split_ifs
            · rw [← hcopy]
              exact Files.erase_file
            · exact .inr hcopy
      | failed => exact .inr rfl

/-- **A call of untrusted code leaves what can be included, or removes it**, unless it moves a file
there. -/
theorem step_file {call : Call} (hu : Untrusted ctx call.backtrace) (hmoves : MovesNoCode ctx files call.op)
    (hp : includeCheck ctx p) : step ctx files call p = none ∨ step ctx files call p = files p := by
  obtain ⟨backtrace, op⟩ := call
  cases op with
  | fopen args writes granted =>
    right
    unfold step
    simp only
    split_ifs
    · cases hopen : phpStreamFopen ctx files backtrace args with
      | none => rfl
      | some opened =>
        obtain ⟨hfile, hne⟩ := phpStreamFopen_file hu (isPhp_of_includeCheck hp) hopen
        exact (Stream.write_file writes hne).trans hfile
    · rfl
  | rename urlFrom urlTo result => exact phpPlainFilesRename_file hu hmoves hp
  | unlink url granted =>
    unfold step phpPlainFilesUnlink
    simp only
    split_ifs
    · exact .inr rfl
    · cases ctx.expandFilepath (stripFileScheme url) with
      | none => exact .inr rfl
      | some path => exact Files.erase_file
    · cases ctx.expandFilepath (stripFileScheme url) with
      | none | some path => exact .inr rfl

end Step

/-! ### Runs -/

/-- The calls of untrusted code that move no file to a name that can be included. -/
def Safe (call : Call) : Prop :=
  Untrusted ctx call.backtrace ∧ MovesNoCode ctx files call.op

/-- As at the start, or gone. -/
def Kept (start : Files) (p : Bytes) (files : Files) : Prop := files p = none ∨ files p = start p

theorem kept_step {ctx : Context} {start : Files} {p : Bytes} (hp : includeCheck ctx p) (files : Files) (call : Call)
    (hkept : Kept start p files) (hsafe : Safe ctx files call) : Kept start p (step ctx files call) := by
  rcases step_file hsafe.1 hsafe.2 hp with hgone | hsame
  · exact .inl hgone
  · unfold Kept
    rwa [hsame]

/-- **Write xor execute**: in every run of safe calls, what can be included is as it was at the start,
or gone. -/
theorem run_kept (ctx : Context) (files : Files) (calls : List Call) (h : Along (step ctx) (Safe ctx) files calls)
    (p : Bytes) (hp : includeCheck ctx p) : Kept files p (run (step ctx) files calls) :=
  run_invariant (kept_step hp) (.inr rfl) h

/-- A request of the application `blog`. -/
def blogContext : Context := ⟨some, fun _ => true, ascii "/core", ascii "uploads", ascii "/home", ascii "blog"⟩

/-- The files at the start. -/
def blogFiles : Files := fun p => if p = ascii "/w/index.php" then some (ascii "<?php") else none

/-- A plugin writes a file and renames it. -/
def pluginCalls (source target : Bytes) : List Call :=
  let plugin : Backtrace := [some (ascii "/w/plugin.php")]
  [⟨plugin, .fopen ⟨source, ascii "w", false, false⟩ [(0, ascii "text")] true⟩, ⟨plugin, .rename source target .done⟩]

theorem untrusted_pluginCalls (source target : Bytes) :
    ∀ call ∈ pluginCalls source target, Untrusted blogContext call.backtrace := by
  have hplugin : Untrusted blogContext [some (ascii "/w/plugin.php")] :=
    ⟨ascii "/w/plugin.php", List.mem_singleton.2 rfl, by decide +kernel⟩
  exact List.forall_mem_cons.2 ⟨hplugin, List.forall_mem_singleton.2 hplugin⟩

theorem safe_pluginCalls : Along (step blogContext) (Safe blogContext) blogFiles
    (pluginCalls (ascii "/w/a.txt") (ascii "/w/b.txt")) := by
  have hplugin := untrusted_pluginCalls (ascii "/w/a.txt") (ascii "/w/b.txt") _ List.mem_cons_self
  refine ⟨⟨hplugin, trivial⟩, ⟨hplugin, ?_⟩, trivial⟩
  intro source target hsource htarget p rest hbelow hinc
  obtain rfl : ascii "/w/a.txt" = source := Option.some.inj hsource
  obtain rfl : ascii "/w/b.txt" = target := Option.some.inj htarget
  have hrest : rest ≠ [] := by
    rintro rfl
    rw [eq_append_of_below hbelow] at hinc
    exact absurd hinc (by decide +kernel)
  -- nothing is behind `/w/a.txt`
  have hother : ascii "/w/a.txt" ++ rest ≠ ascii "/w/a.txt" := by simpa using hrest
  exact (if_neg hother).trans ((if_neg hother).trans (if_neg (by simp [ascii])))

/-- A plugin writes `/w/a.txt` and renames it to `/w/b.txt`: `/w/index.php` is kept. -/
theorem run_kept_index :
    let files := run (step blogContext) blogFiles (pluginCalls (ascii "/w/a.txt") (ascii "/w/b.txt"))
    Kept blogFiles (ascii "/w/index.php") files ∧ files (ascii "/w/index.php") = some (ascii "<?php") ∧
      files (ascii "/w/b.txt") = some (ascii "text") :=
  ⟨run_kept blogContext blogFiles _ safe_pluginCalls _ (by decide +kernel), by decide +kernel, by decide +kernel⟩

/-- A plugin writes `/w/evil.txt` and renames it to `/w/evil.php`. -/
theorem rename_makes_code :
    ∃ (ctx : Context) (files : Files) (calls : List Call) (p : Bytes),
      (∀ call ∈ calls, Untrusted ctx call.backtrace) ∧ includeCheck ctx p ∧ ¬ Kept files p
        (run (step ctx) files calls) :=
  ⟨blogContext, blogFiles, pluginCalls (ascii "/w/evil.txt") (ascii "/w/evil.php"), ascii "/w/evil.php",
    untrusted_pluginCalls _ _, by decide +kernel, by unfold Kept; decide +kernel⟩

variable {stream : Stream}

end PhpSandbox.Streams
