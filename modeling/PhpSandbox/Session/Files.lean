import PhpSandbox.Lib.Runs
import PhpSandbox.Var.Zval

/-!
# The files save handler

`PS_READ_FUNC(files)`, `PS_WRITE_FUNC(files)` and `PS_DESTROY_FUNC(files)` of `ext/session/mod_files.c`, as a script
calls them through `SessionHandler`.

## The model

The disk is a map from paths to what the files hold. The handler has one descriptor at most. It closes that before it
unlinks a file, so a descriptor is given by the path of its file. The calls of the system do not fail, and the
directories are there; a session's data is a string of PHP, so that a file is shorter than `2 ^ 31` bytes. Left out are
how `session.save_path` is split up, `PS_GC_FUNC`, locks, owners and modes.

`SessionHandler` gives its argument to the handler as the id. But the handler reads the session `PS(id)`, which
`session_id()` sets.

## What is proved

For a call in any state of the handler, `step_refines_iff` says when it does to the files what the same call does to
a map from ids to data. `answers_map` is what follows for runs.
-/

namespace PhpSandbox.Session.Files

open Lib Var Option Function List

/-- What the files hold, by their paths. -/
abbrev Disk := Bytes → Option Bytes

/-- `session.save_path`, split up. -/
structure SavePath where
  /-- The directory. -/
  basedir : Bytes
  /-- How many levels of directories are below it. -/
  dirdepth : ℕ

/-- `ps_files`. -/
structure PsFiles extends SavePath where
  /-- The file of the descriptor; none if it is -1. -/
  fd : Option Bytes
  /-- The session whose file that is. -/
  lastkey : Option Bytes
  /-- The size that the last read found. -/
  stSize : ℕ

/-- `MAXPATHLEN`. -/
def maxpathlen : ℕ := 4096

/-- `PHP_DIR_SEPARATOR`. -/
def slash : UInt8 := 47

/-- `FILE_PREFIX`. -/
def filePrefix : Bytes := ascii "sess_"

/-- A character of a session id. -/
def isKeyChar (c : UInt8) : Bool :=
  (97 ≤ c && c ≤ 122) || (65 ≤ c && c ≤ 90) || (48 ≤ c && c ≤ 57) || c == 44 || c == 45

/-- `php_session_valid_key(key) == SUCCESS`. -/
def phpSessionValidKey (key : Bytes) : Bool := key.all isKeyChar && 0 < key.length && key.length ≤ 128

/-- `ps_files_path_create`. -/
def psFilesPathCreate (data : SavePath) (key : Bytes) : Option Bytes :=
  if key.length ≤ data.dirdepth ∨
      maxpathlen < data.basedir.length + 2 * data.dirdepth + key.length + 5 + (filePrefix.length + 1) then
    none
  else
    some (data.basedir ++ slash :: (key.take data.dirdepth).flatMap (fun c => [c, slash]) ++ filePrefix ++ key)

/-- `ps_files_open`: the handler and the disk. `O_CREAT` makes a file that is not there. -/
def psFilesOpen (data : PsFiles) (key : Bytes) (disk : Disk) : PsFiles × Disk :=
  if data.fd = none ∨ data.lastkey ≠ some key then
    let data := { data with fd := none, lastkey := none }
    if phpSessionValidKey key then
      match psFilesPathCreate data.toSavePath key with
      | none => (data, disk)
      | some buf =>
        ({ data with fd := some buf, lastkey := some key }, update disk buf (some ((disk buf).getD [])))
    else (data, disk)
  else (data, disk)

/-- `ps_files_key_exists(data, key) == SUCCESS`. -/
def psFilesKeyExists (data : SavePath) (key : Bytes) (disk : Disk) : Bool :=
  ((psFilesPathCreate data key).bind disk).isSome

/-- What a call returns. -/
inductive Answer where
  | failure
  | success
  /-- `SUCCESS`, with data. -/
  | data (val : Bytes)
  deriving DecidableEq

/-- The globals of a session, and the disk. -/
structure State where
  /-- `PS(save_path)`. -/
  savePath : SavePath
  /-- `PS(mod_data)`; none if the handler is not open. -/
  modData : Option PsFiles
  /-- `PS(id)`. -/
  id : Bytes
  /-- `PS(use_strict_mode)`. -/
  useStrictMode : Bool
  /-- The files. -/
  disk : Disk

open State

variable (s : State)

/-- `PS_OPEN_FUNC(files)`. -/
def psOpenFiles : Answer × State :=
  (.success, { s with modData := some { s.savePath with fd := none, lastkey := none, stSize := 0 } })

/-- `PS_CLOSE_FUNC(files)`. -/
def psCloseFiles : Answer × State := (.success, { s with modData := none })

variable (data : PsFiles)

/-- The session that `PS_READ_FUNC(files)` reads: in strict mode `sid`, which `s_create_sid` makes, if there is no file
for the id that was asked for. -/
def State.readId (key sid : Bytes) : Bytes :=
  if s.useStrictMode && !psFilesKeyExists data.toSavePath key s.disk then sid else s.id

/-- `PS_READ_FUNC(files)`. -/
def psReadFiles (key sid : Bytes) : Answer × State :=
  let id := s.readId data key sid
  let r := psFilesOpen data id s.disk
  match r.1.fd with
  | none => (.failure, { s with modData := some r.1, id := id, disk := r.2 })
  | some file =>
    let val := (r.2 file).getD []
    (.data val, { s with modData := some { r.1 with stSize := val.length }, id := id, disk := r.2 })

/-- `PS_WRITE_FUNC(files)`. -/
def psWriteFiles (key val : Bytes) : Answer × State :=
  let r := psFilesOpen data key s.disk
  match r.1.fd with
  | none => (.failure, { s with modData := some r.1, disk := r.2 })
  | some file =>
    -- the file is truncated if the new data is shorter than what was read last
    let old := if (val.length : ℤ) < toInt r.1.stSize then [] else (r.2 file).getD []
    (.success,
      { s with modData := some r.1, disk := update r.2 file (some (val ++ old.drop val.length)) })

/-- `PS_DESTROY_FUNC(files)`. -/
def psDestroyFiles (key : Bytes) : Answer × State :=
  match psFilesPathCreate data.toSavePath key with
  | none => (.failure, s)
  | some buf =>
    if data.fd ≠ none then
      (.success, { s with modData := some { data with fd := none }, disk := update s.disk buf none })
    else (.success, s)

/-- What a script calls. -/
inductive Call where
  /-- `session_id($id)`. -/
  | sessionId (id : Bytes)
  /-- `SessionHandler::open`, with the same path. -/
  | open
  /-- `SessionHandler::close`. -/
  | close
  /-- `SessionHandler::read($key)`; `sid` is the id that would be made. -/
  | read (key sid : Bytes)
  /-- `SessionHandler::write($key, $val)`. -/
  | write (key val : Bytes)
  /-- `SessionHandler::destroy($key)`. -/
  | destroy (key : Bytes)

/-- The handler is called if it is open (`PS_SANITY_CHECK_IS_OPEN`). -/
def State.ifOpen (f : PsFiles → Answer × State) : Answer × State :=
  match s.modData with
  | none => (.failure, s)
  | some data => f data

/-- One call. -/
def State.step : Call → Answer × State
  | .sessionId id => (.success, { s with id := id })
  | .open => psOpenFiles s
  | .close => s.ifOpen fun _ => psCloseFiles s
  | .read key sid => s.ifOpen fun data => psReadFiles s data key sid
  | .write key val => s.ifOpen fun data => psWriteFiles s data key val
  | .destroy key => s.ifOpen fun data => psDestroyFiles s data key

/-! ### The map from ids to data -/

/-- A session id that is valid, and for which there is a path. -/
def GoodId (savePath : SavePath) (key : Bytes) : Prop :=
  phpSessionValidKey key = true ∧ (psFilesPathCreate savePath key).isSome = true

instance (savePath : SavePath) (key : Bytes) : Decidable (GoodId savePath key) := inferInstanceAs (Decidable (_ ∧ _))

/-- The data of the sessions; empty where there is no file. -/
def State.store (key : Bytes) : Bytes := ((psFilesPathCreate s.savePath key).bind s.disk).getD []

/-- The calls on a map. -/
def mapStep (m : Bytes → Bytes) : Call → Answer × (Bytes → Bytes)
  | .sessionId _ | .open | .close => (.success, m)
  | .read key _ => (.data (m key), m)
  | .write key val => (.success, update m key val)
  | .destroy key => (.success, update m key [])

/-- The calls that are made on an open handler, with valid ids. -/
def State.Usable : Call → Prop
  | .sessionId id => GoodId s.savePath id
  | .open => True
  | .close => s.modData ≠ none
  | .read key sid => s.modData ≠ none ∧ GoodId s.savePath key ∧ GoodId s.savePath sid
  | .write key _ => s.modData ≠ none ∧ GoodId s.savePath key
  | .destroy key => s.modData ≠ none ∧ GoodId s.savePath key

/-- When the handler does what a map does: the session that is read has the data of the one that was asked for, new
data is not shorter than the old or is shorter than what was read last, and the handler has a file open when a session
with data is destroyed. -/
def State.Faithful : Call → Prop
  | .sessionId _ | .open | .close => True
  | .read key sid => ∀ data, s.modData = some data → s.store (s.readId data key sid) = s.store key
  | .write key val =>
    ∀ data, s.modData = some data → (s.store key).length ≤ val.length ∨ (val.length : ℤ) < toInt data.stSize
  | .destroy key => ∀ data, s.modData = some data → data.fd ≠ none ∨ s.store key = []

/-- Different sessions have different paths. -/
theorem psFilesPathCreate_injective {savePath : SavePath} {key key' file : Bytes}
    (h : psFilesPathCreate savePath key = some file) (h' : psFilesPathCreate savePath key' = some file) : key =
    key' := by
  unfold psFilesPathCreate at h h'
  split_ifs at h h' with hc hc'
  have hlen : ∀ k : Bytes, savePath.dirdepth < k.length →
      ((k.take savePath.dirdepth).flatMap fun c => [c, slash]).length = 2 * savePath.dirdepth := by
    intro k hk
    rw [length_flatMap]
    simp
    omega
  have heq := some.inj (h.trans h'.symm)
  push Not at hc hc'
  refine append_inj_right heq ?_
  simp [hlen key hc.1, hlen key' hc'.1]

/-- What holds of the handler after any calls: a descriptor is of the file of the last session. -/
structure State.Ok (s : State) : Prop where
  id : GoodId s.savePath s.id
  /-- The handler has the path it was opened with. -/
  savePath : ∀ data, s.modData = some data → data.toSavePath = s.savePath
  fd : ∀ data file, s.modData = some data → data.fd = some file →
    ∃ key, data.lastkey = some key ∧ psFilesPathCreate s.savePath key = some file ∧ (s.disk file).isSome = true

section Step

variable {s : State} {data : PsFiles} {key val sid file : Bytes}

/-- `ps_files_open` at a valid id. -/
theorem psFilesOpen_spec (h : s.Ok) (hdata : s.modData = some data) (hkey : phpSessionValidKey key = true)
    (hfile : psFilesPathCreate s.savePath key = some file) :
    psFilesOpen data key s.disk =
      ({ data with fd := some file, lastkey := some key }, update s.disk file (some
      ((s.disk file).getD []))) := by
  unfold psFilesOpen
  split_ifs with hnew
  · dsimp only
    rw [h.savePath data hdata, hfile]
  push Not at hnew
  obtain ⟨open_, hopen⟩ := ne_none_iff_exists'.mp hnew.1
  obtain ⟨key', hlast, hpath, hexists⟩ := h.fd data open_ hdata hopen
  obtain rfl : key = key' := some.inj (hnew.2.symm.trans hlast)
  obtain rfl : file = open_ := some.inj (hfile.symm.trans hpath)
  obtain ⟨old, hold⟩ := isSome_iff_exists.mp hexists
  rw [hold, getD_some, ← hold, update_eq_self, ← hopen, ← hlast]

section

variable (hfile : psFilesPathCreate s.savePath key = some file)

include hfile

/-- The data of a session after its file is written. -/
theorem store_update (modData : Option PsFiles) (id : Bytes) (new : Option Bytes) :
    store { s with modData := modData, id := id, disk := update s.disk file new } =
      update s.store key (new.getD []) := by
  funext k
  change ((psFilesPathCreate s.savePath k).bind (update s.disk file new)).getD [] = _
  by_cases hk : k = key
  · subst hk
    rw [update_self, hfile, bind_some, update_self]
  rw [update_of_ne hk, store]
  cases hpath : psFilesPathCreate s.savePath k with
  | none => rfl
  | some other =>
    have hne : other ≠ file := by
      rintro rfl
      exact hk (psFilesPathCreate_injective hpath hfile)
    rw [bind_some, bind_some, update_of_ne hne]

theorem store_eq : s.store key = (s.disk file).getD [] := by
  rw [store, hfile, bind_some]

end

/-- The handler after the file of a session was opened and has got some contents. -/
theorem ok_opened (h : s.Ok) (hdata : s.modData = some data) (hfile : psFilesPathCreate s.savePath key = some file)
    {id : Bytes} (hid : GoodId s.savePath id) (stSize : ℕ) (new : Bytes) :
    State.Ok
      { s with
        modData := some { data with fd := some file, lastkey := some key, stSize := stSize }
        id := id
        disk := update s.disk file (some new) } where
  id := hid
  savePath d hd := by
    cases hd
    exact h.savePath data hdata
  fd d f hd hf := by
    cases hd
    cases hf
    refine ⟨key, rfl, hfile, ?_⟩
    change (update s.disk file (some new) file).isSome = true
    rw [update_self]
    rfl

/-- A read: the data of the session `PS(id)`. -/
theorem psReadFiles_spec (key : Bytes) (h : s.Ok) (hdata : s.modData = some data) (hsid : GoodId s.savePath sid) :
    (psReadFiles s data key sid).1 = .data (s.store (s.readId data key sid)) ∧
      (psReadFiles s data key sid).2.store = s.store ∧ (psReadFiles s data key sid).2.Ok := by
  have hgood : GoodId s.savePath (s.readId data key sid) := by
    unfold readId
    split_ifs
    · exact hsid
    · exact h.id
  obtain ⟨file, hfile⟩ := isSome_iff_exists.mp hgood.2
  have hstore := store_eq hfile
  unfold psReadFiles
  simp only [psFilesOpen_spec h hdata hgood.1 hfile, update_self, getD_some]
  refine ⟨by rw [hstore], ?_, ok_opened h hdata hfile hgood _ _⟩
  rw [store_update hfile, getD_some, ← hstore, update_eq_self]

/-- A write: what is left of the old data is behind the new, if the file was not truncated. -/
theorem psWriteFiles_spec (val : Bytes) (h : s.Ok) (hdata : s.modData = some data) (hkey : GoodId s.savePath key) :
    (psWriteFiles s data key val).1 = .success ∧
      (psWriteFiles s data key val).2.store =
        update s.store key
          (val ++ (if (val.length : ℤ) < toInt data.stSize then [] else s.store key).drop val.length) ∧
      (psWriteFiles s data key val).2.Ok := by
  obtain ⟨file, hfile⟩ := isSome_iff_exists.mp hkey.2
  have hstore := store_eq hfile
  unfold psWriteFiles
  simp only [psFilesOpen_spec h hdata hkey.1 hfile, update_self, getD_some, update_idem]
  refine ⟨trivial, ?_, ok_opened h hdata hfile h.id _ _⟩
  rw [store_update hfile _ s.id, getD_some, hstore]

/-- A destruction: the file is unlinked if the handler has a file open. -/
theorem psDestroyFiles_spec (h : s.Ok) (hdata : s.modData = some data) (hkey : GoodId s.savePath key) :
    (psDestroyFiles s data key).1 = .success ∧
      (psDestroyFiles s data key).2.store = update s.store key (if data.fd = none then s.store key else []) ∧
      (psDestroyFiles s data key).2.Ok := by
  obtain ⟨file, hfile⟩ := isSome_iff_exists.mp hkey.2
  unfold psDestroyFiles
  rw [h.savePath data hdata, hfile]
  dsimp only
  by_cases hfd : data.fd = none
  · rw [if_neg (not_not.mpr hfd), if_pos hfd]
    exact ⟨rfl, (update_eq_self _ _).symm, h⟩
  rw [if_pos hfd, if_neg hfd]
  refine ⟨rfl, store_update hfile _ s.id none, ?_⟩
  refine ⟨h.id, fun d hd => ?_, fun d f hd hf => ?_⟩
  · cases hd
    rfl
  · cases hd
    cases hf

/-- What every call leaves. -/
theorem step_ok (h : s.Ok) {call : Call} (hcall : s.Usable call) : (s.step call).2.Ok := by
  cases call with
  | sessionId id => exact ⟨hcall, h.savePath, h.fd⟩
  | «open» =>
    refine ⟨h.id, fun d hd => ?_, fun d f hd hf => ?_⟩
    · cases hd
      rfl
    · cases hd
      cases hf
  | close =>
    obtain ⟨data, hdata⟩ := ne_none_iff_exists'.mp hcall
    rw [step, ifOpen, hdata]
    exact ⟨h.id, fun d hd => (nomatch hd), fun d f hd => (nomatch hd)⟩
  | read key sid =>
    obtain ⟨data, hdata⟩ := ne_none_iff_exists'.mp hcall.1
    rw [step, ifOpen, hdata]
    exact (psReadFiles_spec key h hdata hcall.2.2).2.2
  | write key val =>
    obtain ⟨data, hdata⟩ := ne_none_iff_exists'.mp hcall.1
    rw [step, ifOpen, hdata]
    exact (psWriteFiles_spec val h hdata hcall.2).2.2
  | destroy key =>
    obtain ⟨data, hdata⟩ := ne_none_iff_exists'.mp hcall.1
    rw [step, ifOpen, hdata]
    exact (psDestroyFiles_spec h hdata hcall.2).2.2

/-- New data is all there is after a write just when nothing is left behind it. -/
theorem write_eq_iff :
    val ++ (if (val.length : ℤ) < toInt data.stSize then [] else s.store key).drop val.length = val ↔
      (s.store key).length ≤ val.length ∨ (val.length : ℤ) < toInt data.stSize := by
  rw [append_right_eq_self]
  split_ifs with hlt
  · simp [hlt]
  · simp [hlt, drop_eq_nil_iff]

/-- **When a call does what it does to a map.** -/
theorem step_refines_iff (h : s.Ok) {call : Call} (hcall : s.Usable call) :
    ((s.step call).1 = (mapStep s.store call).1 ∧ (s.step call).2.store = (mapStep s.store call).2) ↔
      s.Faithful call := by
  cases call with
  | sessionId id | «open» => exact ⟨fun _ => trivial, fun _ => ⟨rfl, rfl⟩⟩
  | close =>
    obtain ⟨data, hdata⟩ := ne_none_iff_exists'.mp hcall
    rw [step, ifOpen, hdata]
    exact ⟨fun _ => trivial, fun _ => ⟨rfl, rfl⟩⟩
  | read key sid =>
    obtain ⟨data, hdata⟩ := ne_none_iff_exists'.mp hcall.1
    obtain ⟨hanswer, hstore, -⟩ := psReadFiles_spec key h hdata hcall.2.2
    rw [step, ifOpen, hdata]
    simp [hanswer, hstore, mapStep, State.Faithful, hdata, some.injEq]
  | write key val =>
    obtain ⟨data, hdata⟩ := ne_none_iff_exists'.mp hcall.1
    obtain ⟨hanswer, hstore, -⟩ := psWriteFiles_spec val h hdata hcall.2
    rw [step, ifOpen, hdata]
    simp only [hanswer, hstore, mapStep, true_and, State.Faithful, hdata, some.injEq, forall_eq']
    rw [(update_injective s.store key).eq_iff, write_eq_iff]
  | destroy key =>
    obtain ⟨data, hdata⟩ := ne_none_iff_exists'.mp hcall.1
    obtain ⟨hanswer, hstore, -⟩ := psDestroyFiles_spec h hdata hcall.2
    rw [step, ifOpen, hdata]
    simp only [hanswer, hstore, mapStep, true_and, State.Faithful, hdata, some.injEq, forall_eq']
    rw [(update_injective s.store key).eq_iff]
    split_ifs with hfd <;> simp [hfd]

end Step

/-! ### Runs -/

/-- **The files are a map along every run of calls on valid ids that are faithful.** The handler is not open before the
run, and there may be files already. -/
theorem answers_map (savePath : SavePath) (id : Bytes) (useStrictMode : Bool) (disk : Disk) (hid : GoodId savePath id)
    (calls : List Call)
    (hcalls : Along (fun s call => (step s call).2) (fun s call => s.Usable call ∧ s.Faithful call)
      ⟨savePath, none, id, useStrictMode, disk⟩ calls) :
    answers step ⟨savePath, none, id, useStrictMode, disk⟩ calls =
      answers mapStep (store ⟨savePath, none, id, useStrictMode, disk⟩) calls := by
  have hok : State.Ok ⟨savePath, none, id, useStrictMode, disk⟩ :=
    ⟨hid, fun d hd => (nomatch hd), fun d f hd => (nomatch hd)⟩
  refine (answers_eq (R := fun s m => s.Ok ∧ s.store = m) ?_ ⟨hok, rfl⟩ hcalls).1
  rintro s m call ⟨hs, rfl⟩ ⟨husable, hfaithful⟩
  obtain ⟨hanswer, hstore⟩ := (step_refines_iff hs husable).mpr hfaithful
  exact ⟨hanswer, step_ok hs husable, hstore⟩

/-- A session `a` in `/tmp`, with no files there. -/
def fresh : State := ⟨⟨ascii "/tmp", 0⟩, none, [97], false, fun _ => none⟩

/-- The data gets longer, is read, and gets shorter. -/
theorem answers_map_fresh :
    answers step fresh [.open, .write [97] [1], .write [97] [2, 3], .read [97] [98], .write [97] [4],
    .destroy [97],
        .read [97] [98]] =
      answers mapStep fresh.store [.open, .write [97] [1], .write [97] [2, 3], .read [97] [98], .write [97] [4],
        .destroy [97], .read [97] [98]] := by
  refine answers_map ⟨ascii "/tmp", 0⟩ [97] false (fun _ => none) (by decide) _ ?_
  refine ⟨⟨trivial, trivial⟩, ⟨⟨nofun, by decide⟩, ?_⟩, ⟨⟨nofun, by decide⟩, ?_⟩, ⟨⟨nofun, by decide, by decide⟩, ?_⟩,
    ⟨⟨nofun, by decide⟩, ?_⟩, ⟨⟨nofun, by decide⟩, ?_⟩, ⟨⟨nofun, by decide, by decide⟩, ?_⟩, trivial⟩
  all_goals
    rintro data ⟨⟩
    decide

/-- One byte is written over two: the second is still there. -/
theorem not_map_shorter_write :
    answers step fresh [.open, .write [97] [1, 2], .write [97] [3], .read [97] [98]] ≠
      answers mapStep fresh.store [.open, .write [97] [1, 2], .write [97] [3], .read [97] [98]] := by
  decide

end PhpSandbox.Session.Files
