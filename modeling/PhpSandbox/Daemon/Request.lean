import PhpSandbox.Daemon.Response
import PhpSandbox.Daemon.UrlAllow
import PhpSandbox.Sandbox.Query

/-!
# Requests to the daemon

`parse_request` (`ext/daemon/daemon.c`) writes a request: a header that says who
asks for what, an empty line, and the data of the request, in the lines that
`php_parse_response` reads. Scripts reach it through the functions of `Call`.

## The model

`ReqBuffer` is `req_str` with `req_len`, which `REQ_APPEND` keeps below
`REQ_MAXLEN` by leaving out what does not fit, with a warning. `Caller` is what
the sandbox knows of the application that runs: its number is only ever set from
an `int`. The values of the data are those scripts can pass here, strings and
integers.

## What is proved

`Call.send_decodes`: a request is read back as what was asked, whatever bytes the
arguments are made of.
-/

namespace PhpSandbox.Daemon

open Lib Codec Zend Sandbox EncType List Option

/-- `REQ_MAXLEN`. -/
def reqMaxlen : ℕ := 65536

/-- `req_str`, up to `req_len`. -/
structure ReqBuffer where
  /-- What is written. -/
  str : Bytes
  /-- How often the warning "request too long" was raised. -/
  warnings : ℕ
  /-- The buffer is not overrun. -/
  fits : str.length < reqMaxlen

open ReqBuffer

/-- The buffer at first. -/
def ReqBuffer.empty : ReqBuffer := ⟨[], 0, by decide⟩

/-- `REQ_APPEND`. -/
def ReqBuffer.append (req : ReqBuffer) (s : Bytes) : ReqBuffer :=
  if h : req.str.length + s.length < reqMaxlen then
    ⟨req.str ++ s, req.warnings, by rwa [length_append]⟩
  else ⟨req.str, req.warnings + 1, req.fits⟩

/-- A sequence of `REQ_APPEND`s. -/
def ReqBuffer.appendAll (req : ReqBuffer) (ss : List Bytes) : ReqBuffer := ss.foldl append req

/-- A value of the data. -/
inductive Zval where
  /-- A string. -/
  | str (s : Bytes)
  /-- An integer. -/
  | long (n : ℤ)

/-- `convert_to_string`. -/
def Zval.convertToString : Zval → Bytes
  | .str s => s
  | .long n => ltostr n

/-- An array of data. -/
abbrev RequestData := List (ArrayKey × Zval)

/-- `add_assoc_stringl` and `add_assoc_long`. -/
def addAssoc (data : RequestData) (key : String) (value : Zval) : RequestData :=
  update data (symtableKey (ascii key)) value

/-- The warnings before `parse_request_data` and `parse_post_params` give up. -/
inductive RequestWarning where
  /-- A key with a character that is not `IS_KEY_CHAR`. -/
  | badKey (key : Bytes)
  /-- An integer key. -/
  | numericKey

/-- The text of a warning. -/
def RequestWarning.message : RequestWarning → Bytes
  | .badKey key =>
    ascii "array key of data should be [a-zA-Z0-9_-]+ (" ++ key.takeWhile (· != 0) ++ ascii " given)"
  | .numericKey => ascii "array key of data should be string (NOT number)"

/-- The check that both loops make of a key. -/
def checkKey : ArrayKey → Except RequestWarning Bytes
  | .name key => if key.all isKeyChar then .ok key else .error (.badKey key)
  | .index _ => .error .numericKey

/-- `parse_request_data`. -/
def parseRequestData (req : ReqBuffer) : RequestData → Except RequestWarning ReqBuffer
  | [] => .ok req
  | (k, value) :: data =>
    match checkKey k with
    | .error w => .error w
    | .ok key =>
      parseRequestData
        (req.appendAll [key, ascii ":b:", phpBase64Encode value.convertToString, ascii "\n"]) data

/-- `parse_post_params`, from an entry that is the `first` or not. -/
def parsePostParams (req : ReqBuffer) (first : Bool) : RequestData → Except RequestWarning ReqBuffer
  | [] => .ok req
  | (k, value) :: data =>
    let req := if first then req else req.append (ascii "&")
    match checkKey k with
    | .error w => .error w
    | .ok key =>
      parsePostParams (req.appendAll [key, ascii "=", phpUrlEncode value.convertToString]) false data

/-- What the sandbox knows of the application that runs. -/
structure Caller where
  /-- `SANDBOX_G(appid)`, which is set from an `int` only. -/
  appid : Int32
  /-- `SANDBOX_G(appname)`, if it is not `NULL`. -/
  appname : Option Bytes
  /-- The name is a C string. -/
  appname_text : ∀ name ∈ appname, 0 ∉ name

/-- `get_appid_from_request_data`. -/
def getAppidFromRequestData (data : RequestData) : ℤ :=
  match find data (.name (ascii "appid")) with
  | some (.long n) => n
  | _ => 0

/-- `get_appname_from_request_data`, as the C string it is used as. -/
def getAppnameFromRequestData (data : RequestData) : Option Bytes :=
  match find data (.name (ascii "appname")) with
  | some (.str s) => some (s.takeWhile (· != 0))
  | _ => none

variable (caller : Caller) (req : Option RequestData)

/-- The `appid` that `parse_request` writes. -/
def requestAppid : ℤ :=
  let appid :=
    match req with
    | some data => if caller.appid.toInt = 0 then getAppidFromRequestData data else caller.appid.toInt
    | none => caller.appid.toInt
  if appid < 0 then 0 else appid

/-- The `appname` that `parse_request` writes. -/
def requestAppname : Bytes :=
  let appname :=
    match req with
    | some data =>
      if requestAppid caller req = 0 then getAppnameFromRequestData data else caller.appname
    | none => caller.appname
  match appname with
  | some (c :: name) => c :: name
  | _ => ascii "unknown"

/-- The appends of `parse_request` up to the empty line. -/
def headerPieces (method action : Bytes) (req : Option RequestData) : List Bytes :=
  [ascii "method:p:", method, ascii "\n", ascii "action:p:", action, ascii "\n",
    ascii "appid:p:", ltostr (requestAppid caller req), ascii "\n",
    ascii "appname:b:", phpBase64Encode (requestAppname caller req), ascii "\n\n"]

/-- `parse_request`. -/
def parseRequest (method action : Bytes) (req : Option RequestData) : Except RequestWarning ReqBuffer :=
  let reqStr := empty.appendAll (headerPieces caller method action req)
  match req with
  | none => .ok reqStr
  | some data => parseRequestData reqStr data

/-! ### The entry points -/

/-- A call of a function that sends a request. -/
inductive Call where
  | installPlugin (pluginName remoteFilename : Bytes)
  | removePlugin (pluginName : Bytes)
  | installTheme (themeName remoteFilename : Bytes)
  | removeTheme (themeName : Bytes)
  | sendmail (target subject content : Bytes)
  | set3rdpartyDomain (domain : Bytes) (isSsl : Bool)
  | installSslKey (domain : Bytes)
  | httpGet (url : Bytes)
  | httpPost (url : Bytes) (postData : Option RequestData)

namespace Call

/-- The `method` of a call. -/
def method : Call → Bytes
  | installPlugin .. | removePlugin .. | installTheme .. | removeTheme .. | sendmail .. =>
    ascii "async-callback"
  | set3rdpartyDomain .. | installSslKey .. | httpGet .. | httpPost .. => ascii "sync"

/-- The `action` of a call. -/
def action : Call → Bytes
  | installPlugin .. => ascii "install-plugin"
  | removePlugin .. => ascii "remove-plugin"
  | installTheme .. => ascii "install-theme"
  | removeTheme .. => ascii "remove-theme"
  | sendmail .. => ascii "sendmail"
  | set3rdpartyDomain .. => ascii "set-3rdparty-domain"
  | installSslKey .. => ascii "install-ssl-key"
  | httpGet .. => ascii "http-get"
  | httpPost .. => ascii "http-post"

/-- The `data` of a call. -/
def data : Call → RequestData
  | installPlugin plugin filename =>
    addAssoc (addAssoc [] "plugin-name" (.str plugin)) "remote-filename" (.str filename)
  | removePlugin plugin => addAssoc [] "plugin-name" (.str plugin)
  | installTheme theme filename =>
    addAssoc (addAssoc [] "theme-name" (.str theme)) "remote-filename" (.str filename)
  | removeTheme theme => addAssoc [] "theme-name" (.str theme)
  | sendmail target subject content =>
    addAssoc (addAssoc (addAssoc [] "target" (.str target)) "subject" (.str subject)) "content" (.str content)
  | set3rdpartyDomain domain isSsl =>
    addAssoc (addAssoc [] "domain" (.str domain)) "is_ssl" (.long (if isSsl then 1 else 0))
  | installSslKey domain => addAssoc [] "domain" (.str domain)
  | httpGet url => addAssoc [] "url" (.str url)
  | httpPost url none => addAssoc [] "url" (.str url)
  | httpPost url (some postData) =>
    match parsePostParams .empty true postData with
    | .ok body =>
      if 0 < body.str.length then addAssoc (addAssoc [] "url" (.str url)) "body" (.str body.str)
      else addAssoc [] "url" (.str url)
    | .error _ => addAssoc [] "url" (.str url)

/-- The URL that `ASSERT_ALLOW_URL` checks. -/
def checkedUrl : Call → Option Bytes
  | httpGet url | httpPost url _ => some url
  | _ => none

end Call

/-- `ASSERT_ALLOW_URL`: the URL, as a C string, begins with the application's root or is
allowed by the list of hosts. -/
def assertAllowUrl (root : Option Bytes) (allowedHosts url : Bytes) : Except Fault Bool :=
  let url := url.takeWhile (· != 0)
  match root with
  | some root => if strstr root url = some 0 then .ok true else isUrlAllowed allowedHosts url
  | none => isUrlAllowed allowedHosts url

/-- What becomes of a call. -/
inductive SendOutcome where
  /-- "URL %s is not allowed to be accessed". -/
  | refused
  /-- The check of the URL faults. -/
  | fault
  /-- `parse_request` gives up. -/
  | failed (w : RequestWarning)
  /-- `php_request_daemon` sends the request. -/
  | sent (req : ReqBuffer)

/-- A call, up to the request that `php_request_daemon` sends for it. -/
def Call.send (root : Option Bytes) (allowedHosts : Bytes) (caller : Caller) (call : Call) : SendOutcome :=
  let allowed :=
    match call.checkedUrl with
    | some url => assertAllowUrl root allowedHosts url
    | none => .ok true
  match allowed with
  | .error _ => .fault
  | .ok false => .refused
  | .ok true =>
    match parseRequest caller call.method call.action (some call.data) with
    | .error w => .failed w
    | .ok req => .sent req

/-! ### What a call asks for -/

/-- A field of a form. -/
def formField : ArrayKey × Zval → Option Bytes
  | (.name key, value) =>
    if key.all isKeyChar then some (key ++ 61 :: phpUrlEncode value.convertToString) else none
  | (.index _, _) => none

/-- The fields of a form, if its keys can be written. -/
def formFields : RequestData → Option (List Bytes)
  | [] => some []
  | d :: postData =>
    match formField d, formFields postData with
    | some pair, some pairs => some (pair :: pairs)
    | _, _ => none

/-- The text of a form, if its keys can be written. -/
def formBody (postData : RequestData) : Option Bytes := (formFields postData).map ([38].intercalate ·)

/-- The fields of a call: the names the call fixes, with its arguments. -/
def Call.fields : Call → List (Bytes × Bytes)
  | installPlugin plugin filename => [(ascii "plugin-name", plugin), (ascii "remote-filename", filename)]
  | removePlugin plugin => [(ascii "plugin-name", plugin)]
  | installTheme theme filename => [(ascii "theme-name", theme), (ascii "remote-filename", filename)]
  | removeTheme theme => [(ascii "theme-name", theme)]
  | sendmail target subject content =>
    [(ascii "target", target), (ascii "subject", subject), (ascii "content", content)]
  | set3rdpartyDomain domain isSsl =>
    [(ascii "domain", domain), (ascii "is_ssl", if isSsl then ascii "1" else ascii "0")]
  | installSslKey domain => [(ascii "domain", domain)]
  | httpGet url => [(ascii "url", url)]
  | httpPost url none => [(ascii "url", url)]
  | httpPost url (some postData) =>
    match formBody postData with
    | some (c :: body) => [(ascii "url", url), (ascii "body", c :: body)]
    | _ => [(ascii "url", url)]

/-- The name an application goes by. -/
def Caller.name (caller : Caller) : Bytes :=
  match caller.appname with
  | some (c :: name) => c :: name
  | _ => ascii "unknown"

/-- The header of a call's request. -/
def Call.header (call : Call) : List (Bytes × Bytes) :=
  [(ascii "method", call.method), (ascii "action", call.action),
    (ascii "appid", ltostr caller.appid.toInt), (ascii "appname", caller.name)]

/-- The lines of a call's data. -/
def dataLines (fs : List (Bytes × Bytes)) : Bytes := fs.flatMap fun f => fieldLine f.1 .b f.2

/-- The request of a call in full. -/
def Call.text (call : Call) : Bytes :=
  fieldLine (ascii "method") .p call.method ++ fieldLine (ascii "action") .p call.action ++
    fieldLine (ascii "appid") .p (ltostr caller.appid.toInt) ++
    fieldLine (ascii "appname") .b caller.name ++ 10 :: dataLines call.fields

/-- The part of a text before its first empty line and the part after it, from the start of
a line or from the middle of one. -/
def splitAtEmptyLine (lineStart : Bool) : Bytes → Option (Bytes × Bytes)
  | [] => none
  | c :: s =>
    if c = 10 then
      if lineStart then some ([], s)
      else (splitAtEmptyLine true s).map fun (before, after) => (c :: before, after)
    else (splitAtEmptyLine false s).map fun (before, after) => (c :: before, after)

/-! ### Appending without loss -/

/-- Pieces that fit are all appended. -/
theorem ReqBuffer.appendAll_str (req : ReqBuffer) (ss : List Bytes)
    (h : (req.str ++ ss.flatten).length < reqMaxlen) : (req.appendAll ss).str = req.str ++ ss.flatten := by
  induction ss generalizing req with
  | nil => simp [appendAll]
  | cons s ss ih =>
    rw [flatten_cons, ← append_assoc] at h ⊢
    have hs : req.str.length + s.length < reqMaxlen := by
      rw [length_append, length_append] at h
      omega
    have happ : (req.append s).str = req.str ++ s := by rw [append, dif_pos hs]
    rw [← happ] at h ⊢
    exact ih (req.append s) h

theorem checkKey_name {key : Bytes} (h : key.all isKeyChar) : checkKey (.name key) = .ok key := by
  rw [checkKey, if_pos h]

theorem dataLines_cons (key value : Bytes) (fs : List (Bytes × Bytes)) :
    dataLines ((key, value) :: fs) = fieldLine key .b value ++ dataLines fs := rfl

variable {fs : List (Bytes × Bytes)}

/-- The data of a request is written in full when it fits. -/
theorem parseRequestData_of_fits (hkeys : ∀ f ∈ fs, f.1.all isKeyChar) {req : ReqBuffer} {data : RequestData}
    (hdata : (data.map fun d => (d.1, d.2.convertToString)) = fs.map fun f => (.name f.1, f.2))
    (h : (req.str ++ dataLines fs).length < reqMaxlen) :
    ∃ req', parseRequestData req data = .ok req' ∧ req'.str = req.str ++ dataLines fs := by
  induction fs generalizing req data with
  | nil =>
    obtain rfl : data = [] := by simpa using hdata
    exact ⟨req, rfl, (append_nil _).symm⟩
  | cons f fs ih =>
    obtain ⟨key, value⟩ := f
    match data with
    | [] => simp at hdata
    | (k, v) :: data =>
      obtain ⟨hd, htail⟩ := List.cons.inj hdata
      obtain ⟨rfl, rfl⟩ : k = .name key ∧ v.convertToString = value := Prod.mk.inj hd
      have hline : [key, ascii ":b:", phpBase64Encode v.convertToString, ascii "\n"].flatten =
          fieldLine key .b v.convertToString := by
        simp [fieldLine, enc, char, ascii]
      rw [dataLines_cons, ← append_assoc] at h ⊢
      have hstr := req.appendAll_str [key, ascii ":b:", phpBase64Encode v.convertToString, ascii "\n"]
        (by rw [hline]; rw [length_append] at h; omega)
      rw [hline] at hstr
      rw [← hstr] at h ⊢
      rw [parseRequestData, checkKey_name (hkeys _ (mem_cons_self ..))]
      exact ih (fun g hg => hkeys g (mem_cons_of_mem _ hg)) htail h

/-! ### Forms -/

theorem formField_eq_none_iff (d : ArrayKey × Zval) : formField d = none ↔ ∃ w, checkKey d.1 = .error w := by
  obtain ⟨k, v⟩ := d
  cases k with
  | index n => exact ⟨fun _ => ⟨_, rfl⟩, fun _ => rfl⟩
  | name key => by_cases h : key.all isKeyChar <;> simp [formField, checkKey, h]

variable {d : ArrayKey × Zval}

theorem formField_eq_some {pair : Bytes} (h : formField d = some pair) :
    ∃ key, checkKey d.1 = .ok key ∧ pair = key ++ 61 :: phpUrlEncode d.2.convertToString := by
  obtain ⟨k, v⟩ := d
  cases k with
  | index n => cases h
  | name key =>
    by_cases hk : key.all isKeyChar
    · rw [formField, if_pos hk] at h
      exact ⟨key, checkKey_name hk, (some.inj h).symm⟩
    · rw [formField, if_neg hk] at h
      cases h

variable {postData : RequestData}

theorem formFields_cons_eq_some {pairs : List Bytes} (h : formFields (d :: postData) = some pairs) :
    ∃ pair rest, formField d = some pair ∧ formFields postData = some rest ∧ pairs = pair :: rest := by
  rw [formFields] at h
  split at h
  · next pair rest hpair hrest => exact ⟨pair, rest, hpair, hrest, (some.inj h).symm⟩
  · cases h

/-- The loop, at an entry whose key can be written. -/
theorem parsePostParams_cons {k : ArrayKey} {key : Bytes} (hk : checkKey k = .ok key) (v : Zval)
    (req : ReqBuffer) (first : Bool) (postData : RequestData) :
    parsePostParams req first ((k, v) :: postData) =
      parsePostParams (req.appendAll ((if first then [] else [ascii "&"]) ++
        [key, ascii "=", phpUrlEncode v.convertToString])) false postData := by
  rw [parsePostParams, hk]
  cases first <;> simp [appendAll]

/-- A form with a key that cannot be written is given up, whatever fits. -/
theorem parsePostParams_of_bad_key (h : formFields postData = none) (req : ReqBuffer) (first : Bool) :
    ∃ w, parsePostParams req first postData = .error w := by
  induction postData generalizing req first with
  | nil => cases h
  | cons d postData ih =>
    obtain ⟨k, v⟩ := d
    cases hf : formField (k, v) with
    | none =>
      obtain ⟨w, hw⟩ := (formField_eq_none_iff _).mp hf
      exact ⟨w, by rw [parsePostParams]; simp only [hw]⟩
    | some pair =>
      obtain ⟨key, hk, -⟩ := formField_eq_some hf
      have htail : formFields postData = none := by
        rw [formFields, hf] at h
        split at h
        · cases h
        · next hno => exact eq_none_iff_forall_ne_some.mpr fun ps hps => hno pair ps rfl hps
      rw [parsePostParams_cons hk]
      exact ih htail _ _

/-- A field that fits is written. -/
theorem appendAll_field (sep : List Bytes) (key enc : Bytes) (req : ReqBuffer)
    (h : (req.str ++ (sep.flatten ++ (key ++ 61 :: enc))).length < reqMaxlen) :
    (req.appendAll (sep ++ [key, ascii "=", enc])).str = req.str ++ (sep.flatten ++ (key ++ 61 :: enc)) := by
  have hflat : (sep ++ [key, ascii "=", enc]).flatten = sep.flatten ++ (key ++ 61 :: enc) := by
    simp [ascii]
  rw [← hflat] at h ⊢
  exact req.appendAll_str _ h

/-- A form that fits is written in full: each field after the first with the `&` before it. -/
theorem parsePostParams_of_fits {pairs : List Bytes} (hpairs : formFields postData = some pairs) {req : ReqBuffer}
    (h : (req.str ++ pairs.flatMap (38 :: ·)).length < reqMaxlen) :
    ∃ req', parsePostParams req false postData = .ok req' ∧
      req'.str = req.str ++ pairs.flatMap (38 :: ·) := by
  induction postData generalizing req pairs with
  | nil =>
    obtain rfl : [] = pairs := some.inj hpairs
    exact ⟨req, rfl, (append_nil _).symm⟩
  | cons d postData ih =>
    obtain ⟨k, v⟩ := d
    obtain ⟨pair, rest, hpair, hrest, rfl⟩ := formFields_cons_eq_some hpairs
    obtain ⟨key, hk, rfl⟩ := formField_eq_some hpair
    rw [flatMap_cons, ← append_assoc] at h ⊢
    have hstr := appendAll_field [ascii "&"] key (phpUrlEncode v.convertToString) req
      (by rw [length_append] at h; exact Nat.lt_of_le_of_lt (Nat.le_add_right ..) h)
    rw [parsePostParams_cons hk]
    have h38 : [ascii "&"].flatten ++ (key ++ 61 :: phpUrlEncode v.convertToString) =
        38 :: (key ++ 61 :: phpUrlEncode v.convertToString) := rfl
    rw [h38] at hstr
    rw [← hstr] at h ⊢
    exact ih hrest h

theorem intercalate_cons_eq (pair : Bytes) (pairs : List Bytes) :
    [38].intercalate (pair :: pairs) = pair ++ pairs.flatMap (38 :: ·) := by
  induction pairs generalizing pair with
  | nil => simp
  | cons pair' pairs ih => rw [intercalate_cons_cons, ih, flatMap_cons]; simp

/-- The body of a form that fits. -/
theorem parsePostParams_formBody {body : Bytes} (hbody : formBody postData = some body) (h : body.length < reqMaxlen) :
    ∃ req, parsePostParams .empty true postData = .ok req ∧ req.str = body := by
  obtain ⟨pairs, hpairs, rfl⟩ := map_eq_some_iff.mp hbody
  cases postData with
  | nil =>
    obtain rfl : [] = pairs := some.inj hpairs
    exact ⟨.empty, rfl, rfl⟩
  | cons d postData =>
    obtain ⟨k, v⟩ := d
    obtain ⟨pair, rest, hpair, hrest, rfl⟩ := formFields_cons_eq_some hpairs
    obtain ⟨key, hk, rfl⟩ := formField_eq_some hpair
    rw [intercalate_cons_eq] at h ⊢
    have hstr := appendAll_field [] key (phpUrlEncode v.convertToString) .empty
      (by rw [length_append] at h; exact Nat.lt_of_le_of_lt (Nat.le_add_right ..) h)
    have hnil : empty.str ++ (([] : List Bytes).flatten ++ (key ++ 61 :: phpUrlEncode v.convertToString)) =
        key ++ 61 :: phpUrlEncode v.convertToString := rfl
    rw [hnil] at hstr
    rw [parsePostParams_cons hk]
    rw [← hstr] at h ⊢
    exact parsePostParams_of_fits hrest h

/-! ### The request of a call -/

/-- A field is no longer than the line it is written on. -/
theorem length_le_dataLines {f : Bytes × Bytes} (hf : f ∈ fs) : f.2.length ≤ (dataLines fs).length := by
  have henc := length_le_phpBase64Encode f.2
  have hline : fieldLine f.1 .b f.2 <+ dataLines fs := sublist_flatten_of_mem (mem_map_of_mem hf)
  have hle := hline.length_le
  simp only [fieldLine, enc, length_append, length_cons] at hle
  omega

variable (call : Call)

/-- The data of a call holds its fields. -/
theorem Call.data_eq_fields (h : (dataLines call.fields).length < reqMaxlen) :
    (call.data.map fun d => (d.1, d.2.convertToString)) = call.fields.map fun f => (.name f.1, f.2) := by
  match call with
  | installPlugin .. | removePlugin .. | installTheme .. | removeTheme .. | sendmail .. => rfl
  | installSslKey .. | httpGet .. | httpPost _ none => rfl
  | set3rdpartyDomain _ isSsl => cases isSsl <;> rfl
  | httpPost url (some postData) =>
    match hbody : formBody postData with
    | none =>
      obtain ⟨w, hw⟩ := parsePostParams_of_bad_key (map_eq_none_iff.mp hbody) .empty true
      simp only [data, hw, fields, hbody]
      rfl
    | some [] =>
      obtain ⟨req, hreq, hstr⟩ := parsePostParams_formBody hbody (by decide)
      simp only [data, hreq, hstr, fields, hbody]
      rfl
    | some (c :: body) =>
      simp only [fields, hbody] at h
      have hlen : (c :: body).length < reqMaxlen :=
        Nat.lt_of_le_of_lt (length_le_dataLines (f := (ascii "body", c :: body)) (by simp)) h
      obtain ⟨req, hreq, hstr⟩ := parsePostParams_formBody hbody hlen
      simp only [data, hreq, hstr, fields, hbody]
      rfl

theorem Call.fields_keys : ∀ f ∈ call.fields, f.1.all isKeyChar ∧ f.1 ≠ [] := by
  match call with
  | installPlugin .. | removePlugin .. | installTheme .. | removeTheme .. | sendmail .. =>
    simp only [fields, forall_mem_cons]
    decide
  | installSslKey .. | httpGet .. | httpPost _ none | set3rdpartyDomain .. =>
    simp only [fields, forall_mem_cons]
    decide
  | httpPost url (some postData) =>
    simp only [fields]
    split <;> simp only [forall_mem_cons] <;> decide

section Text

variable {caller : Caller} {call : Call} (hpos : 0 < caller.appid.toInt)

include hpos

theorem requestAppid_of_pos (data : RequestData) : requestAppid caller (some data) = caller.appid.toInt := by
  have hne : caller.appid.toInt ≠ 0 := by omega
  have hge : ¬ caller.appid.toInt < 0 := by omega
  simp only [requestAppid, if_neg hne, if_neg hge]

theorem requestAppname_of_pos (data : RequestData) : requestAppname caller (some data) = caller.name := by
  have hne : caller.appid.toInt ≠ 0 := by omega
  simp only [requestAppname, requestAppid_of_pos hpos, if_neg hne, Caller.name]

/-- **The request is written in full**: an application's own number and name, the call's
method and action, and its fields. -/
theorem parseRequest_text (hlen : (call.text caller).length < reqMaxlen) :
    ∃ req, parseRequest caller call.method call.action (some call.data) = .ok req ∧
      req.str = call.text caller := by
  have hheader : (headerPieces caller call.method call.action (some call.data)).flatten ++
      dataLines call.fields = call.text caller := by
    rw [headerPieces, requestAppid_of_pos hpos, requestAppname_of_pos hpos]
    simp [Call.text, fieldLine, enc, char, ascii]
  rw [← hheader, length_append] at hlen
  have hstr := empty.appendAll_str (headerPieces caller call.method call.action (some call.data))
    (Nat.lt_of_le_of_lt (Nat.le_add_right ..) hlen)
  have hfit : ((empty.appendAll
      (headerPieces caller call.method call.action (some call.data))).str ++
        dataLines call.fields).length < reqMaxlen := by
    rw [hstr, length_append]
    exact hlen
  obtain ⟨req, hreq, hreqstr⟩ := parseRequestData_of_fits (fun f hf => (call.fields_keys f hf).1)
    (call.data_eq_fields (by omega)) hfit
  refine ⟨req, hreq, ?_⟩
  rw [hreqstr, hstr, ← hheader]
  rfl

end Text

/-! ### Reading a request back -/

/-- A line that is not empty stays before the split. -/
theorem splitAtEmptyLine_line {l : Bytes} (hl : 10 ∉ l) (s : Bytes) {lineStart : Bool}
    (hne : l ≠ [] ∨ lineStart = false) :
    splitAtEmptyLine lineStart (l ++ 10 :: s) =
      (splitAtEmptyLine true s).map fun (before, after) => (l ++ 10 :: before, after) := by
  induction l generalizing lineStart with
  | nil =>
    obtain rfl := hne.resolve_left (· rfl)
    rfl
  | cons c l ih =>
    obtain ⟨hc, hl⟩ := not_or.mp (mt mem_cons.mpr hl)
    rw [cons_append, splitAtEmptyLine, if_neg (Ne.symm hc), ih hl (.inr rfl), Option.map_map]
    rfl

/-- A record is a line of its own, and not an empty one. -/
theorem Record.line_eq (r : Record) : ∃ l, r.line = l ++ [10] ∧ l ≠ [] ∧ 10 ∉ l := by
  refine ⟨r.key ++ 58 :: r.type.char :: 58 :: r.enc, by simp [line, fieldLine, enc], by simp, ?_⟩
  have htype : r.type.char ≠ 10 := by cases r.type <;> decide
  simp only [mem_append, mem_cons, not_or]
  refine ⟨fun h => ?_, by decide, htype.symm, by decide, fun h => ?_⟩
  · exact absurd (all_eq_true.mp r.key_chars 10 h) (by decide)
  · exact absurd (enc_chars r 10 h) (by decide)

/-- The first empty line of a text of records and more is the one after the records. -/
theorem splitAtEmptyLine_records (rs : List Record) (data : Bytes) :
    splitAtEmptyLine true (encodeRecords rs ++ 10 :: data) = some (encodeRecords rs, data) := by
  induction rs with
  | nil => rfl
  | cons r rs ih =>
    obtain ⟨l, hline, hne, hl⟩ := r.line_eq
    rw [encodeRecords_cons, hline, append_assoc, append_assoc, singleton_append,
      splitAtEmptyLine_line hl _ (.inl hne), ih]
    simp

/-- Records that are not URL-encoded are all read. -/
theorem phpParseResponse_of_no_url {rs : List Record} (hne : rs ≠ []) (h : ∀ r ∈ rs, r.type ≠ .u) :
    phpParseResponse (encodeRecords rs) = .parsed (arrayOf (fields rs)) := by
  have hsurvive : ∀ rs : List Record, (∀ r ∈ rs, r.type ≠ .u) → survivors rs = rs := by
    intro rs h
    induction rs with
    | nil => rfl
    | cons r rs ih =>
      have hcut : ¬ r.CutsOff := fun hc => h r (mem_cons_self ..) hc.1
      rw [survivors, if_neg hcut, ih fun q hq => h q (mem_cons_of_mem _ hq)]
  obtain ⟨r, rs, rfl⟩ := exists_cons_of_ne_nil hne
  rw [phpParseResponse_encode, hsurvive _ h]

/-- The lines of a call's data are records. -/
theorem exists_dataRecords (hkeys : ∀ f ∈ fs, f.1.all isKeyChar ∧ f.1 ≠ []) :
    ∃ rs, fields rs = fs ∧ encodeRecords rs = dataLines fs ∧ ∀ r ∈ rs, r.type ≠ .u := by
  induction fs with
  | nil => exact ⟨[], rfl, rfl, by simp⟩
  | cons f fs ih =>
    obtain ⟨rs, hfields, henc, htype⟩ := ih fun g hg => hkeys g (mem_cons_of_mem _ hg)
    obtain ⟨hkey, hne⟩ := hkeys f (mem_cons_self ..)
    refine ⟨⟨f.1, .b, f.2, hne, hkey, nofun⟩ :: rs, ?_, ?_, ?_⟩
    · rw [← hfields]
      rfl
    · rw [encodeRecords_cons, henc]
      rfl
    · exact forall_mem_cons.mpr ⟨nofun, htype⟩

theorem ltostr_chars (n : ℤ) : (ltostr n).all isValueChar := by
  refine all_eq_true.mpr fun c hc => ?_
  have hchars : ∀ c : UInt8, c = 45 ∨ 48 ≤ c.toNat ∧ c.toNat ≤ 57 → isValueChar c :=
    forall_uint8 (by decide +kernel)
  exact hchars c (mem_ltostr hc)

theorem Call.method_chars : call.method.all isValueChar := by
  cases call <;> simp only [method] <;> decide

theorem Call.action_chars : call.action.all isValueChar := by
  cases call <;> simp only [action] <;> decide

/-- The records of a call's header. -/
def Call.headerRecords (caller : Caller) (call : Call) : List Record :=
  [⟨ascii "method", .p, call.method, by decide, by decide, fun _ => call.method_chars⟩,
    ⟨ascii "action", .p, call.action, by decide, by decide, fun _ => call.action_chars⟩,
    ⟨ascii "appid", .p, ltostr caller.appid.toInt, by decide, by decide, fun _ => ltostr_chars _⟩,
    ⟨ascii "appname", .b, caller.name, by decide, by decide, nofun⟩]

theorem Call.text_eq (caller : Caller) (call : Call) :
    call.text caller = encodeRecords (call.headerRecords caller) ++ 10 :: dataLines call.fields := by
  simp [text, headerRecords, encodeRecords, Record.line]

/-- The field names of a call are kept as they are, in order. -/
theorem Call.arrayOf_fields : arrayOf call.fields = call.fields.map fun f => (.name f.1, f.2) := by
  match call with
  | installPlugin .. | removePlugin .. | installTheme .. | removeTheme .. | sendmail .. => rfl
  | installSslKey .. | httpGet .. | httpPost _ none | set3rdpartyDomain .. => rfl
  | httpPost url (some postData) =>
    simp only [fields]
    split <;> rfl

theorem Call.fields_ne_nil : call.fields ≠ [] := by
  match call with
  | installPlugin .. | removePlugin .. | installTheme .. | removeTheme .. | sendmail .. => nofun
  | installSslKey .. | httpGet .. | httpPost _ none | set3rdpartyDomain .. => nofun
  | httpPost url (some postData) =>
    simp only [fields]
    split <;> nofun

/-- **A request says what was asked**: for an application's call that passes the check of its
URL and whose request fits, the request that is sent, split at its first empty line, reads
back as the call's method and action with the application's own number and name, and the
call's field names with its arguments. -/
theorem Call.send_decodes (root : Option Bytes) (allowedHosts : Bytes) (caller : Caller) (call : Call)
    (hpos : 0 < caller.appid.toInt)
    (hurl : ∀ url ∈ call.checkedUrl, assertAllowUrl root allowedHosts url = .ok true)
    (hlen : (call.text caller).length < reqMaxlen) :
    ∃ req header data, call.send root allowedHosts caller = .sent req ∧
      splitAtEmptyLine true req.str = some (header, data) ∧
      phpParseResponse header = .parsed ((call.header caller).map fun f => (.name f.1, f.2)) ∧
      phpParseResponse data = .parsed (call.fields.map fun f => (.name f.1, f.2)) := by
  obtain ⟨req, hreq, hstr⟩ := parseRequest_text hpos hlen
  obtain ⟨rs, hfields, henc, htype⟩ := exists_dataRecords call.fields_keys
  refine ⟨req, encodeRecords (call.headerRecords caller), dataLines call.fields, ?_, ?_, ?_, ?_⟩
  · rw [send]
    cases hchecked : call.checkedUrl with
    | none => simp only [hreq]
    | some url => simp only [hurl url hchecked, hreq]
  · rw [hstr, call.text_eq caller, splitAtEmptyLine_records]
  · rw [phpParseResponse_of_no_url (by simp [headerRecords])]
    · rfl
    · simp [headerRecords]
  · have hne : rs ≠ [] := by
      rintro rfl
      exact call.fields_ne_nil hfields.symm
    rw [← henc, phpParseResponse_of_no_url hne htype, hfields, arrayOf_fields]

/-- An application. -/
def blogCaller : Caller := ⟨7, some (ascii "blog"), by decide⟩

/-- A form with a newline in a value, to a URL with a header line in it. -/
def formCall : Call :=
  .httpPost (ascii "http://a/?\nappid:p:1\n") (some [(.name (ascii "k"), .str (ascii "v\n"))])

/-- The newline and the header line stay what they are, parts of values. -/
theorem Call.send_decodes_form :
    ∃ req header data, formCall.send (some (ascii "http://a/")) [] blogCaller = .sent req ∧
      splitAtEmptyLine true req.str = some (header, data) ∧
      phpParseResponse header = .parsed
        [(.name (ascii "method"), ascii "sync"), (.name (ascii "action"), ascii "http-post"),
          (.name (ascii "appid"), ascii "7"), (.name (ascii "appname"), ascii "blog")] ∧
      phpParseResponse data = .parsed
        [(.name (ascii "url"), ascii "http://a/?\nappid:p:1\n"), (.name (ascii "body"), ascii "k=v%0A")] := by
  have hheader : ((formCall.header blogCaller).map fun f => (ArrayKey.name f.1, f.2)) =
      [(.name (ascii "method"), ascii "sync"), (.name (ascii "action"), ascii "http-post"),
        (.name (ascii "appid"), ascii "7"), (.name (ascii "appname"), ascii "blog")] := by decide
  have hfields : (formCall.fields.map fun f => (ArrayKey.name f.1, f.2)) =
      [(.name (ascii "url"), ascii "http://a/?\nappid:p:1\n"), (.name (ascii "body"), ascii "k=v%0A")] := by
    decide
  rw [← hheader, ← hfields]
  exact send_decodes (some (ascii "http://a/")) [] blogCaller formCall (by decide) (by decide +kernel)
    (by decide +kernel)

end PhpSandbox.Daemon
