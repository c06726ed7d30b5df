import PhpSandbox.Daemon.Request
import PhpSandbox.Ext.Effects
import PhpSandbox.Sandbox.Basedir
import PhpSandbox.Streams.PlainWrapper

/-!
# The functions that scripts can call

The 26 functions that the sandbox, blog and daemon extensions register
(`sandbox_functions`, `blog_functions` and `daemon_functions`), as programs.

## The model

The parameters of a function are what `zend_parse_parameters` makes of the
arguments: `none` if it fails. That covers any arguments, since it either fails or
gives parameters of the types asked for. `Setting` is what does not change in a
request: the settings of `php.ini`, the name of the application and the server.
`PHP_SHA1` is a function from texts to their digests, in hexadecimal.
-/

namespace PhpSandbox.Ext

open Lib Sandbox Zend Daemon

/-- What the functions read and no function changes. -/
structure Setting where
  /-- `sandbox.chroot_basedir`. -/
  chrootBasedir : Bytes
  /-- The application's name and the other settings of the sandbox. -/
  context : Streams.Context
  /-- The name is a C string. -/
  appname_text : 0 ∉ context.appname
  /-- `SERVER_NAME`, if the FastCGI request has it. -/
  serverName : Option Bytes
  /-- `blog.userdb_prefix`. -/
  userdbPrefix : Bytes
  /-- `blog.max_blogs_per_email`. -/
  maxBlogsPerEmail : Int64
  /-- `daemon.allowed_hosts`. -/
  allowedHosts : Bytes
  doSha1 : Bytes → Bytes

/-- Settings without anything configured. -/
def plainSetting : Setting where
  chrootBasedir := []
  context := ⟨some, fun _ => true, [], [], [], []⟩
  appname_text := by decide
  serverName := none
  userdbPrefix := []
  maxBlogsPerEmail := 5
  allowedHosts := []
  doSha1 := id

/-- A return value. -/
inductive PhpValue where
  /-- `RETURN_NULL`. -/
  | null
  /-- `RETURN_BOOL`. -/
  | bool (b : Bool)
  /-- `RETURN_LONG`. -/
  | long (n : Int64)
  /-- `RETURN_STRING`. -/
  | string (s : Bytes)
  /-- An array of strings. -/
  | array (a : PhpArray)
  deriving DecidableEq

/-- `RETURN_BOOL`, of a number. -/
def returnBool (n : ℤ) : PhpValue := .bool (n ≠ 0)

/-- A warning, and `RETURN_NULL`. -/
def warnNull (text : Bytes) : Prog PhpValue := do
  raise .warning text
  return .null

/-- `ASSERT_PRIVILEGE`. -/
def assertPrivilege (body : Prog PhpValue) : Prog PhpValue := do
  let appid ← phpGetAppid
  if appid ≠ 0 then warnNull (ascii "You know it, bad boy!") else body

/-- `GET_APPID_PARAM`. -/
def getAppidParam (appid : Option Int64) (body : Int64 → Prog PhpValue) : Prog PhpValue :=
  match appid with
  | none => warnNull (ascii "bad parameter appid")
  | some appid => body appid

/-! ### Tables and fields -/

/-- The table of the databases of the applications. -/
def dbconf : Name := ⟨ascii "dbconf", by decide, by decide⟩

/-! ### `sandbox_functions` -/

section Sandbox

variable (setting : Setting)

/-- `get_appid`. -/
def getAppid : Prog PhpValue := do
  let appid ← phpGetAppid
  return .long appid.toInt64

/-- `get_appname`. -/
def getAppname : Prog PhpValue := return .string setting.context.appname

/-- `php_connect_userdb`. -/
def phpConnectUserdb (appid : Int32) : Prog Status := do
  match ← admindbFetchRow dbconf.text (ascii "id") (ltostr appid.toInt) with
  | none => return .failure
  | some (_ :: hostname :: username :: password :: dbname :: _) =>
    if ← sandboxMysqlDoConnect username password hostname dbname then return .success
    else
      raise .warning (ascii "php_connect_userdb: connect error [appid " ++ ltostr appid.toInt ++ ascii "]")
      return .failure
  | some _ => .fail .nullPointer

variable (appid : Option Int64)

/-- `connect_userdb`. -/
def connectUserdb : Prog PhpValue :=
  assertPrivilege <| getAppidParam appid fun appid => do
    let status ← phpConnectUserdb appid.toInt32
    return .bool (status = .success)

/-- `php_app_isactive`. -/
def phpAppIsactive (appid : Int32) : Prog Bool := do
  match ← admindbFetchField appinfo.text (ascii "isactive") (ascii "id") (ltostr appid.toInt) with
  | none => return false
  | some res => return res.head? = some 49

/-- `app_isactive`. -/
def appIsactive : Prog PhpValue :=
  assertPrivilege <| getAppidParam appid fun appid => do
    let active ← phpAppIsactive appid.toInt32
    return .bool active

/-- What `set_basedir` reads. -/
def Setting.basedirGlobals : BasedirGlobals :=
  ⟨setting.chrootBasedir, setting.context.chrootBasedirPeruser, setting.context.appname⟩

/-- `set_basedir`. -/
def setBasedir : Prog Status :=
  if basedirTooLong setting.basedirGlobals then .fail (.error (ascii "basedir too long"))
  else do
    let basedir ← built (buildBasedir setting.basedirGlobals)
    if ← iniSetOpenBasedir basedir then return .success
    else .fail (.error (ascii "failed to call open_basedir"))

/-- `set_appid`. -/
def setAppid : Prog PhpValue :=
  assertPrivilege <| getAppidParam appid fun appid => do
    phpSetAppid appid.toInt32
    let _ ← phpConnectUserdb appid.toInt32
    let _ ← setBasedir setting
    return .null

/-- `php_app_root_url`. -/
def phpAppRootUrl : Prog (Option Bytes) := do
  let appid ← phpGetAppid
  if appid ≤ 0 then return none
  else
    match setting.serverName with
    | none => .fail (.error (ascii "Internal error: Cannot find SERVER_NAME in FastCGI header"))
    | some serverName =>
      let url ← built (newSprintf (ascii "http://" ++ cstr serverName ++ ascii "/"))
      return some url

/-- `app_root_url`. -/
def appRootUrl : Prog PhpValue := do
  match ← phpAppRootUrl setting with
  | some url => return .string url
  | none => return .null

/-- `app_root_path`. -/
def appRootPath : Prog PhpValue :=
  match Streams.phpAppRootPath setting.context with
  | none => return .null
  | some path => do
    let path ← built (newSprintf path)
    return .string path

end Sandbox

/-! ### `blog_functions` -/

section Blog

variable (setting : Setting)

/-- The fields that `get_appinfo` returns. -/
def appinfoFields : List String :=
  ["id", "appname", "username", "email", "password", "salt", "token", "isactive", "register_time"]

/-- The `add_assoc_string`s of `get_appinfo`. -/
def addAssocStrings (returnValue : PhpArray) : List String → Row → Option PhpArray
  | [], _ => some returnValue
  | name :: names, some value :: row =>
    addAssocStrings (addAssocStringl returnValue (ascii name) (cstr value)) names row
  | _ :: _, _ => none

/-- `get_appinfo`. -/
def getAppinfo (appid : Option Int64) : Prog PhpValue :=
  assertPrivilege <| getAppidParam appid fun appid => do
    match ← admindbFetchRow appinfo.text (ascii "id") (ltostr appid.toInt) with
    | none => warnNull (ascii "appid " ++ ltostr appid.toInt32.toInt ++ ascii " not found")
    | some row =>
      match addAssocStrings [] appinfoFields row with
      | none => .fail .nullPointer
      | some returnValue => return .array returnValue

/-- The parameters of `create_app`. -/
structure CreateApp where
  /-- The name of the application. -/
  appname : Bytes
  /-- The name of its owner, -/
  username : Bytes
  /-- the owner's email address -/
  email : Bytes
  /-- and password. -/
  password : Bytes

theorem noBacktick_isactive : 96 ∉ ascii "isactive" := by decide

/-- The row of a new application. -/
def appinfoRow (p : CreateApp) (saltedPass salt token : Bytes) (now : Int64) : List (FieldName × Bytes) :=
  [(⟨ascii "appname", appnameField.noBacktick⟩, cstr p.appname), (⟨ascii "username", by decide⟩, cstr p.username),
    (⟨ascii "email", by decide⟩, cstr p.email), (⟨ascii "password", by decide⟩, saltedPass),
    (⟨ascii "salt", by decide⟩, salt), (⟨ascii "token", by decide⟩, token),
    (⟨ascii "isactive", noBacktick_isactive⟩, ascii "0"), (⟨ascii "register_time", by decide⟩, ltostr now.toInt)]

/-- The row of its database. -/
def dbconfRow (appid : Int64) (dbname dbpass : Bytes) : List (FieldName × Bytes) :=
  [(⟨ascii "id", by decide⟩, ltostr appid.toInt), (⟨ascii "hostname", by decide⟩, ascii "localhost"),
    (⟨ascii "username", by decide⟩, dbname), (⟨ascii "password", by decide⟩, dbpass),
    (⟨ascii "dbname", by decide⟩, dbname)]

/-- `SHA1_LENGTH`. -/
def sha1Length : Int32 := 40

/-- `create_app` from the database of the new application on. -/
def createUserdb (appid : Int64) : Prog PhpValue := do
  let dbname ← built (newSprintf (setting.userdbPrefix ++ ltostr appid.toInt32.toInt))
  let dbpass ← randomStrGen sha1Length
  if (← admindbInsertRow dbconf (dbconfRow appid dbname dbpass)) = .failure then
    warnNull (ascii "failed to save dbconf")
  else if (← createDatabase dbname) = .failure then
    warnNull (ascii "failed to create database")
  else if (← grantDbPrivilege dbname (ascii "localhost") dbname dbpass) = .failure then
    warnNull (ascii "failed to grant db privilege")
  else if (← phpConnectUserdb appid.toInt32) = .failure then
    warnNull (ascii "failed to connect to user database")
  else return .long appid

/-- `create_app` after its two checks. -/
def registerApp (p : CreateApp) : Prog PhpValue := do
  let salt ← randomStrGen sha1Length
  let salted ← built (newSprintf (cstr p.password ++ ascii "\n" ++ salt))
  let token ← randomStrGen 40
  let now ← time
  if (← admindbInsertRow appinfo (appinfoRow p (setting.doSha1 salted) salt token now)) = .failure then
    warnNull (ascii "failed to save appinfo")
  else
    let appid ← admindbInsertId
    createUserdb setting appid

/-- `create_app`. -/
def createApp (p : Option CreateApp) : Prog PhpValue :=
  assertPrivilege <|
    match p with
    | none => warnNull (ascii "bad parameters")
    | some p => do
      let sameName ← admindbRowCount appinfo.text (ascii "appname") (cstr p.appname)
      if 0 < sameName then warnNull (ascii "This appname has been taken")
      else
        let sameEmail ← admindbRowCount appinfo.text (ascii "email") (cstr p.email)
        if setting.maxBlogsPerEmail ≤ sameEmail then
          warnNull (ascii "Each email can register at most " ++
            ltostr setting.maxBlogsPerEmail.toInt32.toInt ++ ascii " blogs")
        else registerApp setting p

/-- What `app_activate` and `app_deactivate` have in common. -/
def setIsactive (isactive : String) (appid : Option Int64) : Prog PhpValue :=
  assertPrivilege <| getAppidParam appid fun appid => do
    let status ← admindbUpdateRow appinfo appid.toInt32 ⟨ascii "isactive", by decide⟩ (ascii isactive)
    return returnBool status.toInt

/-- `app_activate`. -/
def appActivate : Option Int64 → Prog PhpValue := setIsactive "1"

/-- `app_deactivate`. -/
def appDeactivate : Option Int64 → Prog PhpValue := setIsactive "0"

/-- `app_count`; either parameter may be left out. -/
def appCount (p : Option (Option Bytes × Option Bytes)) : Prog PhpValue :=
  assertPrivilege <|
    match p with
    | none => warnNull (ascii "bad parameters")
    | some (some field, some value) => do
      let count ← admindbRowCount appinfo.text (cstr field) (cstr value)
      return .long count
    | some _ => do
      let count ← admindbNumRows
      return .long count

/-- `get_appid_by_field`. -/
def getAppidByField (p : Option (Bytes × Bytes)) : Prog PhpValue :=
  assertPrivilege <|
    match p with
    | none => warnNull (ascii "bad parameters")
    | some (field, value) => do
      match ← admindbFetchField appinfo.text (ascii "id") (cstr field) (cstr value) with
      | none => return .long (-1)
      | some appid => return .long (atol (cstr appid))

/-- `check_email_count`. -/
def checkEmailCount (email : Option Bytes) : Prog PhpValue :=
  assertPrivilege <|
    match email with
    | none => do
      raise .warning (ascii "bad parameters")
      return .bool false
    | some email => do
      let count ← admindbRowCount appinfo.text (ascii "email") (cstr email)
      return .bool (count < setting.maxBlogsPerEmail)

/-- `random_string`. -/
def randomString (length : Option Int64) : Prog PhpValue :=
  match length with
  | none => warnNull (ascii "bad parameters")
  | some length =>
    if length ≤ 0 then return .null
    else do
      let s ← randomStrGen length.toInt32
      return .string s

end Blog

/-! ### `daemon_functions` -/

section Daemon

variable (setting : Setting)

/-- `RESPONSE_MAXLEN`. -/
def responseMaxlen : ℕ := 512000

/-- `daemon_get_response`. -/
def daemonGetResponse (reqStr : Bytes) : Prog Bytes := do
  match ← sendToDaemon reqStr with
  | .error text => .fail (.error text)
  | .ok buf =>
    if responseMaxlen ≤ buf.length then
      raise .warning (ascii "Daemon response is too long")
    return cstr (buf.take responseMaxlen)

/-- The warnings of `REQ_APPEND`. -/
def raiseTooLong : ℕ → Prog Unit
  | 0 => return ()
  | n + 1 => do
    raise .warning (ascii "request too long")
    raiseTooLong n

/-- The caller that `parse_request` names in the header. -/
def Setting.caller (appid : Int32) : Caller :=
  ⟨appid, some setting.context.appname, by simpa using setting.appname_text⟩

/-- `php_parse_response` into `return_value`, and what it returns. -/
def parseIntoReturnValue (response : Bytes) : Prog (Bool × PhpValue) :=
  match phpParseResponse response with
  | .parsed returnValue => return (true, .array returnValue)
  | .rejected returnValue w => do
    raise .warning w.message
    return (false, .array returnValue)
  | .nullValue => .fail .nullPointer

/-- `php_request_daemon`: what it returns, and `return_value`. -/
def phpRequestDaemon (method action : Bytes) (data : RequestData) : Prog (Bool × PhpValue) := do
  let appid ← phpGetAppid
  match parseRequest (setting.caller appid) method action (some data) with
  | .error w =>
    raise .warning w.message
    .fail .uninitialised
  | .ok req =>
    raiseTooLong req.warnings
    match ← daemonGetResponse req.str with
    | [] => return (true, .null)
    | 42 :: response =>
      raise .warning (ascii "Daemon returned error: " ++ 42 :: response)
      raise .warning (ascii "Original query string: " ++ cstr req.str)
      return (false, .null)
    | c :: response =>
      match ← parseIntoReturnValue (c :: response) with
      | (true, returnValue) => return (true, returnValue)
      | (false, _) =>
        raise .warning (ascii "Daemon response parse failed")
        return (false, .null)

variable (usage : String)

/-- What a function does whose parameters are wrong. -/
def wrongParameters (returnValue : PhpValue) : Prog PhpValue := do
  raise .warning (ascii "wrong parameters passed\n  Usage: " ++ ascii usage)
  return returnValue

/-- A function that returns whether its request was made. -/
def requestBool (method action : Bytes) (data : RequestData) : Prog PhpValue := do
  let (ok, _) ← phpRequestDaemon setting method action data
  return .bool ok

/-- A function that returns what the daemon replies. -/
def requestCall (call : Call) : Prog PhpValue := do
  let (_, returnValue) ← phpRequestDaemon setting call.method call.action call.data
  return returnValue

/-- `install_blog_filesystem`. -/
def installBlogFilesystem (appname : Option Bytes) : Prog PhpValue :=
  assertPrivilege <|
    match appname with
    | none => wrongParameters "install_blog_filesystem(string appname)" (.bool false)
    | some appname =>
      requestBool setting (ascii "sync") (ascii "install-blog-filesystem") (addAssoc [] "appname" (.str appname))

/-- A request that the daemon carries out later. -/
def requestLater : Option Call → Prog PhpValue
  | none => wrongParameters usage (.bool false)
  | some call => requestBool setting call.method call.action call.data

/-- A request whose reply is the return value. -/
def requestNow : Option Call → Prog PhpValue
  | none => wrongParameters usage (.bool false)
  | some call => requestCall setting call

/-- `install_plugin`. -/
def installPlugin (p : Option (Bytes × Bytes)) : Prog PhpValue :=
  requestLater setting "install_plugin(string plugin_name, string remote_filename)"
    (p.map fun (plugin, filename) => .installPlugin plugin filename)

/-- `remove_plugin`. -/
def removePlugin (p : Option Bytes) : Prog PhpValue :=
  requestLater setting "remove_plugin(string plugin_name)" (p.map .removePlugin)

/-- `install_theme`. -/
def installTheme (p : Option (Bytes × Bytes)) : Prog PhpValue :=
  requestLater setting "install_theme(string theme_name, string remote_filename)"
    (p.map fun (theme, filename) => .installTheme theme filename)

/-- `remove_theme`. -/
def removeTheme (p : Option Bytes) : Prog PhpValue :=
  requestLater setting "remove_theme(string theme_name)" (p.map .removeTheme)

/-- `sendmail`. -/
def sendmail (p : Option (Bytes × Bytes × Bytes)) : Prog PhpValue :=
  requestLater setting "sendmail(string target, string subject, string content)"
    (p.map fun (target, subject, content) => .sendmail target subject content)

/-- `set_3rdparty_domain`. -/
def set3rdpartyDomain (p : Option (Bytes × Bool)) : Prog PhpValue :=
  requestNow setting "set_3rdparty_domain(string domain, bool is_ssl)"
    (p.map fun (domain, isSsl) => .set3rdpartyDomain domain isSsl)

/-- `install_ssl_key`. -/
def installSslKey (p : Option Bytes) : Prog PhpValue :=
  requestNow setting "install_ssl_key(string domain)" (p.map .installSslKey)

/-- `ASSERT_ALLOW_URL`. -/
def assertAllowUrlOr (url : Bytes) (body : Prog PhpValue) : Prog PhpValue := do
  let root ← phpAppRootUrl setting
  match assertAllowUrl root setting.allowedHosts url with
  | .error e => .fail (.urlFault e)
  | .ok false => warnNull (ascii "URL " ++ cstr url ++ ascii " is not allowed to be accessed")
  | .ok true => body

/-- `http_get`. -/
def httpGet (url : Option Bytes) : Prog PhpValue :=
  match url with
  | none => wrongParameters "http_get(string url)" .null
  | some url => assertAllowUrlOr setting url (requestCall setting (.httpGet url))

/-- The warnings of `parse_post_params`. -/
def postParamsWarnings (postData : Option RequestData) : Prog Unit :=
  match postData with
  | none => return ()
  | some postData =>
    match parsePostParams .empty true postData with
    | .ok body => raiseTooLong body.warnings
    | .error w => raise .warning w.message

/-- `http_post`. -/
def httpPost (p : Option (Bytes × Option RequestData)) : Prog PhpValue :=
  match p with
  | none => wrongParameters "http_post(string url, string body)" .null
  | some (url, postData) =>
    assertAllowUrlOr setting url do
      postParamsWarnings postData
      requestCall setting (.httpPost url postData)

/-- `parse_response`. -/
def parseResponse (response : Option Bytes) : Prog PhpValue :=
  match response with
  | none => wrongParameters "parse_response(string response)" .null
  | some response => do
    let (_, returnValue) ← parseIntoReturnValue (cstr response)
    return returnValue

end Daemon

/-! ### The function tables -/

/-- A call of a registered function. -/
inductive Invocation where
  | getAppid
  | getAppname
  | connectUserdb (appid : Option Int64)
  | appIsactive (appid : Option Int64)
  | setAppid (appid : Option Int64)
  | appRootUrl
  | appRootPath
  | getAppinfo (appid : Option Int64)
  | createApp (p : Option CreateApp)
  | appActivate (appid : Option Int64)
  | appDeactivate (appid : Option Int64)
  | appCount (p : Option (Option Bytes × Option Bytes))
  | getAppidByField (p : Option (Bytes × Bytes))
  | checkEmailCount (email : Option Bytes)
  | randomString (length : Option Int64)
  | installBlogFilesystem (appname : Option Bytes)
  | installPlugin (p : Option (Bytes × Bytes))
  | removePlugin (p : Option Bytes)
  | installTheme (p : Option (Bytes × Bytes))
  | removeTheme (p : Option Bytes)
  | sendmail (p : Option (Bytes × Bytes × Bytes))
  | set3rdpartyDomain (p : Option (Bytes × Bool))
  | installSslKey (p : Option Bytes)
  | httpGet (url : Option Bytes)
  | httpPost (p : Option (Bytes × Option RequestData))
  | parseResponse (response : Option Bytes)

/-- The program of a call. -/
def Invocation.program (setting : Setting) : Invocation → Prog PhpValue
  | .getAppid => Ext.getAppid
  | .getAppname => Ext.getAppname setting
  | .connectUserdb appid => Ext.connectUserdb appid
  | .appIsactive appid => Ext.appIsactive appid
  | .setAppid appid => Ext.setAppid setting appid
  | .appRootUrl => Ext.appRootUrl setting
  | .appRootPath => Ext.appRootPath setting
  | .getAppinfo appid => Ext.getAppinfo appid
  | .createApp p => Ext.createApp setting p
  | .appActivate appid => Ext.appActivate appid
  | .appDeactivate appid => Ext.appDeactivate appid
  | .appCount p => Ext.appCount p
  | .getAppidByField p => Ext.getAppidByField p
  | .checkEmailCount email => Ext.checkEmailCount setting email
  | .randomString length => Ext.randomString length
  | .installBlogFilesystem appname => Ext.installBlogFilesystem setting appname
  | .installPlugin p => Ext.installPlugin setting p
  | .removePlugin p => Ext.removePlugin setting p
  | .installTheme p => Ext.installTheme setting p
  | .removeTheme p => Ext.removeTheme setting p
  | .sendmail p => Ext.sendmail setting p
  | .set3rdpartyDomain p => Ext.set3rdpartyDomain setting p
  | .installSslKey p => Ext.installSslKey setting p
  | .httpGet url => Ext.httpGet setting url
  | .httpPost p => Ext.httpPost setting p
  | .parseResponse response => Ext.parseResponse response

end PhpSandbox.Ext
