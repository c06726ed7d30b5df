import Mathlib.Data.List.DropRight
import PhpSandbox.Lib.Runs
import PhpSandbox.Standard.ParseUrl

/-!
# Response headers

The header list of `main/SAPI.c` (`sapi_header_op`, `sapi_apply_default_charset`, `sapi_send_headers`) and how
`sapi_cgi_send_headers` of `sapi/fpm/fpm/fpm_main.c` writes it.

## The model

`Globals` is what `SG` has about headers; a run is a list of header operations and of changes of `default_charset` and
`default_mimetype`. The header that is written is the list of bytes that is given to `PHPWRITE_H`. A callback of
`header_register_callback` is the list of what it does. Not in the model: `sapi_headers.mimetype`, which only the
compression handlers read, and the switch of `zlib.output_compression`.

## What is proved

A header line is checked for newlines, but the two settings are not, and they become part of a header. If they have no
newlines where they are used, the status line fits into the buffer it is printed to, and no `Status:` without a value is
stored beside another status, no header is split (`sendHeaders_wellFormed`).
-/

namespace PhpSandbox.Sapi

open Lib List Option
open Standard.ParseUrl (isspace tolower strtol)

/-! ### Characters and numbers -/

/-- CR. -/
def cr : UInt8 := 13

/-- LF. -/
def lf : UInt8 := 10

/-- The end of a line. -/
def crlf : Bytes := [cr, lf]

/-- The space. -/
def space : UInt8 := 32

/-- The colon. -/
def colon : UInt8 := 58

/-- The C string at the beginning. -/
def cstring (s : Bytes) : Bytes := s.takeWhile (· ≠ 0)

/-- `strncasecmp(s, t, n) == 0`. -/
def strncasecmp (s t : Bytes) (n : ℕ) : Bool :=
  ((cstring s).take n).map tolower = ((cstring t).take n).map tolower

/-- `strcasecmp(s, t) == 0`. -/
def strcasecmp (s t : Bytes) : Bool := (cstring s).map tolower = (cstring t).map tolower

/-- A `long` as an `int`. -/
def toInt (n : ℤ) : ℤ := n.bmod (2 ^ 32)

/-- `atoi`: the conversion is to a `long`, which does not overflow. -/
def atoi (s : Bytes) : ℤ := toInt (max (-2 ^ 63) (min (strtol s) (2 ^ 63 - 1)))

/-- `%d`. -/
def printInt (n : ℤ) : Bytes := if n < 0 then 45 :: decimal n.natAbs else decimal n.natAbs

/-- `slprintf` with a buffer of some size. -/
def slprintf (size : ℕ) (text : Bytes) : Bytes := text.take (size - 1)

/-! ### The state -/

/-- What does not change in a request. -/
structure Request where
  /-- `fcgi.nph`. -/
  nph : Bool
  /-- `cgi.rfc2616_headers`. -/
  rfc2616Headers : Bool
  noHeaders : Bool
  protoNum : ℤ
  requestMethod : Option Bytes

/-- `SG`, as far as it is about headers. -/
structure Globals where
  /-- `sapi_headers.headers`. -/
  headers : List Bytes
  /-- `sapi_headers.http_response_code`. -/
  httpResponseCode : ℤ
  /-- `sapi_headers.http_status_line`. -/
  httpStatusLine : Option Bytes
  /-- `sapi_headers.send_default_content_type`. -/
  sendDefaultContentType : Bool
  defaultMimetype : Option Bytes
  defaultCharset : Option Bytes
  headersSent : Bool
  /-- The file and the line where the output started. -/
  outputStart : Option (String × ℤ)

open Globals

/-- `sapi_activate`: the code and the settings are those of the server. -/
def Globals.activate (code : ℤ) (mimetype charset : Option Bytes) : Globals where
  headers := []
  httpResponseCode := code
  httpStatusLine := none
  sendDefaultContentType := true
  defaultMimetype := mimetype
  defaultCharset := charset
  headersSent := false
  outputStart := none

/-- A `sapi_header_op_enum` with its argument. -/
inductive HeaderOp where
  /-- `SAPI_HEADER_ADD`. -/
  | add (line : Bytes) (code : ℤ)
  /-- `SAPI_HEADER_REPLACE`. -/
  | replace (line : Bytes) (code : ℤ)
  /-- `SAPI_HEADER_DELETE`. -/
  | delete (line : Bytes)
  /-- `SAPI_HEADER_DELETE_ALL`. -/
  | deleteAll
  /-- `SAPI_HEADER_SET_STATUS`. -/
  | setStatus (code : ℤ)

/-- What `sapi_header_op` returns. -/
inductive Result where
  | success
  /-- `FAILURE`, with the text of the warning. -/
  | failure (message : Option String)

/-- What a script does. -/
inductive Action where
  /-- `sapi_header_op`. -/
  | op (op : HeaderOp)
  /-- `default_mimetype` is changed. -/
  | setMimetype (value : Bytes)
  /-- `default_charset` is changed. -/
  | setCharset (value : Bytes)

/-! ### Default values -/

namespace Globals

variable (s : Globals)

/-- The mimetype, as a C string. -/
def mimetype : Bytes := cstring (s.defaultMimetype.getD (ascii "text/html"))

/-- The charset, as a C string. -/
def charset : Bytes := cstring (s.defaultCharset.getD (ascii "UTF-8"))

/-- `get_default_content_type`. -/
def getDefaultContentType : Bytes :=
  if s.charset ≠ [] ∧ strncasecmp s.mimetype (ascii "text/") 5 then s.mimetype ++ ascii "; charset=" ++ s.charset
  else s.mimetype

/-- `sapi_apply_default_charset`; `none` if the type stays as it is. -/
def applyDefaultCharset (mimetype : Bytes) : Option Bytes :=
  if s.charset ≠ [] ∧ mimetype.take 5 = ascii "text/" ∧ strstr (ascii "charset=") mimetype = none then
    some (mimetype ++ ascii ";charset=" ++ s.charset)
  else none

/-! ### Header operations -/

/-- `sapi_update_response_code`. -/
def updateResponseCode (code : ℤ) : Globals :=
  if s.httpResponseCode = code then s else { s with httpStatusLine := none, httpResponseCode := code }

end Globals

/-- `sapi_extract_response_code`. -/
def extractResponseCode : Bytes → ℤ
  | [] => 200
  | c :: rest => if c = space ∧ rest.head? ≠ some space then atoi rest else extractResponseCode rest

/-- `sapi_remove_header`. -/
def removeHeader (headers : List Bytes) (name : Bytes) (len : ℕ) : List Bytes :=
  headers.filter fun h => !(decide (h.getD len 0 = colon ∧ len < h.length) && strncasecmp h name len)

/-- The check for newlines and NUL bytes. -/
def lineError : Bytes → Option String
  | [] => none
  | c :: rest =>
    if c = lf ∨ c = cr then some "Header may not contain more than a single header, new line detected"
    else if c = 0 then some "Header may not contain NUL bytes"
    else lineError rest

/-- Whether it is a status line for `sapi_header_op`. -/
def isHttp (line : Bytes) : Bool := 5 ≤ line.length && strncasecmp line (ascii "HTTP/") 5

namespace Globals

/-- `sapi_header_add_op`. -/
def addOp (s : Globals) (replace : Bool) (header : Bytes) : Globals :=
  match replace, cut colon (cstring header) with
  | true, some (name, _) => { s with headers := removeHeader s.headers name name.length ++ [header] }
  | _, _ => { s with headers := s.headers ++ [header] }

variable (req : Request)

/-- The code for a redirect. -/
def redirectCode (code : ℤ) : ℤ :=
  if code ≠ 0 then code
  else if 1000 < req.protoNum ∧ req.requestMethod.any fun m => m ≠ ascii "HEAD" ∧ m ≠ ascii "GET" then 303
  else 302

variable (s : Globals)

/-- The headers with special support, and the header that is stored. `Content-Length` only switches compression off. -/
def special (line : Bytes) (code : ℤ) : Bytes × Globals :=
  match cut colon line with
  | none => (line, s)
  | some (name, value) =>
    if strcasecmp name (ascii "Content-Type") then
      (match s.applyDefaultCharset (value.dropWhile (· = space)) with
        | some mimetype => ascii "Content-type: " ++ mimetype
        | none => line,
        { s with sendDefaultContentType := false })
    else if strcasecmp name (ascii "Location") then
      (line,
        if (s.httpResponseCode < 300 ∨ 399 < s.httpResponseCode) ∧ s.httpResponseCode ≠ 201 then
          s.updateResponseCode (redirectCode req code)
        else s)
    else if strcasecmp name (ascii "WWW-Authenticate") then (line, s.updateResponseCode 401)
    else (line, s)

/-- `sapi_header_op` for a line that is added, after trailing white space is cut off. -/
def headerLine (replace : Bool) (line : Bytes) (code : ℤ) : Result × Globals :=
  match lineError line with
  | some message => (.failure message, s)
  | none =>
    if isHttp line then
      (.success, { s.updateResponseCode (extractResponseCode line) with httpStatusLine := some line })
    else
      let p := s.special req line code
      (.success, (if code ≠ 0 then p.2.updateResponseCode code else p.2).addOp replace p.1)

/-- `sapi_header_op` for `SAPI_HEADER_DELETE`, after trailing white space is cut off. -/
def deleteLine (line : Bytes) : Result × Globals :=
  if colon ∈ cstring line then (.failure "Header to delete may not contain colon.", s)
  else (.success, { s with headers := removeHeader s.headers line line.length })

/-- The warning when headers were sent. -/
def alreadySent : String :=
  match s.outputStart with
  | some (file, line) =>
    s!"Cannot modify header information - headers already sent by (output started at {file}:{line})"
  | none => "Cannot modify header information - headers already sent"

/-- `sapi_header_op`. -/
def headerOp (op : HeaderOp) : Result × Globals :=
  if s.headersSent ∧ ¬req.noHeaders then (.failure s.alreadySent, s)
  else
    match op with
    | .setStatus code => (.success, s.updateResponseCode (toInt code))
    | .deleteAll => (.success, { s with headers := [] })
    | .add line code =>
      if line = [] then (.failure none, s) else s.headerLine req false (line.rdropWhile isspace) (toInt code)
    | .replace line code =>
      if line = [] then (.failure none, s) else s.headerLine req true (line.rdropWhile isspace) (toInt code)
    | .delete line => if line = [] then (.failure none, s) else s.deleteLine (line.rdropWhile isspace)

/-- One action. -/
def step : Action → Globals
  | .op op => (s.headerOp req op).2
  | .setMimetype value => { s with defaultMimetype := some value }
  | .setCharset value => { s with defaultCharset := some value }

/-- Many actions. -/
def run (actions : List Action) : Globals := actions.foldl (step req) s

end Globals

/-! ### Sending -/

/-- `http_error_codes`. -/
def httpErrorCodes : List (ℤ × String) :=
  [(100, "Continue"), (101, "Switching Protocols"), (200, "OK"), (201, "Created"), (202, "Accepted"),
    (203, "Non-Authoritative Information"), (204, "No Content"), (205, "Reset Content"), (206, "Partial Content"),
    (300, "Multiple Choices"), (301, "Moved Permanently"), (302, "Moved Temporarily"), (303, "See Other"),
    (304, "Not Modified"), (305, "Use Proxy"), (400, "Bad Request"), (401, "Unauthorized"), (402, "Payment Required"),
    (403, "Forbidden"), (404, "Not Found"), (405, "Method Not Allowed"), (406, "Not Acceptable"),
    (407, "Proxy Authentication Required"), (408, "Request Time-out"), (409, "Conflict"), (410, "Gone"),
    (411, "Length Required"), (412, "Precondition Failed"), (413, "Request Entity Too Large"),
    (414, "Request-URI Too Large"), (415, "Unsupported Media Type"), (428, "Precondition Required"),
    (429, "Too Many Requests"), (431, "Request Header Fields Too Large"), (500, "Internal Server Error"),
    (501, "Not Implemented"), (502, "Bad Gateway"), (503, "Service Unavailable"), (504, "Gateway Time-out"),
    (505, "HTTP Version not supported"), (511, "Network Authentication Required")]

/-- `SAPI_CGI_MAX_HEADER_LENGTH`. -/
def maxHeaderLength : ℕ := 1024

/-- Whether it is a `Status:` header. -/
def isStatus (h : Bytes) : Bool := 7 < h.length && strncasecmp h (ascii "Status:") 7

/-- Whether it is a `Content-Type:` header. -/
def isContentType (h : Bytes) : Bool := 13 < h.length && strncasecmp h (ascii "Content-Type:") 13

/-- What is behind the first space of a line that begins with a protocol. -/
def afterProtocol (line : Bytes) : Option Bytes :=
  match cut space line with
  | some (protocol, rest) => if 5 ≤ protocol.length ∧ strncasecmp line (ascii "HTTP/") 5 then some rest else none
  | none => none

variable (req : Request)

/-- The line for the status line of a script, and the code in it. `none` if there is no use for it. -/
def statusOfLine (code : ℤ) (line : Bytes) : Option (Bytes × ℤ) :=
  if req.rfc2616Headers then
    some (line, match cut space line with
      | some (_, rest) => atoi rest
      | none => code)
  else (afterProtocol line).map fun rest => (ascii "Status:" ++ space :: rest, atoi rest)

/-- The line for a response code. -/
def statusOfCode (code : ℤ) : Bytes :=
  match httpErrorCodes.find? fun e => e.1 = code with
  | some (_, message) => ascii "Status: " ++ printInt code ++ space :: ascii message
  | none => ascii "Status: " ++ printInt code

namespace Globals

/-- The status line that is written first, if any, and `response_status`. -/
def status (req : Request) (s : Globals) : Option Bytes × ℤ :=
  if req.nph ∨ s.httpResponseCode ≠ 200 then
    match s.httpStatusLine.bind (statusOfLine req s.httpResponseCode) with
    | some (line, code) => (some (slprintf maxHeaderLength (line ++ crlf)), code)
    | none =>
      (if s.headers.any isStatus then none
        else some (slprintf maxHeaderLength (statusOfCode s.httpResponseCode ++ crlf)),
        s.httpResponseCode)
  else (none, s.httpResponseCode)

end Globals

/-- The loop over the headers. -/
def sendLoop (status : ℤ) : Bool → List Bytes → Bytes
  | _, [] => crlf
  | ignoreStatus, h :: hs =>
    if h = [] then sendLoop status ignoreStatus hs
    else if isStatus h then
      if ignoreStatus then sendLoop status ignoreStatus hs else h ++ crlf ++ sendLoop status true hs
    else if status = 304 ∧ isContentType h then sendLoop status ignoreStatus hs
    else h ++ crlf ++ sendLoop status ignoreStatus hs

namespace Globals

/-- `sapi_cgi_send_headers`. -/
def cgiSendHeaders (req : Request) (s : Globals) : Bytes :=
  match s.status req with
  | (some text, status) => text ++ sendLoop status true s.headers
  | (none, status) => sendLoop status false s.headers

/-- The default `Content-type` is added, if it is needed. -/
def addDefault (s : Globals) : Globals :=
  if s.sendDefaultContentType then
    { s.addOp false (ascii "Content-type: " ++ s.getDefaultContentType) with sendDefaultContentType := false }
  else s

/-- `sapi_send_headers`, with what the callback does; `none` if nothing is sent. -/
def sendHeaders (req : Request) (s : Globals) (callback : List Action) : Option Bytes × Globals :=
  if s.headersSent ∨ req.noHeaders then (none, s)
  else
    let s := { s.addDefault.run req callback with headersSent := true }
    (some (s.cgiSendHeaders req), s)

end Globals

/-! ### What is expected -/

/-- No CR, LF or NUL. -/
def Clean (s : Bytes) : Prop := ∀ c ∈ s, c ≠ cr ∧ c ≠ lf ∧ c ≠ 0

/-- Lines, and the empty line at the end. -/
def render (lines : List Bytes) : Bytes := lines.flatMap (· ++ crlf) ++ crlf

/-- The line begins with this text, in either case. -/
def beginsWith (text line : Bytes) : Bool := (line.take text.length).map tolower = text.map tolower

/-- Whether it is a status line for a client. -/
def isStatusLine (line : Bytes) : Bool := beginsWith (ascii "Status:") line || beginsWith (ascii "HTTP/") line

/-- **The header that is expected**: lines, of which all but the status line are stored headers, and none of which can
be taken for several or for the end of the header. -/
def WellFormed (headers : List Bytes) (block : Bytes) : Prop :=
  ∃ (status : Option Bytes) (lines : List Bytes), block = render (status.toList ++ lines) ∧ lines.Sublist headers ∧
    (∀ line ∈ status.toList ++ lines, line ≠ [] ∧ Clean line) ∧
    (∀ line ∈ status, isStatusLine line) ∧ (status.toList ++ lines).countP isStatusLine ≤ 1

/-- A status line fits into the buffer. -/
def Fits (line : Bytes) : Prop :=
  ∀ code, ∀ p ∈ statusOfLine req code line, p.1.length + 2 < maxHeaderLength

instance (s : Bytes) : Decidable (Clean s) := inferInstanceAs (Decidable (∀ c ∈ s, c ≠ cr ∧ c ≠ lf ∧ c ≠ 0))

/-- The charset has no newlines, if it becomes part of this line. -/
def Globals.LineOk (s : Globals) (line : Bytes) : Prop :=
  ∀ p ∈ cut colon line, strcasecmp p.1 (ascii "Content-Type") →
    (s.applyDefaultCharset (p.2.dropWhile (· = space))).isSome → Clean s.charset

/-- The line that an action adds, after trailing white space is cut off. -/
def Action.line : Action → Option Bytes
  | .op (.add line _) | .op (.replace line _) => some (line.rdropWhile isspace)
  | _ => none

/-- What the state must be like for an action. -/
def Action.Ok (s : Globals) (action : Action) : Prop := ∀ line ∈ action.line, s.LineOk line

instance (s : Globals) (action : Action) : Decidable (action.Ok s) :=
  inferInstanceAs (Decidable (∀ line ∈ action.line, ∀ p ∈ cut colon line, _ → _ → Clean s.charset))

/-- The settings that become part of the default `Content-type` have no newlines. -/
def Globals.DefaultOk (s : Globals) : Prop :=
  s.sendDefaultContentType → Clean s.mimetype ∧ (strncasecmp s.mimetype (ascii "text/") 5 → Clean s.charset)

/-- A `Status:` with nothing behind it. -/
def isBareStatus (line : Bytes) : Bool := line.map tolower = ascii "status:"

/-- What `sapi_cgi_send_headers` needs of what is stored. -/
structure Globals.Sendable (s : Globals) : Prop where
  fits : ∀ line ∈ s.httpStatusLine, Fits req line
  /-- A status with nothing behind it is the only one. -/
  oneStatus : s.headers.countP isBareStatus = 0 ∨
    s.headers.countP isBareStatus = 1 ∧ s.headers.countP isStatus = 0 ∧ ¬(req.nph ∨ s.httpResponseCode ≠ 200)

/-! ### Clean texts -/

variable {req : Request} {s : Globals} {t u : Bytes}

theorem clean_append : Clean (t ++ u) ↔ Clean t ∧ Clean u := forall_mem_append

theorem clean_cons {c : UInt8} : Clean (c :: t) ↔ (c ≠ cr ∧ c ≠ lf ∧ c ≠ 0) ∧ Clean t := forall_mem_cons

theorem Clean.subset (h : Clean t) (hsub : u ⊆ t) : Clean u := fun c hc => h c (hsub hc)

theorem Clean.cstring_eq (h : Clean t) : cstring t = t := by
  rw [cstring, takeWhile_eq_self_iff]
  intro c hc
  exact decide_eq_true (h c hc).2.2

variable (line : Bytes)

theorem lineError_eq_none_iff : lineError line = none ↔ Clean line := by
  induction line with
  | nil => exact iff_of_true rfl (forall_mem_nil _)
  | cons c rest ih =>
    rw [lineError, clean_cons, ← ih]
    split_ifs with hnewline hnul
    · exact iff_of_false nofun (by tauto)
    · exact iff_of_false nofun (by tauto)
    · tauto

theorem clean_of_cut {c : UInt8} {line : Bytes} (h : Clean line) (hcut : cut c line = some (t, u)) :
    Clean t ∧ Clean u := by
  obtain ⟨-, rfl⟩ := cut_eq_some_iff.mp hcut
  rw [clean_append, clean_cons] at h
  exact ⟨h.1, h.2.2⟩

/-- A text with a constant at the beginning, as a C string. -/
theorem cstring_append (h : Clean t) : cstring (t ++ u) = t ++ cstring u := by
  rw [cstring, takeWhile_append_of_pos]
  · rfl
  · intro c hc
    exact decide_eq_true (h c hc).2.2

theorem strncasecmp_append {n : ℕ} (ht : Clean t) (hlen : n ≤ t.length) (v : Bytes) :
    strncasecmp (t ++ u) v n = strncasecmp t v n := by
  rw [strncasecmp, strncasecmp, cstring_append ht, ht.cstring_eq, take_append_of_le_length hlen]

theorem beginsWith_append : beginsWith t (t ++ u) = true := by
  rw [beginsWith, take_left]
  exact decide_eq_true rfl

theorem strncasecmp_eq (ht : Clean t) (hu : Clean u) : strncasecmp t u u.length = beginsWith u t := by
  rw [strncasecmp, ht.cstring_eq, hu.cstring_eq, take_length, beginsWith]

theorem length_le_of_beginsWith (h : beginsWith u t = true) : u.length ≤ t.length := by
  have hlen := congrArg length (of_decide_eq_true h)
  rw [length_map, length_map, length_take] at hlen
  omega

theorem isHttp_eq (ht : Clean t) : isHttp t = beginsWith (ascii "HTTP/") t := by
  rw [isHttp, show strncasecmp t _ 5 = _ from strncasecmp_eq ht (by decide), Bool.and_eq_right_iff_imp]
  exact fun h => decide_eq_true (length_le_of_beginsWith h)

/-- A status for the loop over the headers has something behind it. -/
theorem beginsWith_status (ht : Clean t) : beginsWith (ascii "Status:") t = (isStatus t || isBareStatus t) := by
  have hstatus : isStatus t = (decide (7 < t.length) && beginsWith (ascii "Status:") t) :=
    congrArg _ (strncasecmp_eq ht (by decide))
  have hbare : t.length ≤ 7 → isBareStatus t = beginsWith (ascii "Status:") t := by
    intro hlen
    rw [beginsWith, take_of_length_le (show t.length ≤ (ascii "Status:").length from hlen)]
    rfl
  rw [hstatus]
  by_cases hlen : 7 < t.length
  · have hlong : isBareStatus t = false := by
      refine decide_eq_false fun h => ?_
      have := congrArg length h
      rw [length_map, show (ascii "status:").length = 7 from rfl] at this
      omega
    rw [decide_eq_true hlen, hlong, Bool.true_and, Bool.or_false]
  · rw [decide_eq_false hlen, hbare (by omega), Bool.false_and, Bool.false_or]

theorem isStatusLine_eq (ht : Clean t) : isStatusLine t = (isStatus t || isBareStatus t || isHttp t) := by
  rw [isStatusLine, beginsWith_status ht, isHttp_eq ht]

theorem isHttp_contentType : isHttp (ascii "Content-type: " ++ u) = false := by
  rw [isHttp, strncasecmp_append (by decide) (by decide)]
  exact Bool.and_false _

/-! ### What an action keeps -/

/-- An `int`. -/
def IsInt (n : ℤ) : Prop := -2 ^ 31 ≤ n ∧ n < 2 ^ 31

theorem isInt_toInt (n : ℤ) : IsInt (toInt n) := by
  rw [IsInt, toInt, Int.bmod_def]
  split_ifs <;> omega

theorem isInt_extractResponseCode : IsInt (extractResponseCode line) := by
  induction line with
  | nil => exact ⟨by decide, by decide⟩
  | cons c rest ih =>
    rw [extractResponseCode]
    split_ifs
    · exact isInt_toInt _
    · exact ih

/-- The headers and the status line are as they should be, and were not sent. -/
structure Inv (s : Globals) : Prop where
  unsent : s.headersSent = false
  headers : ∀ h ∈ s.headers, Clean h ∧ isHttp h = false
  statusLine : ∀ line ∈ s.httpStatusLine, Clean line ∧ isHttp line = true
  code : IsInt s.httpResponseCode

section Steps

variable (h : Inv s)

include h

variable {code : ℤ}

theorem Inv.updateResponseCode (hcode : IsInt code) : Inv (s.updateResponseCode code) := by
  rw [Globals.updateResponseCode]
  split_ifs
  · exact h
  · exact ⟨h.unsent, h.headers, by simp, hcode⟩

theorem Inv.withHeaders {headers : List Bytes} (hheaders : ∀ h ∈ headers, Clean h ∧ isHttp h = false) :
    Inv { s with headers := headers } :=
  { h with headers := hheaders }

theorem Inv.removeHeader (name : Bytes) (len : ℕ) : ∀ h ∈ removeHeader s.headers name len, Clean h ∧ isHttp h = false :=
  fun header hmem => h.headers header (mem_of_mem_filter hmem)

theorem Inv.addOp (replace : Bool) (ht : Clean t) (hhttp : isHttp t = false) : Inv (s.addOp replace t) := by
  have hnew : ∀ h ∈ [t], Clean h ∧ isHttp h = false := by
    intro header hmem
    obtain rfl := mem_singleton.mp hmem
    exact ⟨ht, hhttp⟩
  unfold Globals.addOp
  split
  · exact h.withHeaders (forall_mem_append.mpr ⟨h.removeHeader _ _, hnew⟩)
  · exact h.withHeaders (forall_mem_append.mpr ⟨h.headers, hnew⟩)

omit h in
theorem clean_applyDefaultCharset (ht : Clean t) (hcharset : Clean s.charset)
    (happly : s.applyDefaultCharset t = some u) : Clean u := by
  rw [Globals.applyDefaultCharset] at happly
  split_ifs at happly
  cases happly
  exact clean_append.mpr ⟨clean_append.mpr ⟨ht, by decide⟩, hcharset⟩

omit h in
theorem isInt_redirectCode (req : Request) (h : IsInt code) : IsInt (redirectCode req code) := by
  rw [redirectCode]
  split_ifs
  · exact h
  · exact ⟨by decide, by decide⟩
  · exact ⟨by decide, by decide⟩

/-- The header that is stored is clean if the line is. -/
theorem Inv.special (ht : Clean t) (hok : s.LineOk t) (hhttp : isHttp t = false) (hcode : IsInt code) :
    Clean (s.special req t code).1 ∧ isHttp (s.special req t code).1 = false ∧ Inv (s.special req t code).2 := by
  rw [Globals.special]
  split
  · exact ⟨ht, hhttp, h⟩
  rename_i name value hcut
  split_ifs with hcontent hlocation hredirect hauth
  · refine ⟨?_, ?_, h.unsent, h.headers, h.statusLine, h.code⟩
    · split
      · rename_i mimetype happly
        have hvalue : Clean (value.dropWhile (· = space)) :=
          (clean_of_cut ht hcut).2.subset (dropWhile_subset _)
        have hcharset := hok _ hcut hcontent (isSome_of_eq_some happly)
        exact clean_append.mpr ⟨by decide, clean_applyDefaultCharset hvalue hcharset happly⟩
      · exact ht
    · split
      · exact isHttp_contentType
      · exact hhttp
  · exact ⟨ht, hhttp, h.updateResponseCode (isInt_redirectCode req hcode)⟩
  · exact ⟨ht, hhttp, h⟩
  · exact ⟨ht, hhttp, h.updateResponseCode ⟨by decide, by decide⟩⟩
  · exact ⟨ht, hhttp, h⟩

theorem Inv.headerLine (replace : Bool) (hok : s.LineOk t) (hcode : IsInt code) :
    Inv (s.headerLine req replace t code).2 := by
  rw [Globals.headerLine]
  split
  · exact h
  rename_i hclean
  rw [lineError_eq_none_iff] at hclean
  by_cases hhttp : isHttp t = true
  · rw [if_pos hhttp]
    obtain ⟨hunsent, hheaders, -, hrange⟩ := h.updateResponseCode (isInt_extractResponseCode t)
    refine ⟨hunsent, hheaders, ?_, hrange⟩
    intro line hline
    cases hline
    exact ⟨hclean, hhttp⟩
  · obtain ⟨hheader, hnot, hinv⟩ := h.special hclean hok (Bool.not_eq_true _ ▸ hhttp) hcode
    rw [if_neg hhttp]
    split_ifs
    · exact (hinv.updateResponseCode hcode).addOp replace hheader hnot
    · exact hinv.addOp replace hheader hnot

theorem Inv.headerOp {op : HeaderOp} (hop : (Action.op op).Ok s) : Inv (s.headerOp req op).2 := by
  unfold Globals.headerOp
  split_ifs
  · exact h
  cases op with
  | setStatus code => exact h.updateResponseCode (isInt_toInt code)
  | deleteAll => exact h.withHeaders (forall_mem_nil _)
  | add line code | replace line code =>
    dsimp only
    split_ifs
    · exact h
    · exact h.headerLine _ (hop _ rfl) (isInt_toInt code)
  | delete line =>
    dsimp only [deleteLine]
    split_ifs
    · exact h
    · exact h
    · exact h.withHeaders (h.removeHeader _ _)

/-- **An action keeps what is stored clean.** -/
theorem Inv.step {action : Action} (haction : action.Ok s) : Inv (s.step req action) := by
  cases action with
  | op op => exact h.headerOp haction
  | setMimetype value | setCharset value => exact ⟨h.unsent, h.headers, h.statusLine, h.code⟩

theorem Inv.run {actions : List Action} (hactions : Along (Globals.step req) (fun s a => a.Ok s) s actions) :
    Inv (s.run req actions) :=
  run_invariant (I := Inv) (fun _ _ hs hok => hs.step hok) h hactions

theorem Inv.addDefault (hdefault : s.DefaultOk) : Inv s.addDefault := by
  rw [Globals.addDefault]
  split_ifs with hsend
  · obtain ⟨hmimetype, hcharset⟩ := hdefault hsend
    have hclean : Clean s.getDefaultContentType := by
      rw [getDefaultContentType]
      split_ifs with htext
      · exact clean_append.mpr ⟨clean_append.mpr ⟨hmimetype, by decide⟩, hcharset htext.2⟩
      · exact hmimetype
    obtain ⟨hunsent, hheaders, hline, hrange⟩ :=
      h.addOp false (clean_append.mpr ⟨by decide, hclean⟩) isHttp_contentType
    exact ⟨hunsent, hheaders, hline, hrange⟩
  · exact h

end Steps

/-! ### What is written -/

/-- The loop over the headers, by induction over them. -/
theorem sendLoop_spec (status : ℤ) (ignoreStatus : Bool) (headers : List Bytes) :
    ∃ lines : List Bytes, sendLoop status ignoreStatus headers = render lines ∧ lines.Sublist headers ∧
      (∀ line ∈ lines, line ≠ []) ∧ lines.countP isStatus ≤ (!ignoreStatus).toNat := by
  induction headers generalizing ignoreStatus with
  | nil => exact ⟨[], rfl, Sublist.refl _, forall_mem_nil _, Nat.zero_le _⟩
  | cons h hs ih =>
    have hskip : ∃ lines : List Bytes, sendLoop status ignoreStatus hs = render lines ∧ lines.Sublist (h :: hs) ∧
        (∀ line ∈ lines, line ≠ []) ∧ lines.countP isStatus ≤ (!ignoreStatus).toNat := by
      obtain ⟨lines, hloop, hsub, hne, hcount⟩ := ih ignoreStatus
      exact ⟨lines, hloop, hsub.cons h, hne, hcount⟩
    have hline : ∀ ignore, h ≠ [] → ∃ lines : List Bytes,
        h ++ crlf ++ sendLoop status ignore hs = render (h :: lines) ∧ (h :: lines).Sublist (h :: hs) ∧
        (∀ line ∈ h :: lines, line ≠ []) ∧ lines.countP isStatus ≤ (!ignore).toNat := by
      intro ignore hh
      obtain ⟨lines, hloop, hsub, hne, hcount⟩ := ih ignore
      refine ⟨lines, ?_, hsub.cons_cons h, forall_mem_cons.mpr ⟨hh, hne⟩, hcount⟩
      rw [hloop, render, render, flatMap_cons, append_assoc (h ++ crlf)]
    rw [sendLoop]
    split_ifs with hnil hstatus hignore hcontent
    · exact hskip
    · exact hskip
    · obtain ⟨lines, hloop, hsub, hne, hcount⟩ := hline true hnil
      refine ⟨h :: lines, hloop, hsub, hne, ?_⟩
      rw [countP_cons_of_pos hstatus, eq_false_of_ne_true hignore]
      exact Nat.succ_le_succ hcount
    · exact hskip
    · obtain ⟨lines, hloop, hsub, hne, hcount⟩ := hline ignoreStatus hnil
      exact ⟨h :: lines, hloop, hsub, hne, by rwa [countP_cons_of_neg hstatus]⟩

theorem slprintf_of_fits {size : ℕ} (h : t.length < size) : slprintf size t = t :=
  take_of_length_le (by omega)

theorem clean_decimal (n : ℕ) : Clean (decimal n) := by
  have hdigit : ∀ c, isDecimal c → c ≠ cr ∧ c ≠ lf ∧ c ≠ 0 := forall_uint8 (by decide +kernel)
  exact fun c hc => hdigit c (isDecimal_of_mem_decimal hc)

theorem printInt_spec {n : ℤ} (h : IsInt n) : Clean (printInt n) ∧ printInt n ≠ [] ∧ (printInt n).length ≤ 11 := by
  have hlen : (decimal n.natAbs).length ≤ 9 + 1 := by
    refine length_decimal_le ?_
    obtain ⟨hle, hlt⟩ := h
    omega
  rw [printInt]
  split_ifs
  · exact ⟨clean_cons.mpr ⟨by decide, clean_decimal _⟩, cons_ne_nil _ _, Nat.succ_le_succ hlen⟩
  · exact ⟨clean_decimal _, decimal_ne_nil _, Nat.le_succ_of_le hlen⟩

theorem httpErrorCodes_spec : ∀ e ∈ httpErrorCodes, Clean (ascii e.2) ∧ (ascii e.2).length ≤ 31 := by
  decide +kernel

/-- A line that is a status line, clean, and fits into the buffer. -/
def IsStatusText : Prop :=
  line ≠ [] ∧ Clean line ∧ isStatusLine line = true ∧ line.length + 2 < maxHeaderLength

theorem isStatusText_status (hclean : Clean t) (hne : t ≠ []) (hlen : t.length + 9 < maxHeaderLength) :
    IsStatusText (ascii "Status:" ++ t) := by
  refine ⟨append_ne_nil_of_right_ne_nil _ hne, clean_append.mpr ⟨by decide, hclean⟩, ?_, ?_⟩
  · rw [isStatusLine, beginsWith_append, Bool.true_or]
  · rw [length_append, show (ascii "Status:").length = 7 from rfl]
    omega

variable {code : ℤ}

theorem isStatusText_statusOfCode (h : IsInt code) : IsStatusText (statusOfCode code) := by
  obtain ⟨hclean, hne, hlen⟩ := printInt_spec h
  have hspace : ascii "Status: " = ascii "Status:" ++ [space] := by decide
  rw [statusOfCode]
  split
  · rename_i e message hfind
    obtain ⟨hmessage, hmlen⟩ := httpErrorCodes_spec _ (mem_of_find?_eq_some hfind)
    rw [hspace, append_assoc, append_assoc]
    refine isStatusText_status ?_ (cons_ne_nil _ _) ?_
    · exact clean_append.mpr ⟨by decide, clean_append.mpr ⟨hclean, clean_cons.mpr ⟨by decide, hmessage⟩⟩⟩
    · dsimp only at hmlen
      rw [maxHeaderLength, length_append, length_append, length_singleton, length_cons]
      omega
  · rw [hspace, append_assoc]
    refine isStatusText_status (clean_append.mpr ⟨by decide, hclean⟩) (cons_ne_nil _ _) ?_
    rw [maxHeaderLength, length_append, length_singleton]
    omega

theorem isStatusText_statusOfLine {line : Bytes} (hclean : Clean line) (hhttp : isHttp line = true)
    (hfits : Fits req line) {p : Bytes × ℤ} (hp : statusOfLine req code line = some p) : IsStatusText p.1 := by
  have hlen := hfits code p hp
  rw [statusOfLine] at hp
  split_ifs at hp with hrfc
  · cases hp
    refine ⟨?_, hclean, ?_, hlen⟩
    · rintro rfl
      exact absurd hhttp (by decide)
    · rw [isStatusLine_eq hclean, hhttp, Bool.or_true]
  · obtain ⟨rest, hafter, rfl⟩ := map_eq_some_iff.mp hp
    rw [afterProtocol] at hafter
    split at hafter
    · rename_i protocol rest' hcut
      split_ifs at hafter
      cases hafter
      refine isStatusText_status (clean_cons.mpr ⟨by decide, (clean_of_cut hclean hcut).2⟩) (cons_ne_nil _ _) ?_
      rw [length_append, show (ascii "Status:").length = 7 from rfl] at hlen
      omega
    · exact absurd hafter nofun

/-- The status line that is written. -/
theorem Inv.status (h : Inv s) (hfits : ∀ line ∈ s.httpStatusLine, Fits req line) {text : Bytes}
    (htext : (s.status req).1 = some text) :
    (req.nph ∨ s.httpResponseCode ≠ 200) ∧ ∃ line, text = line ++ crlf ∧ IsStatusText line := by
  have hprint : ∀ line, IsStatusText line → slprintf maxHeaderLength (line ++ crlf) = line ++ crlf := by
    intro line hline
    refine slprintf_of_fits ?_
    rw [length_append]
    exact hline.2.2.2
  rw [Globals.status] at htext
  by_cases hwrite : req.nph = true ∨ s.httpResponseCode ≠ 200
  swap
  · rw [if_neg hwrite] at htext
    exact absurd htext nofun
  refine ⟨hwrite, ?_⟩
  rw [if_pos hwrite] at htext
  split at htext
  · rename_i line code hbind
    obtain ⟨statusLine, hmem, hline⟩ := bind_eq_some_iff.mp hbind
    obtain ⟨hclean, hhttp⟩ := h.statusLine statusLine hmem
    have hstatus := isStatusText_statusOfLine hclean hhttp (hfits statusLine hmem) hline
    refine ⟨line, ?_, hstatus⟩
    rw [← hprint line hstatus]
    exact (some.inj htext).symm
  · dsimp only at htext
    split_ifs at htext
    have hstatus := isStatusText_statusOfCode h.code
    refine ⟨_, ?_, hstatus⟩
    rw [← hprint _ hstatus]
    exact (some.inj htext).symm

/-- Of stored headers, the status lines are those that the loop counts, or those with nothing behind `Status:`. -/
theorem Inv.countP_isStatusLine (h : Inv s) {lines : List Bytes} (hsub : lines.Sublist s.headers) :
    (s.headers.countP isBareStatus = 0 → lines.countP isStatusLine = lines.countP isStatus) ∧
      (s.headers.countP isStatus = 0 → lines.countP isStatusLine ≤ s.headers.countP isBareStatus) := by
  have heq : ∀ line ∈ lines, isStatusLine line = (isStatus line || isBareStatus line) := by
    intro line hline
    obtain ⟨hclean, hhttp⟩ := h.headers line (hsub.subset hline)
    rw [isStatusLine_eq hclean, hhttp, Bool.or_false]
  constructor
  · intro hnone
    refine countP_congr fun line hline => ?_
    have hbare := countP_eq_zero.mp hnone line (hsub.subset hline)
    rw [heq line hline, eq_false_of_ne_true hbare, Bool.or_false]
  · intro hnone
    refine le_trans (le_of_eq (countP_congr fun line hline => ?_)) (hsub.countP_le)
    have hstatus := countP_eq_zero.mp hnone line (hsub.subset hline)
    rw [heq line hline, eq_false_of_ne_true hstatus, Bool.false_or]

/-- **What is written is as expected, if what is stored is clean.** -/
theorem Inv.cgiSendHeaders (h : Inv s) (hsend : s.Sendable req) : WellFormed s.headers (s.cgiSendHeaders req) := by
  have hstored : ∀ lines : List Bytes, lines.Sublist s.headers → (∀ line ∈ lines, line ≠ []) →
      ∀ line ∈ lines, line ≠ [] ∧ Clean line := by
    intro lines hsub hne line hline
    exact ⟨hne line hline, (h.headers line (hsub.subset hline)).1⟩
  rw [Globals.cgiSendHeaders]
  split
  · rename_i text status hstatus
    obtain ⟨hwrite, line, rfl, hne, hclean, hisStatus, -⟩ := h.status hsend.fits (congrArg Prod.fst hstatus)
    obtain ⟨lines, hloop, hsub, hnonempty, hcount⟩ := sendLoop_spec status true s.headers
    have hbare := hsend.oneStatus.resolve_right fun hone => hone.2.2 hwrite
    have hlines := hstored lines hsub hnonempty
    refine ⟨some line, lines, ?_, hsub, forall_mem_cons.mpr ⟨⟨hne, hclean⟩, hlines⟩, ?_, ?_⟩
    · rw [hloop, render, render, toList_some, singleton_append, flatMap_cons, append_assoc (line ++ crlf)]
    · intro line' hline'
      obtain rfl := some.inj hline'
      exact hisStatus
    · rw [toList_some, singleton_append, countP_cons_of_pos hisStatus, (h.countP_isStatusLine hsub).1 hbare]
      exact Nat.succ_le_succ hcount
  · rename_i status hstatus
    obtain ⟨lines, hloop, hsub, hnonempty, hcount⟩ := sendLoop_spec status false s.headers
    refine ⟨none, lines, hloop, hsub, hstored lines hsub hnonempty, by simp, ?_⟩
    rw [toList_none, nil_append]
    rcases hsend.oneStatus with hbare | ⟨hone, hnone, -⟩
    · rw [(h.countP_isStatusLine hsub).1 hbare]
      exact hcount
    · exact hone ▸ (h.countP_isStatusLine hsub).2 hnone

/-- A client reads the lines from the header. -/
theorem render_inj {lines lines' : List Bytes} (h : ∀ line ∈ lines, line ≠ [] ∧ Clean line)
    (h' : ∀ line ∈ lines', line ≠ [] ∧ Clean line) (heq : render lines = render lines') : lines = lines' := by
  have hcr : ∀ {line : Bytes}, Clean line → cr ∉ line := fun hline hmem => (hline cr hmem).1 rfl
  have hcons : ∀ (line : Bytes) (rest : List Bytes), render (line :: rest) = line ++ cr :: (lf :: render rest) := by
    intro line rest
    rw [render, render, flatMap_cons, append_assoc, append_assoc]
    rfl
  induction lines generalizing lines' with
  | nil =>
    cases lines' with
    | nil => rfl
    | cons line' rest' =>
      rw [forall_mem_cons] at h'
      rw [hcons] at heq
      have hnil := first_separator_unique not_mem_nil (hcr h'.1.2) (show [] ++ cr :: [lf] = _ from heq)
      exact absurd hnil.symm h'.1.1
  | cons line rest ih =>
    rw [forall_mem_cons] at h
    cases lines' with
    | nil =>
      rw [hcons] at heq
      have hnil := first_separator_unique (hcr h.1.2) not_mem_nil (show _ = [] ++ cr :: [lf] from heq)
      exact absurd hnil h.1.1
    | cons line' rest' =>
      rw [forall_mem_cons] at h'
      rw [hcons, hcons] at heq
      obtain rfl := first_separator_unique (hcr h.1.2) (hcr h'.1.2) heq
      have hrest := (List.cons.inj (List.cons.inj (append_cancel_left heq)).2).2
      rw [ih h.2 h'.2 hrest]

theorem inv_activate (hcode : IsInt code) (mimetype charset : Option Bytes) : Inv (activate code mimetype charset) :=
  ⟨rfl, forall_mem_nil _, by simp [activate], hcode⟩

/-- **No header is split**, if the settings have no newlines where they are used, the status line that is stored in the
end fits into the buffer, and a bare `Status:` is the only status. -/
theorem sendHeaders_wellFormed {code : ℤ} {mimetype charset : Option Bytes} {actions callback : List Action}
    (hno : req.noHeaders = false) (hcode : IsInt code)
    (hactions : Along (step req) (fun s a => a.Ok s) (activate code mimetype charset) actions)
    (hdefault : ((activate code mimetype charset).run req actions).DefaultOk)
    (hcallback : Along (step req) (fun s a => a.Ok s)
      ((activate code mimetype charset).run req actions).addDefault callback)
    (hsendable : (((activate code mimetype charset).run req actions).addDefault.run req callback).Sendable req) :
    ∃ block s', ((activate code mimetype charset).run req actions).sendHeaders req callback =
      (some block, s') ∧ WellFormed s'.headers block := by
  have hinv : Inv ((activate code mimetype charset).run req actions) :=
    (inv_activate hcode mimetype charset).run hactions
  have hsend : ¬(((activate code mimetype charset).run req actions).headersSent = true ∨ req.noHeaders = true) := by
    simp [hinv.unsent, hno]
  generalize (activate code mimetype charset).run req actions = s at hinv hsend hdefault hcallback hsendable
  rw [sendHeaders, if_neg hsend]
  refine ⟨_, _, rfl, ?_⟩
  have hsent := ((hinv.addDefault hdefault).run hcallback).cgiSendHeaders hsendable
  exact hsent

/-- A request with the usual configuration. -/
def getRequest : Request := ⟨false, false, false, 1001, some (ascii "GET")⟩

/-- A request with a status line, another header, and a charset that is replaced before it is used. -/
theorem sendHeaders_wellFormed_notFound :
    ∃ block s', ((activate 200 none none).run getRequest [.op (.add (ascii "HTTP/1.1 404 Not Found") 0),
        .setCharset (ascii "a\r\nb"), .setCharset (ascii "latin1"),
        .op (.replace (ascii "Content-Type: text/plain ") 0)]).sendHeaders getRequest
        [.op (.add (ascii "X: y") 0)] = (some block, s') ∧ WellFormed s'.headers block := by
  refine sendHeaders_wellFormed rfl ⟨by decide, by decide⟩ ⟨by decide, by decide, by decide, by decide, trivial⟩
    (fun hsend => absurd hsend (by decide)) ⟨by decide, trivial⟩ ⟨?_, .inl (by decide)⟩
  intro line hline code p hp
  obtain rfl : ascii "HTTP/1.1 404 Not Found" = line := some.inj hline
  have htext : statusOfLine getRequest code (ascii "HTTP/1.1 404 Not Found") =
      some (ascii "Status: 404 Not Found", 404) := by
    rw [statusOfLine, if_neg (by decide)]
    decide
  rw [htext] at hp
  cases hp
  decide

/-- With a newline in `default_mimetype`, the header that is sent is split in two. -/
theorem not_wellFormed_mimetype :
    let sent := ((activate 200 none none).run getRequest
      [.setMimetype (ascii "a\r\nX: y")]).sendHeaders getRequest []
    sent.1 = some (render [ascii "Content-type: a", ascii "X: y"]) ∧
      sent.2.headers = [ascii "Content-type: a\r\nX: y"] ∧ ¬∃ block ∈ sent.1, WellFormed sent.2.headers block := by
  intro sent
  have hblock : sent.1 = some (render [ascii "Content-type: a", ascii "X: y"]) := by decide
  have hheaders : sent.2.headers = [ascii "Content-type: a\r\nX: y"] := by decide
  refine ⟨hblock, hheaders, ?_⟩
  rw [hblock, hheaders]
  rintro ⟨block, hsent, status, lines, hrender, hsub, hclean, -, -⟩
  have hlines := render_inj (by decide) hclean ((some.inj hsent).trans hrender)
  -- one of the two lines is not the status line, so it would be the stored header
  have hX : ascii "X: y" ∈ lines := by
    cases status with
    | none =>
      rw [toList_none, nil_append] at hlines
      rw [← hlines]
      exact mem_cons_of_mem _ mem_cons_self
    | some line =>
      rw [toList_some, singleton_append, List.cons.injEq] at hlines
      rw [← hlines.2]
      exact mem_cons_self
  exact absurd (hsub.subset hX) (by decide)

end PhpSandbox.Sapi
