import PhpSandbox.Lib.CString

/-!
# Charsets and entity tables

The data of `ext/standard/html_tables.h` that escaping reads: the charsets, the tables that map the single-byte
charsets to Unicode, the tables from code points to entities for HTML 5, HTML 4.01 and the basic entities, and the
names of the entities that are known when existing references are kept.

## The model

A multi-stage table is kept as its stage 3 tables, each under the first of its 64 code points, with the rows that are
not NULL; the tables that are all NULL are left out (`empty_stage3_table`, `empty_stage2_table`). Of the hash tables
from names to code points only the names are kept: escaping does not use the code points. Every name that a code point
is mapped to is also in the hash table. The tables from Unicode to a charset are read only when entities are decoded.

## What is proved

Every entity of every table is a name or a number (`ok_of_stage1Row`, `ok_of_stage3Row`).
-/

namespace PhpSandbox.Html

open Lib List

/-- The bytes of a C string constant. -/
def cstr (s : String) : Bytes := s.toByteArray.data.toList

/-- `enum entity_charset`. -/
inductive EntityCharset where
  /-- `cs_utf_8`. -/
  | utf8
  /-- `cs_8859_1`. -/
  | iso8859_1
  /-- `cs_cp1252`. -/
  | cp1252
  /-- `cs_8859_15`. -/
  | iso8859_15
  /-- `cs_cp1251`. -/
  | cp1251
  /-- `cs_8859_5`. -/
  | iso8859_5
  /-- `cs_cp866`. -/
  | cp866
  /-- `cs_macroman`. -/
  | macroman
  /-- `cs_koi8r`. -/
  | koi8r
  /-- `cs_big5`. -/
  | big5
  /-- `cs_gb2312`. -/
  | gb2312
  /-- `cs_big5hkscs`. -/
  | big5hkscs
  /-- `cs_sjis`. -/
  | sjis
  /-- `cs_eucjp`. -/
  | eucjp
  deriving DecidableEq

/-- `CHARSET_UNICODE_COMPAT(cs)`. -/
def EntityCharset.unicodeCompat : EntityCharset → Bool
  | .utf8 | .iso8859_1 => true
  | _ => false

/-- `CHARSET_PARTIAL_SUPPORT(cs)`. -/
def EntityCharset.partialSupport : EntityCharset → Bool
  | .big5 | .gb2312 | .big5hkscs | .sjis | .eucjp => true
  | _ => false

/-! ### Mappings to Unicode -/

/-- The first two stage 2 tables of all charsets but MacRoman. -/
def iso88591Lower : List ℕ := List.range 128

/-- The first two stage 2 tables of MacRoman, which maps no control characters. -/
def macromanLower : List ℕ := replicate 0x20 0xFFFF ++ range' 0x20 0x5F ++ [0xFFFF]

/-- The last two stage 2 tables of Windows-1252. -/
def win1252Upper : List ℕ :=
  [0x20AC, 0xFFFF, 0x201A, 0x192, 0x201E, 0x2026, 0x2020, 0x2021, 0x2C6, 0x2030, 0x160, 0x2039, 0x152, 0xFFFF, 0x17D,
  0xFFFF, 0xFFFF, 0x2018, 0x2019, 0x201C, 0x201D, 0x2022, 0x2013, 0x2014, 0x2DC, 0x2122, 0x161, 0x203A, 0x153, 0xFFFF,
  0x17E, 0x178] ++ range' 0xA0 96

/-- The last two stage 2 tables of ISO-8859-15. -/
def iso885915Upper : List ℕ :=
  range' 0x80 36 ++ [0x20AC, 0xA5, 0x160, 0xA7, 0x161] ++ range' 0xA9 11 ++ [0x17D, 0xB5, 0xB6, 0xB7, 0x17E,
  0xB9, 0xBA, 0xBB, 0x152, 0x153, 0x178] ++ range' 0xBF 65

/-- The last two stage 2 tables of Windows-1251. -/
def win1251Upper : List ℕ :=
  [0x402, 0x403, 0x201A, 0x453, 0x201E, 0x2026, 0x2020, 0x2021, 0x20AC, 0x2030, 0x409, 0x2039, 0x40A, 0x40C, 0x40B,
  0x40F, 0x452, 0x2018, 0x2019, 0x201C, 0x201D, 0x2022, 0x2013, 0x2014, 0xFFFF, 0x2122, 0x459, 0x203A, 0x45A, 0x45C,
  0x45B, 0x45F, 0xA0, 0x40E, 0x45E, 0x408, 0xA4, 0x490, 0xA6, 0xA7, 0x401, 0xA9, 0x404, 0xAB, 0xAC, 0xAD, 0xAE, 0x407,
  0xB0, 0xB1, 0x406, 0x456, 0x491, 0xB5, 0xB6, 0xB7, 0x451, 0x2116, 0x454, 0xBB, 0x458, 0x405, 0x455, 0x457] ++
  range' 0x410 64

/-- The last two stage 2 tables of ISO-8859-5. -/
def iso88595Upper : List ℕ :=
  range' 0x80 33 ++ range' 0x401 12 ++ [0xAD] ++ range' 0x40E 66 ++ [0x2116] ++ range' 0x451 12 ++
  [0xA7, 0x45E, 0x45F]

/-- The last two stage 2 tables of CP-866. -/
def cp866Upper : List ℕ :=
  range' 0x410 48 ++ [0x2591, 0x2592, 0x2593, 0x2502, 0x2524, 0x2561, 0x2562, 0x2556, 0x2555, 0x2563, 0x2551,
  0x2557, 0x255D, 0x255C, 0x255B, 0x2510, 0x2514, 0x2534, 0x252C, 0x251C, 0x2500, 0x253C, 0x255E, 0x255F, 0x255A,
  0x2554, 0x2569, 0x2566, 0x2560, 0x2550, 0x256C, 0x2567, 0x2568, 0x2564, 0x2565, 0x2559, 0x2558, 0x2552, 0x2553,
  0x256B, 0x256A, 0x2518, 0x250C, 0x2588, 0x2584, 0x258C, 0x2590, 0x2580] ++ range' 0x440 16 ++ [0x401, 0x451,
  0x404, 0x454, 0x407, 0x457, 0x40E, 0x45E, 0xB0, 0x2219, 0xB7, 0x221A, 0x2116, 0xA4, 0x25A0, 0xA0]

/-- The last two stage 2 tables of MacRoman. -/
def macromanUpper : List ℕ :=
  [0xC4, 0xC5, 0xC7, 0xC9, 0xD1, 0xD6, 0xDC, 0xE1, 0xE0, 0xE2, 0xE4, 0xE3, 0xE5, 0xE7, 0xE9, 0xE8, 0xEA, 0xEB, 0xED,
  0xEC, 0xEE, 0xEF, 0xF1, 0xF3, 0xF2, 0xF4, 0xF6, 0xF5, 0xFA, 0xF9, 0xFB, 0xFC, 0x2020, 0xB0, 0xA2, 0xA3, 0xA7,
  0x2022, 0xB6, 0xDF, 0xAE, 0xA9, 0x2122, 0xB4, 0xA8, 0x2260, 0xC6, 0xD8, 0x221E, 0xB1, 0x2264, 0x2265, 0xA5, 0xB5,
  0x2202, 0x2211, 0x220F, 0x3C0, 0x222B, 0xAA, 0xBA, 0x3A9, 0xE6, 0xF8, 0xBF, 0xA1, 0xAC, 0x221A, 0x192, 0x2248,
  0x2206, 0xAB, 0xBB, 0x2026, 0xA0, 0xC0, 0xC3, 0xD5, 0x152, 0x153, 0x2013, 0x2014, 0x201C, 0x201D, 0x2018, 0x2019,
  0xF7, 0x25CA, 0xFF, 0x178, 0x2044, 0x20AC, 0x2039, 0x203A, 0xFB01, 0xFB02, 0x2021, 0xB7, 0x201A, 0x201E, 0x2030,
  0xC2, 0xCA, 0xC1, 0xCB, 0xC8, 0xCD, 0xCE, 0xCF, 0xCC, 0xD3, 0xD4, 0xF8FF, 0xD2, 0xDA, 0xDB, 0xD9, 0x131, 0x2C6,
  0x2DC, 0xAF, 0x2D8, 0x2D9, 0x2DA, 0xB8, 0x2DD, 0x2DB, 0x2C7]

/-- The last two stage 2 tables of KOI8-R. -/
def koi8rUpper : List ℕ :=
  [0x2500, 0x2502, 0x250C, 0x2510, 0x2514, 0x2518, 0x251C, 0x2524, 0x252C, 0x2534, 0x253C, 0x2580, 0x2584, 0x2588,
  0x258C, 0x2590, 0x2591, 0x2592, 0x2593, 0x2320, 0x25A0, 0x2219, 0x221A, 0x2248, 0x2264, 0x2265, 0xA0, 0x2321, 0xB0,
  0xB2, 0xB7, 0xF7, 0x2550, 0x2551, 0x2552, 0x451] ++ range' 0x2553 15 ++ [0x401] ++ range' 0x2562 11 ++
  [0xA9, 0x44E, 0x430, 0x431, 0x446, 0x434, 0x435, 0x444, 0x433, 0x445] ++ range' 0x438 8 ++ [0x44F, 0x440,
  0x441, 0x442, 0x443, 0x436, 0x432, 0x44C, 0x44B, 0x437, 0x448, 0x44D, 0x449, 0x447, 0x44A, 0x42E, 0x410, 0x411,
  0x426, 0x414, 0x415, 0x424, 0x413, 0x425] ++ range' 0x418 8 ++ [0x42F, 0x420, 0x421, 0x422, 0x423, 0x416,
  0x412, 0x42C, 0x42B, 0x417, 0x428, 0x42D, 0x429, 0x427, 0x42A]

/-- `enc_to_uni_index[charset]`, for the charsets that are not compatible with Unicode. -/
def encToUniIndex : EntityCharset → Option (List ℕ)
  | .cp1252 => some (iso88591Lower ++ win1252Upper)
  | .iso8859_15 => some (iso88591Lower ++ iso885915Upper)
  | .cp1251 => some (iso88591Lower ++ win1251Upper)
  | .iso8859_5 => some (iso88591Lower ++ iso88595Upper)
  | .cp866 => some (iso88591Lower ++ cp866Upper)
  | .macroman => some (macromanLower ++ macromanUpper)
  | .koi8r => some (iso88591Lower ++ koi8rUpper)
  | _ => none

/-- `map_to_unicode(code, table, &res)`. -/
def mapToUnicode (code : ℕ) (table : List ℕ) : ℕ := table.getD code 0

/-! ### Mappings to entities -/

/-- A row of a stage 3 table that is not NULL. -/
inductive EntityRow where
  /-- An entity for the code point. -/
  | entity (name : String)
  /-- The entity for the code point alone, if any, and those for it and a second one. -/
  | multicodepoint (default : Option String) (rows : List (ℕ × String))

/-- Stage 3 tables under their first code point. -/
abbrev EntityTable := List (ℕ × List (ℕ × EntityRow))

/-- Rows of consecutive code points, the first of which is `k`; a row is NULL where there is no name. -/
def run (k : ℕ) (names : List String) : List (ℕ × EntityRow) :=
  ((names.zipIdx k).filter fun row => row.1 ≠ "").map fun row => (row.2, .entity row.1)

/-- The row of a code point that begins entities for two code points. -/
def multi (k : ℕ) (default : Option String) (rows : List (ℕ × String)) : List (ℕ × EntityRow) :=
  [(k, .multicodepoint default rows)]

/-- `stage3_table_be_noapos_00000`. -/
def beNoapos : List (ℕ × EntityRow) :=
  run 0x22 ["quot", "", "", "", "amp", "#039"] ++ run 0x3C ["lt", "", "gt"]

/-- `stage3_table_be_apos_00000`. -/
def beApos : List (ℕ × EntityRow) :=
  run 0x22 ["quot", "", "", "", "amp", "apos"] ++ run 0x3C ["lt", "", "gt"]

/-- `stage3_table_html4_000C0` and `stage3_table_html5_000C0`. -/
def latin1Letters : List (ℕ × EntityRow) :=
  run 0x0 ["Agrave", "Aacute", "Acirc", "Atilde", "Auml", "Aring", "AElig", "Ccedil", "Egrave", "Eacute", "Ecirc",
    "Euml", "Igrave", "Iacute", "Icirc", "Iuml", "ETH", "Ntilde", "Ograve", "Oacute", "Ocirc", "Otilde", "Ouml",
    "times", "Oslash", "Ugrave", "Uacute", "Ucirc", "Uuml", "Yacute", "THORN", "szlig", "agrave", "aacute", "acirc",
    "atilde", "auml", "aring", "aelig", "ccedil", "egrave", "eacute", "ecirc", "euml", "igrave", "iacute", "icirc",
    "iuml", "eth", "ntilde", "ograve", "oacute", "ocirc", "otilde", "ouml", "divide", "oslash", "ugrave", "uacute",
    "ucirc", "uuml", "yacute", "thorn", "yuml"]

/-- `entity_ms_table_html4`. -/
def entityMsTableHtml4 : EntityTable := [
  (0x0, run 0x22 ["quot", "", "", "", "amp", "#039"] ++ run 0x3C ["lt", "", "gt"]),
  (0x80, run 0x20 ["nbsp", "iexcl", "cent", "pound", "curren", "yen", "brvbar", "sect", "uml", "copy", "ordf",
    "laquo", "not", "shy", "reg", "macr", "deg", "plusmn", "sup2", "sup3", "acute", "micro", "para", "middot",
    "cedil", "sup1", "ordm", "raquo", "frac14", "frac12", "frac34", "iquest"]),
  (0xC0, latin1Letters),
  (0x140, run 0x12 ["OElig", "oelig"] ++ run 0x20 ["Scaron", "scaron"] ++ run 0x38 ["Yuml"]),
  (0x180, run 0x12 ["fnof"]),
  (0x2C0, run 0x6 ["circ"] ++ run 0x1C ["tilde"]),
  (0x380, run 0x11 ["Alpha", "Beta", "Gamma", "Delta", "Epsilon", "Zeta", "Eta", "Theta", "Iota", "Kappa", "Lambda",
    "Mu", "Nu", "Xi", "Omicron", "Pi", "Rho", "", "Sigma", "Tau", "Upsilon", "Phi", "Chi", "Psi", "Omega"] ++
    run 0x31 ["alpha", "beta", "gamma", "delta", "epsilon", "zeta", "eta", "theta", "iota", "kappa", "lambda", "mu",
    "nu", "xi", "omicron"]),
  (0x3C0, run 0x0 ["pi", "rho", "sigmaf", "sigma", "tau", "upsilon", "phi", "chi", "psi", "omega"] ++
    run 0x11 ["thetasym", "upsih", "", "", "", "piv"]),
  (0x2000, run 0x2 ["ensp", "emsp"] ++ run 0x9 ["thinsp", "", "", "zwnj", "zwj", "lrm", "rlm", "", "", "", "ndash",
    "mdash", "", "", "", "lsquo", "rsquo", "sbquo", "", "ldquo", "rdquo", "bdquo", "", "dagger", "Dagger", "bull", "",
    "", "", "hellip"] ++ run 0x30 ["permil", "", "prime", "Prime"] ++ run 0x39 ["lsaquo", "rsaquo", "", "", "",
    "oline"]),
  (0x2040, run 0x4 ["frasl"]),
  (0x2080, run 0x2C ["euro"]),
  (0x2100, run 0x11 ["image"] ++ run 0x18 ["weierp", "", "", "", "real"] ++ run 0x22 ["trade"] ++ run 0x35 ["alefsym"]),
  (0x2180, run 0x10 ["larr", "uarr", "rarr", "darr", "harr"] ++ run 0x35 ["crarr"]),
  (0x21C0, run 0x10 ["lArr", "uArr", "rArr", "dArr", "hArr"]),
  (0x2200, run 0x0 ["forall", "", "part", "exist", "", "empty", "", "nabla", "isin", "notin", "", "ni", "", "", "",
    "prod", "", "sum", "minus"] ++ run 0x17 ["lowast", "", "", "radic", "", "", "prop", "infin", "", "ang"] ++
    run 0x27 ["and", "or", "cap", "cup", "int"] ++ run 0x34 ["there4"] ++ run 0x3C ["sim"]),
  (0x2240, run 0x5 ["cong", "", "", "asymp"] ++ run 0x20 ["ne", "equiv", "", "", "le", "ge"]),
  (0x2280, run 0x2 ["sub", "sup", "nsub", "", "sube", "supe"] ++ run 0x15 ["oplus", "", "otimes"] ++ run 0x25 ["perp"]),
  (0x22C0, run 0x5 ["sdot"]),
  (0x2300, run 0x8 ["lceil", "rceil", "lfloor", "rfloor"] ++ run 0x29 ["lang", "rang"]),
  (0x25C0, run 0xA ["loz"]),
  (0x2640, run 0x20 ["spades", "", "", "clubs", "", "hearts", "diams"])]

/-- `entity_ms_table_html5`. -/
def entityMsTableHtml5 : EntityTable := [
  (0x0, run 0x9 ["Tab", "NewLine"] ++ run 0x21 ["excl", "quot", "num", "dollar", "percnt", "amp", "apos", "lpar",
    "rpar", "ast", "plus", "comma", "", "period", "sol"] ++ run 0x3A ["colon", "semi"] ++
    multi 0x3C "lt" [(0x20D2, "nvlt")] ++ multi 0x3D "equals" [(0x20E5, "bne")] ++
    multi 0x3E "gt" [(0x20D2, "nvgt")] ++ run 0x3F ["quest"]),
  (0x40, run 0x0 ["commat"] ++ run 0x1B ["lbrack", "bsol", "rsqb", "Hat", "lowbar", "grave"] ++
    multi 0x26 none [(0x6A, "fjlig")] ++ run 0x3B ["lbrace", "vert", "rcub"]),
  (0x80, run 0x20 ["nbsp", "iexcl", "cent", "pound", "curren", "yen", "brvbar", "sect", "DoubleDot", "copy", "ordf",
    "laquo", "not", "shy", "reg", "macr", "deg", "plusmn", "sup2", "sup3", "DiacriticalAcute", "micro", "para",
    "CenterDot", "Cedilla", "sup1", "ordm", "raquo", "frac14", "half", "frac34", "iquest"]),
  (0xC0, latin1Letters),
  (0x100, run 0x0 ["Amacr", "amacr", "Abreve", "abreve", "Aogon", "aogon", "Cacute", "cacute", "Ccirc", "ccirc",
    "Cdot", "cdot", "Ccaron", "ccaron", "Dcaron", "dcaron", "Dstrok", "dstrok", "Emacr", "emacr", "", "", "Edot",
    "edot", "Eogon", "eogon", "Ecaron", "ecaron", "Gcirc", "gcirc", "Gbreve", "gbreve", "Gdot", "gdot", "Gcedil", "",
    "Hcirc", "hcirc", "Hstrok", "hstrok", "Itilde", "itilde", "Imacr", "imacr", "", "", "Iogon", "iogon", "Idot",
    "inodot", "IJlig", "ijlig", "Jcirc", "jcirc", "Kcedil", "kcedil", "kgreen", "Lacute", "lacute", "Lcedil",
    "lcedil", "Lcaron", "lcaron", "Lmidot"]),
  (0x140, run 0x0 ["lmidot", "Lstrok", "lstrok", "Nacute", "nacute", "Ncedil", "ncedil", "Ncaron", "ncaron", "napos",
    "ENG", "eng", "Omacr", "omacr", "", "", "Odblac", "odblac", "OElig", "oelig", "Racute", "racute", "Rcedil",
    "rcedil", "Rcaron", "rcaron", "Sacute", "sacute", "Scirc", "scirc", "Scedil", "scedil", "Scaron", "scaron",
    "Tcedil", "tcedil", "Tcaron", "tcaron", "Tstrok", "tstrok", "Utilde", "utilde", "Umacr", "umacr", "Ubreve",
    "ubreve", "Uring", "uring", "Udblac", "udblac", "Uogon", "uogon", "Wcirc", "wcirc", "Ycirc", "ycirc", "Yuml",
    "Zacute", "zacute", "Zdot", "zdot", "Zcaron", "zcaron"]),
  (0x180, run 0x12 ["fnof"] ++ run 0x35 ["imped"]),
  (0x1C0, run 0x35 ["gacute"]),
  (0x200, run 0x37 ["jmath"]),
  (0x2C0, run 0x6 ["circ", "Hacek"] ++ run 0x18 ["Breve", "dot", "ring", "ogon", "DiacriticalTilde",
    "DiacriticalDoubleAcute"]),
  (0x300, run 0x11 ["DownBreve"]),
  (0x380, run 0x11 ["Alpha", "Beta", "Gamma", "Delta", "Epsilon", "Zeta", "Eta", "Theta", "Iota", "Kappa", "Lambda",
    "Mu", "Nu", "Xi", "Omicron", "Pi", "Rho", "", "Sigma", "Tau", "Upsilon", "Phi", "Chi", "Psi", "Omega"] ++
    run 0x31 ["alpha", "beta", "gamma", "delta", "epsi", "zeta", "eta", "theta", "iota", "kappa", "lambda", "mu",
    "nu", "xi", "omicron"]),
  (0x3C0, run 0x0 ["pi", "rho", "sigmav", "sigma", "tau", "upsi", "phi", "chi", "psi", "omega"] ++
    run 0x11 ["thetasym", "upsih", "", "", "straightphi", "piv"] ++ run 0x1C ["Gammad", "gammad"] ++
    run 0x30 ["varkappa", "rhov", "", "", "", "straightepsilon", "backepsilon"]),
  (0x400, run 0x1 ["IOcy", "DJcy", "GJcy", "Jukcy", "DScy", "Iukcy", "YIcy", "Jsercy", "LJcy", "NJcy", "TSHcy",
    "KJcy", "", "Ubrcy", "DZcy", "Acy", "Bcy", "Vcy", "Gcy", "Dcy", "IEcy", "ZHcy", "Zcy", "Icy", "Jcy", "Kcy", "Lcy",
    "Mcy", "Ncy", "Ocy", "Pcy", "Rcy", "Scy", "Tcy", "Ucy", "Fcy", "KHcy", "TScy", "CHcy", "SHcy", "SHCHcy", "HARDcy",
    "Ycy", "SOFTcy", "Ecy", "YUcy", "YAcy", "acy", "bcy", "vcy", "gcy", "dcy", "iecy", "zhcy", "zcy", "icy", "jcy",
    "kcy", "lcy", "mcy", "ncy", "ocy", "pcy"]),
  (0x440, run 0x0 ["rcy", "scy", "tcy", "ucy", "fcy", "khcy", "tscy", "chcy", "shcy", "shchcy", "hardcy", "ycy",
    "softcy", "ecy", "yucy", "yacy", "", "iocy", "djcy", "gjcy", "jukcy", "dscy", "iukcy", "yicy", "jsercy", "ljcy",
    "njcy", "tshcy", "kjcy", "", "ubrcy", "dzcy"]),
  (0x2000, run 0x2 ["ensp", "emsp", "emsp13", "emsp14", "", "numsp", "puncsp", "ThinSpace", "hairsp",
    "ZeroWidthSpace", "zwnj", "zwj", "lrm", "rlm", "hyphen", "", "", "ndash", "mdash", "horbar", "Verbar", "",
    "OpenCurlyQuote", "rsquo", "sbquo", "", "OpenCurlyDoubleQuote", "rdquo", "bdquo", "", "dagger", "Dagger", "bull",
    "", "", "nldr", "hellip"] ++ run 0x30 ["permil", "pertenk", "prime", "Prime", "tprime", "backprime", "", "", "",
    "lsaquo", "rsaquo", "", "", "", "oline"]),
  (0x2040, run 0x1 ["caret", "", "hybull", "frasl"] ++ run 0xF ["bsemi"] ++ run 0x17 ["qprime"] ++
    multi 0x1F "MediumSpace" [(0x200A, "ThickSpace")] ++ run 0x20 ["NoBreak", "af", "InvisibleTimes", "ic"]),
  (0x2080, run 0x2C ["euro"]),
  (0x20C0, run 0x1B ["TripleDot", "DotDot"]),
  (0x2100, run 0x2 ["complexes", "", "", "incare"] ++ run 0xA ["gscr", "HilbertSpace", "Hfr", "Hopf", "planckh",
    "planck", "imagline", "Ifr", "lagran", "ell", "", "naturals", "numero", "copysr", "wp", "primes", "rationals",
    "realine", "Rfr", "Ropf", "rx", "", "", "", "trade", "", "Zopf", "", "", "mho", "Zfr", "iiota", "", "", "Bscr",
    "Cfr", "", "escr", "expectation", "Fouriertrf", "", "Mellintrf", "orderof", "aleph", "beth", "gimel", "daleth"]),
  (0x2140, run 0x5 ["CapitalDifferentialD", "DifferentialD", "exponentiale", "ImaginaryI"] ++ run 0x13 ["frac13",
    "frac23", "frac15", "frac25", "frac35", "frac45", "frac16", "frac56", "frac18", "frac38", "frac58", "frac78"]),
  (0x2180, run 0x10 ["larr", "uarr", "srarr", "darr", "harr", "UpDownArrow", "nwarrow", "UpperRightArrow",
    "LowerRightArrow", "swarr", "nleftarrow", "nrarr"] ++ multi 0x1D "rarrw" [(0x338, "nrarrw")] ++ run 0x1E ["Larr",
    "Uarr", "twoheadrightarrow", "Darr", "larrtl", "rarrtl", "LeftTeeArrow", "UpTeeArrow", "map", "DownTeeArrow", "",
    "larrhk", "rarrhk", "larrlp", "looparrowright", "harrw", "nleftrightarrow", "", "Lsh", "rsh", "ldsh", "rdsh", "",
    "crarr", "curvearrowleft", "curarr", "", "", "olarr", "orarr", "leftharpoonup", "leftharpoondown",
    "RightUpVector", "uharl"]),
  (0x21C0, run 0x0 ["rharu", "rhard", "RightDownVector", "dharl", "rightleftarrows", "udarr", "lrarr", "llarr",
    "upuparrows", "rrarr", "downdownarrows", "leftrightharpoons", "rightleftharpoons", "nLeftarrow", "nhArr", "nrArr",
    "DoubleLeftArrow", "DoubleUpArrow", "Implies", "Downarrow", "hArr", "Updownarrow", "nwArr", "neArr", "seArr",
    "swArr", "lAarr", "rAarr", "", "zigrarr"] ++ run 0x24 ["LeftArrowBar", "RightArrowBar"] ++
    run 0x35 ["DownArrowUpArrow"] ++ run 0x3D ["loarr", "roarr", "hoarr"]),
  (0x2200, run 0x0 ["forall", "comp"] ++ multi 0x2 "part" [(0x338, "npart")] ++ run 0x3 ["Exists", "nexist", "empty",
    "", "nabla", "isinv", "notin", "", "ReverseElement", "notniva", "", "", "prod", "Coproduct", "sum", "minus",
    "MinusPlus", "plusdo", "", "ssetmn", "lowast", "compfn", "", "Sqrt", "", "", "prop", "infin", "angrt"] ++
    multi 0x20 "angle" [(0x20D2, "nang")] ++ run 0x21 ["angmsd", "angsph", "mid", "nshortmid", "shortparallel",
    "nparallel", "and", "or"] ++ multi 0x29 "cap" [(0xFE00, "caps")] ++ multi 0x2A "cup" [(0xFE00, "cups")] ++
    run 0x2B ["Integral", "Int", "tint", "ContourIntegral", "DoubleContourIntegral", "Cconint", "cwint", "cwconint",
    "awconint", "there4", "Because", "ratio", "Colon", "minusd", "", "mDDot", "homtht"] ++
    multi 0x3C "sim" [(0x20D2, "nvsim")] ++ multi 0x3D "bsim" [(0x331, "race")] ++ multi 0x3E "ac" [(0x333, "acE")] ++
    run 0x3F ["acd"]),
  (0x2240, run 0x0 ["wr", "NotTilde"] ++ multi 0x2 "esim" [(0x338, "nesim")] ++ run 0x3 ["simeq", "nsime",
    "TildeFullEqual", "simne", "ncong", "approx", "napprox", "ape"] ++ multi 0xB "apid" [(0x338, "napid")] ++
    run 0xC ["bcong"] ++ multi 0xD "CupCap" [(0x20D2, "nvap")] ++ multi 0xE "bump" [(0x338, "nbump")] ++
    multi 0xF "HumpEqual" [(0x338, "nbumpe")] ++ multi 0x10 "esdot" [(0x338, "nedot")] ++ run 0x11 ["doteqdot",
    "fallingdotseq", "risingdotseq", "coloneq", "eqcolon", "ecir", "circeq", "", "wedgeq", "veeeq", "", "triangleq",
    "", "", "equest", "NotEqual"] ++ multi 0x21 "Congruent" [(0x20E5, "bnequiv")] ++ run 0x22 ["NotCongruent"] ++
    multi 0x24 "leq" [(0x20D2, "nvle")] ++ multi 0x25 "ge" [(0x20D2, "nvge")] ++ multi 0x26 "lE" [(0x338, "nlE")] ++
    multi 0x27 "geqq" [(0x338, "NotGreaterFullEqual")] ++ multi 0x28 "lneqq" [(0xFE00, "lvertneqq")] ++
    multi 0x29 "gneqq" [(0xFE00, "gvertneqq")] ++ multi 0x2A "ll" [(0x338, "nLtv"), (0x20D2, "nLt")] ++
    multi 0x2B "gg" [(0x338, "NotGreaterGreater"), (0x20D2, "nGt")] ++ run 0x2C ["between", "NotCupCap", "NotLess",
    "ngtr", "NotLessEqual", "ngeq", "LessTilde", "GreaterTilde", "nlsim", "ngsim", "lessgtr", "gl", "ntlg",
    "NotGreaterLess", "prec", "succ", "PrecedesSlantEqual", "succcurlyeq", "precsim"] ++
    multi 0x3F "SucceedsTilde" [(0x338, "NotSucceedsTilde")]),
  (0x2280, run 0x0 ["npr", "NotSucceeds"] ++ multi 0x2 "sub" [(0x20D2, "vnsub")] ++
    multi 0x3 "sup" [(0x20D2, "nsupset")] ++ run 0x4 ["nsub", "nsup", "SubsetEqual", "supe", "NotSubsetEqual",
    "NotSupersetEqual"] ++ multi 0xA "subsetneq" [(0xFE00, "vsubne")] ++ multi 0xB "supsetneq" [(0xFE00, "vsupne")] ++
    run 0xD ["cupdot", "UnionPlus"] ++ multi 0xF "sqsub" [(0x338, "NotSquareSubset")] ++
    multi 0x10 "sqsupset" [(0x338, "NotSquareSuperset")] ++ run 0x11 ["SquareSubsetEqual", "SquareSupersetEqual"] ++
    multi 0x13 "sqcap" [(0xFE00, "sqcaps")] ++ multi 0x14 "sqcup" [(0xFE00, "sqcups")] ++ run 0x15 ["CirclePlus",
    "ominus", "CircleTimes", "osol", "CircleDot", "ocir", "oast", "", "odash", "boxplus", "boxminus", "timesb",
    "sdotb", "vdash", "dashv", "DownTee", "perp", "", "models", "DoubleRightTee", "Vdash", "Vvdash", "VDash",
    "nvdash", "nvDash", "nVdash", "nVDash", "prurel", "", "vartriangleleft", "vrtri"] ++
    multi 0x34 "LeftTriangleEqual" [(0x20D2, "nvltrie")] ++ multi 0x35 "RightTriangleEqual" [(0x20D2, "nvrtrie")] ++
    run 0x36 ["origof", "imof", "mumap", "hercon", "intcal", "veebar", "", "barvee", "angrtvb", "lrtri"]),
  (0x22C0, run 0x0 ["xwedge", "xvee", "bigcap", "bigcup", "diamond", "sdot", "Star", "divonx", "bowtie", "ltimes",
    "rtimes", "lthree", "rthree", "backsimeq", "curlyvee", "curlywedge", "Sub", "Supset", "Cap", "Cup", "pitchfork",
    "epar", "lessdot", "gtrdot"] ++ multi 0x18 "Ll" [(0x338, "nLl")] ++ multi 0x19 "Gg" [(0x338, "nGg")] ++
    multi 0x1A "lesseqgtr" [(0xFE00, "lesg")] ++ multi 0x1B "gtreqless" [(0xFE00, "gesl")] ++ run 0x1E ["curlyeqprec",
    "cuesc", "NotPrecedesSlantEqual", "NotSucceedsSlantEqual", "NotSquareSubsetEqual", "NotSquareSupersetEqual", "",
    "", "lnsim", "gnsim", "precnsim", "scnsim", "nltri", "ntriangleright", "nltrie", "NotRightTriangleEqual",
    "vellip", "ctdot", "utdot", "dtdot", "disin", "isinsv", "isins"] ++ multi 0x35 "isindot" [(0x338, "notindot")] ++
    run 0x36 ["notinvc", "notinvb"] ++ multi 0x39 "isinE" [(0x338, "notinE")] ++ run 0x3A ["nisd", "xnis", "nis",
    "notnivc", "notnivb"]),
  (0x2300, run 0x5 ["barwed", "doublebarwedge", "", "lceil", "RightCeiling", "LeftFloor", "RightFloor", "drcrop",
    "dlcrop", "urcrop", "ulcrop", "bnot", "", "profline", "profsurf", "", "telrec", "target"] ++ run 0x1C ["ulcorner",
    "urcorner", "llcorner", "drcorn", "", "", "frown", "smile"] ++ run 0x2D ["cylcty", "profalar"] ++
    run 0x36 ["topbot"] ++ run 0x3D ["ovbar", "", "solbar"]),
  (0x2340, run 0x3C ["angzarr"]),
  (0x2380, run 0x30 ["lmoust", "rmoust", "", "", "OverBracket", "bbrk", "bbrktbrk"]),
  (0x23C0, run 0x1C ["OverParenthesis", "UnderParenthesis", "OverBrace", "UnderBrace", "", "", "trpezium"] ++
    run 0x27 ["elinters"]),
  (0x2400, run 0x23 ["blank"]),
  (0x24C0, run 0x8 ["oS"]),
  (0x2500, run 0x0 ["HorizontalLine", "", "boxv"] ++ run 0xC ["boxdr", "", "", "", "boxdl", "", "", "", "boxur", "",
    "", "", "boxul", "", "", "", "boxvr"] ++ run 0x24 ["boxvl"] ++ run 0x2C ["boxhd"] ++ run 0x34 ["boxhu"] ++
    run 0x3C ["boxvh"]),
  (0x2540, run 0x10 ["boxH", "boxV", "boxdR", "boxDr", "boxDR", "boxdL", "boxDl", "boxDL", "boxuR", "boxUr", "boxUR",
    "boxuL", "boxUl", "boxUL", "boxvR", "boxVr", "boxVR", "boxvL", "boxVl", "boxVL", "boxHd", "boxhD", "boxHD",
    "boxHu", "boxhU", "boxHU", "boxvH", "boxVh", "boxVH"]),
  (0x2580, run 0x0 ["uhblk", "", "", "", "lhblk", "", "", "", "block"] ++ run 0x11 ["blk14", "blk12", "blk34"] ++
    run 0x21 ["Square"] ++ run 0x2A ["squarf", "EmptyVerySmallSquare", "", "rect", "marker", "", "", "fltns", "",
    "bigtriangleup", "blacktriangle", "triangle", "", "", "blacktriangleright", "rtri", "", "", "", "bigtriangledown",
    "blacktriangledown", "triangledown"]),
  (0x25C0, run 0x2 ["blacktriangleleft", "ltri"] ++ run 0xA ["lozenge", "cir"] ++ run 0x2C ["tridot", "", "",
    "bigcirc"] ++ run 0x38 ["ultri", "urtri", "lltri", "EmptySmallSquare", "FilledSmallSquare"]),
  (0x2600, run 0x5 ["starf", "star"] ++ run 0xE ["phone"]),
  (0x2640, run 0x0 ["female", "", "male"] ++ run 0x20 ["spadesuit", "", "", "clubs", "", "hearts", "diamondsuit", "",
    "", "", "sung", "", "", "flat", "natur", "sharp"]),
  (0x2700, run 0x13 ["check", "", "", "", "cross"] ++ run 0x20 ["maltese"] ++ run 0x36 ["sext"]),
  (0x2740, run 0x18 ["VerticalSeparator"] ++ run 0x32 ["lbbrk", "rbbrk"]),
  (0x27C0, run 0x8 ["bsolhsub", "suphsol"] ++ run 0x26 ["LeftDoubleBracket", "RightDoubleBracket", "langle",
    "RightAngleBracket", "Lang", "Rang", "loang", "roang"] ++ run 0x35 ["longleftarrow", "LongRightArrow",
    "LongLeftRightArrow", "xlArr", "DoubleLongRightArrow", "xhArr", "", "xmap", "", "", "dzigrarr"]),
  (0x2900, run 0x2 ["nvlArr", "nvrArr", "nvHarr", "Map"] ++ run 0xC ["lbarr", "bkarow", "lBarr", "dbkarow",
    "drbkarow", "DDotrahd", "UpArrowBar", "DownArrowBar", "", "", "Rarrtl", "", "", "latail", "ratail", "lAtail",
    "rAtail", "larrfs", "rarrfs", "larrbfs", "rarrbfs", "", "", "nwarhk", "nearhk", "searhk", "swarhk", "nwnear",
    "toea", "seswar", "swnwar"] ++ multi 0x33 "rarrc" [(0x338, "nrarrc")] ++ run 0x35 ["cudarrr", "ldca", "rdca",
    "cudarrl", "larrpl", "", "", "curarrm", "cularrp"]),
  (0x2940, run 0x5 ["rarrpl", "", "", "harrcir", "Uarrocir", "lurdshar", "ldrushar", "", "", "LeftRightVector",
    "RightUpDownVector", "DownLeftRightVector", "LeftUpDownVector", "LeftVectorBar", "RightVectorBar",
    "RightUpVectorBar", "RightDownVectorBar", "DownLeftVectorBar", "DownRightVectorBar", "LeftUpVectorBar",
    "LeftDownVectorBar", "LeftTeeVector", "RightTeeVector", "RightUpTeeVector", "RightDownTeeVector",
    "DownLeftTeeVector", "DownRightTeeVector", "LeftUpTeeVector", "LeftDownTeeVector", "lHar", "uHar", "rHar", "dHar",
    "luruhar", "ldrdhar", "ruluhar", "rdldhar", "lharul", "llhard", "rharul", "lrhard", "udhar",
    "ReverseUpEquilibrium", "RoundImplies", "erarr", "simrarr", "larrsim", "rarrsim", "rarrap", "ltlarr", "",
    "gtrarr", "subrarr", "", "suplarr", "lfisht", "rfisht", "ufisht", "dfisht"]),
  (0x2980, run 0x5 ["lopar", "ropar"] ++ run 0xB ["lbrke", "rbrke", "lbrkslu", "rbrksld", "lbrksld", "rbrkslu",
    "langd", "rangd", "lparlt", "rpargt", "gtlPar", "ltrPar", "", "", "", "vzigzag", "", "vangrt", "angrtvbd"] ++
    run 0x24 ["ange", "range", "dwangle", "uwangle", "angmsdaa", "angmsdab", "angmsdac", "angmsdad", "angmsdae",
    "angmsdaf", "angmsdag", "angmsdah", "bemptyv", "demptyv", "cemptyv", "raemptyv", "laemptyv", "ohbar", "omid",
    "opar", "", "operp", "", "olcross", "odsold", "", "olcir", "ofcir"]),
  (0x29C0, run 0x0 ["olt", "ogt", "cirscir", "cirE", "solb", "bsolb", "", "", "", "boxbox", "", "", "", "trisb",
    "rtriltri"] ++ multi 0xF "LeftTriangleBar" [(0x338, "NotLeftTriangleBar")] ++
    multi 0x10 "RightTriangleBar" [(0x338, "NotRightTriangleBar")] ++ run 0x1C ["iinfin", "infintie", "nvinfin"] ++
    run 0x23 ["eparsl", "smeparsl", "eqvparsl"] ++ run 0x2B ["lozf"] ++ run 0x34 ["RuleDelayed", "", "dsol"]),
  (0x2A00, run 0x0 ["xodot", "bigoplus", "bigotimes", "", "biguplus", "", "bigsqcup"] ++ run 0xC ["iiiint",
    "fpartint", "", "", "cirfnint", "awint", "rppolint", "scpolint", "npolint", "pointint", "quatint", "intlarhk"] ++
    run 0x22 ["pluscir", "plusacir", "simplus", "plusdu", "plussim", "plustwo", "", "mcomma", "minusdu", "", "",
    "loplus", "roplus", "Cross", "timesd", "timesbar", "", "smashp", "lotimes", "rotimes", "otimesas", "Otimes",
    "odiv", "triplus", "triminus", "tritime", "iprod", "", "", "amalg"]),
  (0x2A40, run 0x0 ["capdot", "", "ncup", "ncap", "capand", "cupor", "cupcap", "capcup", "cupbrcap", "capbrcup",
    "cupcup", "capcap", "ccups", "ccaps", "", "", "ccupssm", "", "", "And", "Or", "andand", "oror", "orslope",
    "andslope", "", "andv", "orv", "andd", "ord", "", "wedbar"] ++ run 0x26 ["sdote", "", "", "", "simdot"] ++
    multi 0x2D "congdot" [(0x338, "ncongdot")] ++ run 0x2E ["easter", "apacir"] ++
    multi 0x30 "apE" [(0x338, "napE")] ++ run 0x31 ["eplus", "pluse", "Esim", "Colone", "Equal", "", "ddotseq",
    "equivDD", "ltcir", "gtcir", "ltquest", "gtquest"] ++ multi 0x3D "les" [(0x338, "nles")] ++
    multi 0x3E "ges" [(0x338, "nges")] ++ run 0x3F ["lesdot"]),
  (0x2A80, run 0x0 ["gesdot", "lesdoto", "gesdoto", "lesdotor", "gesdotol", "lap", "gap", "lne", "gne", "lnap",
    "gnap", "lesseqqgtr", "gEl", "lsime", "gsime", "lsimg", "gsiml", "lgE", "glE", "lesges", "gesles", "els", "egs",
    "elsdot", "egsdot", "el", "eg", "", "", "siml", "simg", "simlE", "simgE"] ++
    multi 0x21 "LessLess" [(0x338, "NotNestedLessLess")] ++
    multi 0x22 "GreaterGreater" [(0x338, "NotNestedGreaterGreater")] ++ run 0x24 ["glj", "gla", "ltcc", "gtcc",
    "lescc", "gescc", "smt", "lat"] ++ multi 0x2C "smte" [(0xFE00, "smtes")] ++
    multi 0x2D "late" [(0xFE00, "lates")] ++ run 0x2E ["bumpE"] ++
    multi 0x2F "preceq" [(0x338, "NotPrecedesEqual")] ++ multi 0x30 "SucceedsEqual" [(0x338, "NotSucceedsEqual")] ++
    run 0x33 ["prE", "scE", "precneqq", "scnE", "precapprox", "succapprox", "precnapprox", "succnapprox", "Pr", "Sc",
    "subdot", "supdot", "subplus"]),
  (0x2AC0, run 0x0 ["supplus", "submult", "supmult", "subedot", "supedot"] ++ multi 0x5 "subE" [(0x338, "nsubE")] ++
    multi 0x6 "supseteqq" [(0x338, "nsupseteqq")] ++ run 0x7 ["subsim", "supsim"] ++
    multi 0xB "subsetneqq" [(0xFE00, "vsubnE")] ++ multi 0xC "supnE" [(0xFE00, "varsupsetneqq")] ++ run 0xF ["csub",
    "csup", "csube", "csupe", "subsup", "supsub", "subsub", "supsup", "suphsub", "supdsub", "forkv", "topfork",
    "mlcp"] ++ run 0x24 ["Dashv", "", "Vdashl", "Barv", "vBar", "vBarv", "", "Vbar", "Not", "bNot", "rnmid", "cirmid",
    "midcir", "topcir", "nhpar", "parsim"] ++ multi 0x3D "parsl" [(0x20E5, "nparsl")]),
  (0xFB00, run 0x0 ["fflig", "filig", "fllig", "ffilig", "ffllig"]),
  (0x1D480, run 0x1C ["Ascr", "", "Cscr", "Dscr", "", "", "Gscr", "", "", "Jscr", "Kscr", "", "", "Nscr", "Oscr",
    "Pscr", "Qscr", "", "Sscr", "Tscr", "Uscr", "Vscr", "Wscr", "Xscr", "Yscr", "Zscr", "ascr", "bscr", "cscr",
    "dscr", "", "fscr", "", "hscr", "iscr", "jscr"]),
  (0x1D4C0, run 0x0 ["kscr", "lscr", "mscr", "nscr", "", "pscr", "qscr", "rscr", "sscr", "tscr", "uscr", "vscr",
    "wscr", "xscr", "yscr", "zscr"]),
  (0x1D500, run 0x4 ["Afr", "Bfr", "", "Dfr", "Efr", "Ffr", "Gfr", "", "", "Jfr", "Kfr", "Lfr", "Mfr", "Nfr", "Ofr",
    "Pfr", "Qfr", "", "Sfr", "Tfr", "Ufr", "Vfr", "Wfr", "Xfr", "Yfr", "", "afr", "bfr", "cfr", "dfr", "efr", "ffr",
    "gfr", "hfr", "ifr", "jfr", "kfr", "lfr", "mfr", "nfr", "ofr", "pfr", "qfr", "rfr", "sfr", "tfr", "ufr", "vfr",
    "wfr", "xfr", "yfr", "zfr", "Aopf", "Bopf", "", "Dopf", "Eopf", "Fopf", "Gopf"]),
  (0x1D540, run 0x0 ["Iopf", "Jopf", "Kopf", "Lopf", "Mopf", "", "Oopf", "", "", "", "Sopf", "Topf", "Uopf", "Vopf",
    "Wopf", "Xopf", "Yopf", "", "aopf", "bopf", "copf", "dopf", "eopf", "fopf", "gopf", "hopf", "iopf", "jopf",
    "kopf", "lopf", "mopf", "nopf", "oopf", "popf", "qopf", "ropf", "sopf", "topf", "uopf", "vopf", "wopf", "xopf",
    "yopf", "zopf"])]

/-! ### Known names -/

/-- The names of `ent_ht_be_apos`. -/
def entHtBeApos : List String := ["amp", "apos", "gt", "lt", "quot"]

/-- The entities of a row. -/
def EntityRow.names : EntityRow → List String
  | .entity name => [name]
  | .multicodepoint default rows => default.toList ++ rows.map Prod.snd

/-- The entities of a multi-stage table. -/
def EntityTable.names (table : EntityTable) : List String :=
  table.flatMap fun block => block.2.flatMap fun row => row.2.names

/-- The names of `ent_ht_html4`: those that a code point is mapped to. -/
def entHtHtml4 : List (List String) := [EntityTable.names entityMsTableHtml4]

/-- The names of `ent_ht_html5`: those that code points are mapped to, and others for the same code points. -/
def entHtHtml5 : List (List String) := [EntityTable.names entityMsTableHtml5, [
  "AMP", "ApplyFunction", "Assign", "Backslash", "Barwed", "Bernoullis", "Bumpeq", "COPY", "Cayleys", "CircleMinus",
  "ClockwiseContourIntegral", "CloseCurlyDoubleQuote", "CloseCurlyQuote", "Conint", "Copf",
  "CounterClockwiseContourIntegral", "DD", "Del", "DiacriticalDot", "DiacriticalGrave", "Diamond", "Dot", "DotEqual",
  "DoubleDownArrow", "DoubleLeftRightArrow", "DoubleLeftTee", "DoubleLongLeftArrow", "DoubleLongLeftRightArrow",
  "DoubleRightArrow", "DoubleUpDownArrow", "DoubleVerticalBar", "DownArrow", "DownLeftVector", "DownRightVector",
  "Element", "EqualTilde", "Equilibrium", "Escr", "ExponentialE", "FilledVerySmallSquare", "ForAll", "Fscr", "GT",
  "GreaterEqual", "GreaterEqualLess", "GreaterFullEqual", "GreaterLess", "GreaterSlantEqual", "Gt", "Hscr",
  "HumpDownHump", "Im", "Intersection", "InvisibleComma", "Iscr", "LT", "Laplacetrf", "LeftAngleBracket", "LeftArrow",
  "LeftArrowRightArrow", "LeftCeiling", "LeftDownVector", "LeftRightArrow", "LeftTee", "LeftTriangle", "LeftUpVector",
  "LeftVector", "Leftarrow", "Leftrightarrow", "LessEqualGreater", "LessFullEqual", "LessGreater", "LessSlantEqual",
  "Lleftarrow", "LongLeftArrow", "Longleftarrow", "Longleftrightarrow", "Longrightarrow", "LowerLeftArrow", "Lscr",
  "Lt", "Mscr", "NegativeMediumSpace", "NegativeThickSpace", "NegativeThinSpace", "NegativeVeryThinSpace",
  "NestedGreaterGreater", "NestedLessLess", "NonBreakingSpace", "Nopf", "NotDoubleVerticalBar", "NotElement",
  "NotEqualTilde", "NotExists", "NotGreater", "NotGreaterEqual", "NotGreaterSlantEqual", "NotGreaterTilde",
  "NotHumpDownHump", "NotHumpEqual", "NotLeftTriangle", "NotLeftTriangleEqual", "NotLessGreater", "NotLessLess",
  "NotLessSlantEqual", "NotLessTilde", "NotPrecedes", "NotReverseElement", "NotRightTriangle", "NotSubset",
  "NotSuperset", "NotTildeEqual", "NotTildeFullEqual", "NotTildeTilde", "NotVerticalBar", "OverBar", "PartialD",
  "PlusMinus", "Poincareplane", "Popf", "Precedes", "PrecedesEqual", "PrecedesTilde", "Product", "Proportion",
  "Proportional", "QUOT", "Qopf", "RBarr", "REG", "Rarr", "Re", "ReverseEquilibrium", "RightArrow",
  "RightArrowLeftArrow", "RightTee", "RightTeeArrow", "RightTriangle", "RightVector", "Rightarrow", "Rrightarrow",
  "Rscr", "Rsh", "ShortDownArrow", "ShortLeftArrow", "ShortRightArrow", "ShortUpArrow", "SmallCircle",
  "SquareIntersection", "SquareSubset", "SquareSuperset", "SquareUnion", "Subset", "Succeeds", "SucceedsSlantEqual",
  "SuchThat", "Sum", "Sup", "Superset", "SupersetEqual", "TRADE", "Therefore", "Tilde", "TildeEqual", "TildeTilde",
  "UnderBar", "UnderBracket", "Union", "UpArrow", "UpArrowDownArrow", "UpEquilibrium", "UpTee", "Uparrow",
  "UpperLeftArrow", "Upsi", "Vee", "Vert", "VerticalBar", "VerticalLine", "VerticalTilde", "VeryThinSpace", "Wedge",
  "acute", "alefsym", "ang", "angst", "ap", "approxeq", "asymp", "asympeq", "backcong", "backsim", "barwedge",
  "becaus", "because", "bepsi", "bernou", "bigodot", "bigstar", "bigvee", "bigwedge", "blacklozenge", "blacksquare",
  "bot", "bottom", "boxh", "boxtimes", "bprime", "breve", "bsime", "bullet", "bumpe", "bumpeq", "caron", "cedil",
  "centerdot", "checkmark", "circlearrowleft", "circlearrowright", "circledR", "circledS", "circledast",
  "circledcirc", "circleddash", "cire", "clubsuit", "colone", "complement", "cong", "conint", "coprod", "cuepr",
  "cularr", "curlyeqsucc", "curvearrowright", "cuvee", "cuwed", "dArr", "dash", "dblac", "dd", "ddagger", "ddarr",
  "dharr", "diam", "diams", "die", "digamma", "div", "divideontimes", "dlcorn", "doteq", "dotminus", "dotplus",
  "dotsquare", "downarrow", "downharpoonleft", "downharpoonright", "dtri", "dtrif", "duarr", "duhar", "eDDot", "eDot",
  "ecolon", "ee", "efDot", "emptyset", "emptyv", "epsilon", "epsiv", "eqcirc", "eqsim", "eqslantgtr", "eqslantless",
  "equiv", "erDot", "exist", "fork", "frac12", "gE", "gel", "geq", "geqslant", "ggg", "gnE", "gnapprox", "gneq",
  "gsim", "gtdot", "gtrapprox", "gtreqqless", "gtrless", "gtrsim", "gvnE", "hamilt", "hbar", "heartsuit", "hksearow",
  "hkswarow", "hookleftarrow", "hookrightarrow", "hslash", "iff", "ii", "iiint", "image", "imagpart", "imath", "in",
  "int", "integers", "intercal", "intprod", "isin", "it", "kappav", "lArr", "lEg", "lang", "larrb", "lcub", "ldquo",
  "ldquor", "le", "leftarrow", "leftarrowtail", "leftleftarrows", "leftrightarrow", "leftrightarrows",
  "leftrightsquigarrow", "leftthreetimes", "leg", "leqq", "leqslant", "lessapprox", "lesssim", "lfloor", "lg",
  "lhard", "lharu", "lmoustache", "lnE", "lnapprox", "lneq", "lobrk", "longleftrightarrow", "longmapsto",
  "longrightarrow", "looparrowleft", "loz", "lrcorner", "lrhar", "lsh", "lsim", "lsqb", "lsquo", "lsquor", "ltdot",
  "ltrie", "ltrif", "lvnE", "malt", "mapsto", "mapstodown", "mapstoleft", "mapstoup", "measuredangle", "midast",
  "middot", "minusb", "mldr", "mnplus", "mp", "mstpos", "multimap", "nGtv", "nLeftrightarrow", "nRightarrow", "nap",
  "natural", "ne", "nearr", "nearrow", "nequiv", "nesear", "nexists", "ngE", "nge", "ngeqq", "ngeqslant", "ngt",
  "nharr", "ni", "niv", "nlArr", "nlarr", "nle", "nleq", "nleqq", "nleqslant", "nless", "nlt", "nmid", "notinva",
  "notni", "npar", "nprcue", "npre", "nprec", "npreceq", "nrightarrow", "nrtri", "nrtrie", "nsc", "nsccue", "nsce",
  "nshortparallel", "nsim", "nsimeq", "nsmid", "nspar", "nsqsube", "nsqsupe", "nsube", "nsubset", "nsubseteq",
  "nsubseteqq", "nsucc", "nsucceq", "nsupE", "nsupe", "nsupseteq", "ntgl", "ntriangleleft", "ntrianglelefteq",
  "ntrianglerighteq", "nwarr", "odot", "ohm", "oint", "oplus", "order", "oscr", "otimes", "par", "parallel", "phiv",
  "phmmat", "plankv", "plusb", "pm", "pr", "prap", "prcue", "pre", "preccurlyeq", "prnE", "prnap", "prnsim", "propto",
  "prsim", "qint", "quaternions", "questeq", "rArr", "rBarr", "radic", "rang", "rangle", "rarr", "rarrb", "rarrlp",
  "rbarr", "rbrace", "rbrack", "rceil", "rdquor", "real", "realpart", "reals", "rfloor", "rightarrow",
  "rightarrowtail", "rightharpoondown", "rightharpoonup", "rightrightarrows", "rightsquigarrow", "rightthreetimes",
  "rlarr", "rlhar", "rmoustache", "robrk", "rsquor", "rtrie", "rtrif", "sc", "scap", "sccue", "sce", "scnap", "scsim",
  "searr", "searrow", "setminus", "setmn", "sfrown", "shortmid", "sigmaf", "sime", "slarr", "smallsetminus", "smid",
  "spades", "spar", "sqsube", "sqsubset", "sqsubseteq", "sqsup", "sqsupe", "sqsupseteq", "squ", "square", "squf",
  "ssmile", "sstarf", "strns", "sube", "subnE", "subne", "subset", "subseteq", "subseteqq", "succeq", "succneqq",
  "succnsim", "succsim", "supE", "supne", "supset", "supseteq", "supsetneqq", "swarrow", "tbrk", "tdot", "therefore",
  "thetav", "thickapprox", "thicksim", "thinsp", "thkap", "thksim", "tilde", "top", "tosa", "triangleleft",
  "trianglelefteq", "triangleright", "trianglerighteq", "trie", "twixt", "twoheadleftarrow", "uArr", "uharr",
  "ulcorn", "uml", "uparrow", "updownarrow", "upharpoonleft", "upharpoonright", "uplus", "upsilon", "urcorn", "utri",
  "utrif", "uuarr", "vArr", "vDash", "varepsilon", "varnothing", "varphi", "varpi", "varpropto", "varr", "varrho",
  "varsigma", "varsubsetneq", "varsubsetneqq", "varsupsetneq", "vartheta", "vartriangleright", "vee", "verbar",
  "vltri", "vnsup", "vprop", "vsupnE", "wedge", "weierp", "wreath", "xcap", "xcirc", "xcup", "xdtri", "xharr",
  "xlarr", "xoplus", "xotime", "xrArr", "xrarr", "xsqcup", "xuplus", "xutri", "zeetrf"]]

/-! ### Looking up a code point -/

/-- The row of a code point in a stage 3 table. -/
def stage3Row (table : List (ℕ × EntityRow)) (k : ℕ) : Option EntityRow :=
  (table.find? fun row => row.1 == k).map Prod.snd

/-- The row of a code point in a multi-stage table: `table[stage 1][stage 2][stage 3]`. -/
def stage1Row (table : EntityTable) (k : ℕ) : Option EntityRow :=
  (table.find? fun block => block.1 == k / 64 * 64).bind fun block => stage3Row block.2 (k % 64)

/-- An ASCII letter or digit. -/
def isAlnum (b : UInt8) : Bool := (48 ≤ b && b ≤ 57) || (65 ≤ b && b ≤ 90) || (97 ≤ b && b ≤ 122)

/-- What stands between `&` and `;` in a character reference: letters and digits, after a `#` if it is a number. -/
def isReference (body : Bytes) : Bool :=
  let name := if body.head? = some 35 then body.tail else body
  !name.isEmpty && name.all isAlnum

/-- All entities of a row are references. -/
def EntityRow.ok : EntityRow → Bool
  | .entity name => isReference (cstr name)
  | .multicodepoint default rows =>
    default.all (fun name => isReference (cstr name)) && rows.all fun row => isReference (cstr row.2)

theorem beNoapos_ok : (beNoapos.all fun row => row.2.ok) = true := by decide +kernel

theorem beApos_ok : (beApos.all fun row => row.2.ok) = true := by decide +kernel

theorem entityMsTableHtml4_ok : (entityMsTableHtml4.all fun block => block.2.all fun row => row.2.ok) = true := by
  decide +kernel

theorem entityMsTableHtml5_ok : (entityMsTableHtml5.all fun block => block.2.all fun row => row.2.ok) = true := by
  decide +kernel

theorem ok_of_stage3Row {table : List (ℕ × EntityRow)} {k : ℕ} {row : EntityRow}
    (hok : (table.all fun row => row.2.ok) = true) (h : stage3Row table k = some row) : row.ok = true := by
  obtain ⟨⟨j, row'⟩, hfind, rfl⟩ := Option.map_eq_some_iff.mp h
  exact all_eq_true.mp hok _ (mem_of_find?_eq_some hfind)

theorem ok_of_stage1Row {table : EntityTable} {k : ℕ} {row : EntityRow}
    (hok : (table.all fun block => block.2.all fun row => row.2.ok) = true) (h : stage1Row table k = some row) :
    row.ok = true := by
  obtain ⟨block, hfind, hrow⟩ := Option.bind_eq_some_iff.mp h
  exact ok_of_stage3Row (all_eq_true.mp hok _ (mem_of_find?_eq_some hfind)) hrow

end PhpSandbox.Html
