/-
Module: ExitfyCores.Bridge.SecretPatterns
Layer: Bridge
Purpose: The three patterns and the key list of `internal/bridge/bridge.go`, shared word for word by the
  sing-box bridge. Go matches runes, so the patterns are expressions over decoded symbols; `(?i)` is
  Unicode simple folding, which adds U+017F to `s` and U+212A to `k`.
Imports: ExitfyCores.Lib.Regex, ExitfyCores.Lib.GoString
Trusted boundary: human-reviewed spec
Main exports: proxyURI, httpURL, secretFieldKey, secretKeyPattern, isSecretKey
Open obligations: none
-/
import ExitfyCores.Lib.Regex
import ExitfyCores.Lib.GoString

namespace ExitfyCores.Bridge

/-- Runes that `(?i)` lets the pattern rune `c` match. -/
def foldsTo (c r : Char) : Bool :=
  r == c || r == c.toUpper || (c == 's' && r == '\u017F') || (c == 'k' && r == '\u212A')

/-- `[0-9A-Za-z_]`, the word class of `\b`. -/
def isWordRune (r : Char) : Bool :=
  ('0' ≤ r && r ≤ '9') || ('A' ≤ r && r ≤ 'Z') || ('a' ≤ r && r ≤ 'z') || r == '_'

/-- `\s`. -/
def isSpaceRune (r : Char) : Bool :=
  r == '\t' || r == '\n' || r == '\x0C' || r == '\r' || r == ' '

/-- The word class on symbols. -/
def wordSymbol (s : Symbol) : Bool := isWordRune s.rune

/-- `\s` on symbols. -/
def spaceSymbol (s : Symbol) : Bool := isSpaceRune s.rune

/-- `\S` on symbols. -/
def nonSpaceSymbol (s : Symbol) : Bool := !isSpaceRune s.rune

/-- One pattern rune under `(?i)`. -/
def letter (c : Char) : Regex Symbol := .sat fun s => foldsTo c s.rune

/-- A literal of the pattern under `(?i)`. -/
def literal (text : String) : Regex Symbol := .seqs (text.toList.map letter)

/-- `(?:vless|vmess|trojan|ss|hy2|hysteria2?|tuic)` -/
def proxyScheme : Regex Symbol :=
  .alts [literal "vless", literal "vmess", literal "trojan", literal "ss", literal "hy2",
    .seq (literal "hysteria") (.opt (letter '2')), literal "tuic"]

/-- `https?` -/
def httpScheme : Regex Symbol := .seq (literal "http") (.opt (letter 's'))

/-- A scheme with `://\S+` behind it. -/
def schemeURL (scheme : Regex Symbol) : Regex Symbol :=
  .seq scheme (.seq (literal "://") (.some1 nonSpaceSymbol))

/-- `(?i)\b(?:vless|vmess|trojan|ss|hy2|hysteria2?|tuic)://\S+` -/
def proxyURI : Regex Symbol := .seq (.boundary wordSymbol) (schemeURL proxyScheme)

/-- `(?i)https?://\S+` -/
def httpURL : Regex Symbol := schemeURL httpScheme

/-- The alternatives of `secretKeyPattern`, in order. -/
def secretKeyPattern : List String :=
  ["proxy-authorization", "pre_shared_key", "pre-shared-key",
    "private_key", "private-key", "obfs-password", "obfs_password", "authorization",
    "refresh_token", "access_token", "client_secret", "auth_str", "auth-str",
    "legacy_seed", "legacy-seed", "x-api-key", "x_api_key", "api-key", "api_key",
    "password", "passwd", "username", "encryption", "headers", "cookie", "token", "secret",
    "uuid", "hwid", "x-hwid", "presharedkey", "privatekey", "pass", "auth", "obfs", "psk",
    "seed", "path", "user", "id"]

/-- `["']` -/
def quoteSymbol (s : Symbol) : Bool := s.rune == '"' || s.rune == '\''

/-- `[:=]` -/
def separatorSymbol (s : Symbol) : Bool := s.rune == ':' || s.rune == '='

/-- `(?i)\b(?:` + secretKeyPattern + `)["']?\s*[:=]\s*` -/
def secretFieldKey : Regex Symbol :=
  .seq (.boundary wordSymbol)
    (.seqs [.alts (secretKeyPattern.map literal), .opt (.sat quoteSymbol), .many spaceSymbol,
      .sat separatorSymbol, .many spaceSymbol])

/-- `unicode.ToLower` as far as the comparison with ASCII keys sees it: the runes with an ASCII lower case
    are the ASCII capitals, U+0130 and U+212A, and every other rune has a lower case outside ASCII. -/
def toLower (r : Char) : Char :=
  if r == '\u0130' then 'i' else if r == '\u212A' then 'k' else r.toLower

/-- The keys of the `switch` in `isSecretKey`. -/
def secretKeys : List String :=
  ["password", "passwd", "pass", "token", "access_token", "refresh_token",
    "client_secret", "secret", "uuid", "proxy-authorization", "authorization",
    "auth_str", "auth-str", "auth", "obfs-password", "obfs_password", "obfs",
    "encryption", "private_key", "private-key", "privatekey", "pre_shared_key",
    "pre-shared-key", "presharedkey", "psk", "legacy_seed", "legacy-seed",
    "seed", "path", "headers", "cookie", "x-api-key", "x_api_key", "api-key",
    "api_key", "x-hwid", "hwid", "username", "user", "id"]

/-- `isSecretKey` -/
def isSecretKey (value : Bytes) : Bool :=
  secretKeys.any fun key => key.toList == (runes value).map toLower

end ExitfyCores.Bridge
