import Mathlib.Data.List.DropRight
import ControllerUniffi.Text.Percent

/-!
# URLs

The parser and the serializer of the URL Standard for absolute URLs, without a base URL.  The standard's state
machine leaves the authority and the path at the first `?` or `#` and never looks back, so it is written here as
cuts of the text: the scheme, the part before `?` and `#`, the authority up to the next slash, the path segments.
Host parsing is a parameter: it takes whether the scheme is special and the host text, and returns the serialized
host.
-/

namespace Whatwg

open Text

/-- The standard's host parser, followed by the host serializer. -/
abbrev HostParser := Bool → List Char → Option (List Char)

inductive Path where
  | opaquePath (text : List Char)
  | segments (l : List (List Char))
  deriving DecidableEq, Repr

structure Authority where
  username : List Char
  password : List Char
  host : Option (List Char)
  port : Option Nat
  deriving DecidableEq, Repr

structure Url where
  scheme : List Char
  authority : Authority
  path : Path
  query : Option (List Char)
  fragment : Option (List Char)
  deriving DecidableEq, Repr

/-! ### Character classes and percent-encode sets -/

def isC0OrSpace (c : Char) : Bool := c.toNat ≤ 0x20

def isTabOrNewline (c : Char) : Bool := c = '\t' || c = '\n' || c = '\r'

def isSchemeChar (c : Char) : Bool := c.isAlphanum || c = '+' || c = '-' || c = '.'

/-- In URLs of special schemes a backslash is a slash. -/
def isSlash (special : Bool) (c : Char) : Bool := c = '/' || (special && c = '\\')

def c0Set (c : Char) : Bool := c.toNat ≤ 0x1F || 0x7E < c.toNat

def fragmentSet (c : Char) : Bool := c0Set c || c = ' ' || c = '"' || c = '<' || c = '>' || c = '`'

def querySet (c : Char) : Bool := c0Set c || c = ' ' || c = '"' || c = '#' || c = '<' || c = '>'

def specialQuerySet (c : Char) : Bool := querySet c || c = '\''

def pathSet (c : Char) : Bool := querySet c || c = '?' || c = '`' || c = '{' || c = '}'

def userinfoSet (c : Char) : Bool :=
  pathSet c || c = '/' || c = ':' || c = ';' || c = '=' || c = '@' || c = '[' || c = '\\' || c = ']' || c = '^' ||
    c = '|'

/-! ### Schemes -/

def isSpecial (scheme : List Char) : Bool :=
  scheme ∈ ["ftp".toList, "file".toList, "http".toList, "https".toList, "ws".toList, "wss".toList]

def defaultPort (scheme : List Char) : Option Nat :=
  if scheme = "ftp".toList then some 21
  else if scheme = "http".toList ∨ scheme = "ws".toList then some 80
  else if scheme = "https".toList ∨ scheme = "wss".toList then some 443
  else none

/-- The lowercased scheme and the text behind its colon. -/
def splitScheme (s : List Char) : Option (List Char × List Char) :=
  match s with
  | [] => none
  | c :: _ =>
    if c.isAlpha then
      match s.dropWhile isSchemeChar with
      | ':' :: rest => some ((s.takeWhile isSchemeChar).map Char.toLower, rest)
      | _ => none
    else none

/-! ### Authorities -/

/-- The host text and the port text: cut at the first colon outside brackets. -/
def splitHostPort (inBrackets : Bool) : List Char → List Char × Option (List Char)
  | [] => ([], none)
  | c :: s =>
    if c = ':' ∧ inBrackets = false then ([], some s)
    else
      let r := splitHostPort (if c = '[' then true else if c = ']' then false else inBrackets) s
      (c :: r.1, r.2)

/-- The port, none if it is empty or the default of the scheme. -/
def parsePort (scheme digits : List Char) : Option (Option Nat) :=
  if digits.all Char.isDigit then
    let n := digits.foldl (fun n c => 10 * n + (c.toNat - '0'.toNat)) 0
    if digits = [] then some none
    else if 65535 < n then none
    else some (if defaultPort scheme = some n then none else some n)
  else none

/-- Credentials end at the last `@`, the user name at the first colon.  A host must follow credentials or precede
a port, and special schemes always need one. -/
def parseAuthority (hostParser : HostParser) (scheme text : List Char) : Option Authority :=
  let credentials := (text.rdropWhile (· ≠ '@')).dropLast
  let hostPort := splitHostPort false (text.rtakeWhile (· ≠ '@'))
  if hostPort.1 = [] ∧ ('@' ∈ text ∨ hostPort.2.isSome ∨ isSpecial scheme) then none
  else
    match hostParser (isSpecial scheme) hostPort.1 with
    | none => none
    | some host =>
      match hostPort.2.elim (some none) (parsePort scheme) with
      | none => none
      | some port =>
        some {
          username := percentEncode userinfoSet (credentials.takeWhile (· ≠ ':'))
          password := percentEncode userinfoSet ((credentials.dropWhile (· ≠ ':')).drop 1)
          host := some host
          port := port }

/-- What the standard's host parser does with C0 controls and spaces: they are forbidden in domains and in bracketed
addresses; other hosts are percent-encoded. -/
structure HostParser.Standard (hostParser : HostParser) : Prop where
  refuses : ∀ (special : Bool) (text : List Char), special = true ∨ text.head? = some '[' →
    (∃ c ∈ text, isC0OrSpace c = true) → hostParser special text = none
  opaque_host : ∀ text host : List Char, text.head? ≠ some '[' → hostParser false text = some host →
    host = percentEncode c0Set text

def noAuthority : Authority := { username := [], password := [], host := none, port := none }

/-! ### Paths -/

def isSingleDot (seg : List Char) : Bool := seg.map Char.toLower ∈ [".".toList, "%2e".toList]

def isDoubleDot (seg : List Char) : Bool :=
  seg.map Char.toLower ∈ ["..".toList, ".%2e".toList, "%2e.".toList, "%2e%2e".toList]

def isDriveLetter : List Char → Bool
  | [c, d] => c.isAlpha && (d = ':' || d = '|')
  | _ => false

/-- A drive letter as it stands in a path. -/
def isNormalizedDriveLetter : List Char → Bool
  | [c, ':'] => c.isAlpha
  | _ => false

/-- Remove the last segment, except a drive letter that is alone in a file URL. -/
def shorten (file : Bool) (path : List (List Char)) : List (List Char) :=
  match path with
  | [seg] => if file && isNormalizedDriveLetter seg then path else []
  | _ => path.dropLast

/-- A segment that was read to its end; `last` tells that no slash follows it. -/
def pushSegment (file last : Bool) (path : List (List Char)) (seg : List Char) : List (List Char) :=
  if isDoubleDot seg then shorten file path ++ if last then [[]] else []
  else if isSingleDot seg then path ++ if last then [[]] else []
  else if file ∧ path = [] ∧ isDriveLetter seg then [[seg.headD ':', ':']]
  else path ++ [seg]

def pushSegments (file : Bool) (path : List (List Char)) : List (List Char) → List (List Char)
  | [] => path
  | [seg] => pushSegment file true path (percentEncode pathSet seg)
  | seg :: rest => pushSegments file (pushSegment file false path (percentEncode pathSet seg)) rest

/-- The path read from the text behind its first slash. -/
def parsePath (scheme text : List Char) : List (List Char) :=
  pushSegments (scheme = "file".toList) [] (text.splitOnP (isSlash (isSpecial scheme)))

/-! ### The parts before the query -/

/-- A special scheme other than `file`: any number of slashes, the authority, the path. -/
def parseSpecial (hostParser : HostParser) (scheme text : List Char) : Option (Authority × Path) :=
  let rest := text.dropWhile (isSlash true)
  (parseAuthority hostParser scheme (rest.takeWhile (! isSlash true ·))).map fun authority =>
    (authority, .segments (parsePath scheme ((rest.dropWhile (! isSlash true ·)).drop 1)))

/-- The `file` scheme: an optional host after two slashes, which a drive letter is not. -/
def parseFile (hostParser : HostParser) (scheme text : List Char) : Option (Authority × Path) :=
  let withHost (host : List Char) (path : List Char) : Authority × Path :=
    ({ noAuthority with host := some host }, .segments (parsePath scheme path))
  match text with
  | c :: d :: rest =>
    if isSlash true c then
      if isSlash true d then
        let hostText := rest.takeWhile (! isSlash true ·)
        let after := (rest.dropWhile (! isSlash true ·)).drop 1
        if isDriveLetter hostText then some (withHost [] rest)
        else if hostText = [] then some (withHost [] after)
        else (hostParser true hostText).map fun host =>
          withHost (if host = "localhost".toList then [] else host) after
      else some (withHost [] (d :: rest))
    else some (withHost [] text)
  | [c] => some (withHost [] (if isSlash true c then [] else [c]))
  | [] => some (withHost [] [])

/-- Any other scheme: an authority after two slashes, a path after one, an opaque path otherwise. -/
def parseOther (hostParser : HostParser) (scheme text : List Char) : Option (Authority × Path) :=
  match text with
  | '/' :: '/' :: rest =>
    (parseAuthority hostParser scheme (rest.takeWhile (· ≠ '/'))).map fun authority =>
      match rest.dropWhile (· ≠ '/') with
      | [] => (authority, .segments [])
      | _ :: path => (authority, .segments (parsePath scheme path))
  | '/' :: path => some (noAuthority, .segments (parsePath scheme path))
  | text => some (noAuthority, .opaquePath (percentEncode c0Set text))

def parseHierarchy (hostParser : HostParser) (scheme text : List Char) : Option (Authority × Path) :=
  if scheme = "file".toList then parseFile hostParser scheme text
  else if isSpecial scheme then parseSpecial hostParser scheme text
  else parseOther hostParser scheme text

/-! ### The parser -/

/-- Leading and trailing C0 controls and spaces, and all tabs and newlines, are dropped. -/
def preprocess (input : List Char) : List Char :=
  ((input.dropWhile isC0OrSpace).rdropWhile isC0OrSpace).filter (! isTabOrNewline ·)

/-- The text between the first `?` and the `#`. -/
def queryText (s : List Char) : Option (List Char) :=
  match s.dropWhile fun c => c ≠ '?' ∧ c ≠ '#' with
  | '?' :: r => some (r.takeWhile (· ≠ '#'))
  | _ => none

/-- The text behind the first `#`. -/
def fragmentText (s : List Char) : Option (List Char) :=
  match s.dropWhile (· ≠ '#') with
  | '#' :: r => some r
  | _ => none

def parse (hostParser : HostParser) (input : List Char) : Option Url :=
  match splitScheme (preprocess input) with
  | none => none
  | some (scheme, rest) =>
    (parseHierarchy hostParser scheme (rest.takeWhile fun c => c ≠ '?' ∧ c ≠ '#')).map fun (authority, path) =>
      { scheme := scheme
        authority := authority
        path := path
        query := (queryText rest).map
          (percentEncode (if isSpecial scheme then specialQuerySet else querySet))
        fragment := (fragmentText rest).map (percentEncode fragmentSet) }

/-! ### The serializer -/

def Path.text : Path → List Char
  | .opaquePath text => text
  | .segments l => l.flatMap ('/' :: ·)

def Authority.text (a : Authority) : List Char :=
  match a.host with
  | none => []
  | some host =>
    ['/', '/'] ++
      (if a.username = [] ∧ a.password = [] then []
        else a.username ++ (if a.password = [] then [] else ':' :: a.password) ++ ['@']) ++
      host ++ a.port.elim [] fun n => ':' :: Nat.toDigits 10 n

/-- A path that starts with an empty segment is not to be taken for an authority. -/
def Url.pathMark (u : Url) : List Char :=
  match u.authority.host, u.path with
  | none, .segments ([] :: _ :: _) => ['/', '.']
  | _, _ => []

/-- The serialization up to the query. -/
def Url.head (u : Url) : List Char := u.scheme ++ ':' :: (u.authority.text ++ u.pathMark ++ u.path.text)

def Url.serialize (u : Url) : List Char :=
  u.head ++ u.query.elim [] ('?' :: ·) ++ u.fragment.elim [] ('#' :: ·)

/-- The host, none also when it is empty. -/
def Url.hostText (u : Url) : Option (List Char) := u.authority.host.filter (· ≠ [])

end Whatwg
