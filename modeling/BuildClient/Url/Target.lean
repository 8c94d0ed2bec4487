import BuildClient.Failure
import BuildClient.Text.Alphanumeric
import BuildClient.Text.Form
import BuildClient.Url.Host
import BuildClient.Url.Names

/-!
Bringing an address into the form in which it is sent.
-/

namespace BuildClient.Url

open Text

/-- An address cut into its components; an absent component differs from an empty one. -/
structure Components where
  scheme : Option (List Char)
  authority : Option (List Char)
  path : List Char
  query : Option (List Char)
  fragment : Option (List Char)
deriving DecidableEq, Repr

namespace Components

def isSchemeChar (c : Char) : Bool := c.isAlphanum || c == '+' || c == '-'

/-- The scheme and what follows its colon. -/
def cutScheme (s : List Char) : Option (List Char × List Char) :=
  match s with
  | [] => none
  | c :: _ =>
    match cutFirst ':' s with
    | (scheme, some rest) =>
      if c.isAlpha && scheme.all isSchemeChar then some (scheme, rest) else none
    | (_, none) => none

def endsAuthority (c : Char) : Bool := c == '\\' || c == '/' || c == '?' || c == '#'

/-- What follows the scheme. An authority stands behind two slashes. -/
def readRest (scheme : Option (List Char)) (s : List Char) : Components :=
  let (authority, s) := match s with
    | '/' :: '/' :: s =>
      (some (s.takeWhile fun c => !endsAuthority c), s.dropWhile fun c => !endsAuthority c)
    | s => (none, s)
  let (s, fragment) := cutFirst '#' s
  let (path, query) := cutFirst '?' s
  ⟨scheme, authority, path, query, fragment⟩

/-- A text that starts with neither a scheme nor a slash starts with its authority. -/
def read (s : List Char) : Components :=
  match cutScheme s with
  | some (scheme, rest) => readRest (some scheme) rest
  | none =>
    if s.head? = some '/' || s.isEmpty then readRest none s else readRest none ('/' :: '/' :: s)

end Components

/-- Marks that separate parts inside a component. -/
def isDelimiter (c : Char) : Bool := ("!$&'()*+,;=").toList.contains c

def inUserInfo (c : Char) : Bool := Percent.isUnreserved c || isDelimiter c || c == ':'

def inPath (c : Char) : Bool := inUserInfo c || c == '@' || c == '/'

def inQuery (c : Char) : Bool := inPath c || c == '?'

/-- Resolves one step of a path; `done` holds the steps so far, the last one first. -/
def resolveStep (done : List (List Char)) (step : List Char) : List (List Char) :=
  if step = ['.'] then done
  else if step = ['.', '.'] then done.tail
  else step :: done

def dotSteps : List (List Char) := [['.'], ['.', '.']]

/-- Removes the steps `.` and `..` from a path. A path that ended in one of them keeps its slash. -/
def resolveDots (path : List Char) : List Char :=
  let steps := splitAt '/' path
  let kept := (steps.foldl resolveStep []).reverse
  let rooted := path.head? = some '/' && kept.head? ≠ some []
  let opened := 1 < steps.length && (steps.getLast?.any dotSteps.contains)
  joinWith '/' ((if rooted then [[]] else []) ++ kept ++ (if opened then [[]] else []))

def isWeb (scheme : List Char) : Bool := scheme == "http".toList || scheme == "https".toList

/-- Decodes the escapes of unreserved characters; digits of every script count. There is no result
if some `%` comes before two letters or digits that are no escape. -/
def decodeUnreserved? : List Char → Option (List Char)
  | '%' :: a :: b :: rest =>
    if isAlphanumeric a && isAlphanumeric b then
      match hexNat? [plainDigit a, plainDigit b] with
      | some n =>
        (decodeUnreserved? rest).map fun s =>
          if Percent.isUnreserved (Char.ofNat n) then Char.ofNat n :: s else '%' :: a :: b :: s
      | none => none
    else (decodeUnreserved? (a :: b :: rest)).map ('%' :: ·)
  | c :: rest => (decodeUnreserved? rest).map (c :: ·)
  | [] => some []
termination_by s => s.length

def isSafe (c : Char) : Bool :=
  Percent.isUnreserved c || ("!#$&'()*+,/:;=?@[]").toList.contains c

/-- The last touch: no escape that is not needed, and none missing. -/
def requote (s : List Char) : List Char :=
  match decodeUnreserved? s with
  | some s => Percent.encode (fun c => isSafe c || c == '%') s
  | none => Percent.encode isSafe s

/-- User information, host and port behind each other. -/
structure Authority where
  userInfo : Option (List Char)
  host : List Char
  port : Option Nat
deriving DecidableEq, Repr

/-- The user information ends at the last `@`; empty user information is none. -/
def Authority.read? (spell : List Char → Option (List Char)) (s : List Char) : Option Authority :=
  let (userInfo, hostPort) := cutLast '@' s
  (Host.read? hostPort).bind fun p =>
    (spell p.1).map fun host => ⟨userInfo.filter fun u => !u.isEmpty, host, p.2⟩

/-- An empty authority is none; one that cannot be read is a failure. -/
def readAuthority (spell : List Char → Option (List Char)) (authority : Option (List Char)) :
    Except Foreign (Option Authority) :=
  match authority with
  | none | some [] => .ok none
  | some s =>
    match Authority.read? spell s with
    | some a => .ok (some a)
    | none => .error .unparsable

/-- The port zero is left out like a missing one. -/
def Authority.write (a : Authority) : List Char :=
  (a.userInfo.elim [] fun u => u ++ ['@']) ++ a.host ++
    (match a.port with
      | none | some 0 => []
      | some n => ':' :: decimal n)

/-- An address with a scheme and a host. -/
structure Target where
  scheme : List Char
  authority : Authority
  path : List Char
  query : List Char
  fragment : List Char
deriving DecidableEq, Repr

namespace Target

def normalizeAuthority (a : Authority) : Authority :=
  { a with userInfo := a.userInfo.map (Percent.normalize inUserInfo),
           host := Host.normalize a.host }

/-- Web addresses have their components normalised; others stay as they were written. -/
def ofComponents (scheme : List Char) (a : Authority) (c : Components) : Target :=
  let query := c.query.getD []
  let fragment := c.fragment.getD []
  if isWeb scheme then
    ⟨scheme, normalizeAuthority a, Percent.normalize inPath (resolveDots c.path),
      Percent.normalize inQuery query, Percent.normalize inQuery fragment⟩
  else ⟨scheme, a, c.path, query, fragment⟩

def rootedPath (path : List Char) : List Char :=
  if path.head? = some '/' then path else '/' :: path

def addQuery (t : Target) (query : List Char) : Target :=
  if query.isEmpty then t
  else { t with query := if t.query.isEmpty then query else t.query ++ '&' :: query }

/-- An empty query or fragment leaves no trace. -/
def write (t : Target) : List Char :=
  t.scheme ++ "://".toList ++ t.authority.write ++ rootedPath t.path ++
    (if t.query.isEmpty then [] else '?' :: t.query) ++
    (if t.fragment.isEmpty then [] else '#' :: t.fragment)

/-- Reads an absolute address. -/
def read (names : Names) (url : String) : Except Foreign Target := do
  let c := Components.read url.toList
  let web := c.scheme.all fun s => isWeb (s.map Char.toLower)
  let authority ← readAuthority (if web then names.spell else some) c.authority
  match c.scheme, authority with
  | none, _ => .error (.missingScheme url)
  | some _, none => .error (.missingHost url)
  | some scheme, some a =>
    let t := ofComponents (scheme.map Char.toLower) a c
    if t.authority.host.isEmpty then .error (.missingHost url)
    else match names.resolve web t.authority.host with
      | some host => .ok { t with authority := { t.authority with host } }
      | none => .error .invalidLabel

end Target

/-- An address with a colon that does not begin like a web address is not touched. -/
def isOpaque (url : List Char) : Bool :=
  url.contains ':' && (url.take 4).map Char.toLower != "http".toList

/-- The address as it is sent, with more pairs for its query. -/
def prepare (names : Names) (url : String) (params : List (String × String)) :
    Except Foreign String :=
  let url := trimStart url
  if isOpaque url.toList then .ok url
  else do
    let t ← Target.read names url
    pure (String.ofList (requote (t.addQuery (Form.encode params)).write))

end BuildClient.Url
