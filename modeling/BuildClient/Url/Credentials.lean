import BuildClient.Failure
import BuildClient.Text.Base64
import BuildClient.Text.CodeRange
import BuildClient.Text.Percent
import BuildClient.Url.Host

/-!
The user name and the password that an address carries, and the authorization made of them.
-/

namespace BuildClient.Url

open Text

structure Credentials where
  user : String
  password : String
deriving DecidableEq, Repr

namespace Credentials

/-- Controls and spaces lead nowhere, and breaks count nowhere. -/
def clean (url : List Char) : List Char :=
  (url.dropWhile fun c => c.toNat ≤ 0x20).filter fun c => c != '\t' && c != '\n' && c != '\r'

def isSchemeChar (c : Char) : Bool := c.isAlphanum || c == '+' || c == '-' || c == '.'

def dropScheme (url : List Char) : List Char :=
  match url with
  | [] => []
  | c :: _ =>
    match cutFirst ':' url with
    | (scheme, some rest) => if c.isAlpha && scheme.all isSchemeChar then rest else url
    | (_, none) => url

/-- What stands behind two slashes. -/
def location (url : List Char) : List Char :=
  match dropScheme (clean url) with
  | '/' :: '/' :: rest => rest.takeWhile fun c => c != '/' && c != '?' && c != '#'
  | _ => []

/-- An address with `v` is one of a version to come: its version in hexadecimal, a point and
more. -/
def isFuture (host : List Char) : Bool :=
  match cutFirst '.' host with
  | ('v' :: version, some rest) => !version.isEmpty && version.all isHex && !rest.isEmpty
  | _ => false

/-- An IPv6 address, perhaps with one zone. -/
def isScoped (host : List Char) : Bool :=
  match cutFirst '%' host with
  | (address, none) => Host.isIpv6 Host.isIpv4 address
  | (address, some scope) =>
    !scope.isEmpty && !scope.contains '%' && Host.isIpv6 Host.isIpv4 address

def checkBracketed (host : List Char) : Except Foreign Unit :=
  if host.head? = some 'v' then (if isFuture host then .ok () else .error .badFutureAddress)
  else if Host.isIpv4 host then .error .bracketedIpv4
  else if isScoped host then .ok ()
  else .error (.notAddress (String.ofList host))

def checkBrackets (s : List Char) : Except Foreign Unit :=
  if s.contains '[' != s.contains ']' then .error .unbalancedHost
  else match cutFirst '[' s with
    | (_, some rest) => checkBracketed (cutFirst ']' rest).1
    | (_, none) => .ok ()

/-- The compatible form of the character has a mark in it that sets off a part of an address. -/
def isMasked (c : Char) : Bool :=
  inRanges [(0x2047, 0x2049), (0x2100, 0x2101), (0x2105, 0x2106), (0x2A74, 0x2A74),
    (0xFE13, 0xFE13), (0xFE16, 0xFE16), (0xFE55, 0xFE56), (0xFE5F, 0xFE5F), (0xFE6B, 0xFE6B),
    (0xFF03, 0xFF03), (0xFF0F, 0xFF0F), (0xFF1A, 0xFF1A), (0xFF1F, 0xFF20)] c

/-- Brackets come in pairs and hold an address, and no mark is masked. -/
def checkLocation (s : List Char) : Except Foreign Unit := do
  checkBrackets s
  if s.any isMasked then .error (.maskedMark (String.ofList s))

/-- The parts before the last `@`, if there are two of them and not both are empty. -/
def ofLocation (s : List Char) : Option Credentials :=
  match cutLast '@' s with
  | (none, _) => none
  | (some info, _) =>
    match cutFirst ':' info with
    | (_, none) => none
    | (user, some password) =>
      if user.isEmpty && password.isEmpty then none
      else some ⟨Percent.decode user, Percent.decode password⟩

def read (url : String) : Except Foreign (Option Credentials) := do
  checkLocation (location url.toList)
  pure (ofLocation (location url.toList))

def isCodable (c : Char) : Bool := c.toNat < 0x100

/-- One byte for each character. -/
def codeText (s : String) : Except Foreign (List UInt8) :=
  let before := s.toList.takeWhile isCodable
  match s.toList.dropWhile isCodable with
  | [] => .ok (before.map fun c => UInt8.ofNat c.toNat)
  | c :: rest =>
    .error (.uncodable before.length (1 + (rest.takeWhile fun d => !isCodable d).length) c)

/-- The authorization that the pair stands for. -/
def authorization (c : Credentials) : Except Foreign String := do
  let user ← codeText c.user
  let password ← codeText c.password
  pure ("Basic " ++ String.ofList (Base64.encode (user ++ 0x3A :: password)))

end Credentials

end BuildClient.Url
