import BuildClient.Text.Blank
import BuildClient.Text.Digit
import BuildClient.Text.Percent
import BuildClient.Text.Split

/-!
The host and the port of an address.
-/

namespace BuildClient.Url

open Text

namespace Host

/-- A group of an IPv6 address: one to four hexadecimal digits. -/
def isGroup (s : List Char) : Bool := 1 ≤ s.length && s.length ≤ 4 && s.all isHex

/-- Four numbers of one to three digits with points between them. -/
def isDotted (s : List Char) : Bool :=
  let parts := splitAt '.' s
  parts.length == 4 && parts.all fun p => 1 ≤ p.length && p.length ≤ 3 && p.all Char.isDigit

/-- The numbers are bytes and have no needless zeros. -/
def isIpv4 (s : List Char) : Bool :=
  isDotted s && (splitAt '.' s).all fun p =>
    digitsValue p ≤ 255 && (p.length == 1 || p.head? != some '0')

/-- The number of groups in a row of them; a dotted address at the end counts as two. -/
def groupCount? (dotted : List Char → Bool) (s : List Char) : Option Nat :=
  if s.isEmpty then some 0
  else
    let parts := splitAt ':' s
    match parts.getLast? with
    | none => none
    | some last =>
      if !parts.dropLast.all isGroup then none
      else if isGroup last then some parts.length
      else if dotted last then some (parts.length + 1)
      else none

/-- What stands before and after the first double colon. -/
def cutGap : List Char → Option (List Char × List Char)
  | ':' :: ':' :: rest => some ([], rest)
  | c :: rest => (cutGap rest).map fun p => (c :: p.1, p.2)
  | [] => none

/-- Eight groups, or at most seven with one gap for the missing ones; `dotted` says what may stand
for the last two. -/
def isIpv6 (dotted : List Char → Bool) (s : List Char) : Bool :=
  match cutGap s with
  | none => groupCount? dotted s == some 8
  | some (before, after) =>
    match groupCount? (fun _ => false) before, groupCount? dotted after with
    | some m, some n => m + n ≤ 7
    | _, _ => false

/-- A row of unreserved characters and escapes. -/
def isZoneText : List Char → Bool
  | [] => true
  | '%' :: a :: b :: rest => isHex a && isHex b && isZoneText rest
  | c :: rest => Percent.isUnreserved c && isZoneText rest

/-- An IPv6 address, perhaps with a zone behind `%`. -/
def isBracketed (s : List Char) : Bool :=
  match cutFirst '%' s with
  | (address, none) => isIpv6 isDotted address
  | (address, some zone) => isIpv6 isDotted address && !zone.isEmpty && isZoneText zone

/-- The longest start made of a name's characters and escapes, and the rest. -/
def name : List Char → List Char × List Char
  | '%' :: a :: b :: rest =>
    if isHex a && isHex b then ('%' :: a :: b :: (name rest).1, (name rest).2)
    else ([], '%' :: a :: b :: rest)
  | c :: rest =>
    if c = '[' || c = ']' || c = '%' || c = ':' then ([], c :: rest)
    else (c :: (name rest).1, (name rest).2)
  | [] => ([], [])

def maxPort : Nat := 65535

/-- A line break at the very end is overlooked. -/
def dropBreak (s : List Char) : List Char := if s = ['\n'] then [] else s

/-- The number after the colon; no digits are no port. -/
def readPort? (s : List Char) : Option (Option Nat) :=
  let ds := s.takeWhile Char.isDigit
  let significant := ds.dropWhile (· == '0')
  if !(dropBreak (s.dropWhile Char.isDigit)).isEmpty || 5 < significant.length then none
  else if ds.isEmpty then some none
  else if maxPort < digitsValue ds then none
  else some (some (digitsValue ds))

/-- What follows the host: nothing, or a colon and a port. -/
def readRest? (s : List Char) : Option (Option Nat) :=
  match s with
  | ':' :: port => readPort? port
  | s => if (dropBreak s).isEmpty then some none else none

/-- Host and port; a host in brackets is an IPv6 address and keeps its brackets. -/
def read? (s : List Char) : Option (List Char × Option Nat) :=
  match readRest? (name s).2 with
  | some port => some ((name s).1, port)
  | none =>
    match s with
    | '[' :: inner =>
      match cutFirst ']' inner with
      | (address, some rest) =>
        if isBracketed address then (readRest? rest).map fun port => ('[' :: address ++ [']'], port)
        else none
      | (_, none) => none
    | _ => none

/-- The zone without the escape of its separator. -/
def zoneText : List Char → List Char
  | '2' :: '5' :: c :: rest => c :: rest
  | zone => zone

/-- Hosts are written in small letters; the zone of an address keeps its case. -/
def normalize (host : List Char) : List Char :=
  match host with
  | '[' :: inner =>
    match cutFirst '%' (inner.dropLast) with
    | (address, some zone) =>
      '[' :: address.map Char.toLower ++
        '%' :: Percent.normalize Percent.isUnreserved (zoneText zone) ++ [']']
    | (_, none) => host.map Char.toLower
  | _ => host.map Char.toLower

end Host

end BuildClient.Url
