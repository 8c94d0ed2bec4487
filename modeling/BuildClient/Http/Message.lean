import BuildClient.Http.Exchange
import BuildClient.Text.Digit

/-!
Requests and answers as the bytes of a connection: how a request is written, and how an answer is
read while its bytes come in.
-/

namespace BuildClient.Http

open Text

namespace Message

def lineBreak : List UInt8 := [13, 10]

def line (s : String) : List UInt8 := Utf8.encode s ++ lineBreak

/-- The length in hexadecimal digits, then the bytes. -/
def chunk (bytes : List UInt8) : List UInt8 :=
  line (String.ofList (Nat.toDigits 16 bytes.length)) ++ bytes ++ lineBreak

/-- An empty chunk ends a body, so none is written before the end. -/
def chunked (chunks : List (List UInt8)) : List UInt8 :=
  (chunks.filter fun c => !c.isEmpty).flatMap chunk ++ chunk []

def bodyBytes (hs : Headers) : SentBody → List UInt8
  | .none => []
  | .text s => Utf8.encode s
  | .stream chunks _ => if hs.has "Transfer-Encoding" then chunked chunks else chunks.flatten

/-- A request to a host for what it has at a target. -/
def write (host target : String) (s : Sent) : List UInt8 :=
  line (s.method ++ " " ++ target ++ " HTTP/1.1") ++ line ("Host: " ++ host) ++
    s.headers.flatMap (fun h => line (h.1 ++ ": " ++ h.2)) ++ lineBreak ++
    bodyBytes s.headers s.body

/-- What can be said of an answer by the bytes that have come. -/
inductive Progress (α : Type) where
  | more
  | broken
  | whole (value : α)
deriving DecidableEq, Repr

def Progress.map {α β : Type} (f : α → β) : Progress α → Progress β
  | more => more
  | broken => broken
  | whole a => whole (f a)

/-- The first line and what follows its break. A byte stands for the character of its number. -/
def cutLine? : List UInt8 → Option (List Char × List UInt8)
  | [] => none
  | b :: rest =>
    if b = 10 then some ([], rest)
    else (cutLine? rest).map fun p => (if b = 13 then p.1 else Char.ofNat b.toNat :: p.1, p.2)

theorem length_lt_of_cutLine? {bytes rest : List UInt8} {s : List Char}
    (h : cutLine? bytes = some (s, rest)) : rest.length < bytes.length := by
  induction bytes generalizing s with
  | nil => simp [cutLine?] at h
  | cons b bytes ih =>
    rw [cutLine?] at h
    split at h
    · simp_all
    · obtain ⟨p, hp, he⟩ := Option.map_eq_some_iff.1 h
      cases he
      exact Nat.lt_succ_of_lt (ih hp)

/-- The lines before the first empty one, and what follows it. -/
def cutHead? (bytes : List UInt8) : Option (List (List Char) × List UInt8) :=
  match _h : cutLine? bytes with
  | none => none
  | some ([], rest) => some ([], rest)
  | some (c :: s, rest) => (cutHead? rest).map fun p => ((c :: s) :: p.1, p.2)
termination_by bytes.length
decreasing_by exact length_lt_of_cutLine? _h

/-- The status, three digits behind the version, and the reason. -/
def statusLine? (s : List Char) : Option (Nat × String) :=
  match cutFirst ' ' s with
  | (_, none) => none
  | (version, some rest) =>
    let (code, reason) := cutFirst ' ' rest
    if "HTTP/1.".toList.isPrefixOf version && code.length == 3 && code.all Char.isDigit then
      some (digitsValue code, String.ofList (reason.getD []))
    else none

def headerLine? (s : List Char) : Option (String × String) :=
  match cutFirst ':' s with
  | (_, none) => none
  | (name, some value) => some (String.ofList name, String.ofList (dropOuter isBlank value))

/-- The length before a chunk; what follows a semicolon is not read. -/
def chunkLength? (s : List Char) : Option Nat :=
  let digits := dropOuter isBlank (cutFirst ';' s).1
  if digits.isEmpty then none else hexNat? digits

/-- The bytes of all chunks up to the empty one. -/
def readChunks (bytes : List UInt8) : Progress (List UInt8) :=
  match _h : cutLine? bytes with
  | none => .more
  | some (s, rest) =>
    match chunkLength? s with
    | none => .broken
    | some 0 => if (cutHead? rest).isSome then .whole [] else .more
    | some n =>
      if rest.length < n + 2 then .more
      else (readChunks (rest.drop (n + 2))).map (rest.take n ++ ·)
termination_by bytes.length
decreasing_by
  have := length_lt_of_cutLine? _h
  simp only [List.length_drop]
  omega

def isBodiless (status : Nat) : Bool := status == 204 || status == 304

/-- The body ends as the header lines say, else with the connection. -/
def readBody (status : Nat) (hs : Headers) (closed : Bool) (bytes : List UInt8) :
    Progress (List UInt8) :=
  if isBodiless status then .whole []
  else if (hs.get? "Transfer-Encoding").any fun s => Headers.sameName s "chunked" then
    readChunks bytes
  else match (hs.get? "Content-Length").bind String.toNat? with
    | some n => if bytes.length < n then .more else .whole (bytes.take n)
    | none => if closed then .whole bytes else .more

/-- A thousand calls may stand inside each other, and the program's own are a few of them. -/
def room : Nat := 980

/-- What has come after at most so many answers that only announce another one. -/
def readAfter (closed : Bool) : Nat → List UInt8 → Progress Response
  | 0, _ => .broken
  | announcements + 1, bytes =>
    match cutHead? bytes with
    | none => .more
    | some ([], _) => .broken
    | some (first :: lines, rest) =>
      match statusLine? first, lines.mapM headerLine? with
      | some (status, reason), some hs =>
        if status < 200 then readAfter closed announcements rest
        else (readBody status hs closed rest).map (⟨status, some reason, ·, room⟩)
      | _, _ => .broken

/-- No service announces an answer more often. -/
def maxAnnouncements : Nat := 100

/-- Reads an answer; what is missing once the connection is closed will never come. -/
def read (closed : Bool) (bytes : List UInt8) : Progress Response :=
  match readAfter closed maxAnnouncements bytes with
  | .more => if closed then .broken else .more
  | p => p

end Message

end BuildClient.Http
