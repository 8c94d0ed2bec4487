import BuildClient.Json.Value
import BuildClient.Number.Numeral
import BuildClient.Text.Hex

/-!
Reading documents. `parse?` reads one value and nothing after it but blanks; the words `NaN`,
`Infinity` and `-Infinity` are numbers here.
-/

namespace BuildClient.Json

open Text

/-- What a reader allows. -/
structure Reader where
  /-- The most containers that may stand around a value. -/
  maxDepth : Option Nat
  /-- Half of a surrogate pair is taken, and read as the replacement character. -/
  loneSurrogates : Bool

namespace Reader

def isGap (c : Char) : Bool := c == ' ' || c == '\t' || c == '\n' || c == '\r'

def skip (s : List Char) : List Char := s.dropWhile isGap

theorem skip_cons {c : Char} (h : isGap c = false) (s : List Char) : skip (c :: s) = c :: s := by
  rw [skip, List.dropWhile_cons_of_neg (by simp [h])]

/-- The character behind a short escape. -/
def letter? : Char → Option Char
  | '"' => some '"'
  | '\\' => some '\\'
  | '/' => some '/'
  | 'b' => some '\x08'
  | 'f' => some '\x0c'
  | 'n' => some '\n'
  | 'r' => some '\r'
  | 't' => some '\t'
  | _ => none

def isHigh (n : Nat) : Bool := 0xD800 ≤ n && n < 0xDC00

def isLow (n : Nat) : Bool := 0xDC00 ≤ n && n < 0xE000

def pair (hi lo : Nat) : Char := Char.ofNat (0x10000 + (hi - 0xD800) * 0x400 + (lo - 0xDC00))

/-- The code units up to the closing quote, after what was read before them, and the rest. An
escape gives a unit of sixteen bits. -/
def units : List Nat → List Char → Option (List Nat × List Char)
  | _, [] => none
  | done, '"' :: rest => some (done.reverse, rest)
  | done, '\\' :: 'u' :: a :: b :: c :: d :: rest =>
    match hexNat? [a, b, c, d] with
    | some n => units (n :: done) rest
    | none => none
  | done, '\\' :: e :: rest =>
    match letter? e with
    | some c => units (c.toNat :: done) rest
    | none => none
  | done, c :: rest => if c.toNat < 0x20 then none else units (c.toNat :: done) rest

/-- The character of a unit that is no half of a pair. -/
def single? (r : Reader) (n : Nat) : Option Char :=
  if isHigh n || isLow n then (if r.loneSurrogates then some '\uFFFD' else none)
  else some (Char.ofNat n)

/-- Joins the halves of pairs. -/
def join? (r : Reader) : List Char → List Nat → Option (List Char)
  | done, [] => some done.reverse
  | done, [n] => (r.single? n).map fun c => (c :: done).reverse
  | done, n :: m :: rest =>
    if isHigh n && isLow m then join? r (pair n m :: done) rest
    else match r.single? n with
      | some c => join? r (c :: done) (m :: rest)
      | none => none

/-- The text up to the closing quote, and the rest. -/
def text? (r : Reader) (s : List Char) : Option (String × List Char) := do
  let (us, rest) ← units [] s
  let cs ← join? r [] us
  pure (String.ofList cs, rest)

/-- The digits at the start and the rest. -/
def digits (s : List Char) : List Char × List Char :=
  (s.takeWhile Char.isDigit, s.dropWhile Char.isDigit)

/-- The whole part of a number: a zero alone, or digits without a leading zero. -/
def whole? : List Char → Option (List Char × List Char)
  | '0' :: rest => some (['0'], rest)
  | s => match digits s with
    | ([], _) => none
    | p => some p

/-- The digits after a point; a point without digits is no number. -/
def fraction? : List Char → Option (Option (List Char) × List Char)
  | '.' :: rest => match digits rest with
    | ([], _) => none
    | (ds, rest) => some (some ds, rest)
  | s => some (none, s)

/-- The power of ten after `e`; an `e` without digits is no number. -/
def power? : List Char → Option (Option Int × List Char)
  | c :: rest =>
    if c = 'e' ∨ c = 'E' then
      let (negative, body) := Numeral.sign rest
      match digits body with
      | ([], _) => none
      | (ds, rest) =>
        some (some (if negative then -(digitsValue ds : Int) else digitsValue ds), rest)
    else some (none, c :: rest)
  | [] => some (none, [])

/-- A number without its sign. Without fraction and power it is whole. -/
def number? (negative : Bool) (s : List Char) : Option (Number × List Char) := do
  let (ds, rest) ← whole? s
  let (part, rest) ← fraction? rest
  let (power, rest) ← power? rest
  match part, power with
  | none, none =>
    if Numeral.maxDigits < ds.length then none
    else
      let n : Int := digitsValue ds
      some (.int (if negative then -n else n), rest)
  | _, _ =>
    let part := part.getD []
    some (.real (Binary64.ofDecimal negative (digitsValue (ds ++ part))
      (power.getD 0 - part.length)), rest)

/-- The rest after a word that must stand here. -/
def word? : List Char → List Char → Option (List Char)
  | [], s => some s
  | w :: ws, c :: s => if w = c then word? ws s else none
  | _ :: _, [] => none

/-- A value that is no container. -/
def scalar? (r : Reader) : List Char → Option (Value × List Char)
  | '"' :: rest => (r.text? rest).map fun p => (.string p.1, p.2)
  | 'n' :: rest => (word? "ull".toList rest).map (.null, ·)
  | 't' :: rest => (word? "rue".toList rest).map (.bool true, ·)
  | 'f' :: rest => (word? "alse".toList rest).map (.bool false, ·)
  | 'N' :: rest => (word? "aN".toList rest).map (.real .nan, ·)
  | 'I' :: rest => (word? "nfinity".toList rest).map (.real (.infinite false), ·)
  | '-' :: 'I' :: rest => (word? "nfinity".toList rest).map (.real (.infinite true), ·)
  | '-' :: rest => (number? true rest).map fun p => (.number p.1, p.2)
  | s => (number? false s).map fun p => (.number p.1, p.2)

def tooDeep (r : Reader) (depth : Nat) : Bool :=
  match r.maxDepth with
  | some limit => limit < depth
  | none => false

mutual

/-- One value inside `depth` containers, and the rest. -/
def value? (r : Reader) : Nat → Nat → List Char → Option (Value × List Char)
  | 0, _, _ => none
  | fuel + 1, depth, s =>
    if r.tooDeep depth then none
    else match s with
      | '[' :: rest =>
        match skip rest with
        | ']' :: rest => some (.array [], rest)
        | rest => (items? r fuel (depth + 1) rest).map fun p => (.array p.1, p.2)
      | '{' :: rest =>
        match skip rest with
        | '}' :: rest => some (.object [], rest)
        | rest => (members? r fuel (depth + 1) rest).map fun p => (.object p.1, p.2)
      | s => r.scalar? s

/-- Values with commas between them, up to the closing bracket. -/
def items? (r : Reader) : Nat → Nat → List Char → Option (List Value × List Char)
  | 0, _, _ => none
  | fuel + 1, depth, s =>
    match value? r fuel depth (skip s) with
    | none => none
    | some (v, rest) =>
      match skip rest with
      | ']' :: rest => some ([v], rest)
      | ',' :: rest => (items? r fuel depth rest).map fun p => (v :: p.1, p.2)
      | _ => none

/-- Members with commas between them, up to the closing brace. -/
def members? (r : Reader) : Nat → Nat → List Char → Option (List (String × Value) × List Char)
  | 0, _, _ => none
  | fuel + 1, depth, s =>
    match skip s with
    | '"' :: rest =>
      match r.text? rest with
      | none => none
      | some (key, rest) =>
        match skip rest with
        | ':' :: rest =>
          match value? r fuel depth (skip rest) with
          | none => none
          | some (v, rest) =>
            match skip rest with
            | '}' :: rest => some ([(key, v)], rest)
            | ',' :: rest => (members? r fuel depth rest).map fun p => ((key, v) :: p.1, p.2)
            | _ => none
        | _ => none
    | _ => none

end

/-- A whole text. Every character is read at most twice, which bounds the steps. -/
def parseChars? (r : Reader) (s : List Char) : Option Value :=
  match r.value? (2 * s.length + 2) 0 (skip s) with
  | some (v, rest) => if (skip rest).isEmpty then some v else none
  | none => none

def parse? (r : Reader) (s : String) : Option Value := r.parseChars? s.toList

end Reader

end BuildClient.Json
