import BuildClient.Json.Parser
import BuildClient.Text.CodePoints

/-!
Reading a document for its texts and members only. Halves of surrogate pairs and the words for what
is no number are taken as they are. The calls of the reader stand inside each other as the
containers do, so a stack with little room ends it.
-/

namespace BuildClient.Json

open Text

/-- What a reader is about when the stack has no room left. -/
inductive Activity where
  | array
  | object
  | call
  | frame
deriving DecidableEq, Repr

inductive Outline where
  | text (s : CodePoints)
  | object (members : List (CodePoints × Outline))
  | other

namespace Outline

/-- Why no document is read. -/
inductive Fault where
  | malformed
  | exhausted (during : Activity)
deriving DecidableEq, Repr

/-- Telling what is wrong at some place takes three calls inside each other. -/
def Fault.told : Nat → Fault
  | 0 | 2 => .exhausted .call
  | 1 => .exhausted .frame
  | _ => .malformed

/-- Joins the halves of pairs that stand side by side. -/
def join : List Nat → CodePoints
  | [] => []
  | [n] => [.ofNat n]
  | n :: m :: rest =>
    if Reader.isHigh n && Reader.isLow m then .char (Reader.pair n m) :: join rest
    else .ofNat n :: join (m :: rest)

/-- The text up to the closing quote, and the rest. -/
def quoted (room : Nat) (s : List Char) : Except Fault (CodePoints × List Char) :=
  match Reader.units [] s with
  | some (us, rest) => .ok (join us, rest)
  | none => .error (.told room)

/-- Whether digits stand behind a point, and what follows them. -/
def fraction : List Char → Bool × List Char
  | '.' :: rest => match Reader.digits rest with
    | ([], _) => (false, '.' :: rest)
    | (_, rest) => (true, rest)
  | s => (false, s)

/-- Whether digits stand behind an `e`, and what follows them. -/
def power : List Char → Bool × List Char
  | [] => (false, [])
  | c :: rest =>
    if c = 'e' ∨ c = 'E' then
      match Reader.digits (Numeral.sign rest).2 with
      | ([], _) => (false, c :: rest)
      | (_, rest) => (true, rest)
    else (false, c :: rest)

/-- The rest behind a number without its sign. A whole number may have too many digits. -/
def number (s : List Char) : Except Fault (List Char) :=
  match Reader.whole? s with
  | none => .error .malformed
  | some (ds, rest) =>
    let (broken, rest) := fraction rest
    let (scaled, rest) := power rest
    if broken || scaled || ds.length ≤ Numeral.maxDigits then .ok rest else .error .malformed

/-- The rest behind one of the words, if one stands here. -/
def behind? (words : List String) (s : List Char) : Option (List Char) :=
  words.findSome? fun w => Reader.word? w.toList s

/-- A value that is no container, and the rest. The words for what is no number take a call. -/
def scalar (room : Nat) : List Char → Except Fault (Outline × List Char)
  | '"' :: rest => (quoted room rest).map fun p => (.text p.1, p.2)
  | s =>
    match behind? ["null", "true", "false"] s, behind? ["NaN", "Infinity", "-Infinity"] s with
    | some rest, _ => .ok (.other, rest)
    | none, some rest => if room = 0 then .error (.exhausted .call) else .ok (.other, rest)
    | none, none =>
      match s with
      | '-' :: rest => (number rest).map (.other, ·)
      | s => (number s).map (.other, ·)

mutual

/-- One value and the rest. `room` is how many calls the stack still holds inside each other. -/
def value : Nat → Nat → List Char → Except Fault (Outline × List Char)
  | 0, _, _ => .error .malformed
  | fuel + 1, room, '[' :: rest =>
    match room with
    | 0 => .error (.exhausted .array)
    | room + 1 =>
      match Reader.skip rest with
      | ']' :: rest => .ok (.other, rest)
      | rest => (items fuel room rest).map (.other, ·)
  | fuel + 1, room, '{' :: rest =>
    match room with
    | 0 => .error (.exhausted .object)
    | room + 1 =>
      match Reader.skip rest with
      | '}' :: rest => .ok (.object [], rest)
      | rest => (members fuel room rest).map fun p => (.object p.1, p.2)
  | _ + 1, room, s => scalar room s

/-- The rest behind values with commas between them and the closing bracket. -/
def items : Nat → Nat → List Char → Except Fault (List Char)
  | 0, _, _ => .error .malformed
  | fuel + 1, room, s =>
    match value fuel room (Reader.skip s) with
    | .error f => .error f
    | .ok (_, rest) =>
      match Reader.skip rest with
      | ']' :: rest => .ok rest
      | ',' :: rest => items fuel room rest
      | _ => .error (.told room)

/-- Members with commas between them, up to the closing brace. -/
def members : Nat → Nat → List Char → Except Fault (List (CodePoints × Outline) × List Char)
  | 0, _, _ => .error .malformed
  | fuel + 1, room, s =>
    match Reader.skip s with
    | '"' :: rest =>
      match quoted room rest with
      | .error f => .error f
      | .ok (key, rest) =>
        match Reader.skip rest with
        | ':' :: rest =>
          match value fuel room (Reader.skip rest) with
          | .error f => .error f
          | .ok (v, rest) =>
            match Reader.skip rest with
            | '}' :: rest => .ok ([(key, v)], rest)
            | ',' :: rest => (members fuel room rest).map fun p => ((key, v) :: p.1, p.2)
            | _ => .error (.told room)
        | _ => .error (.told room)
    | _ => .error (.told room)

end

/-- A whole text. Every character is read at most twice, which bounds the steps. -/
def read (room : Nat) (s : String) : Except Fault Outline :=
  match value (2 * s.toList.length + 2) room (Reader.skip s.toList) with
  | .error f => .error f
  | .ok (v, rest) => if (Reader.skip rest).isEmpty then .ok v else .error .malformed

/-- The last member of the key, if it is a text that is not blank. -/
def filledText? (key : String) : Outline → Option CodePoints
  | object members =>
    match members.reverse.lookup (CodePoints.ofString key) with
    | some (.text s) => if s.allBlank then none else some s
    | _ => none
  | _ => none

end Outline

end BuildClient.Json
