/-!
The eight-bit form of a text. Reading cuts a row of bytes into characters and faults; a fault
is a longest start of a character that the next byte, or the end, breaks off.
-/

namespace BuildClient.Text.Utf8

def encode (s : String) : List UInt8 := s.toList.flatMap String.utf8EncodeChar

/-- The number of bytes of a text. -/
def size (s : String) : Nat := (encode s).length

/-- What a reader finds in a row of bytes. -/
inductive Piece where
  | char (c : Char)
  /-- `length` bytes that begin no character. -/
  | fault (length : Nat)
  /-- The row ends inside a character, `length` bytes after its start. -/
  | cut (length : Nat)
deriving Repr, DecidableEq

/-- A character begun: how many bytes are missing, the bounds of the next one, the bits and the
number of bytes so far. -/
structure Begun where
  missing : Nat
  lo : UInt8
  hi : UInt8
  bits : Nat
  taken : Nat

/-- What a byte means where a character may start. The bounds of the second byte keep out longer
forms than needed, surrogates and numbers beyond the last code point. -/
def start (b : UInt8) : Piece ⊕ Begun :=
  let bits := b.toNat
  if b < 0x80 then .inl (.char (Char.ofNat bits))
  else if b < 0xC2 then .inl (.fault 1)
  else if b < 0xE0 then .inr ⟨1, 0x80, 0xBF, bits % 32, 1⟩
  else if b = 0xE0 then .inr ⟨2, 0xA0, 0xBF, bits % 16, 1⟩
  else if b = 0xED then .inr ⟨2, 0x80, 0x9F, bits % 16, 1⟩
  else if b < 0xF0 then .inr ⟨2, 0x80, 0xBF, bits % 16, 1⟩
  else if b = 0xF0 then .inr ⟨3, 0x90, 0xBF, bits % 8, 1⟩
  else if b < 0xF4 then .inr ⟨3, 0x80, 0xBF, bits % 8, 1⟩
  else if b = 0xF4 then .inr ⟨3, 0x80, 0x8F, bits % 8, 1⟩
  else .inl (.fault 1)

/-- The pieces of a row of bytes, after a character already begun or at a start. -/
def piecesFrom : Option Begun → List UInt8 → List Piece
  | none, [] => []
  | some p, [] => [.cut p.taken]
  | none, b :: rest =>
    match start b with
    | .inl piece => piece :: piecesFrom none rest
    | .inr p => piecesFrom (some p) rest
  | some p, b :: rest =>
    if p.lo ≤ b ∧ b ≤ p.hi then
      let bits := p.bits * 64 + b.toNat % 64
      if p.missing ≤ 1 then .char (Char.ofNat bits) :: piecesFrom none rest
      else piecesFrom (some ⟨p.missing - 1, 0x80, 0xBF, bits, p.taken + 1⟩) rest
    else
      .fault p.taken ::
        match start b with
        | .inl piece => piece :: piecesFrom none rest
        | .inr q => piecesFrom (some q) rest

def pieces (bytes : List UInt8) : List Piece := piecesFrom none bytes

/-- Every fault is read as one replacement character. -/
def decodeLossy (bytes : List UInt8) : String :=
  String.ofList ((pieces bytes).map fun
    | .char c => c
    | .fault _ | .cut _ => '\uFFFD')

/-- Where and how a row of bytes stops being text. -/
inductive Error where
  | invalid (length index : Nat)
  | incomplete (index : Nat)
deriving Repr, DecidableEq

/-- Reads pieces up to the first fault; `index` counts the bytes before them. -/
def charsFrom (index : Nat) : List Piece → Except Error (List Char)
  | [] => .ok []
  | .char c :: rest => (charsFrom (index + c.utf8Size) rest).map (c :: ·)
  | .fault n :: _ => .error (.invalid n index)
  | .cut _ :: _ => .error (.incomplete index)

def decode (bytes : List UInt8) : Except Error String :=
  (charsFrom 0 (pieces bytes)).map String.ofList

end BuildClient.Text.Utf8
