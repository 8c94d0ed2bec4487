import BuildClient.Wire.Codec

/-!
Documents with declared members. What is not declared is kept beside the declared members and
written back after them.
-/

namespace BuildClient.Wire

open Json Text

/-- A declared member. It is found under its key, else under the other spelling. -/
structure Field where
  key : String
  other : Option String
  Carrier : Type
  codec : Codec Carrier
  /-- What a document without the member has. -/
  absent : Carrier

/-- One value for each declared member. -/
def Row : List Field → Type
  | [] => Unit
  | f :: fs => f.Carrier × Row fs

/-- An undeclared member: data as it was read, or bytes that stand for their text. -/
inductive Extra where
  | data (v : Value)
  | bytes (b : List UInt8)
deriving Repr

def Extra.write : Extra → Except Utf8.Error Value
  | .data v => .ok v
  | .bytes b => (Utf8.decode b).map .string

structure Record (fs : List Field) where
  row : Row fs
  extra : Dictionary Extra

namespace Field

/-- The spelling under which the member is present. -/
def spelling? (f : Field) (members : List (String × Value)) : Option String :=
  if (Dictionary.getLast? f.key members).isSome then some f.key
  else f.other.filter fun k => (Dictionary.getLast? k members).isSome

def read (f : Field) (members : List (String × Value)) : Checked f.Carrier :=
  match f.spelling? members with
  | none => .ok f.absent
  | some k =>
    match Dictionary.getLast? k members with
    | none => .ok f.absent
    | some v => (f.codec.read v).within (.key k)

end Field

namespace Row

/-- Reads every declared member; the defects come in the order of the declaration. -/
def read : (fs : List Field) → List (String × Value) → Checked (Row fs)
  | [], _ => .ok ()
  | f :: fs, members => (f.read members).pair (read fs members)

/-- The declared members in order, without those that are left out. -/
def write : (fs : List Field) → Row fs → Except Utf8.Error (List (String × Value))
  | [], _ => .ok []
  | f :: fs, row => do
    let v ← f.codec.write row.1
    let rest ← write fs row.2
    pure (if v.isNull then rest else (f.key, v) :: rest)

end Row

namespace Record

/-- The spellings that the declared members take up. -/
def taken (fs : List Field) (members : List (String × Value)) : List String :=
  fs.filterMap fun f => f.spelling? members

/-- The members that no declared member takes up. -/
def undeclared (fs : List Field) (members : List (String × Value)) : Dictionary Extra :=
  let rest := members.filter fun m => !(taken fs members).contains m.1
  (Dictionary.ofPairs (Value.settleMembers rest)).mapValues .data

def writeExtra (extra : Dictionary Extra) : Except Utf8.Error (List (String × Value)) := do
  let members ← extra.mapM fun m => m.2.write.map fun v => (m.1, v)
  pure (members.filter fun m => !m.2.isNull)

def codec (fs : List Field) : Codec (Record fs) where
  read
    | .object members => (Row.read fs members).map fun row => ⟨row, undeclared fs members⟩
    | _ => .fail .notDocument
  write r := do
    let declared ← Row.write fs r.row
    let extra ← writeExtra r.extra
    pure (.object (declared ++ extra))

end Record

/-- A codec for data that holds the same as the other's. -/
def Codec.via {α β : Type} (c : Codec α) (into : α → β) (back : β → α) : Codec β where
  read v := (c.read v).map into
  write b := c.write (back b)

end BuildClient.Wire
