/-!
Streamed payloads: a source of bytes, and a view on it that hands out blocks of limited size.
-/

namespace BuildClient.Http

/-- A source of bytes of unknown length. -/
structure Source where
  /-- What has not been read. -/
  rest : List UInt8
  position : Nat
  /-- From this position on every read fails. -/
  failAt : Option Int
  /-- The most bytes that one read gives, if the source gives less than it is asked for. -/
  short : Option Int
deriving DecidableEq, Repr

namespace Source

/-- A source that gives all it is asked for and never fails. -/
def ofBytes (bytes : List UInt8) : Source := ⟨bytes, 0, none, none⟩

def fails (s : Source) : Bool := s.failAt.any fun (limit : Int) => limit ≤ (s.position : Int)

/-- The size that is asked for, cut down to the limit of the source. A negative size means all. -/
def granted (s : Source) (size : Int) : Int :=
  match s.short with
  | some limit => if size < 0 ∨ limit < size then limit else size
  | none => size

def take (size : Int) (bytes : List UInt8) : List UInt8 :=
  if size < 0 then bytes else bytes.take size.toNat

/-- One read; `none` if the source fails. -/
def read (s : Source) (size : Int) : Option (List UInt8 × Source) :=
  if s.fails then none
  else
    let chunk := take (s.granted size) s.rest
    some (chunk, { s with rest := s.rest.drop chunk.length, position := s.position + chunk.length })

end Source

/-- A view on a source that reads at most one block at a time and counts what it reads. -/
structure Payload where
  source : Source
  blockSize : Int
  bytesRead : Nat
deriving DecidableEq, Repr

namespace Payload

def defaultBlockSize : Int := 65536

def ofSource (s : Source) : Payload := ⟨s, defaultBlockSize, 0⟩

/-- A missing, negative or too great size means one block. -/
def effective (p : Payload) : Option Int → Int
  | none => p.blockSize
  | some size => if size < 0 ∨ p.blockSize < size then p.blockSize else size

/-- One read of at most a block; a failing source leaves everything as it is. -/
def read (p : Payload) (size : Option Int) : Option (List UInt8 × Payload) :=
  (p.source.read (p.effective size)).map fun r =>
    (r.1, { p with source := r.2, bytesRead := p.bytesRead + r.1.length })

/-- What came of several reads: the chunks, whether the source failed, and what is left. -/
structure Reading where
  chunks : List (List UInt8)
  failed : Bool
  left : Payload
deriving DecidableEq, Repr

def Reading.after (chunk : List UInt8) (r : Reading) : Reading :=
  { r with chunks := chunk :: r.chunks }

/-- Reads blocks up to the first empty one, at most as many as the fuel says. -/
def blocks : Nat → Payload → Reading
  | 0, p => ⟨[], false, p⟩
  | fuel + 1, p =>
    match p.read (some p.blockSize) with
    | none => ⟨[], true, p⟩
    | some ([], p) => ⟨[], false, p⟩
    | some (chunk, p) => (blocks fuel p).after chunk

/-- Reads to the end. Each block but the last read holds a byte, which bounds their number. -/
def drain (p : Payload) : Reading := blocks (p.source.rest.length + 1) p

/-- Reads with the given sizes; empty chunks count too. -/
def readSizes : List (Option Int) → Payload → Reading
  | [], p => ⟨[], false, p⟩
  | size :: sizes, p =>
    match p.read size with
    | none => ⟨[], true, p⟩
    | some (chunk, p) => (readSizes sizes p).after chunk

end Payload

/-- How a receiver takes in a payload. -/
inductive Demand where
  | all
  | sizes (sizes : List (Option Int))
deriving DecidableEq, Repr

def Payload.consume (p : Payload) : Demand → Payload.Reading
  | .all => p.drain
  | .sizes sizes => p.readSizes sizes

end BuildClient.Http
