import BuildClient.Failure
import BuildClient.Http.Payload

/-!
Calls on a payload, one after the other, and what each of them gives.
-/

namespace BuildClient.Http

namespace Payload

/-- One read with a size, or blocks up to the end. -/
inductive Call where
  | read (size : Option Int)
  | iterate
deriving DecidableEq, Repr

/-- The chunks that a call hands out, the failure that it ends with, and what it leaves. -/
structure Answer where
  chunks : List (List UInt8)
  failure : Option ClientError
  left : Payload

/-- A source that fails breaks the stream. -/
def Reading.answer (r : Reading) : Answer :=
  ⟨r.chunks, if r.failed then some (.brokenStream .source) else none, r.left⟩

def call (p : Payload) : Call → Answer
  | .read size => (p.readSizes [size]).answer
  | .iterate => p.drain.answer

/-- The answers to calls in turn, each on what the one before left. -/
def calls : List Call → Payload → List Answer
  | [], _ => []
  | c :: rest, p => p.call c :: calls rest (p.call c).left

end Payload

end BuildClient.Http
