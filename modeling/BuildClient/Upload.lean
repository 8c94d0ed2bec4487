import BuildClient.Folder
import BuildClient.Http.Send
import BuildClient.Query

/-!
Starting a build from a payload that is streamed to the service. A payload of known length is sent
with its length declared and never in chunks.
-/

namespace BuildClient.Upload

open Http

variable {σ : Type}

def unknownLength : Int := -1

def headers : Headers := [("Content-Type", "application/octet-stream"), ("Expect", "100-continue")]

/-- The request for a payload of a length, if it is known. -/
def prepare (e : Executor) (resource : String) (p : Parameters) (source : Source) (length : Int) :
    Except Foreign Request := do
  let r ← e.prepare
    ⟨"POST", Query.instantiateUrl resource p, [], headers, .stream (.ofSource source)⟩
  pure (if length = unknownLength then r else r.declareLength length)

/-- The timeout of the upload, if one is set, takes the place of the usual one. -/
def executorFor (e : Executor) (p : Parameters) : Except Foreign Executor :=
  match p.timeout with
  | none => .ok e
  | some value =>
    match Parameters.seconds? value p.timeoutUnit with
    | some seconds => .ok (e.withTimeout (some (.real seconds)))
    | none => .error .durationTooLarge

/-- A request that got no answer in time stays what it is; any other one has a broken stream. -/
def blame : ClientError → ClientError
  | .undelivered method url fault =>
    if fault.isTimeout then .undelivered method url fault else .brokenStream (.network fault)
  | e => e

def text (o : Option String) : Json.Value := o.elim .null .string

def upload (e : Executor) (resource : String) (p : Parameters) (source : Source) (length : Int) :
    Run σ Build := do
  let e ← Run.ofForeign (executorFor e p)
  let r ← Run.ofForeign (prepare e resource p source length)
  Run.note Log.info .uploader "Uploading binary build input"
    [("url", .string r.url), ("content_length", .int length), ("timeout", limitValue e.timeout)]
  let answer ← (e.send r).recoverClient fun failure => Run.throw (blame failure)
  answer.accept r.method (some r.url)
  let build ← answer.decode Model.build
  Run.note Log.info .uploader "Binary build instantiated"
    [("build", text build.metadata.name), ("namespace", text build.metadata.ns)]
  pure build

/-- Uploads from a source of unknown length. -/
def fromStream (e : Executor) (resource : String) (p : Parameters) (source : Source) :
    Run σ Build :=
  upload e resource p source unknownLength

/-- Uploads a file with its exact length. If there is none, nothing is sent. -/
def fromFile (e : Executor) (resource : String) (p : Parameters) (files : Files) (path : Path) :
    Run σ Build := do
  match ← Run.ofForeign (files path) with
  | none => Run.throw (.configuration (.fileMissing path.write))
  | some file => upload e resource p file.source file.content.length

end BuildClient.Upload
