import BuildClient.CommandLine.Client
import BuildClient.Http.Message
import BuildClient.Log.Line
import Std.Async.TCP
import Std.Async.DNS
import Std.Async.Timer
import Std.Time.DateTime

/-!
The program: it runs the client's command line on a real machine. The pure program is run on the
answers that are known; if it sends one request more, that request is exchanged over a connection
and its answer becomes known.
-/

namespace BuildClient

open CommandLine Http

namespace Connection

open Std.Async Std.Net

/-- Ends in time or not at all. -/
def within {α : Type} [Inhabited α] (limit : Option Number) (a : Async α) : Async (Option α) :=
  match limit.bind Number.milliseconds? with
  | none => some <$> a
  | some n => Async.race (some <$> a) (do
      sleep (.ofNat n)
      pure none)

def address (port : UInt16) : IPAddr → SocketAddress
  | .v4 a => .v4 ⟨a, port⟩
  | .v6 a => .v6 ⟨a, port⟩

/-- The addresses are tried in turn. -/
partial def connect (port : UInt16) : List IPAddr → Async TCP.Socket.Client
  | [] => throw (IO.userError "no address found")
  | a :: rest => do
    let socket ← TCP.Socket.Client.mk
    try
      socket.connect (address port a)
      pure socket
    catch e => if rest.isEmpty then throw e else connect port rest

/-- The most bytes that are taken in at once. -/
def blockSize : UInt64 := 65536

def outcomeOf (r : Message.Progress Response) (again : Async Outcome) : Async Outcome :=
  match r with
  | .whole a => pure (.answer a)
  | .broken => pure (.fault ⟨.connection, "the answer is broken"⟩)
  | .more => again

partial def receive (socket : TCP.Socket.Client) (limit : Option Number) (bytes : List UInt8) :
    Async Outcome := do
  match ← within limit (socket.recv? blockSize) with
  | none => pure (.fault ⟨.readTimeout, "no answer in time"⟩)
  | some none => outcomeOf (Message.read true bytes) (pure (.fault ⟨.connection, "no answer"⟩))
  | some (some block) =>
    let bytes := bytes ++ block.toList
    outcomeOf (Message.read false bytes) (receive socket limit bytes)

/-- The host without the brackets of its address. -/
def hostName (t : Url.Target) : String :=
  String.ofList (t.authority.host.filter fun c => c != '[' && c != ']')

def exchangeWith (t : Url.Target) (s : Sent) : Async Outcome := do
  let port := (t.authority.port.filter (0 < ·)).getD 80
  let opening : Async (Option TCP.Socket.Client) := some <$> do
    connect port.toUInt16 (← DNS.getAddrInfo (hostName t) (toString port)).toList
  match (← within s.connectTimeout opening).join with
  | none => pure (.fault ⟨.connectTimeout, "no connection in time"⟩)
  | some socket =>
    let host := String.ofList ({ t.authority with userInfo := none } : Url.Authority).write
    let query := if t.query.isEmpty then [] else '?' :: t.query
    let message := Message.write host (String.ofList (Url.Target.rootedPath t.path ++ query)) s
    socket.send ⟨message.toArray⟩
    receive socket s.timeout []

/-- Only unencrypted connections are made. -/
def exchange (s : Sent) : IO Outcome := do
  match Url.Target.read .ascii s.url with
  | .error f => pure (.fault ⟨.other f.name, f.message⟩)
  | .ok t =>
    if t.scheme = "http".toList then
      try (exchangeWith t s).block
      catch e => pure (.fault ⟨.connection, toString e⟩)
    else if t.scheme = "https".toList then
      pure (.fault ⟨.tls, "encrypted connections are not available"⟩)
    else pure (.fault ⟨.other "InvalidSchema", "no connection can be made to " ++ s.url⟩)

end Connection

namespace Program

/-- What the program takes for the answer to a request that has not been exchanged. -/
def pending : Reply := ⟨.all, .fault ⟨.connection, "no answer yet"⟩⟩

/-- Runs until every request that is sent has been exchanged. -/
partial def serve (run : Service → Report) (replies : Array Reply) : IO Report := do
  let r := run fun n => replies.getD n pending
  match r.sent[replies.size]? with
  | none => pure r
  | some s =>
    let outcome ← Connection.exchange s
    serve run (replies.push ⟨.all, outcome⟩)

def environment : IO (Dictionary String) := do
  pure (← Std.Internal.UV.System.osEnviron).toList

/-- The text of the file of variables, if there is one. -/
def variableFile : IO (Option String) := do
  try
    pure (some (← IO.FS.readFile ".env"))
  catch _ => pure none

def readFile (path : String) : IO (Except Foreign (Option File)) := do
  try
    pure (.ok (some (.sound (← IO.FS.readBinFile path).toList)))
  catch
    | .noFileOrDirectory .. => pure (.ok none)
    | .inappropriateType .. => pure (.ok none)
    | e => pure (.error (.system (toString e)))

partial def readInput (input : IO.FS.Stream) (bytes : ByteArray) : IO ByteArray := do
  let block ← input.read 65536
  if block.isEmpty then pure bytes else readInput input (bytes ++ block)

/-- The input and the file are read only if the program asks for them. -/
def machine (words : List String) : IO (Service → Machine) := do
  let (input, files) : Source × Files ← match readWords words with
    | .ok ⟨_, _, .startBinary file _⟩ =>
      match Reaper.filled? file with
      | none => do
        let bytes ← readInput (← IO.getStdin) .empty
        pure (.ofBytes bytes.toList, fun _ => .ok none)
      | some path => do
        let content ← readFile path
        pure (.ofBytes [], fun _ => content)
    | _ => pure (.ofBytes [], fun _ => .ok none)
  let env ← environment
  let file ← variableFile
  pure fun service => ⟨env, file, files, input, .bare, service⟩

/-- Writes what was logged as one line each. -/
def writeLog (e : Log.Event) : IO Unit := do
  let now := (← Std.Time.Timestamp.now).toNanosecondsSinceUnixEpoch.toInt
  let micros := now / 1000
  let r : Log.Record :=
    ⟨.real (Binary64.ofRatio (micros < 0) micros.natAbs 1000000), Log.levelName e.severity,
      e.source.name, .string e.message, [], e.details,
      e.failure.map fun f => (none, ⟨"", .client f⟩)⟩
  match r.write with
  | .ok s => IO.eprintln s
  | .error _ => IO.eprintln e.message

def exitCode : Ending → UInt32
  | .exit code | .words code => code.toUInt32
  | .settings _ | .failure _ => 1

/-- What nothing took care of is said at the end. -/
def lastWords : Ending → String
  | .settings ds => Settings.summary ds ++ "\n"
  | .failure f => Log.Record.reportLine f ++ "\n"
  | _ => ""

end Program

end BuildClient

open BuildClient in
def main (words : List String) : IO UInt32 := do
  let m ← Program.machine words
  let r ← Program.serve (fun service => CommandLine.runClient (m service) words) #[]
  r.events.forM Program.writeLog
  IO.print r.output
  IO.eprint (r.errors ++ Program.lastWords r.ending)
  pure (Program.exitCode r.ending)
