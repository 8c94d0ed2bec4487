import BuildClient.Json.Outline
import BuildClient.Wire.Document
import BuildClient.Text.Quoted

/-!
Everything that can go wrong, by cause, and the wording of each.
-/

namespace BuildClient

open Text

/-- What the network below reports. -/
inductive NetworkFault.Kind where
  | timeout
  | readTimeout
  | connectTimeout
  | connection
  | tls
  | proxy
  | chunkedEncoding
  | other (label : String)
deriving DecidableEq, Repr

structure NetworkFault where
  kind : NetworkFault.Kind
  text : String
deriving DecidableEq, Repr

/-- No answer in time, whether to connecting or to a request. -/
def NetworkFault.isTimeout (f : NetworkFault) : Bool :=
  match f.kind with
  | .timeout | .readTimeout | .connectTimeout => true
  | _ => false

/-- What breaks the stream of a payload: its source, or the network. -/
inductive StreamBreak where
  | source
  | network (fault : NetworkFault)
deriving DecidableEq, Repr

/-- Bad input on this side. -/
inductive Misuse where
  | namespaceMissing
  | nameMissing
  | secretMissing
  | triggerTypeMissing
  | fileMissing (path : String)
  | described (text : String)
deriving DecidableEq, Repr

def Misuse.message : Misuse → String
  | .namespaceMissing => "A namespace is required for build config operations"
  | .nameMissing => "A build config name is required"
  | .secretMissing => "A webhook secret is required to trigger a build"
  | .triggerTypeMissing => "A trigger type is required to trigger a build"
  | .fileMissing path => "Can't instantiate binary build from " ++ path ++
    ": the file does not exist"
  | .described text => text

/-- The failures that callers of the client meet. -/
inductive ClientError where
  | general (text : String)
  | configuration (reason : Misuse)
  /-- A request that got no answer. -/
  | undelivered (method url : String) (fault : NetworkFault)
  | transport (text : String)
  /-- A payload that was not carried over whole. -/
  | brokenStream (cause : StreamBreak)
  | upload (text : String)
  | undecodable (title : String) (fault : Model.Fault)
  | unencodable (title : String) (fault : Utf8.Error)
  | serialization (text : String)
  /-- An answer whose status is no success. -/
  | refused (message : CodePoints) (status : Int) (body : String)
  /-- Builds that could not be deleted, each under `namespace/name`. -/
  | unreaped (failures : List (String × ClientError))

namespace ClientError

/-- The families of failures; an upload failure is also a transport failure. -/
inductive Family where
  | client
  | configuration
  | transport
  | upload
  | serialization
  | api
  | reap
deriving DecidableEq, Repr

def Family.name : Family → String
  | client => "BuildClientError"
  | configuration => "ConfigurationError"
  | transport => "TransportError"
  | upload => "UploadError"
  | serialization => "SerializationError"
  | api => "ApiError"
  | reap => "ReapError"

/-- The family and every wider one, narrowest first. -/
def Family.lineage : Family → List Family
  | client => [client]
  | upload => [upload, transport, client]
  | f => [f, client]

def family : ClientError → Family
  | general _ => .client
  | configuration _ => .configuration
  | undelivered .. | transport _ => .transport
  | brokenStream _ | upload _ => .upload
  | undecodable .. | unencodable .. | serialization _ => .serialization
  | refused .. => .api
  | unreaped _ => .reap

def streamMessage : String :=
  "Can't instantiate binary build, due to error reading/writing stream. " ++
    "Can be caused if the output stream was closed by the server."

/-- One defect is counted in the singular. -/
def countDefects (n : Nat) (title : String) : String :=
  toString n ++ (if n = 1 then " validation error for " else " validation errors for ") ++ title

def faultMessage (title : String) : Model.Fault → String
  | .malformed => countDefects 1 title
  | .defective ds => countDefects ds.length title

def bytesMessage : Utf8.Error → String
  | .invalid n i =>
    "invalid utf-8 sequence of " ++ toString n ++ " bytes from index " ++ toString i
  | .incomplete i => "incomplete utf-8 byte sequence from index " ++ toString i

def sortedKeys (failures : List (String × ClientError)) : List String :=
  (failures.map Prod.fst).mergeSort fun a b => a ≤ b

/-- What the failure says, without the status of an answer. Half of a surrogate pair cannot be
shown. -/
def message : ClientError → String
  | general text | transport text | upload text | serialization text => text
  | configuration reason => reason.message
  | undelivered method url fault => method ++ " " ++ url ++ " failed: " ++ fault.text
  | brokenStream _ => streamMessage
  | undecodable title fault => "Cannot decode " ++ title ++ ": " ++ faultMessage title fault
  | unencodable title fault =>
    "Cannot serialize " ++ title ++ ": Error serializing to JSON: " ++ bytesMessage fault
  | refused text _ _ => text.shown
  | unreaped failures =>
    "Failed to delete " ++ toString failures.length ++ " build(s): " ++
      String.intercalate ", " (sortedKeys failures)

/-- What the failure says in full. -/
def text : ClientError → String
  | refused text status _ => text.shown ++ " (status " ++ toString status ++ ")"
  | e => e.message

/-- Not there, said the service. -/
def isNotFound : ClientError → Bool
  | refused _ status _ => status == 404
  | _ => false

end ClientError

/-- Failures that come from below or from misused values, and pass through as they are. -/
inductive Foreign where
  | missingScheme (url : String)
  | missingHost (url : String)
  | invalidLabel
  | unparsable
  | invalidHeaderName (name : String)
  | invalidHeaderValue (value : String)
  /-- Characters, the first of them `c`, that basic authorization cannot carry. -/
  | uncodable (position count : Nat) (c : Char)
  | unbalancedHost
  | notAddress (host : String)
  | bracketedIpv4
  | badFutureAddress
  /-- A location that has a mark in it once it is brought into its compatible form. -/
  | maskedMark (location : String)
  | durationTooLarge
  | unknownLevel (name : String)
  /-- The stack has no room for what is going on. -/
  | stackExhausted (during : Json.Activity)
  | system (text : String)
  | badValue (text : String)
deriving DecidableEq, Repr

/-- The name of the kind of failure. -/
def Foreign.name : Foreign → String
  | missingScheme _ => "MissingSchema"
  | missingHost _ | invalidLabel | unparsable => "InvalidURL"
  | invalidHeaderName _ | invalidHeaderValue _ => "InvalidHeader"
  | uncodable .. => "UnicodeEncodeError"
  | durationTooLarge => "OverflowError"
  | stackExhausted _ => "RecursionError"
  | system _ => "OSError"
  | unbalancedHost | notAddress _ | bracketedIpv4 | badFutureAddress | maskedMark _ | unknownLevel _
  | badValue _ => "ValueError"

def exhaustionMessage (during : Json.Activity) : String :=
  "maximum recursion depth exceeded" ++ match during with
    | .array => " while decoding a JSON array from a unicode string"
    | .object => " while decoding a JSON object from a unicode string"
    | .call => " while calling a Python object"
    | .frame => ""

def Foreign.message : Foreign → String
  | missingScheme url =>
    "Invalid URL " ++ Quoted.quote url ++ ": No scheme supplied. Perhaps you meant https://" ++ url
      ++ "?"
  | missingHost url => "Invalid URL " ++ Quoted.quote url ++ ": No host supplied"
  | invalidLabel => "URL has an invalid label."
  | unparsable => "Failed to parse"
  | invalidHeaderName name => headerMessage "name" name
  | invalidHeaderValue content => headerMessage "value" content
  | uncodable position count c =>
    "'latin-1' codec can't encode " ++
      (if count = 1 then
        "character " ++ Quoted.quoteAscii (String.ofList [c]) ++ " in position " ++
          toString position
      else
        "characters in position " ++ toString position ++ "-" ++ toString (position + count - 1)) ++
      ": ordinal not in range(256)"
  | unbalancedHost => "Invalid IPv6 URL"
  | notAddress host => Quoted.quote host ++ " does not appear to be an IPv4 or IPv6 address"
  | bracketedIpv4 => "An IPv4 address cannot be in brackets"
  | badFutureAddress => "IPvFuture address is invalid"
  | maskedMark location =>
    "netloc '" ++ location ++ "' contains invalid characters under NFKC normalization"
  | durationTooLarge => "integer division result too large for a float"
  | unknownLevel name => "Unknown level: " ++ Quoted.quote name
  | stackExhausted during => exhaustionMessage during
  | system text | badValue text => text
where
  headerMessage (part content : String) : String :=
    "Invalid leading whitespace, reserved character(s), or return character(s) in header " ++ part
      ++ ": " ++ Quoted.quote content

inductive Failure where
  | client (e : ClientError)
  | foreign (f : Foreign)

namespace Failure

def text : Failure → String
  | client e => e.text
  | foreign f => f.message

/-- The full name of the kind of failure. -/
def name : Failure → String
  | client e => "buildconfig_operations.errors." ++ e.family.name
  | foreign f => f.name

end Failure

end BuildClient
