import BuildClient.Wire.Record
import BuildClient.Json.Parser
import BuildClient.Json.Printer

/-!
The documents of the build service, and their texts.
-/

namespace BuildClient

open Json Text Wire

def buildApiVersion : String := "build.openshift.io/v1"

/-- What every object carries about itself. -/
structure ObjectMeta where
  name : Option String
  ns : Option String
  uid : Option String
  resourceVersion : Option String
  creationTimestamp : Option String
  labels : Dictionary String
  annotations : Dictionary String
  extra : Dictionary Extra

/-- An object with a specification and a status. -/
structure ManagedObject where
  apiVersion : Option String
  kind : Option String
  metadata : ObjectMeta
  spec : Dictionary Value
  status : Dictionary Value
  extra : Dictionary Extra

abbrev Build := ManagedObject

abbrev BuildConfig := ManagedObject

structure BuildList where
  apiVersion : Option String
  kind : Option String
  items : Option (List Build)
  extra : Dictionary Extra

/-- What is posted to start a build. -/
structure BuildRequest where
  apiVersion : Option String
  kind : Option String
  metadata : ObjectMeta
  extra : Dictionary Extra

structure WebHookTrigger where
  secret : Option String
  allowEnv : Option Bool
  extra : Dictionary Extra

namespace Wire

def textField (key : String) (other : Option String) : Field :=
  ⟨key, other, Option String, .text, none⟩

def textsField (key : String) : Field := ⟨key, none, Dictionary String, .texts, []⟩

def treeField (key : String) : Field := ⟨key, none, Dictionary Value, .tree, []⟩

def versionField : Field := textField "apiVersion" "api_version"

def kindField : Field := textField "kind" none

def metaFields : List Field :=
  [textField "name" none, textField "namespace" none, textField "uid" none,
   textField "resourceVersion" "resource_version",
   textField "creationTimestamp" "creation_timestamp",
   textsField "labels", textsField "annotations"]

end Wire

def ObjectMeta.empty : ObjectMeta := ⟨none, none, none, none, none, [], [], []⟩

/-- Metadata with nothing but a name. -/
def ObjectMeta.named (name : String) : ObjectMeta := { ObjectMeta.empty with name := some name }

namespace Wire

def metaCodec : Codec ObjectMeta :=
  (Record.codec metaFields).via
    (fun r =>
      match r with
      | ⟨(name, ns, uid, version, created, labels, annotations, ()), extra⟩ =>
        ⟨name, ns, uid, version, created, labels, annotations, extra⟩)
    (fun m =>
      ⟨(m.name, m.ns, m.uid, m.resourceVersion, m.creationTimestamp, m.labels,
        m.annotations, ()), m.extra⟩)

def metaField : Field := ⟨"metadata", none, ObjectMeta, metaCodec, .empty⟩

def managedFields : List Field :=
  [versionField, kindField, metaField, treeField "spec", treeField "status"]

def managedCodec : Codec ManagedObject :=
  (Record.codec managedFields).via
    (fun r =>
      match r with
      | ⟨(version, kind, metadata, spec, status, ()), extra⟩ =>
        ⟨version, kind, metadata, spec, status, extra⟩)
    (fun o => ⟨(o.apiVersion, o.kind, o.metadata, o.spec, o.status, ()), o.extra⟩)

def itemsField : Field := ⟨"items", none, Option (List Build), managedCodec.list, none⟩

def listFields : List Field := [versionField, kindField, itemsField]

def listCodec : Codec BuildList :=
  (Record.codec listFields).via
    (fun r =>
      match r with
      | ⟨(version, kind, items, ()), extra⟩ => ⟨version, kind, items, extra⟩)
    (fun l => ⟨(l.apiVersion, l.kind, l.items, ()), l.extra⟩)

def requestFields : List Field := [versionField, kindField, metaField]

def requestCodec : Codec BuildRequest :=
  (Record.codec requestFields).via
    (fun r =>
      match r with
      | ⟨(version, kind, metadata, ()), extra⟩ => ⟨version, kind, metadata, extra⟩)
    (fun q => ⟨(q.apiVersion, q.kind, q.metadata, ()), q.extra⟩)

def triggerFields : List Field :=
  [textField "secret" none, ⟨"allowEnv", some "allow_env", Option Bool, .truth, none⟩]

def triggerCodec : Codec WebHookTrigger :=
  (Record.codec triggerFields).via
    (fun r =>
      match r with
      | ⟨(secret, allowEnv, ()), extra⟩ => ⟨secret, allowEnv, extra⟩)
    (fun t => ⟨(t.secret, t.allowEnv, ()), t.extra⟩)

end Wire

/-- A kind of document: its title in messages, and how it is read and written. -/
structure Model (α : Type) where
  title : String
  codec : Codec α

namespace Model

def objectMeta : Model ObjectMeta := ⟨"ObjectMeta", metaCodec⟩

def build : Model Build := ⟨"Build", managedCodec⟩

def buildConfig : Model BuildConfig := ⟨"BuildConfig", managedCodec⟩

def buildList : Model BuildList := ⟨"BuildList", listCodec⟩

def buildRequest : Model BuildRequest := ⟨"BuildRequest", requestCodec⟩

def webHookTrigger : Model WebHookTrigger := ⟨"WebHookTrigger", triggerCodec⟩

/-- Why a text is no document of the kind. -/
inductive Fault where
  | malformed
  | defective (defects : List Defect)
deriving DecidableEq, Repr

variable {α : Type}

/-- Documents are nested at most two hundred deep. -/
def reader : Reader := ⟨some 200, false⟩

/-- Binary numbers have the fewest digits that identify them; what is no number is left blank. -/
def style : Style := .standard "," ":" ⟨-4, 16, 2, "null", "null", "null"⟩

def read (m : Model α) (v : Value) : Except Fault α := (m.codec.read v).mapError .defective

def decodeText (m : Model α) (s : String) : Except Fault α :=
  match reader.parse? s with
  | none => .error .malformed
  | some v => m.read v

def decodeBytes (m : Model α) (bytes : List UInt8) : Except Fault α :=
  match Utf8.decode bytes with
  | .error _ => .error .malformed
  | .ok s => m.decodeText s

def encode (m : Model α) (a : α) : Except Utf8.Error String := (m.codec.write a).map style.print

end Model

namespace BuildRequest

/-- Some text that is not empty, else the given one. -/
def orElse (o : Option String) (fallback : String) : String :=
  match o with
  | some s => if s.isEmpty then fallback else s
  | none => fallback

/-- The request with version and kind filled in where they are missing. -/
def withApiVersion (q : BuildRequest) : BuildRequest :=
  { q with
    apiVersion := some (orElse q.apiVersion buildApiVersion)
    kind := some (orElse q.kind "BuildRequest") }

end BuildRequest

end BuildClient
