import BuildClient.Failure
import BuildClient.Http.Payload
import BuildClient.Text.Split

/-!
Files by their paths, below a working folder.
-/

namespace BuildClient

open Text

/-- A path without empty steps and without steps to the same place. -/
structure Path where
  /-- The slashes that lead an absolute path: one, or two if there are exactly two. -/
  root : List Char
  steps : List (List Char)
deriving DecidableEq, Repr

namespace Path

def rootOf : List Char → List Char
  | '/' :: '/' :: '/' :: _ => ['/']
  | '/' :: '/' :: _ => ['/', '/']
  | '/' :: _ => ['/']
  | _ => []

def read (s : String) : Path :=
  ⟨rootOf s.toList, (splitAt '/' s.toList).filter fun step => !step.isEmpty && step != ['.']⟩

/-- The empty path is written as a point. -/
def write (p : Path) : String :=
  if p.root.isEmpty && p.steps.isEmpty then "."
  else String.ofList (p.root ++ joinWith '/' p.steps)

end Path

structure File where
  content : List UInt8
  /-- From this position on it cannot be read. -/
  failAt : Option Int

namespace File

/-- A file that can be read to its end. -/
def sound (content : List UInt8) : File := ⟨content, none⟩

/-- The file, opened at its start. -/
def source (f : File) : Http.Source := ⟨f.content, 0, f.failAt, none⟩

end File

/-- The file at a path; `none` if there is no file. -/
abbrev Files := Path → Except Foreign (Option File)

/-- The files and folders below a working folder, by their steps. -/
structure Folder where
  files : List (List (List Char) × List UInt8)
  folders : List (List (List Char))

namespace Folder

def empty : Folder := ⟨[], []⟩

/-- The folder itself, what is listed, and what lies above something listed. -/
def isFolder (f : Folder) (place : List (List Char)) : Bool :=
  place.isEmpty || f.folders.any place.isPrefixOf ||
    f.files.any fun file => place.isPrefixOf file.1 && place.length < file.1.length

/-- A step holds at most as many bytes. -/
def maxStep : Nat := 255

/-- A path holds fewer bytes. -/
def maxPath : Nat := 4096

def bytesOf (s : List Char) : Nat := Utf8.size (String.ofList s)

/-- Follows the steps from a place; `none` if they lead nowhere. A step with too long a name
fails. -/
def follow (f : Folder) :
    List (List Char) → List (List Char) → Except Unit (Option (List (List Char)))
  | place, [] => .ok (some place)
  | place, step :: rest =>
    if !f.isFolder place then .ok none
    else if maxStep < bytesOf step then .error ()
    else if step = ['.', '.'] then
      (if place.isEmpty then .ok none else follow f place.dropLast rest)
    else follow f (place ++ [step]) rest

/-- The files of the folder. A path that leads out of it leads nowhere. -/
def content? (f : Folder) : Files := fun p =>
  let tooLong : Foreign := .system ("[Errno 36] File name too long: " ++ Quoted.quote p.write)
  if p.write.toList.contains '\x00' then .ok none
  else if maxPath ≤ bytesOf p.write.toList then .error tooLong
  else if !p.root.isEmpty then .ok none
  else match f.follow [] p.steps with
    | .error () => .error tooLong
    | .ok none => .ok none
    | .ok (some place) => .ok ((f.files.lookup place).map .sound)

end Folder

end BuildClient
