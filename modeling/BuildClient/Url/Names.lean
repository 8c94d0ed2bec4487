import BuildClient.Text.Split

/-!
Names of hosts in scripts beyond ASCII. How they are written in ASCII is said by tables that grow
with the scripts; they are given from outside.
-/

namespace BuildClient.Url

open Text

def isAscii (s : List Char) : Bool := s.all fun c => c.toNat < 128

/-- What the tables write a name with. -/
def isNameChar (c : Char) : Bool := c.isLower || c.isDigit || c == '-'

/-- What the tables make of a name. Some names stand in none of them. -/
structure Names where
  /-- A label, which is what stands between the points of a name. -/
  label : List Char → Option (List Char)
  label_plain : ∀ {s t}, label s = some t → ∀ c ∈ t, isNameChar c = true
  /-- A name as a whole, which may have the points of other scripts. -/
  whole : List Char → Option (List Char)
  whole_plain : ∀ {s t}, whole s = some t → ∀ c ∈ t, isNameChar c = true ∨ c = '.'
  whole_ne_nil : ∀ {s t}, whole s = some t → t ≠ []

namespace Names

/-- Empty tables. -/
def ascii : Names := ⟨fun _ => none, nofun, fun _ => none, nofun, nofun⟩

/-- The host of a web address is spelled label by label. An address in brackets has no labels. -/
def spell (names : Names) (host : List Char) : Option (List Char) :=
  match host with
  | '[' :: _ => some host
  | _ =>
    ((splitAt '.' host).mapM fun s => if isAscii s then some s else names.label s).map
      (joinWith '.')

/-- The host as it is looked up, if it is spelled or in ASCII; no such name begins with a point or
an asterisk. Other names are left to the tables. -/
def resolve (names : Names) (spelled : Bool) (host : List Char) : Option (List Char) :=
  if spelled || isAscii host then
    if host.head? = some '*' ∨ host.head? = some '.' then none else some host
  else names.whole host

end Names

end BuildClient.Url
