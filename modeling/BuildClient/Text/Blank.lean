import BuildClient.Text.CodeRange

/-!
White space and trimming. Two classes are in use: the white-space property of the
character standard, and that property with the four information separators.
-/

namespace BuildClient.Text

/-- The ranges of the white-space property. -/
def spaceRanges : List (Nat × Nat) :=
  [(0x09, 0x0D), (0x20, 0x20), (0x85, 0x85), (0xA0, 0xA0), (0x1680, 0x1680), (0x2000, 0x200A),
   (0x2028, 0x2029), (0x202F, 0x202F), (0x205F, 0x205F), (0x3000, 0x3000)]

def isSpace (c : Char) : Bool := inRanges spaceRanges c

/-- A blank is white space or one of the separators U+001C to U+001F. -/
def isBlank (c : Char) : Bool := isSpace c || inRanges [(0x1C, 0x1F)] c

/-- Drops the characters of a class from the end. -/
def dropEndWhile (p : Char → Bool) (s : List Char) : List Char := (s.reverse.dropWhile p).reverse

theorem dropEndWhile_nil (p : Char → Bool) : dropEndWhile p [] = [] := rfl

/-- Drops the characters of a class from both ends. -/
def dropOuter (p : Char → Bool) (s : List Char) : List Char := dropEndWhile p (s.dropWhile p)

theorem dropOuter_nil (p : Char → Bool) : dropOuter p [] = [] := rfl

def trimStart (s : String) : String := String.ofList (s.toList.dropWhile isBlank)

def trim (s : String) : String := String.ofList (dropOuter isBlank s.toList)

/-- Nothing but blanks. -/
def allBlank (s : String) : Bool := s.toList.all isBlank

end BuildClient.Text
