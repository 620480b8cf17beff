/-
  Paths as texts.

  A path is kept as it was written, because messages show it that way.  What it means is a list
  of pieces between slashes: a name, `..` for the directory above, or nothing and `.`, which both
  stand for where one already is.  A path that begins with a slash starts at the root.
-/

namespace ActorScript.Path

/-- The parts of a text between slashes; there is always at least one. -/
def split : List Char → List (List Char)
  | [] => [[]]
  | c :: cs =>
    if c = '/' then [] :: split cs
    else match split cs with
      | [] => [[c]]
      | piece :: pieces => (c :: piece) :: pieces

/-- The pieces of a path. -/
def pieces (p : String) : List String := (split p.toList).map String.ofList

/-- Whether a path starts at the root. -/
def isAbsolute (p : String) : Bool := p.startsWith "/"

/-- Whether a piece stands for where one already is. -/
def stays (piece : String) : Bool := piece = "" || piece = "."

/-- The pieces of a path that lead somewhere. -/
def steps (p : String) : List String := (pieces p).filter (!stays ·)

/-- Some pieces without those at the end that stand for where one already is. -/
def trim (pieces : List String) : List String := (pieces.reverse.dropWhile stays).reverse

/-- The path of the directory that a path is in; empty for the directory one starts from. -/
def parent (p : String) : String := "/".intercalate (trim (trim (pieces p)).dropLast)

/-- The path `q` as seen from `p`. -/
def join (p q : String) : String :=
  if isAbsolute q then q
  else if p.isEmpty || p.endsWith "/" then p ++ q
  else p ++ "/" ++ q

/-- The greatest number of bytes in a name. -/
def maxNameSize : Nat := 255

/-- The greatest number of bytes in a path. -/
def maxSize : Nat := 4095

/-- Whether a path is too long. -/
def isLong (p : String) : Bool := maxSize < p.utf8ByteSize

/-- Whether a text may be passed on as a path: it is not too long and has no NUL. -/
def isPassable (p : String) : Bool := !isLong p && !p.toList.contains '\x00'

/-- Whether a name is too long. -/
def isLongName (name : String) : Bool := maxNameSize < name.utf8ByteSize

/-- Whether a path can name anything at all: it is not empty, it may be passed on, and no name in
    it is too long. -/
def isUsable (p : String) : Bool :=
  !p.isEmpty && isPassable p && (pieces p).all (!isLongName ·)

/-- What stands before a final dot and `extension`, unless nothing does. -/
def stem? (extension : String) (name : String) : Option String :=
  let ending := ('.' :: extension.toList).reverse
  let reversed := name.toList.reverse
  if ending.length < reversed.length && ending.isPrefixOf reversed then
    some (String.ofList (reversed.drop ending.length).reverse)
  else none

example : pieces "a//b/" = ["a", "", "b", ""] ∧ pieces "" = [""] ∧ pieces "/" = ["", ""] := by
  decide

example : steps "./a//../b" = ["a", "..", "b"] := by decide

example : parent "a//b/./c/." = "a//b" ∧ parent "/a/b" = "/a" ∧ parent "a" = "" := by decide

example : stem? "json" "a.b.json" = some "a.b" ∧ stem? "json" ".json" = none ∧
    stem? "json" "a.JSON" = none := by decide

end ActorScript.Path
