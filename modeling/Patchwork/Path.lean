import Patchwork.Text.Search

/-!
# Paths

A path is a list of names, perhaps with a root in front.  Empty names and names
that are a single point say nothing and are left out, so a path has one text.
The suffix of a path is the part of its last name from the last point on,
unless that point is the first or the last character.
-/

namespace Patchwork

/-- The names on the way to a file, from a root or from where one stands. -/
structure Path where
  root : String := ""
  names : List String := []
  deriving DecidableEq, Repr

namespace Path

/-- The root in front of a text: one slash, or exactly two. -/
def rootOf : List Char → String
  | '/' :: '/' :: '/' :: _ => "/"
  | '/' :: '/' :: _ => "//"
  | '/' :: _ => "/"
  | _ => ""

/-- Whether a name says something. -/
def isSaying (name : String) : Bool :=
  name != "" && name != "."

/-- The path a text stands for. -/
def ofText (text : String) : Path :=
  { root := rootOf text.toList
    names := ((Text.pieces '/' text.toList).map String.ofList).filter isSaying }

/-- The text of a path; the empty path is a single point. -/
def text (path : Path) : String :=
  if path.root == "" && path.names.isEmpty then "."
  else path.root ++ Text.joined "/" path.names

/-- Whether a path starts at a root. -/
def isRooted (path : Path) : Bool :=
  path.root != ""

/-- A path seen from another one. -/
def join (base path : Path) : Path :=
  if path.isRooted then path else { base with names := base.names ++ path.names }

/-- The last name of a path. -/
def name (path : Path) : String :=
  path.names.getLast?.getD ""

/-- A name cut before its suffix. -/
def cutSuffix (name : String) : String × String :=
  let backwards := name.toList.reverse
  let ending := backwards.takeWhile (· != '.')
  match backwards.dropWhile (· != '.') with
  | point :: stem =>
    if stem.isEmpty || ending.isEmpty then (name, "")
    else (String.ofList stem.reverse, String.ofList (point :: ending.reverse))
  | [] => (name, "")

/-- The suffix of a path. -/
def suffix (path : Path) : String :=
  (cutSuffix path.name).2

/-- The path with its last name given another suffix; a path without a name
cannot have one. -/
def withSuffix? (path : Path) (suffix : String) : Option Path :=
  if path.name == "" then none
  else some { path with
    names := path.names.dropLast ++ [(cutSuffix path.name).1 ++ suffix] }

@[simp]
theorem join_nil (path : Path) : join {} path = path := by
  unfold join
  split
  · rfl
  · rename_i hrooted
    obtain ⟨root, names⟩ := path
    simp_all [isRooted]

end Path

end Patchwork
