import Patchwork.Journal
import Patchwork.Path
import Patchwork.Plain.Written

/-!
# Directories

A directory of files, each at a place in it.  A file holds a document, a text,
something that reads as no document, or the notices of a run.  A path leads to
a place when every step before the last one stands in a folder; a path that
leaves the directory leads nowhere.
-/

namespace Patchwork

/-- What a file holds. -/
inductive Content
  | document (value : Plain)
  | text (content : String)
  | garbled
  | notices (notices : List Notice)
  deriving Inhabited

namespace Content

/-- The lines of a file of notices. -/
def noticeText (notice : Notice) : String :=
  "[" ++ notice.level.name ++ "] " ++ notice.text ++ "\n"

/-- The text of a file; a document has none of its own. -/
def textOf : Content → String
  | document _ => ""
  | text content => content
  | garbled => ""
  | notices list => String.join (list.map noticeText)

/-- The document a text is: the written form of a value, nothing at all, or any
other text as it is. -/
def documentOfText (content : String) : Plain :=
  let trimmed := Text.trim content
  if trimmed == "" then .null else (Plain.ofWritten? trimmed).getD (.str trimmed)

/-- The document in a file. -/
def document? : Content → Option Plain
  | document value => some value.asRead
  | garbled => none
  | content => some (documentOfText content.textOf).asRead

end Content

/-- The names on the way from a directory to something in it. -/
abbrev Place := List String

/-- A directory: its files, and its folders however deep. -/
structure Directory where
  files : Entries Place Content := []
  folders : List Place := []

namespace Directory

/-- Whether a place is a folder; the directory itself is one. -/
def isFolder (directory : Directory) (place : Place) : Bool :=
  place.isEmpty || directory.folders.contains place

/-- One step on a way; two points step back. -/
def step? (directory : Directory) (here : Place) (name : String) : Option Place :=
  if !directory.isFolder here then none
  else if name == ".." then
    if here.isEmpty then none else some here.dropLast
  else some (here ++ [name])

/-- The place a path leads to, whether something is there or not. -/
def place? (directory : Directory) (path : Path) : Option Place :=
  if path.isRooted then none else path.names.foldlM directory.step? []

/-- What the file at the end of a path holds. -/
def content? (directory : Directory) (path : Path) : Option Content :=
  (directory.place? path).bind directory.files.get?

/-- Whether a path leads to a folder. -/
def hasFolder (directory : Directory) (path : Path) : Bool :=
  (directory.place? path).any directory.isFolder

/-- Whether a path leads to a file or a folder. -/
def has (directory : Directory) (path : Path) : Bool :=
  (directory.content? path).isSome || directory.hasFolder path

/-- The directory with a file written, unless there is no folder for it. -/
def write? (directory : Directory) (path : Path) (content : Content) : Option Directory :=
  (directory.place? path).bind fun place =>
    if directory.isFolder place then none
    else some { directory with files := directory.files.put place content }

/-- The directory without a file, if it was there. -/
def remove? (directory : Directory) (path : Path) : Option Directory :=
  (directory.place? path).bind fun place =>
    if directory.files.has place then
      some { directory with files := directory.files.remove place }
    else none

/-- The folders on the way to a place. -/
def foldersTo (place : Place) : List Place :=
  (List.range place.length).tail.map place.take

/-- The directory with all folders on the way to a path. -/
def withFoldersTo (directory : Directory) (path : Path) : Directory :=
  { directory with folders := directory.folders ++
      (foldersTo path.names).filter fun folder => !directory.folders.contains folder }

/-- The directory with a file written and the folders it needs made. -/
def add (directory : Directory) (path : Path) (content : Content) : Directory :=
  ((directory.withFoldersTo path).write? path content).getD directory

/-- The names of the files that stand in a folder itself. -/
def namesIn (directory : Directory) (folder : Place) : List String :=
  directory.files.filterMap fun (place, _) =>
    if place.dropLast == folder then place.getLast? else none

/-- The texts of the paths of all files, in ascending order. -/
def texts (directory : Directory) : List String :=
  Text.sorted (directory.files.map fun (place, _) => Text.joined "/" place)

end Directory

/-! ## Directories as documents

A directory may be given as one document, a mapping from paths to contents.  The content of a file
is a mapping again, whose one key tells whether the file holds a document, a text or something that
reads as no document. -/

/-- What a file holds, as a document. -/
def Content.toPlain : Content → Plain
  | .document value => .mapping [(.str "document", value)]
  | .text content => .mapping [(.str "text", .str content)]
  | .garbled => .mapping [(.str "garbled", .bool true)]
  | .notices list => .mapping [(.str "text", .str (Content.notices list).textOf)]

/-- What a file described by a document holds. -/
def Content.ofPlain : Plain → Content
  | .mapping [(.str "document", value)] => .document value
  | .mapping [(.str "text", .str content)] => .text content
  | _ => .garbled

namespace Directory

/-- The files of a directory, as a document. -/
def toPlain (directory : Directory) : Plain :=
  .mapping (directory.files.map fun (place, content) =>
    (.str (Text.joined "/" place), content.toPlain))

/-- The directory a document describes. -/
def ofPlain : Plain → Directory
  | .mapping entries => entries.foldl (fun directory (path, content) =>
      directory.add (.ofText path.text) (.ofPlain content)) {}
  | _ => {}

end Directory

end Patchwork
