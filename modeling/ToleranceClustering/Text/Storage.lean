import ToleranceClustering.Text.WordList

/-!
# Where word lists are kept

Two kinds of storage, each a `Loader`: named texts, and a tree of files in which a name is a path. Files are written in
turn, so of two paths to one place the later counts; a path may pass through a directory that it leaves again.
-/

namespace ToleranceClustering.Text

/-- Texts by name; of two with one name the first counts. -/
structure NamedTexts where
  texts : List (String × String)

namespace NamedTexts

/-- The texts that come with the library. -/
def builtin : NamedTexts := ⟨[(englishStopwordList, englishStopwordText)]⟩

/-- Puts a text under a name, in place of the one there. -/
def put (t : NamedTexts) (name text : String) : NamedTexts := ⟨(name, text) :: t.texts⟩

/-- Opens a text by name. -/
def loader (t : NamedTexts) : Loader := fun name =>
  match t.texts.lookup name with
  | some text => .ok (ByteStream.ofString text)
  | none => .error ("no static resource named " ++ name)

end NamedTexts

/-- A file with its text, or a directory with what lies in it; of two entries with one name the first counts. -/
inductive FileNode where
  | file (text : String)
  | directory (entries : List (String × FileNode))

namespace FileNode

/-- Changes what lies at a place, if anything does, and makes the directories that are missing on the way. There is no
result if a file is in the way or the change has none. -/
def alter (change : Option FileNode → Option FileNode) : List String → Option FileNode → Option FileNode
  | [], node => change node
  | name :: place, node =>
    match node.getD (.directory []) with
    | .file _ => none
    | .directory entries =>
      (alter change place (entries.lookup name)).map fun child => .directory ((name, child) :: entries)

/-- A directory where there is none, unless a file is there. -/
def asDirectory : Option FileNode → Option FileNode
  | none => some (.directory [])
  | some (.directory entries) => some (.directory entries)
  | some (.file _) => none

/-- A file with this text in place of the one there, unless a directory is there. -/
def asFile (text : String) : Option FileNode → Option FileNode
  | some (.directory _) => none
  | _ => some (.file text)

/-- What the parts of a path lead to, given the directories above the node, the nearest one first. A part that is empty
or a single dot stays, two dots lead up as long as there is a directory above; a file leads nowhere. -/
def follow (above : List FileNode) (node : FileNode) : List String → Option FileNode
  | [] => some node
  | part :: rest =>
    match node with
    | .file _ => none
    | .directory entries =>
      if part = "" ∨ part = "." then follow above node rest
      else if part = ".." then
        match above with
        | [] => follow [] node rest
        | parent :: above => follow above parent rest
      else (entries.lookup part).bind fun child => follow (node :: above) child rest

end FileNode

/-- A tree of files, seen from its root. -/
structure FileTree where
  root : FileNode

namespace FileTree

/-- The name of the directory that relative paths start in. -/
def homeName : String := "tolerance-clustering-lists"

/-- A tree with the one file that is always empty, and nothing in the directory that relative paths start in. -/
def bare : FileTree :=
  ⟨.directory [("dev", .directory [("null", .file "")]), ("tmp", .directory [(homeName, .directory [])])]⟩

/-- A path as seen from the root. -/
def absolute (path : String) : String :=
  match path.toList with
  | '/' :: _ => path
  | _ => "/tmp/" ++ homeName ++ "/" ++ path

/-- The parts of a path between its slashes, given the beginning of the first part backwards. -/
def partsFrom (current : List Char) : List Char → List String
  | [] => [String.ofList current.reverse]
  | c :: cs => if c = '/' then String.ofList current.reverse :: partsFrom [] cs else partsFrom (c :: current) cs

/-- The parts of a path from the root, unless the path has 4096 bytes or more. -/
def parts? (path : String) : Option (List String) :=
  let full := absolute path
  if 4096 ≤ full.utf8ByteSize then none else some (partsFrom [] full.toList)

/-- Whether something can be created under a name: one of at most 255 bytes, none of them zero, that is not a step in
a path. -/
def isName (name : String) : Bool :=
  name.utf8ByteSize ≤ 255 && name.toList.all (· ≠ '\x00') && ["", ".", ".."].all (· ≠ name)

/-- Makes every directory that a path names before its last part, also one that the path leaves again: the tree with
these, and the place that the path leads to. The last part has to be a name. -/
def clearWay (root : FileNode) (place : List String) : List String → Option (FileNode × List String)
  | [] => none
  | [name] => if isName name then some (root, place ++ [name]) else none
  | part :: rest =>
    if part = "" ∨ part = "." then clearWay root place rest
    else if part = ".." then clearWay root place.dropLast rest
    else if isName part then
      let place := place ++ [part]
      (FileNode.alter FileNode.asDirectory place (some root)).bind fun root => clearWay root place rest
    else none

/-- Writes a file, in place of the one there, if a path can lead to it. -/
def write? (t : FileTree) (path text : String) : Option FileTree := do
  let (root, place) ← clearWay t.root [] (← parts? path)
  return ⟨← FileNode.alter (FileNode.asFile text) place (some root)⟩

/-- The tree with these files, written in turn, if all of them can be. -/
def ofPaths? (files : List (String × String)) : Option FileTree :=
  files.foldlM (fun t file => t.write? file.1 file.2) bare

/-- Opens a file by its path. A directory can be opened, but not read. -/
def loader (t : FileTree) : Loader := fun path =>
  match (parts? path).bind (FileNode.follow [] t.root) with
  | some (.file text) => .ok (ByteStream.ofString text)
  | some (.directory _) => .ok ⟨[], some "Is a directory"⟩
  | none => .error "No such file or directory"

end FileTree

end ToleranceClustering.Text
