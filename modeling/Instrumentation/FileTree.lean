/-!
# File trees

Directories and files below a root, and one directory to work in. A path that
begins with a slash is followed from the root, any other from that directory,
one component at a time and through directories that exist; `.` and an empty
component stay where they are, `..` goes up and at the root stays there. So a
path that ends with a slash can only mean a directory.

Sections: §1 trees · §2 paths · §3 reading · §4 changing.
-/

namespace Instrumentation

/-! ## §1  Trees -/

/-- What a file or directory is called, from the root down. -/
abbrev Location := List String

/-- A directory, or a file with its text; a file whose bytes are no text has
none. -/
inductive FileNode where
  | directory
  | file (text? : Option String)
deriving DecidableEq

/-- What stands below the root, which itself is a directory. The words for a
failure at a path are not the tree's: they come from the system and from the
JSON reader, and hang on all that stands in the tree. -/
structure FileTree where
  nodes : List (Location × FileNode)
  /-- The directory to work in. -/
  here : Location
  /-- Why no module can be read from a path. -/
  unread : List (Location × FileNode) → String → String := fun _ _ => ""
  /-- Why nothing can be written to a path. -/
  unwritten : List (Location × FileNode) → String → String := fun _ _ => ""

namespace FileTree

/-- An empty directory to work in. -/
def empty : FileTree := { nodes := [(["work"], .directory)], here := ["work"] }

def node? (t : FileTree) : Location → Option FileNode
  | [] => some .directory
  | here => (t.nodes.find? (fun n => n.1 == here)).map (·.2)

def isDirectory (t : FileTree) (here : Location) : Bool :=
  t.node? here == some .directory

def put (t : FileTree) (here : Location) (node : FileNode) : FileTree :=
  { t with nodes := (here, node) :: t.nodes.filter (fun n => n.1 != here) }

/-! ## §2  Paths -/

/-- Whether a text can be a path at all: it is not too long and has no null
character. -/
def isPath (s : String) : Bool := s.utf8ByteSize ≤ 4095 && !s.toList.contains '\x00'

/-- Whether a component can be the name of something: it is not too long. -/
def isName (s : String) : Bool := s.utf8ByteSize ≤ 255

/-- Where a path leads; its last component need not exist. -/
def follow (t : FileTree) : Location → List String → Option Location
  | here, [] => some here
  | here, c :: cs =>
    if !t.isDirectory here then none
    else if c = "" ∨ c = "." then follow t here cs
    else if c = ".." then follow t here.dropLast cs
    else if isName c then follow t (here ++ [c]) cs
    else none

def between (path : String) : List String :=
  (path.toList.splitOn '/').map String.ofList

def components? (path : String) : Option (List String) :=
  if isPath path then some (between path) else none

def start (t : FileTree) (path : String) : Location :=
  if path.startsWith "/" then [] else t.here

def locate? (t : FileTree) (path : String) : Option Location :=
  (components? path).bind (t.follow (t.start path))

/-- The path of something in a directory. A path that begins with a slash stands
for itself. -/
def join (directory name : String) : String :=
  if name.startsWith "/" then name
  else if directory = "" ∨ directory.endsWith "/" then directory ++ name
  else directory ++ "/" ++ name

/-! ## §3  Reading -/

def find? (t : FileTree) (path : String) : Option FileNode :=
  (t.locate? path).bind t.node?

def contains (t : FileTree) (path : String) : Bool := (t.find? path).isSome

/-- Whether a path leads to a file, be it a text or not. -/
def isFile (t : FileTree) (path : String) : Bool :=
  match t.find? path with
  | some (.file _) => true
  | _ => false

def read (t : FileTree) (path : String) : Except String String :=
  match t.find? path with
  | some (.file (some text)) => .ok text
  | _ => .error (t.unread t.nodes path)

def read? (t : FileTree) (path : String) : Option String := (t.read path).toOption

/-! ## §4  Changing -/

/-- Puts a file into a directory that exists, in the place of a file that is
there. -/
def place? (t : FileTree) (path : String) (text? : Option String) :
    Option FileTree := do
  let here ← t.locate? path
  if t.isDirectory here then none else return t.put here (.file text?)

def write (t : FileTree) (path text : String) : Except String FileTree :=
  match t.place? path (some text) with
  | some t => .ok t
  | none => .error (t.unwritten t.nodes path)

/-- Whether components that follow a directory end in a `.` and lead to no other
place. -/
def standsStill (cs : List String) : Bool :=
  cs.contains "." && cs.all fun c => c = "" ∨ c = "."

/-- Makes the directories that components lead through, as far as they are
missing, and says whether that went well; what was made before a failure stays.
A directory is not made for the `.` at the end of a path, which has to find it
there. -/
def makeAll (t : FileTree) : Location → List String → Bool × FileTree
  | here, [] => (t.isDirectory here, t)
  | here, c :: cs =>
    if !t.isDirectory here then (false, t)
    else if c = "" ∨ c = "." then makeAll t here cs
    else if c = ".." then makeAll t here.dropLast cs
    else if !isName c then (false, t)
    else
      let below := here ++ [c]
      match t.node? below with
      | some _ => makeAll t below cs
      | none =>
          if standsStill cs then (false, t)
          else makeAll (t.put below .directory) below cs

def makeDirectories (t : FileTree) (path : String) : Bool × FileTree :=
  match components? path with
  | some cs => t.makeAll (t.start path) cs
  | none => (false, t)

/-- The path without its last component that counts. -/
def parent (path : String) : String :=
  let counting := (between path).filter fun c => c ≠ "" ∧ c ≠ "."
  (if path.startsWith "/" then "/" else "") ++ "/".intercalate counting.dropLast

/-- Puts a file at a path and makes the directories above it, which stay if
there can be no file. -/
def placeDeep (t : FileTree) (path : String) (text? : Option String) :
    Bool × FileTree :=
  match t.makeDirectories (parent path) with
  | (true, t) =>
    match t.place? path text? with
    | some t => (true, t)
    | none => (false, t)
  | (false, t) => (false, t)

def writeDeep (t : FileTree) (path text : String) : Bool × FileTree :=
  t.placeDeep path (some text)

def remove? (t : FileTree) (path : String) : Option FileTree := do
  let here ← t.locate? path
  match t.node? here with
  | some (.file _) => return { t with nodes := t.nodes.filter (fun n => n.1 != here) }
  | _ => none

end FileTree

end Instrumentation
