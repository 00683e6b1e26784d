import SeededSketch.Fault
import SeededSketch.Path

/-!
# Worlds

Files and directories as a value: a directory holds named trees, a file holds a text, or data that
a text would be read as. A place in a tree is the list of names that lead to it from the top.

A world is what a program finds around it: a tree of files, the directory it works in, variables and
accounts. Reading looks at a world. Making one directory or opening one file gives a new world or
fails and changes nothing; what takes several such steps comes back as a world together with an
outcome, since the steps before a failure stay.

A path is followed name by name. Every name but the last must lead to a directory that exists,
and double dots lead to the directory above, so that a path can fail although a simplified form
of it would not. Names and paths have a greatest length, in bytes; a name that is longer is refused
only when it is looked for.
-/

namespace SeededSketch

/-! ## File trees -/

/-- What a file holds. -/
inductive Content where
  | text (s : String)
  | data (v : Value)

inductive FileTree where
  | file (content : Content)
  | directory (entries : List (String × FileTree))

namespace FileTree

def emptyDirectory : FileTree := .directory []

/-- The entries with `tree` under `name`, in its old place if the name is there. -/
def setEntry (name : String) (tree : FileTree) :
    List (String × FileTree) → List (String × FileTree)
  | [] => [(name, tree)]
  | entry :: rest =>
    if entry.1 == name then (name, tree) :: rest else entry :: setEntry name tree rest

/-- What is at a place. -/
def find? (tree : FileTree) (place : List String) : Option FileTree :=
  match place, tree with
  | [], tree => some tree
  | name :: rest, .directory entries => (entries.lookup name).bind fun child => child.find? rest
  | _ :: _, .file _ => none

/-- The tree with `node` at a place; nothing if the place lies in no directory. -/
def set? (tree : FileTree) (place : List String) (node : FileTree) : Option FileTree :=
  match place, tree with
  | [], _ => some node
  | [name], .directory entries => some (.directory (setEntry name node entries))
  | name :: rest, .directory entries => do
    let child ← entries.lookup name
    return .directory (setEntry name (← child.set? rest node) entries)
  | _ :: _, .file _ => none

def isDirectory : FileTree → Bool
  | directory _ => true
  | file _ => false

end FileTree

/-! ## Devices -/

/-- What becomes of a text that is written to an open file: the device takes all of it, or fails
with words of its own when so many characters have got to the file. -/
inductive Device where
  | sound
  | failing (room : Nat) (words : String)

namespace Device

/-- What of a text gets to the file. -/
def taken : Device → String → String
  | sound, text => text
  | failing room _, text => .ofList (text.toList.take room)

/-- How the writing ends. -/
def outcome : Device → Except Fault Unit
  | sound => .ok ()
  | failing _ words => .error (.deviceFailed words)

end Device

/-! ## Worlds -/

structure World where
  tree : FileTree
  workingDirectory : List String
  surroundings : Surroundings

namespace World

/-- The working directory as a path. -/
def workingPath (w : World) : Path := { root := .slash, parts := w.workingDirectory }

/-- The most bytes that a name can have. -/
def longestName : Nat := 255

/-- The most bytes that a path can have. -/
def longestPath : Nat := 4095

/-- Where a path leads: the names on the way from the top of the tree, and what is there. -/
structure Place where
  names : List String
  node : Option FileTree

/-- Follows names from a place inside the tree `top`. The trail to the place holds its names with
what they lead to, the innermost first. -/
def follow (path : Path) (top : FileTree) :
    List (String × FileTree) → List String → Except Fault Place
  | trail, [] => .ok ⟨(trail.map Prod.fst).reverse, some ((trail.head?.map Prod.snd).getD top)⟩
  | trail, name :: rest =>
    match (trail.head?.map Prod.snd).getD top with
    | .file _ => .error (.notDirectory path.text)
    | .directory entries =>
      if name == ".." then follow path top trail.tail rest
      else if longestName < name.utf8ByteSize then .error (.nameTooLong path.text)
      else
        match entries.lookup name with
        | some child => follow path top ((name, child) :: trail) rest
        | none =>
          if rest.isEmpty then .ok ⟨(trail.map Prod.fst).reverse ++ [name], none⟩
          else .error (.fileMissing path.text)

/-- Where a path leads. A path with the character zero, and one that is too long as a whole, is not
followed at all. -/
def locate (w : World) (path : Path) : Except Fault Place :=
  match path.unnameable with
  | some run => .error (.unnameable run)
  | none =>
    if path.parts.any (·.contains '\x00') then .error .zeroInPath
    else if longestPath < path.text.utf8ByteSize then .error (.nameTooLong path.text)
    else follow path w.tree [] ((if path.isAbsolute then [] else w.workingDirectory) ++ path.parts)

/-- What a path leads to, if it leads to anything. -/
def lookup? (w : World) (path : Path) : Option FileTree :=
  match w.locate path with
  | .ok place => place.node
  | .error _ => none

/-- The content of the file that a path leads to. -/
def content? (w : World) (path : Path) : Option Content :=
  match w.lookup? path with
  | some (.file content) => some content
  | _ => none

/-- Whether a path leads to a file. A name that is too long cannot be looked for; whatever else is
wrong with a path, it leads to none. -/
def isFile (w : World) (path : Path) : Except Fault Bool :=
  match w.locate path with
  | .error (.nameTooLong text) => .error (.nameTooLong text)
  | _ => .ok (w.content? path).isSome

def isDirectory (w : World) (path : Path) : Bool := (w.lookup? path).any FileTree.isDirectory

/-- The world with `node` at a place. -/
def put (w : World) (path : Path) (place : List String) (node : FileTree) :
    Except Fault World :=
  match w.tree.set? place node with
  | some tree => .ok { w with tree }
  | none => .error (.fileMissing path.text)

/-- Makes one directory, where nothing is yet. -/
def makeDirectory (w : World) (path : Path) : Except Fault World := do
  let place ← w.locate path
  match place.node with
  | some _ => .error (.fileInPlace path.text)
  | none => w.put path place.names .emptyDirectory

/-- Makes one directory, unless it is there already. -/
def ensureDirectory (w : World) (path : Path) : Except Fault World :=
  match w.makeDirectory path with
  | .ok w₁ => .ok w₁
  | .error (.fileMissing p) => .error (.fileMissing p)
  | .error fault => if w.isDirectory path then .ok w else .error fault

/-- The world after a single step, with its outcome; a step that fails changes nothing. -/
def after (w : World) (step : Except Fault World) : World × Except Fault Unit :=
  match step with
  | .ok w₁ => (w₁, .ok ())
  | .error fault => (w, .error fault)

/-- Makes a directory and those above it that are missing; `fuel` bounds the number of levels. -/
def ensureDirectories : Nat → World → Path → World × Except Fault Unit
  | 0, w, path => w.after (w.ensureDirectory path)
  | fuel + 1, w, path =>
    match w.ensureDirectory path with
    | .error (.fileMissing p) =>
      if path.parent = path then (w, .error (.fileMissing p))
      else
        match ensureDirectories fuel w path.parent with
        | (w₁, .ok _) => w₁.after (w₁.ensureDirectory path)
        | (w₁, .error fault) => (w₁, .error fault)
    | step => w.after step

/-- Opens a file for writing: it is made, or what it held is gone. What is written goes to the place
that is given back. -/
def openFile (w : World) (path : Path) : Except Fault (World × List String) := do
  let place ← w.locate path
  match place.node with
  | some (.directory _) => .error (.directoryInPlace path.text)
  | _ => return (← w.put path place.names (.file (.text "")), place.names)

/-- Writes a text to a file, which is made or replaced, and closes it. Once the file is open it
keeps what has got there, whether or not the device goes on to the end. -/
def write (w : World) (path : Path) (text : String) (device : Device) : World × Except Fault Unit :=
  match w.openFile path with
  | .error fault => (w, .error fault)
  | .ok (w₁, place) =>
    match w₁.put path place (.file (.text (device.taken text))) with
    | .error fault => (w₁, .error fault)
    | .ok w₂ => (w₂, device.outcome)

/-- Writes a text to a file and makes the directories above it. -/
def save (w : World) (path : Path) (text : String) (device : Device := .sound) :
    World × Except Fault Unit :=
  match ensureDirectories path.parts.length w path.parent with
  | (w₁, .ok _) => w₁.write path text device
  | (w₁, .error fault) => (w₁, .error fault)

end World

end SeededSketch
