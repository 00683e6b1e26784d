import SeededSketch.Demo

/-!
# The command line

Draws the sketch of `Demo` with the settings that the surroundings give, writes the picture to a
file and says where. The settings files and variables are read into a world, on which everything
else is decided; the picture that comes of it is then written out.
-/

namespace SeededSketch.Main

/-- The variables that a block of texts, each ended by a zero character, gives. -/
def variablesOf (block : String) : List (String × String) :=
  (block.splitOn "\x00").filterMap fun line =>
    match line.toList.span (· != '=') with
    | (name, _ :: value) => some (.ofList name, .ofList value)
    | _ => none

/-- The variables of this process. -/
def readVariables : IO (List (String × String)) := do
  try
    return variablesOf (← IO.FS.readFile "/proc/self/environ")
  catch _ =>
    return ((← IO.getEnv "HOME").map fun home => ("HOME", home)).toList

/-- The world with the file at a path in it, if there is one. -/
def withFile (w : World) (path : Path) : IO World := do
  try
    let text ← IO.FS.readFile path.text
    return (w.save path text).1
  catch _ => return w

/-- The world around this process, as far as settings are concerned. -/
def readWorld : IO World := do
  let directory := Path.ofString (← IO.currentDir).toString
  let empty : World :=
    { tree := .emptyDirectory, workingDirectory := [],
      surroundings := { bindings := ← readVariables, accounts := [("root", "/root")] } }
  let world :=
    { (World.ensureDirectories directory.parts.length empty directory).1 with
      workingDirectory := directory.parts }
  match Settings.candidates world with
  | .ok paths => paths.foldlM withFile world
  | .error _ => return world

/-- Writes a text to a file and makes the directories above it. -/
def writeFile (path : Path) (text : String) : IO Unit := do
  IO.FS.createDirAll path.parent.text
  IO.FS.writeFile path.text text

end SeededSketch.Main

open SeededSketch in
/-- Writes the sketch; the exit code is one if that is not possible. -/
def main : IO UInt32 := do
  let (session, outcome) := Demo.perform (.start (← Main.readWorld))
  match outcome with
  | .error fault =>
    IO.eprintln fault.message
    return 1
  | .ok result =>
    match session.world.content? result.path with
    | some (.text text) =>
      Main.writeFile result.path text
      IO.println result.path.text
      return 0
    | _ => return 1
