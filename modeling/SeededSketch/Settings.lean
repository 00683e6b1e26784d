import SeededSketch.Color
import SeededSketch.Value.Conversion
import SeededSketch.World
import SeededSketch.Yaml

/-!
# Settings

The canvas, the background, the rate, the seed and the output directory of a sketch, as settings
files give them. There are up to three layers: the settings that come with the program, a file
that is found in the working directory or else in the home directory, and a file that is named
explicitly. A later layer goes over an earlier one section by section, and within a section key
by key.

The layers are merged first and checked afterwards, in a fixed order, so that of several faults
the same one is always reported.

A session is a world together with what a program remembers about its settings: the file that was
named explicitly, and the settings once they have been loaded. Loaded settings stay until a file
is named again; settings that could not be loaded leave nothing behind, so that the next attempt
looks at the files anew.
-/

namespace SeededSketch

structure Settings where
  /-- The file that the settings come from, the explicit one before the one that was found. -/
  source : Option Path
  outputDirectory : Path
  canvasWidth : Int
  canvasHeight : Int
  background : Rgb
  rate : Float
  seed : Int

namespace Settings

/-- The entries of a mapping, in order. -/
abbrev Entries := List (Value × Value)

/-- The value under a name. -/
def get (name : String) (entries : Entries) : Value :=
  (Value.find? (.text name) entries).getD .null

/-! ## Layers -/

/-- The settings that come with the program. -/
def packaged : Entries :=
  [(.text "version", .number (.whole 1)),
    (.text "paths", .map [(.text "output_dir", .text "data/output")]),
    (.text "sketch", .map [
      (.text "canvas_size", .list [.number (.whole 500), .number (.whole 500)]),
      (.text "background_color",
        .list [.number (.real 0.0), .number (.real 0.0), .number (.real 0.0)]),
      (.text "fps", .number (.real 1.0)),
      (.text "seed", .number (.whole 0))])]

/-- One mapping over another, key by key. -/
def override (base later : Entries) : Entries :=
  later.foldl (fun entries (key, value) => Value.insert key value entries) base

/-- What a section becomes when `value` goes over it: two mappings are merged, otherwise the later
value stands. -/
def mergeSection (base : Option Value) (value : Value) : Value :=
  match base.bind Value.entries?, value.entries? with
  | some section₁, some section₂ => .map (override section₁ section₂)
  | _, _ => value

/-- One layer over another, section by section. -/
def merge (base later : Entries) : Entries :=
  later.foldl (fun entries (key, value) =>
    Value.insert key (mergeSection (Value.find? key entries) value) entries) base

/-- The entries of a settings file's content. An empty file gives none; `source` names the file in
a fault. -/
def entriesOf (source : String) (content : Content) : Except Fault Entries :=
  let value? := match content with
    | .text s => Yaml.read s
    | .data v => some v
  match value? with
  | none => .error (.settingsUnreadable source)
  | some .null => .ok []
  | some v =>
    match v.entries? with
    | some entries => .ok entries
    | none => .error (.settingsNotMapping source)

/-! ## Single settings -/

/-- A fault whose words show the value `v`, unless a number in it is too long to be written. -/
def showing (v : Value) (fault : Fault) : Fault := if v.isWritable then fault else .wholeTooLong

/-- A section, which may be missing or empty. -/
def sectionOf (name : String) (entries : Entries) : Except Fault Entries :=
  match get name entries with
  | .null => .ok []
  | v =>
    match v.entries? with
    | some entries => .ok entries
    | none => .error (showing v (.sectionNotMapping name v))

/-- The outcome, or `fault` in place of any fault. -/
def orFault {α : Type} (outcome : Except Fault α) (fault : Fault) : Except Fault α :=
  match outcome with
  | .ok a => .ok a
  | .error _ => .error fault

/-- A setting's value, which must be there. -/
def required (setting : Setting) : Value → Except Fault Value
  | .null => .error (.settingUnset setting)
  | v => .ok v

def checkVersion (v : Value) : Except Fault Unit := do
  let v ← required .version v
  let n ← orFault v.toWhole (showing v (.versionNotWhole v))
  if n = 1 then return () else .error (showing (.number (.whole n)) (.versionUnknown n))

/-- The code points of a value's text. -/
def pointsOf : Value → CodePoints
  | .broken points => points
  | v => .ofChars v.display.toList

/-- The output directory: the path of any value's text without blanks at its ends, with home
directory and variables put in. A text of blanks counts as missing. -/
def outputDirectoryOf (surroundings : Surroundings) (v : Value) : Except Fault Path := do
  let v ← required .outputDir v
  if !v.isWritable then .error .wholeTooLong
  else
    let text := Text.trimBy (fun n => Text.isBlank (Char.ofNat n)) (pointsOf v)
    if text.isEmpty then .error (.settingUnset .outputDir)
    else return .ofPoints (← surroundings.expand text)

/-- The path that is any value's text, with the home directory put in. -/
def namedPath (surroundings : Surroundings) (v : Value) : Except Fault Path :=
  if v.isWritable then surroundings.expandHomePath (.ofPoints (pointsOf v))
  else .error .wholeTooLong

def canvasOf (v : Value) : Except Fault (Int × Int) := do
  let v ← required .canvasSize v
  match v.items? with
  | some [width, height] =>
    let notWhole := showing v (.settingNotWholePair .canvasSize v)
    let w ← orFault width.toWhole notWhole
    let h ← orFault height.toWhole notWhole
    if w ≤ 0 ∨ h ≤ 0 then
      .error (showing (.pair (.number (.whole w)) (.number (.whole h)))
        (.settingSizeNotPositive .canvasSize w h))
    else return (w, h)
  | _ => .error (showing v (.settingNotPair .canvasSize v))

def backgroundOf (v : Value) : Except Fault Rgb := do
  let v ← required .backgroundColor v
  let notReal := showing v (.settingNotRealTriple .backgroundColor v)
  match v.items? with
  | none => .error notReal
  | some items =>
    match ← orFault (items.mapM Value.toReal) notReal with
    | [red, green, blue] => return ⟨red, green, blue⟩
    | _ => .error (showing v (.settingNotTriple .backgroundColor v))

def rateOf (v : Value) : Except Fault Float := do
  let v ← required .fps v
  let rate ← orFault v.toReal (showing v (.settingNotReal .fps v))
  if rate ≤ 0.0 then .error (.settingNotPositive .fps rate) else return rate

/-- The seed. Truth values, which count as integers elsewhere, are refused. -/
def seedOf (v : Value) : Except Fault Int := do
  let v ← required .seed v
  let notWhole := showing v (.settingNotWhole .seed v)
  match v with
  | .bool _ => .error notWhole
  | _ => orFault v.toWhole notWhole

/-! ## Resolution -/

/-- The settings of merged layers. -/
def ofEntries (surroundings : Surroundings) (source : Option Path) (entries : Entries) :
    Except Fault Settings := do
  checkVersion (get "version" entries)
  let paths ← sectionOf "paths" entries
  let outputDirectory ← outputDirectoryOf surroundings (get "output_dir" paths)
  let sketch ← sectionOf "sketch" entries
  let (canvasWidth, canvasHeight) ← canvasOf (get "canvas_size" sketch)
  let background ← backgroundOf (get "background_color" sketch)
  let rate ← rateOf (get "fps" sketch)
  let seed ← seedOf (get "seed" sketch)
  return { source, outputDirectory, canvasWidth, canvasHeight, background, rate, seed }

/-- The places at which a settings file is looked for, the first before the second. -/
def candidates (w : World) : Except Fault (List Path) := do
  let home ← w.surroundings.expandHomePath (.ofString "~")
  return [w.workingPath.join (.ofString ".shapeseed/config.yaml"),
    home.join (.ofString ".config/shapeseed/config.yaml")]

/-- The entries of the file at a path, if there is one. -/
def layerAt (w : World) (path : Path) : Except Fault Entries :=
  match w.content? path with
  | some content => entriesOf path.text content
  | none => .error (.fileMissing path.text)

/-- One layer over another, if there is a file for it. -/
def withLayer (w : World) (base : Entries) : Option Path → Except Fault Entries
  | none => .ok base
  | some path => do return merge base (← layerAt w path)

/-- The first of some paths that leads to a file. -/
def firstFile (w : World) : List Path → Except Fault (Option Path)
  | [] => .ok none
  | path :: rest => do if ← w.isFile path then return some path else firstFile w rest

/-- The settings in a world, with the file that is named explicitly if there is one. -/
def load (w : World) (explicit : Option Path) : Except Fault Settings := do
  match explicit with
  | some path => if !(← w.isFile path) then throw (.settingsMissing path.text)
  | none => pure ()
  let found ← firstFile w (← candidates w)
  let entries ← withLayer w packaged found
  let entries ← withLayer w entries explicit
  ofEntries w.surroundings (explicit.or found) entries

end Settings

/-! ## Sessions -/

structure Session where
  world : World
  explicit : Option Path
  cached : Option Settings

namespace Session

/-- A session in which nothing is remembered. -/
def start (world : World) : Session := ⟨world, none, none⟩

/-- Names the settings file, or takes the name back, and forgets the settings. -/
def nameSettings (s : Session) (path : Value) : Except Fault Session :=
  match path with
  | .null => .ok { s with explicit := none, cached := none }
  | v => do
    let path ← Settings.namedPath s.world.surroundings v
    return { s with explicit := some path, cached := none }

/-- The settings, from memory or from the files, and the session that remembers them. -/
def settings (s : Session) : Except Fault (Settings × Session) :=
  match s.cached with
  | some settings => .ok (settings, s)
  | none => do
    let settings ← Settings.load s.world s.explicit
    return (settings, { s with cached := some settings })

/-- The output directory, and the session that remembers the settings. -/
def outputDirectory (s : Session) : Except Fault (Path × Session) := do
  let (settings, s₁) ← s.settings
  return (settings.outputDirectory, s₁)

end Session

end SeededSketch
