import SeededSketch.Scene
import SeededSketch.Settings
import SeededSketch.Svg

/-!
# Exports

Evaluating a shape for a number of ticks and writing all forms, one over the other, to a file.
What a request leaves open is taken from the settings. A document is finished before any file or
directory is touched, so that a faulty request leaves the files alone; what can still fail then is
the system, and the count of the forms, which comes last.
-/

namespace SeededSketch

/-- Where an export goes: to a file in the output directory, to a path, or to what a caller gives
for a path. -/
inductive Destination where
  | standard
  | file (path : Path)
  | value (v : Value)

/-- A request; a value that is `null` is left open. -/
structure ExportRequest where
  shape : Shape
  destination : Destination := .standard
  format : Value := .text "svg"
  ticks : Value := .null
  seconds : Value := .null
  seed : Value := .null
  canvas : Value := .null
  background : Value := .null

/-- What an export has made. -/
structure ExportResult where
  path : Path
  format : String
  forms : List Form

namespace Settings

/-- The canvas as a request would give it. -/
def canvasValue (s : Settings) : Value :=
  .list [.number (.whole s.canvasWidth), .number (.whole s.canvasHeight)]

/-- The background as a request would give it. -/
def backgroundValue (s : Settings) : Value :=
  .list [.number (.real s.background.red), .number (.real s.background.green),
    .number (.real s.background.blue)]

end Settings

/-- A path as a value; only a text can be one. -/
def Path.ofValue : Value → Except Fault Path
  | .text s => .ok (.ofString s)
  | .broken points => .ok (.ofPoints points)
  | v => .error (.notPath v)

/-- Whether a value is given. -/
def Value.isGiven : Value → Bool
  | null => false
  | _ => true

/-- The destination that a value gives; `null` leaves it open. -/
def Destination.ofValue (v : Value) : Destination := if v.isGiven then value v else standard

/-- The value, or another if it is not given. -/
def Value.orElse (v other : Value) : Value := if v.isGiven then v else other

/-- The path and the document that an export of some forms is about. -/
def prepareForms (forms : List Form) (path canvas background : Value) :
    Except Fault (Path × Svg.Document) := do
  let path ← Path.ofValue path
  let document ← Svg.render forms canvas background
  return (path, document)

/-- Asks for the number of what was given for forms; `unsized` is the name of its type, if it can be
gone through but has no length. -/
def countForms : Option String → Except Fault Unit
  | none => .ok ()
  | some typeName => .error (.noLength typeName)

/-- Writes the document of some forms to a file. They are counted when that is done. -/
def exportForms (w : World) (forms : List Form) (path canvas background : Value)
    (device : Device := .sound) (unsized : Option String := none) : World × Except Fault Path :=
  match prepareForms forms path canvas background with
  | .error fault => (w, .error fault)
  | .ok (path, document) =>
    let (w₁, outcome) := w.save path document.text device
    (w₁, do
      outcome
      countForms unsized
      return path)

namespace ExportRequest

/-- The format that a value asks for, without regard to capitals and to blanks at its ends. Among
the formats there is one, whose letters have no other capitals than those of ASCII. -/
def formatOf (v : Value) : Except Fault String :=
  if !v.isWritable then .error .wholeTooLong
  else
    let name := Text.strip (Text.lowerAscii v.display)
    if name == "svg" then .ok name else .error (.formatUnknown v)

/-- The path of the file: the one asked for, or one in the output directory. -/
def pathFor (r : ExportRequest) (settings : Settings) (format : String) : Except Fault Path :=
  match r.destination with
  | .standard => .ok (settings.outputDirectory.join (.ofString ("sketch." ++ format)))
  | .file path => .ok path
  | .value v => Path.ofValue v

/-- The scene that is to be run, before its first tick. -/
def sceneFor (r : ExportRequest) (settings : Settings) : Except Fault Scene := do
  let seed ← if r.seed.isGiven then r.seed.toWhole else pure settings.seed
  let clock ← Clock.ofRate settings.rate
  return .start r.shape (.ofSeed seed) clock

/-- Runs a scene for as long as the request asks; one tick, if it does not say. -/
def run (r : ExportRequest) (scene : Scene) : Except Fault (List Form) := do
  if r.seconds.isGiven then
    let seconds ← r.seconds.toReal
    (scene.runFor (.number (.real seconds))).2
  else
    let ticks ← if r.ticks.isGiven then r.ticks.toWhole else pure 1
    (scene.run (.number (.whole ticks))).2

/-- What a request makes under given settings, and its document. -/
def prepare (r : ExportRequest) (settings : Settings) (format : String) :
    Except Fault (ExportResult × Svg.Document) := do
  let path ← r.pathFor settings format
  let scene ← r.sceneFor settings
  let forms ← r.run scene
  let document ← Svg.render forms (r.canvas.orElse settings.canvasValue)
    (r.background.orElse settings.backgroundValue)
  return (⟨path, format, forms⟩, document)

/-- Carries out a request. The session keeps the settings that were loaded for it, also where the
request fails later on. -/
def perform (r : ExportRequest) (s : Session) (device : Device := .sound) :
    Session × Except Fault ExportResult :=
  if r.ticks.isGiven && r.seconds.isGiven then (s, .error .ticksAndSeconds)
  else
    match formatOf r.format with
    | .error fault => (s, .error fault)
    | .ok format =>
      match s.settings with
      | .error fault => (s, .error fault)
      | .ok (settings, s₁) =>
        match r.prepare settings format with
        | .error fault => (s₁, .error fault)
        | .ok (result, document) =>
          let (world, outcome) := s₁.world.save result.path document.text device
          ({ s₁ with world }, outcome.map fun _ => result)

end ExportRequest
end SeededSketch
