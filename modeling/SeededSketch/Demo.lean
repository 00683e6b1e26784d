import SeededSketch.Export

/-!
# A sketch to begin with

Bars that stand up and down the canvas, turned by chance, wider the farther they are from the
middle, each over a thin vertical line. The horizontal place of a bar is drawn once for each tick
and shared by name between the bar's place, its width and the line.
-/

namespace SeededSketch.Demo

private def real (x : Float) : Expr := .ofReal x

private def between (lo hi : Float) : Expr := .random (.number (.real lo)) (.number (.real hi))

/-- The horizontal place of the bar. -/
def place : Expr := .named (.text "x") (between (-250.0) 250.0)

def bar : Shape :=
  .move place (between (-250.0) 250.0)
    (.rotate (between 0.0 3.141592653589793)
      (.rectangle (.combined .fifthPlus place (between 5.0 20.0)) (between 50.0 150.0)
        (.hsla (between 180.0 260.0) (real 0.7) (between 0.4 0.7) (real 0.3))))

def shadow : Shape :=
  .move (.combined .add place (real 3.0)) (real (-3.0))
    (.rectangle (real 4.0) (real 300.0) (.hsla (real 0.0) (real 0.0) (real 1.0) (real 0.05)))

def sketch : Shape := .group [shadow, bar]

/-- The number of ticks that are laid over one another. -/
def tickCount : Nat := 60

/-- The export of the sketch to the file `main.svg` in the output directory. -/
def request (settings : Settings) : ExportRequest :=
  { shape := sketch,
    destination := .file (settings.outputDirectory.join (.ofString "main.svg")),
    ticks := .number (.whole tickCount) }

/-- Writes the sketch. -/
def perform (s : Session) : Session × Except Fault ExportResult :=
  match s.settings with
  | .error fault => (s, .error fault)
  | .ok (settings, s₁) => (request settings).perform s₁

end SeededSketch.Demo
