import SeededSketch.Calendar
import SeededSketch.Scene
import SeededSketch.Color
import SeededSketch.Expr
import SeededSketch.Demo
import SeededSketch.Export
import SeededSketch.Fault
import SeededSketch.World
import SeededSketch.Form
import SeededSketch.Function
import SeededSketch.Main
import SeededSketch.Mesh
import SeededSketch.Mesh.Grid
import SeededSketch.Number.Arithmetic
import SeededSketch.Number.Decimal
import SeededSketch.Number.Double
import SeededSketch.Number.Format
import SeededSketch.Shape
import SeededSketch.Path
import SeededSketch.Proofs.Builders
import SeededSketch.Proofs.Completion
import SeededSketch.Proofs.Concatenation
import SeededSketch.Proofs.Correspondence
import SeededSketch.Proofs.Drawings
import SeededSketch.Proofs.Draws
import SeededSketch.Proofs.Exporting
import SeededSketch.Proofs.FailedExports
import SeededSketch.Proofs.Files
import SeededSketch.Proofs.Grouping
import SeededSketch.Proofs.Growth
import SeededSketch.Proofs.History
import SeededSketch.Proofs.Layers
import SeededSketch.Proofs.Leaves
import SeededSketch.Proofs.Mappings
import SeededSketch.Proofs.Memo
import SeededSketch.Proofs.Naming
import SeededSketch.Proofs.Observation
import SeededSketch.Proofs.Order
import SeededSketch.Proofs.PathData
import SeededSketch.Proofs.Period
import SeededSketch.Proofs.Permutation
import SeededSketch.Proofs.Pictures
import SeededSketch.Proofs.Reading
import SeededSketch.Proofs.Recurrence
import SeededSketch.Proofs.Remembering
import SeededSketch.Proofs.Renaming
import SeededSketch.Proofs.Rendering
import SeededSketch.Proofs.Repetition
import SeededSketch.Proofs.Replacement
import SeededSketch.Proofs.RoundedArithmetic
import SeededSketch.Proofs.Rounding
import SeededSketch.Proofs.Sharing
import SeededSketch.Proofs.Stream
import SeededSketch.Proofs.Tiling
import SeededSketch.Proofs.UsableSettings
import SeededSketch.Settings
import SeededSketch.Stream
import SeededSketch.Svg
import SeededSketch.Text.Character
import SeededSketch.Text.Numeral
import SeededSketch.Text.Quoted
import SeededSketch.Value
import SeededSketch.Value.Arithmetic
import SeededSketch.Value.Conversion
import SeededSketch.Value.SetOrder
import SeededSketch.Value.Written
import SeededSketch.Yaml
import SeededSketch.Yaml.Cursor
import SeededSketch.Yaml.Merge
import SeededSketch.Yaml.Node
import SeededSketch.Yaml.Resolution
import SeededSketch.Yaml.ScalarText
import SeededSketch.Yaml.Timestamp
import SeededSketch.Yaml.Token
import SeededSketch.Proofs.Seeds
import SeededSketch.Proofs.Comparison
import SeededSketch.Proofs.Precision
import SeededSketch.Proofs.DrawRange
import SeededSketch.Proofs.Thousandths
import SeededSketch.Proofs.Attributes
import SeededSketch.Proofs.Signs
import SeededSketch.Proofs.Formulas
import SeededSketch.Proofs.Hue
import SeededSketch.Proofs.Flatness
import SeededSketch.Proofs.WholeSettings
import SeededSketch.Proofs.Frames
import SeededSketch.Proofs.FrameCounts
import SeededSketch.Proofs.Shortcuts
