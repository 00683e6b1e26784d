import SeededSketch.Value.Written

/-!
# Faults

Everything that can be wrong with a sketch, a picture, a settings file or a request, as causes.
`Fault.message` is the one place that puts a cause into words, and `Fault.category` sorts the
causes into the few classes that a caller tells apart.
-/

namespace SeededSketch

/-- The settings that a settings file can give. -/
inductive Setting where
  | version
  | outputDir
  | canvasSize
  | backgroundColor
  | fps
  | seed
  deriving DecidableEq, Repr

/-- The name of a setting, with its section in front. -/
def Setting.key : Setting → String
  | .version => "version"
  | .outputDir => "paths.output_dir"
  | .canvasSize => "sketch.canvas_size"
  | .backgroundColor => "sketch.background_color"
  | .fps => "sketch.fps"
  | .seed => "sketch.seed"

/-- The arithmetic signs. -/
inductive Sign where
  | plus
  | minus
  | times
  | over
  deriving DecidableEq, Repr

def Sign.symbol : Sign → String
  | .plus => "+"
  | .minus => "-"
  | .times => "*"
  | .over => "/"

/-- The classes of faults that a caller tells apart. -/
inductive Fault.Category where
  | wrongType
  | badValue
  | tooLarge
  | memoryExhausted
  | badAttribute
  | badSettings
  | fileMissing
  | directoryInPlace
  | fileInPlace
  | notDirectory
  /-- The system refuses or breaks off for another reason. -/
  | system
  | unnameable
  deriving DecidableEq, Repr

inductive Fault where
  -- conversions
  | notReal (v : Value)
  | notWhole (v : Value)
  | unreadableReal (v : Value)
  | unreadableWhole (v : Value)
  | numeralTooLong (digits : Nat)
  | wholeTooLong
  | tooLargeForReal
  | tooLargeForWord
  | quotientTooLarge
  | nanToWhole
  | infinityToWhole
  | notKey (v : Value)
  | notOrdered (relation : String) (left right : Value)
  | notIterable (v : Value)
  | tooFewItems (expected got : Nat)
  | tooManyItems (expected : Nat)
  -- building and evaluating sketches
  | notExpr (v : Value)
  | notShape (v : Value)
  | notPaint (v : Value)
  | badOperands (sign : Sign) (left right : Value)
  | notConcatenable (left right : Value)
  | notRepeatable (v : Value)
  | factorTooLarge
  | repetitionTooLong
  | memoryExhausted
  | notNegatable (v : Value)
  | noMagnitude (v : Value)
  | notRealNumber (v : Value)
  | negativeShift
  | unknownExpr (v : Value)
  | unknownShape (v : Value)
  | noComponent (v : Value) (component : String)
  /-- What a function that a sketch brings along says of itself. -/
  | raised (category : Fault.Category) (text : String)
  -- forms and meshes
  | unknownForm (v : Value)
  | raggedArray (shape : List Nat)
  | tooManyDimensions (greatest : Nat)
  | entryUnreadableReal (s : String)
  | entryUnreadableWhole (s : String)
  | entryOutOfRange (n : Int)
  | vertexShape
  | offsetsShape
  | offsetsEmpty
  | offsetsStart
  | offsetsEnd
  | offsetsOrder
  | fillCount
  -- clocks and scenes
  | rateNotPositive
  | secondsNegative
  | ticksNegative
  -- pictures
  | canvasMissing
  | canvasNotPositive
  -- settings
  | settingsMissing (path : String)
  | settingsUnreadable (source : String)
  | settingsNotMapping (source : String)
  | sectionNotMapping (section_ : String) (v : Value)
  | versionNotWhole (v : Value)
  | versionUnknown (n : Int)
  | settingUnset (setting : Setting)
  | settingNotPair (setting : Setting) (v : Value)
  | settingNotWholePair (setting : Setting) (v : Value)
  | settingNotRealTriple (setting : Setting) (v : Value)
  | settingNotTriple (setting : Setting) (v : Value)
  | settingNotReal (setting : Setting) (v : Value)
  | settingNotWhole (setting : Setting) (v : Value)
  | settingSizeNotPositive (setting : Setting) (width height : Int)
  | settingNotPositive (setting : Setting) (x : Float)
  | homeUnknown
  -- exports and files
  | ticksAndSeconds
  | formatUnknown (v : Value)
  | notPath (v : Value)
  | noLength (typeName : String)
  | zeroInPath
  | directoryInPlace (path : String)
  | fileInPlace (path : String)
  | notDirectory (path : String)
  | fileMissing (path : String)
  | nameTooLong (path : String)
  /-- What the system says of a file that it cannot go on writing or close. -/
  | deviceFailed (words : String)
  | unnameable (run : SurrogateRun)

namespace Fault

def category : Fault → Category
  | notReal _ | notWhole _ | notKey _ | notOrdered .. | notIterable _ | notExpr _ | notShape _
  | notPaint _ | badOperands .. | notConcatenable .. | notRepeatable _ | notNegatable _
  | noMagnitude _ | notRealNumber _ | unknownExpr _ | unknownShape _ | unknownForm _
  | notPath _ | noLength _ => .wrongType
  | unreadableReal _ | unreadableWhole _ | numeralTooLong _ | wholeTooLong | nanToWhole
  | negativeShift | tooFewItems .. | tooManyItems _ | raggedArray _ | tooManyDimensions _
  | entryUnreadableReal _ | entryUnreadableWhole _ | vertexShape | offsetsShape | offsetsEmpty
  | offsetsStart | offsetsEnd | offsetsOrder | fillCount | rateNotPositive | secondsNegative
  | ticksNegative | canvasMissing | canvasNotPositive | settingSizeNotPositive ..
  | settingNotPositive ..
  | ticksAndSeconds | formatUnknown _ | zeroInPath => .badValue
  | tooLargeForReal | tooLargeForWord | quotientTooLarge | infinityToWhole | factorTooLarge
  | repetitionTooLong | entryOutOfRange _ => .tooLarge
  | memoryExhausted => .memoryExhausted
  | noComponent .. => .badAttribute
  | raised category _ => category
  | settingsUnreadable _ | settingsNotMapping _ | sectionNotMapping .. | versionNotWhole _
  | versionUnknown _ | settingUnset _ | settingNotPair .. | settingNotWholePair ..
  | settingNotRealTriple .. | settingNotTriple .. | settingNotReal .. | settingNotWhole ..
  | homeUnknown => .badSettings
  | settingsMissing _ | fileMissing _ => .fileMissing
  | directoryInPlace _ => .directoryInPlace
  | fileInPlace _ => .fileInPlace
  | notDirectory _ => .notDirectory
  | nameTooLong _ | deviceFailed _ => .system
  | unnameable _ => .unnameable

private def classOf (v : Value) : String := "<class '" ++ v.qualifiedTypeName ++ "'>"

private def got (text : String) (v : Value) : String := text ++ ": got=" ++ v.written

/-- The lengths of a list of counts in round brackets, a single one followed by a comma. -/
private def tupleText : List Nat → String
  | [n] => "(" ++ toString n ++ ",)"
  | ns => "(" ++ String.intercalate ", " (ns.map toString) ++ ")"

private def unreadableRealText (shown : String) : String :=
  "could not convert string to float: " ++ shown

/-- Of a text that is no integer two hundred characters are shown. -/
private def unreadableWholeText (shown : String) : String :=
  "invalid literal for int() with base 10: " ++ .ofList (shown.toList.take 200)

/-- How messages about lists in the place of entries begin. -/
private def sequenceInPlace : String :=
  "setting an array element with a sequence. The requested array "

/-- A text that stands in an array of texts. -/
private def entryText (s : String) : String := "np.str_(" ++ Text.quoted s ++ ")"

/-- Surrogates in a row with their places; a single one is shown. -/
private def surrogatesText (run : SurrogateRun) : String :=
  if run.length = 1 then
    "character '" ++ .ofList (Text.numberEscape run.code) ++ "' in position " ++ toString run.start
  else
    "characters in position " ++ toString run.start ++ "-"
      ++ toString (run.start + run.length - 1)

/-- The words for a fault. -/
def message : Fault → String
  | notReal v => "float() argument must be a string or a real number, not '" ++ v.typeName ++ "'"
  | notWhole v =>
    "int() argument must be a string, a bytes-like object or a real number, not '"
      ++ v.typeName ++ "'"
  | unreadableReal v => unreadableRealText v.written
  | unreadableWhole v => unreadableWholeText v.written
  | numeralTooLong digits =>
    "Exceeds the limit (4300 digits) for integer string conversion: value has "
      ++ toString digits ++ " digits; use sys.set_int_max_str_digits() to increase the limit"
  | wholeTooLong =>
    "Exceeds the limit (4300 digits) for integer string conversion; "
      ++ "use sys.set_int_max_str_digits() to increase the limit"
  | tooLargeForReal => "int too large to convert to float"
  | tooLargeForWord => "Python int too large to convert to C long"
  | quotientTooLarge => "integer division result too large for a float"
  | nanToWhole => "cannot convert float NaN to integer"
  | infinityToWhole => "cannot convert float infinity to integer"
  | notKey v => "unhashable type: '" ++ v.typeName ++ "'"
  | notOrdered relation left right =>
    "'" ++ relation ++ "' not supported between instances of '" ++ left.typeName ++ "' and '"
      ++ right.typeName ++ "'"
  | notIterable v => "cannot unpack non-iterable " ++ v.typeName ++ " object"
  | tooFewItems expected got =>
    "not enough values to unpack (expected " ++ toString expected ++ ", got " ++ toString got
      ++ ")"
  | tooManyItems expected => "too many values to unpack (expected " ++ toString expected ++ ")"
  | notExpr v => "NumberExpr に変換できない型: " ++ classOf v
  | notShape v => "Shape ではない型: " ++ classOf v
  | notPaint v => "color は ColorExpr である必要がある: " ++ classOf v
  | badOperands sign left right =>
    "unsupported operand type(s) for " ++ sign.symbol ++ ": '" ++ left.typeName ++ "' and '"
      ++ right.typeName ++ "'"
  | notConcatenable left right =>
    "can only concatenate " ++ left.typeName ++ " (not \"" ++ right.typeName ++ "\") to "
      ++ left.typeName
  | notRepeatable v => "can't multiply sequence by non-int of type '" ++ v.typeName ++ "'"
  | factorTooLarge => "cannot fit 'int' into an index-sized integer"
  | repetitionTooLong => "repeated string is too long"
  | memoryExhausted => ""
  | notNegatable v => "bad operand type for unary -: '" ++ v.typeName ++ "'"
  | noMagnitude v => "bad operand type for abs(): '" ++ v.typeName ++ "'"
  | notRealNumber v => "must be real number, not " ++ v.typeName
  | negativeShift => "negative shift count"
  | unknownExpr v => "evaluate_number で処理できない型: " ++ classOf v
  | unknownShape v => "evaluate_shape で処理できない型: " ++ classOf v
  | noComponent v component =>
    "'" ++ v.typeName ++ "' object has no attribute '" ++ component ++ "'"
  | raised _ text => text
  | unknownForm v => "realize_form で処理できない型: " ++ classOf v
  | raggedArray shape =>
    sequenceInPlace ++ "has an inhomogeneous shape after " ++ toString shape.length
      ++ " dimensions. The detected shape was " ++ tupleText shape ++ " + inhomogeneous part."
  | tooManyDimensions greatest =>
    sequenceInPlace ++ "would exceed the maximum number of dimension of " ++ toString greatest
      ++ "."
  | entryUnreadableReal s => unreadableRealText (entryText s)
  | entryUnreadableWhole s => unreadableWholeText (entryText s)
  | entryOutOfRange n => "Python integer " ++ toString n ++ " out of bounds for int32"
  | vertexShape => "coords は shape (N,3) の 2 次元配列である必要がある"
  | offsetsShape => "offsets は 1 次元配列である必要がある"
  | offsetsEmpty => "offsets は少なくとも 1 要素を含む必要がある"
  | offsetsStart => "offsets[0] は 0 である必要がある"
  | offsetsEnd => "offsets[-1] は coords 行数と一致する必要がある"
  | offsetsOrder => "offsets は単調非減少である必要がある"
  | fillCount => "fills はポリゴン数と同じ長さである必要がある"
  | rateNotPositive => "fps は正の値である必要がある"
  | secondsNegative => "seconds は 0 以上である必要がある"
  | ticksNegative => "n_ticks は 0 以上である必要がある"
  | canvasMissing => "canvas_size=None は未対応（現在は必須）"
  | canvasNotPositive => "canvas_size は正の値である必要がある"
  | settingsMissing path => "config.yaml が見つかりません: " ++ path
  | settingsUnreadable source => "config.yaml の読み込みに失敗しました: source=" ++ source
  | settingsNotMapping source => "config.yaml は mapping である必要があります: source=" ++ source
  | sectionNotMapping name v => got (name ++ " は mapping である必要があります") v
  | versionNotWhole v => got "config.yaml の version は整数である必要があります" v
  | versionUnknown n => "未対応の config.yaml version です: got=" ++ toString n
  | settingUnset s => s.key ++ " が未設定です（同梱 default_config.yaml を確認してください）"
  | settingNotPair s v => got (s.key ++ " は [w, h] の配列である必要があります") v
  | settingNotWholePair s v => got (s.key ++ " は [w, h] の整数配列である必要があります") v
  | settingNotRealTriple s v => got (s.key ++ " は [r, g, b] の数値配列である必要があります") v
  | settingNotTriple s v => got (s.key ++ " は [r, g, b] の配列である必要があります") v
  | settingNotReal s v => got (s.key ++ " は数値である必要があります") v
  | settingNotWhole s v => got (s.key ++ " は整数である必要があります") v
  | settingSizeNotPositive s width height =>
    s.key ++ " は正の値である必要があります: got=(" ++ toString width ++ ", " ++ toString height ++ ")"
  | settingNotPositive s x => s.key ++ " は正の値である必要があります: got=" ++ Decimal.shortestText x
  | homeUnknown => "Could not determine home directory."
  | ticksAndSeconds => "ticks と seconds は同時に指定できない"
  | formatUnknown v => "未対応の export format: " ++ v.written
  | notPath v => "expected str, bytes or os.PathLike object, not " ++ v.typeName
  | noLength typeName => "object of type '" ++ typeName ++ "' has no len()"
  | zeroInPath => "embedded null byte"
  | directoryInPlace path => "[Errno 21] Is a directory: " ++ Text.quoted path
  | fileInPlace path => "[Errno 17] File exists: " ++ Text.quoted path
  | notDirectory path => "[Errno 20] Not a directory: " ++ Text.quoted path
  | fileMissing path => "[Errno 2] No such file or directory: " ++ Text.quoted path
  | nameTooLong path => "[Errno 36] File name too long: " ++ Text.quoted path
  | deviceFailed words => words
  | unnameable run =>
    "'utf-8' codec can't encode " ++ surrogatesText run ++ ": surrogates not allowed"

end Fault
end SeededSketch
