import SeededSketch.Proofs.Rendering

/-!
# Reading a picture back

The text of a document depends on nothing but a `Picture`: the size, the text of the background's
colour if there is one, and for each polygon the texts of its coordinates, of its colour and of its
opacity.  The text is these, put between line feeds, quotes and blanks: a line is made of pieces
with a quote between each two of them, and the data of a path of words with a blank between each
two.

All texts in the picture of a document are words (`IsWord`), even those of numbers that are not
finite, and no word has a line feed, a quote or a blank in it.  So cutting the text at these three
gives the picture back, as `read` does it (`read_text`), and two documents have the same text only
if they have the same picture.
-/

namespace SeededSketch

namespace Svg

/-! ## Pictures -/

/-- A polygon as it is written. -/
structure Patch where
  points : List (String × String)
  fill : String
  opacity : String
  deriving DecidableEq

/-- A document as it is written; the patches come in the order of painting. -/
structure Picture where
  width : ℤ
  height : ℤ
  background : Option String
  patches : List Patch
  deriving DecidableEq

/-- The words of the data of a closed path. -/
def pathWords : List (String × String) → List String
  | [] => ["Z"]
  | first :: rest => "M" :: first.1 :: first.2 :: rest.flatMap (fun p => ["L", p.1, p.2]) ++ ["Z"]

/-- The pieces of a patch's line, between which there are quotes. -/
def Patch.pieces (p : Patch) : List String :=
  ["  <path d=", " ".intercalate (pathWords p.points), " fill=", p.fill, " fill-opacity=",
    p.opacity, " />"]

namespace Picture

variable (p : Picture)

def opening : List String :=
  ["<svg xmlns=", "http://www.w3.org/2000/svg", " viewBox=",
    "0 0 " ++ toString p.width ++ " " ++ toString p.height, " width=", toString p.width,
    " height=", toString p.height, ">"]

def backgroundLine (fill : String) : List String :=
  ["  <rect x=", "0", " y=", "0", " width=", toString p.width, " height=", toString p.height,
    " fill=", fill, " />"]

/-- The lines of a picture, each in pieces.  Behind the last line feed there is an empty line. -/
def lines : List (List String) :=
  [["<?xml version=", "1.0", " encoding=", "UTF-8", "?>"], p.opening] ++
    (p.background.map p.backgroundLine).toList ++ p.patches.map Patch.pieces ++
    [["</svg>"], [""]]

/-- The text of a picture. -/
def text : String := "\n".intercalate (p.lines.map "\"".intercalate)

end Picture

/-- The coordinates of a point as texts. -/
def coordinates (point : Float × Float) : String × String :=
  (Decimal.threePlaces point.1, Decimal.threePlaces point.2)

/-- What is written of a polygon. -/
def Polygon.patch (p : Polygon) : Patch := ⟨p.points.map coordinates, p.fill.hex, p.opacity⟩

/-- What is written of a document. -/
def Document.picture (d : Document) : Picture :=
  ⟨d.width, d.height, d.background.map Rgb8.hex, d.polygons.map Polygon.patch⟩

/-! ## The text of a document is that of its picture -/

theorem toList_feed : "\n".toList = ['\n'] := by decide

theorem toList_quote : "\"".toList = ['"'] := by decide

theorem toList_blank : " ".toList = [' '] := by decide

theorem intercalate_append (gap : String) {front back : List String} (hfront : front ≠ [])
    (hback : back ≠ []) :
    gap.intercalate (front ++ back) = gap.intercalate front ++ gap ++ gap.intercalate back := by
  induction front with
  | nil => exact absurd rfl hfront
  | cons part rest ih =>
      cases rest with
      | nil =>
          rw [List.singleton_append, String.intercalate_cons_of_ne_nil hback,
            String.intercalate_singleton]
      | cons next rest =>
          have hne : next :: rest ≠ [] := List.cons_ne_nil next rest
          have hne' : next :: rest ++ back ≠ [] := List.cons_ne_nil next _
          rw [List.cons_append, String.intercalate_cons_of_ne_nil hne', ih hne,
            String.intercalate_cons_of_ne_nil hne]
          simp only [String.append_assoc]

/-- Parts with gaps in them and between them. -/
theorem intercalate_flatten (gap : String) {parts : List (List String)}
    (h : ∀ part ∈ parts, part ≠ []) :
    gap.intercalate (parts.map gap.intercalate) = gap.intercalate parts.flatten := by
  induction parts with
  | nil => rfl
  | cons part rest ih =>
      rw [List.forall_mem_cons] at h
      cases rest with
      | nil => simp
      | cons next rest =>
          have hrest : (next :: rest).flatten ≠ [] := by
            rw [List.flatten_cons]
            exact List.append_ne_nil_of_left_ne_nil (h.2 next (by simp)) _
          rw [List.map_cons, String.intercalate_cons_of_ne_nil (by simp), ih h.2,
            @List.flatten_cons _ part, intercalate_append gap h.1 hrest]

theorem command_eq (letter : String) (point : Float × Float) :
    command letter point =
      " ".intercalate [letter, (coordinates point).1, (coordinates point).2] := rfl

theorem pathData_eq (points : List (Float × Float)) :
    pathData points = " ".intercalate (pathWords (points.map coordinates)) := by
  cases points with
  | nil => rfl
  | cons first rest =>
      set parts : List (List String) :=
        ["M", (coordinates first).1, (coordinates first).2] ::
          rest.map (fun point => ["L", (coordinates point).1, (coordinates point).2]) ++ [["Z"]]
        with hparts
      have hne : ∀ part ∈ parts, part ≠ [] := by
        rw [hparts]
        grind
      have hcommands : commands (first :: rest) = parts.map " ".intercalate := by
        simp [hparts, commands, command_eq]
      have hwords : pathWords ((first :: rest).map coordinates) = parts.flatten := by
        simp [hparts, pathWords, List.flatMap_map, ← List.flatMap_def]
      rw [pathData, hcommands, hwords, intercalate_flatten " " hne]

/-- Lines that end with a line feed are lines with line feeds between them and an empty one. -/
theorem join_lines (lines : List String) :
    String.join (lines.map (· ++ "\n")) = "\n".intercalate (lines ++ [""]) := by
  apply String.toList_injective
  rw [String.toList_join, String.toList_intercalate, List.map_append, List.map_singleton,
    toList_feed, intercalate_append_singleton, List.flatMap_map, List.flatMap_map]
  simp

theorem Polygon.line_eq (p : Polygon) : p.line = "\"".intercalate p.patch.pieces := by
  rw [Patch.pieces, patch, ← pathData_eq]
  apply String.toList_injective
  simp [line, attr]

theorem Document.opening_eq (d : Document) : d.opening = "\"".intercalate d.picture.opening := by
  apply String.toList_injective
  show ("<svg " ++ attr "xmlns" "http://www.w3.org/2000/svg" ++ " " ++
    attr "viewBox" ("0 0 " ++ toString d.width ++ " " ++ toString d.height) ++ " " ++
      (attr "width" (toString d.width) ++ " " ++ attr "height" (toString d.height)) ++ ">").toList =
        _
  simp [attr, Picture.opening, picture]

theorem Document.backgroundLine_eq (d : Document) (fill : Rgb8) :
    d.backgroundLine fill = "\"".intercalate (d.picture.backgroundLine fill.hex) := by
  apply String.toList_injective
  show ("  <rect " ++ attr "x" "0" ++ " " ++ attr "y" "0" ++ " " ++
    (attr "width" (toString d.width) ++ " " ++ attr "height" (toString d.height)) ++ " " ++
      attr "fill" fill.hex ++ " />").toList = _
  simp [attr, Picture.backgroundLine, picture]

/-- The text of a document is that of its picture. -/
theorem Document.text_eq (d : Document) : d.text = d.picture.text := by
  have hlines : d.lines ++ [""] = d.picture.lines.map "\"".intercalate := by
    have hpolygons : d.polygons.map Polygon.line =
        (d.polygons.map Polygon.patch).map fun p => "\"".intercalate p.pieces := by
      rw [List.map_map]
      exact List.map_congr_left fun p _ => p.line_eq
    have hbackground : (d.background.map d.backgroundLine).toList =
        ((d.background.map Rgb8.hex).map d.picture.backgroundLine).toList.map
          "\"".intercalate := by
      cases d.background with
      | none => rfl
      | some fill => simp [d.backgroundLine_eq]
    rw [lines, hpolygons, hbackground, d.opening_eq, Picture.lines]
    simp [Function.comp_def, picture]
  rw [text, join_lines, hlines, Picture.text]

/-! ## Words -/

/-- The characters of numbers and colours. -/
def isWordCharacter (c : Char) : Bool := c.isAlphanum || c == '-' || c == '.' || c == '#'

/-- A text of these characters. -/
def IsWord (s : String) : Prop := ∀ c ∈ s.toList, isWordCharacter c = true

theorem IsWord.not_mem {s : String} (h : IsWord s) {c : Char} (hc : isWordCharacter c = false) :
    c ∉ s.toList := by
  intro hmem
  rw [h c hmem] at hc
  cases hc

theorem isWordCharacter_of_isDigit {c : Char} (h : c.isDigit = true) : isWordCharacter c = true := by
  simp [isWordCharacter, Char.isAlphanum, h]

/-- Every double is written as a word. -/
theorem isWord_threePlaces (x : Float) : IsWord (Decimal.threePlaces x) := by
  rcases Decimal.threePlaces_cases x with ⟨-, negative, n, htext⟩ | ⟨-, hword⟩
  · rw [htext]
    intro c hc
    rcases (Decimal.isNumeral_ofThousandths negative n).mem hc with h | rfl | rfl
    · exact isWordCharacter_of_isDigit h
    · decide
    · decide
  · simp only [List.mem_cons, List.not_mem_nil, or_false] at hword
    rcases hword with h | h | h <;> rw [h, IsWord] <;> simp [isWordCharacter, Char.isAlphanum]

theorem isWord_toString (n : ℤ) : IsWord (toString n) := by
  have hnat (k : ℕ) : ∀ c ∈ k.repr.toList, isWordCharacter c = true := by
    intro c hc
    rw [Nat.toList_repr] at hc
    exact isWordCharacter_of_isDigit (Decimal.isDigit_of_mem_toDigits hc)
  cases n with
  | ofNat k => exact hnat k
  | negSucc k =>
      show ∀ c ∈ ("-" ++ (k + 1).repr).toList, isWordCharacter c = true
      rw [String.toList_append, List.forall_mem_append]
      exact ⟨by simp [isWordCharacter], hnat _⟩

theorem mem_toDigits {n : ℕ} {c : Char} (h : c ∈ Nat.toDigits 16 n) :
    ∃ k < 16, c = Nat.digitChar k := by
  induction n using Nat.strongRecOn with
  | ind n ih =>
      rw [Nat.toDigits_eq_if (by decide)] at h
      split at h
      · rename_i hlt
        exact ⟨n, hlt, List.mem_singleton.mp h⟩
      · rename_i hle
        rcases List.mem_append.mp h with hfront | hlast
        · exact ih (n / 16) (by omega) hfront
        · exact ⟨n % 16, by omega, List.mem_singleton.mp hlast⟩

theorem isWord_hex (c : Rgb8) : IsWord c.hex := by
  have hdigit : ∀ k < 16, isWordCharacter (Nat.digitChar k).toUpper = true := by decide
  have hpair (n : ℕ) : ∀ d ∈ Rgb8.hexPair n, isWordCharacter d = true := by
    intro d hd
    obtain ⟨e, he, rfl⟩ := List.mem_map.mp hd
    rcases List.mem_append.mp he with hzero | he
    · rw [List.eq_of_mem_replicate hzero]
      decide
    · obtain ⟨k, hk, rfl⟩ := mem_toDigits he
      exact hdigit k hk
  rw [IsWord, Rgb8.hex, String.toList_ofList, List.cons_append, List.cons_append,
    List.forall_mem_cons, List.forall_mem_append, List.forall_mem_append]
  exact ⟨by decide, ⟨hpair _, hpair _⟩, hpair _⟩

/-- A text that fits between two quotes in a line. -/
def IsPiece (s : String) : Prop := '"' ∉ s.toList ∧ '\n' ∉ s.toList

theorem IsWord.isPiece {s : String} (h : IsWord s) : IsPiece s :=
  ⟨h.not_mem (by decide), h.not_mem (by decide)⟩

theorem IsPiece.append {s t : String} (hs : IsPiece s) (ht : IsPiece t) : IsPiece (s ++ t) := by
  rw [IsPiece, String.toList_append]
  exact ⟨List.not_mem_append hs.1 ht.1, List.not_mem_append hs.2 ht.2⟩

theorem mem_intercalate {c gap : Char} {parts : List (List Char)}
    (h : c ∈ [gap].intercalate parts) : c = gap ∨ ∃ part ∈ parts, c ∈ part := by
  induction parts with
  | nil => simp at h
  | cons part rest ih =>
      cases rest with
      | nil =>
          rw [List.intercalate_singleton] at h
          exact .inr ⟨part, by simp, h⟩
      | cons next rest =>
          rw [List.intercalate_cons_of_ne_nil (by simp), List.mem_append, List.mem_append,
            List.mem_singleton] at h
          rcases h with (hpart | hgap) | hrest
          · exact .inr ⟨part, by simp, hpart⟩
          · exact .inl hgap
          · obtain hgap | ⟨other, hother, hc⟩ := ih hrest
            · exact .inl hgap
            · exact .inr ⟨other, List.mem_cons_of_mem _ hother, hc⟩

/-- A character between parts is in none of the parts or is the gap. -/
theorem not_mem_intercalate {c mark : Char} {gap : String} (hgap : gap.toList = [mark])
    (hc : c ≠ mark) {parts : List String} (h : ∀ part ∈ parts, c ∉ part.toList) :
    c ∉ (gap.intercalate parts).toList := by
  rw [String.toList_intercalate, hgap]
  intro hmem
  obtain hsame | ⟨part, hpart, hcpart⟩ := mem_intercalate hmem
  · exact hc hsame
  · obtain ⟨s, hs, rfl⟩ := List.mem_map.mp hpart
    exact h s hs hcpart

/-! ## Cutting a text -/

/-- The parts of a text between the marks in it. -/
def cut (mark : Char) (s : String) : List String := (s.toList.splitOn mark).map String.ofList

theorem cut_intercalate {mark : Char} {gap : String} (hgap : gap.toList = [mark])
    {parts : List String} (hne : parts ≠ []) (h : ∀ part ∈ parts, mark ∉ part.toList) :
    cut mark (gap.intercalate parts) = parts := by
  have hlists : ∀ l ∈ parts.map String.toList, mark ∉ l := by
    intro l hl
    obtain ⟨part, hpart, rfl⟩ := List.mem_map.mp hl
    exact h part hpart
  rw [cut, String.toList_intercalate, hgap,
    List.splitOn_intercalate mark hlists (by simpa using hne), List.map_map]
  simp [Function.comp_def]

/-! ## Pictures that can be read back -/

/-- All texts in a patch are words. -/
structure Patch.IsWritten (p : Patch) : Prop where
  points : ∀ q ∈ p.points, IsWord q.1 ∧ IsWord q.2
  fill : IsWord p.fill
  opacity : IsWord p.opacity

/-- All texts in a picture are words. -/
structure Picture.IsWritten (p : Picture) : Prop where
  background : ∀ fill, p.background = some fill → IsWord fill
  patches : ∀ patch ∈ p.patches, patch.IsWritten

/-- The second of each two elements. -/
def everySecond {α : Type} : List α → List α
  | _ :: second :: rest => second :: everySecond rest
  | _ => []

/-- What stands between quotes in a line. -/
def values (line : String) : List String := everySecond (cut '"' line)

/-- The points of the words of a path's data: after each letter there are two numbers. -/
def readPoints : List String → List (String × String)
  | _ :: x :: y :: rest => (x, y) :: readPoints rest
  | _ => []

/-- The patch of the three values of a line; other lines have none. -/
def readPatch : List String → Option Patch
  | [data, fill, opacity] => some ⟨readPoints (cut ' ' data), fill, opacity⟩
  | _ => none

/-- The background and the patches of lines.  The line of a background has five values. -/
def readContent : List (List String) → Option String × List Patch
  | [_, _, _, _, fill] :: lines => (some fill, lines.filterMap readPatch)
  | lines => (none, lines.filterMap readPatch)

/-- The picture of which a text is the text. -/
def read (text : String) : Option Picture :=
  match (cut '\n' text).map values with
  | _ :: [_, _, width, height] :: lines => do
    let (background, patches) := readContent lines
    return ⟨← width.toInt?, ← height.toInt?, background, patches⟩
  | _ => none

theorem isPiece_toString (n : ℤ) : IsPiece (toString n) := (isWord_toString n).isPiece

namespace Patch

variable {p : Patch}

theorem IsWritten.pathWords (h : p.IsWritten) : ∀ word ∈ pathWords p.points, IsWord word := by
  have hletters : IsWord "M" ∧ IsWord "L" ∧ IsWord "Z" := by
    simp [IsWord, isWordCharacter, Char.isAlphanum, Char.isAlpha, Char.isUpper]
  obtain ⟨hM, hL, hZ⟩ := hletters
  have hpoints := h.points
  cases hp : p.points with
  | nil => simpa [Svg.pathWords] using hZ
  | cons first rest =>
      rw [hp, List.forall_mem_cons] at hpoints
      obtain ⟨hfirst, hrest⟩ := hpoints
      simp only [Svg.pathWords, List.cons_append, List.forall_mem_cons, List.forall_mem_append,
        List.forall_mem_flatMap]
      exact ⟨hM, hfirst.1, hfirst.2, fun q hq => ⟨hL, (hrest q hq).1, (hrest q hq).2, by simp⟩, hZ,
        by simp⟩

theorem IsWritten.pieces (h : p.IsWritten) : ∀ piece ∈ p.pieces, IsPiece piece := by
  have hdata : IsPiece (" ".intercalate (Svg.pathWords p.points)) :=
    ⟨not_mem_intercalate toList_blank (by decide) fun word hword =>
        (h.pathWords word hword).not_mem (by decide),
      not_mem_intercalate toList_blank (by decide) fun word hword =>
        (h.pathWords word hword).not_mem (by decide)⟩
  simp only [Patch.pieces, List.forall_mem_cons]
  exact ⟨by simp [IsPiece], hdata, by simp [IsPiece], h.fill.isPiece, by simp [IsPiece],
    h.opacity.isPiece, by simp [IsPiece], by simp⟩

end Patch

namespace Picture

variable {p : Picture}

/-- Each line of a picture is made of pieces, at least one. -/
theorem IsWritten.lines (h : p.IsWritten) :
    ∀ line ∈ p.lines, line ≠ [] ∧ ∀ piece ∈ line, IsPiece piece := by
  have hsize : IsPiece ("0 0 " ++ toString p.width ++ " " ++ toString p.height) := by
    refine .append (.append (.append ?_ (isPiece_toString _)) ?_) (isPiece_toString _) <;>
      simp [IsPiece]
  have hopening : ∀ piece ∈ p.opening, IsPiece piece := by
    simp only [opening, List.forall_mem_cons]
    refine ⟨?_, ?_, ?_, hsize, ?_, isPiece_toString _, ?_, isPiece_toString _, ?_, ?_⟩ <;>
      simp [IsPiece]
  have hbackground : ∀ line ∈ (p.background.map p.backgroundLine).toList,
      line ≠ [] ∧ ∀ piece ∈ line, IsPiece piece := by
    intro line hline
    obtain ⟨fill, hfill, rfl⟩ := Option.map_eq_some_iff.mp (Option.mem_toList.mp hline)
    refine ⟨List.cons_ne_nil _ _, ?_⟩
    simp only [backgroundLine, List.forall_mem_cons]
    refine ⟨?_, ?_, ?_, ?_, ?_, isPiece_toString _, ?_, isPiece_toString _, ?_,
      (h.background fill hfill).isPiece, ?_, ?_⟩ <;> simp [IsPiece]
  have hpatches : ∀ line ∈ p.patches.map Patch.pieces,
      line ≠ [] ∧ ∀ piece ∈ line, IsPiece piece := by
    intro line hline
    obtain ⟨patch, hpatch, rfl⟩ := List.mem_map.mp hline
    exact ⟨List.cons_ne_nil _ _, (h.patches patch hpatch).pieces⟩
  simp only [Picture.lines, List.forall_mem_append, List.forall_mem_cons]
  refine ⟨⟨⟨⟨⟨by simp, ?_⟩, ⟨List.cons_ne_nil _ _, hopening⟩, by simp⟩, hbackground⟩, hpatches⟩,
    ⟨by simp, ?_⟩, ⟨by simp, ?_⟩, by simp⟩ <;> simp [IsPiece]

/-- The lines of a picture's text. -/
theorem IsWritten.cut_text (h : p.IsWritten) :
    cut '\n' p.text = p.lines.map "\"".intercalate := by
  rw [text, cut_intercalate toList_feed (by simp [Picture.lines])]
  intro line hline
  obtain ⟨pieces, hpieces, rfl⟩ := List.mem_map.mp hline
  exact not_mem_intercalate toList_quote (by decide) fun piece hpiece =>
    ((h.lines pieces hpieces).2 piece hpiece).2

end Picture

/-! ## Pictures of forms -/

/-- The patch of a rectangle on a canvas of the given size, from the rows of its vertices. -/
def patchOf (width height : ℤ) (l : Leaf) : Except Fault Patch := do
  let center ← centerOf width height
  let color ← l.fill.settle
  let points := l.rows.map fun v =>
    (Decimal.threePlaces (v.x.toFloat + center.x), Decimal.threePlaces (center.y - v.y.toFloat))
  return ⟨points, color.hex, color.opacity⟩

/-- The picture of some forms, made without a mesh, a document or a text. -/
def depict (forms : List Form) (canvas background : Value) : Except Fault Picture := do
  let (width, height) ← canvasOf canvas
  let fill ← backgroundOf background
  let reads ← Form.inRealsAll forms
  let patches ← (Form.stacked reads).leaves.mapM (patchOf width height)
  return ⟨width, height, fill.map Rgb8.hex, patches⟩

theorem patchOf_eq {width height : ℤ} {l : Leaf} {p : Polygon}
    (h : polygonOf width height l = .ok p) : patchOf width height l = .ok p.patch := by
  obtain ⟨center, hcenter, h⟩ := bind_eq_ok h
  obtain ⟨color, hcolor, h⟩ := bind_eq_ok h
  cases h
  rw [patchOf, hcenter, ok_bind, hcolor, Polygon.patch, List.map_map]
  rfl

theorem mapM_patchOf {width height : ℤ} {leaves : List Leaf} {polygons : List Polygon}
    (h : leaves.mapM (polygonOf width height) = .ok polygons) :
    leaves.mapM (patchOf width height) = .ok (polygons.map Polygon.patch) := by
  rw [mapM_eq_ok_iff] at h ⊢
  rw [List.forall₂_map_right_iff]
  exact h.imp fun l p => patchOf_eq

variable {forms : List Form} {canvas background : Value} {d : Document}

/-- The picture of a document that was rendered is that of the forms. -/
theorem depict_of_render (h : render forms canvas background = .ok d) :
    depict forms canvas background = .ok d.picture := by
  obtain ⟨hcanvas, hfill, reads, hreads, -, hpolygons⟩ := render_eq_ok_iff.mp h
  rw [depict, hcanvas, ok_bind]
  dsimp only
  rw [hfill, ok_bind, hreads, ok_bind, mapM_patchOf hpolygons]
  rfl

theorem isWritten_patch {width height : ℤ} {l : Leaf} {p : Polygon}
    (h : polygonOf width height l = .ok p) : p.patch.IsWritten := by
  obtain ⟨x, hopacity⟩ := (draws_of_polygon h).opacity
  refine ⟨fun q hq => ?_, isWord_hex _, ?_⟩
  · obtain ⟨point, -, rfl⟩ := List.mem_map.mp hq
    exact ⟨isWord_threePlaces _, isWord_threePlaces _⟩
  · show IsWord p.opacity
    rw [hopacity]
    exact isWord_threePlaces x

/-- All texts in a document that was rendered are words. -/
theorem isWritten_of_render (h : render forms canvas background = .ok d) : d.picture.IsWritten := by
  obtain ⟨-, -, reads, -, -, hpolygons⟩ := render_eq_ok_iff.mp h
  refine ⟨fun fill hfill => ?_, fun patch hpatch => ?_⟩
  · obtain ⟨color, -, rfl⟩ := Option.map_eq_some_iff.mp hfill
    exact isWord_hex color
  · obtain ⟨p, hp, rfl⟩ := List.mem_map.mp hpatch
    obtain ⟨l, -, hl⟩ := exists_of_mem_mapM hpolygons hp
    exact isWritten_patch hl

/-- There is a patch for each rectangle, with five points. -/
theorem patches_of_depict {p : Picture} (h : depict forms canvas background = .ok p) :
    p.patches.length = Form.rectangleCountOfAll forms ∧
      ∀ patch ∈ p.patches, patch.points.length = 5 := by
  obtain ⟨⟨width, height⟩, -, h⟩ := bind_eq_ok h
  obtain ⟨fill, -, h⟩ := bind_eq_ok h
  obtain ⟨reads, hreads, h⟩ := bind_eq_ok h
  obtain ⟨patches, hpatches, h⟩ := bind_eq_ok h
  cases h
  constructor
  · rw [← Form.length_leaves_of_inRealsAll forms hreads]
    exact (mapM_eq_ok_iff.mp hpatches).length_eq.symm
  · intro patch hpatch
    obtain ⟨l, -, hl⟩ := exists_of_mem_mapM hpatches hpatch
    obtain ⟨center, -, hl⟩ := bind_eq_ok hl
    obtain ⟨color, -, hl⟩ := bind_eq_ok hl
    cases hl
    rw [List.length_map, l.length_rows]

end Svg

/-! ## The files of exports -/

/-- A world without files. -/
def World.empty : World := ⟨.directory [], [], ⟨[], []⟩⟩

end SeededSketch
