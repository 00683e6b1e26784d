import SeededSketch.Proofs.RoundedArithmetic
import SeededSketch.Svg

/-!
# Path data

The data of a path is a text of letters, blanks and numerals.  `Decimal.IsNumeral` and
`Svg.IsPathData` say which texts these are, without reference to how they are written, and
`isPathData_iff` says when the data that is written for some points is one of them: there is a point
and all coordinates are finite.  A double that is not finite is written as a word, and every such
word has a letter that no path data has.

`Svg.dataIn` reads the data back from a text: it collects what the `d` attributes hold.
-/

namespace SeededSketch

/-! ## Numerals -/

namespace Decimal

/-- Digits, a dot and three digits, perhaps with a minus in front, but not in front of a zero. -/
def IsNumeral (s : List Char) : Prop :=
  ∃ (negative : Bool) (whole fraction : List Char),
    s = (if negative then ['-'] else []) ++ whole ++ '.' :: fraction ∧
      whole ≠ [] ∧ fraction.length = 3 ∧ (∀ c ∈ whole ++ fraction, c.isDigit = true) ∧
      (negative = true → ∃ c ∈ whole ++ fraction, c ≠ '0')

theorem IsNumeral.mem {s : List Char} (h : IsNumeral s) {c : Char} (hc : c ∈ s) :
    c.isDigit = true ∨ c = '-' ∨ c = '.' := by
  obtain ⟨negative, whole, fraction, rfl, -, -, hdigits, -⟩ := h
  rcases List.mem_append.mp hc with hfront | hback
  · rcases List.mem_append.mp hfront with hsign | hwhole
    · cases negative with
      | false => cases hsign
      | true => exact .inr (.inl (List.mem_singleton.mp hsign))
    · exact .inl (hdigits c (List.mem_append_left _ hwhole))
  · rcases List.mem_cons.mp hback with hdot | hfraction
    · exact .inr (.inr hdot)
    · exact .inl (hdigits c (List.mem_append_right _ hfraction))

theorem eq_zero_of_toDigits {n : ℕ} (h : ∀ c ∈ Nat.toDigits 10 n, c = '0') : n = 0 := by
  have hzeros : Nat.toDigits 10 n = List.replicate (Nat.toDigits 10 n).length '0' :=
    List.eq_replicate_iff.mpr ⟨rfl, h⟩
  have hvalue : Nat.ofDigitChars 10 (Nat.toDigits 10 n) 0 = n := Nat.ofDigitChars_ten_toDigits
  rw [hzeros, Nat.ofDigitChars_replicate_zero, Nat.mul_zero] at hvalue
  exact hvalue.symm

theorem isDigit_of_mem_toDigits {n : ℕ} {c : Char} (h : c ∈ Nat.toDigits 10 n) :
    c.isDigit = true :=
  Nat.isDigit_of_mem_toDigits (by decide) (by decide) h

theorem isDigit_of_mem_padded {width n : ℕ} {c : Char} (h : c ∈ padded width n) :
    c.isDigit = true := by
  rcases List.mem_append.mp h with hzero | hdigit
  · rw [List.eq_of_mem_replicate hzero]
    decide
  · exact isDigit_of_mem_toDigits hdigit

theorem length_padded {width n : ℕ} (hwidth : 0 < width) (h : n < 10 ^ width) :
    (padded width n).length = width := by
  have hlength : (Nat.toDigits 10 n).length ≤ width :=
    (Nat.length_toDigits_le_iff (by decide) hwidth).mpr h
  rw [padded, List.length_append, List.length_replicate]
  omega

theorem toList_ofThousandths (negative : Bool) (n : ℕ) :
    (ofThousandths negative n).toList = (if negative && n != 0 then ['-'] else []) ++
      Nat.toDigits 10 (n / 1000) ++ '.' :: padded 3 (n % 1000) := by
  have hsign : (if negative && n != 0 then "-" else "").toList =
      if negative && n != 0 then ['-'] else [] := by
    split <;> simp
  have hwhole : (toString (n / 1000)).toList = Nat.toDigits 10 (n / 1000) := Nat.toList_repr
  rw [ofThousandths, String.toList_append, String.toList_append, String.toList_append, hsign,
    hwhole, String.toList_ofList]
  simp

theorem isNumeral_ofThousandths (negative : Bool) (n : ℕ) :
    IsNumeral (ofThousandths negative n).toList := by
  refine ⟨negative && n != 0, Nat.toDigits 10 (n / 1000), padded 3 (n % 1000),
    toList_ofThousandths negative n, Nat.toDigits_ne_nil,
    length_padded (by decide) (Nat.mod_lt _ (by decide)), ?_, ?_⟩
  · intro c hc
    rcases List.mem_append.mp hc with hwhole | hfraction
    · exact isDigit_of_mem_toDigits hwhole
    · exact isDigit_of_mem_padded hfraction
  · intro hminus
    -- If all digits were zeros, so would be both parts of the number, and it had no minus.
    by_contra hzeros
    push Not at hzeros
    have hwhole : n / 1000 = 0 :=
      eq_zero_of_toDigits fun c hc => hzeros c (List.mem_append_left _ hc)
    have hfraction : n % 1000 = 0 :=
      eq_zero_of_toDigits fun c hc =>
        hzeros c (List.mem_append_right _ (List.mem_append_right _ hc))
    have hn : n ≠ 0 := by simpa using (Bool.and_eq_true_iff.mp hminus).2
    omega

/-- The texts of a double: three places where it is finite, a word where it is not. -/
theorem threePlaces_cases (x : Float) :
    (x.isFinite = true ∧ ∃ negative n, threePlaces x = ofThousandths negative n) ∨
      (x.isFinite = false ∧ threePlaces x ∈ ["nan", "inf", "-inf"]) := by
  have hfinite : x.isFinite = true ↔ ∃ v, Double.valueOf (Double.reading x) = some v :=
    Double.isFinite_iff x
  rw [threePlaces]
  cases hread : Double.reading x with
  | finite negative mantissa exponent =>
      exact .inl ⟨hfinite.mpr ⟨_, by rw [hread]; rfl⟩, _, _, rfl⟩
  | nan => exact .inr ⟨by simpa [hread, Double.valueOf] using hfinite, by decide⟩
  | infinite negative =>
      exact .inr ⟨by simpa [hread, Double.valueOf] using hfinite, by cases negative <;> decide⟩

/-- A double is written as a numeral if it is finite. -/
theorem isNumeral_threePlaces {x : Float} (h : x.isFinite = true) :
    IsNumeral (threePlaces x).toList := by
  rcases threePlaces_cases x with ⟨-, negative, n, htext⟩ | ⟨hnot, -⟩
  · rw [htext]
    exact isNumeral_ofThousandths negative n
  · rw [h] at hnot
    cases hnot

/-- If it is not, its text has an `n` in it. -/
theorem mem_threePlaces {x : Float} (h : x.isFinite = false) : 'n' ∈ (threePlaces x).toList := by
  rcases threePlaces_cases x with ⟨hfinite, -⟩ | ⟨-, hword⟩
  · rw [h] at hfinite
    cases hfinite
  · simp only [List.mem_cons, List.not_mem_nil, or_false] at hword
    rcases hword with hword | hword | hword <;> simp [hword]

theorem not_mem_threePlaces (x : Float) {c : Char} (hdigit : c.isDigit = false)
    (hother : c ∉ ['-', '.', 'n', 'a', 'i', 'f']) : c ∉ (threePlaces x).toList := by
  simp only [List.mem_cons, List.not_mem_nil, or_false, not_or] at hother
  rcases threePlaces_cases x with ⟨-, negative, n, htext⟩ | ⟨-, hword⟩
  · rw [htext]
    intro hc
    rcases (isNumeral_ofThousandths negative n).mem hc with h | h | h
    · rw [hdigit] at h
      cases h
    · exact hother.1 h
    · exact hother.2.1 h
  · simp only [List.mem_cons, List.not_mem_nil, or_false] at hword
    rcases hword with hword | hword | hword <;> simp [hword, hother]

end Decimal

/-! ## Path data -/

namespace Svg

/-- A letter and two numerals, each with a blank behind. -/
def moveTo (letter : Char) (p : List Char × List Char) : List Char :=
  letter :: ' ' :: p.1 ++ ' ' :: p.2 ++ [' ']

/-- The data of a closed path through points whose coordinates are given as texts. -/
def closedPath (first : List Char × List Char) (rest : List (List Char × List Char)) : List Char :=
  moveTo 'M' first ++ rest.flatMap (moveTo 'L') ++ ['Z']

/-- A letter `M` with two numerals, any number of letters `L` with two numerals, and a `Z`. -/
def IsPathData (s : List Char) : Prop :=
  ∃ first rest, s = closedPath first rest ∧
    ∀ p ∈ first :: rest, Decimal.IsNumeral p.1 ∧ Decimal.IsNumeral p.2

/-- What is neither a blank nor a letter of a command comes from a coordinate. -/
theorem mem_closedPath_iff {first : List Char × List Char} {rest : List (List Char × List Char)}
    {c : Char} (hc : c ∉ [' ', 'M', 'L', 'Z']) :
    c ∈ closedPath first rest ↔ ∃ p ∈ first :: rest, c ∈ p.1 ∨ c ∈ p.2 := by
  simp only [List.mem_cons, List.not_mem_nil, or_false, not_or] at hc
  simp [closedPath, moveTo, hc, or_assoc]

/-- The two coordinates of a point as they are written. -/
def written (point : Float × Float) : List Char × List Char :=
  ((Decimal.threePlaces point.1).toList, (Decimal.threePlaces point.2).toList)

theorem intercalate_append_singleton {α : Type} (gap last : List α) (parts : List (List α)) :
    gap.intercalate (parts ++ [last]) = parts.flatMap (· ++ gap) ++ last := by
  induction parts with
  | nil => simp
  | cons part rest ih =>
      have hne : rest ++ [last] ≠ [] := by simp
      rw [List.cons_append, List.intercalate_cons_of_ne_nil hne, ih, List.flatMap_cons,
        List.append_assoc, List.append_assoc, List.append_assoc]

theorem toList_command (letter : String) (point : Float × Float) :
    (command letter point).toList ++ [' '] =
      letter.toList ++ ' ' :: (written point).1 ++ ' ' :: (written point).2 ++ [' '] := by
  simp [command, written]

theorem toList_pathData (first : Float × Float) (rest : List (Float × Float)) :
    (pathData (first :: rest)).toList = closedPath (written first) (rest.map written) := by
  have hcommands : commands (first :: rest) =
      (command "M" first :: rest.map (command "L")) ++ ["Z"] := rfl
  have hgap : " ".toList = [' '] := by decide
  have hlast : "Z".toList = ['Z'] := by decide
  rw [pathData, hcommands, String.toList_intercalate, List.map_append, List.map_singleton, hgap,
    hlast, intercalate_append_singleton, List.map_cons, List.flatMap_cons, toList_command,
    List.map_map, List.flatMap_map, closedPath, List.flatMap_map]
  simp only [Function.comp_apply, toList_command]
  rfl

theorem not_mem_of_isPathData {s : List Char} (h : IsPathData s) : 'n' ∉ s := by
  obtain ⟨first, rest, rfl, hnumerals⟩ := h
  have hnumeral {s : List Char} (hs : Decimal.IsNumeral s) : 'n' ∉ s := fun hn => by
    rcases hs.mem hn with h | h | h <;> revert h <;> decide
  rw [mem_closedPath_iff (by decide)]
  rintro ⟨p, hp, hn | hn⟩
  · exact hnumeral (hnumerals p hp).1 hn
  · exact hnumeral (hnumerals p hp).2 hn

/-- What is written for some points is path data exactly if there are points and all their
coordinates are finite. -/
theorem isPathData_iff (points : List (Float × Float)) :
    IsPathData (pathData points).toList ↔
      points ≠ [] ∧ ∀ p ∈ points, p.1.isFinite = true ∧ p.2.isFinite = true := by
  cases points with
  | nil =>
      refine ⟨fun h => ?_, fun h => absurd rfl h.1⟩
      obtain ⟨first, rest, hs, -⟩ := h
      have hz : (pathData []).toList = ['Z'] := by decide
      rw [hz] at hs
      cases hs
  | cons first rest =>
      rw [toList_pathData]
      constructor
      · intro h
        refine ⟨List.cons_ne_nil _ _, fun p hp => ?_⟩
        -- A word in the place of a numeral would show in the whole text.
        have hn := not_mem_of_isPathData h
        rw [mem_closedPath_iff (by decide), ← List.map_cons] at hn
        push Not at hn
        obtain ⟨hx, hy⟩ := hn (written p) (List.mem_map_of_mem hp)
        constructor
        · by_contra hnot
          exact hx (Decimal.mem_threePlaces (by simpa using hnot))
        · by_contra hnot
          exact hy (Decimal.mem_threePlaces (by simpa using hnot))
      · rintro ⟨-, hfinite⟩
        refine ⟨_, _, rfl, fun p hp => ?_⟩
        rw [← List.map_cons] at hp
        obtain ⟨point, hpoint, rfl⟩ := List.mem_map.mp hp
        obtain ⟨hx, hy⟩ := hfinite point hpoint
        exact ⟨Decimal.isNumeral_threePlaces hx, Decimal.isNumeral_threePlaces hy⟩

theorem not_mem_pathData (points : List (Float × Float)) {c : Char} (hdigit : c.isDigit = false)
    (hletter : c ∉ [' ', 'M', 'L', 'Z']) (hother : c ∉ ['-', '.', 'n', 'a', 'i', 'f']) :
    c ∉ (pathData points).toList := by
  cases points with
  | nil =>
      have hz : (pathData []).toList = ['Z'] := by decide
      rw [hz]
      exact fun hc => hletter (by simp [List.mem_singleton.mp hc])
  | cons first rest =>
      rw [toList_pathData, mem_closedPath_iff hletter, ← List.map_cons]
      rintro ⟨p, hp, hc⟩
      obtain ⟨point, -, rfl⟩ := List.mem_map.mp hp
      rcases hc with hc | hc <;> exact Decimal.not_mem_threePlaces _ hdigit hother hc

/-! ## Reading the data back -/

/-- What the `d` attributes of a text hold, in their order: whatever stands between a blank, a `d`,
an equals sign and a quote in front and the next quote. -/
def dataIn : List Char → List (List Char)
  | [] => []
  | c :: rest =>
    if [' ', 'd', '=', '"'].isPrefixOf (c :: rest) then
      (rest.drop 3).takeWhile (· != '"') :: dataIn rest
    else dataIn rest

/-- The `d` attributes of a text hold the given values, whatever text follows. -/
def Holds (s : List Char) (values : List (List Char)) : Prop :=
  ∀ rest, dataIn (s ++ rest) = values ++ dataIn rest

namespace Holds

variable {s t : List Char} {values more : List (List Char)}

theorem dataIn_eq (h : Holds s values) : dataIn s = values := by
  have hs := h []
  rwa [List.append_nil, dataIn, List.append_nil] at hs

theorem append (hs : Holds s values) (ht : Holds t more) : Holds (s ++ t) (values ++ more) := by
  intro rest
  rw [List.append_assoc, hs, ht, List.append_assoc]

/-- Stretches without attributes, one after the other. -/
theorem flatten {parts : List (List Char)} (h : ∀ part ∈ parts, Holds part []) :
    Holds parts.flatten [] := by
  induction parts with
  | nil => exact fun rest => rfl
  | cons part parts ih =>
      rw [List.forall_mem_cons] at h
      exact h.1.append (ih h.2)

theorem flatMap {α : Type} {l : List α} {f : α → List Char} {g : α → List Char}
    (h : ∀ a ∈ l, Holds (f a) [g a]) : Holds (l.flatMap f) (l.map g) := by
  induction l with
  | nil => exact fun rest => rfl
  | cons a l ih =>
      rw [List.forall_mem_cons] at h
      exact h.1.append (ih h.2)

end Holds

/-- An attribute begins only where a `d` follows. -/
theorem dataIn_cons (c : Char) {rest : List Char} (h : rest.head? ≠ some 'd') :
    dataIn (c :: rest) = dataIn rest := by
  have hno : [' ', 'd', '=', '"'].isPrefixOf (c :: rest) = false := by
    cases rest with
    | nil => simp [List.isPrefixOf]
    | cons next rest =>
        have hnext : ('d' == next) = false := by simpa using Ne.symm (by simpa using h)
        simp [List.isPrefixOf, hnext]
  rw [dataIn, hno, if_neg Bool.false_ne_true]

/-- A value without a `d` in it, up to the quote behind it. -/
theorem holds_quoted {value : List Char} (hd : 'd' ∉ value) : Holds (value ++ ['"']) [] := by
  intro rest
  induction value with
  | nil => rfl
  | cons c value ih =>
      rw [List.mem_cons, not_or] at hd
      have hnext : (value ++ ['"'] ++ rest).head? ≠ some 'd' := by
        cases value with
        | nil => simp
        | cons next value => simpa using Ne.symm (List.ne_of_not_mem_cons hd.2)
      rw [List.cons_append, List.cons_append, dataIn_cons c hnext, ih hd.2]

theorem holds_attribute {value : List Char} (hd : 'd' ∉ value) (hquote : '"' ∉ value) :
    Holds ([' ', 'd', '=', '"'] ++ value ++ ['"']) [value] := by
  intro rest
  have hvalue : (value ++ ['"'] ++ rest).takeWhile (· != '"') = value := by
    rw [List.append_assoc, List.takeWhile_append_of_pos]
    · simp
    · intro c hc
      exact bne_iff_ne.mpr (ne_of_mem_of_not_mem hc hquote)
  have hbehind : dataIn ('"' :: value ++ ['"'] ++ rest) = dataIn rest :=
    holds_quoted (by simpa using hd) rest
  show (value ++ ['"'] ++ rest).takeWhile (· != '"') :: dataIn ('"' :: value ++ ['"'] ++ rest) = _
  rw [hvalue, hbehind]
  rfl

/-! ## Documents -/

theorem not_mem_toString (n : ℤ) : 'd' ∉ (toString n).toList := by
  have hnat (n : ℕ) : 'd' ∉ n.repr.toList := by
    rw [Nat.toList_repr]
    intro hd
    have h := Decimal.isDigit_of_mem_toDigits hd
    revert h
    decide
  cases n with
  | ofNat n => exact hnat n
  | negSucc n =>
      show 'd' ∉ ("-" ++ (n + 1).repr).toList
      rw [String.toList_append]
      exact List.not_mem_append (by decide) (hnat _)

/-- The letters among hexadecimal digits are capitals. -/
theorem not_mem_hex (c : Rgb8) : 'd' ∉ c.hex.toList := by
  have hpair (n : ℕ) : 'd' ∉ Rgb8.hexPair n := by
    intro hd
    obtain ⟨c, -, hc⟩ := List.mem_map.mp hd
    have hlower := Char.isLower_toUpper_eq_false c
    rw [hc] at hlower
    revert hlower
    decide
  rw [Rgb8.hex, String.toList_ofList]
  simp [hpair]

theorem holds_opening (d : Document) : Holds (d.opening ++ "\n").toList [] := by
  have hopening : (d.opening ++ "\n").toList =
      ["<svg xmlns=\"http://www.w3.org/2000/svg\" viewBox=\"".toList,
        ("0 0 " ++ toString d.width ++ " " ++ toString d.height).toList ++ ['"'],
        " width=\"".toList, (toString d.width).toList ++ ['"'],
        " height=\"".toList, (toString d.height).toList ++ ['"'], ">\n".toList].flatten := by
    show ("<svg " ++ attr "xmlns" "http://www.w3.org/2000/svg" ++ " " ++
      attr "viewBox" ("0 0 " ++ toString d.width ++ " " ++ toString d.height) ++ " " ++
      (attr "width" (toString d.width) ++ " " ++ attr "height" (toString d.height)) ++ ">" ++
        "\n").toList = _
    simp [attr]
  have hbox : 'd' ∉ ("0 0 " ++ toString d.width ++ " " ++ toString d.height).toList := by
    simp only [String.toList_append]
    exact List.not_mem_append (List.not_mem_append (List.not_mem_append (by decide)
      (not_mem_toString _)) (by decide)) (not_mem_toString _)
  rw [hopening]
  refine .flatten ?_
  simp only [List.forall_mem_cons]
  exact ⟨fun rest => rfl, holds_quoted hbox, fun rest => rfl, holds_quoted (not_mem_toString _),
    fun rest => rfl, holds_quoted (not_mem_toString _), fun rest => rfl, by simp⟩

theorem holds_backgroundLine (d : Document) (fill : Rgb8) :
    Holds (d.backgroundLine fill ++ "\n").toList [] := by
  have hline : (d.backgroundLine fill ++ "\n").toList =
      ["  <rect x=\"0\" y=\"0\" width=\"".toList, (toString d.width).toList ++ ['"'],
        " height=\"".toList, (toString d.height).toList ++ ['"'],
        " fill=\"".toList, fill.hex.toList ++ ['"'], " />\n".toList].flatten := by
    show ("  <rect " ++ attr "x" "0" ++ " " ++ attr "y" "0" ++ " " ++
      (attr "width" (toString d.width) ++ " " ++ attr "height" (toString d.height)) ++ " " ++
        attr "fill" fill.hex ++ " />" ++ "\n").toList = _
    simp [attr]
  rw [hline]
  refine .flatten ?_
  simp only [List.forall_mem_cons]
  exact ⟨fun rest => rfl, holds_quoted (not_mem_toString _), fun rest => rfl,
    holds_quoted (not_mem_toString _), fun rest => rfl, holds_quoted (not_mem_hex _),
    fun rest => rfl, by simp⟩

theorem holds_line {p : Polygon} (h : 'd' ∉ p.opacity.toList) :
    Holds (p.line ++ "\n").toList [(pathData p.points).toList] := by
  have hline : (p.line ++ "\n").toList = "  <path".toList ++
      ([' ', 'd', '=', '"'] ++ (pathData p.points).toList ++ ['"']) ++
      [" fill=\"".toList, p.fill.hex.toList ++ ['"'], " fill-opacity=\"".toList,
        p.opacity.toList ++ ['"'], " />\n".toList].flatten := by
    simp [Polygon.line, attr]
  have hdata : Holds _ [(pathData p.points).toList] :=
    holds_attribute (not_mem_pathData p.points (by decide) (by decide) (by decide))
      (not_mem_pathData p.points (by decide) (by decide) (by decide))
  have hfront : Holds "  <path".toList [] := fun rest => rfl
  rw [hline]
  refine (hfront.append hdata).append (.flatten ?_)
  simp only [List.forall_mem_cons]
  exact ⟨fun rest => rfl, holds_quoted (not_mem_hex _), fun rest => rfl, holds_quoted h,
    fun rest => rfl, by simp⟩

/-- The `d` attributes of a document's text are the data of its polygons. -/
theorem dataIn_text {d : Document} (h : ∀ p ∈ d.polygons, 'd' ∉ p.opacity.toList) :
    dataIn d.text.toList = d.polygons.map fun p => (pathData p.points).toList := by
  have htext : d.text.toList =
      "<?xml version=\"1.0\" encoding=\"UTF-8\"?>\n".toList ++ (d.opening ++ "\n").toList ++
        ((d.background.map d.backgroundLine).toList.flatMap fun line => (line ++ "\n").toList) ++
        d.polygons.flatMap (fun p => (p.line ++ "\n").toList) ++ "</svg>\n".toList := by
    simp [Document.text, Document.lines, String.toList_join, List.flatMap_map]
  have hdeclaration : Holds "<?xml version=\"1.0\" encoding=\"UTF-8\"?>\n".toList [] :=
    fun rest => rfl
  have hbackground : Holds ((d.background.map d.backgroundLine).toList.flatMap
      fun line => (line ++ "\n").toList) [] := by
    cases d.background with
    | none => exact fun rest => rfl
    | some fill =>
        rw [Option.map_some, Option.toList_some, List.flatMap_singleton]
        exact holds_backgroundLine d fill
  have hpolygons : Holds (d.polygons.flatMap fun p => (p.line ++ "\n").toList)
      (d.polygons.map fun p => (pathData p.points).toList) := .flatMap fun p hp => holds_line (h p hp)
  have hclosing : Holds "</svg>\n".toList [] := fun rest => rfl
  have hall := (((hdeclaration.append (holds_opening d)).append hbackground).append hpolygons).append
    hclosing
  rw [htext, hall.dataIn_eq, List.append_nil]
  rfl

end Svg
end SeededSketch
