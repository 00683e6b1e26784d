import SeededSketch.Proofs.Comparison
import SeededSketch.Proofs.PathData
import SeededSketch.Text.Numeral

/-!
# Numbers of thousandths

A finite double is written with three places.  What is written is a whole number of thousandths: the
one nearest to the exact value, a tie going to the even one (`exists_thousandths`).

`IsThousandths k` says which texts write `k` thousandths: a minus only where `k` is less than zero,
digits without a needless zero in front, a point and three digits.  There is exactly one such text
(`isThousandths_iff`), and `number?` reads `k / 1000` from it.  Since rounding keeps the order, the
numbers that are read are in the order of the doubles that were written.
-/

namespace SeededSketch

/-! ## Values of digits -/

namespace Text

variable {s t : List Char} {c d : Char}

theorem digitsValue_append (s t : List Char) :
    digitsValue (s ++ t) = 10 ^ t.length * digitsValue s + digitsValue t :=
  (Nat.ofDigitChars_append 0).trans Nat.ofDigitChars_eq_ofDigitChars_zero

theorem digit_lt (h : c.isDigit = true) : c.toNat - 48 < 10 := by
  have hbounds : 48 ≤ c.toNat ∧ c.toNat ≤ 57 := Char.isDigit_iff_toNat.mp h
  omega

theorem digitChar_digit (h : c.isDigit = true) : Nat.digitChar (c.toNat - 48) = c := by
  have hbounds : 48 ≤ c.toNat ∧ c.toNat ≤ 57 := Char.isDigit_iff_toNat.mp h
  rw [← Char.toNat_inj, Nat.toNat_digitChar_of_lt_ten (digit_lt h)]
  omega

theorem digitsValue_concat (s : List Char) (c : Char) :
    digitsValue (s ++ [c]) = 10 * digitsValue s + (c.toNat - 48) :=
  List.foldl_concat _ _ _ _

theorem digitsValue_lt (h : ∀ c ∈ s, c.isDigit = true) : digitsValue s < 10 ^ s.length := by
  induction s using List.reverseRecOn with
  | nil => exact Nat.one_pos
  | append_singleton s c ih =>
      obtain ⟨hs, hc⟩ := List.forall_mem_append.mp h
      have hfront := ih hs
      rw [List.forall_mem_singleton] at hc
      have hlast := digit_lt hc
      rw [digitsValue_concat, List.length_append, List.length_singleton, Nat.pow_succ]
      omega

/-- Digits of a number that are as many are the same. -/
theorem eq_of_digitsValue_eq (hs : ∀ c ∈ s, c.isDigit = true) (ht : ∀ c ∈ t, c.isDigit = true)
    (hlength : s.length = t.length) (hvalue : digitsValue s = digitsValue t) : s = t := by
  induction s using List.reverseRecOn generalizing t with
  | nil => exact (List.length_eq_zero_iff.mp hlength.symm).symm
  | append_singleton s c ih =>
      obtain ⟨t, d, rfl⟩ : ∃ front d, t = front ++ [d] := by
        refine (List.eq_nil_or_concat' t).resolve_left fun hnil => ?_
        rw [hnil] at hlength
        simp at hlength
      obtain ⟨hs, hc⟩ := List.forall_mem_append.mp hs
      obtain ⟨ht, hd⟩ := List.forall_mem_append.mp ht
      rw [List.forall_mem_singleton] at hc hd
      have hcLt := digit_lt hc
      have hdLt := digit_lt hd
      rw [digitsValue_concat, digitsValue_concat] at hvalue
      have hlast : c.toNat - 48 = d.toNat - 48 := by omega
      have hfront : s = t := ih hs ht (by simpa using hlength) (by omega)
      rw [← digitChar_digit hc, ← digitChar_digit hd, hlast, hfront]

/-- Digits without a needless zero in front are the digits of their value. -/
theorem toDigits_digitsValue (hne : s ≠ []) (h : ∀ c ∈ s, c.isDigit = true)
    (hzero : s.head? = some '0' → s = ['0']) : Nat.toDigits 10 (digitsValue s) = s := by
  induction s using List.reverseRecOn with
  | nil => exact absurd rfl hne
  | append_singleton s c ih =>
      obtain ⟨hs, hc⟩ := List.forall_mem_append.mp h
      rw [List.forall_mem_singleton] at hc
      have hlast : Nat.toDigits 10 (c.toNat - 48) = [c] := by
        rw [Nat.toDigits_of_lt_base (digit_lt hc), digitChar_digit hc]
      rcases List.eq_nil_or_concat' s with rfl | ⟨front, d, rfl⟩
      · have hvalue : digitsValue [c] = c.toNat - 48 :=
          (digitsValue_concat [] c).trans (Nat.zero_add _)
        rw [List.nil_append, hvalue, hlast]
      · have hfront : (front ++ [d]).head? ≠ some '0' := fun hhead => by
          have hsingle := hzero (by rw [List.head?_append_of_ne_nil _ (by simp), hhead])
          simpa using congrArg List.length hsingle
        have hdigits := ih (by simp) hs fun hhead => absurd hhead hfront
        -- The digits before the last one are not those of zero.
        have hpos : 0 < digitsValue (front ++ [d]) := by
          refine Nat.pos_of_ne_zero fun hvalue => hfront ?_
          rw [← hdigits, hvalue]
          rfl
        rw [digitsValue_concat, ← Nat.toDigits_append_toDigits (by decide) hpos (digit_lt hc),
          hdigits, hlast]

end Text

namespace Decimal

open Double Text

variable {s : List Char} {k : ℤ} {x : Float} {v : ℚ}

theorem digitsValue_padded (width n : ℕ) : digitsValue (padded width n) = n := by
  have hzeros (count : ℕ) : digitsValue (List.replicate count '0') = 0 :=
    Nat.ofDigitChars_replicate_zero.trans (Nat.mul_zero _)
  rw [padded, digitsValue_append, hzeros, Nat.mul_zero, Nat.zero_add]
  exact Nat.ofDigitChars_ten_toDigits

/-! ## The text of a number of thousandths -/

/-- The text `s` writes `k / 1000` with three places, without a needless zero in front and with
a minus only of a negative number. -/
def IsThousandths (k : ℤ) (s : List Char) : Prop :=
  ∃ whole fraction : List Char,
    s = (if k < 0 then ['-'] else []) ++ whole ++ '.' :: fraction ∧
      (∀ c ∈ whole ++ fraction, c.isDigit = true) ∧ whole ≠ [] ∧
      (whole.head? = some '0' → whole = ['0']) ∧ fraction.length = 3 ∧
      digitsValue (whole ++ fraction) = k.natAbs

theorem toList_ofThousandths_int (k : ℤ) :
    (ofThousandths (decide (k < 0)) k.natAbs).toList = (if k < 0 then ['-'] else []) ++
      Nat.toDigits 10 (k.natAbs / 1000) ++ '.' :: padded 3 (k.natAbs % 1000) := by
  have hsign : (decide (k < 0) && k.natAbs != 0) = decide (k < 0) := by
    rw [Bool.and_eq_left_iff_imp, bne_iff_ne, decide_eq_true_eq]
    omega
  rw [toList_ofThousandths, hsign]
  simp only [decide_eq_true_eq]

theorem head?_toDigits {n : ℕ} (h : (Nat.toDigits 10 n).head? = some '0') :
    Nat.toDigits 10 n = ['0'] := by
  induction n using Nat.strong_induction_on with
  | _ n ih =>
      by_cases hlt : n < 10
      · rw [Nat.toDigits_of_lt_base hlt] at h ⊢
        exact congrArg (fun c => [c]) (Option.some.inj h)
      · rw [Nat.toDigits_of_base_le (by decide) (Nat.le_of_not_lt hlt),
          List.head?_append_of_ne_nil _ Nat.toDigits_ne_nil] at h
        -- The number without its last digit would be zero.
        have hfront := ih (n / 10) (by omega) h
        have hzero := eq_zero_of_toDigits (n := n / 10) fun c hc => by
          rw [hfront] at hc
          exact List.mem_singleton.mp hc
        omega

theorem isThousandths_ofThousandths (k : ℤ) :
    IsThousandths k (ofThousandths (decide (k < 0)) k.natAbs).toList := by
  have hlength : (padded 3 (k.natAbs % 1000)).length = 3 :=
    length_padded (by decide) (Nat.mod_lt _ (by decide))
  have hwhole : digitsValue (Nat.toDigits 10 (k.natAbs / 1000)) = k.natAbs / 1000 :=
    Nat.ofDigitChars_ten_toDigits
  refine ⟨_, _, toList_ofThousandths_int k, fun c hc => ?_, Nat.toDigits_ne_nil, head?_toDigits,
    hlength, ?_⟩
  · rcases List.mem_append.mp hc with hmem | hmem
    · exact isDigit_of_mem_toDigits hmem
    · exact isDigit_of_mem_padded hmem
  · rw [digitsValue_append, hlength, hwhole, digitsValue_padded]
    exact Nat.div_add_mod _ 1000

/-- There is one text for a number of thousandths. -/
theorem isThousandths_iff :
    IsThousandths k s ↔ s = (ofThousandths (decide (k < 0)) k.natAbs).toList := by
  refine ⟨fun h => ?_, fun h => h ▸ isThousandths_ofThousandths k⟩
  obtain ⟨whole, fraction, rfl, hdigits, hne, hzero, hlength, hvalue⟩ := h
  obtain ⟨hwholeDigits, hfractionDigits⟩ := List.forall_mem_append.mp hdigits
  have hlt := digitsValue_lt hfractionDigits
  rw [digitsValue_append, hlength] at hvalue
  rw [hlength] at hlt
  have hwhole : whole = Nat.toDigits 10 (k.natAbs / 1000) := by
    rw [← toDigits_digitsValue hne hwholeDigits hzero]
    congr 1
    omega
  have hfraction : fraction = padded 3 (k.natAbs % 1000) := by
    refine eq_of_digitsValue_eq hfractionDigits (fun c hc => isDigit_of_mem_padded hc) ?_ ?_
    · exact hlength.trans (length_padded (by decide) (Nat.mod_lt _ (by decide))).symm
    · rw [digitsValue_padded]
      omega
  rw [toList_ofThousandths_int, hwhole, hfraction]

/-! ## Reading the text -/

/-- The number that a numeral denotes: perhaps a sign, digits, a point and more digits. -/
def number? (s : List Char) : Option ℚ :=
  let (negative, rest) := splitSign s
  let whole := rest.takeWhile Char.isDigit
  match rest.dropWhile Char.isDigit with
  | '.' :: fraction =>
    if whole.isEmpty || fraction.isEmpty || !fraction.all Char.isDigit then none
    else some (signed negative (digitsValue (whole ++ fraction) / 10 ^ fraction.length))
  | _ => none

theorem splitSign_digits {whole : List Char} (negative : Bool) (rest : List Char)
    (hne : whole ≠ []) (hdigits : ∀ c ∈ whole, c.isDigit = true) :
    splitSign ((if negative then ['-'] else []) ++ whole ++ rest) = (negative, whole ++ rest) := by
  cases negative with
  | true => rfl
  | false =>
      cases whole with
      | nil => exact absurd rfl hne
      | cons c whole =>
          have hc := hdigits c List.mem_cons_self
          show splitSign (c :: (whole ++ rest)) = (false, c :: (whole ++ rest))
          unfold splitSign
          split
          case h_1 heq =>
            rw [(List.cons.inj heq).1] at hc
            exact absurd hc (by decide)
          case h_2 heq =>
            rw [(List.cons.inj heq).1] at hc
            exact absurd hc (by decide)
          case h_3 => rfl

theorem signed_natAbs (k : ℤ) (w : ℚ) : signed (decide (k < 0)) (k.natAbs / w) = k / w := by
  rw [Nat.cast_natAbs]
  rcases lt_or_ge k 0 with hneg | hnonneg
  · rw [decide_eq_true hneg, abs_of_neg hneg, Int.cast_neg, neg_div]
    exact neg_neg _
  · rw [decide_eq_false (Int.not_lt.mpr hnonneg), abs_of_nonneg hnonneg]
    rfl

theorem IsThousandths.number?_eq (h : IsThousandths k s) : number? s = some ((k : ℚ) / 1000) := by
  obtain ⟨whole, fraction, rfl, hdigits, hne, -, hlength, hvalue⟩ := h
  obtain ⟨hwholeDigits, hfractionDigits⟩ := List.forall_mem_append.mp hdigits
  have hsign := splitSign_digits (decide (k < 0)) ('.' :: fraction) hne hwholeDigits
  have htake : (whole ++ '.' :: fraction).takeWhile Char.isDigit = whole := by
    rw [List.takeWhile_append_of_pos hwholeDigits]
    exact List.append_nil whole
  have hdrop : (whole ++ '.' :: fraction).dropWhile Char.isDigit = '.' :: fraction := by
    rw [List.dropWhile_append_of_pos hwholeDigits]
    rfl
  have hcomplete : (whole.isEmpty || fraction.isEmpty || !fraction.all Char.isDigit) = false := by
    have hfraction : fraction ≠ [] := fun hnil => by
      rw [hnil] at hlength
      cases hlength
    rw [List.isEmpty_eq_false_iff.mpr hne, List.isEmpty_eq_false_iff.mpr hfraction,
      List.all_eq_true.mpr hfractionDigits]
    rfl
  have hnumber : signed (decide (k < 0)) ((k.natAbs : ℚ) / 10 ^ 3) = k / 1000 := by
    rw [signed_natAbs]
    norm_num
  simp only [decide_eq_true_eq] at hsign
  rw [number?, hsign]
  simp only [htake, hdrop, hcomplete, hlength, hvalue, hnumber, Bool.false_eq_true, if_false]

/-! ## The text of a double -/

theorem ofThousandths_natAbs (negative : Bool) (n : ℕ) :
    ofThousandths negative n = ofThousandths (decide ((if negative then -(n : ℤ) else n) < 0))
      (if negative then -(n : ℤ) else n).natAbs := by
  have hlt : decide (-(n : ℤ) < 0) = (n != 0) := by
    rw [Bool.eq_iff_iff, decide_eq_true_eq, bne_iff_ne]
    omega
  cases negative with
  | false =>
      simp only [Bool.false_eq_true, if_false, Int.natAbs_natCast]
      rw [decide_eq_false (by omega)]
  | true =>
      simp only [if_true, Int.natAbs_neg, Int.natAbs_natCast, hlt, ofThousandths, Bool.true_and,
        Bool.and_self]

/-- A double is written as the number of thousandths that is nearest to it. -/
theorem exists_thousandths (h : value? x = some v) :
    ∃ k : ℤ, IsNearestInt (1000 * v) k ∧
      threePlaces x = ofThousandths (decide (k < 0)) k.natAbs := by
  obtain ⟨negative, m, e, hread, rfl⟩ := reading_of_value? h
  have hnearest := isNearest_roundDiv ((ratioOf m e).1 * 1000) (ratioOf_den_pos m e)
  have hscaled : (((ratioOf m e).1 * 1000 : ℕ) : ℚ) / (ratioOf m e).2 = 1000 * (m * 2 ^ e) := by
    rw [Nat.cast_mul, mul_comm, mul_div_assoc, ratioOf_eq, Nat.cast_ofNat]
  have hsigned : 1000 * signed negative ((m : ℚ) * 2 ^ e) =
      signed negative (1000 * (m * 2 ^ e)) := by
    cases negative with
    | false => rfl
    | true => exact mul_neg _ _
  rw [hscaled] at hnearest
  rw [hsigned, threePlaces, hread]
  exact ⟨_, isNearestInt_signed hnearest, ofThousandths_natAbs negative _⟩

/-- A finite double is written as the nearest number of thousandths, in the one way there is to
write it.  What is read from the texts of doubles is exact, and in the order of the doubles. -/
theorem threePlaces_canonical (hx : x.isFinite = true) :
    ∃ (v : ℚ) (k : ℤ), value? x = some v ∧ IsNearestInt (1000 * v) k ∧
      (∀ s, IsThousandths k s ↔ s = (threePlaces x).toList) ∧
      number? (threePlaces x).toList = some ((k : ℚ) / 1000) ∧
      ∀ y : Float, y.isFinite = true → x ≤ y →
        ∃ b, number? (threePlaces y).toList = some b ∧ (k : ℚ) / 1000 ≤ b := by
  obtain ⟨v, hv⟩ := (isFinite_iff x).mp hx
  obtain ⟨k, hk, htext⟩ := exists_thousandths hv
  rw [htext]
  refine ⟨v, k, hv, hk, fun s => isThousandths_iff, (isThousandths_ofThousandths k).number?_eq,
    fun y hy hle => ?_⟩
  obtain ⟨w, hw⟩ := (isFinite_iff y).mp hy
  obtain ⟨l, hl, htext'⟩ := exists_thousandths hw
  have hvw : 1000 * v ≤ 1000 * w := mul_le_mul_of_nonneg_left ((le_iff hv hw).mp hle) (by norm_num)
  have hkl : (k : ℚ) ≤ l := by exact_mod_cast hk.mono hl hvw
  rw [htext']
  exact ⟨_, (isThousandths_ofThousandths l).number?_eq,
    div_le_div_of_nonneg_right hkl (by norm_num)⟩

/-- A tie below zero goes to the even number of thousandths, and a negative zero is above it. -/
theorem threePlaces_negative_tie :
    (-0.0625 : Float).isFinite = true ∧ (-0.0 : Float).isFinite = true ∧
      (-0.0625 : Float) ≤ -0.0 ∧
      IsThousandths (-62) (threePlaces (-0.0625)).toList ∧
      number? (threePlaces (-0.0625)).toList = some (-62 / 1000) ∧
      ∃ b, number? (threePlaces (-0.0)).toList = some b ∧ -62 / 1000 ≤ b := by
  have hx : (-0.0625 : Float).isFinite = true := by decide +kernel
  have hy : (-0.0 : Float).isFinite = true := by decide
  have hle : (-0.0625 : Float) ≤ -0.0 := by decide +kernel
  obtain ⟨v, k, hv, hk, htext, hread, hmono⟩ := threePlaces_canonical hx
  have hvalue : value? (-0.0625) = some (-1 / 16) := by
    have hreading : reading (-0.0625) = .finite true (2 ^ 52) (-56) := by decide +kernel
    rw [value?_of_reading hreading]
    norm_num [signed]
  obtain rfl : v = -1 / 16 := Option.some.inj (hv.symm.trans hvalue)
  obtain rfl : k = -62 := hk.unique ⟨by norm_num [abs_of_neg], fun _ => by decide⟩
  rw [Int.cast_neg, Int.cast_ofNat] at hread hmono
  exact ⟨hx, hy, hle, (htext _).mpr rfl, hread, hmono _ hy hle⟩

example : threePlaces (-0.0004) = "0.000" := by decide +kernel

end Decimal
end SeededSketch
