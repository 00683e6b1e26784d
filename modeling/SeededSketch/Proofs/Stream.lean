import Mathlib.Logic.Function.Iterate
import SeededSketch.Stream

/-!
# Draws as steps of the generator

A draw is two steps of the generator and a number.  Nothing about the number decides how far the
stream moves: the bounds only scale it.

A stream that has made a step holds a word and can always be drawn from.  The first state of a
stream may be any integer, and there is one limit to it: far below zero the output function would
shift by a negative number of places.  `Ready` is exactly that limit, so a draw between two doubles
either gives a number or fails on the stream it starts from.
-/

namespace SeededSketch.Stream

/-- A draw from this stream gives a number. -/
def Ready (s : Stream) : Prop := -0x40000000 ≤ s.state

instance (s : Stream) : Decidable s.Ready := inferInstanceAs (Decidable (-0x40000000 ≤ s.state))

/-- Every state that is a word, or any other natural number, is ready. -/
theorem ready_of_nonneg {s : Stream} (h : 0 ≤ s.state) : s.Ready := by
  unfold Ready
  omega

theorem ready_next (s : Stream) : s.next.Ready :=
  ready_of_nonneg (Int.natCast_nonneg _)

@[simp] theorem increment_next (s : Stream) : s.next.increment = s.increment := rfl

theorem increment_iterate (s : Stream) (n : Nat) : (next^[n] s).increment = s.increment := by
  induction n generalizing s with
  | zero => rfl
  | succ n ih => rw [Function.iterate_succ_apply, ih, increment_next]

theorem Ready.iterate {s : Stream} (h : s.Ready) (n : Nat) : (next^[n] s).Ready := by
  cases n with
  | zero => exact h
  | succ n =>
      rw [Function.iterate_succ_apply']
      exact ready_next _

/-! ## The shift that the output chooses -/

/-- Shifting out the lowest 28 bits, also where the integer is not that long. -/
theorem shiftedRight_eq (n : Int) (shift : Nat) : shiftedRight n shift = n >>> shift := by
  unfold shiftedRight
  by_cases h : shift ≤ n.natAbs.log2 + 1
  · rw [Nat.min_eq_left h]
  · -- Both shifts leave only the sign of `n`.
    have hlen : n.natAbs.log2 + 1 ≤ shift := by omega
    rw [Nat.min_eq_right hlen, Int.shiftRight_eq_div_pow, Int.shiftRight_eq_div_pow]
    have hlow : n.natAbs < 2 ^ (n.natAbs.log2 + 1) := Nat.lt_log2_self
    have hhigh : 2 ^ (n.natAbs.log2 + 1) ≤ 2 ^ shift := Nat.pow_le_pow_right (by decide) hlen
    generalize 2 ^ (n.natAbs.log2 + 1) = low at hlow hhigh
    generalize 2 ^ shift = high at hhigh
    rcases Int.le_total 0 n with hn | hn
    · rw [Int.ediv_eq_zero_of_lt hn (by omega), Int.ediv_eq_zero_of_lt hn (by omega)]
    · by_cases hz : n = 0
      · simp [hz]
      · rw [Int.ediv_eq_neg_one_of_neg_of_le (by omega) (by omega),
          Int.ediv_eq_neg_one_of_neg_of_le (by omega) (by omega)]

theorem shift_nonneg_iff (n : Int) : 0 ≤ shiftedRight n 28 + 4 ↔ -0x40000000 ≤ n := by
  rw [shiftedRight_eq, Int.shiftRight_eq_div_pow]
  omega

theorem output_of_ready {s : Stream} (h : s.Ready) : ∃ word, output s.state = .ok word := by
  have hshift := (shift_nonneg_iff s.state).mpr h
  simp only [output, if_neg (Int.not_lt.mpr hshift)]
  exact ⟨_, rfl⟩

theorem output_of_not_ready {s : Stream} (h : ¬ s.Ready) :
    output s.state = .error .negativeShift := by
  have hshift : shiftedRight s.state 28 + 4 < 0 :=
    Int.not_le.mp fun hle => h ((shift_nonneg_iff s.state).mp hle)
  simp only [output, if_pos hshift]

/-! ## Draws between doubles -/

/-- A draw between doubles takes two steps, whatever the doubles are. -/
theorem draw_of_ready {s : Stream} (h : s.Ready) (lo hi : Float) :
    ∃ x, s.draw (.number (.real lo)) (.number (.real hi)) = .ok (x, s.next.next) := by
  obtain ⟨high, hhigh⟩ := output_of_ready h
  obtain ⟨low, hlow⟩ := output_of_ready (ready_next s)
  simp only [draw, fraction, fractionNumerator, hhigh, hlow, Value.toReal, Number.toReal]
  exact ⟨_, rfl⟩

theorem draw_of_not_ready {s : Stream} (h : ¬ s.Ready) (lo hi : Value) :
    s.draw lo hi = .error .negativeShift := by
  simp only [draw, fraction, fractionNumerator, output_of_not_ready h]
  rfl

end SeededSketch.Stream
