import Mathlib.Data.Fintype.EquivFin
import Mathlib.Dynamics.PeriodicPts.Defs
import Mathlib.NumberTheory.Multiplicity
import SeededSketch.Proofs.Stream

/-!
# The period of the generator

A step of the generator is an affine map on the integers, taken modulo `2 ^ 32`.  After `n` steps
the state has moved by its first move times a geometric sum of `n` terms (`state_iterate_modEq`).
The multiplier leaves the remainder one modulo four, so such a sum has exactly the factors two that
the number of its terms has (`two_pow_dvd_geom_sum_iff`); and with an odd increment the first move
is odd and has none.

Hence a stream of a word comes back after `n` steps exactly if `2 ^ 32` divides `n`
(`iterate_next_eq_self_iff`), and on its way it meets every word once.
-/

namespace SeededSketch

open Finset (range)

/-! ## Factors two of a geometric sum -/

theorem emultiplicity_geom_sum {a : ℤ} (ha : 4 ∣ a - 1) (n : ℕ) :
    emultiplicity 2 (∑ i ∈ range n, a ^ i) = emultiplicity 2 (n : ℤ) := by
  by_cases hone : a = 1
  · simp [hone]
  · have hodd : ¬2 ∣ a := by omega
    have hfinite : emultiplicity 2 (a - 1) ≠ ⊤ :=
      finiteMultiplicity_iff_emultiplicity_ne_top.mp
        (Int.finiteMultiplicity_iff.mpr ⟨by decide, sub_ne_zero.mpr hone⟩)
    have hpow := Int.two_pow_sub_pow' n ha hodd
    rw [one_pow, ← mul_geom_sum, emultiplicity_mul Int.prime_two] at hpow
    exact WithTop.add_left_cancel hfinite hpow

theorem two_pow_dvd_geom_sum_iff {a : ℤ} (ha : 4 ∣ a - 1) (k n : ℕ) :
    2 ^ k ∣ ∑ i ∈ range n, a ^ i ↔ 2 ^ k ∣ n := by
  rw [pow_dvd_iff_le_emultiplicity, emultiplicity_geom_sum ha, ← pow_dvd_iff_le_emultiplicity]
  exact_mod_cast Int.natCast_dvd_natCast (m := 2 ^ k) (n := n)

namespace Stream

/-! ## Steps in the integers -/

/-- The state is a word of 32 bits. -/
def IsWord (s : Stream) : Prop := 0 ≤ s.state ∧ s.state < 2 ^ 32

theorem toNat_lowWord (n : ℤ) : ((lowWord n).toNat : ℤ) = n % 2 ^ 32 := by
  have hnonneg : 0 ≤ n % 2 ^ 32 := Int.emod_nonneg n (by decide)
  have hlt : n % 2 ^ 32 < 2 ^ 32 := Int.emod_lt_of_pos n (by decide)
  rw [lowWord, UInt32.ofInt, UInt32.toNat_ofNat', Int.natCast_emod, Int.toNat_of_nonneg hnonneg]
  exact Int.emod_eq_of_lt hnonneg hlt

theorem state_next (s : Stream) : s.next.state = (1664525 * s.state + s.increment) % 2 ^ 32 := by
  have hword : lowWord s.state * 1664525 + lowWord s.increment =
      lowWord (1664525 * s.state + s.increment) := by
    rw [lowWord, lowWord, lowWord, UInt32.ofInt_add, UInt32.ofInt_mul, UInt32.mul_comm]
    rfl
  rw [next, hword, toNat_lowWord]

theorem isWord_next (s : Stream) : s.next.IsWord := by
  rw [IsWord, state_next]
  exact ⟨Int.emod_nonneg _ (by decide), Int.emod_lt_of_pos _ (by decide)⟩

theorem IsWord.iterate {s : Stream} (h : s.IsWord) (n : ℕ) : (next^[n] s).IsWord := by
  cases n with
  | zero => exact h
  | succ n =>
      rw [Function.iterate_succ_apply']
      exact isWord_next _

/-- After some steps the state has moved by its first move, once for each power of the
multiplier. -/
theorem state_iterate_modEq (s : Stream) (n : ℕ) :
    (next^[n] s).state ≡ s.state +
      (∑ i ∈ range n, (1664525 : ℤ) ^ i) * (1664524 * s.state + s.increment) [ZMOD 2 ^ 32] := by
  induction n with
  | zero => simp [Int.ModEq.refl]
  | succ n ih =>
      rw [Function.iterate_succ_apply', state_next, increment_iterate, geom_sum_succ]
      calc (1664525 * (next^[n] s).state + s.increment) % 2 ^ 32
          ≡ 1664525 * (next^[n] s).state + s.increment [ZMOD 2 ^ 32] := Int.mod_modEq _ _
        _ ≡ 1664525 * (s.state + (∑ i ∈ range n, (1664525 : ℤ) ^ i) *
              (1664524 * s.state + s.increment)) + s.increment [ZMOD 2 ^ 32] :=
            (ih.mul_left _).add_right _
        _ = s.state + (1664525 * (∑ i ∈ range n, (1664525 : ℤ) ^ i) + 1) *
              (1664524 * s.state + s.increment) := by ring

/-! ## Streams that come back -/

theorem eq_of_state_eq {s t : Stream} (hstate : s.state = t.state)
    (hincrement : s.increment = t.increment) : s = t := by
  obtain ⟨_, _⟩ := s
  obtain ⟨_, _⟩ := t
  cases hstate
  cases hincrement
  rfl

/-- With an odd increment, a stream of a word is the same again after `2 ^ 32` steps and their
multiples, and after no other number of steps. -/
theorem iterate_next_eq_self_iff {s : Stream} (hs : s.IsWord) (hodd : Odd s.increment) (n : ℕ) :
    next^[n] s = s ↔ 2 ^ 32 ∣ n := by
  have hmove : ¬2 ∣ 1664524 * s.state + s.increment := by
    obtain ⟨k, hk⟩ := hodd
    omega
  have hword := hs.iterate n
  calc next^[n] s = s
      ↔ (next^[n] s).state = s.state :=
        ⟨congrArg state, fun h => eq_of_state_eq h (increment_iterate s n)⟩
    _ ↔ (next^[n] s).state ≡ s.state [ZMOD 2 ^ 32] := by
        rw [Int.ModEq, Int.emod_eq_of_lt hword.1 hword.2, Int.emod_eq_of_lt hs.1 hs.2]
    _ ↔ s.state + (∑ i ∈ range n, (1664525 : ℤ) ^ i) * (1664524 * s.state + s.increment) ≡
          s.state [ZMOD 2 ^ 32] :=
        ⟨(state_iterate_modEq s n).symm.trans, (state_iterate_modEq s n).trans⟩
    _ ↔ 2 ^ 32 ∣ (∑ i ∈ range n, (1664525 : ℤ) ^ i) * (1664524 * s.state + s.increment) := by
        rw [Int.modEq_comm, Int.modEq_iff_dvd, add_sub_cancel_left]
    _ ↔ 2 ^ 32 ∣ ∑ i ∈ range n, (1664525 : ℤ) ^ i :=
        ⟨Int.prime_two.pow_dvd_of_dvd_mul_right 32 hmove, fun h => h.mul_right _⟩
    _ ↔ 2 ^ 32 ∣ n := two_pow_dvd_geom_sum_iff (by decide) 32 n

theorem minimalPeriod_next {s : Stream} (hs : s.IsWord) (hodd : Odd s.increment) :
    Function.minimalPeriod next s = 2 ^ 32 :=
  Nat.dvd_antisymm
    (Function.IsPeriodicPt.minimalPeriod_dvd ((iterate_next_eq_self_iff hs hodd _).mpr dvd_rfl))
    ((iterate_next_eq_self_iff hs hodd _).mp (Function.iterate_minimalPeriod ..))

/-! ## Words on the way -/

/-- Of the first `2 ^ 32` streams no two are the same. -/
theorem injOn_iterate_next {s : Stream} (hs : s.IsWord) (hodd : Odd s.increment) :
    (Set.Iio (2 ^ 32)).InjOn (next^[·] s) := by
  rw [← minimalPeriod_next hs hodd]
  exact Function.iterate_injOn_Iio_minimalPeriod

/-- There are no more words than streams on the way, so every word is met. -/
theorem exists_iterate_next {s : Stream} (hs : s.IsWord) (hodd : Odd s.increment) {word : ℤ}
    (hword : 0 ≤ word ∧ word < 2 ^ 32) : ∃ n < 2 ^ 32, next^[n] s = ⟨word, s.increment⟩ := by
  let visit (n : Fin (2 ^ 32)) : Fin (2 ^ 32) :=
    ⟨(next^[n] s).state.toNat, (Int.toNat_lt (hs.iterate n).1).mpr (hs.iterate n).2⟩
  have state_eq (n : Fin (2 ^ 32)) : (next^[n] s).state = (visit n).val :=
    (Int.toNat_of_nonneg (hs.iterate n).1).symm
  have hinjective : Function.Injective visit := by
    intro m n hmn
    refine Fin.ext (injOn_iterate_next hs hodd m.isLt n.isLt (eq_of_state_eq ?_ ?_))
    · rw [state_eq, state_eq, hmn]
    · rw [increment_iterate, increment_iterate]
  obtain ⟨n, hn⟩ := Finite.surjective_of_injective hinjective
    ⟨word.toNat, (Int.toNat_lt hword.1).mpr hword.2⟩
  refine ⟨n, n.isLt, eq_of_state_eq ?_ (increment_iterate s n)⟩
  rw [state_eq, hn]
  exact Int.toNat_of_nonneg hword.1

/-- With an odd increment the generator has full period.  From every word it comes back after the
multiples of `2 ^ 32` steps and after no other number of steps, and before it comes back it meets
every word once. -/
theorem next_full_period (s : Stream) (hs : s.IsWord) (hodd : Odd s.increment) :
    (∀ n : ℕ, next^[n] s = s ↔ 2 ^ 32 ∣ n) ∧
      ∀ word : ℤ, 0 ≤ word → word < 2 ^ 32 →
        ∃! n, n < 2 ^ 32 ∧ next^[n] s = ⟨word, s.increment⟩ := by
  refine ⟨iterate_next_eq_self_iff hs hodd, fun word hnonneg hlt => ?_⟩
  obtain ⟨n, hn, hmeet⟩ := exists_iterate_next hs hodd ⟨hnonneg, hlt⟩
  refine ⟨n, ⟨hn, hmeet⟩, fun m hm => ?_⟩
  exact injOn_iterate_next hs hodd hm.1 hn (hm.2.trans hmeet.symm)

/-- The greatest word, with an increment below zero: half the period is not enough. -/
theorem next_full_period_greatest :
    let s : Stream := ⟨0xffffffff, -3⟩
    s.IsWord ∧ Odd s.increment ∧ next^[2 ^ 32] s = s ∧ next^[2 ^ 31] s ≠ s ∧
      ∃! n, n < 2 ^ 32 ∧ next^[n] s = ⟨0, -3⟩ := by
  intro s
  have hs : s.IsWord := ⟨by decide, by decide⟩
  have hodd : Odd s.increment := by decide
  obtain ⟨hback, hmeet⟩ := next_full_period s hs hodd
  refine ⟨hs, hodd, (hback _).mpr dvd_rfl, fun h => ?_, hmeet 0 le_rfl (by decide)⟩
  exact absurd ((hback _).mp h) (by decide)

end Stream
end SeededSketch
