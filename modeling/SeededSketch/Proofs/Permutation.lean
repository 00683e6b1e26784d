import SeededSketch.Proofs.Period

/-!
# The output as a permutation of the words

The output of a state goes through three steps: the word is laid over its own lower bits, at a
distance that its highest four bits choose; it is multiplied; and it is laid over its own lower bits
once more.  No step loses anything.

* A word laid over its lower bits determines the word, whatever the distance is: two words that
  give the same would differ by a word that a shift to the right leaves as it is
  (`laidOver_injective`).
* The distance of the first step is at least four, so the highest four bits stay as they are and
  the distance can be read off the result (`distanceOf_laidOver`).
* The multiplier is odd, so it has an inverse.

There are as many outputs as words, so every word is one (`permuted_bijective`).
`output_bijOn_words` says the same of the states as they are, integers from zero on.
-/

namespace SeededSketch
namespace Stream

/-- The word, with its upper bits laid over the lower ones at a distance. -/
def laidOver (distance word : UInt32) : UInt32 := word ^^^ (word >>> distance)

/-- The distance that the highest four bits of a word choose. -/
def distanceOf (word : UInt32) : UInt32 := (word >>> 28) + 4

/-- The output of a state that is a word. -/
def permuted (word : UInt32) : UInt32 :=
  laidOver 22 (laidOver (distanceOf word) word * 277803737)

/-! ## Distances -/

theorem toNat_shifted {distance : UInt32} (hlt : distance.toNat < 32) (word : UInt32) :
    (word >>> distance).toNat = word.toNat / 2 ^ distance.toNat := by
  rw [UInt32.toNat_shiftRight, Nat.mod_eq_of_lt hlt, Nat.shiftRight_eq_div_pow]

theorem toNat_distanceOf (word : UInt32) :
    (distanceOf word).toNat = word.toNat / 2 ^ 28 + 4 := by
  have hword : word.toNat < 2 ^ 32 := word.toNat_lt
  have hshift : (word >>> 28).toNat = word.toNat / 2 ^ 28 := toNat_shifted (by decide) word
  rw [distanceOf, UInt32.toNat_add, hshift]
  exact Nat.mod_eq_of_lt (show word.toNat / 2 ^ 28 + 4 < 2 ^ 32 by omega)

theorem distanceOf_bounds (word : UInt32) :
    4 ≤ (distanceOf word).toNat ∧ (distanceOf word).toNat < 20 := by
  have hword : word.toNat < 2 ^ 32 := word.toNat_lt
  rw [toNat_distanceOf]
  omega

/-! ## The steps -/

/-- Only zero is not made smaller by a shift. -/
theorem eq_zero_of_shifted_eq {distance word : UInt32} (hpos : 0 < distance.toNat)
    (hlt : distance.toNat < 32) (h : word >>> distance = word) : word = 0 := by
  have hdiv : word.toNat / 2 ^ distance.toNat = word.toNat := by
    rw [← toNat_shifted hlt, h]
  have hpow : 1 < 2 ^ distance.toNat := Nat.one_lt_two_pow (by omega)
  rw [← UInt32.toNat_inj]
  by_contra hne
  exact absurd hdiv (Nat.div_lt_self (Nat.pos_of_ne_zero hne) hpow).ne

theorem laidOver_injective {distance : UInt32} (hpos : 0 < distance.toNat)
    (hlt : distance.toNat < 32) : Function.Injective (laidOver distance) := by
  intro a b h
  have hsame : (a ^^^ b) >>> distance ^^^ (a ^^^ b) = 0 := by
    calc (a ^^^ b) >>> distance ^^^ (a ^^^ b)
        = a >>> distance ^^^ b >>> distance ^^^ (a ^^^ b) := by rw [UInt32.shiftRight_xor]
      _ = laidOver distance a ^^^ laidOver distance b := by simp only [laidOver]; ac_rfl
      _ = 0 := UInt32.xor_eq_zero_iff.mpr h
  have hzero : a ^^^ b = 0 := eq_zero_of_shifted_eq hpos hlt (UInt32.xor_eq_zero_iff.mp hsame)
  exact UInt32.xor_eq_zero_iff.mp hzero

/-- The highest four bits are out of reach, so the distance stays what it was. -/
theorem distanceOf_laidOver (word : UInt32) :
    distanceOf (laidOver (distanceOf word) word) = distanceOf word := by
  obtain ⟨hlow, hhigh⟩ := distanceOf_bounds word
  have hgone : word >>> distanceOf word >>> 28 = 0 := by
    have hword : word.toNat < 2 ^ 32 := word.toNat_lt
    have hpow : 2 ^ 4 ≤ 2 ^ (distanceOf word).toNat := Nat.pow_le_pow_right (by decide) hlow
    have hsmall : word.toNat / 2 ^ (distanceOf word).toNat < 2 ^ 28 :=
      Nat.div_lt_of_lt_mul (by omega)
    rw [← UInt32.toNat_inj, toNat_shifted (by decide), toNat_shifted (by omega)]
    exact Nat.div_eq_of_lt hsmall
  rw [distanceOf, laidOver, UInt32.shiftRight_xor, hgone, UInt32.xor_zero, distanceOf]

theorem laidOver_distanceOf_injective :
    Function.Injective fun word => laidOver (distanceOf word) word := by
  intro a b h
  have hab : laidOver (distanceOf a) a = laidOver (distanceOf b) b := h
  have hdistance : distanceOf a = distanceOf b := by
    rw [← distanceOf_laidOver a, hab, distanceOf_laidOver]
  obtain ⟨hlow, hhigh⟩ := distanceOf_bounds b
  rw [hdistance] at hab
  exact laidOver_injective (by omega) (by omega) hab

theorem mul_injective : Function.Injective fun word : UInt32 => word * 277803737 := by
  intro a b h
  have hab : a * 277803737 = b * 277803737 := h
  have hunit : (277803737 : UInt32) * 2897767785 = 1 := by decide
  calc a = a * 277803737 * 2897767785 := by rw [UInt32.mul_assoc, hunit, UInt32.mul_one]
    _ = b * 277803737 * 2897767785 := by rw [hab]
    _ = b := by rw [UInt32.mul_assoc, hunit, UInt32.mul_one]

theorem permuted_bijective : Function.Bijective permuted := by
  have hfinite : Finite UInt32 := Finite.of_injective UInt32.toFin fun _ _ => UInt32.toFin_inj.mp
  have hlast : Function.Injective (laidOver 22) := laidOver_injective (by decide) (by decide)
  apply Finite.injective_iff_bijective.mp
  exact hlast.comp (mul_injective.comp laidOver_distanceOf_injective)

/-! ## States as integers -/

theorem lowWord_toNat (word : UInt32) : lowWord word.toNat = word := by
  have hword : word.toNat < 2 ^ 32 := word.toNat_lt
  have hlow := toNat_lowWord word.toNat
  rw [← UInt32.toNat_inj]
  omega

theorem lowWord_shiftedRight {distance : UInt32} (hlt : distance.toNat < 32) (word : UInt32) :
    lowWord (shiftedRight word.toNat distance.toNat) = word >>> distance := by
  have hshift : shiftedRight word.toNat distance.toNat = (word >>> distance).toNat := by
    rw [shiftedRight_eq, Int.shiftRight_eq_div_pow, toNat_shifted hlt]
    norm_cast
  rw [hshift, lowWord_toNat]

theorem output_toNat (word : UInt32) : output word.toNat = .ok (permuted word) := by
  have hdistance : shiftedRight word.toNat 28 + 4 = (distanceOf word).toNat := by
    rw [shiftedRight_eq, Int.shiftRight_eq_div_pow, toNat_distanceOf]
    norm_cast
  have hlt : (distanceOf word).toNat < 32 := by
    have hhigh := (distanceOf_bounds word).2
    omega
  rw [output, hdistance, if_neg (by omega), Int.toNat_natCast, lowWord_toNat,
    lowWord_shiftedRight hlt]
  exact congrArg Except.ok (UInt32.xor_comm _ _)

/-- The integers that are words of 32 bits. -/
def words : Set ℤ := {state | 0 ≤ state ∧ state < 2 ^ 32}

theorem exists_word {state : ℤ} (h : state ∈ words) : ∃ word : UInt32, state = word.toNat := by
  refine ⟨lowWord state, ?_⟩
  rw [toNat_lowWord, Int.emod_eq_of_lt h.1 h.2]

theorem toNat_mem_words (word : UInt32) : (word.toNat : ℤ) ∈ words := by
  have hword : word.toNat < 2 ^ 32 := word.toNat_lt
  constructor <;> omega

/-- The output is a permutation of the words of 32 bits.  Every state that is a word has an output,
no two of them have the same, and every word is the output of exactly one of them. -/
theorem output_bijOn_words :
    Set.BijOn output words (Set.range .ok) ∧
      ∀ word : UInt32, ∃! state, state ∈ words ∧ output state = .ok word := by
  have hmaps : Set.MapsTo output words (Set.range .ok) := by
    intro state hstate
    obtain ⟨word, rfl⟩ := exists_word hstate
    exact ⟨permuted word, (output_toNat word).symm⟩
  have hinj : Set.InjOn output words := by
    intro a ha b hb hab
    obtain ⟨x, rfl⟩ := exists_word ha
    obtain ⟨y, rfl⟩ := exists_word hb
    rw [output_toNat, output_toNat] at hab
    rw [permuted_bijective.injective (Except.ok.inj hab)]
  have hsurj (word : UInt32) : ∃ state, state ∈ words ∧ output state = .ok word := by
    obtain ⟨source, hsource⟩ := permuted_bijective.surjective word
    exact ⟨source.toNat, toNat_mem_words source, by rw [output_toNat, hsource]⟩
  refine ⟨⟨hmaps, hinj, ?_⟩, fun word => ?_⟩
  · rintro _ ⟨word, rfl⟩
    exact hsurj word
  · obtain ⟨state, hstate, hword⟩ := hsurj word
    exact ⟨state, ⟨hstate, hword⟩, fun other hother =>
      hinj hother.1 hstate (hother.2.trans hword.symm)⟩

end Stream
end SeededSketch
