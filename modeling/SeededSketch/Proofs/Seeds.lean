import SeededSketch.Proofs.Permutation

/-!
# The stream of a seed

A seed is added to the state of a stream that has been warmed up, and the sum makes one step.  The
sum keeps the lowest 32 bits of the seed, however long the seed is and whatever its sign.  So all
that matters is that a step loses nothing: its multiplier is odd and has an inverse modulo
`2 ^ 32`.

`next_eq_next_iff` says so of two steps, and `state_next_before` gives the step before a word.
Hence the streams of two seeds are the same exactly if the seeds agree modulo `2 ^ 32`, and each
word is the first state for one seed among the words.
-/

namespace SeededSketch
namespace Stream

/-! ## Steps backwards -/

/-- The inverse of the multiplier modulo `2 ^ 32`. -/
def multiplierInverse : ℤ := 4276115653

theorem multiplier_mul_inverse : 1664525 * multiplierInverse ≡ 1 [ZMOD 2 ^ 32] := by decide

theorem inverse_mul_modEq (n : ℤ) : multiplierInverse * (1664525 * n) ≡ n [ZMOD 2 ^ 32] := by
  calc multiplierInverse * (1664525 * n)
      = 1664525 * multiplierInverse * n := by ring
    _ ≡ 1 * n [ZMOD 2 ^ 32] := multiplier_mul_inverse.mul_right n
    _ = n := one_mul n

/-- A step loses nothing but what a state has above its lowest 32 bits. -/
theorem next_eq_next_iff {s t : Stream} (h : s.increment = t.increment) :
    s.next = t.next ↔ s.state ≡ t.state [ZMOD 2 ^ 32] := by
  have hstates : s.next = t.next ↔ s.next.state = t.next.state :=
    ⟨congrArg state, fun hstate => eq_of_state_eq hstate h⟩
  rw [hstates, state_next, state_next, h]
  constructor
  · intro hsum
    have hproduct : 1664525 * s.state ≡ 1664525 * t.state [ZMOD 2 ^ 32] :=
      Int.ModEq.add_right_cancel' t.increment hsum
    calc s.state
        ≡ multiplierInverse * (1664525 * s.state) [ZMOD 2 ^ 32] := (inverse_mul_modEq _).symm
      _ ≡ multiplierInverse * (1664525 * t.state) [ZMOD 2 ^ 32] := hproduct.mul_left _
      _ ≡ t.state [ZMOD 2 ^ 32] := inverse_mul_modEq _
  · intro hstate
    exact (hstate.mul_left 1664525).add_right t.increment

/-- A stream that is one step before the state `word`. -/
def before (increment word : ℤ) : Stream := ⟨multiplierInverse * (word - increment), increment⟩

theorem state_next_before (increment : ℤ) {word : ℤ} (h : word ∈ words) :
    (before increment word).next.state = word := by
  have hsum : 1664525 * (before increment word).state + increment ≡ word [ZMOD 2 ^ 32] := by
    calc 1664525 * (before increment word).state + increment
        = 1664525 * multiplierInverse * (word - increment) + increment := by
          rw [before, mul_assoc]
      _ ≡ 1 * (word - increment) + increment [ZMOD 2 ^ 32] :=
          (multiplier_mul_inverse.mul_right _).add_right _
      _ = word := by ring
  have hword : word % 2 ^ 32 = word := Int.emod_eq_of_lt h.1 h.2
  rw [state_next]
  exact Eq.trans hsum hword

/-! ## Seeds -/

/-- The state to which a seed has been added, before the last step. -/
def mixed (seed : ℤ) : Stream := ⟨(defaultIncrement + seed) % 2 ^ 32, defaultIncrement⟩

theorem ofSeed_eq (seed : ℤ) : ofSeed seed = (mixed seed).next := by
  have hsum : lowWord (next ⟨0, defaultIncrement⟩).state + lowWord seed =
      lowWord (defaultIncrement + seed) := by
    have hwarm : (next ⟨0, defaultIncrement⟩).state = defaultIncrement := by decide
    rw [hwarm, lowWord, lowWord, lowWord, UInt32.ofInt_add]
  rw [ofSeed, hsum, toNat_lowWord, mixed]
  rfl

theorem isWord_ofSeed (seed : ℤ) : (ofSeed seed).IsWord := isWord_next _

theorem increment_ofSeed (seed : ℤ) : (ofSeed seed).increment = defaultIncrement := rfl

theorem odd_defaultIncrement : Odd defaultIncrement := by decide

theorem mixed_modEq (seed : ℤ) : (mixed seed).state ≡ defaultIncrement + seed [ZMOD 2 ^ 32] :=
  Int.mod_modEq _ _

theorem ofSeed_eq_ofSeed_iff (a b : ℤ) : ofSeed a = ofSeed b ↔ a ≡ b [ZMOD 2 ^ 32] := by
  have hincrement : (mixed a).increment = (mixed b).increment := rfl
  rw [ofSeed_eq, ofSeed_eq, next_eq_next_iff hincrement]
  constructor
  · intro h
    exact Int.ModEq.add_left_cancel' defaultIncrement
      ((mixed_modEq a).symm.trans (h.trans (mixed_modEq b)))
  · intro h
    exact (mixed_modEq a).trans ((h.add_left defaultIncrement).trans (mixed_modEq b).symm)

/-- The seed, among the words, of the stream that starts from `word`. -/
def seedOf (word : ℤ) : ℤ := ((before defaultIncrement word).state - defaultIncrement) % 2 ^ 32

theorem seedOf_mem_words (word : ℤ) : seedOf word ∈ words :=
  ⟨Int.emod_nonneg _ (by decide), Int.emod_lt_of_pos _ (by decide)⟩

theorem state_ofSeed_seedOf {word : ℤ} (h : word ∈ words) :
    (ofSeed (seedOf word)).state = word := by
  have hmixed : (mixed (seedOf word)).state ≡ (before defaultIncrement word).state
      [ZMOD 2 ^ 32] := by
    calc (mixed (seedOf word)).state
        ≡ defaultIncrement + seedOf word [ZMOD 2 ^ 32] := mixed_modEq _
      _ ≡ defaultIncrement + ((before defaultIncrement word).state - defaultIncrement)
            [ZMOD 2 ^ 32] := (Int.mod_modEq _ _).add_left _
      _ = (before defaultIncrement word).state := add_sub_cancel _ _
  have hincrement : (mixed (seedOf word)).increment = (before defaultIncrement word).increment :=
    rfl
  rw [ofSeed_eq, (next_eq_next_iff hincrement).mpr hmixed, state_next_before _ h]

/-- Seeds of any size and sign start the same stream exactly if they agree modulo `2 ^ 32`.  All
streams of seeds have the same odd increment and start from a word, and each word is the start for
exactly one seed among the words. -/
theorem ofSeed_starts :
    (∀ a b : ℤ, ofSeed a = ofSeed b ↔ a ≡ b [ZMOD 2 ^ 32]) ∧
    (∀ seed : ℤ, (ofSeed seed).state ∈ words) ∧
    (∀ word : UInt32, ∃! seed : ℤ, seed ∈ words ∧ (ofSeed seed).state = word.toNat) ∧
    Odd defaultIncrement ∧ ∀ seed : ℤ, (ofSeed seed).increment = defaultIncrement := by
  refine ⟨ofSeed_eq_ofSeed_iff, isWord_ofSeed, fun word => ?_, odd_defaultIncrement,
    increment_ofSeed⟩
  have hword := toNat_mem_words word
  refine ⟨seedOf word.toNat, ⟨seedOf_mem_words _, state_ofSeed_seedOf hword⟩, ?_⟩
  rintro other ⟨hother, hstate⟩
  -- The two streams are the same, so the two seeds agree, and among the words they are equal.
  have hsame : ofSeed other = ofSeed (seedOf word.toNat) :=
    eq_of_state_eq (hstate.trans (state_ofSeed_seedOf hword).symm)
      ((increment_ofSeed _).trans (increment_ofSeed _).symm)
  have hmod : other % 2 ^ 32 = seedOf word.toNat % 2 ^ 32 := (ofSeed_eq_ofSeed_iff _ _).mp hsame
  have hseed := seedOf_mem_words word.toNat
  rwa [Int.emod_eq_of_lt hother.1 hother.2, Int.emod_eq_of_lt hseed.1 hseed.2] at hmod

end Stream
end SeededSketch
