import SeededSketch.Proofs.Comparison
import SeededSketch.Proofs.Exporting
import SeededSketch.Proofs.Precision

/-!
# The frames in a clock's own time

A clock that began at zero and has ticked `n` times tells `n` divided by its rate as the time.
Asked for the frames in that time, it multiplies by the rate again, takes the allowance off and
rounds up.  In exact arithmetic this gives `n`.  In doubles the quotient, the product and the
difference are rounded, and the allowance has to make up for it.

* The quotient is off by `2 ^ (-53)` of itself, or by half the least double where it is tiny.  So
  the exact product is not farther from `n` than `n * 2 ^ (-53)` or `2 ^ (-51)`
  (`abs_product_sub_le`).
* Below `2 ^ 23` frames the rounded product is at most `2 ^ (-30)` above `n`, which is less than the
  allowance.  Between `2 ^ 23` and `2 ^ 24` it can be a unit of its last place above `n`.  Less than
  half a unit is left when the allowance is gone, and the difference is rounded to `n`
  (`lowered_le`).
* From `2 ^ 24` frames on the allowance is itself less than half a unit.  It is lost in the rounding
  (`lowered_eq`), and a product above `n` is counted as one frame more.

`framesFor_time_iff` says exactly for which times a clock counts its own frames, and that below
`2 ^ 52` it never misses by more than one.  At a rate of 75 the first miss comes after three days
(`framesFor_time_late`).
-/

namespace SeededSketch

open Double

namespace Clock

variable {n : ℕ} {x : Float} {v p s : ℚ}

/-! ## What becomes of the allowance -/

/-- Above `2 ^ 24` the allowance is less than half a unit in the last place, and changes nothing. -/
theorem lowered_eq (hp : value? x = some p) (hlarge : 2 ^ 24 < p)
    (hround : IsRounding (p - allowance) (x - 1e-9)) (hs : value? (x - 1e-9) = some s) : s = p := by
  have hpositive := (two_zpow_pos (-30)).trans lt_allowance
  have hallowance := allowance_lt
  have hplace : Format.binary64.place (2 ^ (24 : ℤ)) = -28 :=
    Format.place_eq (by decide) le_rfl (zpow_lt_zpow_right₀ one_lt_two (by decide))
  -- It is above by a unit of the place `-28` at least, so the difference is above as well.
  have habove : (2 : ℚ) ^ (24 : ℤ) ≤ p - allowance := by
    obtain ⟨k, hk⟩ := exists_units_in_place hp (two_zpow_pos 24) hlarge.le
    rw [hplace] at hk
    have hunits : (2 : ℚ) ^ 24 = 2 ^ 52 * 2 ^ (-28 : ℤ) := by norm_num
    rw [hk, hunits] at hlarge
    have hmore : 2 ^ 52 + 1 ≤ k := by
      exact_mod_cast lt_of_mul_lt_mul_right hlarge (two_zpow_pos _).le
    have hcast : (2 : ℚ) ^ 52 + 1 ≤ k := by exact_mod_cast hmore
    have hle := mul_le_mul_of_nonneg_right hcast (two_zpow_pos (-28)).le
    rw [← hk] at hle
    norm_num at hle hallowance ⊢
    linarith
  have hhalf : (2 : ℚ) ^ (-29 : ℤ) ≤ 2 ^ Format.binary64.place (p - allowance) / 2 := by
    have hmono := Format.place_mono (f := .binary64) (two_zpow_pos 24) habove
    rw [le_div_iff₀ two_pos, ← zpow_add_one₀ two_ne_zero]
    exact zpow_le_zpow_right₀ one_le_two (by omega)
  have hpos : 0 < p - allowance := (two_zpow_pos 24).trans_le habove
  refine hround.eq_of_le hs hpos hp (by linarith) ?_
  rw [sub_sub_cancel]
  exact hallowance.trans_le hhalf

/-- Below `2 ^ 24` the allowance makes up for a product that is too great by its last place. -/
theorem lowered_le (hn : n < 2 ^ 24)
    (hhigh : p ≤ n + 2 ^ (-30 : ℤ) ∨ 2 ^ 23 ≤ n ∧ p ≤ n + 2 ^ (-29 : ℤ))
    (hround : IsRounding (p - allowance) (x - 1e-9)) (hs : value? (x - 1e-9) = some s) :
    s ≤ n := by
  have hallowance := lt_allowance
  rcases le_or_gt (p - allowance) n with hle | hgt
  · exact hround.le hs (value?_ofRatio_one (by omega)) hle
  obtain hhigh | ⟨hlarge, hhigh⟩ := hhigh
  · linarith
  -- What is left lies between `n` and the next double, and nearer to `n`.
  have hnCast : (n : ℚ) + 1 ≤ 2 ^ 24 := by exact_mod_cast hn
  have hnear : p - allowance - n < 2 ^ (-29 : ℤ) / 2 := by
    norm_num at hhigh hallowance ⊢
    linarith
  have hlow : (2 : ℚ) ^ (23 : ℤ) ≤ p - allowance := by
    have hcast : (2 : ℚ) ^ (23 : ℤ) ≤ n := by exact_mod_cast hlarge
    exact hcast.trans hgt.le
  have hbelow : p - allowance < (2 : ℚ) ^ (24 : ℤ) := by
    norm_num at hnear hnCast ⊢
    linarith
  have hplace : Format.binary64.place (p - allowance) = -29 :=
    Format.place_eq (by decide) hlow hbelow
  have hunits : ((n * 2 ^ 29 : ℕ) : ℚ) * 2 ^ (-29 : ℤ) = n := by
    push_cast
    rw [mul_assoc]
    norm_num
  have heq := hround.eq_of_near hs ((two_zpow_pos 23).trans_le hlow) (k := n * 2 ^ 29)
  rw [hplace, hunits] at heq
  exact (heq (abs_sub_lt_iff.mpr ⟨hnear, by linarith⟩)).le

/-- A product of no less than `n` frames but a half is not lowered by a whole frame. -/
theorem lt_lowered (hp : value? x = some p) (hlow : (n : ℚ) - 1 / 2 ≤ p)
    (hround : IsRounding (p - allowance) (x - 1e-9)) (hs : value? (x - 1e-9) = some s)
    (habove : -1 < s) : (n : ℚ) - 1 < s := by
  rcases le_or_gt p (2 ^ 24) with hsmall | hlarge
  · rcases Nat.eq_zero_or_pos n with rfl | hpos
    · rwa [Nat.cast_zero, zero_sub]
    -- Three quarters of the last frame are a short significand.
    have hunits : ((4 * n - 3 : ℕ) : ℚ) * 2 ^ (-2 : ℤ) = n - 3 / 4 := by
      rw [Nat.cast_sub (by omega)]
      push_cast
      ring
    have hle : ((4 * n - 3 : ℕ) : ℚ) * 2 ^ (-2 : ℤ) ≤ p - allowance := by
      have hallowance := allowance_lt.trans (show (2 : ℚ) ^ (-29 : ℤ) < 1 / 4 by norm_num)
      rw [hunits]
      linarith
    have hfew : n ≤ 2 ^ 24 := by
      have hcast : (n : ℚ) < 2 ^ 24 + 1 := by linarith
      exact Nat.lt_succ_iff.mp (by exact_mod_cast hcast)
    have hthird := hround.units_le hs (by omega) (by decide) (by decide) hle
    rw [hunits] at hthird
    linarith
  · rw [lowered_eq hp hlarge hround hs]
    linarith

/-! ## How far the product is from the frames -/

/-- The time of a clock that began at zero is the rounded quotient of its frames by its rate. -/
theorem exists_time {d : Clock} {f : ℚ} (hstart : d.start = 0.0) (hrate : value? d.rate = some f)
    (hf : 0 < f) (hfinite : d.time.isFinite = true) :
    ∃ t, value? d.time = some t ∧ 0 ≤ t ∧ (d.frame < 2 ^ 53 →
      |t - d.frame / f| ≤ max (d.frame / f * 2 ^ (-53 : ℤ)) (2 ^ (-1075 : ℤ))) := by
  rw [time, hstart] at hfinite ⊢
  have hquotient := (isFinite_of_add hfinite).2
  obtain ⟨t, ht⟩ := (isFinite_iff _).mp hquotient
  obtain ⟨a, ha⟩ := (isFinite_iff _).mp
    (isFinite_of_div hquotient ((isFinite_iff _).mpr ⟨f, hrate⟩))
  have hround := IsRounding.div ha hrate hf.ne'
  have hnonneg : 0 ≤ a :=
    (isRounding_ofRatio false d.frame Nat.one_pos).ge ha value?_zero
      (div_nonneg (Nat.cast_nonneg _) (Nat.cast_nonneg _))
  have hsum := IsRounding.add value?_zero ht
  rw [zero_add] at hsum
  refine ⟨t, hsum.exact ht, hround.ge ht value?_zero (div_nonneg hnonneg hf.le), fun hframe => ?_⟩
  obtain rfl : a = d.frame := Option.some.inj (ha.symm.trans (value?_ofRatio_one hframe))
  exact hround.abs_sub_le ht (div_nonneg hnonneg hf.le)

/-- Multiplied by the rate again, the rounding of the quotient makes a small part of a frame. -/
theorem abs_product_sub_le {t f : ℚ} (hf : 0 < f) (hf' : f < 2 ^ (1024 : ℤ))
    (ht : |t - n / f| ≤ max ((n : ℚ) / f * 2 ^ (-53 : ℤ)) (2 ^ (-1075 : ℤ))) :
    |t * f - n| ≤ max ((n : ℚ) * 2 ^ (-53 : ℤ)) (2 ^ (-51 : ℤ)) := by
  have hscale : t * f - n = (t - n / f) * f := by rw [sub_mul, div_mul_cancel₀ _ hf.ne']
  have hnormal : (n : ℚ) / f * 2 ^ (-53 : ℤ) * f = n * 2 ^ (-53 : ℤ) := by
    rw [mul_right_comm, div_mul_cancel₀ _ hf.ne']
  have hlowest : (2 : ℚ) ^ (-1075 : ℤ) * f ≤ 2 ^ (-51 : ℤ) := by
    calc (2 : ℚ) ^ (-1075 : ℤ) * f ≤ 2 ^ (-1075 : ℤ) * 2 ^ (1024 : ℤ) :=
          mul_le_mul_of_nonneg_left hf'.le (two_zpow_pos _).le
      _ = 2 ^ (-51 : ℤ) := (zpow_add₀ two_ne_zero _ _).symm
  rw [hscale, abs_mul, abs_of_pos hf]
  refine (mul_le_mul_of_nonneg_right ht hf.le).trans ?_
  rw [max_mul_of_nonneg _ _ hf.le, hnormal]
  exact max_le_max le_rfl hlowest

variable (hv : |v - n| ≤ max ((n : ℚ) * 2 ^ (-53 : ℤ)) (2 ^ (-51 : ℤ)))

include hv

/-- The fewer frames there are, the nearer is their product. -/
theorem abs_sub_le_of_lt {k : ℕ} (hk : k ≤ 51) (hn : n < 2 ^ (53 - k)) :
    |v - n| ≤ 2 ^ (-k : ℤ) := by
  refine hv.trans (max_le ?_ (zpow_le_zpow_right₀ one_le_two (by omega)))
  have hcast : (n : ℚ) ≤ 2 ^ (53 - k : ℤ) := by
    have hexponent : (53 - k : ℤ) = (53 - k : ℕ) := by omega
    rw [hexponent, zpow_natCast]
    exact_mod_cast hn.le
  calc (n : ℚ) * 2 ^ (-53 : ℤ) ≤ 2 ^ (53 - k : ℤ) * 2 ^ (-53 : ℤ) :=
        mul_le_mul_of_nonneg_right hcast (two_zpow_pos _).le
    _ = 2 ^ (-k : ℤ) := by
        rw [← zpow_add₀ two_ne_zero]
        congr 1
        ring

/-- The fewer frames there are, the less is their rounded product above them. -/
theorem product_le_of_lt {k : ℕ} (hpos : 0 < k) (hk : k ≤ 51) (hn : n < 2 ^ (53 - k))
    (hround : IsRounding v x) (hp : value? x = some p) : p ≤ n + 2 ^ (-k : ℤ) := by
  have habove := (abs_sub_le_iff.mp (abs_sub_le_of_lt hv hk hn)).1
  have hunits : ((n * 2 ^ k + 1 : ℕ) : ℚ) * 2 ^ (-k : ℤ) = n + 2 ^ (-k : ℤ) := by
    have hcancel := mul_two_zpow_mul_neg n k
    rw [zpow_natCast] at hcancel
    push_cast
    rw [add_mul, hcancel, one_mul]
  have hshort : n * 2 ^ k + 1 < 2 ^ 53 := by
    have hmul : (n + 1) * 2 ^ k ≤ 2 ^ (53 - k) * 2 ^ k := Nat.mul_le_mul_right _ hn
    have htwo : 2 ^ 1 ≤ 2 ^ k := Nat.pow_le_pow_right two_pos hpos
    rw [← Nat.pow_add, Nat.sub_add_cancel (by omega), Nat.add_mul] at hmul
    omega
  have hle := hround.le_units hp (e := -k) hshort (by omega) (by omega) (by rw [hunits]; linarith)
  rwa [hunits] at hle

/-- Half a frame is more than what can be missing. -/
theorem le_product (hn : n < 2 ^ 52) (hround : IsRounding v x) (hp : value? x = some p)
    (hnonneg : 0 ≤ p) : (n : ℚ) - 1 / 2 ≤ p := by
  have hbelow := (abs_sub_le_iff.mp (abs_sub_le_of_lt hv (k := 1) (by decide) hn)).2
  rcases Nat.eq_zero_or_pos n with rfl | hpos
  · linarith
  have hunits : ((2 * n - 1 : ℕ) : ℚ) * 2 ^ (-1 : ℤ) = n - 1 / 2 := by
    rw [Nat.cast_sub (by omega)]
    push_cast
    ring
  have hle := hround.units_le hp (n := 2 * n - 1) (e := -1) (by omega) (by decide) (by decide) (by
    rw [hunits]
    norm_num at hbelow ⊢
    linarith)
  rwa [hunits] at hle

omit hv

/-! ## What a clock counts -/

/-- A product is finite if its frames are counted. -/
theorem exists_of_frames {c : Clock} {seconds : Float} {k : ℤ} (h : c.frames seconds = .ok k) :
    ∃ p s, value? (seconds * c.rate) = some p ∧ value? (seconds * c.rate - 1e-9) = some s ∧
      k = ⌈s⌉ := by
  obtain ⟨s, hs⟩ : ∃ s, value? (seconds * c.rate - 1e-9) = some s := by
    rw [frames, wholeBy, ceiling?, toIntBy] at h
    rw [value?]
    cases hread : reading (seconds * c.rate - 1e-9) with
    | finite negative m e => exact ⟨_, rfl⟩
    | nan =>
        rw [hread] at h
        cases h
    | infinite =>
        rw [hread] at h
        cases h
  have hsame : value? (seconds * c.rate - 1e-9) = value? (seconds * c.rate + -1e-9) := by
    have hneg : (-(-1e-9 : Float)) = 1e-9 := by rfl
    rw [← value?_congr (toBits_sub_neg _ _), hneg]
  have hsum : (seconds * c.rate + -1e-9).isFinite = true :=
    (isFinite_iff _).mpr ⟨s, hsame.symm.trans hs⟩
  obtain ⟨p, hp⟩ := (isFinite_iff _).mp (isFinite_of_add hsum).1
  rw [frames_eq hs] at h
  exact ⟨p, s, hp, hs, (Except.ok.inj h).symm⟩

section

variable {d : Clock} {f : ℚ} (hstart : d.start = 0.0) (hrate : value? d.rate = some f) (hf : 0 < f)
  (hfinite : d.time.isFinite = true)

include hstart hrate hf hfinite

/-- Up to `2 ^ 52` frames the product of time and rate is finite, and what is left of it without the
allowance is off by less than a frame. -/
theorem exists_lowered_time (hn : d.frame < 2 ^ 52) :
    ∃ s, value? (d.time * d.rate - 1e-9) = some s ∧ (d.frame : ℚ) - 1 < s ∧ s ≤ d.frame + 1 ∧
      (d.frame < 2 ^ 24 → s ≤ d.frame) := by
  obtain ⟨t, ht, htNonneg, htime⟩ := exists_time hstart hrate hf hfinite
  have hround := IsRounding.mul ht hrate
  have hnear := abs_product_sub_le hf (lt_of_value? hrate) (htime (by omega))
  have hhalf := (abs_sub_le_iff.mp (abs_sub_le_of_lt hnear (k := 1) (by decide) hn)).1
  obtain ⟨y, hy⟩ := exists_value?_of_short (n := d.frame + 1) (e := 0) (by omega) (by decide)
    (by decide)
  obtain ⟨p, hp, hnonneg, -⟩ := hround.between value?_zero hy (mul_nonneg htNonneg hf.le) (by
    push_cast
    norm_num at hhalf ⊢
    linarith)
  obtain ⟨s, hs, hlowered, habove, hle⟩ := exists_lowered hp hnonneg
  have hhigh (k : ℕ) (hk : 0 < k ∧ k ≤ 51) (hlt : d.frame < 2 ^ (53 - k)) :
      p ≤ d.frame + 2 ^ (-k : ℤ) := product_le_of_lt hnear hk.1 hk.2 hlt hround hp
  have hlow := le_product hnear hn hround hp hnonneg
  refine ⟨s, hs, lt_lowered hp hlow hlowered hs habove, ?_, ?_⟩
  · have hbound := hhigh 1 (by decide) hn
    norm_num at hbound
    linarith
  · intro hsmall
    refine lowered_le hsmall ?_ hlowered hs
    rcases Nat.lt_or_ge d.frame (2 ^ 23) with hless | hmore
    · exact .inl (hhigh 30 (by decide) hless)
    · exact .inr ⟨hmore, hhigh 29 (by decide) hsmall⟩

theorem frames_time_of_lt (hn : d.frame < 2 ^ 52) :
    d.frames d.time = .ok d.frame ∨ d.frames d.time = .ok (d.frame + 1) := by
  obtain ⟨s, hs, hlow, hhigh, -⟩ := exists_lowered_time hstart hrate hf hfinite hn
  rw [frames_eq hs]
  have hgt : (d.frame : ℤ) - 1 < ⌈s⌉ := Int.lt_ceil.mpr (by exact_mod_cast hlow)
  have hle : ⌈s⌉ ≤ (d.frame : ℤ) + 1 := Int.ceil_le.mpr (by exact_mod_cast hhigh)
  obtain h | h : ⌈s⌉ = d.frame ∨ ⌈s⌉ = d.frame + 1 := by omega
  · exact .inl (by rw [h])
  · exact .inr (by rw [h])

theorem frames_time_iff :
    d.frames d.time = .ok d.frame ↔ d.frame < 2 ^ 24 ∨
      ∃ p, value? (d.time * d.rate) = some p ∧ (d.frame : ℚ) - 1 < p ∧ p ≤ d.frame := by
  obtain ⟨t, ht, htNonneg, -⟩ := exists_time hstart hrate hf hfinite
  have hnonneg {p : ℚ} (hp : value? (d.time * d.rate) = some p) : 0 ≤ p :=
    (IsRounding.mul ht hrate).ge hp value?_zero (mul_nonneg htNonneg hf.le)
  constructor
  · intro h
    rcases Nat.lt_or_ge d.frame (2 ^ 24) with hsmall | hlarge
    · exact .inl hsmall
    obtain ⟨p, s, hp, hs, hceil⟩ := exists_of_frames h
    obtain ⟨s', hs', hround, -, hle⟩ := exists_lowered hp (hnonneg hp)
    obtain rfl : s = s' := Option.some.inj (hs.symm.trans hs')
    obtain ⟨hlow, hhigh⟩ := Int.ceil_eq_iff.mp hceil.symm
    rw [Int.cast_natCast] at hlow hhigh
    refine .inr ⟨p, hp, hlow.trans_le hle, ?_⟩
    rcases le_or_gt p (2 ^ 24) with hp' | hp'
    · exact hp'.trans (by exact_mod_cast hlarge)
    · rwa [← lowered_eq hp hp' hround hs]
  · rintro (hsmall | ⟨p, hp, hlow, hhigh⟩)
    · obtain ⟨s, hs, hlow, -, hhigh⟩ :=
        exists_lowered_time hstart hrate hf hfinite (hsmall.trans (by decide))
      have hceil : ⌈s⌉ = (d.frame : ℤ) := Int.ceil_eq_iff.mpr ⟨hlow, hhigh hsmall⟩
      rw [frames_eq hs, hceil]
    · obtain ⟨s, hs, hround, -, hle⟩ := exists_lowered hp (hnonneg hp)
      have habove : (d.frame : ℚ) - 1 < s := by
        rcases le_or_gt p (2 ^ 24) with hp' | hp'
        · have hfew : d.frame < 2 ^ 52 := by
            have hcast : (d.frame : ℚ) < 2 ^ 52 := by linarith
            exact_mod_cast hcast
          obtain ⟨s', hs', habove, -⟩ := exists_lowered_time hstart hrate hf hfinite hfew
          rwa [Option.some.inj (hs.symm.trans hs')]
        · rwa [lowered_eq hp hp' hround hs]
      have hceil : ⌈s⌉ = (d.frame : ℤ) := Int.ceil_eq_iff.mpr ⟨habove, hle.trans hhigh⟩
      rw [frames_eq hs, hceil]

end

end Clock

/-- A run from the start over a span of seconds leads to the scene after `n` completed ticks, and
gives its history, exactly if the clock counts `n` frames in the span. -/
theorem Scene.Reached.runFor_start_iff {shape : Shape} {stream : Stream} {c : Clock} {s : Scene}
    (h : Reached shape stream c n s) (seconds : Value) :
    (Scene.start shape stream c).runFor seconds = (s, .ok s.history) ↔
      c.framesFor seconds = .ok n := by
  have hclock : (Scene.start shape stream c).clock = c := rfl
  rw [Scene.runFor, hclock]
  cases hcount : c.framesFor seconds with
  | error fault => simp
  | ok count =>
      have hforms := run_start_eq_ok_iff shape stream c count s.history
      constructor
      · intro hrun
        obtain ⟨m, rfl, hm⟩ := hforms.mp (congrArg Prod.snd hrun)
        have hlength := congrArg List.length (h.forms.symm.trans hm)
        rw [List.length_map, List.length_map, List.length_range, List.length_range] at hlength
        rw [hlength]
      · intro hsame
        obtain rfl : count = n := Except.ok.inj hsame
        have hanswer := hforms.mpr ⟨n, rfl, h.forms⟩
        show (Scene.start shape stream c).run (.number (.whole n)) = _
        rw [Scene.run, tickCount_whole, if_neg (by omega), Int.toNat_natCast] at hanswer ⊢
        obtain ⟨-, -, -, hlast⟩ | ⟨j, fault, -, -, hfault, -⟩ :=
          (Reached.start shape stream c).ticks n
        · rw [Nat.zero_add] at hlast
          exact Prod.ext (hlast.unique h) hanswer
        · rw [hanswer] at hfault
          cases hfault

namespace Clock

theorem iterate_tick (c : Clock) (n : ℕ) : tick^[n] c = { c with frame := c.frame + n } := by
  induction n with
  | zero => rfl
  | succ n ih =>
      rw [Function.iterate_succ_apply', ih]
      rfl

/-- A clock that began at zero and has ticked `n` times counts `n` frames in its own time exactly if
`n` is less than `2 ^ 24`, or the rounded product of the time and the rate lies in the last frame.
Below `2 ^ 52` it counts one frame more at most.  A run from the start over the time of the scene
after `n` completed ticks leads to this scene exactly if `n` frames are counted. -/
theorem framesFor_time_iff {rate : Value} {c : Clock}
    (hc : build rate (.number (.real 0.0)) = .ok c) (hrate : c.rate.isFinite = true) (n : ℕ)
    (hfinite : (tick^[n] c).time.isFinite = true) :
    let d := tick^[n] c
    let own := Value.number (.real d.time)
    (d.framesFor own = .ok n ↔ n < 2 ^ 24 ∨
      ∃ p, value? (d.time * d.rate) = some p ∧ (n : ℚ) - 1 < p ∧ p ≤ n) ∧
    (n < 2 ^ 52 → d.framesFor own = .ok n ∨ d.framesFor own = .ok (n + 1)) ∧
    ∀ shape stream s, Scene.Reached shape stream c n s →
      ((Scene.start shape stream c).runFor (.number (.real s.time)) = (s, .ok s.history) ↔
        d.framesFor own = .ok n) := by
  intro d own
  obtain ⟨f, hf⟩ := (isFinite_iff _).mp hrate
  obtain ⟨hpos, hstart, hzero⟩ : 0 < f ∧ c.start = 0.0 ∧ c.frame = 0 := by
    obtain ⟨x, -, hx⟩ := bind_eq_ok hc
    split at hx
    · cases hx
    · rename_i hle
      cases hx
      exact ⟨pos_of_value? hf ((zero_lt_iff_not_le hle).mpr (isNaN_of_value? hf)), rfl, rfl⟩
  have hd : d = { c with frame := n } := by
    rw [← Nat.zero_add n, ← hzero]
    exact iterate_tick c n
  have hdStart : d.start = 0.0 := by rw [hd, ← hstart]
  have hdRate : value? d.rate = some f := by rw [hd, ← hf]
  have hdFrame : d.frame = n := by rw [hd]
  obtain ⟨t, ht, hnonneg, -⟩ := exists_time hdStart hdRate hpos hfinite
  have hlt : (Number.real d.time).lt (.whole 0) = false := by
    rw [← Bool.not_eq_true, Number.real_lt_zero_iff ht]
    exact not_lt.mpr hnonneg
  have hframes : d.framesFor own = d.frames d.time := framesFor_eq_frames rfl hlt rfl
  refine ⟨?_, ?_, ?_⟩
  · have hiff := frames_time_iff hdStart hdRate hpos hfinite
    rwa [hdFrame, ← hframes] at hiff
  · have hnear := frames_time_of_lt hdStart hdRate hpos hfinite
    rwa [hdFrame, ← hframes] at hnear
  · intro shape stream s hs
    have htime : s.time = d.time := by rw [Scene.time, hs.atFrame, hd, hzero, Nat.zero_add]
    have hsame : c.framesFor own = d.framesFor own := by
      rw [hd]
      rfl
    rw [htime, ← hsame]
    exact hs.runFor_start_iff own

/-- At a rate of 25 the product of the time of frame 7 and the rate is greater than 7. -/
theorem framesFor_time_seven :
    (build (.number (.whole 25)) (.number (.real 0.0)) = .ok ⟨25.0, 0.0, 0⟩ ∧
      (25.0 : Float).isFinite = true ∧ (tick^[7] ⟨25.0, 0.0, 0⟩).time.isFinite = true) ∧
    (tick^[7] ⟨25.0, 0.0, 0⟩).framesFor
      (.number (.real (tick^[7] ⟨25.0, 0.0, 0⟩).time)) = .ok 7 ∧
    (Scene.start (.group []) (.ofSeed 0) ⟨25.0, 0.0, 0⟩).runFor (.number (.real
        ((Scene.start (.group []) (.ofSeed 0) ⟨25.0, 0.0, 0⟩).ticks 7).1.time)) =
      (Scene.start (.group []) (.ofSeed 0) ⟨25.0, 0.0, 0⟩).ticks 7 := by
  have hbuild : build (.number (.whole 25)) (.number (.real 0.0)) = .ok ⟨25.0, 0.0, 0⟩ := by rfl
  have hrate : (25.0 : Float).isFinite = true := by decide +kernel
  have htime : (tick^[7] ⟨25.0, 0.0, 0⟩).time.isFinite = true := by decide +kernel
  have hreached : Scene.Reached (.group []) (.ofSeed 0) ⟨25.0, 0.0, 0⟩ 7
      ((Scene.start (.group []) (.ofSeed 0) ⟨25.0, 0.0, 0⟩).ticks 7).1 :=
    ⟨by rfl, by rfl, by rfl, by rfl⟩
  obtain ⟨hiff, -, hrun⟩ := framesFor_time_iff hbuild hrate 7 htime
  have hcount := hiff.mpr (.inl (by decide))
  exact ⟨⟨hbuild, hrate, htime⟩, hcount, (hrun _ _ _ hreached).mpr hcount⟩

/-- After three days at a rate of 75 the product is rounded upwards, the allowance is lost, and a
frame more is counted. -/
theorem framesFor_time_late :
    build (.number (.whole 75)) (.number (.real 0.0)) = .ok ⟨75.0, 0.0, 0⟩ ∧
      (75.0 : Float).isFinite = true ∧ (tick^[19660810] ⟨75.0, 0.0, 0⟩).time.isFinite = true ∧
      (tick^[19660810] ⟨75.0, 0.0, 0⟩).framesFor
        (.number (.real (tick^[19660810] ⟨75.0, 0.0, 0⟩).time)) = .ok 19660811 := by
  simp only [iterate_tick, Nat.zero_add]
  refine ⟨by rfl, by decide +kernel, by decide +kernel, by rfl⟩

end Clock
end SeededSketch
