import SeededSketch.Proofs.Completion
import SeededSketch.Proofs.Seeds

/-!
# When a sketch comes back

A scene hands nothing but its stream from one tick to the next.  If the stream is the first one
again, so is all that follows.  Three facts together say when this happens:

* a pass that is completed has drawn exactly as often as the shape says, whatever it has drawn and
  whether or not its functions have an outcome for every double (`Built.takes_pass`);
* hence the stream after `n` ticks is the first one, `2 * (n * shape.draws ∅)` steps further on
  (`stream_of_streamAt`); and
* the generator has full period.

`reached_first_stream_iff` puts them together.
-/

namespace SeededSketch

namespace Stream

/-- A draw that gives a number has made two steps, whatever it has drawn between. -/
theorem eq_of_draw {s t : Stream} {lo hi : Value} {x : Float} (h : s.draw lo hi = .ok (x, t)) :
    t = s.next.next := by
  obtain ⟨fraction, -, h⟩ := bind_eq_ok h
  obtain ⟨upper, -, h⟩ := bind_eq_ok h
  obtain ⟨lower, -, h⟩ := bind_eq_ok h
  cases h
  rfl

end Stream

/-! ## What completed runs have drawn -/

namespace Observed

variable {α β : Type} {run : Observed (α × Context)} {c : Context} {k k' : ℕ}
  {names names' : Finset String}

/-- If the run is completed, it has drawn exactly `k` times from the context `c` and has left
exactly `names` recorded. -/
def Takes (run : Observed (α × Context)) (c : Context) (k : ℕ) (names : Finset String) : Prop :=
  ∀ a c₁, run.outcome = .ok (a, c₁) →
    run.drawCount = k ∧ c₁.stream = Stream.next^[2 * k] c.stream ∧ c₁.memo.names = names

theorem Takes.bind (h : run.Takes c k names) {f : α × Context → Observed (β × Context)}
    (hf : ∀ a c₁, run.outcome = .ok (a, c₁) → c₁.memo.names = names →
      (f (a, c₁)).Takes c₁ k' names') :
    (run >>= f).Takes c (k + k') names' := by
  intro b c₂ hb
  rw [outcome_bind] at hb
  obtain ⟨⟨a, c₁⟩, ha, hb⟩ := bind_eq_ok hb
  obtain ⟨hcount, hstream, hnames⟩ := h a c₁ ha
  obtain ⟨hcount', hstream', hnames'⟩ := hf a c₁ ha hnames b c₂ hb
  refine ⟨?_, ?_, hnames'⟩
  · rw [drawCount, events_bind_ok ha, List.countP_append]
    exact congrArg₂ (· + ·) hcount hcount'
  · rw [hstream', hstream, ← Function.iterate_add_apply, Nat.mul_add, Nat.add_comm]

/-- A second run without draws costs nothing more. -/
theorem Takes.bind_quiet (h : run.Takes c k names) {f : α × Context → Observed (β × Context)}
    (hf : ∀ a c₁, run.outcome = .ok (a, c₁) → c₁.memo.names = names →
      (f (a, c₁)).Takes c₁ 0 names') :
    (run >>= f).Takes c k names' := by
  have hsum : (run >>= f).Takes c (k + 0) names' := h.bind hf
  exact hsum

theorem takes_pure (b : β) (c : Context) :
    (pure (b, c) : Observed (β × Context)).Takes c 0 c.memo.names := by
  rintro _ _ ⟨⟩
  exact ⟨rfl, rfl, rfl⟩

/-- What is only computed costs no draw. -/
theorem takes_compute {γ : Type} (o : Except Fault γ) (g : γ → β) (c : Context) :
    (silent o >>= fun x => pure (g x, c)).Takes c 0 c.memo.names := by
  intro b c₁ h
  rw [outcome_bind, outcome_silent] at h
  obtain ⟨x, rfl, h⟩ := bind_eq_ok h
  cases h
  exact ⟨rfl, rfl, rfl⟩

end Observed

namespace Expr

open Observed

/-- The evaluation of a built expression takes what the expression says, if it is completed.  Here
the functions may fail: a value that they give has no part in it. -/
theorem Built.observe_takes {e : Expr} (he : e.Built) {c : Context} (hc : c.memo.IsReal) :
    (e.observe c).Takes c (e.draws c.memo.names) (e.namesAfter c.memo.names) := by
  induction he generalizing c with
  | constant x => exact takes_pure _ c
  | random lo hi =>
      intro a c₁ h
      rw [observe, outcome_bind, outcome_silent] at h
      obtain ⟨⟨x, stream⟩, hx, h⟩ := bind_eq_ok h
      cases h
      refine ⟨?_, Stream.eq_of_draw hx, rfl⟩
      rw [drawCount, observe, events_bind_ok (by rw [outcome_silent, hx])]
      rfl
  | @named name inner h ih =>
      by_cases hname : name ∈ c.memo.names
      · cases hfind : c.memo.find? name with
        | none => exact absurd hname ((hc.find?_eq_none_iff name).mp hfind)
        | some value =>
            rw [observe_named_found hfind, draws, namesAfter, if_pos hname, if_pos hname]
            rintro _ _ ⟨⟩
            exact ⟨rfl, rfl, rfl⟩
      · rw [observe_named_missing ((hc.find?_eq_none_iff name).mpr hname), draws, namesAfter,
          if_neg hname, if_neg hname]
        refine (ih hc).bind_quiet fun value c₁ _ hnames b c₂ hb => ?_
        rw [outcome_bind, outcome_silent] at hb
        obtain ⟨x, hx, hb⟩ := bind_eq_ok hb
        cases hb
        refine ⟨?_, rfl, ?_⟩
        · rw [drawCount, events_bind_ok (by rw [outcome_silent, hx])]
          rfl
        · rw [Context.memo_record, Memo.names_record, hnames]
  | calculated f _ ih =>
      rw [draws, namesAfter]
      refine (ih hc).bind_quiet fun value c₁ _ hnames => ?_
      rw [← hnames]
      exact takes_compute _ _ _
  | combined f _ _ ihl ihr =>
      rw [draws, namesAfter]
      refine (ihl hc).bind fun a c₁ ha hnames => ?_
      rw [outcome_observe] at ha
      rw [← hnames]
      refine (ihr (isReal_of_evaluate _ hc ha).2).bind_quiet fun b c₂ _ hnames' => ?_
      rw [← hnames']
      exact takes_compute _ _ _

theorem observeEach_takes {es : List Expr} (hes : ∀ e ∈ es, e.Built) {c : Context}
    (hc : c.memo.IsReal) :
    (observeEach es c).Takes c (drawsEach es c.memo.names) (namesAfterEach es c.memo.names) := by
  induction es generalizing c with
  | nil => exact takes_pure _ c
  | cons e rest ih =>
      rw [List.forall_mem_cons] at hes
      rw [drawsEach, namesAfterEach]
      refine (hes.1.observe_takes hc).bind fun value c₁ hvalue hnames => ?_
      rw [outcome_observe] at hvalue
      rw [← hnames]
      refine (ih hes.2 (isReal_of_evaluate e hc hvalue).2).bind_quiet fun values c₂ _ hnames' => ?_
      rw [← hnames']
      exact takes_pure _ _

end Expr

namespace Shape

variable {shape : Shape} {stream next : Stream} {form : Form}

/-- A pass of a built shape that is completed has drawn as often as the shape says, and every draw
was two steps of the stream. -/
theorem Built.takes_pass (hs : shape.Built) (h : shape.pass stream = .ok (form, next)) :
    (shape.observe (.fresh stream)).drawCount = shape.draws ∅ ∧
      next = Stream.next^[2 * shape.draws ∅] stream := by
  obtain ⟨⟨form', c⟩, hevaluate, h⟩ := bind_eq_ok h
  cases h
  have hmemo : (Context.fresh stream).memo.IsReal := Memo.isReal_empty
  cases hs.plain.followsPositions hmemo with
  | fails fault _ hshape =>
      rw [hevaluate] at hshape
      cases hshape
  | gives values form' c₁ _ hp _ hshape =>
      rw [hevaluate] at hshape
      cases hshape
      obtain ⟨hcount, hstream, -⟩ :=
        Expr.observeEach_takes hs.of_mem_positions hmemo values c
          ((Expr.outcome_observeEach ..).trans hp)
      refine ⟨?_, hstream⟩
      rw [Observed.drawCount, events_observe]
      exact hcount

/-- Before pass `i` the stream has made two steps for every draw of the passes before it. -/
theorem Built.stream_of_streamAt (hs : shape.Built) {i : ℕ}
    (h : shape.streamAt stream i = .ok next) :
    next = Stream.next^[2 * (i * shape.draws ∅)] stream := by
  induction i generalizing next with
  | zero =>
      cases h
      simp
  | succ i ih =>
      obtain ⟨before, hbefore, h⟩ := bind_eq_ok h
      obtain ⟨⟨form, after⟩, hpass, h⟩ := bind_eq_ok h
      cases h
      rw [(hs.takes_pass hpass).2, ih hbefore, ← Function.iterate_add_apply]
      congr 1
      ring

end Shape

namespace Scene

variable {shape : Shape} {clock : Clock} {seed : ℤ} {n : ℕ} {s : Scene}

theorem Reached.stream_eq_iff (h : Reached shape (.ofSeed seed) clock n s) (hs : shape.Built) :
    s.stream = .ofSeed seed ↔ 2 ^ 31 ∣ n * shape.draws ∅ := by
  have hperiod := Stream.iterate_next_eq_self_iff (Stream.isWord_ofSeed seed)
    (Stream.increment_ofSeed seed ▸ Stream.odd_defaultIncrement) (2 * (n * shape.draws ∅))
  rw [hs.stream_of_streamAt h.streamAt, hperiod, show 2 ^ 32 = 2 * 2 ^ 31 by rfl]
  exact Nat.mul_dvd_mul_iff_left two_pos

/-- With functions that are total on doubles every number of ticks is completed. -/
theorem reached_ticks (hs : shape.Built) (ht : shape.Total) (seed : ℤ) (clock : Clock) (n : ℕ) :
    Reached shape (.ofSeed seed) clock n ((start shape (.ofSeed seed) clock).ticks n).1 := by
  obtain ⟨-, -, -, hreached⟩ | ⟨j, fault, -, hfault, -⟩ := (Reached.start shape _ clock).ticks n
  · rwa [Nat.zero_add] at hreached
  · obtain ⟨form, hform⟩ := hs.exists_formAt ht (Stream.ready_next _) (0 + j)
    rw [Stream.ofSeed, hform] at hfault
    cases hfault

/-- When a scene that was started from a seed comes back to its first stream.  Every pass that is
completed makes the same number `D` of draws, which is read off the shape.  After `n` ticks, however
they were asked for, the stream is the first one exactly if `2 ^ 31` divides `n * D`, and so not
before `2 ^ 31 / gcd D (2 ^ 31)` ticks.  All ticks are completed if the functions of the shape are
total on doubles. -/
theorem reached_first_stream_iff (shape : Shape) (hs : shape.Built) (seed : ℤ) (clock : Clock) :
    let D := shape.draws ∅
    (∀ stream form next, shape.pass stream = .ok (form, next) →
      (shape.observe (.fresh stream)).drawCount = D) ∧
    (∀ n s, Reached shape (.ofSeed seed) clock n s →
      (s.stream = .ofSeed seed ↔ 2 ^ 31 ∣ n * D) ∧
        (s.stream = .ofSeed seed → 0 < n → 2 ^ 31 / Nat.gcd D (2 ^ 31) ≤ n)) ∧
    (shape.Total → ∀ n,
      Reached shape (.ofSeed seed) clock n ((start shape (.ofSeed seed) clock).ticks n).1) := by
  intro D
  refine ⟨fun stream form next h => (hs.takes_pass h).1, fun n s h => ?_,
    fun ht n => reached_ticks hs ht seed clock n⟩
  refine ⟨h.stream_eq_iff hs, fun hstream hpos => Nat.le_of_dvd hpos ?_⟩
  have hdvd : 2 ^ 31 ∣ Nat.gcd D (2 ^ 31) * n := by
    rw [Nat.mul_comm, Nat.gcd_comm]
    exact dvd_mul_gcd_of_dvd_mul ((h.stream_eq_iff hs).mp hstream)
  have hgcd : 0 < Nat.gcd D (2 ^ 31) := Nat.gcd_pos_of_pos_right _ (by decide)
  exact (Nat.div_dvd_iff_dvd_mul (Nat.gcd_dvd_right ..) hgcd).mpr hdvd

/-- The first sketch draws seven times in a pass, which is odd, so it goes through half the period
of the generator. -/
theorem reached_first_stream_demo :
    Demo.sketch.Built ∧ Demo.sketch.draws ∅ = 7 ∧ ∀ n,
      ((start Demo.sketch (.ofSeed 7) ⟨1.0, 0.0, 0⟩).ticks n).1.stream = .ofSeed 7 ↔
        2 ^ 31 ∣ n := by
  have hdraws : Demo.sketch.draws ∅ = 7 := by decide
  obtain ⟨-, hback, hticks⟩ :=
    reached_first_stream_iff Demo.sketch Demo.sketch_built 7 ⟨1.0, 0.0, 0⟩
  refine ⟨Demo.sketch_built, hdraws, fun n => ?_⟩
  have hcoprime : Nat.Coprime (2 ^ 31) 7 := by decide
  rw [(hback n _ (hticks Demo.sketch_total n)).1, hdraws, hcoprime.dvd_mul_right]

end Scene
end SeededSketch
