import Mathlib.Data.List.Basic
import SeededSketch.Proofs.Order
import SeededSketch.Scene

/-!
# Histories of scenes

A scene is driven by operations: single ticks, runs of several, runs over a span of seconds, and
looks at its history.  Any of them may fail, some of them half-way through.  Whatever their order,
the scene they lead to is determined by a single number, the ticks that were completed.

* `Shape.streamAt` and `Shape.formAt` follow the passes of a shape without a scene;
* `Scene.Reached` says of a scene that it is the one after `k` completed ticks, with stream, clock
  and history in step;
* `Reached.tick` is what one tick preserves, `Reached.ticks` what a run preserves; and
* `performAll_history` puts together what every sequence of operations leads to.
-/

namespace SeededSketch

/-! ## Passes one after the other -/

namespace Shape

/-- The stream before pass `i`, the first of which starts from `stream`. -/
def streamAt (shape : Shape) (stream : Stream) : Nat → Except Fault Stream
  | 0 => .ok stream
  | i + 1 => do
    let (_, next) ← shape.pass (← shape.streamAt stream i)
    return next

/-- The form of pass `i`. -/
def formAt (shape : Shape) (stream : Stream) (i : Nat) : Except Fault Form := do
  let (form, _) ← shape.pass (← shape.streamAt stream i)
  return form

end Shape

namespace Scene

/-! ## Operations -/

/-- What can be asked of a scene. -/
inductive Operation where
  | tick
  | run (n : Value)
  | runFor (seconds : Value)
  | history

/-- What a scene answers: the form of a tick, or several forms. -/
inductive Answer where
  | form (form : Form)
  | forms (forms : List Form)

/-- The scene after an operation, and the answer to it. -/
def perform (s : Scene) : Operation → Scene × Except Fault Answer
  | .tick => (s.tick.1, s.tick.2.map .form)
  | .run n => ((s.run n).1, (s.run n).2.map .forms)
  | .runFor seconds => ((s.runFor seconds).1, (s.runFor seconds).2.map .forms)
  | .history => (s, .ok (.forms s.history))

/-- The scene after some operations. -/
def performAll : List Operation → Scene → Scene
  | [], s => s
  | operation :: rest, s => performAll rest (s.perform operation).1

theorem performAll_append (operations more : List Operation) (s : Scene) :
    performAll (operations ++ more) s = performAll more (performAll operations s) := by
  induction operations generalizing s with
  | nil => rfl
  | cons operation rest ih => exact ih _

/-! ## The first tick of a run -/

theorem ticks_succ {s : Scene} {form : Form} (h : s.tick.2 = .ok form) (m : Nat) :
    s.ticks (m + 1) = ((s.tick.1.ticks m).1, (s.tick.1.ticks m).2.map (form :: ·)) := by
  have htick : s.tick = (s.tick.1, .ok form) := Prod.ext rfl h
  rw [ticks, htick]
  simp only
  cases s.tick.1.ticks m with
  | mk s₁ answer => cases answer <;> rfl

theorem ticks_of_error {s s₁ : Scene} {fault : Fault} (h : s.tick = (s₁, .error fault)) (m : Nat) :
    s.ticks (m + 1) = (s₁, .error fault) := by
  rw [ticks, h]

/-! ## Scenes after a number of ticks -/

variable {shape : Shape} {stream : Stream} {clock : Clock}

/-- The scene that was started with `shape`, `stream` and `clock`, after `k` completed ticks. -/
structure Reached (shape : Shape) (stream : Stream) (clock : Clock) (k : Nat) (s : Scene) :
    Prop where
  sameShape : s.shape = shape
  streamAt : shape.streamAt stream k = .ok s.stream
  atFrame : s.clock = { clock with frame := clock.frame + k }
  forms : s.history.map .ok = (List.range k).map (shape.formAt stream)

namespace Reached

variable {k k' : Nat} {s s' : Scene}

theorem start (shape : Shape) (stream : Stream) (clock : Clock) :
    Reached shape stream clock 0 (.start shape stream clock) :=
  ⟨rfl, rfl, rfl, rfl⟩

/-- Nothing but the number of completed ticks matters. -/
theorem unique (h : Reached shape stream clock k s) (h' : Reached shape stream clock k s') :
    s = s' := by
  have hstream : s.stream = s'.stream := Except.ok.inj (h.streamAt.symm.trans h'.streamAt)
  have hhistory : s.history = s'.history :=
    List.map_injective_iff.mpr (fun _ _ => Except.ok.inj) (h.forms.trans h'.forms.symm)
  obtain ⟨_, _, _, _⟩ := s
  obtain ⟨_, _, _, _⟩ := s'
  cases h.sameShape
  cases h'.sameShape
  cases h.atFrame
  cases h'.atFrame
  cases hstream
  cases hhistory
  rfl

/-- The history after fewer ticks is the beginning of the history after more. -/
theorem history_prefix (h : Reached shape stream clock k s) (h' : Reached shape stream clock k' s')
    (hle : k ≤ k') : s.history <+: s'.history := by
  have htake : s.history = s'.history.take k := by
    refine List.map_injective_iff.mpr (fun _ _ => @Except.ok.inj Fault Form _ _) ?_
    rw [h.forms, List.map_take, h'.forms, ← List.map_take, List.take_range, Nat.min_eq_left hle]
  rw [htake]
  exact List.take_prefix ..

/-- A tick gives the form of its pass and is then completed, or it fails with the fault of the pass
and leaves the scene as it was. -/
theorem tick (h : Reached shape stream clock k s) :
    (∃ form, shape.formAt stream k = .ok form ∧ s.tick.2 = .ok form ∧
      Reached shape stream clock (k + 1) s.tick.1) ∨
    ∃ fault, shape.formAt stream k = .error fault ∧ s.tick = (s, .error fault) := by
  have hform : shape.formAt stream k = (do let (form, _) ← s.shape.pass s.stream; return form) := by
    rw [Shape.formAt, h.streamAt, ok_bind, h.sameShape]
  cases hpass : s.shape.pass s.stream with
  | error fault =>
      rw [hpass, error_bind] at hform
      exact .inr ⟨fault, hform, by rw [Scene.tick, hpass]⟩
  | ok r =>
      obtain ⟨form, next⟩ := r
      rw [hpass] at hform
      change _ = Except.ok form at hform
      have htick : s.tick = (s.advance form next, .ok form) := by rw [Scene.tick, hpass]
      refine .inl ⟨form, hform, by rw [htick], ?_⟩
      rw [htick]
      constructor
      · exact h.sameShape
      · rw [Shape.streamAt, h.streamAt, ok_bind, ← h.sameShape, hpass]
        rfl
      · rw [advance, h.atFrame]
        rfl
      · rw [advance, List.map_append, h.forms, List.range_succ, List.map_append]
        simp [hform]

/-- A run of `m` ticks gives the forms of the next `m` passes in their order, or it fails with the
fault of one of these passes after the passes before it. -/
theorem ticks (h : Reached shape stream clock k s) (m : Nat) :
    (∃ forms, forms.map .ok = (List.range' k m).map (shape.formAt stream) ∧
      (s.ticks m).2 = .ok forms ∧ Reached shape stream clock (k + m) (s.ticks m).1) ∨
    ∃ j fault, j < m ∧ shape.formAt stream (k + j) = .error fault ∧
      (s.ticks m).2 = .error fault ∧ Reached shape stream clock (k + j) (s.ticks m).1 := by
  induction m generalizing k s with
  | zero => exact .inl ⟨[], rfl, rfl, h⟩
  | succ m ih =>
      obtain ⟨form, hform, hanswer, hreached⟩ | ⟨fault, hfault, htick⟩ := h.tick
      · -- The rest of the run goes on from pass `k + 1`.
        rw [ticks_succ hanswer]
        obtain ⟨forms, hforms, hrun, hlast⟩ | ⟨j, fault, hj, hfault, hrun, hlast⟩ := ih hreached
        · refine .inl ⟨form :: forms, ?_, by rw [hrun]; rfl, ?_⟩
          · rw [List.range'_succ, List.map_cons, List.map_cons, hforms, hform]
          · rwa [Nat.add_assoc, Nat.add_comm 1] at hlast
        · rw [Nat.add_assoc, Nat.add_comm 1] at hfault hlast
          exact .inr ⟨j + 1, fault, Nat.succ_lt_succ hj, hfault, by rw [hrun]; rfl, hlast⟩
      · rw [ticks_of_error htick]
        exact .inr ⟨0, fault, m.succ_pos, hfault, rfl, h⟩

end Reached

/-! ## The number of ticks asked for -/

/-- The integer part of a double that is not below zero is not below zero. -/
private theorem nonneg_of_truncate? {x : Float} {n : Int}
    (h : (Number.real x).lt (.whole 0) = false) (hx : Double.truncate? x = some n) : 0 ≤ n := by
  simp only [Number.lt, Number.compare?, Number.compare?.compareWhole] at h
  simp only [Double.truncate?, Double.toIntBy] at hx
  cases hread : Double.reading x with
  | nan => simp [hread] at hx
  | infinite => simp [hread] at hx
  | finite negative mantissa exponent =>
      simp only [hread, Option.some.injEq] at h hx
      cases negative with
      | false =>
          rw [← hx]
          exact Int.natCast_nonneg _
      | true =>
          -- Of the doubles with a sign only minus zero is not below zero.
          simp only [Int.zero_mul, Option.map_some, if_true] at h hx
          have hzero : (ratioOf mantissa exponent).1 = 0 := by
            by_contra hne
            have hcompare : compare 0 (-((ratioOf mantissa exponent).1 : Int)) = .gt :=
              Int.compare_eq_gt.mpr (by omega)
            simp [hcompare] at h
          rw [← hx, hzero, Nat.zero_div]
          rfl

private theorem nonneg_of_toWhole {n : Value} {x : Number} {w : Int}
    (hx : n.toComparable "<" = .ok x) (hlt : x.lt (.whole 0) = false) (hw : n.toWhole = .ok w) :
    0 ≤ w := by
  cases n with
  | bool b =>
      cases hw
      cases b <;> decide
  | number =>
      cases hx
      cases x with
      | whole m =>
          cases hw
          by_contra hneg
          have hcompare : compare w 0 = .lt := Int.compare_eq_lt.mpr (Int.not_le.mp hneg)
          simp [Number.lt, Number.compare?, hcompare] at hlt
      | real x =>
          rw [Value.toWhole, wholeBy] at hw
          cases htruncate : Double.truncate? x with
          | none =>
              rw [htruncate] at hw
              cases hw
          | some m =>
              rw [htruncate] at hw
              cases hw
              exact nonneg_of_truncate? hlt htruncate
  | _ => cases hx

/-- A value that asks for `m` ticks is the whole number `m` once its fraction is left out. -/
theorem toWhole_of_tickCount {n : Value} {m : Nat} (h : tickCount n = .ok m) :
    n.toWhole = .ok (m : Int) := by
  obtain ⟨x, hx, h⟩ := bind_eq_ok h
  cases hlt : x.lt (.whole 0) with
  | true =>
      rw [if_pos hlt] at h
      cases h
  | false =>
      rw [if_neg (by simp [hlt])] at h
      obtain ⟨w, hw, h⟩ := bind_eq_ok h
      cases h
      have hnonneg : 0 ≤ w := nonneg_of_toWhole hx hlt hw
      rw [hw, Int.toNat_of_nonneg hnonneg]

/-! ## What an operation does -/

/-- What an operation does after `k` completed ticks, where pass `i` gives `forms i`: the number of
ticks that are completed after it, and its answer. -/
inductive Effect (forms : Nat → Except Fault Form) (clock : Clock) (history : List Form) (k : Nat) :
    Operation → Nat → Except Fault Answer → Prop
  | ticked {form : Form} (h : forms k = .ok form) :
      Effect forms clock history k .tick (k + 1) (.ok (.form form))
  | tickFailed {fault : Fault} (h : forms k = .error fault) :
      Effect forms clock history k .tick k (.error fault)
  /-- A run that is asked for `m` ticks gives the next `m` forms in their order. -/
  | ran {n : Value} {m : Nat} {added : List Form} (hn : n.toWhole = .ok (m : Int))
      (h : added.map .ok = (List.range' k m).map forms) :
      Effect forms clock history k (.run n) (k + m) (.ok (.forms added))
  | runRefused {n : Value} {fault : Fault} (h : tickCount n = .error fault) :
      Effect forms clock history k (.run n) k (.error fault)
  /-- A run that fails keeps the ticks before the one that failed. -/
  | runFailed {n : Value} {m j : Nat} {fault : Fault} (hn : n.toWhole = .ok (m : Int)) (hj : j < m)
      (h : forms (k + j) = .error fault) :
      Effect forms clock history k (.run n) (k + j) (.error fault)
  | ranFor {seconds : Value} {count : Int} {k' : Nat} {answer : Except Fault Answer}
      (h : clock.framesFor seconds = .ok count)
      (hrun : Effect forms clock history k (.run (.number (.whole count))) k' answer) :
      Effect forms clock history k (.runFor seconds) k' answer
  | runForRefused {seconds : Value} {fault : Fault} (h : clock.framesFor seconds = .error fault) :
      Effect forms clock history k (.runFor seconds) k (.error fault)
  | read : Effect forms clock history k .history k (.ok (.forms history))

namespace Reached

variable {k : Nat} {s : Scene}

theorem run (h : Reached shape stream clock k s) (n : Value) :
    ∃ k', k ≤ k' ∧ Effect (shape.formAt stream) clock s.history k (.run n) k'
      (s.perform (.run n)).2 ∧ Reached shape stream clock k' (s.perform (.run n)).1 := by
  cases hn : tickCount n with
  | error fault =>
      have hrun : s.perform (.run n) = (s, .error fault) := by
        rw [Scene.perform, Scene.run, hn]
        rfl
      rw [hrun]
      exact ⟨k, Nat.le_refl k, .runRefused hn, h⟩
  | ok m =>
      have hrun : s.perform (.run n) = ((s.ticks m).1, (s.ticks m).2.map .forms) := by
        rw [Scene.perform, Scene.run, hn]
      have hm := toWhole_of_tickCount hn
      rw [hrun]
      obtain ⟨added, hadded, hanswer, hlast⟩ | ⟨j, fault, hj, hfault, hanswer, hlast⟩ := h.ticks m
      · rw [hanswer]
        exact ⟨k + m, Nat.le_add_right k m, .ran hm hadded, hlast⟩
      · rw [hanswer]
        exact ⟨k + j, Nat.le_add_right k j, .runFailed hm hj hfault, hlast⟩

/-- An operation goes on from the last tick completed and stops at one: no operation leaves a tick
half done. -/
theorem perform (h : Reached shape stream clock k s) (operation : Operation) :
    ∃ k', k ≤ k' ∧ Effect (shape.formAt stream) clock s.history k operation k'
      (s.perform operation).2 ∧ Reached shape stream clock k' (s.perform operation).1 := by
  cases operation with
  | tick =>
      obtain ⟨form, hform, hanswer, hnext⟩ | ⟨fault, hfault, htick⟩ := h.tick
      · refine ⟨k + 1, Nat.le_succ k, ?_, hnext⟩
        rw [Scene.perform, hanswer]
        exact .ticked hform
      · rw [Scene.perform, htick]
        exact ⟨k, Nat.le_refl k, .tickFailed hfault, h⟩
  | run n => exact h.run n
  | runFor seconds =>
      have hframes : s.clock.framesFor seconds = clock.framesFor seconds := by
        rw [h.atFrame]
        rfl
      cases hcount : clock.framesFor seconds with
      | error fault =>
          rw [Scene.perform, Scene.runFor, hframes, hcount]
          exact ⟨k, Nat.le_refl k, .runForRefused hcount, h⟩
      | ok count =>
          obtain ⟨k', hle, heffect, hnext⟩ := h.run (.number (.whole count))
          rw [Scene.perform, Scene.runFor, hframes, hcount]
          exact ⟨k', hle, .ranFor hcount heffect, hnext⟩
  | history => exact ⟨k, Nat.le_refl k, .read, h⟩

theorem performAll (h : Reached shape stream clock k s) (operations : List Operation) :
    ∃ k', k ≤ k' ∧ Reached shape stream clock k' (performAll operations s) := by
  induction operations generalizing k s with
  | nil => exact ⟨k, Nat.le_refl k, h⟩
  | cons operation rest ih =>
      obtain ⟨k₁, hle₁, -, hnext⟩ := h.perform operation
      obtain ⟨k₂, hle₂, hlast⟩ := ih hnext
      exact ⟨k₂, Nat.le_trans hle₁ hle₂, hlast⟩

end Reached

/-- After any operations a scene is the one after some number `k` of completed ticks, and with it
the only one to which operations with that number of ticks lead.  Its history is the beginning of
every later one, and the next operation, whether it fails or not, has its effect at `k`. -/
theorem performAll_history (shape : Shape) (stream : Stream) (clock : Clock)
    (operations : List Operation) :
    let s₀ := Scene.start shape stream clock
    let s := performAll operations s₀
    ∃ k, Reached shape stream clock k s ∧
      (∀ others, Reached shape stream clock k (performAll others s₀) →
        performAll others s₀ = s) ∧
      (∀ more, s.history <+: (performAll (operations ++ more) s₀).history) ∧
      ∀ operation, ∃ k', k ≤ k' ∧
        Effect (shape.formAt stream) clock s.history k operation k' (s.perform operation).2 ∧
        Reached shape stream clock k' (s.perform operation).1 := by
  intro s₀ s
  obtain ⟨k, -, hk⟩ := (Reached.start shape stream clock).performAll operations
  refine ⟨k, hk, fun others hothers => hothers.unique hk, fun more => ?_, hk.perform⟩
  obtain ⟨k', hle, hk'⟩ := hk.performAll more
  rw [performAll_append]
  exact hk.history_prefix hk' hle

end Scene
end SeededSketch
