import SeededSketch.Proofs.Order
import SeededSketch.Settings

/-!
# What a session remembers

A session is asked for its settings again and again, while a settings file is named or unnamed and
the world around it changes: its files, its working directory, its variables.  Which settings the
session answers with is told here from the outside, by the log of what happened, without a look at
what the session keeps.

`firstLoad` finds in a log the first call that was answered with settings since a file was named
last.  From then on every call is answered as settings loaded in the world of that call would be;
before it, as settings loaded now would be, also if that is a fault.  `Remembers` is the
invariant behind this, `Remembers.perform` what one action preserves and `Remembers.performAll`
what any number of them preserves.
-/

namespace SeededSketch.Session

/-! ## Actions and their log -/

/-- The two questions that are answered from the settings. -/
inductive Call where
  | settings
  | outputDirectory

/-- What can happen to a session: the world around it becomes another one, a settings file is named
or unnamed, or one of the two questions is asked. -/
inductive Action where
  | change (world : World)
  | name (path : Value)
  | call (call : Call)

/-- What an action is answered with. -/
inductive Answer where
  | done
  | settings (settings : Settings)
  | directory (path : Path)

/-- The answer to a call where the settings are known. -/
def Call.answer : Call → Settings → Answer
  | settings, known => .settings known
  | outputDirectory, known => .directory known.outputDirectory

/-- The answer to a call where nothing is remembered. -/
def Call.uncached (call : Call) (w : World) (explicit : Option Path) : Except Fault Answer :=
  (Settings.load w explicit).map call.answer

/-- The session after a step that gives a new one with an answer, or fails. -/
def after (s : Session) (step : Except Fault (Answer × Session)) : Session × Except Fault Answer :=
  match step with
  | .ok (answer, s₁) => (s₁, .ok answer)
  | .error fault => (s, .error fault)

/-- The session after an action, and the answer to it. -/
def perform (s : Session) : Action → Session × Except Fault Answer
  | .change world => ({ s with world }, .ok .done)
  | .name path => s.after do return (.done, ← s.nameSettings path)
  | .call .settings => s.after do
    let (settings, s₁) ← s.settings
    return (.settings settings, s₁)
  | .call .outputDirectory => s.after do
    let (path, s₁) ← s.outputDirectory
    return (.directory path, s₁)

/-- The session after some actions. -/
def performAll : List Action → Session → Session
  | [], s => s
  | action :: rest, s => performAll rest (s.perform action).1

/-- An action in a log: the world in which it happened, and its answer. -/
structure Event where
  world : World
  action : Action
  answer : Except Fault Answer

/-- The log of some actions, the last first. -/
def log : List Action → Session → List Event
  | [], _ => []
  | action :: rest, s =>
    log rest (s.perform action).1 ++ [⟨s.world, action, (s.perform action).2⟩]

namespace Event

/-- The file that an event names, which is none where a file is unnamed. An event that fails, or
does something else, names nothing. -/
def named? (e : Event) : Option (Option Path) :=
  match e.action, e.answer with
  | .name .null, .ok _ => some none
  | .name path, .ok _ =>
    some (Settings.namedPath e.world.surroundings path).toOption
  | _, _ => none

/-- Whether an event is a call that was answered with settings. -/
def isLoad (e : Event) : Bool :=
  match e.action, e.answer with
  | .call _, .ok _ => true
  | _, _ => false

end Event

/-- The file that was named last. -/
def explicitBy : List Event → Option Path
  | [] => none
  | e :: earlier => e.named?.getD (explicitBy earlier)

/-- The first call that was answered with settings since a file was named or unnamed last. -/
def firstLoad : List Event → Option Event
  | [] => none
  | e :: earlier =>
    if e.named?.isSome then none
    else (firstLoad earlier).or (if e.isLoad then some e else none)

/-! ## Single actions -/

variable (s : Session)

theorem perform_call (call : Call) :
    s.perform (.call call) = s.after do
      let (settings, s₁) ← s.settings
      return (call.answer settings, s₁) := by
  cases call with
  | settings => rfl
  | outputDirectory =>
      rw [perform, outputDirectory, bind_assoc]
      rfl

variable {s}

/-- A session that has its settings answers from them and stays as it is. -/
theorem perform_call_of_cached {settings : Settings} (h : s.cached = some settings) (call : Call) :
    s.perform (.call call) = (s, .ok (call.answer settings)) := by
  have hsettings : s.settings = .ok (settings, s) := by rw [Session.settings, h]
  rw [perform_call, hsettings]
  rfl

/-- A session that has no settings answers as if it would remember nothing, and has them afterwards
if they could be loaded. -/
theorem perform_call_of_not_cached (h : s.cached = none) (call : Call) :
    s.perform (.call call) =
      ({ s with cached := (Settings.load s.world s.explicit).toOption },
        call.uncached s.world s.explicit) := by
  rw [perform_call, Session.settings, h, Call.uncached]
  cases Settings.load s.world s.explicit with
  | error fault =>
      have hsame : { s with cached := none } = s := by rw [← h]
      show (s, _) = ({ s with cached := none }, _)
      rw [hsame]
      rfl
  | ok settings => rfl

/-- Naming a file, if it succeeds, leaves no settings. -/
theorem nameSettings_eq_ok {path : Value} {s₁ : Session} (h : s.nameSettings path = .ok s₁) :
    s₁.world = s.world ∧ s₁.cached = none ∧
      some s₁.explicit = Event.named? ⟨s.world, .name path, .ok .done⟩ := by
  cases path with
  | null =>
      cases h
      exact ⟨rfl, rfl, rfl⟩
  | _ =>
      obtain ⟨named, hnamed, h⟩ := bind_eq_ok h
      cases h
      refine ⟨rfl, rfl, ?_⟩
      simp only [Event.named?, hnamed]
      rfl

theorem perform_name (s : Session) (path : Value) :
    (∃ s₁, s.nameSettings path = .ok s₁ ∧ s.perform (.name path) = (s₁, .ok .done)) ∨
      ∃ fault, s.nameSettings path = .error fault ∧ s.perform (.name path) = (s, .error fault) := by
  cases h : s.nameSettings path with
  | ok s₁ => exact .inl ⟨s₁, rfl, by rw [perform, h]; rfl⟩
  | error fault => exact .inr ⟨fault, rfl, by rw [perform, h]; rfl⟩

/-! ## The invariant -/

/-- The session keeps what its log says: the file that was named last, and the settings as they
were loaded at the first call that was answered with settings since then. -/
structure Remembers (events : List Event) (s : Session) : Prop where
  explicit : s.explicit = explicitBy events
  cached : match firstLoad events with
    | none => s.cached = none
    | some e => ∃ settings, Settings.load e.world s.explicit = .ok settings ∧
        s.cached = some settings

namespace Remembers

variable {events : List Event}

theorem start (w : World) : Remembers [] (start w) := ⟨rfl, rfl⟩

/-- The invariant after an event that names no file and is no call with an answer. -/
theorem keep (h : Remembers events s) {e : Event} (hnamed : e.named? = none)
    (hload : e.isLoad = false) : Remembers (e :: events) s := by
  have hfirst : firstLoad (e :: events) = firstLoad events := by
    rw [firstLoad, hnamed, hload]
    exact Option.or_none
  constructor
  · rw [explicitBy, hnamed]
    exact h.explicit
  · rw [hfirst]
    exact h.cached

theorem name (h : Remembers events s) (path : Value) :
    Remembers (⟨s.world, .name path, (s.perform (.name path)).2⟩ :: events)
      (s.perform (.name path)).1 := by
  obtain ⟨s₁, hs₁, hperform⟩ | ⟨fault, -, hperform⟩ := s.perform_name path
  · rw [hperform]
    obtain ⟨-, hcached, hexplicit⟩ := nameSettings_eq_ok hs₁
    constructor
    · rw [explicitBy, ← hexplicit]
      rfl
    · rw [firstLoad, ← hexplicit]
      exact hcached
  · rw [hperform]
    refine h.keep ?_ rfl
    cases path <;> rfl

theorem call (h : Remembers events s) (call : Call) :
    Remembers (⟨s.world, .call call, (s.perform (.call call)).2⟩ :: events)
      (s.perform (.call call)).1 := by
  have hcached := h.cached
  cases hfirst : firstLoad events with
  | some e =>
      -- The settings are there, so this call adds nothing.
      rw [hfirst] at hcached
      obtain ⟨settings, hload, hsettings⟩ := hcached
      rw [perform_call_of_cached hsettings]
      refine ⟨h.explicit, ?_⟩
      rw [firstLoad, hfirst]
      exact ⟨settings, hload, hsettings⟩
  | none =>
      rw [hfirst] at hcached
      rw [perform_call_of_not_cached hcached, Call.uncached]
      refine ⟨h.explicit, ?_⟩
      rw [firstLoad, hfirst]
      cases hload : Settings.load s.world s.explicit with
      | error fault => rfl
      | ok settings => exact ⟨settings, hload, rfl⟩

/-- What one action preserves. -/
theorem perform (h : Remembers events s) (action : Action) :
    Remembers (⟨s.world, action, (s.perform action).2⟩ :: events) (s.perform action).1 := by
  cases action with
  | change world =>
      have hchanged : Remembers events { s with world } := ⟨h.explicit, h.cached⟩
      exact hchanged.keep rfl rfl
  | name path => exact h.name path
  | call call => exact h.call call

/-- What any actions preserve. -/
theorem performAll (h : Remembers events s) (actions : List Action) :
    Remembers (log actions s ++ events) (performAll actions s) := by
  induction actions generalizing s events with
  | nil => exact h
  | cons action rest ih =>
      rw [log, List.append_assoc]
      exact ih (h.perform action)

/-- The answer to a call is that of settings loaded in the world of the first call that was answered
with settings, or in the present one if there was none. -/
theorem answer (h : Remembers events s) (call : Call) :
    (s.perform (.call call)).2 =
      call.uncached ((firstLoad events).elim s.world Event.world) s.explicit := by
  have hcached := h.cached
  cases hfirst : firstLoad events with
  | some e =>
      rw [hfirst] at hcached
      obtain ⟨settings, hload, hsettings⟩ := hcached
      rw [perform_call_of_cached hsettings, Call.uncached, Option.elim, hload]
      rfl
  | none =>
      rw [hfirst] at hcached
      rw [perform_call_of_not_cached hcached]
      rfl

end Remembers

/-- A call can only fail where no settings are remembered, and then it changes nothing. -/
theorem perform_call_eq_error {call : Call} {fault : Fault}
    (h : (s.perform (.call call)).2 = .error fault) :
    s.cached = none ∧ (s.perform (.call call)).1 = s := by
  cases hcached : s.cached with
  | some settings =>
      rw [perform_call_of_cached hcached] at h
      cases h
  | none =>
      rw [perform_call_of_not_cached hcached, Call.uncached] at h
      rw [perform_call_of_not_cached hcached]
      cases hload : Settings.load s.world s.explicit with
      | ok settings =>
          rw [hload] at h
          cases h
      | error fault =>
          refine ⟨rfl, ?_⟩
          show { s with cached := none } = s
          rw [← hcached]

/-- After a call that failed, the next one succeeds as soon as the settings can be loaded. -/
theorem perform_call_repaired {call : Call} {fault : Fault}
    (h : (s.perform (.call call)).2 = .error fault) {w : World} {settings : Settings}
    (hload : Settings.load w s.explicit = .ok settings) (next : Call) :
    ((performAll [.call call, .change w] s).perform (.call next)).2 =
      .ok (next.answer settings) := by
  obtain ⟨hcached, hsame⟩ := perform_call_eq_error h
  have hchanged : performAll [.call call, .change w] s = { s with world := w } := by
    show { (s.perform (.call call)).1 with world := w } = _
    rw [hsame]
  have hempty : { s with world := w }.cached = none := hcached
  rw [hchanged, perform_call_of_not_cached hempty, Call.uncached, hload]
  rfl

/-- After any actions, a session answers a call as settings would that are loaded in the world of
the first call with an answer since a file was named or unnamed last, and such settings could be
loaded then; as long as there is no such call, it answers as settings would that are loaded now,
also with the fault that they fail with.  A call that fails leaves no settings and changes nothing,
so that the next one succeeds in any world in which the settings can be loaded.  Naming a file
forgets the settings, or it fails and changes nothing. -/
theorem performAll_answers (w : World) (actions : List Action) :
    let s := performAll actions (start w)
    let events := log actions (start w)
    s.explicit = explicitBy events ∧
      (∀ call, (s.perform (.call call)).2 =
        call.uncached ((firstLoad events).elim s.world Event.world) s.explicit) ∧
      (∀ e, firstLoad events = some e →
        ∃ settings, Settings.load e.world s.explicit = .ok settings) ∧
      (∀ call fault, (s.perform (.call call)).2 = .error fault →
        s.cached = none ∧ (s.perform (.call call)).1 = s ∧
          ∀ w' settings next, Settings.load w' s.explicit = .ok settings →
            ((performAll [.call call, .change w'] s).perform (.call next)).2 =
              .ok (next.answer settings)) ∧
      ∀ path, ((s.perform (.name path)).2 = .ok .done ∧
          (s.perform (.name path)).1.cached = none) ∨
        ∃ fault, s.perform (.name path) = (s, .error fault) := by
  intro s events
  have hremembers : Remembers events s := by
    have h := (Remembers.start w).performAll actions
    rwa [List.append_nil] at h
  refine ⟨hremembers.explicit, hremembers.answer, fun e he => ?_, fun call fault h => ?_,
    fun path => ?_⟩
  · have hcached := hremembers.cached
    rw [he] at hcached
    obtain ⟨settings, hload, -⟩ := hcached
    exact ⟨settings, hload⟩
  · obtain ⟨hcached, hsame⟩ := perform_call_eq_error h
    exact ⟨hcached, hsame, fun w' settings next hload => perform_call_repaired h hload next⟩
  · obtain ⟨s₁, hs₁, hperform⟩ | ⟨fault, -, hperform⟩ := s.perform_name path
    · rw [hperform]
      exact .inl ⟨rfl, (nameSettings_eq_ok hs₁).2.1⟩
    · exact .inr ⟨fault, hperform⟩

end SeededSketch.Session
