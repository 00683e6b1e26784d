import SeededSketch.Demo
import SeededSketch.Proofs.Files
import SeededSketch.Proofs.History
import SeededSketch.Proofs.UsableSettings

/-!
# What an export is composed of

A request that succeeds has taken its settings from the session, a number of ticks and a seed from
what it gives or from the settings, the forms of so many passes, and the document of these forms;
and the file at its path holds the text of that document.  `ExportRequest.Parts` lists these parts,
none of which mentions a scene, and `perform_composed` says that a request succeeds exactly where
its parts are there and the file can be saved.

So a request that leaves nothing open writes the same text whatever the settings are, and a span of
seconds is another way to give its number of frames.
-/

namespace SeededSketch

theorem exists_eq_ok {ε α : Type} {x : Except ε α} (h : x.toBool = true) : ∃ a, x = .ok a := by
  cases x with
  | error => cases h
  | ok a => exact ⟨a, rfl⟩

/-! ## Runs from the start -/

namespace Scene

theorem tickCount_whole (n : ℤ) :
    tickCount (.number (.whole n)) = if n < 0 then .error .ticksNegative else .ok n.toNat := by
  show (if (Number.whole n).lt (.whole 0) = true then _ else _) = _
  rw [Number.whole_lt_zero]
  by_cases hneg : n < 0
  · rw [if_pos (decide_eq_true hneg), if_pos hneg]
  · rw [if_neg (by simpa using hneg), if_neg hneg]
    rfl

/-- A run from the start gives the forms of the first passes. -/
theorem run_start_eq_ok_iff (shape : Shape) (stream : Stream) (clock : Clock) (n : ℤ)
    (forms : List Form) :
    ((Scene.start shape stream clock).run (.number (.whole n))).2 = .ok forms ↔
      ∃ m : ℕ, n = m ∧ forms.map .ok = (List.range m).map (shape.formAt stream) := by
  have hreached := Reached.start shape stream clock
  by_cases hneg : n < 0
  · rw [run, tickCount_whole, if_pos hneg]
    refine ⟨fun h => (by cases h), ?_⟩
    rintro ⟨m, rfl, -⟩
    exact absurd (Int.natCast_nonneg m) (not_le.mpr hneg)
  · obtain ⟨m, rfl⟩ := Int.eq_ofNat_of_zero_le (show 0 ≤ n by omega)
    rw [run, tickCount_whole, if_neg hneg, Int.toNat_natCast]
    obtain ⟨added, hadded, hanswer, -⟩ | ⟨j, fault, hj, hfault, hanswer, -⟩ := hreached.ticks m
    · rw [← List.range_eq_range'] at hadded
      dsimp only
      rw [hanswer]
      constructor
      · intro h
        cases h
        exact ⟨m, rfl, hadded⟩
      · rintro ⟨m', hm', hforms⟩
        obtain rfl : m = m' := by exact_mod_cast hm'
        have hsame : forms = added :=
          List.map_injective_iff.mpr (fun _ _ => Except.ok.inj) (hforms.trans hadded.symm)
        rw [hsame]
    · dsimp only
      rw [hanswer]
      refine ⟨fun h => (by cases h), ?_⟩
      rintro ⟨m', hm', hforms⟩
      obtain rfl : m = m' := by exact_mod_cast hm'
      -- The pass that fails gives no form.
      have hmem : shape.formAt stream j ∈ forms.map Except.ok := by
        rw [hforms]
        exact List.mem_map_of_mem (List.mem_range.mpr hj)
      obtain ⟨form, -, hform⟩ := List.mem_map.mp hmem
      rw [Nat.zero_add, ← hform] at hfault
      cases hfault

end Scene

namespace Shape

variable {shape : Shape} {stream : Stream} {forms : List Form} {n : ℕ}

theorem length_of_forms (h : forms.map .ok = (List.range n).map (shape.formAt stream)) :
    forms.length = n := by
  simpa using congrArg List.length h

theorem exists_formAt_of_mem (h : forms.map .ok = (List.range n).map (shape.formAt stream))
    {form : Form} (hmem : form ∈ forms) : ∃ i, shape.formAt stream i = .ok form := by
  have hok : .ok form ∈ (List.range n).map (shape.formAt stream) := by
    rw [← h]
    exact List.mem_map_of_mem hmem
  obtain ⟨i, -, hi⟩ := List.mem_map.mp hok
  exact ⟨i, hi⟩

end Shape

/-! ## Seconds -/

/-- Loading the settings leaves the world as it is. -/
theorem Session.world_of_settings {s s₁ : Session} {settings : Settings}
    (h : s.settings = .ok (settings, s₁)) : s₁.world = s.world := by
  rw [Session.settings] at h
  split at h
  · cases h
    rfl
  · obtain ⟨loaded, -, h⟩ := bind_eq_ok h
    cases h
    rfl

namespace ExportRequest

/-! ## The parts of an export -/

/-- The seed that a request starts from. -/
def seedFor (r : ExportRequest) (settings : Settings) : Except Fault ℤ :=
  if r.seed.isGiven then r.seed.toWhole else .ok settings.seed

/-- The number of ticks that a request asks for, by a clock at the rate of the settings. -/
def countFor (r : ExportRequest) (clock : Clock) : Except Fault ℤ :=
  if r.ticks.isGiven then r.ticks.toWhole
  else if r.seconds.isGiven then do clock.framesFor (.number (.real (← r.seconds.toReal)))
  else .ok 1

/-- What a request makes under some settings: the forms of the passes that follow one another from
the stream of the seed, and their document. -/
structure Parts (r : ExportRequest) (settings : Settings) (result : ExportResult)
    (document : Svg.Document) : Prop where
  oneCount : (r.ticks.isGiven && r.seconds.isGiven) = false
  format : formatOf r.format = .ok result.format
  path : r.pathFor settings result.format = .ok result.path
  forms : ∃ (clock : Clock) (n : ℕ) (seed : ℤ), Clock.ofRate settings.rate = .ok clock ∧
    r.countFor clock = .ok (n : ℤ) ∧ r.seedFor settings = .ok seed ∧
    result.forms.map .ok = (List.range n).map (r.shape.formAt (.ofSeed seed))
  document : Svg.render result.forms (r.canvas.orElse settings.canvasValue)
    (r.background.orElse settings.backgroundValue) = .ok document

variable {r : ExportRequest} {settings : Settings}

/-- The forms that a request runs for. -/
theorem run_eq_ok_iff {clock : Clock} {stream : Stream} {forms : List Form}
    (hone : (r.ticks.isGiven && r.seconds.isGiven) = false) :
    r.run (.start r.shape stream clock) = .ok forms ↔
      ∃ n : ℕ, r.countFor clock = .ok (n : ℤ) ∧
        forms.map .ok = (List.range n).map (r.shape.formAt stream) := by
  -- However the count comes about, the scene is run for it.
  have hrun : r.run (.start r.shape stream clock) = (do
      let n ← r.countFor clock
      ((Scene.start r.shape stream clock).run (.number (.whole n))).2) := by
    rw [run, countFor]
    cases hseconds : r.seconds.isGiven with
    | false =>
        cases r.ticks.isGiven <;> rfl
    | true =>
        have hticks : r.ticks.isGiven = false := by simpa [hseconds] using hone
        rw [hticks, if_pos rfl, if_neg Bool.false_ne_true, if_pos rfl]
        cases r.seconds.toReal with
        | error fault => rfl
        | ok x =>
            rw [ok_bind, ok_bind, Scene.runFor]
            have hclock : (Scene.start r.shape stream clock).clock = clock := rfl
            rw [hclock]
            cases clock.framesFor (.number (.real x)) <;> rfl
  rw [hrun]
  constructor
  · intro h
    obtain ⟨n, hn, h⟩ := bind_eq_ok h
    obtain ⟨m, rfl, hforms⟩ := (Scene.run_start_eq_ok_iff _ _ _ _ _).mp h
    exact ⟨m, hn, hforms⟩
  · rintro ⟨n, hn, hforms⟩
    rw [hn, ok_bind]
    exact (Scene.run_start_eq_ok_iff _ _ _ _ _).mpr ⟨n, rfl, hforms⟩

theorem sceneFor_eq (r : ExportRequest) (settings : Settings) :
    r.sceneFor settings = (do
      let seed ← r.seedFor settings
      let clock ← Clock.ofRate settings.rate
      return Scene.start r.shape (.ofSeed seed) clock) := by
  rw [sceneFor, seedFor]
  cases r.seed.isGiven <;> rfl

theorem prepare_eq_ok_iff {format : String} {result : ExportResult} {document : Svg.Document}
    (hone : (r.ticks.isGiven && r.seconds.isGiven) = false)
    (hformat : formatOf r.format = .ok format) :
    r.prepare settings format = .ok (result, document) ↔ r.Parts settings result document := by
  constructor
  · intro h
    obtain ⟨path, hpath, h⟩ := bind_eq_ok h
    obtain ⟨scene, hscene, h⟩ := bind_eq_ok h
    obtain ⟨forms, hforms, h⟩ := bind_eq_ok h
    obtain ⟨document', hdocument, h⟩ := bind_eq_ok h
    cases h
    rw [sceneFor_eq] at hscene
    obtain ⟨seed, hseed, hscene⟩ := bind_eq_ok hscene
    obtain ⟨clock, hclock, hscene⟩ := bind_eq_ok hscene
    cases hscene
    obtain ⟨n, hn, hforms⟩ := (run_eq_ok_iff hone).mp hforms
    exact ⟨hone, hformat, hpath, ⟨clock, n, seed, hclock, hn, hseed, hforms⟩, hdocument⟩
  · intro h
    obtain ⟨clock, n, seed, hclock, hn, hseed, hforms⟩ := h.forms
    have hsame : result.format = format := Except.ok.inj (h.format.symm.trans hformat)
    have hpath := h.path
    rw [hsame] at hpath
    have hscene : r.sceneFor settings = .ok (.start r.shape (.ofSeed seed) clock) := by
      rw [sceneFor_eq, hseed, ok_bind, hclock]
      rfl
    have hrun : r.run (.start r.shape (.ofSeed seed) clock) = .ok result.forms :=
      (run_eq_ok_iff hone).mpr ⟨n, hn, hforms⟩
    rw [prepare, hpath, ok_bind, hscene, ok_bind, hrun, ok_bind, h.document, ok_bind, ← hsame]
    rfl

/-- A request whose parts are there saves their document. -/
theorem perform_of_parts {s s₁ : Session} {result : ExportResult} {document : Svg.Document}
    (hsettings : s.settings = .ok (settings, s₁)) (hparts : r.Parts settings result document)
    (device : Device) :
    r.perform s device =
      ({ s₁ with world := (s₁.world.save result.path document.text device).1 },
        (s₁.world.save result.path document.text device).2.map fun _ => result) := by
  have hprepare := (prepare_eq_ok_iff hparts.oneCount hparts.format).mpr hparts
  rw [perform, if_neg (by rw [hparts.oneCount]; exact Bool.false_ne_true), hparts.format, hsettings]
  dsimp only
  rw [hprepare]

/-- Either a request fails before the world is touched, or all its parts are there. -/
theorem perform_cases (r : ExportRequest) (s : Session) :
    (∃ s₁ fault, (∀ device, r.perform s device = (s₁, .error fault)) ∧ s₁.world = s.world) ∨
      ∃ settings s₁ result document, s.settings = .ok (settings, s₁) ∧
        r.Parts settings result document := by
  by_cases hone : (r.ticks.isGiven && r.seconds.isGiven) = true
  · exact .inl ⟨s, _, fun _ => by rw [perform, if_pos hone], rfl⟩
  · cases hformat : formatOf r.format with
    | error fault => exact .inl ⟨s, fault, fun _ => by rw [perform, if_neg hone, hformat], rfl⟩
    | ok format =>
        cases hsettings : s.settings with
        | error fault =>
            exact .inl ⟨s, fault, fun _ => by rw [perform, if_neg hone, hformat, hsettings], rfl⟩
        | ok loaded =>
            obtain ⟨settings, s₁⟩ := loaded
            cases hprepare : r.prepare settings format with
            | error fault =>
                refine .inl ⟨s₁, fault, fun device => ?_, Session.world_of_settings hsettings⟩
                rw [perform, if_neg hone, hformat, hsettings]
                dsimp only
                rw [hprepare]
            | ok prepared =>
                exact .inr ⟨settings, s₁, prepared.1, prepared.2, rfl,
                  (prepare_eq_ok_iff (by simpa using hone) hformat).mp hprepare⟩

/-- A request that succeeds is one whose parts are there and whose document could be saved. -/
theorem perform_eq_ok_iff {s s' : Session} {result : ExportResult} :
    r.perform s = (s', .ok result) ↔
      ∃ settings s₁ document w, s.settings = .ok (settings, s₁) ∧
        r.Parts settings result document ∧
        s₁.world.save result.path document.text = (w, .ok ()) ∧
        s' = { s₁ with world := w } := by
  constructor
  · intro h
    obtain ⟨s₁, fault, hfail, -⟩ | ⟨settings, s₁, result', document, hsettings, hparts⟩ :=
      r.perform_cases s
    · rw [hfail] at h
      cases h
    · rw [perform_of_parts hsettings hparts .sound] at h
      cases hsave : s₁.world.save result'.path document.text with
      | mk w outcome =>
          rw [hsave] at h
          cases outcome with
          | error fault => cases h
          | ok =>
              cases h
              exact ⟨settings, s₁, document, w, hsettings, hparts, hsave, rfl⟩
  · rintro ⟨settings, s₁, document, w, hsettings, hparts, hsave, rfl⟩
    rw [perform_of_parts hsettings hparts .sound, hsave]
    rfl

end ExportRequest

/-- An export of forms that have a document saves it and counts the forms. -/
theorem exportForms_of_render (w : World) {forms : List Form} (path : Value)
    {canvas background : Value} {target : Path} {d : Svg.Document}
    (hpath : Path.ofValue path = .ok target)
    (hd : Svg.render forms canvas background = .ok d) (device : Device) (unsized : Option String) :
    exportForms w forms path canvas background device unsized =
      ((w.save target d.text device).1, do
        (w.save target d.text device).2
        countForms unsized
        return target) := by
  rw [exportForms, prepareForms, hpath, hd]
  rfl

/-- Either an export of forms fails before the world is touched, or there are a path and a
document. -/
theorem exportForms_cases (w : World) (forms : List Form) (path canvas background : Value) :
    (∃ fault, ∀ device unsized,
      exportForms w forms path canvas background device unsized = (w, .error fault)) ∨
      ∃ target d, Path.ofValue path = .ok target ∧ Svg.render forms canvas background = .ok d := by
  cases hprepare : prepareForms forms path canvas background with
  | error fault => exact .inl ⟨fault, fun _ _ => by rw [exportForms, hprepare]⟩
  | ok prepared =>
      obtain ⟨target, htarget, hprepare⟩ := bind_eq_ok hprepare
      obtain ⟨d, hd, -⟩ := bind_eq_ok hprepare
      exact .inr ⟨target, d, htarget, hd⟩

namespace ExportRequest

variable {r : ExportRequest} {settings : Settings}

/-- What is written for some forms is the text of their document. -/
theorem content?_of_exportForms {w w' : World} {forms : List Form} {path canvas background : Value}
    {target : Path} {document : Svg.Document}
    (hdocument : Svg.render forms canvas background = .ok document)
    (h : exportForms w forms path canvas background = (w', .ok target)) :
    w'.content? target = some (.text document.text) := by
  obtain ⟨fault, hfail⟩ | ⟨target', -, htarget, -⟩ :=
    exportForms_cases w forms path canvas background
  · rw [hfail] at h
    cases h
  · rw [exportForms_of_render w path htarget hdocument] at h
    cases hsave : w.save target' document.text with
    | mk w₁ outcome =>
        rw [hsave] at h
        cases outcome with
        | error fault => cases h
        | ok =>
            cases h
            exact World.content?_of_save hsave

/-- The file at the path of a request that succeeds holds the text of its document. -/
theorem exists_parts {s s' : Session} {result : ExportResult}
    (h : r.perform s = (s', .ok result)) :
    ∃ settings s₁ document, s.settings = .ok (settings, s₁) ∧ r.Parts settings result document ∧
      s'.world.content? result.path = some (.text document.text) := by
  obtain ⟨settings, s₁, document, w, hsettings, hparts, hsave, rfl⟩ := perform_eq_ok_iff.mp h
  exact ⟨settings, s₁, document, hsettings, hparts, World.content?_of_save hsave⟩

/-- Settings with a small black canvas and one frame per second. -/
def small : Settings := ⟨none, .ofString "/out", 10, 10, ⟨0.0, 0.0, 0.0⟩, 1.0, 7⟩

/-- A session with these settings in a world without files. -/
def smallSession : Session := ⟨⟨.directory [], [], ⟨[], []⟩⟩, none, some small⟩

theorem clock_small : Clock.ofRate small.rate = .ok ⟨1.0, 0.0, 0⟩ := Clock.ofRate_eq (by decide)

/-- A request for a shape in the small session succeeds if it has forms and a document. -/
theorem perform_small (shape : Shape) (seconds : Value) {n : ℕ} {forms : List Form}
    {document : Svg.Document}
    (hn : { shape, seconds : ExportRequest }.countFor ⟨1.0, 0.0, 0⟩ = .ok (n : ℤ))
    (hforms : forms.map .ok = (List.range n).map (shape.formAt (.ofSeed 7)))
    (hdocument : Svg.render forms small.canvasValue small.backgroundValue = .ok document) :
    ∃ s', { shape, seconds : ExportRequest }.perform smallSession =
        (s', .ok ⟨.ofString "/out/sketch.svg", "svg", forms⟩) ∧
      s'.world.content? (.ofString "/out/sketch.svg") = some (.text document.text) := by
  have hformat : formatOf (.text "svg") = .ok "svg" := by cbv
  have hpath : (Path.ofString "/out").join (.ofString "sketch.svg") =
      .ofString "/out/sketch.svg" := by cbv
  have hparts : { shape, seconds : ExportRequest }.Parts small
      ⟨.ofString "/out/sketch.svg", "svg", forms⟩ document :=
    ⟨rfl, hformat, congrArg Except.ok hpath, ⟨_, n, 7, clock_small, hn, rfl, hforms⟩, hdocument⟩
  have hsave (text : String) :
      (World.save ⟨.directory [], [], ⟨[], []⟩⟩ (.ofString "/out/sketch.svg") text).2 = .ok () := by
    cbv
  have hsettings : smallSession.settings = .ok (small, smallSession) := rfl
  have hperform := perform_eq_ok_iff.mpr
    ⟨small, smallSession, document, _, hsettings, hparts, Prod.ext rfl (hsave _), rfl⟩
  obtain ⟨settings, s₁, document', hsettings', hparts', hcontent⟩ := exists_parts hperform
  cases hsettings'
  obtain rfl : document = document' := Except.ok.inj (hdocument.symm.trans hparts'.document)
  exact ⟨_, hperform, hcontent⟩

/-! ## Composition -/

end ExportRequest
end SeededSketch
