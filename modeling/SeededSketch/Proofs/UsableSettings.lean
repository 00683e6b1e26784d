import SeededSketch.Proofs.Frames
import SeededSketch.Proofs.Layers
import SeededSketch.Proofs.Remembering

/-!
# Settings that can be used

What the checks on settings are worth afterwards.  Settings that could be loaded, from whatever
files, have a canvas with positive sides, and their rate makes a clock.  For every span of seconds
that is not negative this clock tells a number of frames, as long as the product of the two is
finite.  `Settings.Usable` puts this together, and `usable_of_load` shows it of every settings that
a session answers with.

The rate itself is only refused where it is zero or less, which is not true of what is no number.
So a rate is positive exactly if it is a number, and `load_desk_notNumber` is a file whose rate is
none.
-/

namespace SeededSketch

namespace Settings

/-! ## What the checks are worth -/

theorem canvasOf_pos {v : Value} {size : Int × Int} (h : canvasOf v = .ok size) :
    1 ≤ size.1 ∧ 1 ≤ size.2 := by
  obtain ⟨v', -, h⟩ := bind_eq_ok h
  split at h
  · obtain ⟨width, -, h⟩ := bind_eq_ok h
    obtain ⟨height, -, h⟩ := bind_eq_ok h
    split at h
    · cases h
    · cases h
      dsimp only
      omega
  · cases h

theorem rateOf_not_le {v : Value} {rate : Float} (h : rateOf v = .ok rate) : ¬rate ≤ 0.0 := by
  obtain ⟨v', -, h⟩ := bind_eq_ok h
  obtain ⟨rate', -, h⟩ := bind_eq_ok h
  split at h
  · cases h
  · rename_i hrate
    cases h
    exact hrate

/-- What the settings of merged entries are read from: each from its place in the entries, or in one
of the two sections. -/
structure ReadFrom (surroundings : Surroundings) (entries paths sketch : Entries) (s : Settings) :
    Prop where
  version : checkVersion (get "version" entries) = .ok ()
  pathsFound : sectionOf "paths" entries = .ok paths
  outputDirectory :
    outputDirectoryOf surroundings (get "output_dir" paths) = .ok s.outputDirectory
  sketchFound : sectionOf "sketch" entries = .ok sketch
  canvas : canvasOf (get "canvas_size" sketch) = .ok (s.canvasWidth, s.canvasHeight)
  background : backgroundOf (get "background_color" sketch) = .ok s.background
  rate : rateOf (get "fps" sketch) = .ok s.rate
  seed : seedOf (get "seed" sketch) = .ok s.seed

theorem readFrom_of_ofEntries {surroundings : Surroundings} {source : Option Path}
    {entries : Entries} {s : Settings} (h : ofEntries surroundings source entries = .ok s) :
    s.source = source ∧ ∃ paths sketch, ReadFrom surroundings entries paths sketch s := by
  obtain ⟨⟨⟩, hversion, h⟩ := bind_eq_ok h
  obtain ⟨paths, hpaths, h⟩ := bind_eq_ok h
  obtain ⟨directory, hdirectory, h⟩ := bind_eq_ok h
  obtain ⟨sketch, hsketch, h⟩ := bind_eq_ok h
  obtain ⟨size, hsize, h⟩ := bind_eq_ok h
  obtain ⟨background, hbackground, h⟩ := bind_eq_ok h
  obtain ⟨rate, hrate, h⟩ := bind_eq_ok h
  obtain ⟨seed, hseed, h⟩ := bind_eq_ok h
  cases h
  exact ⟨rfl, paths, sketch,
    ⟨hversion, hpaths, hdirectory, hsketch, hsize, hbackground, hrate, hseed⟩⟩

/-- Loaded settings are those of some merged entries. -/
theorem exists_ofEntries_of_loadOver {base : Entries} {w : World} {explicit : Option Path}
    {s : Settings} (h : loadOver base w explicit = .ok s) :
    ∃ source entries, ofEntries w.surroundings source entries = .ok s := by
  rw [loadOver_eq_mergedOver] at h
  obtain ⟨⟨source, entries⟩, -, h⟩ := bind_eq_ok h
  exact ⟨source, entries, h⟩

/-- What settings are good for.  The seed is a whole number by its type. -/
structure Usable (s : Settings) : Prop where
  width : 1 ≤ s.canvasWidth
  height : 1 ≤ s.canvasHeight
  /-- The rate is positive, unless it is no number. -/
  rate : 0.0 < s.rate ↔ s.rate.isNaN = false
  /-- The rate makes a clock, which counts the frames of every span of seconds that is not negative
  and has a finite product with the rate. -/
  clock : ∃ c, Clock.ofRate s.rate = .ok c ∧ c.rate = s.rate ∧
    ∀ (seconds : Value) (n : Number) (x : Float), seconds.toComparable "<" = .ok n →
      n.lt (.whole 0) = false → seconds.toReal = .ok x → (x * s.rate).isFinite = true →
      ∃ k : ℤ, 0 ≤ k ∧ c.framesFor seconds = .ok k

theorem usable_of_ofEntries {surroundings : Surroundings} {source : Option Path}
    {entries : Entries} {s : Settings} (h : ofEntries surroundings source entries = .ok s) :
    s.Usable := by
  obtain ⟨-, paths, sketch, hread⟩ := readFrom_of_ofEntries h
  obtain ⟨hwidth, hheight⟩ := canvasOf_pos hread.canvas
  have hrate := rateOf_not_le hread.rate
  refine ⟨hwidth, hheight, Double.zero_lt_iff_not_le hrate, ⟨s.rate, 0.0, 0⟩,
    Clock.ofRate_eq hrate, rfl, ?_⟩
  intro seconds n x hn hlt hx hfinite
  exact Clock.framesFor_nonneg ⟨s.rate, 0.0, 0⟩ hrate hn hlt hx hfinite

theorem usable_of_loadOver {base : Entries} {w : World} {explicit : Option Path} {s : Settings}
    (h : loadOver base w explicit = .ok s) : s.Usable := by
  obtain ⟨source, entries, h⟩ := exists_ofEntries_of_loadOver h
  exact usable_of_ofEntries h

/-- Settings that are loaded can be used, whatever the three layers hold, and so can those that a
session answers with after any actions. -/
theorem usable_of_load (base : Entries) (w : World) (explicit : Option Path) :
    (∀ s, loadOver base w explicit = .ok s → s.Usable) ∧
    ∀ (actions : List Session.Action) (s : Settings),
      ((Session.performAll actions (.start w)).perform (.call .settings)).2 = .ok (.settings s) →
        s.Usable := by
  refine ⟨fun s h => usable_of_loadOver h, fun actions s h => ?_⟩
  have hremembers := (Session.Remembers.start w).performAll actions
  rw [hremembers.answer .settings, Session.Call.uncached, load_eq_loadOver] at h
  cases hsettings : loadOver packaged _ (Session.performAll actions (.start w)).explicit with
  | error fault =>
      rw [hsettings] at h
      cases h
  | ok settings =>
      rw [hsettings] at h
      cases h
      exact usable_of_loadOver hsettings

/-! ## Two rates -/

/-- The settings of the desk with a file that gives a rate. -/
theorem load_desk_rate {content : Content} {v : Value}
    (hcontent : entriesOf deskPlace.text content =
      .ok [(.text "sketch", .map [(.text "fps", v)])]) :
    loadOver packaged (desk content (.text "")) none = (rateOf v).map fun rate =>
      ⟨some deskPlace, .ofString "data/output", 500, 500, ⟨0.0, 0.0, 0.0⟩, rate, 0⟩ := by
  have hlayer : layerAt (desk content (.text "")) deskPlace =
      .ok [(.text "sketch", .map [(.text "fps", v)])] := by
    rw [layerAt, content?_desk]
    exact hcontent
  have huppers : ((none : Option Path).toList ++ (some deskPlace).toList).mapM
      (layerAt (desk content (.text ""))) =
        .ok [[(.text "sketch", .map [(.text "fps", v)])]] := by
    simp only [Option.toList_none, Option.toList_some, List.nil_append, List.mapM_cons,
      List.mapM_nil, hlayer]
    rfl
  have hplaces := candidates_of_home (home_desk content (.text ""))
  have hentries : ofEntries (desk content (.text "")).surroundings (some deskPlace)
      (stack packaged [[(.text "sketch", .map [(.text "fps", v)])]]) = (do
        let directory ← outputDirectoryOf (desk content (.text "")).surroundings
          (.text "data/output")
        let rate ← rateOf v
        return ⟨some deskPlace, directory, 500, 500, ⟨0.0, 0.0, 0.0⟩, rate, 0⟩) := rfl
  rw [loadOver_eq_stack hplaces (firstFile_desk _ _) huppers]
  refine hentries.trans ?_
  rw [outputDirectoryOf_desk, ok_bind]
  cases rateOf v <;> rfl

/-- At 24 frames per second, two seconds have a number of frames. -/
theorem usable_desk :
    let w := desk (.data (.map [(.text "sketch", .map [(.text "fps", .number (.whole 24))])]))
      (.text "")
    ∃ s, loadOver packaged w none = .ok s ∧
      ((Session.performAll [] (.start w)).perform (.call .settings)).2 = .ok (.settings s) ∧
      1 ≤ s.canvasWidth ∧ 1 ≤ s.canvasHeight ∧ 0.0 < s.rate ∧
      ∃ c k, Clock.ofRate s.rate = .ok c ∧ 0 ≤ k ∧ c.framesFor (.number (.whole 2)) = .ok k := by
  intro w
  obtain ⟨s, hload, hrate⟩ :
      ∃ s, loadOver packaged w none = .ok s ∧ s.rate = Double.ofRatio false 24 1 := by
    have hrate : rateOf (.number (.whole 24)) = .ok (Double.ofRatio false 24 1) := by rfl
    have hload : loadOver packaged w none = _ := load_desk_rate rfl
    rw [hrate] at hload
    exact ⟨_, hload, rfl⟩
  have hanswer : ((Session.performAll [] (.start w)).perform (.call .settings)).2 =
      .ok (.settings s) := by
    rw [Session.performAll, Session.perform_call_of_not_cached rfl]
    show Session.Call.uncached .settings w none = _
    rw [Session.Call.uncached, load_eq_loadOver, hload]
    rfl
  have husable := (usable_of_load packaged w none).1 s hload
  have hnumber : s.rate.isNaN = false := by
    rw [hrate]
    decide
  -- The session's settings make a clock as well as those that were loaded.
  obtain ⟨c, hc, -, hframes⟩ := ((usable_of_load packaged w none).2 [] s hanswer).clock
  have hfinite : (Double.ofRatio false 2 1 * s.rate).isFinite = true := by
    rw [hrate]
    decide
  obtain ⟨k, hk, hcount⟩ := hframes (.number (.whole 2)) (.whole 2) (Double.ofRatio false 2 1) rfl
    (by decide) (by rfl) hfinite
  exact ⟨s, hload, hanswer, husable.width, husable.height, husable.rate.mpr hnumber, c, k, hc, hk,
    hcount⟩

/-- A file with a rate that is no number is accepted. -/
theorem load_desk_notNumber :
    let w := desk (.text "sketch:\n  fps: .nan\n") (.text "")
    ∃ s, load w none = .ok s ∧ ¬0.0 < s.rate ∧
      ∃ c, Clock.ofRate s.rate = .ok c ∧ ¬0.0 < c.rate := by
  intro w
  have hread : Yaml.read "sketch:\n  fps: .nan\n" =
      some (.map [(.text "sketch", .map [(.text "fps", .number (.real Double.nan))])]) := by cbv
  have hcontent : entriesOf deskPlace.text (.text "sketch:\n  fps: .nan\n") =
      .ok [(.text "sketch", .map [(.text "fps", .number (.real Double.nan))])] := by
    simp only [entriesOf, hread]
    rfl
  have hrate : rateOf (.number (.real Double.nan)) = .ok Double.nan := by rfl
  have hnan : ¬0.0 < Double.nan := by decide
  have hload := load_desk_rate hcontent
  rw [hrate] at hload
  exact ⟨_, hload, hnan, _, Clock.ofRate_eq (by decide), hnan⟩

end Settings
end SeededSketch
