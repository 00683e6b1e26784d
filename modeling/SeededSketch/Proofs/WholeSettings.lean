import SeededSketch.Proofs.UsableSettings

/-!
# Settings that are integers

The version, the sides of the canvas and the seed are asked for as integers, and what a file
supplies is converted: a truth value counts as one or zero, a real loses its fraction, and a text or
bytes are read as a numeral (`Value.CountsAs`).  The sides are the items of whatever has two items
to walk through, and the seed alone is not allowed to be a truth value.

So settings that could be loaded come from supplied values that count as the integers that are used
(`Converted`).  They are the integers that were supplied, none of them changed on the way
(`TakenAsGiven`), exactly where nothing but integers and texts was supplied, the sides in a list.
`fromSupplied_of_load` says this of all files and of every answer of a session, and
`load_desk_fraction` is a file whose seed loses its fraction without a fault.
-/

namespace SeededSketch

/-! ## Values that count as integers -/

namespace Value

variable {v : Value} {n : ℤ}

/-- The value is the integer `n`, or a text of it. -/
inductive IsWholeNumber (n : ℤ) : Value → Prop
  | number : IsWholeNumber n (.number (.whole n))
  | text {s : String} (h : Text.readWhole s = .whole n) : IsWholeNumber n (.text s)

/-- The value is an integer or a text, whichever. -/
inductive IsPlain : Value → Prop
  | number (m : ℤ) : IsPlain (.number (.whole m))
  | text (s : String) : IsPlain (.text s)

/-- The value counts as `n` where an integer is asked for. -/
inductive CountsAs (n : ℤ) : Value → Prop
  | number : CountsAs n (.number (.whole n))
  | text {s : String} (h : Text.readWhole s = .whole n) : CountsAs n (.text s)
  | bytes {data : List UInt8} {s : String} (hs : asciiText? data = some s)
      (h : Text.readWhole s = .whole n) : CountsAs n (.bytes data)
  | bool (b : Bool) (h : n = if b then 1 else 0) : CountsAs n (.bool b)
  | real {x : Float} {q : ℚ} (hq : Double.value? x = some q)
      (h : n = if 0 ≤ q then ⌊q⌋ else ⌈q⌉) : CountsAs n (.number (.real x))

theorem toWhole_text (s : String) :
    (text s).toWhole = .ok n ↔ Text.readWhole s = .whole n := by
  cases hread : Text.readWhole s <;> simp [toWhole, numeral?, hread]

theorem toWhole_bytes (data : List UInt8) :
    (bytes data).toWhole = .ok n ↔ ∃ s, asciiText? data = some s ∧ Text.readWhole s = .whole n := by
  cases hs : asciiText? data with
  | none => simp [toWhole, numeral?, hs]
  | some s => cases hread : Text.readWhole s <;> simp [toWhole, numeral?, hs, hread]

theorem toWhole_real (x : Float) : (number (.real x)).toWhole = .ok n ↔
    ∃ q, Double.value? x = some q ∧ n = if 0 ≤ q then ⌊q⌋ else ⌈q⌉ := by
  rw [toWhole, wholeBy]
  cases hread : Double.reading x with
  | finite negative m e =>
      have hvalue := Double.value?_of_reading hread
      rw [Double.truncate?_eq hvalue, hvalue]
      simp [eq_comm]
  | infinite | nan =>
      have hnone : Double.truncate? x = none := by rw [Double.truncate?, Double.toIntBy, hread]
      rw [hnone, Double.value?, hread, Double.valueOf]
      · simp
      · simp

/-- A conversion to an integer succeeds exactly where the value counts as it. -/
theorem toWhole_eq_ok_iff : v.toWhole = .ok n ↔ v.CountsAs n := by
  constructor
  · intro h
    cases v with
    | bool b =>
        cases h
        exact .bool b rfl
    | number m =>
        cases m with
        | whole m =>
            cases h
            exact .number
        | real x =>
            obtain ⟨q, hq, hn⟩ := (toWhole_real x).mp h
            exact .real hq hn
    | text s => exact .text ((toWhole_text s).mp h)
    | bytes data =>
        obtain ⟨s, hs, hread⟩ := (toWhole_bytes data).mp h
        exact .bytes hs hread
    | _ => cases h
  · intro h
    cases h with
    | number => rfl
    | text h => exact (toWhole_text _).mpr h
    | bytes hs h => exact (toWhole_bytes _).mpr ⟨_, hs, h⟩
    | bool b h => rw [toWhole, h]
    | real hq h => exact (toWhole_real _).mpr ⟨_, hq, h⟩

/-- Of the values that count as an integer, the integers and the texts are those that are it. -/
theorem CountsAs.isWholeNumber_iff (h : v.CountsAs n) : v.IsWholeNumber n ↔ v.IsPlain := by
  cases h with
  | number => exact ⟨fun _ => .number n, fun _ => .number⟩
  | text h => exact ⟨fun _ => .text _, fun _ => .text h⟩
  | bytes => exact iff_of_false (fun h => by cases h) (fun h => by cases h)
  | bool => exact iff_of_false (fun h => by cases h) (fun h => by cases h)
  | real => exact iff_of_false (fun h => by cases h) (fun h => by cases h)

/-- A list is walked through by its items. -/
theorem items?_of_unrolled {items : List Value} (h : v.unrolled = .list items) :
    v.items? = some items := by
  rw [items?, h]

end Value

namespace Settings

open Value (CountsAs toWhole_eq_ok_iff)

/-! ## Checks on single settings -/

theorem eq_of_required {setting : Setting} {v v' : Value} (h : required setting v = .ok v') :
    v' = v := by
  cases v <;> cases h <;> rfl

theorem eq_ok_of_orFault {α : Type} {outcome : Except Fault α} {fault : Fault} {a : α}
    (h : orFault outcome fault = .ok a) : outcome = .ok a := by
  cases outcome with
  | ok a' => exact h
  | error _ => cases h

theorem countsAs_of_checkVersion {v : Value} (h : checkVersion v = .ok ()) : v.CountsAs 1 := by
  obtain ⟨v', hv, hwhole⟩ := bind_eq_ok h
  obtain rfl := eq_of_required hv
  obtain ⟨n, hn, hknown⟩ := bind_eq_ok hwhole
  split at hknown
  · rename_i hone
    rw [hone] at hn
    exact toWhole_eq_ok_iff.mp (eq_ok_of_orFault hn)
  · cases hknown

theorem countsAs_of_canvasOf {v : Value} {size : ℤ × ℤ} (h : canvasOf v = .ok size) :
    ∃ width height, v.items? = some [width, height] ∧ width.CountsAs size.1 ∧
      height.CountsAs size.2 := by
  obtain ⟨v', hv, hsides⟩ := bind_eq_ok h
  obtain rfl := eq_of_required hv
  split at hsides
  · rename_i width height hitems
    obtain ⟨w, hw, hsides⟩ := bind_eq_ok hsides
    obtain ⟨h', hh, hsize⟩ := bind_eq_ok hsides
    split at hsize
    · cases hsize
    · cases hsize
      exact ⟨width, height, hitems, toWhole_eq_ok_iff.mp (eq_ok_of_orFault hw),
        toWhole_eq_ok_iff.mp (eq_ok_of_orFault hh)⟩
  · cases hsides

theorem countsAs_of_seedOf {v : Value} {n : ℤ} (h : seedOf v = .ok n) :
    v.CountsAs n ∧ ∀ b, v ≠ .bool b := by
  obtain ⟨v', hv, hseed⟩ := bind_eq_ok h
  obtain rfl := eq_of_required hv
  split at hseed
  · cases hseed
  · rename_i hbool
    exact ⟨toWhole_eq_ok_iff.mp (eq_ok_of_orFault hseed), hbool⟩

/-! ## What the layers supply -/

/-- The values that merged layers supply where integers are asked for. -/
structure Supplied where
  version : Value
  canvas : Value
  seed : Value

def suppliedBy (entries : Entries) : Supplied where
  version := get "version" entries
  canvas := (givenBy "sketch" "canvas_size" entries).getD .null
  seed := (givenBy "sketch" "seed" entries).getD .null

/-- Nothing but integers and texts is supplied, and the sides of the canvas are in a list. -/
structure Supplied.Plain (supplied : Supplied) : Prop where
  version : supplied.version.IsPlain
  canvas : ∃ sides, supplied.canvas.unrolled = .list sides ∧ ∀ side ∈ sides, side.IsPlain
  seed : supplied.seed.IsPlain

/-- The integers of the settings are those that were supplied, as integers or as texts. -/
structure TakenAsGiven (supplied : Supplied) (s : Settings) : Prop where
  version : supplied.version.IsWholeNumber 1
  canvas : ∃ width height, supplied.canvas.unrolled = .list [width, height] ∧
    width.IsWholeNumber s.canvasWidth ∧ height.IsWholeNumber s.canvasHeight
  seed : supplied.seed.IsWholeNumber s.seed

/-- The integers of the settings are what the supplied values count as. -/
structure Converted (supplied : Supplied) (s : Settings) : Prop where
  version : supplied.version.CountsAs 1
  canvas : ∃ width height, supplied.canvas.items? = some [width, height] ∧
    width.CountsAs s.canvasWidth ∧ height.CountsAs s.canvasHeight
  seed : supplied.seed.CountsAs s.seed
  seed_ne_bool : ∀ b, supplied.seed ≠ .bool b

theorem Converted.takenAsGiven_iff {supplied : Supplied} {s : Settings}
    (h : Converted supplied s) : TakenAsGiven supplied s ↔ supplied.Plain := by
  obtain ⟨width, height, hitems, hwidth, hheight⟩ := h.canvas
  have hsides {sides : List Value} (hcanvas : supplied.canvas.unrolled = .list sides) :
      sides = [width, height] :=
    Option.some.inj ((Value.items?_of_unrolled hcanvas).symm.trans hitems)
  constructor
  · intro taken
    obtain ⟨width', height', hcanvas, hwidth', hheight'⟩ := taken.canvas
    cases hsides hcanvas
    refine ⟨h.version.isWholeNumber_iff.mp taken.version, ⟨_, hcanvas, ?_⟩,
      h.seed.isWholeNumber_iff.mp taken.seed⟩
    simp only [List.forall_mem_cons]
    exact ⟨hwidth.isWholeNumber_iff.mp hwidth', hheight.isWholeNumber_iff.mp hheight', by simp⟩
  · intro plain
    obtain ⟨sides, hcanvas, hplain⟩ := plain.canvas
    cases hsides hcanvas
    simp only [List.forall_mem_cons] at hplain
    exact ⟨h.version.isWholeNumber_iff.mpr plain.version,
      ⟨width, height, hcanvas, hwidth.isWholeNumber_iff.mpr hplain.1,
        hheight.isWholeNumber_iff.mpr hplain.2.1⟩, h.seed.isWholeNumber_iff.mpr plain.seed⟩

theorem isSection_of_sectionOf {name : String} {entries found : Entries}
    (h : sectionOf name entries = .ok found) : IsSection (Value.find? (.text name) entries) := by
  rw [sectionOf, get] at h
  cases hfind : Value.find? (.text name) entries with
  | none => exact .missing
  | some v =>
      rw [hfind, Option.getD_some] at h
      split at h
      · exact .empty
      · split at h
        · exact .mapping ‹_›
        · cases h

/-- Settings that merged entries make are what those entries supply, converted. -/
theorem converted_of_ofEntries {surroundings : Surroundings} {source : Option Path}
    {entries : Entries} {s : Settings} (h : ofEntries surroundings source entries = .ok s) :
    s.source = source ∧ Converted (suppliedBy entries) s := by
  obtain ⟨hsource, paths, sketch, hread⟩ := readFrom_of_ofEntries h
  have hget (key : String) : get key sketch = (givenBy "sketch" key entries).getD .null := by
    obtain ⟨found, hfound, hvalue⟩ := sectionOf_eq_ok (isSection_of_sectionOf hread.sketchFound)
    obtain rfl := Except.ok.inj (hread.sketchFound.symm.trans hfound)
    exact hvalue key
  have hcanvas := countsAs_of_canvasOf hread.canvas
  obtain ⟨hseed, hbool⟩ := countsAs_of_seedOf hread.seed
  rw [hget] at hcanvas hseed hbool
  exact ⟨hsource, countsAs_of_checkVersion hread.version, hcanvas, hseed, hbool⟩

/-! ## Loaded settings -/

/-- The settings come from what the layers supply, converted; and converting changes nothing exactly
where nothing but integers and texts is supplied. -/
def FromSupplied (base : Entries) (w : World) (explicit : Option Path) (s : Settings) : Prop :=
  ∃ entries, mergedOver base w explicit = .ok (s.source, entries) ∧
    Converted (suppliedBy entries) s ∧
    (TakenAsGiven (suppliedBy entries) s ↔ (suppliedBy entries).Plain)

theorem fromSupplied_of_loadOver {base : Entries} {w : World} {explicit : Option Path}
    {s : Settings} (h : loadOver base w explicit = .ok s) : FromSupplied base w explicit s := by
  rw [loadOver_eq_mergedOver] at h
  obtain ⟨⟨source, entries⟩, hmerged, h⟩ := bind_eq_ok h
  obtain ⟨rfl, hconverted⟩ := converted_of_ofEntries h
  exact ⟨entries, hmerged, hconverted, hconverted.takenAsGiven_iff⟩

/-- Settings that are loaded, whatever the three layers hold, come from what the layers supply.  So
do those that a session answers with after any actions, as the layers were when they were loaded. -/
theorem fromSupplied_of_load (base : Entries) (w : World) (explicit : Option Path) :
    (∀ s, loadOver base w explicit = .ok s → FromSupplied base w explicit s) ∧
    ∀ (actions : List Session.Action) (s : Settings),
      let session := Session.performAll actions (.start w)
      let loading := Session.firstLoad (Session.log actions (.start w))
      (session.perform (.call .settings)).2 = .ok (.settings s) →
        FromSupplied packaged (loading.elim session.world Session.Event.world) session.explicit
          s := by
  refine ⟨fun s h => fromSupplied_of_loadOver h, ?_⟩
  intro actions s session loading h
  have hremembers := (Session.Remembers.start w).performAll actions
  rw [hremembers.answer .settings, Session.Call.uncached, load_eq_loadOver, List.append_nil] at h
  refine fromSupplied_of_loadOver ?_
  cases hsettings : loadOver packaged (loading.elim session.world Session.Event.world)
      session.explicit with
  | error fault =>
      rw [hsettings] at h
      cases h
  | ok settings =>
      rw [hsettings] at h
      cases h
      rfl

/-! ## Two seeds -/

/-- The desk with a settings file that gives the sides of the canvas and the seed. -/
def measuredDesk (canvas seed : Value) : World :=
  desk (.data (.map [(.text "sketch", .map [(.text "canvas_size", canvas), (.text "seed", seed)])]))
    (.text "")

/-- What the settings of this desk are made of. -/
def measuredEntries (canvas seed : Value) : Entries :=
  stack packaged
    [[(.text "sketch", .map [(.text "canvas_size", canvas), (.text "seed", seed)])]]

theorem mergedOver_measured (canvas seed : Value) :
    mergedOver packaged (measuredDesk canvas seed) none =
      .ok (some deskPlace, measuredEntries canvas seed) := by
  have hlayer : layerAt (measuredDesk canvas seed) deskPlace =
      .ok [(.text "sketch", .map [(.text "canvas_size", canvas), (.text "seed", seed)])] := by
    rw [layerAt, measuredDesk, content?_desk]
    rfl
  have hplaces : candidates (measuredDesk canvas seed) =
      .ok [localPlace (measuredDesk canvas seed), homePlace (.ofString "/home")] :=
    candidates_of_home (home_desk _ _)
  have hfound : firstFile (measuredDesk canvas seed)
      [localPlace (measuredDesk canvas seed), homePlace (.ofString "/home")] =
        .ok (some deskPlace) := firstFile_desk _ _
  simp only [mergedOver, hplaces, hfound, withLayer, hlayer, ok_bind]
  rfl

theorem loadOver_measured (canvas seed : Value) :
    loadOver packaged (measuredDesk canvas seed) none = (do
      let size ← canvasOf canvas
      let n ← seedOf seed
      return ⟨some deskPlace, .ofString "data/output", size.1, size.2, ⟨0.0, 0.0, 0.0⟩, 1.0,
        n⟩) := by
  have hentries : ofEntries (measuredDesk canvas seed).surroundings (some deskPlace)
      (measuredEntries canvas seed) = (do
        let directory ← outputDirectoryOf (measuredDesk canvas seed).surroundings
          (.text "data/output")
        let size ← canvasOf canvas
        let n ← seedOf seed
        return ⟨some deskPlace, directory, size.1, size.2, ⟨0.0, 0.0, 0.0⟩, 1.0, n⟩) := rfl
  rw [loadOver_eq_mergedOver, mergedOver_measured, ok_bind]
  refine hentries.trans ?_
  rw [measuredDesk, outputDirectoryOf_desk, ok_bind]

/-- A file that gives the seed and, partly as a text, the sides of the canvas. -/
theorem fromSupplied_desk :
    let w := measuredDesk (.list [.text "300", .number (.whole 200)]) (.number (.whole 7))
    ∃ s entries, loadOver packaged w none = .ok s ∧
      ((Session.performAll [] (.start w)).perform (.call .settings)).2 = .ok (.settings s) ∧
      FromSupplied packaged w none s ∧ mergedOver packaged w none = .ok (s.source, entries) ∧
      s.canvasWidth = 300 ∧ s.canvasHeight = 200 ∧ s.seed = 7 ∧
      TakenAsGiven (suppliedBy entries) s := by
  intro w
  have hcanvas : canvasOf (.list [.text "300", .number (.whole 200)]) = .ok (300, 200) := by rfl
  have hseed : seedOf (.number (.whole 7)) = .ok 7 := rfl
  have hload := loadOver_measured (.list [.text "300", .number (.whole 200)]) (.number (.whole 7))
  rw [hcanvas, ok_bind, hseed, ok_bind] at hload
  have hanswer : ((Session.performAll [] (.start w)).perform (.call .settings)).2 =
      .ok (.settings
        ⟨some deskPlace, .ofString "data/output", 300, 200, ⟨0.0, 0.0, 0.0⟩, 1.0, 7⟩) := by
    rw [Session.performAll, Session.perform_call_of_not_cached rfl]
    show Session.Call.uncached .settings w none = _
    rw [Session.Call.uncached, load_eq_loadOver, hload]
    rfl
  have hmerged := mergedOver_measured (.list [.text "300", .number (.whole 200)])
    (.number (.whole 7))
  obtain ⟨entries, hentries, -, htaken⟩ := (fromSupplied_of_load packaged w none).1 _ hload
  have hsession := (fromSupplied_of_load packaged w none).2 [] _ hanswer
  obtain ⟨-, rfl⟩ := Prod.mk.inj (Except.ok.inj (hmerged.symm.trans hentries))
  have hsides : ∀ side ∈ [.text "300", .number (.whole 200)], Value.IsPlain side := by
    simp only [List.forall_mem_cons]
    exact ⟨.text _, .number _, by simp⟩
  exact ⟨_, _, hload, hanswer, hsession, hentries, rfl, rfl, rfl,
    htaken.mpr ⟨.number 1, ⟨_, rfl, hsides⟩, .number 7⟩⟩

/-- A file whose seed has a fraction is accepted, and the fraction is lost. -/
theorem load_desk_fraction :
    let w := measuredDesk (.list [.number (.whole 300), .number (.whole 200)])
      (.number (.real 7.9))
    ∃ s entries, load w none = .ok s ∧ mergedOver packaged w none = .ok (s.source, entries) ∧
      (suppliedBy entries).seed = .number (.real 7.9) ∧ s.seed = 7 ∧
      ¬TakenAsGiven (suppliedBy entries) s := by
  intro w
  have hcanvas : canvasOf (.list [.number (.whole 300), .number (.whole 200)]) =
      .ok (300, 200) := rfl
  have hseed : seedOf (.number (.real 7.9)) = .ok 7 := by
    have htruncate : Double.truncate? 7.9 = some 7 := by decide +kernel
    have hunfold : seedOf (.number (.real 7.9)) =
        orFault (wholeBy Double.truncate? 7.9)
          (showing (.number (.real 7.9)) (.settingNotWhole .seed (.number (.real 7.9)))) := rfl
    rw [hunfold, wholeBy, htruncate]
    rfl
  have hload := loadOver_measured (.list [.number (.whole 300), .number (.whole 200)])
    (.number (.real 7.9))
  rw [hcanvas, ok_bind, hseed, ok_bind] at hload
  refine ⟨_, _, hload, mergedOver_measured _ _, rfl, rfl, fun taken => ?_⟩
  have hwhole : (Value.number (.real 7.9)).IsWholeNumber 7 := taken.seed
  cases hwhole

end Settings
end SeededSketch
