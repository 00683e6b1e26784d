import SeededSketch.Proofs.Mappings
import SeededSketch.Proofs.Order
import SeededSketch.Settings

/-!
# Layers of settings

Settings are looked up in several layers, of which one that is put over another later has
precedence.  `Settings.used` says which value counts in the end without merging anything: that of
the highest layer whose section gives the key, as far down as no section is empty.  `givenBy_stack`
shows that this is what the merged layers hold, and `loadOver_layers` that it is what the settings
are made of.

One would expect an empty section to change nothing, as a missing one does.  It does not: it takes
away what is below, and `Settings.highest` is the value that the layers would give otherwise.
-/

namespace SeededSketch

/-! ## Entries under names -/

namespace Value

theorem sameKey_text_iff {a : Value} {s : String} : a.sameKey (.text s) = true ↔ a = .text s := by
  cases a <;> simp [sameKey, number?]

theorem text_sameKey_iff {a : Value} {s : String} :
    (text s).sameKey a = true ↔ a = .text s := by
  cases a <;> simp [sameKey, number?]
  exact eq_comm

theorem find?_cons (key : Value) (entry : Value × Value) (rest : List (Value × Value)) :
    find? key (entry :: rest) = if entry.1.sameKey key then some entry.2 else find? key rest := by
  rw [find?, List.find?_cons]
  split
  · rename_i h
    simp [h]
  · rename_i h
    simp [h, find?]

theorem find?_insert_self (s : String) (value : Value) (entries : List (Value × Value)) :
    find? (.text s) (insert (.text s) value entries) = some value := by
  induction entries with
  | nil => simp [insert, find?, sameKey]
  | cons entry rest ih =>
      rw [insert]
      by_cases h : entry.1.sameKey (.text s) = true
      · rw [if_pos h, find?_cons, if_pos h]
      · rw [if_neg h, find?_cons, if_neg h, ih]

theorem find?_insert_of_ne {key : Value} {s : String} (hkey : key ≠ .text s) (value : Value)
    (entries : List (Value × Value)) :
    find? (.text s) (insert key value entries) = find? (.text s) entries := by
  have hother : ¬key.sameKey (.text s) = true := fun h => hkey (sameKey_text_iff.mp h)
  induction entries with
  | nil => rw [insert, find?_cons, if_neg hother]
  | cons entry rest ih =>
      rw [insert]
      by_cases h : entry.1.sameKey key = true
      · have hentry : ¬entry.1.sameKey (.text s) = true := by
          intro htext
          rw [sameKey_text_iff.mp htext, text_sameKey_iff] at h
          exact hkey h
        rw [if_pos h, find?_cons, find?_cons, if_neg hentry, if_neg hentry]
      · rw [if_neg h, find?_cons, find?_cons, ih]

/-- Entries put over others one by one, where what is put under a key may depend on what is there
already: under each name, the outcome depends on nothing but what was there and what is put there.
-/
theorem find?_foldl_insert (f : Option Value → Value → Value) {later : List (Value × Value)}
    (hlater : Distinct later) (base : List (Value × Value)) (s : String) :
    find? (.text s) (later.foldl (fun entries (key, value) =>
        insert key (f (find? key entries) value) entries) base) =
      match find? (.text s) later with
      | some value => some (f (find? (.text s) base) value)
      | none => find? (.text s) base := by
  induction later generalizing base with
  | nil => rfl
  | cons entry rest ih =>
      obtain ⟨key, value⟩ := entry
      rw [Distinct, List.map_cons, List.pairwise_cons] at hlater
      rw [List.foldl_cons, ih hlater.2, find?_cons]
      by_cases hkey : key = .text s
      · subst hkey
        have hrest : find? (.text s) rest = none := by
          rw [find?, Option.map_eq_none_iff, List.find?_eq_none]
          intro entry hmem hsame
          have hne := hlater.1 entry.1 (List.mem_map_of_mem hmem)
          rw [text_sameKey_iff.mpr (sameKey_text_iff.mp hsame)] at hne
          exact Bool.noConfusion hne
        rw [hrest, if_pos (sameKey_text_iff.mpr rfl)]
        exact find?_insert_self ..
      · rw [if_neg fun h => hkey (sameKey_text_iff.mp h), find?_insert_of_ne hkey]

theorem Keyed.find? {entries : List (Value × Value)} (h : (Value.map entries).Keyed) {key v : Value}
    (hfind : find? key entries = some v) : v.Keyed := by
  obtain ⟨entry, hentry, rfl⟩ := Option.map_eq_some_iff.mp hfind
  exact (h.entries rfl).2 entry (List.mem_of_find?_eq_some hentry)

end Value

namespace Settings

open Value (Distinct)

theorem find?_override {later : Entries} (hlater : Distinct later) (base : Entries) (s : String) :
    Value.find? (.text s) (override base later) =
      (Value.find? (.text s) later).or (Value.find? (.text s) base) := by
  rw [override, Value.find?_foldl_insert (fun _ value => value) hlater]
  cases Value.find? (.text s) later <;> rfl

/-- What stands under a name when `upper` goes over `lower`. -/
def overSection (lower : Option Value) : Option Value → Option Value
  | some value => some (mergeSection lower value)
  | none => lower

theorem find?_merge {later : Entries} (hlater : Distinct later) (base : Entries) (s : String) :
    Value.find? (.text s) (merge base later) =
      overSection (Value.find? (.text s) base) (Value.find? (.text s) later) := by
  rw [merge, Value.find?_foldl_insert mergeSection hlater]
  cases Value.find? (.text s) later <;> rfl

/-! ## What a layer gives -/

/-- What can be found where a section belongs: nothing, an empty section or a mapping. -/
inductive IsSection : Option Value → Prop
  | missing : IsSection none
  | empty : IsSection (some .null)
  | mapping {v : Value} {entries : Entries} (h : v.entries? = some entries) : IsSection (some v)

/-- Each section of the layer is missing, empty or a mapping. -/
structure IsLayer (layer : Entries) : Prop where
  paths : IsSection (Value.find? (.text "paths") layer)
  sketch : IsSection (Value.find? (.text "sketch") layer)

/-- The value under a key of a section. -/
def valueIn (key : String) (sect : Option Value) : Option Value :=
  (sect.bind Value.entries?).bind (Value.find? (.text key))

/-- The value that a layer gives for a key of a section. -/
def givenBy (name key : String) (layer : Entries) : Option Value :=
  valueIn key (Value.find? (.text name) layer)

/-- Whether a section is there but empty. -/
def isBlank : Option Value → Bool
  | some .null => true
  | _ => false

/-- Whether a layer has an empty section of the name. -/
def clears (name : String) (layer : Entries) : Bool := isBlank (Value.find? (.text name) layer)

/-- The value of the highest layer that gives one for a key of a section, the highest layer being
the first. -/
def highest (name key : String) (layers : List Entries) : Value :=
  (layers.findSome? (givenBy name key)).getD .null

/-- The layers above the first in which a section is empty. -/
def reached (name : String) (layers : List Entries) : List Entries :=
  layers.takeWhile fun layer => !clears name layer

/-- The value that counts for a key of a section. -/
def used (name key : String) (layers : List Entries) : Value :=
  highest name key (reached name layers)

/-! ## Merged layers -/

section Sections

variable {lower : Option Value} {value : Value} {entries later : Entries}

theorem overSection_null (lower : Option Value) :
    overSection lower (some .null) = some .null := by
  rw [overSection, mergeSection]
  cases lower.bind Value.entries? <;> rfl

theorem overSection_of_none (hlower : lower.bind Value.entries? = none) (value : Value) :
    overSection lower (some value) = some value := by
  rw [overSection, mergeSection, hlower]

theorem overSection_mappings (hlower : lower.bind Value.entries? = some entries)
    (hvalue : value.entries? = some later) :
    overSection lower (some value) = some (.map (override entries later)) := by
  rw [overSection, mergeSection, hlower, hvalue]

theorem isBlank_of_mapping (h : value.entries? = some entries) : isBlank (some value) = false := by
  cases value with
  | null => simp [Value.entries?, Value.unrolled] at h
  | _ => rfl

theorem IsSection.over {upper : Option Value} (hlower : IsSection lower)
    (hupper : IsSection upper) : IsSection (overSection lower upper) := by
  cases hupper with
  | missing => exact hlower
  | empty =>
      rw [overSection_null]
      exact .empty
  | mapping h =>
      cases hlower with
      | missing =>
          rw [overSection_of_none rfl]
          exact .mapping h
      | empty =>
          rw [overSection_of_none rfl]
          exact .mapping h
      | mapping h' =>
          rw [overSection_mappings ((Option.bind_some ..).trans h') h]
          exact .mapping rfl

/-- A section over another gives what it gives itself, and otherwise what the other gives, unless it
is empty. -/
theorem valueIn_over {upper : Option Value} (hupper : IsSection upper)
    (hkeyed : ∀ v, upper = some v → v.Keyed) (key : String) (lower : Option Value) :
    valueIn key (overSection lower upper) =
      (valueIn key upper).or (if isBlank upper then none else valueIn key lower) := by
  cases hupper with
  | missing => rfl
  | empty =>
      rw [overSection_null]
      rfl
  | @mapping v later h =>
      have hd := ((hkeyed v rfl).entries h).1
      have hupper : valueIn key (some v) = Value.find? (.text key) later := by
        rw [valueIn, Option.bind_some, h, Option.bind_some]
      rw [isBlank_of_mapping h, if_neg Bool.false_ne_true, hupper]
      cases hlower : lower.bind Value.entries? with
      | none =>
          rw [overSection_of_none hlower, hupper, valueIn, hlower, Option.bind_none, Option.or_none]
      | some entries =>
          rw [overSection_mappings hlower h, valueIn, valueIn, hlower, Option.bind_some]
          exact find?_override hd entries key

end Sections

theorem givenBy_merge {name : String} {layer : Entries} (hkeyed : (Value.map layer).Keyed)
    (hlayer : IsSection (Value.find? (.text name) layer)) (key : String) (below : Entries) :
    givenBy name key (merge below layer) =
      (givenBy name key layer).or (if clears name layer then none else givenBy name key below) := by
  rw [givenBy, find?_merge (hkeyed.entries rfl).1]
  exact valueIn_over hlayer (fun v hv => hkeyed.find? hv) key _

/-- Layers over a base, the highest first. -/
def stack (base : Entries) (uppers : List Entries) : Entries :=
  uppers.foldr (fun layer below => merge below layer) base

theorem isSection_stack {name : String} {base : Entries} {uppers : List Entries}
    (hkeyed : ∀ layer ∈ uppers, (Value.map layer).Keyed)
    (hsections : ∀ layer ∈ uppers ++ [base], IsSection (Value.find? (.text name) layer)) :
    IsSection (Value.find? (.text name) (stack base uppers)) := by
  induction uppers with
  | nil => exact hsections base (by simp)
  | cons layer rest ih =>
      rw [List.forall_mem_cons] at hkeyed
      rw [List.cons_append, List.forall_mem_cons] at hsections
      show IsSection (Value.find? (.text name) (merge (stack base rest) layer))
      rw [find?_merge (hkeyed.1.entries rfl).1]
      exact (ih hkeyed.2 hsections.2).over hsections.1

theorem givenBy_of_clears {name : String} {layer : Entries} (h : clears name layer = true)
    (key : String) : givenBy name key layer = none := by
  rw [clears] at h
  rw [givenBy]
  cases hsection : Value.find? (.text name) layer with
  | none => rfl
  | some v =>
      cases v with
      | null => rfl
      | _ => rw [hsection] at h; exact absurd h Bool.false_ne_true

theorem findSome?_reached_cons (name key : String) (layer : Entries) (rest : List Entries) :
    (reached name (layer :: rest)).findSome? (givenBy name key) =
      (givenBy name key layer).or
        (if clears name layer then none else (reached name rest).findSome? (givenBy name key)) := by
  rw [reached, List.takeWhile_cons]
  by_cases h : clears name layer = true
  · rw [h, givenBy_of_clears h]
    rfl
  · rw [Bool.eq_false_iff.mpr h, Bool.not_false, if_pos rfl, if_neg Bool.false_ne_true,
      List.findSome?_cons]
    cases givenBy name key layer <;> rfl

/-- What merged layers give is what the highest layer gives of those that are reached. -/
theorem givenBy_stack {name : String} {base : Entries} {uppers : List Entries}
    (hkeyed : ∀ layer ∈ uppers, (Value.map layer).Keyed)
    (hsections : ∀ layer ∈ uppers ++ [base], IsSection (Value.find? (.text name) layer))
    (key : String) :
    givenBy name key (stack base uppers) =
      (reached name (uppers ++ [base])).findSome? (givenBy name key) := by
  induction uppers with
  | nil =>
      rw [List.nil_append, findSome?_reached_cons]
      show givenBy name key base = _
      cases clears name base <;> simp [reached]
  | cons layer rest ih =>
      rw [List.forall_mem_cons] at hkeyed
      rw [List.cons_append, List.forall_mem_cons] at hsections
      have hrest := ih hkeyed.2 hsections.2
      show givenBy name key (merge (stack base rest) layer) = _
      rw [givenBy_merge hkeyed.1 hsections.1, hrest, List.cons_append, findSome?_reached_cons]

/-! ## What counts and what would be expected to count -/

/-- The layers that are reached give what all layers give, unless they give nothing and a layer
below an empty section gives something. -/
theorem used_eq_highest_iff (name key : String) (layers : List Entries) :
    used name key layers = highest name key layers ↔
      highest name key layers = .null ∨
        ∃ layer ∈ reached name layers, (givenBy name key layer).isSome := by
  have hsplit : layers.findSome? (givenBy name key) =
      ((reached name layers).findSome? (givenBy name key)).or
        ((layers.dropWhile fun layer => !clears name layer).findSome? (givenBy name key)) := by
    rw [← List.findSome?_append, reached, List.takeWhile_append_dropWhile]
  rw [used, highest, highest, hsplit]
  cases hreached : (reached name layers).findSome? (givenBy name key) with
  | some v =>
      obtain ⟨layer, hmem, hgiven⟩ := List.exists_of_findSome?_eq_some hreached
      have hsome : (givenBy name key layer).isSome := by rw [hgiven]; rfl
      exact ⟨fun _ => .inr ⟨layer, hmem, hsome⟩, fun _ => rfl⟩
  | none =>
      rw [List.findSome?_eq_none_iff] at hreached
      constructor
      · intro h
        exact .inl h.symm
      · rintro (h | ⟨layer, hmem, hsome⟩)
        · exact h.symm
        · rw [hreached layer hmem] at hsome
          exact Bool.noConfusion hsome

theorem used_eq_highest {name : String} {base : Entries} {uppers : List Entries}
    (h : ∀ layer ∈ uppers, clears name layer = false) (key : String) :
    used name key (uppers ++ [base]) = highest name key (uppers ++ [base]) := by
  have hall : (reached name (uppers ++ [base])).findSome? (givenBy name key) =
      (uppers ++ [base]).findSome? (givenBy name key) := by
    induction uppers with
    | nil =>
        rw [List.nil_append, findSome?_reached_cons]
        cases clears name base <;> simp [reached]
    | cons layer rest ih =>
        rw [List.forall_mem_cons] at h
        rw [List.cons_append, findSome?_reached_cons, h.1, if_neg Bool.false_ne_true, ih h.2,
          List.findSome?_cons]
        cases givenBy name key layer <;> rfl
  rw [used, highest, highest, hall]

/-! ## Settings of merged layers -/

/-- The settings from the version and a value for each key of each section. -/
def ofRaw (surroundings : Surroundings) (source : Option Path) (version : Value)
    (raw : String → String → Value) : Except Fault Settings := do
  checkVersion version
  let outputDirectory ← outputDirectoryOf surroundings (raw "paths" "output_dir")
  let (canvasWidth, canvasHeight) ← canvasOf (raw "sketch" "canvas_size")
  let background ← backgroundOf (raw "sketch" "background_color")
  let rate ← rateOf (raw "sketch" "fps")
  let seed ← seedOf (raw "sketch" "seed")
  return { source, outputDirectory, canvasWidth, canvasHeight, background, rate, seed }

theorem sectionOf_eq_ok {name : String} {entries : Entries}
    (h : IsSection (Value.find? (.text name) entries)) :
    ∃ found, sectionOf name entries = .ok found ∧
      ∀ key, get key found = (givenBy name key entries).getD .null := by
  simp only [sectionOf, get, givenBy]
  generalize Value.find? (.text name) entries = sect at h
  cases h with
  | missing => exact ⟨[], rfl, fun key => rfl⟩
  | empty => exact ⟨[], rfl, fun key => rfl⟩
  | @mapping v found h =>
      have hvalue (key : String) : valueIn key (some v) = Value.find? (.text key) found := by
        rw [valueIn, Option.bind_some, h, Option.bind_some]
      refine ⟨found, ?_, fun key => by rw [hvalue]⟩
      cases v with
      | null => simp [Value.entries?, Value.unrolled] at h
      | _ => simp only [Option.getD_some, h]

theorem ofEntries_eq_ofRaw {entries : Entries}
    (hpaths : IsSection (Value.find? (.text "paths") entries))
    (hsketch : IsSection (Value.find? (.text "sketch") entries))
    (surroundings : Surroundings) (source : Option Path) :
    ofEntries surroundings source entries =
      ofRaw surroundings source (get "version" entries) fun name key =>
        (givenBy name key entries).getD .null := by
  obtain ⟨paths, hp, hgetp⟩ := sectionOf_eq_ok hpaths
  obtain ⟨sketch, hs, hgets⟩ := sectionOf_eq_ok hsketch
  rw [ofEntries, ofRaw, hp, hs]
  simp only [ok_bind, hgetp, hgets]

/-- The settings in a world, with any mapping in the place of the settings that come with the
program. -/
def loadOver (base : Entries) (w : World) (explicit : Option Path) : Except Fault Settings := do
  match explicit with
  | some path => if !(← w.isFile path) then throw (.settingsMissing path.text)
  | none => pure ()
  let found ← firstFile w (← candidates w)
  let entries ← withLayer w base found
  let entries ← withLayer w entries explicit
  ofEntries w.surroundings (explicit.or found) entries

theorem load_eq_loadOver : load = loadOver packaged := rfl

/-- The entries that settings in a world are made of, and the file that they come from. -/
def mergedOver (base : Entries) (w : World) (explicit : Option Path) :
    Except Fault (Option Path × Entries) := do
  match explicit with
  | some path => if !(← w.isFile path) then throw (.settingsMissing path.text)
  | none => pure ()
  let found ← firstFile w (← candidates w)
  let entries ← withLayer w base found
  let entries ← withLayer w entries explicit
  return (explicit.or found, entries)

theorem loadOver_eq_mergedOver (base : Entries) (w : World) (explicit : Option Path) :
    loadOver base w explicit = (do
      let (source, entries) ← mergedOver base w explicit
      ofEntries w.surroundings source entries) := by
  cases explicit with
  | none => simp [loadOver, mergedOver]
  | some path =>
      cases hfile : w.isFile path with
      | error fault => simp [loadOver, mergedOver, hfile]
      | ok there => cases there <;> simp [loadOver, mergedOver, hfile]

theorem isFile_of_content? {w : World} {path : Path} {content : Content}
    (h : w.content? path = some content) : w.isFile path = .ok true := by
  rw [World.isFile, h]
  cases hlocate : w.locate path with
  | ok place => rfl
  | error fault =>
      rw [World.content?, World.lookup?, hlocate] at h
      cases h

theorem isFile_of_layerAt {w : World} {path : Path} {layer : Entries}
    (h : layerAt w path = .ok layer) : w.isFile path = .ok true := by
  cases hcontent : w.content? path with
  | none =>
      rw [layerAt, hcontent] at h
      cases h
  | some content => exact isFile_of_content? hcontent

theorem withLayer_eq_stack {w : World} {path? : Option Path} {layers : List Entries}
    (h : path?.toList.mapM (layerAt w) = .ok layers) (base : Entries) :
    withLayer w base path? = .ok (stack base layers) := by
  cases path? with
  | none =>
      rw [Option.toList_none, List.mapM_nil, pure_eq_ok] at h
      cases h
      rfl
  | some path =>
      rw [Option.toList_some, List.mapM_cons] at h
      obtain ⟨layer, hlayer, h⟩ := bind_eq_ok h
      rw [List.mapM_nil, pure_bind, pure_eq_ok] at h
      cases h
      rw [withLayer, hlayer]
      rfl

theorem loadOver_eq_stack {base : Entries} {w : World} {explicit found : Option Path}
    {places : List Path} {uppers : List Entries} (hplaces : candidates w = .ok places)
    (hfound : firstFile w places = .ok found)
    (huppers : (explicit.toList ++ found.toList).mapM (layerAt w) = .ok uppers) :
    loadOver base w explicit =
      ofEntries w.surroundings (explicit.or found) (stack base uppers) := by
  rw [List.mapM_append] at huppers
  obtain ⟨named, hnamed, huppers⟩ := bind_eq_ok huppers
  obtain ⟨other, hother, huppers⟩ := bind_eq_ok huppers
  cases huppers
  have hstack : stack (stack base other) named = stack base (named ++ other) :=
    List.foldr_append.symm
  have hrest : (do
      let found ← firstFile w (← candidates w)
      let entries ← withLayer w base found
      let entries ← withLayer w entries explicit
      ofEntries w.surroundings (explicit.or found) entries) =
      ofEntries w.surroundings (explicit.or found) (stack base (named ++ other)) := by
    rw [hplaces, ok_bind, hfound, ok_bind, withLayer_eq_stack hother, ok_bind,
      withLayer_eq_stack hnamed, ok_bind, hstack]
  cases explicit with
  | none => exact hrest
  | some path =>
      rw [Option.toList_some, List.mapM_cons] at hnamed
      obtain ⟨layer, hlayer, -⟩ := bind_eq_ok hnamed
      rw [← hrest, loadOver, isFile_of_layerAt hlayer]
      rfl

theorem ofRaw_congr {raw raw' : String → String → Value}
    (hpaths : ∀ key, raw "paths" key = raw' "paths" key)
    (hsketch : ∀ key, raw "sketch" key = raw' "sketch" key) (surroundings : Surroundings)
    (source : Option Path) (version : Value) :
    ofRaw surroundings source version raw = ofRaw surroundings source version raw' := by
  simp only [ofRaw, hpaths, hsketch]

theorem keyed_of_entriesOf {source : String} {content : Content} {layer : Entries}
    (h : entriesOf source content = .ok layer) (hdata : ∀ v, content = .data v → v.Keyed) :
    (Value.map layer).Keyed := by
  unfold entriesOf at h
  dsimp only at h
  split at h
  · cases h
  · cases h
    exact .map List.Pairwise.nil (by simp)
  · rename_i v _ hv
    have hkeyed : v.Keyed := by
      cases content with
      | text s => exact Yaml.keyed_read hv
      | data w =>
          cases hv
          exact hdata _ rfl
    split at h
    · rename_i entries hentries
      cases h
      obtain ⟨hdistinct, hinside⟩ := hkeyed.entries hentries
      exact .map hdistinct hinside
    · cases h

theorem keyed_of_layerAt {w : World} {path : Path} {layer : Entries}
    (h : layerAt w path = .ok layer) (hdata : ∀ v, w.content? path = some (.data v) → v.Keyed) :
    (Value.map layer).Keyed := by
  rw [layerAt] at h
  split at h
  · rename_i content hcontent
    refine keyed_of_entriesOf h fun v hv => hdata v ?_
    rw [hcontent, hv]
  · cases h

theorem exists_of_mapM_layerAt {w : World} {paths : List Path} {layers : List Entries}
    (h : paths.mapM (layerAt w) = .ok layers) :
    ∀ layer ∈ layers, ∃ path ∈ paths, layerAt w path = .ok layer := by
  induction paths generalizing layers with
  | nil =>
      cases h
      simp
  | cons path rest ih =>
      rw [List.mapM_cons] at h
      obtain ⟨layer, hlayer, h⟩ := bind_eq_ok h
      obtain ⟨others, hothers, h⟩ := bind_eq_ok h
      cases h
      rw [List.forall_mem_cons]
      refine ⟨⟨path, List.mem_cons_self, hlayer⟩, fun other hmem => ?_⟩
      obtain ⟨path', hmem', hother⟩ := ih hothers other hmem
      exact ⟨path', List.mem_cons_of_mem _ hmem', hother⟩

theorem loadOver_eq_ofRaw {base : Entries} {w : World} {explicit found : Option Path}
    {places : List Path} {uppers : List Entries} (hplaces : candidates w = .ok places)
    (hfound : firstFile w places = .ok found)
    (huppers : (explicit.toList ++ found.toList).mapM (layerAt w) = .ok uppers)
    (hdata : ∀ path ∈ explicit.toList ++ found.toList,
      ∀ v, w.content? path = some (.data v) → v.Keyed)
    (hlayers : ∀ layer ∈ uppers ++ [base], IsLayer layer) :
    loadOver base w explicit =
      ofRaw w.surroundings (explicit.or found) (get "version" (stack base uppers))
        fun name key => used name key (uppers ++ [base]) := by
  have hkeyed : ∀ layer ∈ uppers, (Value.map layer).Keyed := by
    intro layer hmem
    obtain ⟨path, hpath, hlayer⟩ := exists_of_mapM_layerAt huppers layer hmem
    exact keyed_of_layerAt hlayer (hdata path hpath)
  have hpaths : ∀ layer ∈ uppers ++ [base], IsSection (Value.find? (.text "paths") layer) :=
    fun layer hmem => (hlayers layer hmem).paths
  have hsketch : ∀ layer ∈ uppers ++ [base], IsSection (Value.find? (.text "sketch") layer) :=
    fun layer hmem => (hlayers layer hmem).sketch
  rw [loadOver_eq_stack hplaces hfound huppers,
    ofEntries_eq_ofRaw (isSection_stack hkeyed hpaths) (isSection_stack hkeyed hsketch)]
  refine ofRaw_congr (fun key => ?_) (fun key => ?_) _ _ _
  · rw [givenBy_stack hkeyed hpaths, used, highest]
  · rw [givenBy_stack hkeyed hsketch, used, highest]

/-! ## The file that is found -/

/-- The place of the settings of the working directory. -/
def localPlace (w : World) : Path := w.workingPath.join (.ofString ".shapeseed/config.yaml")

/-- The place of the settings of a home directory. -/
def homePlace (home : Path) : Path := home.join (.ofString ".config/shapeseed/config.yaml")

theorem candidates_of_home {w : World} {home : Path}
    (h : w.surroundings.expandHomePath (.ofString "~") = .ok home) :
    candidates w = .ok [localPlace w, homePlace home] := by
  rw [candidates, h]
  rfl

theorem isFile_eq_ok {w : World} {path : Path} {there : Bool} (h : w.isFile path = .ok there) :
    (w.content? path).isSome = there := by
  rw [World.isFile] at h
  split at h
  · cases h
  · exact Except.ok.inj h

theorem firstFile_eq_find? {w : World} {places : List Path} {found : Option Path}
    (h : firstFile w places = .ok found) :
    found = places.find? fun path => (w.content? path).isSome := by
  induction places with
  | nil => exact (Except.ok.inj h).symm
  | cons path rest ih =>
      rw [firstFile] at h
      obtain ⟨there, hthere, h⟩ := bind_eq_ok h
      rw [List.find?_cons, isFile_eq_ok hthere]
      cases there with
      | true => exact (Except.ok.inj h).symm
      | false => exact ih h

theorem candidates_congr {w w' : World} (hsurroundings : w'.surroundings = w.surroundings)
    (hdirectory : w'.workingDirectory = w.workingDirectory) : candidates w' = candidates w := by
  rw [candidates, candidates, hsurroundings, World.workingPath, World.workingPath, hdirectory]

theorem mapM_layerAt_congr {w w' : World} {paths : List Path}
    (h : ∀ path ∈ paths, w'.content? path = w.content? path) :
    paths.mapM (layerAt w') = paths.mapM (layerAt w) := by
  induction paths with
  | nil => rfl
  | cons path rest ih =>
      rw [List.forall_mem_cons] at h
      have hpath : layerAt w' path = layerAt w path := by rw [layerAt, layerAt, h.1]
      rw [List.mapM_cons, List.mapM_cons, hpath, ih h.2]

/-- The settings depend on the files that are read, and on nothing else in the tree: a file at the
second place only matters if there is none at the first. -/
theorem loadOver_congr {base : Entries} {w w' : World} {explicit found : Option Path}
    {here home : Path} {uppers : List Entries} (hplaces : candidates w = .ok [here, home])
    (hfound : firstFile w [here, home] = .ok found)
    (huppers : (explicit.toList ++ found.toList).mapM (layerAt w) = .ok uppers)
    (hsurroundings : w'.surroundings = w.surroundings)
    (hdirectory : w'.workingDirectory = w.workingDirectory)
    (hcontent : ∀ path ∈ explicit.toList ++ found.toList, w'.content? path = w.content? path)
    (hfirst : found = some here ∨ firstFile w' [here, home] = .ok found) :
    loadOver base w' explicit = loadOver base w explicit := by
  have hplaces' : candidates w' = .ok [here, home] := by
    rw [candidates_congr hsurroundings hdirectory, hplaces]
  have hfound' : firstFile w' [here, home] = .ok found := by
    rcases hfirst with rfl | hfirst
    · have hfirst := (firstFile_eq_find? hfound).symm
      have hhere := List.find?_some hfirst
      obtain ⟨content, hcontents⟩ := Option.isSome_iff_exists.mp hhere
      have hsame := hcontent here (List.mem_append_right _ (List.mem_singleton.mpr rfl))
      rw [firstFile, isFile_of_content? (hsame.trans hcontents)]
      rfl
    · exact hfirst
  have huppers' := (mapM_layerAt_congr hcontent).trans huppers
  rw [loadOver_eq_stack hplaces' hfound' huppers', loadOver_eq_stack hplaces hfound huppers,
    hsurroundings]

/-- The value that counts for a key of a section is that of the highest layer whose section gives
the key, among the layers above the first whose section is empty.  So it is that of the highest
layer of all whenever no layer above the base has an empty section, and in general if a layer that
is reached gives the key or none gives it at all. -/
theorem loadOver_layers {base : Entries} {w : World} {explicit found : Option Path} {home : Path}
    {uppers : List Entries} (hhome : w.surroundings.expandHomePath (.ofString "~") = .ok home)
    (hfound : firstFile w [localPlace w, homePlace home] = .ok found)
    (huppers : (explicit.toList ++ found.toList).mapM (layerAt w) = .ok uppers)
    (hdata : ∀ path ∈ explicit.toList ++ found.toList,
      ∀ v, w.content? path = some (.data v) → v.Keyed)
    (hlayers : ∀ layer ∈ uppers ++ [base], IsLayer layer) :
    load = loadOver packaged ∧
      loadOver base w explicit =
        ofRaw w.surroundings (explicit.or found) (get "version" (stack base uppers))
          (fun name key => used name key (uppers ++ [base])) ∧
      (∀ name key, used name key (uppers ++ [base]) = highest name key (uppers ++ [base]) ↔
        highest name key (uppers ++ [base]) = .null ∨
          ∃ layer ∈ reached name (uppers ++ [base]), (givenBy name key layer).isSome) ∧
      (∀ name, (∀ layer ∈ uppers, clears name layer = false) → ∀ key,
        used name key (uppers ++ [base]) = highest name key (uppers ++ [base])) ∧
      (found = if (w.content? (localPlace w)).isSome then some (localPlace w)
        else if (w.content? (homePlace home)).isSome then some (homePlace home) else none) ∧
      ∀ w' : World, w'.surroundings = w.surroundings →
        w'.workingDirectory = w.workingDirectory →
        (∀ path ∈ explicit.toList ++ found.toList, w'.content? path = w.content? path) →
        (found = some (localPlace w) ∨
          firstFile w' [localPlace w, homePlace home] = .ok found) →
        loadOver base w' explicit = loadOver base w explicit := by
  have hplaces := candidates_of_home hhome
  refine ⟨load_eq_loadOver, loadOver_eq_ofRaw hplaces hfound huppers hdata hlayers,
    fun name key => used_eq_highest_iff name key _, fun name h key => used_eq_highest h key, ?_,
    fun w' => loadOver_congr hplaces hfound huppers⟩
  rw [firstFile_eq_find? hfound, List.find?_cons, List.find?_cons]
  cases (w.content? (localPlace w)).isSome <;>
    cases (w.content? (homePlace home)).isSome <;> rfl

/-- A world with a settings file in the working directory and another one beside it. -/
def desk (content other : Content) : World :=
  ⟨.directory [("work", .directory [(".shapeseed", .directory [("config.yaml", .file content)]),
      ("named.yaml", .file other)])],
    ["work"], ⟨[("HOME", "/home")], []⟩⟩

/-- Where the settings file in the working directory of the desk lies. -/
def deskPlace : Path := .ofString "/work/.shapeseed/config.yaml"

/-- Where the other file lies. -/
def otherPlace : Path := .ofString "named.yaml"

section Desk

variable (content other : Content)

theorem localPlace_desk : localPlace (desk content other) = deskPlace := by cbv

theorem home_desk :
    (desk content other).surroundings.expandHomePath (.ofString "~") = .ok (.ofString "/home") := by
  cbv

theorem firstFile_desk :
    firstFile (desk content other)
      [localPlace (desk content other), homePlace (.ofString "/home")] = .ok (some deskPlace) := by
  rw [localPlace_desk]
  cbv

theorem content?_desk : (desk content other).content? deskPlace = some content := by cbv

theorem content?_desk_other : (desk content other).content? otherPlace = some other := by cbv

theorem outputDirectoryOf_desk :
    outputDirectoryOf (desk content other).surroundings (.text "data/output") =
      .ok (.ofString "data/output") := by
  cbv

end Desk

theorem isLayer_packaged : IsLayer packaged := ⟨.mapping rfl, .mapping rfl⟩

/-- Three layers: the named file gives the seed, the file that is found gives the rate, and what
comes with the program gives the rest. -/
theorem load_desk :
    let lower : Entries := [(.text "sketch", .map [(.text "seed", .number (.whole 1)),
      (.text "fps", .number (.whole 10))])]
    let w := desk (.data (.map lower)) (.text "sketch:\n  seed: 2\n")
    ∃ s, load w (some otherPlace) = .ok s ∧ s.seed = 2 ∧ s.canvasWidth = 500 ∧ s.rate = 10.0 ∧
      s.outputDirectory = .ofString "data/output" := by
  intro lower w
  let upper : Entries := [(.text "sketch", .map [(.text "seed", .number (.whole 2))])]
  have hread : Yaml.read "sketch:\n  seed: 2\n" = some (.map upper) := by cbv
  have hupper : layerAt w otherPlace = .ok upper := by
    rw [layerAt, content?_desk_other]
    simp only [entriesOf, hread]
    rfl
  have hlower : layerAt w deskPlace = .ok lower := by
    rw [layerAt, content?_desk]
    rfl
  have huppers : ((some otherPlace).toList ++ (some deskPlace).toList).mapM (layerAt w) =
      .ok [upper, lower] := by
    simp only [Option.toList_some, List.singleton_append, List.mapM_cons, List.mapM_nil, hupper,
      hlower]
    rfl
  have hdata : ∀ path ∈ (some otherPlace).toList ++ (some deskPlace).toList,
      ∀ v, w.content? path = some (.data v) → v.Keyed := by
    simp only [Option.toList_some, List.singleton_append, List.forall_mem_cons]
    refine ⟨fun v hv => ?_, fun v hv => ?_, by simp⟩
    · rw [content?_desk_other] at hv
      cases hv
    · rw [content?_desk] at hv
      cases hv
      refine .map (by decide) ?_
      simp only [lower, List.forall_mem_cons]
      refine ⟨.map (by decide) ?_, by simp⟩
      simp only [List.forall_mem_cons]
      exact ⟨.plain rfl, .plain rfl, by simp⟩
  have hlayers : ∀ layer ∈ [upper, lower] ++ [packaged], IsLayer layer := by
    simp only [List.cons_append, List.nil_append, List.forall_mem_cons]
    exact ⟨⟨.missing, .mapping rfl⟩, ⟨.missing, .mapping rfl⟩, isLayer_packaged, by simp⟩
  obtain ⟨hload, hused, -⟩ :=
    loadOver_layers (home_desk _ _) (firstFile_desk _ _) huppers hdata hlayers
  have hdirectory : used "paths" "output_dir" ([upper, lower] ++ [packaged]) =
      .text "data/output" := rfl
  rw [hload, hused, ofRaw, hdirectory, outputDirectoryOf_desk]
  refine ⟨_, rfl, rfl, rfl, ?_, rfl⟩
  decide +kernel

/-- A file in which the section of paths is there but empty: what the layers give would make good
settings, but the output directory counts as missing. -/
theorem load_desk_blank :
    let layers : List Entries := [[(.text "paths", .null)], packaged]
    let w := desk (.text "paths:\n") (.text "")
    Yaml.read "paths:\n" = some (.map [(.text "paths", .null)]) ∧
      highest "paths" "output_dir" layers = .text "data/output" ∧
      (∃ s, ofRaw w.surroundings (some deskPlace) (.number (.whole 1))
        (fun name key => highest name key layers) = .ok s ∧
          s.outputDirectory = .ofString "data/output") ∧
      load w none = .error (.settingUnset .outputDir) := by
  intro layers w
  have hread : Yaml.read "paths:\n" = some (.map [(.text "paths", .null)]) := by cbv
  have hhighest : highest "paths" "output_dir" layers = .text "data/output" := rfl
  have hlayer : layerAt w deskPlace = .ok [(.text "paths", .null)] := by
    rw [layerAt, content?_desk]
    simp only [entriesOf, hread]
    rfl
  refine ⟨hread, hhighest, ?_, ?_⟩
  · rw [ofRaw, hhighest, outputDirectoryOf_desk]
    exact ⟨_, rfl, rfl⟩
  · have huppers : ((none : Option Path).toList ++ (some deskPlace).toList).mapM (layerAt w) =
        .ok [[(.text "paths", .null)]] := by
      simp only [Option.toList_none, Option.toList_some, List.nil_append, List.mapM_cons,
        List.mapM_nil, hlayer]
      rfl
    have hplaces := candidates_of_home (home_desk (.text "paths:\n") (.text ""))
    rw [load_eq_loadOver, loadOver_eq_stack hplaces (firstFile_desk _ _) huppers]
    rfl

end Settings
end SeededSketch
