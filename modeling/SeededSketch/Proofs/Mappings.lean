import Mathlib
import SeededSketch.Yaml

/-!
# Keys of mappings

A mapping is a list of entries, and nothing in its type keeps a key from standing in it twice.
Mappings that are read from a text are put together with `Value.insert`, and `keyed_read` says what
follows: wherever in the value of a text there is a mapping, no two of its entries have the same
key.

Reading gives meanings to nodes one at a time and unfolds them afterwards.  Both run through a
state, and for both the proof says once what a step keeps (`Interpret.Keeps`, `Unfolds`) and then
goes through the steps.
-/

namespace SeededSketch

namespace Value

/-! ## Distinct keys -/

/-- No two of the entries have the same key. -/
def Distinct {α : Type} (entries : List (Value × α)) : Prop :=
  (entries.map Prod.fst).Pairwise fun a b => a.sameKey b = false

instance {α : Type} (entries : List (Value × α)) : Decidable (Distinct entries) :=
  inferInstanceAs (Decidable (List.Pairwise _ _))

theorem map_fst_insert {α : Type} (key : Value) (value : α) (entries : List (Value × α)) :
    (insert key value entries).map Prod.fst =
      if entries.any (fun entry => entry.1.sameKey key) then entries.map Prod.fst
      else entries.map Prod.fst ++ [key] := by
  induction entries with
  | nil => rfl
  | cons entry rest ih =>
      rw [insert, List.any_cons]
      by_cases h : entry.1.sameKey key = true
      · simp [h]
      · rw [if_neg h, List.map_cons, ih, Bool.eq_false_iff.mpr h, Bool.false_or, List.map_cons]
        split <;> rfl

theorem Distinct.insert {α : Type} {entries : List (Value × α)} (h : Distinct entries) (key : Value)
    (value : α) : Distinct (insert key value entries) := by
  rw [Distinct, map_fst_insert]
  split
  · exact h
  · rename_i hnew
    refine List.pairwise_append.mpr ⟨h, List.pairwise_singleton .., ?_⟩
    intro a ha b hb
    rw [List.mem_singleton] at hb
    subst hb
    obtain ⟨entry, hentry, rfl⟩ := List.mem_map.mp ha
    rw [Bool.not_eq_true, List.any_eq_false] at hnew
    exact Bool.eq_false_iff.mpr (hnew entry hentry)

/-! ## Values whose mappings have distinct keys -/

/-- Whether there are no values inside a value whose mappings could matter. -/
def isPlain : Value → Bool
  | list _ | pair .. | map _ | loop .. => false
  | _ => true

/-- No mapping in the value has a key twice. -/
inductive Keyed : Value → Prop
  | plain {v : Value} (h : v.isPlain = true) : Keyed v
  | list {items : List Value} (h : ∀ v ∈ items, v.Keyed) : Keyed (list items)
  | pair {first second : Value} (h₁ : first.Keyed) (h₂ : second.Keyed) : Keyed (pair first second)
  | map {entries : List (Value × Value)} (hdistinct : Distinct entries)
      (h : ∀ entry ∈ entries, entry.2.Keyed) : Keyed (map entries)
  | loop (label : Nat) {v : Value} (h : v.Keyed) : Keyed (loop label v)

theorem replaceInItems_eq_map (label : Nat) (container : Value) (items : List Value) :
    replaceInItems label container items = items.map (replaceAgain label container) := by
  induction items with
  | nil => rfl
  | cons item rest ih => rw [replaceInItems, ih, List.map_cons]

theorem replaceInEntries_eq_map (label : Nat) (container : Value) (entries : List (Value × Value)) :
    replaceInEntries label container entries =
      entries.map fun entry => (entry.1, replaceAgain label container entry.2) := by
  induction entries with
  | nil => rfl
  | cons entry rest ih =>
      obtain ⟨key, value⟩ := entry
      rw [replaceInEntries, ih, List.map_cons]

theorem Keyed.replaceAgain {container v : Value} (hcontainer : container.Keyed) (hv : v.Keyed)
    (label : Nat) : (Value.replaceAgain label container v).Keyed := by
  induction hv with
  | @plain v h =>
      cases v with
      | again l kind =>
          rw [Value.replaceAgain]
          split
          · exact hcontainer
          · exact .plain rfl
      | list | pair | map | loop => exact absurd h Bool.false_ne_true
      | _ =>
          exact .plain rfl
  | list h ih =>
      rw [Value.replaceAgain, replaceInItems_eq_map]
      refine .list fun v hmem => ?_
      obtain ⟨item, hitem, rfl⟩ := List.mem_map.mp hmem
      exact ih item hitem
  | pair h₁ h₂ ih₁ ih₂ =>
      rw [Value.replaceAgain]
      exact .pair ih₁ ih₂
  | map hdistinct h ih =>
      rw [Value.replaceAgain, replaceInEntries_eq_map]
      refine .map ?_ fun entry hmem => ?_
      · rw [Distinct, List.map_map]
        exact hdistinct
      · obtain ⟨entry', hentry, rfl⟩ := List.mem_map.mp hmem
        exact ih entry' hentry
  | loop l h ih =>
      rw [Value.replaceAgain]
      exact .loop l ih

theorem Keyed.unrolled {v : Value} (h : v.Keyed) : v.unrolled.Keyed := by
  cases h with
  | loop label h => exact (Keyed.loop label h).replaceAgain h label
  | @plain v hplain =>
      cases v with
      | loop => exact absurd hplain Bool.false_ne_true
      | _ => exact .plain hplain
  | list h => exact .list h
  | pair h₁ h₂ => exact .pair h₁ h₂
  | map hdistinct h => exact .map hdistinct h

/-- The entries of a mapping, if no mapping has a key twice. -/
theorem Keyed.entries {v : Value} {entries : List (Value × Value)} (h : v.Keyed)
    (hentries : v.entries? = some entries) :
    Distinct entries ∧ ∀ entry ∈ entries, entry.2.Keyed := by
  rw [entries?] at hentries
  have hunrolled := h.unrolled
  split at hentries
  · rename_i found hfound
    rw [hfound] at hunrolled
    cases hentries
    cases hunrolled with
    | plain h => exact absurd h Bool.false_ne_true
    | map hdistinct h => exact ⟨hdistinct, h⟩
  · cases hentries

end Value

namespace Yaml

open Value (Distinct)

/-- What is known after one more place has become known. -/
theorem known_after_set {α : Type} {known : Array (Option α)} {number other : Nat} {a b : α}
    (h : ((known.setIfInBounds number (some a))[other]?).join = some b) :
    b = a ∨ (known[other]?).join = some b := by
  rw [Array.getElem?_setIfInBounds] at h
  split at h
  · split at h
    · exact .inl (Option.some.inj h).symm
    · cases h
  · exact .inr h

theorem not_known_replicate {α : Type} {size number : Nat} {a : α} :
    ((Array.replicate size (none : Option α))[number]?).join ≠ some a := by
  rw [Array.getElem?_replicate]
  split <;> simp

/-! ## Meanings -/

/-- The meaning of a node, if it is known. -/
def Meaning.Keyed : Meaning → Prop
  | .single v => v.Keyed
  | .map entries => Distinct entries
  | _ => True

/-- What is known of the meanings of nodes has no key twice. -/
def Interpretation.Keyed (i : Interpretation) : Prop :=
  ∀ (number : Nat) (meaning : Meaning), (i.meanings[number]?).join = some meaning → meaning.Keyed

theorem isPlain_timestamp {s : List Char} {v : Value} (h : timestamp? s = some v) :
    v.isPlain = true := by
  unfold timestamp? at h
  obtain ⟨spelling, -, h⟩ := Option.bind_eq_some_iff.mp h
  obtain ⟨date, -, h⟩ := Option.bind_eq_some_iff.mp h
  split at h
  · cases h
    rfl
  · dsimp only at h
    split at h <;>
    · obtain ⟨offset, -, h⟩ := Option.bind_eq_some_iff.mp h
      obtain ⟨moment, -, h⟩ := Option.bind_eq_some_iff.mp h
      cases h
      rfl

theorem isPlain_scalar {tag : Tag} {points : CodePoints} {v : Value}
    (h : scalar? tag points = some v) : v.isPlain = true := by
  unfold scalar? at h
  split at h
  · cases h
    rfl
  · cases h
    rw [Value.ofPoints]
    split <;> rfl
  · obtain ⟨s, -, h⟩ := Option.bind_eq_some_iff.mp h
    split at h
    · obtain ⟨b, -, rfl⟩ := Option.map_eq_some_iff.mp h
      rfl
    · obtain ⟨n, -, rfl⟩ := Option.map_eq_some_iff.mp h
      rfl
    · obtain ⟨x, -, rfl⟩ := Option.map_eq_some_iff.mp h
      rfl
    · split at h
      · obtain ⟨data, -, rfl⟩ := Option.map_eq_some_iff.mp h
        rfl
      · cases h
    · exact isPlain_timestamp h
    · cases h

namespace Interpret

/-- A step with an outcome that has the property `P`, after which no key stands twice if none did
before. -/
def Keeps {α : Type} (P : α → Prop) (step : Interpret α) : Prop :=
  ∀ i, i.Keyed → ∀ a i', step i = some (a, i') → P a ∧ i'.Keyed

variable {α β : Type} {P : α → Prop} {Q : β → Prop}

theorem Keeps.pure {a : α} (h : P a) : Keeps P (pure a) := by
  intro i hi b i' hstep
  cases hstep
  exact ⟨h, hi⟩

theorem Keeps.bind {step : Interpret α} {next : α → Interpret β} (h : Keeps P step)
    (hnext : ∀ a, P a → Keeps Q (next a)) : Keeps Q (step >>= next) := by
  intro i hi b i' hstep
  cases hfirst : step i with
  | none =>
      have hnone : (step >>= next) i = none := by
        show (step i).bind _ = none
        rw [hfirst]
        rfl
      rw [hnone] at hstep
      cases hstep
  | some r =>
      obtain ⟨a, i₁⟩ := r
      have hsecond : next a i₁ = some (b, i') := by
        rw [← hstep]
        show _ = (step i).bind _
        rw [hfirst]
        rfl
      obtain ⟨ha, hi₁⟩ := h i hi a i₁ hfirst
      exact hnext a ha i₁ hi₁ b i' hsecond

theorem Keeps.fail : Keeps P (fail : Interpret α) := by
  intro i hi a i' hstep
  cases hstep

theorem Keeps.demand {result : Option α} (h : ∀ a, result = some a → P a) :
    Keeps P (demand result) := by
  intro i hi a i' hstep
  cases result with
  | none => cases hstep
  | some b =>
      cases hstep
      exact ⟨h a rfl, hi⟩

theorem Keeps.demand_any (result : Option α) : Keeps (fun _ => True) (Interpret.demand result) :=
  .demand fun _ _ => trivial

theorem Keeps.get : Keeps (fun i => i.Keyed) (get : Interpret Interpretation) := by
  intro i hi a i' hstep
  cases hstep
  exact ⟨hi, hi⟩

theorem Keeps.modify {f : Interpretation → Interpretation} (h : ∀ i, i.Keyed → (f i).Keyed) :
    Keeps (fun _ => True) (modify f : Interpret Unit) := by
  intro i hi a i' hstep
  cases hstep
  exact ⟨trivial, h i hi⟩

theorem Keeps.setMeaning {number : Nat} {meaning : Meaning} (h : meaning.Keyed) :
    Keeps (fun _ => True) (setMeaning number meaning) := by
  refine .modify fun i hi other known hknown => ?_
  rcases known_after_set hknown with rfl | hknown
  · exact h
  · exact hi other known hknown

theorem Keeps.forM {step : α → Interpret PUnit} (h : ∀ a, Keeps (fun _ => True) (step a))
    (l : List α) : Keeps (fun _ => True) (l.forM step) := by
  induction l with
  | nil => exact .pure trivial
  | cons a rest ih => exact .bind (h a) fun _ _ => ih

theorem Keeps.mapM {step : α → Interpret β} (h : ∀ a, Keeps (fun _ => True) (step a))
    (l : List α) : Keeps (fun _ => True) (l.mapM step) := by
  induction l with
  | nil => exact .pure trivial
  | cons a rest ih =>
      rw [List.mapM_cons]
      exact .bind (h a) fun _ _ => .bind ih fun _ _ => .pure trivial

theorem Keeps.foldlM {step : β → α → Interpret β} (h : ∀ b, Q b → ∀ a, Keeps Q (step b a))
    (l : List α) {b : β} (hb : Q b) : Keeps Q (l.foldlM step b) := by
  induction l generalizing b with
  | nil => exact .pure hb
  | cons a rest ih => exact .bind (h b hb a) fun _ hb' => ih hb'

/-! ## Steps of interpretation -/

theorem keeps_meaning? (number : Nat) :
    Keeps (fun found => ∀ meaning, found = some meaning → meaning.Keyed) (meaning? number) :=
  .bind .get fun _ hi => .pure fun meaning hmeaning => hi number meaning hmeaning

theorem keeps_visit (number : Nat) : Keeps (fun _ => True) (visit number) := by
  refine .bind (keeps_meaning? number) fun found _ => ?_
  split
  · exact .pure trivial
  · refine .bind .get fun i _ => .bind (Keeps.demand_any _) fun tag _ => ?_
    split
    case h_6 =>
      split
      · exact .fail
      · refine .bind (.demand_any _) fun text _ =>
          .bind (.demand fun v hv => isPlain_scalar hv) fun v hv => ?_
        exact .setMeaning (.plain hv)
    all_goals
      exact .bind (.setMeaning trivial) fun _ _ => .modify fun i hi => hi

theorem keeps_keyOf (number : Nat) : Keeps (fun _ => True) (keyOf number) := by
  refine .bind (keeps_visit number) fun _ _ => .bind (keeps_meaning? number) fun found _ => ?_
  split
  · exact .pure trivial
  · exact .fail

theorem keeps_mappingOf (number : Nat) : Keeps Distinct (mappingOf number) := by
  refine .bind .get fun i _ => .bind (.demand_any _) fun (nodes, entries) _ =>
    .bind (.modify fun i hi => hi) fun _ _ => ?_
  refine .foldlM (fun found hfound (key, value) => ?_) entries List.Pairwise.nil
  exact .bind (keeps_keyOf key) fun k _ => .bind (keeps_visit value) fun _ _ =>
    .pure (hfound.insert k value)

theorem keeps_pairOf (number : Nat) : Keeps (fun _ => True) (pairOf number) := by
  refine .bind .get fun i _ => ?_
  split
  · exact .bind (keeps_visit _) fun _ _ => .bind (keeps_visit _) fun _ _ => .pure trivial
  · exact .fail

theorem keeps_itemsOf (number : Nat) : Keeps (fun _ => True) (itemsOf number) := by
  refine .bind .get fun i _ => ?_
  split
  · exact .pure trivial
  · exact .fail

theorem keeps_interpret (number : Nat) : Keeps (fun _ => True) (interpret number) := by
  refine .bind .get fun i _ => ?_
  split
  · exact .bind (keeps_itemsOf number) fun items _ => .bind (.forM keeps_visit items) fun _ _ =>
      .setMeaning trivial
  · exact .bind (keeps_mappingOf number) fun entries hentries => .setMeaning hentries
  · exact .bind (keeps_mappingOf number) fun entries _ => .setMeaning trivial
  · exact .bind (keeps_itemsOf number) fun items _ => .bind (.mapM keeps_pairOf items) fun _ _ =>
      .setMeaning trivial
  · exact .bind (keeps_itemsOf number) fun items _ => .bind (.mapM keeps_pairOf items) fun _ _ =>
      .setMeaning trivial
  · exact .fail

theorem keeps_interpretAll (fuel : Nat) : Keeps (fun _ => True) (interpretAll fuel) := by
  induction fuel with
  | zero => exact .fail
  | succ fuel ih =>
      rw [interpretAll]
      refine .bind .get fun i _ => ?_
      dsimp only
      split
      · exact .pure trivial
      · exact .bind (.modify fun i hi => hi) fun _ _ =>
          .bind (.forM keeps_interpret _) fun _ _ => ih

end Interpret
/-! ## Steps of unfolding -/

/-- No mapping in a value that is unfolded already has a key twice. -/
def Unfolding.Keyed (known : Unfolding) : Prop :=
  ∀ (number : Nat) (v : Value), (known[number]?).join = some v → v.Keyed

/-- A step with an outcome that has the property `P`, after which no key stands twice if none did
before. -/
def Unfolds {α : Type} (P : α → Prop) (step : StateM Unfolding α) : Prop :=
  ∀ known, Unfolding.Keyed known → P (step known).1 ∧ Unfolding.Keyed (step known).2

section Unfolding

variable {α β : Type} {P : α → Prop} {Q : β → Prop}

theorem Unfolds.pure {a : α} (h : P a) : Unfolds P (pure a) := fun _ hknown => ⟨h, hknown⟩

theorem Unfolds.bind {step : StateM Unfolding α} {next : α → StateM Unfolding β}
    (h : Unfolds P step) (hnext : ∀ a, P a → Unfolds Q (next a)) : Unfolds Q (step >>= next) := by
  intro known hknown
  obtain ⟨ha, hknown₁⟩ := h known hknown
  exact hnext _ ha _ hknown₁

theorem Unfolds.get : Unfolds Unfolding.Keyed (get : StateM Unfolding Unfolding) :=
  fun _ hknown => ⟨hknown, hknown⟩

theorem Unfolds.mapM {R : α → β → Prop} {step : α → StateM Unfolding β}
    (h : ∀ a, Unfolds (R a) (step a)) (l : List α) :
    Unfolds (List.Forall₂ R l) (l.mapM step) := by
  induction l with
  | nil => exact .pure .nil
  | cons a rest ih =>
      rw [List.mapM_cons]
      exact .bind (h a) fun b hb => .bind ih fun bs hbs => .pure (.cons hb hbs)

theorem forall_of_forall₂ {R : α → β → Prop} {l : List α} {l' : List β} (h : List.Forall₂ R l l')
    (hR : ∀ a b, R a b → Q b) : ∀ b ∈ l', Q b := by
  induction h with
  | nil => simp
  | cons hab _ ih => exact List.forall_mem_cons.mpr ⟨hR _ _ hab, ih⟩

theorem unfolds_finish {v : Value} (hv : v.Keyed) (number : Nat) (labels : List Nat) :
    Unfolds (fun r => r.1.Keyed) (finish number v labels) := by
  have hvalue : (if labels.contains number then Value.loop number v else v).Keyed := by
    split
    · exact .loop number hv
    · exact hv
  rw [finish]
  generalize (if labels.contains number then Value.loop number v else v) = value at hvalue
  dsimp only
  split
  · refine .bind (P := fun _ => True) (fun known hknown => ⟨trivial, ?_⟩) fun _ _ => .pure hvalue
    intro other w hw
    rcases known_after_set hw with rfl | hw
    · exact hvalue
    · exact hknown other w hw
  · exact .pure hvalue

theorem unfolds_unfold {meanings : Array (Option Meaning)}
    (hmeanings : ∀ (number : Nat) (meaning : Meaning),
      (meanings[number]?).join = some meaning → meaning.Keyed)
    (fuel : Nat) (around : List Nat) (number : Nat) :
    Unfolds (fun r => r.1.Keyed) (unfold meanings fuel around number) := by
  induction fuel generalizing around number with
  | zero => exact .pure (.plain rfl)
  | succ fuel ih =>
      rw [unfold]
      dsimp only
      refine .bind .get fun known hknown => ?_
      split
      · rename_i value hvalue
        exact .pure (hknown number value hvalue)
      · exact .pure (.plain rfl)
      · rename_i v hv _
        exact .pure (hmeanings number (.single v) hv)
      · exact .pure (.plain rfl)
      · rename_i items _ _
        split
        · exact .pure (.plain rfl)
        · refine .bind (.mapM (ih (number :: around)) items) fun parts hparts => ?_
          refine unfolds_finish (.list ?_) number _
          simpa using forall_of_forall₂ hparts fun _ part hpart => hpart
      · rename_i entries _ _
        split
        · exact .pure (.plain rfl)
        · refine .bind (Unfolds.mapM (R := fun _ part => part.1.Keyed) (fun entry => ?_) entries) ?_
          · exact .bind (ih (number :: around) entry.1) fun first hfirst =>
              .bind (ih (number :: around) entry.2) fun second hsecond =>
                .pure (.pair hfirst hsecond)
          · intro parts hparts
            refine unfolds_finish (.list ?_) number _
            simpa using forall_of_forall₂ hparts fun _ part hpart => hpart
      · rename_i entries hentries _
        split
        · exact .pure (.plain rfl)
        · refine .bind (Unfolds.mapM
            (R := fun entry part => entry.1 = part.1.1 ∧ part.1.2.Keyed)
            (fun entry => ?_) entries) ?_
          · exact .bind (ih (number :: around) entry.2) fun part hpart => .pure ⟨rfl, hpart⟩
          · intro parts hparts
            refine unfolds_finish (.map ?_ ?_) number _
            · have hkeys : entries.map Prod.fst = (parts.map Prod.fst).map Prod.fst := by
                rw [List.map_map, ← List.forall₂_eq_eq_eq, List.forall₂_map_left_iff,
                  List.forall₂_map_right_iff]
                exact hparts.imp fun _ _ hpart => hpart.1
              rw [Distinct, ← hkeys]
              exact hmeanings number (.map entries) hentries
            · simpa using forall_of_forall₂ hparts fun _ part hpart => hpart.2

end Unfolding

theorem keyed_valueOf {nodes : Nodes} {top : Nat} {v : Value} (h : valueOf nodes top = some v) :
    v.Keyed := by
  obtain ⟨⟨_, i⟩, hi, h⟩ := Option.bind_eq_some_iff.mp h
  cases h
  have hstart : Interpretation.Keyed ⟨nodes, Array.replicate nodes.size none, []⟩ :=
    fun _ _ hmeaning => absurd hmeaning not_known_replicate
  have hkeeps : Interpret.Keeps (fun _ => True)
      (do Interpret.visit top; Interpret.interpretAll (nodes.size + 1)) :=
    .bind (Interpret.keeps_visit top) fun _ _ => Interpret.keeps_interpretAll _
  obtain ⟨-, hmeanings⟩ := hkeeps _ hstart _ _ hi
  exact (unfolds_unfold hmeanings _ _ _ _ fun _ _ hv => absurd hv not_known_replicate).1

/-- No mapping in the value of a text has a key twice. -/
theorem keyed_read {text : String} {v : Value} (h : read text = some v) : v.Keyed := by
  rw [read] at h
  dsimp only at h
  split at h
  · obtain ⟨tokens, -, h⟩ := Option.bind_eq_some_iff.mp h
    obtain ⟨⟨nodes, top⟩, -, h⟩ := Option.bind_eq_some_iff.mp h
    split at h
    · cases h
      exact .plain rfl
    · exact keyed_valueOf h
  · cases h

end Yaml
end SeededSketch
