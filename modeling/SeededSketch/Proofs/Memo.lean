import Mathlib.Data.Finset.Insert
import Mathlib.Data.Finset.Dedup
import SeededSketch.Expr

/-!
# The memo as a finite map

A pass looks names up and records numbers under them.  Read as a map, recording changes one entry
and leaves all others as they were, and the set of recorded names grows by that name alone.

The statements are about memos that hold doubles only.  Every memo is of that kind that a pass
builds up from nothing; only a memo that is supplied from outside can hold something else.
-/

namespace SeededSketch

/-- The values that are doubles. -/
def Value.IsReal (v : Value) : Prop := ∃ x : Float, v = .number (.real x)

theorem Value.isReal_real (x : Float) : Value.IsReal (.number (.real x)) := ⟨x, rfl⟩

namespace Memo

/-- Every recorded value is a double. -/
def IsReal (memo : Memo) : Prop := ∀ entry ∈ memo.entries, entry.2.IsReal

/-- The recorded names. -/
def names (memo : Memo) : Finset String := (memo.entries.map Prod.fst).toFinset

theorem isReal_empty : empty.IsReal := by
  intro entry hentry
  simp [empty] at hentry

@[simp] theorem names_empty : empty.names = ∅ := rfl

@[simp] theorem find?_empty (name : String) : empty.find? name = none := rfl

/-! ## Recording -/

private theorem lookup_put_self (entries : List (String × Value)) (name : String) (value : Value) :
    (record.put name value entries).lookup name = some value := by
  induction entries with
  | nil => simp [record.put]
  | cons entry rest ih =>
      obtain ⟨first, found⟩ := entry
      by_cases h : first = name
      · simp [record.put, h]
      · have hne : (name == first) = false := by simpa using fun hc => h hc.symm
        simp only [record.put, beq_iff_eq, h, if_false, List.lookup_cons, hne]
        exact ih

private theorem lookup_put_of_ne (entries : List (String × Value)) {name other : String}
    (value : Value) (h : other ≠ name) :
    (record.put name value entries).lookup other = entries.lookup other := by
  have hne : (other == name) = false := by simpa using h
  induction entries with
  | nil => simp [record.put, List.lookup_cons, hne]
  | cons entry rest ih =>
      obtain ⟨first, found⟩ := entry
      by_cases he : first = name
      · simp [record.put, he, List.lookup_cons, hne]
      · simp only [record.put, beq_iff_eq, he, if_false, List.lookup_cons, ih]

/-- A recorded double is found again under its name, and no other name is touched. -/
@[simp] theorem find?_record (memo : Memo) (name other : String) (x : Float) :
    (memo.record name (.number (.real x))).find? other =
      if other = name then some (.number (.real x)) else memo.find? other := by
  by_cases h : other = name
  · subst h
    simp only [find?, record, lookup_put_self, if_true]
  · simp only [find?, record, lookup_put_of_ne _ _ h, if_neg h]

private theorem map_fst_put (entries : List (String × Value)) (name : String) (value : Value) :
    ((record.put name value entries).map Prod.fst).toFinset =
      insert name (entries.map Prod.fst).toFinset := by
  induction entries with
  | nil => simp [record.put]
  | cons entry rest ih =>
      by_cases h : entry.1 = name
      · simp [record.put, h]
      · simp only [record.put, beq_iff_eq, h, if_false, List.map_cons, List.toFinset_cons, ih]
        exact Finset.insert_comm _ _ _

@[simp] theorem names_record (memo : Memo) (name : String) (value : Value) :
    (memo.record name value).names = insert name memo.names :=
  map_fst_put memo.entries name value

private theorem mem_put {entries : List (String × Value)} {name : String} {value : Value}
    {entry : String × Value} (h : entry ∈ record.put name value entries) :
    entry = (name, value) ∨ entry ∈ entries := by
  induction entries with
  | nil => simpa [record.put] using h
  | cons first rest ih =>
      by_cases he : first.1 = name
      · simp only [record.put, beq_iff_eq, he, if_true, List.mem_cons] at h
        exact h.imp_right (List.mem_cons_of_mem _)
      · simp only [record.put, beq_iff_eq, he, if_false, List.mem_cons] at h
        rcases h with rfl | h
        · exact Or.inr (by simp)
        · exact (ih h).imp_right (List.mem_cons_of_mem _)

theorem IsReal.record {memo : Memo} (h : memo.IsReal) (name : String) (x : Float) :
    (memo.record name (.number (.real x))).IsReal := by
  intro entry hentry
  rcases mem_put hentry with rfl | hmem
  · exact Value.isReal_real x
  · exact h entry hmem

/-! ## Looking up -/

private theorem mem_of_lookup {entries : List (String × Value)} {name : String} {value : Value}
    (h : entries.lookup name = some value) : (name, value) ∈ entries := by
  obtain ⟨before, after, rfl, -⟩ := List.lookup_eq_some_iff.mp h
  simp

theorem IsReal.find? {memo : Memo} (h : memo.IsReal) {name : String} {value : Value}
    (hfind : memo.find? name = some value) : value.IsReal := by
  unfold Memo.find? at hfind
  split at hfind
  · contradiction
  · exact h _ (mem_of_lookup hfind)

/-- In a memo of doubles a name is missing exactly when nothing is found under it. -/
theorem IsReal.find?_eq_none_iff {memo : Memo} (h : memo.IsReal) (name : String) :
    memo.find? name = none ↔ name ∉ memo.names := by
  have hnames : name ∉ memo.names ↔ memo.entries.lookup name = none := by
    simp only [names, List.mem_toFinset, List.mem_map, not_exists, not_and,
      List.lookup_eq_none_iff, bne_iff_ne, ne_eq, @eq_comm _ name]
  rw [hnames]
  unfold Memo.find?
  split
  · next hnull =>
      obtain ⟨x, hx⟩ := h _ (mem_of_lookup hnull)
      cases hx
  · rfl

end Memo

@[simp] theorem Context.memo_record (c : Context) (name : String) (value : Value) :
    (c.record name value).memo = c.memo.record name value := rfl

@[simp] theorem Context.stream_record (c : Context) (name : String) (value : Value) :
    (c.record name value).stream = c.stream := rfl

@[simp] theorem Context.memo_withStream (c : Context) (stream : Stream) :
    (c.withStream stream).memo = c.memo := rfl

@[simp] theorem Context.stream_withStream (c : Context) (stream : Stream) :
    (c.withStream stream).stream = stream := rfl

@[simp] theorem Context.memo_fresh (stream : Stream) : (fresh stream).memo = .empty := rfl

@[simp] theorem Context.stream_fresh (stream : Stream) : (fresh stream).stream = stream := rfl

end SeededSketch
