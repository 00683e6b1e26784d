import SeededSketch.Fault
import SeededSketch.Text.Character

/-!
# Paths

Paths of files, as texts with slashes. A path is kept in parts: what it is counted from, and the
names on the way. Empty names and single dots are dropped on reading; double dots stay, since
what they lead to depends on the files. Two slashes in front, and no more than two, are kept.

A path's text may call on its surroundings: a tilde in front stands for a home directory, and a
dollar sign for a variable. What is not known stays as it stands; a name that cannot even be looked
up is a fault.

The text of a path may have surrogates in it. Such a path can be named but leads nowhere; its parts
show the replacement character for each surrogate.
-/

namespace SeededSketch

/-- Where a path is counted from. -/
inductive PathRoot where
  | here
  | slash
  | doubleSlash
  deriving DecidableEq, Repr

structure Path where
  root : PathRoot
  parts : List String
  /-- The first surrogates in the path that no name of a file can hold. -/
  unnameable : Option SurrogateRun := none
  deriving DecidableEq, Repr

/-- The directories and variables that a path's text may call on. -/
structure Surroundings where
  /-- The variables with their texts. -/
  bindings : List (String × String)
  /-- The names of accounts with their home directories. -/
  accounts : List (String × String)

namespace Path

def rootText : PathRoot → String
  | .here => ""
  | .slash => "/"
  | .doubleSlash => "//"

/-- The pieces of `s` between its slashes. -/
def splitSlashes (s : List Char) : List (List Char) :=
  s.foldr (fun c pieces =>
    if c = '/' then [] :: pieces
    else match pieces with
      | piece :: rest => (c :: piece) :: rest
      | [] => [[c]]) [[]]

/-- Reads a path. -/
def ofString (s : String) : Path :=
  let root := match s.toList with
    | '/' :: '/' :: '/' :: _ => PathRoot.slash
    | '/' :: '/' :: _ => .doubleSlash
    | '/' :: _ => .slash
    | _ => .here
  let parts := (splitSlashes s.toList).filterMap fun piece =>
    if piece.isEmpty || piece == ['.'] then none else some (String.ofList piece)
  { root, parts }

/-- The text of a path; a single dot if there is nothing else. -/
def text (p : Path) : String :=
  if p.root = .here ∧ p.parts.isEmpty then "."
  else rootText p.root ++ String.intercalate "/" p.parts

def isAbsolute (p : Path) : Bool := p.root ≠ .here

/-- The path `q`, counted from `p` unless it is absolute. -/
def join (p q : Path) : Path := if q.isAbsolute then q else { p with parts := p.parts ++ q.parts }

/-- The path without its last name, and without the surrogates in that name. -/
def parent (p : Path) : Path :=
  let above := p.parts.dropLast
  let length := (rootText p.root ++ String.intercalate "/" above).length
  { p with parts := above, unnameable := p.unnameable.filter fun run => run.start < length }

/-- Reads a path in whose text surrogates may be. -/
def ofPoints (points : CodePoints) : Path :=
  let path := ofString (.ofList points.visible)
  let replaced := points.filter fun n => CodePoints.isSurrogate n || n == '�'.toNat
  { path with unnameable := (CodePoints.refill path.text.toList replaced).unnameable? 0 }

end Path

/-! ## Calling on the surroundings -/

namespace Surroundings

/-- What is bound to a name, if the name is one that can be looked up. -/
def lookup? (bindings : List (String × String)) (name : CodePoints) :
    Except Fault (Option String) :=
  match name.unnameable? 0 with
  | some run => .error (.unnameable run)
  | none => .ok (name.toChars?.bind fun s => bindings.lookup (.ofList s))

/-- The home directory that follows a tilde: one's own after the tilde alone, otherwise that of
an account, whose name cannot have the character zero in it. -/
def home? (s : Surroundings) (account : CodePoints) : Except Fault (Option String) :=
  if account.isEmpty then .ok ((s.bindings.lookup "HOME").or (s.accounts.head?.map Prod.snd))
  else do
    let home ← lookup? s.accounts account
    if account.contains 0 then .error .zeroInPath else return home

private def slash : Nat := '/'.toNat

private def withoutTrailingSlashes (text : CodePoints) : CodePoints :=
  (text.reverse.dropWhile (· == slash)).reverse

/-- A text with the home directory in place of a tilde in front. An unknown account's stays. -/
def expandHome (s : Surroundings) (text : CodePoints) : Except Fault CodePoints := do
  match text with
  | 0x7e :: rest =>
    match ← s.home? (rest.takeWhile (· != slash)) with
    | none => return text
    | some home =>
      let expanded :=
        withoutTrailingSlashes (.ofChars home.toList) ++ rest.dropWhile (· != slash)
      return if expanded.isEmpty then [slash] else expanded
  | _ => return text

/-- Whether a variable's name outside braces can have a code point in it. -/
def isNamePoint (n : Nat) : Bool := Text.isNameCharacter (Char.ofNat n)

/-- A reference to a variable behind a dollar sign: its name, in braces or not, and what follows.
Without a closing brace or a name it is no reference. -/
def reference? (afterDollar : CodePoints) : Option (CodePoints × CodePoints) :=
  match afterDollar with
  | 0x7b :: rest =>
    match rest.dropWhile (· != 0x7d) with
    | _ :: after => some (rest.takeWhile (· != 0x7d), after)
    | [] => none
  | _ =>
    let name := afterDollar.takeWhile isNamePoint
    if name.isEmpty then none else some (name, afterDollar.dropWhile isNamePoint)

theorem reference?_length_lt {s name rest : CodePoints} (h : reference? s = some (name, rest)) :
    rest.length < s.length := by
  unfold reference? at h
  split at h
  · rename_i tail
    split at h
    · rename_i after heq
      have hle := (List.dropWhile_suffix (p := (· != 0x7d)) (l := tail)).length_le
      rw [heq] at hle
      simp only [Option.some.injEq, Prod.mk.injEq] at h
      rw [← h.2]
      simp only [List.length_cons] at hle ⊢
      omega
    · simp at h
  · dsimp only at h
    split at h
    · simp at h
    · rename_i hne
      simp only [Option.some.injEq, Prod.mk.injEq] at h
      rw [← h.2]
      have hsplit := congrArg List.length
        (List.takeWhile_append_dropWhile (p := isNamePoint) (l := s))
      simp only [List.length_append] at hsplit
      have hpos : 0 < (s.takeWhile isNamePoint).length := by
        cases hs : s.takeWhile isNamePoint with
        | nil => simp [hs] at hne
        | cons _ _ => simp
      omega

/-- A text with the texts of variables in place of the references to them. Unknown variables
stay, and what a variable brings in is not looked at again. -/
def expandVariables (s : Surroundings) (text : CodePoints) : Except Fault CodePoints :=
  match text with
  | [] => .ok []
  | 0x24 :: rest =>
    match h : reference? rest with
    | none => do return 0x24 :: (← expandVariables s rest)
    | some (name, after) =>
      have := reference?_length_lt h
      do
        let expanded : CodePoints :=
          match ← lookup? s.bindings name with
          | some value => .ofChars value.toList
          | none => 0x24 :: rest.take (rest.length - after.length)
        return expanded ++ (← expandVariables s after)
  | n :: rest => do return n :: (← expandVariables s rest)
termination_by text.length
decreasing_by all_goals simp only [List.length_cons]; omega

/-- A text with home directory and variables put in, the home directory first. -/
def expand (s : Surroundings) (text : CodePoints) : Except Fault CodePoints := do
  s.expandVariables (← s.expandHome text)

/-- The path `p` with the home directory in place of a tilde in front, which must be known.
Surrogates behind the first name stay, at a place counted from the end of the text. -/
def expandHomePath (s : Surroundings) (p : Path) : Except Fault Path := do
  match p.root, p.parts with
  | .here, first :: rest =>
    if first.toList.head? == some '~' then
      match p.unnameable.filter fun run => run.start < first.length with
      | some run => .error (.unnameable { run with start := run.start - 1 })
      | none =>
        let home ← s.expandHome (.ofChars first.toList)
        if home.head? == some '~'.toNat then .error .homeUnknown
        else
          let path := (Path.ofPoints home).join { root := .here, parts := rest }
          let unnameable := p.unnameable.map fun run =>
            { run with start := run.start + path.text.length - p.text.length }
          return { path with unnameable }
    else return p
  | _, _ => return p

end Surroundings
end SeededSketch
