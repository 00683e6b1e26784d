import SeededSketch.Proofs.Order
import SeededSketch.World

/-!
# Files that are written

A file that was written or saved under a path has its content when the path is followed again.
This is not plain from the definitions, since a path may go up and down through the very directory
into which the file is put.

Which way a path takes depends on nothing but what is a directory and what is not: `World.route`
follows a path over these kinds alone, and `follow_eq_route` says that it is the way of the path.
Putting a file where there was a file or nothing changes the kind of no other place
(`kind_set?_of_ne`), so the path takes the same way as before.
-/

namespace SeededSketch

namespace FileTree

/-! ## Places in a tree -/

variable {name : String} {node tree tree' : FileTree}

theorem lookup_setEntry_self (name : String) (node : FileTree)
    (entries : List (String × FileTree)) : (setEntry name node entries).lookup name = some node := by
  induction entries with
  | nil => simp [setEntry]
  | cons entry rest ih =>
      by_cases h : entry.1 = name
      · simp [setEntry, h]
      · have hne : (name == entry.1) = false := beq_false_of_ne (Ne.symm h)
        rw [setEntry, if_neg (by simpa using h), List.lookup_cons, hne]
        exact ih

theorem lookup_setEntry_of_ne {other : String} (h : other ≠ name) (node : FileTree)
    (entries : List (String × FileTree)) :
    (setEntry name node entries).lookup other = entries.lookup other := by
  have hne : (other == name) = false := beq_false_of_ne h
  induction entries with
  | nil => simp [setEntry, List.lookup_cons, hne]
  | cons entry rest ih =>
      rw [setEntry, List.lookup_cons]
      split
      · rename_i heq
        have hname : entry.1 = name := by simpa using heq
        rw [List.lookup_cons, hname, hne]
      · rw [List.lookup_cons, ih]

theorem setEntry_setEntry (name : String) (first second : FileTree)
    (entries : List (String × FileTree)) :
    setEntry name second (setEntry name first entries) = setEntry name second entries := by
  induction entries with
  | nil => simp [setEntry]
  | cons entry rest ih =>
      by_cases h : entry.1 = name
      · simp [setEntry, h]
      · rw [setEntry, if_neg (by simpa using h), setEntry, if_neg (by simpa using h), ih, setEntry,
          if_neg (by simpa using h)]

/-- What kind of thing is at a place: a directory or a file, if anything. -/
def kind (tree : FileTree) (place : List String) : Option Bool :=
  (tree.find? place).map isDirectory

theorem find?_concat (tree : FileTree) (place : List String) (name : String) :
    tree.find? (place ++ [name]) =
      match tree.find? place with
      | some (.directory entries) => entries.lookup name
      | _ => none := by
  induction place generalizing tree with
  | nil =>
      cases tree with
      | file => rfl
      | directory entries =>
          show (entries.lookup name).bind (fun child => some child) = entries.lookup name
          cases entries.lookup name <;> rfl
  | cons first rest ih =>
      cases tree with
      | file => rfl
      | directory entries =>
          show (entries.lookup first).bind (fun child => child.find? (rest ++ [name])) =
            match (entries.lookup first).bind (fun child => child.find? rest) with
            | some (.directory entries) => entries.lookup name
            | _ => none
          cases entries.lookup first with
          | none => rfl
          | some child => exact ih child

/-- Putting a node below a tree puts it, or a part with the node in it, into one of its entries. -/
theorem set?_cons_eq_some {rest : List String} (h : tree.set? (name :: rest) node = some tree') :
    ∃ entries child', tree = .directory entries ∧
      tree' = .directory (setEntry name child' entries) ∧
      (rest = [] ∧ child' = node ∨
        ∃ child, entries.lookup name = some child ∧ child.set? rest node = some child') := by
  cases tree with
  | file =>
      cases rest <;> cases h
  | directory entries =>
      cases rest with
      | nil =>
          cases h
          exact ⟨entries, node, rfl, rfl, .inl ⟨rfl, rfl⟩⟩
      | cons next rest =>
          obtain ⟨child, hchild, h⟩ := Option.bind_eq_some_iff.mp h
          obtain ⟨child', hchild', h⟩ := Option.bind_eq_some_iff.mp h
          cases h
          exact ⟨entries, child', rfl, rfl, .inr ⟨child, hchild, hchild'⟩⟩

theorem set?_directory_cons_cons (entries : List (String × FileTree)) (name next : String)
    (rest : List String) (node : FileTree) :
    (directory entries).set? (name :: next :: rest) node =
      (entries.lookup name).bind fun child =>
        (child.set? (next :: rest) node).map fun child' =>
          directory (setEntry name child' entries) := by
  show (entries.lookup name).bind _ = _
  congr
  funext child
  cases child.set? (next :: rest) node <;> rfl

theorem find?_nil (tree : FileTree) : tree.find? [] = some tree := by
  cases tree <;> rfl

/-- What was put at a place is there. -/
theorem find?_set?_self {place : List String} (h : tree.set? place node = some tree') :
    tree'.find? place = some node := by
  induction place generalizing tree tree' with
  | nil =>
      have hsame : some node = some tree' := by
        cases tree <;> exact h
      rw [find?_nil, hsame]
  | cons name rest ih =>
      obtain ⟨entries, child', rfl, rfl, hchild⟩ := set?_cons_eq_some h
      show ((setEntry name child' entries).lookup name).bind (fun child => child.find? rest) = _
      rw [lookup_setEntry_self, Option.bind_some]
      obtain ⟨rfl, rfl⟩ | ⟨child, -, hset⟩ := hchild
      · cases child' <;> rfl
      · exact ih hset

/-- Of two nodes that are put at a place one after the other, the second is what counts. -/
theorem set?_set? {place : List String} {first second : FileTree}
    (h : tree.set? place first = some tree') : tree'.set? place second = tree.set? place second := by
  induction place generalizing tree tree' with
  | nil => cases tree <;> cases tree' <;> rfl
  | cons name rest ih =>
      obtain ⟨entries, child', rfl, rfl, hchild⟩ := set?_cons_eq_some h
      cases rest with
      | nil =>
          show some (directory _) = some (directory _)
          rw [setEntry_setEntry]
      | cons next rest =>
          obtain ⟨hnil, -⟩ | ⟨child, hlookup, hset⟩ := hchild
          · cases hnil
          · rw [set?_directory_cons_cons, set?_directory_cons_cons, lookup_setEntry_self, hlookup,
              Option.bind_some, Option.bind_some, ih hset]
            simp only [setEntry_setEntry]

/-- Whether a node can be put at a place does not depend on the node. -/
theorem exists_set?_of_set? {place : List String} {first : FileTree}
    (h : tree.set? place first = some tree') (second : FileTree) :
    ∃ tree'', tree.set? place second = some tree'' := by
  induction place generalizing tree tree' with
  | nil => exact ⟨second, by cases tree <;> rfl⟩
  | cons name rest ih =>
      obtain ⟨entries, child', rfl, rfl, hchild⟩ := set?_cons_eq_some h
      cases rest with
      | nil => exact ⟨_, rfl⟩
      | cons next rest =>
          obtain ⟨hnil, -⟩ | ⟨child, hlookup, hset⟩ := hchild
          · cases hnil
          · obtain ⟨child'', hchild''⟩ := ih hset
            refine ⟨directory (setEntry name child'' entries), ?_⟩
            rw [set?_directory_cons_cons, hlookup, Option.bind_some, hchild'', Option.map_some]

theorem find?_file_cons (content : Content) (name : String) (rest : List String) :
    (file content).find? (name :: rest) = none := rfl

/-- What is at a place of a directory is decided by the entry of the place's first name. -/
theorem find?_directory_cons (entries : List (String × FileTree)) (name : String)
    (rest : List String) :
    (directory entries).find? (name :: rest) =
      (entries.lookup name).bind fun child => child.find? rest := rfl

theorem kind_directory_cons (entries : List (String × FileTree)) (name : String)
    (rest : List String) :
    (directory entries).kind (name :: rest) =
      (entries.lookup name).bind fun child => child.kind rest := by
  rw [kind, find?_directory_cons]
  cases entries.lookup name <;> rfl

/-- Putting a file where there was a file or nothing changes no other place, as long as of a
directory nothing is asked but that it is one. -/
theorem map_find?_set?_of_ne {α : Type} (ask : FileTree → α)
    (hask : ∀ entries entries', ask (directory entries) = ask (directory entries'))
    {content : Content} {place other : List String} (hfree : tree.kind place ≠ some true)
    (h : tree.set? place (.file content) = some tree') (hne : other ≠ place) :
    (tree'.find? other).map ask = (tree.find? other).map ask := by
  induction place generalizing tree tree' other with
  | nil =>
      obtain ⟨name, rest, rfl⟩ := List.exists_cons_of_ne_nil hne
      cases tree with
      | file =>
          cases h
          rfl
      | directory => exact absurd rfl hfree
  | cons name rest ih =>
      obtain ⟨entries, child', rfl, rfl, hchild⟩ := set?_cons_eq_some h
      cases other with
      | nil => exact congrArg some (hask ..)
      | cons first more =>
          rw [find?_directory_cons, find?_directory_cons]
          by_cases hfirst : first = name
          · subst hfirst
            have hmore : more ≠ rest := fun heq => hne (heq ▸ rfl)
            rw [kind_directory_cons] at hfree
            rw [lookup_setEntry_self, Option.bind_some]
            obtain ⟨rfl, rfl⟩ | ⟨child, hlookup, hset⟩ := hchild
            · -- Nothing lies below the file, and nothing lay below what was there before.
              obtain ⟨next, more, rfl⟩ := List.exists_cons_of_ne_nil hmore
              rw [find?_file_cons]
              cases hlookup : entries.lookup first with
              | none => rfl
              | some child =>
                  cases child with
                  | file => rfl
                  | directory =>
                      rw [hlookup] at hfree
                      exact absurd rfl hfree
            · rw [hlookup, Option.bind_some] at hfree
              rw [hlookup, Option.bind_some]
              exact ih hfree hset hmore
          · rw [lookup_setEntry_of_ne hfirst]

theorem kind_set?_of_ne {content : Content} {place other : List String}
    (hfree : tree.kind place ≠ some true) (h : tree.set? place (.file content) = some tree')
    (hne : other ≠ place) : tree'.kind other = tree.kind other :=
  map_find?_set?_of_ne isDirectory (fun _ _ => rfl) hfree h hne

/-- What a file holds. -/
def content? : FileTree → Option Content
  | file content => some content
  | directory _ => none

theorem map_content?_eq_some {node : Option FileTree} {held : Content} :
    node.map content? = some (some held) ↔ node = some (.file held) := by
  rcases node with _ | content | entries <;> simp [content?]

/-- Putting a file where there was a file or nothing makes or changes no other file. -/
theorem find?_eq_file_set?_of_ne {content : Content} {place other : List String}
    (hfree : tree.kind place ≠ some true) (h : tree.set? place (.file content) = some tree')
    (hne : other ≠ place) (held : Content) :
    tree'.find? other = some (.file held) ↔ tree.find? other = some (.file held) := by
  rw [← map_content?_eq_some, ← map_content?_eq_some,
    map_find?_set?_of_ne content? (fun _ _ => rfl) hfree h hne]

end FileTree

namespace World

/-! ## The way of a path -/

/-- The place that names lead to from a place, over the kinds of the places of a tree. -/
def route (path : Path) (kind : List String → Option Bool) :
    List String → List String → Except Fault (List String)
  | place, [] => .ok place
  | place, name :: rest =>
    if kind place = some true then
      if name == ".." then route path kind place.dropLast rest
      else if longestName < name.utf8ByteSize then .error (.nameTooLong path.text)
      else if (kind (place ++ [name])).isSome then route path kind (place ++ [name]) rest
      else if rest.isEmpty then .ok (place ++ [name])
      else .error (.fileMissing path.text)
    else .error (.notDirectory path.text)

/-- Each part of a trail is what its names lead to. -/
def Along (top : FileTree) : List (String × FileTree) → Prop
  | [] => True
  | (name, node) :: before =>
    top.find? (((name, node) :: before).map Prod.fst).reverse = some node ∧ Along top before

theorem Along.find? {top : FileTree} {trail : List (String × FileTree)} (h : Along top trail) :
    top.find? (trail.map Prod.fst).reverse = some ((trail.head?.map Prod.snd).getD top) := by
  cases trail with
  | nil => exact top.find?_nil
  | cons step before => exact h.1

theorem Along.tail {top : FileTree} {trail : List (String × FileTree)} (h : Along top trail) :
    Along top trail.tail := by
  cases trail with
  | nil => exact h
  | cons step before => exact h.2

theorem follow_eq_route (path : Path) (top : FileTree) {trail : List (String × FileTree)}
    (htrail : Along top trail) (names : List String) :
    follow path top trail names =
      (route path top.kind (trail.map Prod.fst).reverse names).map
        fun place => ⟨place, top.find? place⟩ := by
  induction names generalizing trail with
  | nil =>
      show Except.ok _ = Except.ok (Place.mk _ (top.find? (trail.map Prod.fst).reverse))
      rw [htrail.find?]
  | cons name rest ih =>
      have hhere := htrail.find?
      rw [follow, route]
      cases hcurrent : (trail.head?.map Prod.snd).getD top with
      | file =>
          rw [hcurrent] at hhere
          rw [FileTree.kind, hhere]
          rfl
      | directory entries =>
          rw [hcurrent] at hhere
          have hkind : top.kind (trail.map Prod.fst).reverse = some true := by
            rw [FileTree.kind, hhere]
            rfl
          have hnext := top.find?_concat (trail.map Prod.fst).reverse name
          rw [hhere] at hnext
          rw [if_pos hkind]
          dsimp only at hnext ⊢
          split
          · rw [ih htrail.tail, List.map_tail, List.dropLast_reverse]
          · split
            · rfl
            · rw [FileTree.kind, hnext]
              cases hlookup : entries.lookup name with
              | none =>
                  rw [hlookup] at hnext
                  dsimp only [Option.map_none, Option.isSome_none]
                  rw [if_neg Bool.false_ne_true]
                  split
                  · show _ = Except.ok (Place.mk _ _)
                    rw [hnext]
                  · rfl
              | some child =>
                  rw [hlookup] at hnext
                  have hstep : Along top ((name, child) :: trail) := by
                    refine ⟨?_, htrail⟩
                    rw [List.map_cons, List.reverse_cons]
                    exact hnext
                  dsimp only [Option.map_some, Option.isSome_some]
                  rw [if_pos rfl, ih hstep, List.map_cons, List.reverse_cons]

/-- A way stays the same when a file is put at its end. -/
theorem route_congr (path : Path) {kind kind' : List String → Option Bool}
    {start target names : List String} (h : route path kind start names = .ok target)
    (hfree : kind target ≠ some true) (htarget : kind' target = some false)
    (hother : ∀ place, place ≠ target → kind' place = kind place) :
    route path kind' start names = .ok target := by
  induction names generalizing start with
  | nil => exact h
  | cons name rest ih =>
      rw [route] at h
      split at h
      · rename_i hstart
        have hne : start ≠ target := fun heq => hfree (heq ▸ hstart)
        rw [route, hother start hne, if_pos hstart]
        split at h
        · rename_i hup
          rw [if_pos hup]
          exact ih h
        · rename_i hdown
          rw [if_neg hdown]
          split at h
          · cases h
          · rename_i hlong
            rw [if_neg hlong]
            by_cases hend : start ++ [name] = target
            · -- The way ends here, since there is nothing behind a file.
              subst hend
              have hrest : rest = [] := by
                cases rest with
                | nil => rfl
                | cons next more =>
                    split at h
                    · rw [route, if_neg hfree] at h
                      cases h
                    · cases h
              subst hrest
              rw [htarget]
              rfl
            · rw [hother _ hend]
              split at h
              · rename_i hthere
                rw [if_pos hthere]
                exact ih h
              · rename_i hthere
                rw [if_neg hthere]
                exact h
      · cases h

/-! ## Writing and saving -/

/-- The names that a path is followed by. -/
def namesOf (w : World) (path : Path) : List String :=
  (if path.isAbsolute then [] else w.workingDirectory) ++ path.parts

/-- Where a path leads is decided by its way and the tree, in every world with the same working
directory. -/
theorem locate_eq_ok {w : World} {path : Path} {place : Place} (h : w.locate path = .ok place) :
    route path w.tree.kind [] (w.namesOf path) = .ok place.names ∧
      place.node = w.tree.find? place.names ∧
      ∀ w' : World, w'.workingDirectory = w.workingDirectory →
        w'.locate path = (route path w'.tree.kind [] (w.namesOf path)).map
          fun names => ⟨names, w'.tree.find? names⟩ := by
  have hfollow (top : FileTree) : follow path top [] (w.namesOf path) =
      (route path top.kind [] (w.namesOf path)).map fun names => ⟨names, top.find? names⟩ :=
    @follow_eq_route path top [] trivial (w.namesOf path)
  have hlocate : ∀ w' : World, w'.workingDirectory = w.workingDirectory →
      w'.locate path = follow path w'.tree [] (w.namesOf path) := by
    rw [locate] at h
    split at h
    · cases h
    · rename_i hname
      split at h
      · cases h
      · rename_i hzero
        split at h
        · cases h
        · rename_i hlong
          intro w' hdirectory
          rw [locate, hname]
          dsimp only
          rw [if_neg hzero, if_neg hlong, hdirectory]
          rfl
  have hway := h
  rw [hlocate w rfl, hfollow] at hway
  cases hroute : route path w.tree.kind [] (w.namesOf path) with
  | error fault =>
      rw [hroute] at hway
      cases hway
  | ok names =>
      rw [hroute] at hway
      cases hway
      exact ⟨rfl, rfl, fun w' hdirectory => (hlocate w' hdirectory).trans (hfollow w'.tree)⟩

variable {w w' w₁ : World} {path : Path} {text : String} {device : Device}

theorem tree_of_put {place : List String} {node : FileTree} (h : w.put path place node = .ok w') :
    ∃ tree, w.tree.set? place node = some tree ∧ w' = { w with tree } := by
  rw [put] at h
  cases htree : w.tree.set? place node with
  | none =>
      rw [htree] at h
      cases h
  | some tree =>
      rw [htree] at h
      cases h
      exact ⟨tree, rfl, rfl⟩

/-- An open file is at the place where its path leads, which is no directory, and is empty. -/
theorem openFile_eq_ok {place : List String} (h : w.openFile path = .ok (w₁, place)) :
    ∃ node, w.locate path = .ok ⟨place, node⟩ ∧ w.tree.kind place ≠ some true ∧
      w.put path place (.file (.text "")) = .ok w₁ := by
  obtain ⟨⟨names, node⟩, hplace, h⟩ := bind_eq_ok h
  have hnode := (locate_eq_ok hplace).2.1
  dsimp only at h hnode
  have hput : w.tree.kind names ≠ some true ∧
      (w.put path names (.file (.text "")) >>= fun w₁ => pure (w₁, names)) = .ok (w₁, place) := by
    rw [FileTree.kind, ← hnode]
    split at h
    · cases h
    · rename_i hfree
      refine ⟨?_, h⟩
      cases node with
      | none => exact nofun
      | some node =>
          cases node with
          | file => exact nofun
          | directory entries => exact absurd rfl (hfree entries)
  obtain ⟨w₂, hw₂, h⟩ := bind_eq_ok hput.2
  cases h
  exact ⟨node, hplace, hput.1, hw₂⟩

/-- A file that is not refused on opening is put where its path leads, with what the device takes of
the text; what has been there is gone. -/
theorem write_cases (w : World) (path : Path) (text : String) (device : Device) :
    (∃ fault, w.openFile path = .error fault ∧ w.write path text device = (w, .error fault)) ∨
      ∃ place node w', w.locate path = .ok ⟨place, node⟩ ∧ w.tree.kind place ≠ some true ∧
        w.put path place (.file (.text (device.taken text))) = .ok w' ∧
        w.write path text device = (w', device.outcome) := by
  cases hopen : w.openFile path with
  | error fault => exact .inl ⟨fault, rfl, by rw [write, hopen]⟩
  | ok opened =>
      obtain ⟨w₁, place⟩ := opened
      obtain ⟨node, hplace, hfree, hput⟩ := openFile_eq_ok hopen
      obtain ⟨tree, htree, rfl⟩ := tree_of_put hput
      obtain ⟨tree', htree'⟩ :=
        FileTree.exists_set?_of_set? htree (.file (.text (device.taken text)))
      have hfill : put { w with tree } path place (.file (.text (device.taken text))) =
          .ok { w with tree := tree' } := by
        rw [put, FileTree.set?_set? htree, htree']
      refine .inr ⟨place, node, _, hplace, hfree, by rw [put, htree'], ?_⟩
      rw [write, hopen]
      dsimp only
      rw [hfill]

/-- A file that was put where a path leads is what the path leads to. -/
theorem locate_of_put {place : List String} {node : Option FileTree} {content : Content}
    (hplace : w.locate path = .ok ⟨place, node⟩) (hfree : w.tree.kind place ≠ some true)
    (hput : w.put path place (.file content) = .ok w') :
    w'.locate path = .ok ⟨place, some (.file content)⟩ := by
  obtain ⟨hroute, -, hlocate⟩ := locate_eq_ok hplace
  obtain ⟨tree, htree, rfl⟩ := tree_of_put hput
  have hfound := FileTree.find?_set?_self htree
  have htarget : tree.kind place = some false := by
    rw [FileTree.kind, hfound]
    rfl
  have hsame := route_congr path hroute hfree htarget
    fun other hne => FileTree.kind_set?_of_ne hfree htree hne
  rw [hlocate { w with tree } rfl, hsame, ← hfound]
  rfl

theorem Device.outcome_eq_ok (h : device.outcome = .ok ()) : device.taken text = text := by
  cases device with
  | sound => rfl
  | failing room words => cases h

/-- A file that was written is found under its path. -/
theorem content?_of_write (h : w.write path text device = (w', .ok ())) :
    w'.content? path = some (.text text) := by
  obtain ⟨fault, -, hfail⟩ | ⟨place, node, w₁, hplace, hfree, hput, hwrite⟩ :=
    write_cases w path text device
  · rw [hfail] at h
    cases h
  · rw [hwrite, Prod.mk.injEq] at h
    obtain ⟨rfl, houtcome⟩ := h
    rw [content?, lookup?, locate_of_put hplace hfree hput, Device.outcome_eq_ok houtcome]

/-- A file that was saved is found under its path. -/
theorem content?_of_save (h : w.save path text device = (w', .ok ())) :
    w'.content? path = some (.text text) := by
  rw [save] at h
  cases hdirectories : ensureDirectories path.parts.length w path.parent with
  | mk w₁ outcome =>
      rw [hdirectories] at h
      cases outcome with
      | error fault => cases h
      | ok => exact content?_of_write h

end World
end SeededSketch
