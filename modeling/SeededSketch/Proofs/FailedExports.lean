import SeededSketch.Proofs.Pictures

/-!
# Exports that fail

A request is checked, its settings are loaded, all its ticks are run and its document is finished
before the world is touched.  So where it fails on the way, the world stays as it is; what is left
are the faults of saving, and the count of the forms, which comes after it.

Saving fails in one of two ways (`World.SaveFails`).  Until the file is open at most new directories
are left behind: no file comes into being or changes (`OnlyMakesDirectories`).  An open file is
empty, and if the device breaks off, the beginning of the document that has got there is what stays
(`OnlyWrites`); every other file is what it was.

Before the file is open not only the operating system can fail.  A name with the character zero in
it is refused before anything is looked for, but not before the directories above it have been made.
-/

namespace SeededSketch

/-- What a sequence of two steps fails with is the fault of the first or of the second. -/
theorem bind_eq_error {ε α β : Type} {x : Except ε α} {f : α → Except ε β} {fault : ε}
    (h : x >>= f = .error fault) : x = .error fault ∨ ∃ a, x = .ok a ∧ f a = .error fault := by
  cases x with
  | error other =>
      cases h
      exact .inl rfl
  | ok a => exact .inr ⟨a, rfl, h⟩

variable {w w' : World} {path : Path} {fault : Fault}

/-! ## The faults of files -/

namespace Fault

/-- Whether following a path, making a directory or opening a file can fail so. -/
def isOfFiles : Fault → Bool
  | zeroInPath | directoryInPlace _ | fileInPlace _ | notDirectory _ | fileMissing _ | nameTooLong _
  | unnameable _ => true
  | _ => false

/-- Whether it is the operating system that fails so, when a directory is made or a file opened. -/
def isOfOpening (fault : Fault) : Bool :=
  fault.isOfFiles && match fault.category with
    | .fileMissing | .directoryInPlace | .fileInPlace | .notDirectory | .system => true
    | _ => false

end Fault

namespace World

theorem isOfFiles_of_follow {top : FileTree} {trail : List (String × FileTree)}
    {names : List String} (h : follow path top trail names = .error fault) :
    fault.isOfFiles = true := by
  induction names generalizing trail with
  | nil => cases h
  | cons name rest ih =>
      rw [follow] at h
      split at h
      · cases h
        rfl
      · split at h
        · exact ih h
        · split at h
          · cases h
            rfl
          · split at h
            · exact ih h
            · split at h
              · cases h
              · cases h
                rfl

theorem isOfFiles_of_locate (h : w.locate path = .error fault) : fault.isOfFiles = true := by
  rw [locate] at h
  split at h
  · cases h
    rfl
  · split at h
    · cases h
      rfl
    · split at h
      · cases h
        rfl
      · exact isOfFiles_of_follow h

theorem isOfFiles_of_put {place : List String} {node : FileTree}
    (h : w.put path place node = .error fault) : fault.isOfFiles = true := by
  rw [put] at h
  split at h
  · cases h
  · cases h
    rfl

theorem isOfFiles_of_makeDirectory (h : w.makeDirectory path = .error fault) :
    fault.isOfFiles = true := by
  obtain h | ⟨place, -, h⟩ := bind_eq_error h
  · exact isOfFiles_of_locate h
  · split at h
    · cases h
      rfl
    · exact isOfFiles_of_put h

theorem isOfFiles_of_ensureDirectory (h : w.ensureDirectory path = .error fault) :
    fault.isOfFiles = true := by
  rw [ensureDirectory] at h
  split at h
  · cases h
  · cases h
    rfl
  · rename_i hmake
    split at h
    · cases h
    · cases h
      exact isOfFiles_of_makeDirectory hmake

theorem isOfFiles_of_openFile (h : w.openFile path = .error fault) : fault.isOfFiles = true := by
  obtain h | ⟨place, -, h⟩ := bind_eq_error h
  · exact isOfFiles_of_locate h
  · split at h
    · cases h
      rfl
    · obtain h | ⟨w₁, -, h⟩ := bind_eq_error h
      · exact isOfFiles_of_put h
      · cases h

end World

/-! ## Directories that are made -/

namespace FileTree

theorem find?_emptyDirectory_cons (name : String) (rest : List String) :
    emptyDirectory.find? (name :: rest) = none := rfl

/-- An empty directory where nothing was leaves every file what it is and makes no file; and what
was a directory stays one. -/
theorem find?_set?_emptyDirectory {tree tree' : FileTree} {place : List String}
    (hfree : tree.find? place = none) (h : tree.set? place emptyDirectory = some tree')
    (other : List String) :
    (∀ content, tree'.find? other = some (.file content) ↔
      tree.find? other = some (.file content)) ∧
      (tree.kind other = some true → tree'.kind other = some true) := by
  induction place generalizing tree tree' other with
  | nil =>
      rw [find?_nil] at hfree
      cases hfree
  | cons name rest ih =>
      obtain ⟨entries, child', rfl, rfl, hchild⟩ := set?_cons_eq_some h
      cases other with
      | nil => exact ⟨fun content => by simp [find?_nil], fun _ => rfl⟩
      | cons first more =>
          rw [find?_directory_cons] at hfree
          rw [find?_directory_cons, find?_directory_cons, kind_directory_cons, kind_directory_cons]
          by_cases hfirst : first = name
          · subst hfirst
            rw [lookup_setEntry_self, Option.bind_some, Option.bind_some]
            obtain ⟨rfl, rfl⟩ | ⟨child, hlookup, hset⟩ := hchild
            · -- Nothing was under the name, and what is there now is no file and holds none.
              have hlookup : entries.lookup first = none := by
                cases hentry : entries.lookup first with
                | none => rfl
                | some child =>
                    rw [hentry, Option.bind_some, find?_nil] at hfree
                    cases hfree
              rw [hlookup, Option.bind_none, Option.bind_none]
              refine ⟨fun content => ?_, fun hkind => nomatch hkind⟩
              cases more with
              | nil => simp [find?_nil, emptyDirectory]
              | cons => rw [find?_emptyDirectory_cons]
            · rw [hlookup, Option.bind_some] at hfree
              rw [hlookup, Option.bind_some, Option.bind_some]
              exact ih hfree hset more
          · rw [lookup_setEntry_of_ne hfirst]
            exact ⟨fun _ => Iff.rfl, id⟩

end FileTree

namespace World

/-- Whether a world is the same outside some places where files were written, but for directories
that may have come: every other place has a file exactly if it had one, with the same content, and
no directory has gone. -/
structure KeepsOutside (written : Set (List String)) (w w' : World) : Prop where
  workingDirectory : w'.workingDirectory = w.workingDirectory
  surroundings : w'.surroundings = w.surroundings
  file_iff : ∀ place ∉ written, ∀ content,
    w'.tree.find? place = some (.file content) ↔ w.tree.find? place = some (.file content)
  directory : ∀ place, w.tree.kind place = some true → w'.tree.kind place = some true

/-- Whether at most directories have come to a world. -/
def OnlyMakesDirectories (w w' : World) : Prop := KeepsOutside ∅ w w'

/-- Whether at most directories have come to a world and the file that a path leads to has been
written; `held` is what it holds now. -/
def OnlyWrites (w w' : World) (path : Path) (held : String) : Prop :=
  ∃ place, KeepsOutside {place} w w' ∧ w'.locate path = .ok ⟨place, some (.file (.text held))⟩

theorem OnlyMakesDirectories.refl (w : World) : w.OnlyMakesDirectories w :=
  ⟨rfl, rfl, fun _ _ _ => Iff.rfl, fun _ => id⟩

theorem OnlyMakesDirectories.trans {w₁ : World} {written : Set (List String)}
    (h : w.OnlyMakesDirectories w₁) (h' : KeepsOutside written w₁ w') :
    KeepsOutside written w w' where
  workingDirectory := h'.workingDirectory.trans h.workingDirectory
  surroundings := h'.surroundings.trans h.surroundings
  file_iff place hplace content :=
    (h'.file_iff place hplace content).trans (h.file_iff place (Set.notMem_empty place) content)
  directory place hplace := h'.directory place (h.directory place hplace)

theorem OnlyWrites.content? {held : String} (h : w.OnlyWrites w' path held) :
    w'.content? path = some (.text held) := by
  obtain ⟨place, -, hplace⟩ := h
  rw [World.content?, lookup?, hplace]

theorem onlyMakesDirectories_of_makeDirectory (h : w.makeDirectory path = .ok w') :
    w.OnlyMakesDirectories w' := by
  obtain ⟨place, hplace, h⟩ := bind_eq_ok h
  obtain ⟨-, hnode, -⟩ := locate_eq_ok hplace
  split at h
  · cases h
  · rename_i hfree
    rw [put] at h
    split at h
    · rename_i tree hset
      cases h
      have hkept := FileTree.find?_set?_emptyDirectory (hnode.symm.trans hfree) hset
      exact ⟨rfl, rfl, fun other _ => (hkept other).1, fun other => (hkept other).2⟩
    · cases h

theorem onlyMakesDirectories_of_ensureDirectory (h : w.ensureDirectory path = .ok w') :
    w.OnlyMakesDirectories w' := by
  rw [ensureDirectory] at h
  split at h
  · rename_i w₁ hmake
    cases h
    exact onlyMakesDirectories_of_makeDirectory hmake
  · cases h
  · split at h
    · cases h
      exact .refl w
    · cases h

theorem onlyMakesDirectories_after_ensureDirectory (w : World) (path : Path) :
    w.OnlyMakesDirectories (w.after (w.ensureDirectory path)).1 ∧
      ∀ fault, (w.after (w.ensureDirectory path)).2 = .error fault → fault.isOfFiles = true := by
  cases hstep : w.ensureDirectory path with
  | ok w₁ => exact ⟨onlyMakesDirectories_of_ensureDirectory hstep, fun _ h => nomatch h⟩
  | error fault =>
      refine ⟨.refl w, fun fault' h => ?_⟩
      cases h
      exact isOfFiles_of_ensureDirectory hstep

/-- Making the directories above a file makes nothing else, whether or not it gets to its end. -/
theorem onlyMakesDirectories_ensureDirectories (fuel : ℕ) (w : World) (path : Path) :
    w.OnlyMakesDirectories (ensureDirectories fuel w path).1 ∧
      ∀ fault, (ensureDirectories fuel w path).2 = .error fault → fault.isOfFiles = true := by
  induction fuel generalizing path with
  | zero => exact onlyMakesDirectories_after_ensureDirectory w path
  | succ fuel ih =>
      rw [ensureDirectories]
      split
      · rename_i text hmissing
        split
        · refine ⟨.refl w, fun fault h => ?_⟩
          cases h
          rfl
        · obtain ⟨habove, hfault⟩ := ih path.parent
          split
          · rename_i w₁ _ hparent
            rw [hparent] at habove
            obtain ⟨hlast, hlastFault⟩ := onlyMakesDirectories_after_ensureDirectory w₁ path
            exact ⟨habove.trans hlast, hlastFault⟩
          · rename_i w₁ other hparent
            rw [hparent] at habove hfault
            refine ⟨habove, fun fault h => ?_⟩
            cases h
            exact hfault other rfl
      · exact onlyMakesDirectories_after_ensureDirectory w path

/-! ## Files that are written -/

variable {text : String} {device : Device}

/-- A file that is put where there was a file or nothing changes nothing else. -/
theorem keepsOutside_of_put {place : List String} {content : Content}
    (hfree : w.tree.kind place ≠ some true) (h : w.put path place (.file content) = .ok w') :
    KeepsOutside {place} w w' := by
  obtain ⟨tree, htree, rfl⟩ := tree_of_put h
  refine ⟨rfl, rfl, fun other hother held => ?_, fun other hdirectory => ?_⟩
  · exact FileTree.find?_eq_file_set?_of_ne hfree htree hother held
  · have hne : other ≠ place := fun heq => hfree (heq ▸ hdirectory)
    exact (FileTree.kind_set?_of_ne hfree htree hne).trans hdirectory

/-- Either a file cannot be opened, or it is written with what the device takes. -/
theorem onlyWrites_of_write (w : World) (path : Path) (text : String) (device : Device) :
    (∃ fault, w.write path text device = (w, .error fault) ∧ fault.isOfFiles = true) ∨
      ∃ w', w.write path text device = (w', device.outcome) ∧
        w.OnlyWrites w' path (device.taken text) := by
  obtain ⟨fault, hopen, hwrite⟩ | ⟨place, node, w', hplace, hfree, hput, hwrite⟩ :=
    write_cases w path text device
  · exact .inl ⟨fault, hwrite, isOfFiles_of_openFile hopen⟩
  · exact .inr ⟨w', hwrite, place, keepsOutside_of_put hfree hput, locate_of_put hplace hfree hput⟩

/-- Either a file cannot be opened under its path, and at most directories have been made, or it is
written with what the device takes. -/
theorem onlyWrites_of_save (w : World) (path : Path) (text : String) (device : Device) :
    (∃ w' fault, w.save path text device = (w', .error fault) ∧ w.OnlyMakesDirectories w' ∧
      fault.isOfFiles = true) ∨
      ∃ w', w.save path text device = (w', device.outcome) ∧
        w.OnlyWrites w' path (device.taken text) := by
  obtain ⟨habove, hfault⟩ := onlyMakesDirectories_ensureDirectories path.parts.length w path.parent
  cases hparent : ensureDirectories path.parts.length w path.parent with
  | mk w₁ outcome =>
      rw [hparent] at habove hfault
      cases outcome with
      | error fault => exact .inl ⟨w₁, fault, by rw [save, hparent], habove, hfault fault rfl⟩
      | ok =>
          have hsave : w.save path text device = w₁.write path text device := by
            rw [save, hparent]
          rw [hsave]
          obtain ⟨fault, hwrite, hfault⟩ | ⟨w', hwrite, place, hkeeps, htarget⟩ :=
            onlyWrites_of_write w₁ path text device
          · exact .inl ⟨w₁, fault, hwrite, habove, hfault⟩
          · exact .inr ⟨w', hwrite, place, habove.trans hkeeps, htarget⟩

/-- How saving a text can fail, with the world and the fault that are left. -/
inductive SaveFails (w : World) (path : Path) (text : String) (device : Device) :
    World → Fault → Prop
  /-- A directory above the file cannot be made, or the file cannot be opened. -/
  | unopened {w' : World} {fault : Fault} (made : w.OnlyMakesDirectories w')
      (ofFiles : fault.isOfFiles = true) : SaveFails w path text device w' fault
  /-- The device breaks off, and the open file keeps what has got to it. -/
  | unfinished {w' : World} {room : ℕ} {words : String} (breaks : device = .failing room words)
      (written : w.OnlyWrites w' path (.ofList (text.toList.take room))) :
      SaveFails w path text device w' (.deviceFailed words)

theorem saveFails_of_save (h : w.save path text device = (w', .error fault)) :
    w.SaveFails path text device w' fault := by
  obtain ⟨w₁, other, hsave, hmade, hfiles⟩ | ⟨w₁, hsave, hwrites⟩ :=
    onlyWrites_of_save w path text device
  · rw [hsave] at h
    cases h
    exact .unopened hmade hfiles
  · rw [hsave] at h
    cases device with
    | sound => cases h
    | failing room words =>
        cases h
        exact .unfinished rfl hwrites

/-- A text that was saved is in its file as a whole. -/
theorem onlyWrites_of_save_eq_ok (h : w.save path text device = (w', .ok ())) :
    w.OnlyWrites w' path text := by
  obtain ⟨w₁, other, hsave, -, -⟩ | ⟨w₁, hsave, hwrites⟩ := onlyWrites_of_save w path text device
  · rw [hsave] at h
    cases h
  · rw [hsave, Prod.mk.injEq] at h
    obtain ⟨rfl, houtcome⟩ := h
    rwa [Device.outcome_eq_ok houtcome] at hwrites

end World

/-! ## Exports -/

variable {device : Device} {unsized : Option String}

/-- An export of forms that fails leaves the world as it is and would fail so on every device,
unless its document is finished: then the document cannot be saved, or it is saved and the forms
cannot be counted. -/
theorem eq_or_save_of_exportForms {forms : List Form} {value canvas background : Value}
    (h : exportForms w forms value canvas background device unsized = (w', .error fault)) :
    (w' = w ∧ ∀ device' unsized',
      exportForms w forms value canvas background device' unsized' = (w, .error fault)) ∨
      ∃ target document, Path.ofValue value = .ok target ∧
        Svg.render forms canvas background = .ok document ∧
        (w.save target document.text device = (w', .error fault) ∨
          w.save target document.text device = (w', .ok ()) ∧
            countForms unsized = .error fault) := by
  obtain ⟨other, hfail⟩ | ⟨target, document, htarget, hdocument⟩ :=
    exportForms_cases w forms value canvas background
  · rw [hfail] at h
    cases h
    exact .inl ⟨rfl, hfail⟩
  · rw [exportForms_of_render w value htarget hdocument] at h
    refine .inr ⟨target, document, htarget, hdocument, ?_⟩
    cases hsave : w.save target document.text device with
    | mk w₁ outcome =>
        rw [hsave, Prod.mk.injEq] at h
        obtain ⟨rfl, h⟩ := h
        cases outcome with
        | ok =>
            dsimp only at h
            rw [ok_bind] at h
            obtain h | ⟨_, -, h⟩ := bind_eq_error h
            · exact .inr ⟨rfl, h⟩
            · cases h
        | error other =>
            cases h
            exact .inl rfl

theorem eq_noLength_of_countForms (h : countForms unsized = .error fault) :
    ∃ typeName, unsized = some typeName ∧ fault = .noLength typeName := by
  cases unsized with
  | none => cases h
  | some typeName =>
      cases h
      exact ⟨typeName, rfl, rfl⟩

namespace ExportRequest

/-- A request that fails leaves the world as it is and would fail so on every device, unless its
parts are all there and its document cannot be saved. -/
theorem eq_or_save_of_perform {r : ExportRequest} {s s' : Session}
    (h : r.perform s device = (s', .error fault)) :
    (s'.world = s.world ∧ ∀ device', r.perform s device' = (s', .error fault)) ∨
      ∃ settings s₁ result document, s.settings = .ok (settings, s₁) ∧
        r.Parts settings result document ∧
        s.world.save result.path document.text device = (s'.world, .error fault) := by
  obtain ⟨s₁, other, hfail, hworld⟩ | ⟨settings, s₁, result, document, hsettings, hparts⟩ :=
    r.perform_cases s
  · rw [hfail] at h
    cases h
    exact .inl ⟨hworld, hfail⟩
  · rw [perform_of_parts hsettings hparts] at h
    refine .inr ⟨settings, s₁, result, document, hsettings, hparts, ?_⟩
    rw [← Session.world_of_settings hsettings]
    cases hsave : s₁.world.save result.path document.text device with
    | mk w outcome =>
        rw [hsave] at h
        cases outcome with
        | ok => cases h
        | error =>
            cases h
            rfl

end ExportRequest

/-- Whatever a request or an export of forms is given, and whatever becomes of what it writes: where
it fails, the world is what it was and the device has no part in it, unless everything up to the
document is finished and the document cannot be saved.  Then at most directories have been made, or,
if the file could be opened, the file has been written as well and holds a beginning of the
document.  Besides, forms that have no length are found out when the whole document is in its
file. -/
theorem failed_exports_leave_files :
    (∀ (r : ExportRequest) (s s' : Session) (device : Device) (fault : Fault),
      r.perform s device = (s', .error fault) →
        (s'.world = s.world ∧ ∀ device', r.perform s device' = (s', .error fault)) ∨
          ∃ settings s₁ result document, s.settings = .ok (settings, s₁) ∧
            r.Parts settings result document ∧
            s.world.save result.path document.text device = (s'.world, .error fault) ∧
            s.world.SaveFails result.path document.text device s'.world fault) ∧
      ∀ (w w' : World) (forms : List Form) (path canvas background : Value) (device : Device)
        (unsized : Option String) (fault : Fault),
        exportForms w forms path canvas background device unsized = (w', .error fault) →
        (w' = w ∧ ∀ device' unsized',
          exportForms w forms path canvas background device' unsized' = (w, .error fault)) ∨
          ∃ target document, Path.ofValue path = .ok target ∧
            Svg.render forms canvas background = .ok document ∧
            (w.save target document.text device = (w', .error fault) ∧
                w.SaveFails target document.text device w' fault ∨
              (∃ typeName, unsized = some typeName ∧ fault = .noLength typeName) ∧
                w.OnlyWrites w' target document.text) := by
  constructor
  · intro r s s' device fault h
    obtain hsame | ⟨settings, s₁, result, document, hsettings, hparts, hsave⟩ :=
      ExportRequest.eq_or_save_of_perform h
    · exact .inl hsame
    · exact .inr ⟨settings, s₁, result, document, hsettings, hparts, hsave,
        World.saveFails_of_save hsave⟩
  · intro w w' forms path canvas background device unsized fault h
    obtain hsame | ⟨target, document, htarget, hdocument, hsave | ⟨hsave, hcount⟩⟩ :=
      eq_or_save_of_exportForms h
    · exact .inl hsame
    · exact .inr ⟨target, document, htarget, hdocument,
        .inl ⟨hsave, World.saveFails_of_save hsave⟩⟩
    · exact .inr ⟨target, document, htarget, hdocument,
        .inr ⟨eq_noLength_of_countForms hcount, World.onlyWrites_of_save_eq_ok hsave⟩⟩

/-- A world with one file. -/
def World.oneFile : World := ⟨.directory [("old.svg", .file (.text "old"))], [], ⟨[], []⟩⟩

theorem World.save_oneFile (text : String) (device : Device) :
    World.save .oneFile (.ofString "/old.svg") text device =
      (⟨.directory [("old.svg", .file (.text (device.taken text)))], [], ⟨[], []⟩⟩,
        device.outcome) := by
  rw [oneFile]
  cbv

/-- A device on which there is room for some characters. -/
def Device.full (room : ℕ) : Device := .failing room "[Errno 28] No space left on device"

/-- A request for ticks and seconds at once. -/
def ExportRequest.overfull : ExportRequest :=
  { shape := Demo.shadow, ticks := .number (.whole 2), seconds := .number (.whole 2) }

/-- A form below others that is no form. -/
def Form.hiddenStray : Form :=
  .stacked [.translated (.number (.whole 1)) (.number (.whole 1)) (.stray .null)]

namespace Svg

theorem render_hiddenStray :
    render [.hiddenStray] ExportRequest.small.canvasValue .null = .error (.unknownForm .null) := by
  have hrealize : Form.realizeAll [.hiddenStray] = .error (.unknownForm .null) := rfl
  rw [render, ExportRequest.canvasOf_small, hrealize]
  rfl

theorem exists_render_nil :
    ∃ document, render [] ExportRequest.small.canvasValue .null = .ok document :=
  exists_eq_ok (by decide +kernel)

theorem take_text (d : Document) : d.text.toList.take 5 = "<?xml".toList := by
  rw [Document.text, Document.lines, List.cons_append, List.cons_append, List.cons_append,
    List.map_cons, String.join_cons, String.toList_append, String.toList_append, List.append_assoc,
    List.take_append_of_le_length (by decide)]
  decide

end Svg

open ExportRequest in
/-- The overfull request makes nothing, the hidden stray leaves the file that it was to replace, and
on a full device the file is replaced by the beginning of a document. -/
theorem failed_exports_leave_files_old :
    (∃ s', overfull.perform smallSession (.full 5) = (s', .error .ticksAndSeconds) ∧
      s'.world = smallSession.world) ∧
      (∃ w', exportForms .oneFile [.hiddenStray] (.text "/old.svg") small.canvasValue .null
          (.full 5) = (w', .error (.unknownForm .null)) ∧ w' = .oneFile) ∧
      ∃ w', exportForms .oneFile [] (.text "/old.svg") small.canvasValue .null (.full 5) =
          (w', .error (.deviceFailed "[Errno 28] No space left on device")) ∧
        w'.content? (.ofString "/old.svg") = some (.text "<?xml") := by
  refine ⟨?_, ?_, ?_⟩
  · have hperform : overfull.perform smallSession (.full 5) =
        (smallSession, .error .ticksAndSeconds) := rfl
    obtain hsame | ⟨_, _, _, _, _, _, -, hfails⟩ := failed_exports_leave_files.1 _ _ _ _ _ hperform
    · exact ⟨_, hperform, hsame.1⟩
    · cases hfails with
      | unopened _ hfiles => cases hfiles
  · have hexport : exportForms .oneFile [.hiddenStray] (.text "/old.svg") small.canvasValue .null
        (.full 5) = (.oneFile, .error (.unknownForm .null)) := by
      rw [exportForms, prepareForms, Svg.render_hiddenStray]
      rfl
    obtain hsame | ⟨_, document, -, hdocument, -⟩ :=
      failed_exports_leave_files.2 _ _ _ _ _ _ _ _ _ hexport
    · exact ⟨_, hexport, hsame.1⟩
    · rw [Svg.render_hiddenStray] at hdocument
      cases hdocument
  · obtain ⟨document, hdocument⟩ := Svg.exists_render_nil
    have hexport := exportForms_of_render .oneFile (.text "/old.svg") rfl hdocument
    have hfull := hexport (.full 5) none
    rw [World.save_oneFile] at hfull
    refine ⟨_, hfull, ?_⟩
    obtain ⟨-, hsame⟩ | ⟨_, _, htarget, -, ⟨-, hfails⟩ | ⟨⟨_, hsized, -⟩, -⟩⟩ :=
      failed_exports_leave_files.2 _ _ _ _ _ _ _ _ _ hfull
    · -- On a device with room the same forms are exported.
      have hsound := hsame .sound none
      rw [hexport, World.save_oneFile] at hsound
      cases congrArg Prod.snd hsound
    · cases htarget
      cases hfails with
      | unopened _ hfiles => cases hfiles
      | unfinished hbreaks hwritten =>
          cases hbreaks
          rw [hwritten.content?, Svg.take_text]
          rfl
    · cases hsized

open ExportRequest in
/-- An export to a name with the character zero fails when the directory above it has been made, one
to a full device when what was in the file is gone, and one of forms that have no length when the
document is in the file.  None of the three is a refusal of the operating system to make a directory
or to open the file. -/
theorem failed_exports_change_world :
    (∃ w', exportForms World.empty [] (.text "/made/x\x00.svg") small.canvasValue .null =
        (w', .error .zeroInPath) ∧ Fault.zeroInPath.isOfOpening = false ∧
      w'.tree.kind ["made"] = some true ∧ World.empty.tree.kind ["made"] = none) ∧
      (∃ w' fault, exportForms .oneFile [] (.text "/old.svg") small.canvasValue .null (.full 0) =
          (w', .error fault) ∧ fault.isOfOpening = false ∧
        w'.tree.find? ["old.svg"] = some (.file (.text ""))) ∧
      ∃ w' fault document, exportForms .oneFile [] (.text "/old.svg") small.canvasValue .null .sound
          (some "generator") = (w', .error fault) ∧ fault.isOfOpening = false ∧
        Svg.render [] small.canvasValue .null = .ok document ∧
        w'.tree.find? ["old.svg"] = some (.file (.text document.text)) := by
  obtain ⟨document, hdocument⟩ := Svg.exists_render_nil
  have hold := exportForms_of_render .oneFile (.text "/old.svg") rfl hdocument
  refine ⟨?_, ?_, ?_⟩
  · have hsave (text : String) : World.save .empty (.ofString "/made/x\x00.svg") text =
        (⟨.directory [("made", .directory [])], [], ⟨[], []⟩⟩, .error .zeroInPath) := by
      rw [World.empty]
      cbv
    have hexport :=
      exportForms_of_render .empty (.text "/made/x\x00.svg") rfl hdocument .sound none
    rw [hsave] at hexport
    exact ⟨_, hexport, rfl, rfl, rfl⟩
  · have hfull := hold (.full 0) none
    rw [World.save_oneFile] at hfull
    exact ⟨_, _, hfull, rfl, rfl⟩
  · have huncounted := hold .sound (some "generator")
    rw [World.save_oneFile] at huncounted
    exact ⟨_, _, document, huncounted, rfl, hdocument, rfl⟩

end SeededSketch
