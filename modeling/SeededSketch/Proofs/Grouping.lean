import SeededSketch.Proofs.Drawings

/-!
# Groups are brackets

Inside a group another group only brackets some of the children together.  `Shape.Regroups` takes
one such bracket away, anywhere in a shape: a group among the children of a group gives way to its
own children, an empty one goes, and a group of one is replaced by what is in it.

Neither the evaluator nor the realisation sees the brackets, and for the same reason.  What a shape
contributes to a picture is a function from contexts to rectangles and contexts (`Shape.row`).
Such functions are a monoid under putting one after the other, and a group is the product of its
children (`row_group`).  The rectangles of a form of doubles determine its mesh
(`Real.realize_congr`), also where there are too many of them for a mesh.

`exports_of_regrouped` draws the conclusion for passes, for documents and for exports.
-/

namespace SeededSketch

/-! ## The rectangles of a form determine its mesh -/

namespace Form

/-- Forms of doubles with the same rectangles have the same mesh, or the same fault. -/
theorem Real.realize_congr {form form' : Form} (h : form.Real) (h' : form'.Real)
    (hleaves : form'.leaves = form.leaves) : form'.realize = form.realize := by
  have hpieces : form'.pieces = form.pieces := congrArg (List.map Leaf.piece) hleaves
  rcases Nat.lt_or_ge (Mesh.pieceSize form.pieces) (2 ^ 31) with hsize | hsize
  · rw [realize_eq_ofPieces h hsize, realize_eq_ofPieces h' (by rwa [hpieces]), hpieces]
  · rw [h.realize_eq_error hsize, h'.realize_eq_error (by rwa [hpieces])]

end Form

/-! ## What shapes contribute -/

/-- What a part of a shape contributes to a picture: the rectangles that it adds, and the context
after it. -/
def Row : Type := Context → Except Fault (List Leaf × Context)

namespace Row

/-- One part after the other. -/
instance : Monoid Row where
  one c := .ok ([], c)
  mul first second c := do
    let (leaves, c₁) ← first c
    let (more, c₂) ← second c₁
    return (leaves ++ more, c₂)
  one_mul row := funext fun c => bind_pure (row c)
  mul_one row := funext fun c => by
    show (row c >>= fun r => pure (r.1 ++ [], r.2)) = row c
    simp only [List.append_nil]
    exact bind_pure (row c)
  mul_assoc first second third := funext fun c => by
    show (do
      let r ← (do
        let r₁ ← first c
        let r₂ ← second r₁.2
        return (r₁.1 ++ r₂.1, r₂.2))
      let r₃ ← third r.2
      return (r.1 ++ r₃.1, r₃.2)) = do
        let r₁ ← first c
        let r ← (do
          let r₂ ← second r₁.2
          let r₃ ← third r₂.2
          return (r₂.1 ++ r₃.1, r₃.2))
        return (r₁.1 ++ r.1, r.2)
    simp only [bind_assoc, pure_bind, List.append_assoc]

theorem mul_apply (first second : Row) (c : Context) :
    (first * second) c = (do
      let (leaves, c₁) ← first c
      let (more, c₂) ← second c₁
      return (leaves ++ more, c₂)) := rfl

end Row

namespace Form

variable {form form' : Form}

theorem leaves_rotated_congr (angle : Value) (h : form'.leaves = form.leaves) :
    (rotated angle form').leaves = (rotated angle form).leaves := by
  cases angle with
  | number n =>
      cases n with
      | real x => rw [leaves, leaves, h]
      | whole n => rfl
  | _ => rfl

theorem leaves_translated_congr (dx dy : Value) (h : form'.leaves = form.leaves) :
    (translated dx dy form').leaves = (translated dx dy form).leaves := by
  cases dx with
  | number m =>
      cases m with
      | real x =>
          cases dy with
          | number n =>
              cases n with
              | real y => rw [leaves, leaves, h]
              | whole n => rfl
          | _ => rfl
      | whole m => rfl
  | _ => rfl

end Form

namespace Shape

def row (s : Shape) : Row := fun c => (s.evaluate c).map fun r => (r.1.leaves, r.2)

/-- A group contributes what its children contribute, one after the other. -/
theorem row_group (children : List Shape) : (group children).row = (children.map row).prod := by
  induction children with
  | nil => rfl
  | cons s rest ih =>
      rw [List.map_cons, List.prod_cons, ← ih]
      funext c
      rw [Row.mul_apply, row, row, evaluate, evaluateAll]
      cases s.evaluate c with
      | error fault => rfl
      | ok r =>
          obtain ⟨form, c₁⟩ := r
          show _ = ((group rest).row c₁ >>= _)
          rw [row, evaluate, ok_bind]
          dsimp only
          cases evaluateAll rest c₁ <;> rfl

variable {s t : Shape}

/-- Shapes that contribute the same do so also inside of what changes their forms alike. -/
theorem map_leaves_congr (h : t.row = s.row) {wrap : Form → Form}
    (hwrap : ∀ form form' : Form, form'.leaves = form.leaves →
      (wrap form').leaves = (wrap form).leaves) (c : Context) :
    (t.evaluate c >>= fun r => pure (wrap r.1, r.2)).map (fun r => (r.1.leaves, r.2)) =
      (s.evaluate c >>= fun r => pure (wrap r.1, r.2)).map fun r => (r.1.leaves, r.2) := by
  obtain ⟨fault, hs, ht⟩ | ⟨⟨form, c₁⟩, ⟨form', c₁'⟩, hs, ht, hview⟩ :=
    cases_of_map_eq (congrFun h c)
  · rw [hs, ht]
  · obtain ⟨hleaves, rfl⟩ := Prod.mk.inj hview
    rw [hs, ht]
    exact congrArg (fun leaves => Except.ok (leaves, c₁')) (hwrap form form' hleaves)

theorem row_rotate_congr (angle : Expr) (h : t.row = s.row) :
    (rotate angle t).row = (rotate angle s).row := by
  funext c
  rw [row, row, evaluate, evaluate]
  cases angle.evaluate c with
  | error fault => rfl
  | ok r => exact map_leaves_congr h (fun _ _ => Form.leaves_rotated_congr r.1) r.2

theorem row_move_congr (dx dy : Expr) (h : t.row = s.row) :
    (move dx dy t).row = (move dx dy s).row := by
  funext c
  rw [row, row, evaluate, evaluate]
  cases dx.evaluate c with
  | error fault => rfl
  | ok r =>
      simp only [ok_bind]
      cases dy.evaluate r.2 with
      | error fault => rfl
      | ok r' => exact map_leaves_congr h (fun _ _ => Form.leaves_translated_congr r.1 r'.1) r'.2

/-! ## One bracket less -/

/-- One bracket is taken away, somewhere in the shape. -/
inductive Regroups : Shape → Shape → Prop
  /-- A group among the children of a group gives way to its own children. -/
  | splice (front inner back : List Shape) :
      Regroups (.group (front ++ .group inner :: back)) (.group (front ++ inner ++ back))
  /-- An empty group among the children of a group goes. -/
  | drop (front back : List Shape) :
      Regroups (.group (front ++ .group [] :: back)) (.group (front ++ back))
  /-- A group of one gives way to what is in it. -/
  | unwrap (child : Shape) : Regroups (.group [child]) child
  | rotate (angle : Expr) {s t : Shape} (h : Regroups s t) :
      Regroups (.rotate angle s) (.rotate angle t)
  | move (dx dy : Expr) {s t : Shape} (h : Regroups s t) :
      Regroups (.move dx dy s) (.move dx dy t)
  | group (front back : List Shape) {s t : Shape} (h : Regroups s t) :
      Regroups (.group (front ++ s :: back)) (.group (front ++ t :: back))

/-- Brackets in a product of rows do not matter. -/
theorem Regroups.row_eq (h : Regroups s t) : t.row = s.row := by
  induction h with
  | splice front inner back =>
      simp only [row_group, List.map_append, List.map_cons, List.prod_append, List.prod_cons,
        mul_assoc]
  | drop front back =>
      simp only [row_group, List.map_append, List.map_cons, List.map_nil, List.prod_append,
        List.prod_cons, List.prod_nil, one_mul]
  | unwrap child => rw [row_group, List.map_singleton, List.prod_singleton]
  | rotate angle _ ih => exact row_rotate_congr angle ih
  | move dx dy _ ih => exact row_move_congr dx dy ih
  | group front back _ ih =>
      simp only [row_group, List.map_append, List.map_cons, ih]

theorem built_group_iff {children : List Shape} :
    (group children).Built ↔ ∀ s ∈ children, s.Built :=
  ⟨fun | .group h => h, .group⟩

/-- The builders build the one shape as well as the other. -/
theorem Regroups.built_iff (h : Regroups s t) : t.Built ↔ s.Built := by
  induction h with
  | splice front inner back =>
      simp only [built_group_iff, List.forall_mem_append, List.forall_mem_cons, and_assoc]
  | drop front back =>
      simp only [built_group_iff, List.forall_mem_append, List.forall_mem_cons, List.not_mem_nil,
        false_implies, implies_true, true_and]
  | unwrap child => rw [built_group_iff, List.forall_mem_singleton]
  | rotate angle _ ih =>
      exact ⟨fun | .rotate ha hc => .rotate ha (ih.mp hc),
        fun | .rotate ha hc => .rotate ha (ih.mpr hc)⟩
  | move dx dy _ ih =>
      exact ⟨fun | .move hx hy hc => .move hx hy (ih.mp hc),
        fun | .move hx hy hc => .move hx hy (ih.mpr hc)⟩
  | group front back _ ih =>
      simp only [built_group_iff, List.forall_mem_append, List.forall_mem_cons, ih]

/-- Brackets are taken away and put in, any number of them. -/
def Regrouped : Shape → Shape → Prop := Relation.EqvGen Regroups

/-- What one bracket does not change no number of them changes. -/
theorem Regrouped.view_eq {α : Type*} {view : Shape → α}
    (hview : ∀ s t, Regroups s t → view t = view s) (h : Regrouped s t) : view t = view s := by
  induction h with
  | rel s t hst => exact hview s t hst
  | refl s => rfl
  | symm s t _ ih => exact ih.symm
  | trans s t u _ _ ihst ihtu => exact ihtu.trans ihst

theorem Regrouped.row_eq (h : Regrouped s t) : t.row = s.row :=
  h.view_eq fun _ _ hst => hst.row_eq

theorem Regrouped.built_iff (h : Regrouped s t) : t.Built ↔ s.Built :=
  iff_of_eq (h.view_eq fun _ _ hst => propext hst.built_iff)

/-! ## Passes -/

/-- What a pass draws, and the stream that it leaves. -/
def laidOut (s : Shape) (stream : Stream) : Except Fault (Except Fault Mesh × Stream) :=
  (s.pass stream).map fun r => (r.1.realize, r.2)

theorem laidOut_eq_of_row_eq (h : t.row = s.row) : t.laidOut = s.laidOut := by
  funext stream
  rw [laidOut, laidOut, pass, pass]
  rcases cases_of_map_eq (congrFun h (.fresh stream)) with
    ⟨fault, hs, ht⟩ | ⟨⟨form, c⟩, ⟨form', c'⟩, hs, ht, hview⟩
  · rw [hs, ht]
  · obtain ⟨hleaves, rfl⟩ := Prod.mk.inj hview
    have hform := (s.real_of_evaluate Memo.isReal_empty hs).1
    have hform' := (t.real_of_evaluate Memo.isReal_empty ht).1
    rw [hs, ht]
    exact congrArg (fun mesh => Except.ok (mesh, c'.stream)) (hform.realize_congr hform' hleaves)

theorem laidOut_cases (h : t.laidOut = s.laidOut) (stream : Stream) :
    (∃ fault, s.pass stream = .error fault ∧ t.pass stream = .error fault) ∨
      ∃ form form' next, s.pass stream = .ok (form, next) ∧ t.pass stream = .ok (form', next) ∧
        form'.realize = form.realize := by
  obtain hfault | ⟨⟨form, next⟩, ⟨form', next'⟩, hs, ht, hview⟩ :=
    cases_of_map_eq (congrFun h stream)
  · exact .inl hfault
  · obtain ⟨hmesh, rfl⟩ := Prod.mk.inj hview
    exact .inr ⟨form, form', next', hs, ht, hmesh⟩

end Shape

/-! ## Runs and documents -/

namespace Scene

/-- From here on the two scenes draw the same. -/
structure Alike (a b : Scene) : Prop where
  shape : b.shape.laidOut = a.shape.laidOut
  stream : b.stream = a.stream
  clock : b.clock = a.clock

namespace Alike

variable {a b : Scene}

theorem tick (h : Alike a b) :
    (∃ fault, a.tick = (a, .error fault) ∧ b.tick = (b, .error fault)) ∨
      ∃ form form', a.tick.2 = .ok form ∧ b.tick.2 = .ok form' ∧ form'.realize = form.realize ∧
        Alike a.tick.1 b.tick.1 := by
  obtain ⟨fault, ha, hb⟩ | ⟨form, form', next, ha, hb, hmesh⟩ :=
    Shape.laidOut_cases h.shape a.stream
  · rw [← h.stream] at hb
    exact .inl ⟨fault, by rw [Scene.tick, ha], by rw [Scene.tick, hb]⟩
  · rw [← h.stream] at hb
    have hticka : a.tick = (a.advance form next, .ok form) := by rw [Scene.tick, ha]
    have htickb : b.tick = (b.advance form' next, .ok form') := by rw [Scene.tick, hb]
    rw [hticka, htickb]
    exact .inr ⟨form, form', rfl, rfl, hmesh, h.shape, rfl, congrArg Clock.tick h.clock⟩

/-- The two scenes have the same faults, and forms with the same meshes. -/
theorem ticks (h : Alike a b) (n : ℕ) :
    (b.ticks n).2.map (List.map Form.realize) = (a.ticks n).2.map (List.map Form.realize) ∧
      Alike (a.ticks n).1 (b.ticks n).1 := by
  induction n generalizing a b with
  | zero => exact ⟨rfl, h⟩
  | succ n ih =>
      obtain ⟨fault, ha, hb⟩ | ⟨form, form', ha, hb, hmesh, hnext⟩ := h.tick
      · rw [ticks_of_error ha, ticks_of_error hb]
        exact ⟨rfl, h⟩
      · obtain ⟨hforms, hlast⟩ := ih hnext
        rw [ticks_succ ha, ticks_succ hb]
        refine ⟨?_, hlast⟩
        obtain ⟨fault, ha, hb⟩ | ⟨forms, forms', ha, hb, hmeshes⟩ := cases_of_map_eq hforms
        · rw [ha, hb]
          rfl
        · rw [ha, hb]
          exact congrArg Except.ok (congrArg₂ List.cons hmesh hmeshes)

theorem run (h : Alike a b) (n : Value) :
    (b.run n).2.map (List.map Form.realize) = (a.run n).2.map (List.map Form.realize) := by
  rw [Scene.run, Scene.run]
  cases tickCount n with
  | error fault => rfl
  | ok count => exact (h.ticks count).1

theorem runFor (h : Alike a b) (seconds : Value) :
    (b.runFor seconds).2.map (List.map Form.realize) =
      (a.runFor seconds).2.map (List.map Form.realize) := by
  rw [Scene.runFor, Scene.runFor, h.clock]
  cases a.clock.framesFor seconds with
  | error fault => rfl
  | ok count => exact h.run _

end Alike

end Scene

namespace Form

theorem realizeAll_eq_mapM (forms : List Form) :
    realizeAll forms = (forms.map realize).mapM id := by
  induction forms with
  | nil => rfl
  | cons form rest ih =>
      rw [realizeAll, ih, List.map_cons, List.mapM_cons]
      rfl

end Form

/-- A document shows the meshes of its forms and nothing else of them. -/
theorem Svg.render_congr {forms forms' : List Form}
    (h : forms'.map Form.realize = forms.map Form.realize) (canvas background : Value) :
    Svg.render forms' canvas background = Svg.render forms canvas background := by
  rw [Svg.render, Svg.render, Form.realizeAll_eq_mapM, Form.realizeAll_eq_mapM, h]

theorem exportForms_congr {forms forms' : List Form}
    (h : forms'.map Form.realize = forms.map Form.realize) (w : World)
    (path canvas background : Value) :
    exportForms w forms' path canvas background = exportForms w forms path canvas background := by
  rw [exportForms, exportForms, prepareForms, prepareForms, Svg.render_congr h]

/-- What an export has made, with the meshes for the forms. -/
def ExportResult.laidOut (result : ExportResult) : Path × String × List (Except Fault Mesh) :=
  (result.path, result.format, result.forms.map Form.realize)

namespace ExportRequest

variable {s t : Shape}

theorem map_realize_run {a b : Scene} (h : a.Alike b) (r : ExportRequest) :
    (r.run b).map (List.map Form.realize) = (r.run a).map (List.map Form.realize) := by
  rw [run, run]
  split
  · cases r.seconds.toReal with
    | error fault => rfl
    | ok x => exact h.runFor _
  · split
    · cases r.ticks.toWhole with
      | error fault => rfl
      | ok n => exact h.run _
    · exact h.run _

theorem sceneFor_alike (h : t.laidOut = s.laidOut) (r : ExportRequest) (settings : Settings) :
    (∃ fault, { r with shape := s }.sceneFor settings = .error fault ∧
        { r with shape := t }.sceneFor settings = .error fault) ∨
      ∃ a b, { r with shape := s }.sceneFor settings = .ok a ∧
        { r with shape := t }.sceneFor settings = .ok b ∧ a.Alike b := by
  have hseed : { r with shape := t }.seedFor settings = { r with shape := s }.seedFor settings :=
    rfl
  rw [sceneFor_eq, sceneFor_eq, hseed]
  cases { r with shape := s }.seedFor settings with
  | error fault => exact .inl ⟨fault, rfl, rfl⟩
  | ok seed =>
      cases Clock.ofRate settings.rate with
      | error fault => exact .inl ⟨fault, rfl, rfl⟩
      | ok clock => exact .inr ⟨_, _, rfl, rfl, h, rfl, rfl⟩

theorem map_laidOut_prepare (h : t.laidOut = s.laidOut) (r : ExportRequest) (settings : Settings)
    (format : String) :
    ({ r with shape := t }.prepare settings format).map
        (fun made : ExportResult × Svg.Document => (made.1.laidOut, made.2)) =
      ({ r with shape := s }.prepare settings format).map
        (fun made : ExportResult × Svg.Document => (made.1.laidOut, made.2)) := by
  have hpath : { r with shape := t }.pathFor settings format =
    { r with shape := s }.pathFor settings format := rfl
  rw [prepare, prepare, hpath]
  cases { r with shape := s }.pathFor settings format with
  | error fault => rfl
  | ok path =>
      simp only [ok_bind]
      obtain ⟨fault, hs, ht⟩ | ⟨a, b, hs, ht, halike⟩ := sceneFor_alike h r settings
      · rw [hs, ht]
        rfl
      · rw [hs, ht, ok_bind, ok_bind]
        -- What a request runs for does not depend on its shape.
        obtain ⟨fault, ha, hb⟩ | ⟨forms, forms', ha, hb, hmeshes⟩ :=
          cases_of_map_eq (map_realize_run halike r)
        · have hruns : { r with shape := s }.run a = .error fault := ha
          have hruns' : { r with shape := t }.run b = .error fault := hb
          rw [hruns, hruns']
        · have hruns : { r with shape := s }.run a = .ok forms := ha
          have hruns' : { r with shape := t }.run b = .ok forms' := hb
          rw [hruns, hruns', ok_bind, ok_bind, Svg.render_congr hmeshes]
          cases Svg.render forms _ _ with
          | error fault => rfl
          | ok document =>
              exact congrArg (fun meshes => Except.ok ((path, format, meshes), document)) hmeshes

/-- Requests for shapes that draw the same leave the same session, with the same files, and make the
same of it. -/
theorem perform_congr (h : t.laidOut = s.laidOut) (r : ExportRequest) (session : Session) :
    ({ r with shape := t }.perform session).1 = ({ r with shape := s }.perform session).1 ∧
      ({ r with shape := t }.perform session).2.map ExportResult.laidOut =
        ({ r with shape := s }.perform session).2.map ExportResult.laidOut := by
  rw [perform, perform]
  dsimp only
  split
  · exact ⟨rfl, rfl⟩
  · cases formatOf r.format with
    | error fault => exact ⟨rfl, rfl⟩
    | ok format =>
        cases session.settings with
        | error fault => exact ⟨rfl, rfl⟩
        | ok loaded =>
            obtain ⟨settings, s₁⟩ := loaded
            dsimp only
            obtain ⟨fault, hs, ht⟩ | ⟨⟨result, document⟩, ⟨result', document'⟩, hs, ht, hview⟩ :=
              cases_of_map_eq (map_laidOut_prepare h r settings format)
            · rw [hs, ht]
              exact ⟨rfl, rfl⟩
            · obtain ⟨hresult, rfl⟩ := Prod.mk.inj hview
              have hpath : result'.path = result.path := congrArg Prod.fst hresult
              rw [hs, ht]
              dsimp only
              rw [hpath]
              refine ⟨rfl, ?_⟩
              cases (s₁.world.save result.path document'.text).2 with
              | error fault => rfl
              | ok => exact congrArg Except.ok hresult

end ExportRequest

/-! ## Brackets -/

open Shape in
/-- Taking brackets away, and putting them in, changes nothing that can be seen.  From every stream
a pass of the one shape fails with the same fault as a pass of the other, or both are completed,
leave the same stream, and have forms with exactly the same mesh, which can stand for one another
among the forms of every document and every export.  So every request for the one shape leaves the
same files as the request for the other, and fails with the same fault or makes the same meshes. -/
theorem exports_of_regrouped {s t : Shape} (h : s.Regrouped t) :
    (t.Built ↔ s.Built) ∧
      (∀ stream fault, t.pass stream = .error fault ↔ s.pass stream = .error fault) ∧
      (∀ stream form next, s.pass stream = .ok (form, next) →
        ∃ form', t.pass stream = .ok (form', next) ∧ form'.realize = form.realize ∧
          ∀ (front back : List Form) (w : World) (path canvas background : Value),
            Svg.render (front ++ form' :: back) canvas background =
                Svg.render (front ++ form :: back) canvas background ∧
              exportForms w (front ++ form' :: back) path canvas background =
                exportForms w (front ++ form :: back) path canvas background) ∧
      ∀ (r : ExportRequest) (session : Session),
        ({ r with shape := t }.perform session).1 = ({ r with shape := s }.perform session).1 ∧
          ({ r with shape := t }.perform session).2.map ExportResult.laidOut =
            ({ r with shape := s }.perform session).2.map ExportResult.laidOut := by
  have hlaidOut := laidOut_eq_of_row_eq h.row_eq
  refine ⟨h.built_iff, ?_, ?_, ExportRequest.perform_congr hlaidOut⟩
  · intro stream fault
    obtain ⟨fault', hs, ht⟩ | ⟨form, form', next, hs, ht, -⟩ := laidOut_cases hlaidOut stream
    · rw [hs, ht]
    · rw [hs, ht]
      exact ⟨fun h => (by cases h), fun h => (by cases h)⟩
  · intro stream form next hpass
    obtain ⟨fault, hs, -⟩ | ⟨form₁, form', next', hs, ht, hmesh⟩ := laidOut_cases hlaidOut stream
    · rw [hs] at hpass
      cases hpass
    · rw [hs] at hpass
      cases hpass
      refine ⟨form', ht, hmesh, fun front back w path canvas background => ?_⟩
      have hmeshes : (front ++ form' :: back).map Form.realize =
          (front ++ form :: back).map Form.realize := by
        simp only [List.map_append, List.map_cons, hmesh]
      exact ⟨Svg.render_congr hmeshes canvas background,
        exportForms_congr hmeshes w path canvas background⟩

open ExportRequest in
/-- The demo's shadow, moved, and the same with an empty group and two groups of one around it. -/
theorem exports_of_regrouped_shadow :
    let s : Shape := .move (.ofReal 1.0) (.ofReal 0.0) Demo.shadow
    let t : Shape :=
      .move (.ofReal 1.0) (.ofReal 0.0) (.group [.group [], .group [Demo.shadow]])
    s.Regrouped t ∧ t.Built ∧ ∃ s' result result' text,
      { shape := s : ExportRequest }.perform smallSession = (s', .ok result) ∧
        { shape := t : ExportRequest }.perform smallSession = (s', .ok result') ∧
        result'.laidOut = result.laidOut ∧ s'.world.content? result.path = some (.text text) := by
  intro s t
  have hregrouped : s.Regrouped t := by
    refine .symm _ _ (.trans _ _ _ (.rel _ _ (.move _ _ (.drop [] [.group [Demo.shadow]]))) ?_)
    exact .trans _ _ _ (.rel _ _ (.move _ _ (.unwrap (.group [Demo.shadow]))))
      (.rel _ _ (.move _ _ (.unwrap Demo.shadow)))
  have hmade : (do
      let form ← s.formAt (.ofSeed 7) 0
      Svg.render [form] small.canvasValue small.backgroundValue).toBool = true := by
    decide +kernel
  obtain ⟨document, hdocument⟩ := exists_eq_ok hmade
  obtain ⟨form, hform, hrender⟩ := bind_eq_ok hdocument
  have hforms : [form].map .ok = (List.range 1).map (s.formAt (.ofSeed 7)) := by
    show [.ok form] = [s.formAt _ 0]
    rw [hform]
  obtain ⟨s', hperform, hcontent⟩ := perform_small s .null (by rfl) hforms hrender
  obtain ⟨hbuilt, -, -, hexports⟩ := exports_of_regrouped hregrouped
  obtain ⟨hsession, hresult⟩ := hexports { shape := s } smallSession
  have hperform' : { shape := s : ExportRequest }.perform smallSession = (s', .ok _) := hperform
  rw [hperform'] at hsession
  obtain ⟨fault, hfault, -⟩ | ⟨result, result', hs, ht, hview⟩ := cases_of_map_eq hresult
  · rw [hperform'] at hfault
    cases hfault
  · rw [hperform'] at hs
    cases hs
    exact ⟨hregrouped, hbuilt.mpr (.move (.constant _) (.constant _) Demo.shadow_built), s', _,
      result', document.text, hperform', Prod.ext hsession ht, hview, hcontent⟩

end SeededSketch
