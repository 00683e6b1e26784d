import SeededSketch.Proofs.Pictures

/-!
# Texts that only grow

Nothing that was painted changes when more is painted.  The document of two lists of forms, the one
behind the other, has the polygons of the first list and then those of the second
(`render_append_iff`), although all meshes are joined into one and cut up again on the way.  The
forms of more ticks begin with those of fewer ticks, so the text that is written after more ticks
begins with the text after fewer ticks, but for its last line.
-/

namespace SeededSketch

namespace Svg

/-! ## Documents of two lists of forms -/

theorem leaves_append (front back : List Form) :
    (Form.stacked (front ++ back)).leaves =
      (Form.stacked front).leaves ++ (Form.stacked back).leaves := by
  rw [Form.leaves_stacked, Form.leaves_stacked, Form.leaves_stacked, List.flatMap_append]

variable {front back : List Form} {canvas background : Value} {d : Document}

/-- Two lists of forms have a document together exactly if each of them has one and all vertices can
be counted by a word. -/
theorem render_append_iff :
    render (front ++ back) canvas background = .ok d ↔
      ∃ d₁ d₂, render front canvas background = .ok d₁ ∧ render back canvas background = .ok d₂ ∧
        5 * (d₁.polygons.length + d₂.polygons.length) < 2 ^ 31 ∧
        d = { d₁ with polygons := d₁.polygons ++ d₂.polygons } := by
  simp only [render_eq_ok_iff]
  constructor
  · rintro ⟨hcanvas, hbackground, reads, hreads, hsize, hpolygons⟩
    rw [Form.inRealsAll_append] at hreads
    obtain ⟨reads₁, hreads₁, hreads⟩ := bind_eq_ok hreads
    obtain ⟨reads₂, hreads₂, hreads⟩ := bind_eq_ok hreads
    cases hreads
    rw [leaves_append, List.length_append] at hsize
    rw [leaves_append, List.mapM_append] at hpolygons
    obtain ⟨polygons₁, hpolygons₁, hpolygons⟩ := bind_eq_ok hpolygons
    obtain ⟨polygons₂, hpolygons₂, hpolygons⟩ := bind_eq_ok hpolygons
    have hboth : polygons₁ ++ polygons₂ = d.polygons := Except.ok.inj hpolygons
    have hlength₁ := (mapM_eq_ok_iff.mp hpolygons₁).length_eq
    have hlength₂ := (mapM_eq_ok_iff.mp hpolygons₂).length_eq
    refine ⟨{ d with polygons := polygons₁ }, { d with polygons := polygons₂ },
      ⟨hcanvas, hbackground, reads₁, hreads₁, by omega, hpolygons₁⟩,
      ⟨hcanvas, hbackground, reads₂, hreads₂, by omega, hpolygons₂⟩, ?_, ?_⟩
    · show 5 * (polygons₁.length + polygons₂.length) < 2 ^ 31
      omega
    · rw [hboth]
  · rintro ⟨d₁, d₂, ⟨hcanvas, hbackground, reads₁, hreads₁, -, hpolygons₁⟩,
      ⟨hcanvas', -, reads₂, hreads₂, -, hpolygons₂⟩, hsize, rfl⟩
    obtain ⟨hwidth, hheight⟩ := Prod.mk.inj (Except.ok.inj (hcanvas.symm.trans hcanvas'))
    rw [← hwidth, ← hheight] at hpolygons₂
    have hlength₁ := (mapM_eq_ok_iff.mp hpolygons₁).length_eq
    have hlength₂ := (mapM_eq_ok_iff.mp hpolygons₂).length_eq
    refine ⟨hcanvas, hbackground, reads₁ ++ reads₂, ?_, ?_, ?_⟩
    · rw [Form.inRealsAll_append, hreads₁, ok_bind, hreads₂]
      rfl
    · rw [leaves_append, List.length_append]
      omega
    · rw [leaves_append, List.mapM_append, hpolygons₁, ok_bind, hpolygons₂]
      rfl

/-! ## Lines of paths -/

def isPathLine (line : String) : Bool := "  <path ".toList.isPrefixOf line.toList

/-- The lines of a text that are lines of paths. -/
def pathLines (text : String) : List String := (cut '\n' text).filter isPathLine

namespace Picture

variable {p : Picture}

/-- Among the lines of a picture the lines of paths are those of its patches. -/
theorem filter_lines (p : Picture) :
    (p.lines.map "\"".intercalate).filter isPathLine =
      p.patches.map fun patch => "\"".intercalate patch.pieces := by
  have hopening : isPathLine ("\"".intercalate p.opening) = false := by
    simp [isPathLine, opening, List.isPrefixOf]
  have hbackground : ((p.background.map p.backgroundLine).toList.map "\"".intercalate).filter
      isPathLine = [] := by
    cases p.background <;> simp [isPathLine, backgroundLine, List.isPrefixOf]
  have hpatches : (p.patches.map fun patch => "\"".intercalate patch.pieces).filter isPathLine =
      p.patches.map fun patch => "\"".intercalate patch.pieces := by
    rw [List.filter_eq_self]
    intro line hline
    obtain ⟨patch, -, rfl⟩ := List.mem_map.mp hline
    simp [isPathLine, Patch.pieces, List.isPrefixOf]
  have hdeclaration : isPathLine
      ("\"".intercalate ["<?xml version=", "1.0", " encoding=", "UTF-8", "?>"]) = false := by
    simp [isPathLine, List.isPrefixOf]
  have hend : ([["</svg>"], [""]].map "\"".intercalate).filter isPathLine = [] := by
    simp [isPathLine, List.isPrefixOf]
  rw [lines, List.map_append, List.map_append, List.map_append, List.filter_append,
    List.filter_append, List.filter_append, hbackground, hend, List.map_map]
  simp only [List.map_cons, List.map_nil, List.filter_cons, List.filter_nil, hdeclaration, hopening]
  exact (List.append_nil _).trans hpatches

theorem IsWritten.pathLines_text (h : p.IsWritten) :
    pathLines p.text = p.patches.map fun patch => "\"".intercalate patch.pieces := by
  rw [pathLines, h.cut_text, filter_lines]

end Picture

/-- The lines of paths in the text of a document that was rendered are those of its polygons. -/
theorem pathLines_of_render {forms : List Form} (h : render forms canvas background = .ok d) :
    pathLines d.text = d.polygons.map Polygon.line := by
  rw [d.text_eq, (isWritten_of_render h).pathLines_text, Document.picture, List.map_map]
  exact List.map_congr_left fun p _ => p.line_eq.symm

/-- A document that was rendered has as many polygons as there are rectangles. -/
theorem length_polygons_of_render {forms : List Form}
    (h : render forms canvas background = .ok d) :
    d.polygons.length = Form.rectangleCountOfAll forms := by
  rw [← (patches_of_depict (depict_of_render h)).1]
  exact (List.length_map ..).symm

namespace Document

/-- The text of a document without its last line. -/
def body (d : Document) : String :=
  String.join ((["<?xml version=\"1.0\" encoding=\"UTF-8\"?>", d.opening] ++
    (d.background.map d.backgroundLine).toList ++ d.polygons.map Polygon.line).map (· ++ "\n"))

theorem text_eq_body (d : Document) : d.text = d.body ++ "</svg>\n" := by
  apply String.toList_injective
  simp [text, lines, body]

theorem body_append (d : Document) (more : List Polygon) :
    { d with polygons := d.polygons ++ more }.body =
      d.body ++ String.join (more.map fun p => p.line ++ "\n") := by
  have hbody : { d with polygons := d.polygons ++ more }.body =
      String.join ((["<?xml version=\"1.0\" encoding=\"UTF-8\"?>", d.opening] ++
        (d.background.map d.backgroundLine).toList ++
          (d.polygons ++ more).map Polygon.line).map (· ++ "\n")) := rfl
  apply String.toList_injective
  rw [hbody, body]
  simp [List.flatMap_map]

end Document
end Svg

/-! ## What exports write -/

/-- There is a document for some forms, and every export of them that succeeds writes this text. -/
structure WrittenAs (forms : List Form) (canvas background : Value) (text : String) : Prop where
  document : ∃ d, Svg.render forms canvas background = .ok d ∧ d.text = text
  file : ∀ (w w' : World) (path : Value) (target : Path),
    exportForms w forms path canvas background = (w', .ok target) →
      w'.content? target = some (.text text)

theorem writtenAs_of_render {forms : List Form} {canvas background : Value} {d : Svg.Document}
    (h : Svg.render forms canvas background = .ok d) : WrittenAs forms canvas background d.text :=
  ⟨⟨d, h, rfl⟩, fun _ _ _ _ hexport => ExportRequest.content?_of_exportForms h hexport⟩

/-- What is written for two lists of forms has the lines of paths that are written for the first, and
then those that are written for the second. -/
theorem WrittenAs.pathLines_append {front back : List Form} {canvas background : Value}
    {text : String} (h : WrittenAs (front ++ back) canvas background text) :
    ∃ text₁ text₂, WrittenAs front canvas background text₁ ∧
      WrittenAs back canvas background text₂ ∧
      Svg.pathLines text = Svg.pathLines text₁ ++ Svg.pathLines text₂ := by
  obtain ⟨d, hd, rfl⟩ := h.document
  obtain ⟨d₁, d₂, hd₁, hd₂, -, hpolygons⟩ := Svg.render_append_iff.mp hd
  refine ⟨d₁.text, d₂.text, writtenAs_of_render hd₁, writtenAs_of_render hd₂, ?_⟩
  rw [Svg.pathLines_of_render hd, Svg.pathLines_of_render hd₁, Svg.pathLines_of_render hd₂,
    hpolygons, List.map_append]

/-- Two lists of forms for which something is written can be written together, if all vertices can be
counted by a word. -/
theorem WrittenAs.append {front back : List Form} {canvas background : Value}
    {text₁ text₂ : String} (h₁ : WrittenAs front canvas background text₁)
    (h₂ : WrittenAs back canvas background text₂)
    (hsize : 5 * (Form.rectangleCountOfAll front + Form.rectangleCountOfAll back) < 2 ^ 31) :
    ∃ text, WrittenAs (front ++ back) canvas background text := by
  obtain ⟨d₁, hd₁, -⟩ := h₁.document
  obtain ⟨d₂, hd₂, -⟩ := h₂.document
  rw [← Svg.length_polygons_of_render hd₁, ← Svg.length_polygons_of_render hd₂] at hsize
  exact ⟨_, writtenAs_of_render (Svg.render_append_iff.mpr ⟨d₁, d₂, hd₁, hd₂, hsize, rfl⟩)⟩

namespace ExportRequest

/-- Two requests, each under settings, that ask for the same picture except for the number of its
ticks. -/
structure Alike (r : ExportRequest) (settings : Settings) (other : ExportRequest)
    (settings' : Settings) : Prop where
  shape : other.shape = r.shape
  seed : other.seedFor settings' = r.seedFor settings
  canvas : other.canvas.orElse settings'.canvasValue = r.canvas.orElse settings.canvasValue
  background :
    other.background.orElse settings'.backgroundValue = r.background.orElse settings.backgroundValue

variable {r other : ExportRequest} {settings settings' : Settings} {result result' : ExportResult}
  {d d' : Svg.Document}

/-- Of two requests that are alike, the one for more ticks makes the forms of the other one and then
some more. -/
theorem Parts.forms_append (h : r.Parts settings result d) (h' : other.Parts settings' result' d')
    (halike : r.Alike settings other settings') (hle : result.forms.length ≤ result'.forms.length) :
    ∃ added, result'.forms = result.forms ++ added := by
  obtain ⟨clock, n, seed, -, -, hseed, hforms⟩ := h.forms
  obtain ⟨clock', m, seed', -, -, hseed', hforms'⟩ := h'.forms
  rw [halike.seed, hseed] at hseed'
  obtain rfl : seed = seed' := Except.ok.inj hseed'
  have hn : result.forms.length = n := Shape.length_of_forms hforms
  have hm : result'.forms.length = m := Shape.length_of_forms hforms'
  have htake : result.forms = result'.forms.take n := by
    refine List.map_injective_iff.mpr (fun _ _ => @Except.ok.inj Fault Form _ _) ?_
    rw [hforms, List.map_take, hforms', halike.shape, ← List.map_take, List.take_range,
      Nat.min_eq_left (by omega)]
  refine ⟨result'.forms.drop n, ?_⟩
  rw [htake, List.take_append_drop]

/-- The text for more ticks is the text for fewer ticks with lines put in before the last one. -/
theorem Parts.text_append (h : r.Parts settings result d) (h' : other.Parts settings' result' d')
    (halike : r.Alike settings other settings') (hle : result.forms.length ≤ result'.forms.length) :
    ∃ body added, d.text = body ++ "</svg>\n" ∧ d'.text = body ++ added ++ "</svg>\n" := by
  obtain ⟨added, hadded⟩ := h.forms_append h' halike hle
  have hrender := h'.document
  rw [hadded, halike.canvas, halike.background, Svg.render_append_iff] at hrender
  obtain ⟨d₁, d₂, hd₁, -, -, rfl⟩ := hrender
  obtain rfl : d = d₁ := Except.ok.inj (h.document.symm.trans hd₁)
  refine ⟨d.body, String.join (d₂.polygons.map fun p => p.line ++ "\n"), d.text_eq_body, ?_⟩
  rw [Svg.Document.text_eq_body, Svg.Document.body_append]

end ExportRequest

/-- What has been written stays.  For two lists of forms, the one behind the other, the lines of paths
are those for the first list and then those for the second; and of two requests that are alike but
for the number of their ticks, the one for more ticks writes the text of the other one with lines put
in before the last, so that this text without its last line is the beginning of both. -/
theorem exports_append_only :
    (∀ (front back : List Form) (canvas background : Value) (text : String),
      WrittenAs (front ++ back) canvas background text →
        ∃ text₁ text₂, WrittenAs front canvas background text₁ ∧
          WrittenAs back canvas background text₂ ∧
          Svg.pathLines text = Svg.pathLines text₁ ++ Svg.pathLines text₂) ∧
    (∀ (front back : List Form) (canvas background : Value) (text₁ text₂ : String),
      WrittenAs front canvas background text₁ → WrittenAs back canvas background text₂ →
      5 * (Form.rectangleCountOfAll front + Form.rectangleCountOfAll back) < 2 ^ 31 →
        ∃ text, WrittenAs (front ++ back) canvas background text) ∧
    ∀ (r other : ExportRequest) (s s₁ s' t t₁ t' : Session) (settings settings' : Settings)
      (result result' : ExportResult), s.settings = .ok (settings, s₁) →
      t.settings = .ok (settings', t₁) → r.Alike settings other settings' →
      r.perform s = (s', .ok result) → other.perform t = (t', .ok result') →
      ∃ (clock clock' : Clock) (n m : ℕ) (text text' : String),
        Clock.ofRate settings.rate = .ok clock ∧ r.countFor clock = .ok (n : ℤ) ∧
        Clock.ofRate settings'.rate = .ok clock' ∧ other.countFor clock' = .ok (m : ℤ) ∧
        s'.world.content? result.path = some (.text text) ∧
        t'.world.content? result'.path = some (.text text') ∧
        (n ≤ m → ∃ body added, text = body ++ "</svg>\n" ∧
          text' = body ++ added ++ "</svg>\n") := by
  refine ⟨fun front back canvas background text h => h.pathLines_append,
    fun front back canvas background text₁ text₂ h₁ h₂ hsize => h₁.append h₂ hsize, ?_⟩
  intro r other s s₁ s' t t₁ t' settings settings' result result' hsettings hsettings' halike h h'
  obtain ⟨settings₁, s₂, d, hload, hparts, hcontent⟩ := ExportRequest.exists_parts h
  obtain ⟨settings₂, t₂, d', hload', hparts', hcontent'⟩ := ExportRequest.exists_parts h'
  cases hsettings.symm.trans hload
  cases hsettings'.symm.trans hload'
  obtain ⟨clock, n, seed, hclock, hn, -, hforms⟩ := hparts.forms
  obtain ⟨clock', m, seed', hclock', hm, -, hforms'⟩ := hparts'.forms
  have hlength : result.forms.length = n := Shape.length_of_forms hforms
  have hlength' : result'.forms.length = m := Shape.length_of_forms hforms'
  exact ⟨clock, clock', n, m, d.text, d'.text, hclock, hn, hclock', hm, hcontent, hcontent',
    fun hle => hparts.text_append hparts' halike (by omega)⟩

open ExportRequest in
/-- One tick and two ticks of the demo's shadow. -/
theorem exports_append_only_shadow :
    let once : ExportRequest := { shape := Demo.shadow }
    let twice : ExportRequest := { shape := Demo.shadow, seconds := .number (.whole 2) }
    ∃ (s' t' : Session) (result result' : ExportResult) (text text' : String),
      once.perform smallSession = (s', .ok result) ∧ twice.perform smallSession = (t', .ok result') ∧
        s'.world.content? result.path = some (.text text) ∧
        t'.world.content? result'.path = some (.text text') ∧
        (∃ body added, text = body ++ "</svg>\n" ∧ text' = body ++ added ++ "</svg>\n") ∧
        ∃ first second text₁ text₂ both,
          WrittenAs [first] small.canvasValue small.backgroundValue text₁ ∧
          WrittenAs [second] small.canvasValue small.backgroundValue text₂ ∧
          WrittenAs ([first] ++ [second]) small.canvasValue small.backgroundValue both ∧
          Svg.pathLines both = Svg.pathLines text₁ ++ Svg.pathLines text₂ := by
  intro once twice
  have hmade : (do
      let first ← Demo.shadow.formAt (.ofSeed 7) 0
      let second ← Demo.shadow.formAt (.ofSeed 7) 1
      Svg.render ([first] ++ [second]) small.canvasValue small.backgroundValue).toBool = true := by
    decide +kernel
  obtain ⟨d', hd'⟩ := exists_eq_ok hmade
  obtain ⟨first, hfirst, hd'⟩ := bind_eq_ok hd'
  obtain ⟨second, hsecond, hd'⟩ := bind_eq_ok hd'
  obtain ⟨d, d₂, hd, hd₂, hsize, -⟩ := Svg.render_append_iff.mp hd'
  rw [Svg.length_polygons_of_render hd, Svg.length_polygons_of_render hd₂] at hsize
  have hforms : [first].map .ok = (List.range 1).map (Demo.shadow.formAt (.ofSeed 7)) := by
    show [.ok first] = [Demo.shadow.formAt _ 0]
    rw [hfirst]
  have hforms' : ([first] ++ [second]).map .ok =
      (List.range 2).map (Demo.shadow.formAt (.ofSeed 7)) := by
    show [.ok first, .ok second] = [Demo.shadow.formAt _ 0, Demo.shadow.formAt _ 1]
    rw [hfirst, hsecond]
  obtain ⟨s', hperform, -⟩ := perform_small Demo.shadow .null (by rfl) hforms hd
  obtain ⟨t', hperform', -⟩ :=
    perform_small Demo.shadow (.number (.whole 2)) (by rfl) hforms' hd'
  obtain ⟨hlines, happend, hgrowth⟩ := exports_append_only
  obtain ⟨clock, clock', n, m, text, text', hclock, hn, hclock', hm, hcontent, hcontent', hgrown⟩ :=
    hgrowth once twice smallSession smallSession s' smallSession smallSession t' small small _ _
      rfl rfl ⟨rfl, rfl, rfl, rfl⟩ hperform hperform'
  obtain rfl : ⟨1.0, 0.0, 0⟩ = clock := Except.ok.inj (clock_small.symm.trans hclock)
  obtain rfl : ⟨1.0, 0.0, 0⟩ = clock' := Except.ok.inj (clock_small.symm.trans hclock')
  have hone : once.countFor ⟨1.0, 0.0, 0⟩ = .ok (1 : ℕ) := by rfl
  have htwo : twice.countFor ⟨1.0, 0.0, 0⟩ = .ok (2 : ℕ) := by rfl
  obtain rfl : 1 = n := by exact_mod_cast Except.ok.inj (hone.symm.trans hn)
  obtain rfl : 2 = m := by exact_mod_cast Except.ok.inj (htwo.symm.trans hm)
  obtain ⟨both, hboth⟩ :=
    happend _ _ _ _ _ _ (writtenAs_of_render hd) (writtenAs_of_render hd₂) hsize
  obtain ⟨text₁, text₂, hfirst, hsecond, hlines⟩ := hlines _ _ _ _ _ hboth
  exact ⟨s', t', _, _, text, text', hperform, hperform', hcontent, hcontent', hgrown (by decide),
    first, second, text₁, text₂, both, hfirst, hsecond, hboth, hlines⟩

end SeededSketch
