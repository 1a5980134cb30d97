import PipelineEditor.Proofs.Session.SavedDrafts
import PipelineEditor.Proofs.Window.Frames
import PipelineEditor.Window.Picture

/-! The title over the canvas, and who else decides whether a pipeline has a name. Validation and
calls for a draft take a name of nothing but white space for none, and the title takes it for a
name. -/
namespace PipelineEditor

namespace Session

/-- The panel of the window is there, and panels show the pipeline unless they are edited or stale. -/
private structure Presented (s : Session) : Prop where
  live : (s.panel? Window.panelIndex).isSome = true
  faithful : s.Faithful

private theorem presented_start (opening : Opening) (capacity : Nat) :
    (start opening capacity).Presented :=
  ⟨live_start opening capacity, faithful_start opening capacity⟩

private theorem presented_step {s : Session} {c : Command} (h : s.Presented) (given : s.Behind c) :
    (s.step c).2.Presented :=
  ⟨live_step h.live given.stays, faithful_step h.faithful given.typed⟩

private theorem presented_steady : Steady Presented where
  live _ h := h.live
  drained _ h := ⟨h.live, h.faithful.told, h.faithful.shows⟩
  step _ _ played h := presented_step h played.behind

end Session

namespace Window

/-- The title is the first of all widgets while the editor is closed. -/
private theorem head?_widgets {w : Window} {p : Panel} (shown : w.panel? = some p)
    (collapsed : p.expanded = false) : w.widgets.head? = some (.button (title p) .title) := by
  simp only [widgets, shown, header, collapsed, Bool.false_eq_true, if_false]
  rfl

/-- The title of a window whose editor is closed and whose panel is not stale is an invitation to give
a name exactly when the name of the pipeline is empty. A name is reported as missing, and a call for a
draft is refused, exactly when there is nothing in it but white space. So the title agrees with these
two unless the name is made of white space and not empty. -/
theorem title_of_unnamed {opening : Opening} {capacity : Nat} {w : Window} {p : Panel}
    (reached : Reachable Session.Behind opening capacity w) (shown : w.panel? = some p)
    (collapsed : p.expanded = false) (current : p.stale = false) :
    let pipeline := w.session.pipeline
    (isUntitled p = true ↔ pipeline.name = "") ∧
      w.widgets.head? =
        some (.button (if pipeline.name = "" then "Name your pipeline" else pipeline.name) .title) ∧
      ((∃ m ∈ pipeline.problems, m.kind = .missingName) ↔ pipeline.Unnamed) ∧
      (∀ c, w.session.operation? c = some .save →
        ((w.session.step c).2.drafts = w.session.drafts ↔ pipeline.Unnamed)) ∧
      ((isUntitled p = true ↔ ∃ m ∈ pipeline.problems, m.kind = .missingName) ↔
        (pipeline.Unnamed → pipeline.name = "")) := by
  intro pipeline
  have presented : w.session.Presented :=
    reached.keeps Session.presented_steady (Session.presented_start _ _)
      fun _ _ given h => Session.presented_step h given
  have shows : p.Shows pipeline := presented.faithful.shows _ _ shown collapsed current
  have name : p.metadata.name = pipeline.name := congrArg Metadata.name shows.1
  have untitled : isUntitled p = true ↔ pipeline.name = "" := by
    rw [isUntitled, name, String.isEmpty_iff]
  have empty (h : pipeline.name = "") : pipeline.Unnamed := by
    rw [Pipeline.Unnamed, h]
    exact nofun
  have written : title p = if pipeline.name = "" then "Name your pipeline" else pipeline.name := by
    rw [title, name]
    simp only [untitled]
  refine ⟨untitled, ?_, pipeline.missingName_iff, fun _ => Session.draft_refused_iff, ?_⟩
  · rw [head?_widgets shown collapsed, written]
  · rw [untitled, pipeline.missingName_iff]
    exact ⟨fun agree => agree.2, fun same => ⟨empty, same⟩⟩

/-- A name of white space that is typed and saved. -/
theorem title_of_unnamed_typed :
    let opening : Opening := ⟨.empty .standard, none⟩
    let opened := ((start (.start opening 8)).frame { Input.idle with clicks := [.title] }).2
    let saved := (opened.frame
      { Input.idle with typed := [(.name, "\u2003")], clicks := [.save] }).2
    let w := (saved.onSession fun s => (s.step .finishDeferred).2).idle
    Reachable Session.Behind opening 8 w ∧
      ∃ p, w.panel? = some p ∧ p.expanded = false ∧ p.stale = false ∧
        w.session.pipeline.Unnamed ∧ w.session.pipeline.name ≠ "" ∧
        w.widgets.head? = some (.button "\u2003" .title) ∧
        ¬ (isUntitled p = true ↔ ∃ m ∈ w.session.pipeline.problems, m.kind = .missingName) := by
  intro opening opened saved w
  have reached : Reachable Session.Behind opening 8 w :=
    .frame (.command (.frame (.frame .start _) _) .finishDeferred ⟨rfl, nofun⟩) _
  have seen : w.panel?.map (fun p => (p.expanded, p.stale)) = some (false, false) := by
    decide +kernel
  obtain ⟨p, shown, state⟩ := Option.map_eq_some_iff.1 seen
  obtain ⟨collapsed, current⟩ := Prod.mk.inj state
  have unnamed : w.session.pipeline.Unnamed := by decide +kernel
  have name : w.session.pipeline.name = "\u2003" := by decide +kernel
  have named : w.session.pipeline.name ≠ "" := by decide +kernel
  obtain ⟨-, title, -, -, agree⟩ := title_of_unnamed reached shown collapsed current
  rw [if_neg named, name] at title
  exact ⟨reached, p, shown, collapsed, current, unnamed, named, title,
    fun same => named (agree.1 same unnamed)⟩

/-- A pipeline that is opened under a name of white space has that name for its title, although its
name is reported as missing and no draft of it can be saved. -/
theorem title_of_blank_name :
    let opening : Opening := ⟨{ Pipeline.empty .standard with name := " " }, none⟩
    let w := start (.start opening 8)
    Reachable Session.Behind opening 8 w ∧
      w.panel?.map (fun p => (p.expanded, p.stale, isUntitled p)) = some (false, false, false) ∧
      (∃ m ∈ w.session.pipeline.problems, m.kind = .missingName) ∧
      w.session.operation? .saveDraft = some .save ∧
        (w.session.step .saveDraft).2.drafts = w.session.drafts := by
  intro opening w
  exact ⟨.start, by decide +kernel, by decide +kernel, rfl, by decide +kernel⟩

end Window
end PipelineEditor
