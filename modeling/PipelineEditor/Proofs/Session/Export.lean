import PipelineEditor.Proofs.File
import PipelineEditor.Proofs.Pipeline.Wire
import PipelineEditor.Proofs.Session.Frame

/-! Exported pipelines. The export window keeps the pipeline it was opened on, and the document that
it offers opens as a copy of that pipeline without its layout. -/
namespace PipelineEditor

namespace Opening

/-- A file that holds the document of a pipeline without a layout opens as a copy of it. -/
theorem load_document (artifact : Artifact) {p : Pipeline} (h : p.layout = none)
    (name : Option String) :
    load artifact (some (.content p.document.toUTF8)) name =
      .ok ⟨{ p with name := name.getD p.name }, some p.name⟩ := by
  have text : (FileState.content p.document.toUTF8).text = .ok p.document :=
    FileState.text_eq_ok_iff.2 rfl
  have copied : copy (.content p.document.toUTF8) = .ok ⟨p, some p.name⟩ := by
    simp only [copy, text, Pipeline.ofDocument_document (Pipeline.legible_of_layout_eq_none h)]
  simp only [load, copied]
  cases name with
  | none => rfl
  | some name => rfl

end Opening

namespace Session

private theorem exportRequest_runAll {s : Session} {commands : List Command}
    (h : ∀ c ∈ commands, c.setsExport = false) :
    (s.runAll commands).exportRequest = s.exportRequest := by
  induction commands generalizing s with
  | nil => rfl
  | cons c cs ih =>
    refine (ih fun d hd => h d (List.mem_cons_of_mem c hd)).trans ?_
    exact exportRequest_step s (h c List.mem_cons_self)

/-- What a panel exports is the pipeline at that time, with all that it has but its layout. The export
window keeps it whatever happens until the window is opened again or closed, and a file with its
document opens as a copy, which a name that is given renames. -/
theorem exported_copy {s : Session} {i : Nat} {p : Panel} (hp : s.panel? i = some p)
    {later : List Command} (h : ∀ c ∈ later, c.setsExport = false) (artifact : Artifact)
    (name : Option String) :
    let t := (s.step (.onPanel i (.run .exportDocument))).2.runAll later
    ∃ r, t.exportRequest = some r ∧ r.display = s.pipeline ∧
      (r.exported.name = s.pipeline.name ∧ r.exported.description = s.pipeline.description ∧
        r.exported.artifact = s.pipeline.artifact ∧ r.exported.graph = s.pipeline.graph ∧
        r.exported.layout = none) ∧
      r.document = r.exported.document ∧
      ∃ contents, Destination.file.write r.document = .ok contents ∧
        Opening.load artifact (some (.content contents.toUTF8)) name =
          .ok ⟨{ r.exported with name := name.getD r.exported.name }, some r.exported.name⟩ := by
  intro t
  have shown : (s.step (.onPanel i (.run .exportDocument))).2.exportRequest =
      some ⟨s.pipeline, s.pipeline.withoutLayout, s.pipeline.withoutLayout.document⟩ := by
    simp only [step, hp]
    rfl
  refine ⟨_, (exportRequest_runAll h).trans shown, rfl, Pipeline.eq_withoutLayout_iff.1 rfl, rfl, _,
    rfl, ?_⟩
  exact Opening.load_document artifact rfl name

/-- A pipeline with a stage is exported, changed, and its document opened under another name. -/
theorem exported_copy_renamed :
    let s := (start ⟨.empty .standard, none⟩ 16).runAll
      [.setMetadata ⟨"daily \"orders\"", "one\ntwo"⟩, .addStage "read" ⟨"csv", "source"⟩]
    let later : List Command :=
      [.setMetadata ⟨"sales", ""⟩, .addStage "write" ⟨"s3", "sink"⟩, .pump]
    let graph : Graph := ⟨[⟨⟨1⟩, "read", ⟨"csv", "source"⟩, .empty⟩], []⟩
    ∃ p, s.panel? 0 = some p ∧ (∀ c ∈ later, c.setsExport = false) ∧
      ∃ r, ((s.step (.onPanel 0 (.run .exportDocument))).2.runAll later).exportRequest = some r ∧
        r.display = s.pipeline ∧
        r.exported = ⟨"daily \"orders\"", "one\ntwo", .standard, graph, none⟩ ∧
        ∃ contents, Destination.file.write r.document = .ok contents ∧
          Opening.load .standard (some (.content contents.toUTF8)) (some "copy") =
            .ok ⟨⟨"copy", "one\ntwo", .standard, graph, none⟩, some "daily \"orders\""⟩ := by
  intro s later graph
  have hp : s.panel? 0 = some (Panel.added (vacant (.empty .standard) 16) none).told := by
    decide +kernel
  have quiet : ∀ c ∈ later, c.setsExport = false := by decide
  have copied :
      s.pipeline.withoutLayout = ⟨"daily \"orders\"", "one\ntwo", .standard, graph, none⟩ := by
    decide +kernel
  obtain ⟨r, hr, display, fields, -, contents, written, opened⟩ :=
    exported_copy hp quiet .standard (some "copy")
  have exported := (Pipeline.eq_withoutLayout_iff.2 fields).trans copied
  rw [exported] at opened
  exact ⟨_, hp, quiet, r, hr, display, exported, contents, written, opened⟩

end Session
end PipelineEditor
