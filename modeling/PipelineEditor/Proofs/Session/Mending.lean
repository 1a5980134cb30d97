import PipelineEditor.Proofs.Pipeline.Faults
import PipelineEditor.Proofs.Session.StageIds

/-! What new stages do to the faults of a pipeline. They are the stages that were missing for some of
them, and bring none of their own. -/
namespace PipelineEditor

/-- Whether a fault remains when stages of some names are added. -/
def Fault.remains (names : List String) : Fault → Bool
  | .missingName | .invalidName => true
  | .noStages => names = []
  | .dangling _ missing => missing ∉ names

namespace Pipeline

/-- A pipeline after stages of some names were added. Of its faults those are left that remain, in
their order, and there are no others. -/
structure Mended (names : List String) (p q : Pipeline) : Prop where
  faults : ∃ fs, p.Listed fs ∧ p.problems = fs.map Fault.message ∧
    q.Listed (fs.filter (·.remains names)) ∧
      q.problems = (fs.filter (·.remains names)).map Fault.message
  problems : q.problems.Sublist p.problems
  nameErrors :
    q.problems.filter (·.kind.isNameError) = p.problems.filter (·.kind.isNameError)
  sound : p.Sound → q.Sound

/-! Each kind of fault. -/

theorem NameFaults.filter_remains {name : String} {fs : List Fault} (h : NameFaults name fs)
    (names : List String) : fs.filter (·.remains names) = fs := by
  cases h <;> rfl

theorem StageFaults.append {stages : List Stage} {fs : List Fault} (h : StageFaults stages fs)
    (new : List Stage) : StageFaults (stages ++ new) (fs.filter (·.remains (new.map (·.name)))) := by
  cases h with
  | none => exact .none
  | missing =>
    cases new with
    | nil => exact .missing
    | cons stage new => exact .none

theorem EndFaults.append {names : List String} {ends : List (Connection × String)}
    {fs : List Fault} (h : EndFaults names ends fs) (new : List String) :
    EndFaults (names ++ new) ends (fs.filter (·.remains new)) := by
  induction h with
  | nil => exact .nil
  | joined there _ ih => exact .joined (List.mem_append_left _ there) ih
  | @dangling c name _ _ missing _ ih =>
    by_cases mended : name ∈ new
    · rw [List.filter_cons_of_neg (by simpa [Fault.remains] using mended)]
      exact .joined (List.mem_append_right _ mended) ih
    · rw [List.filter_cons_of_pos (by simpa [Fault.remains] using mended)]
      exact .dangling (List.not_mem_append missing mended) ih

/-! All faults. -/

theorem Listed.append {p q : Pipeline} {fs : List Fault} {new : List Stage} (h : p.Listed fs)
    (name : q.name = p.name) (connections : q.graph.connections = p.graph.connections)
    (stages : q.graph.stages = p.graph.stages ++ new) :
    q.Listed (fs.filter (·.remains (new.map (·.name)))) := by
  obtain ⟨ofName, ofStages, ofEnds⟩ := h
  have names : q.graph.names = p.graph.names ++ new.map (·.name) := by
    rw [Graph.names, stages, List.map_append]
    rfl
  have ends : q.graph.ends = p.graph.ends := by
    rw [Graph.ends, connections]
    rfl
  rw [List.filter_append, List.filter_append, ofName.filter_remains]
  refine .intro (name ▸ ofName) (stages ▸ ofStages.append new) ?_
  rw [names, ends]
  exact ofEnds.append _

theorem mended_of_append {p q : Pipeline} (new : List Stage) (name : q.name = p.name)
    (connections : q.graph.connections = p.graph.connections)
    (stages : q.graph.stages = p.graph.stages ++ new) : Mended (new.map (·.name)) p q := by
  obtain ⟨fs, listed⟩ := Listed.exists_of p
  have left := listed.append name connections stages
  have fewer : q.problems.Sublist p.problems := by
    rw [listed.problems, left.problems]
    exact List.filter_sublist.map _
  refine ⟨⟨fs, listed, listed.problems, left, left.problems⟩, fewer, ?_, fun sound => ?_⟩
  · rw [filter_isNameError, filter_isNameError, name]
  · rw [← isValid_iff, isValid, List.isEmpty_iff] at sound ⊢
    rw [sound] at fewer
    exact List.eq_nil_of_sublist_nil fewer

end Pipeline

namespace Session

open Pipeline (Mended)

theorem assignments_addStages (s : Session) (added : List (String × Plugin)) :
    s.assignments (added.map fun a => .addStage a.1 a.2) = [] := by
  induction added generalizing s with
  | nil => rfl
  | cons a added ih => exact ih _

theorem mended_runAll {s : Session} {commands : List Command} (h : s.assignments commands = []) :
    ∃ new, (s.runAll commands).pipeline.graph.stages = s.pipeline.graph.stages ++ new ∧
      Mended (new.map (·.name)) s.pipeline (s.runAll commands).pipeline := by
  obtain ⟨-, connections, new, stages⟩ := extends_runAll s commands
  have metadata := metadata_runAll s commands
  rw [h, List.getLastD_nil] at metadata
  exact ⟨new, stages.symm,
    Pipeline.mended_of_append new (congrArg Metadata.name metadata) connections stages.symm⟩

/-- A stage that is added takes from the faults of the pipeline that of having no stage and those of
the ends that its name was missing for. It leaves the others in their order and adds none. So do the
new stages of any commands that save or set no name, and a pipeline that is sound stays sound while
stages are added. -/
theorem stages_only_mend :
    (∀ (s t : Session) (name : String) (plugin : Plugin) (id : StageId),
      s.step (.addStage name plugin) = (.added id, t) → Mended [name] s.pipeline t.pipeline) ∧
    (∀ (s : Session) (commands : List Command), s.assignments commands = [] →
      ∃ new, (s.runAll commands).pipeline.graph.stages = s.pipeline.graph.stages ++ new ∧
        Mended (new.map (·.name)) s.pipeline (s.runAll commands).pipeline) ∧
    ∀ (s : Session) (added : List (String × Plugin)), s.pipeline.Sound →
      (s.runAll (added.map fun a => .addStage a.1 a.2)).pipeline.Sound := by
  refine ⟨fun s t name plugin id h => ?_, fun s commands h => mended_runAll h,
    fun s added sound => ?_⟩
  · rw [pipeline_of_added h]
    exact Pipeline.mended_of_append [⟨id, name, plugin, .empty⟩] rfl rfl rfl
  · obtain ⟨new, -, mended⟩ := mended_runAll (assignments_addStages s added)
    exact mended.sound sound

/-- A pipeline without stages and with a connection to a stage that is connected to itself gets its
stages one after the other, and then one of them again. -/
theorem stages_only_mend_joined :
    let p : Pipeline :=
      { Pipeline.empty .standard with
        name := "orders"
        graph := ⟨[], [⟨"read", "load"⟩, ⟨"load", "load"⟩]⟩ }
    let s := start ⟨p, none⟩ 4
    let t := (s.step (.addStage "load" ⟨"s3", "sink"⟩)).2
    let later : List Command := [.addStage "read" ⟨"csv", "source"⟩, .pump]
    s.pipeline.problems.length = 5 ∧
      s.step (.addStage "load" ⟨"s3", "sink"⟩) = (.added ⟨1⟩, t) ∧
        Mended ["load"] s.pipeline t.pipeline ∧
          t.pipeline.problems =
            [⟨.error, "Connection read -> load references unknown stage 'read'."⟩] ∧
    t.assignments later = [] ∧
      (∃ new, (t.runAll later).pipeline.graph.stages = t.pipeline.graph.stages ++ new ∧
        Mended (new.map (·.name)) t.pipeline (t.runAll later).pipeline) ∧
    (t.runAll later).pipeline.Sound ∧
      ((t.runAll later).runAll [.addStage "read" ⟨"csv", "source"⟩]).pipeline.Sound := by
  intro p s t later
  have added : s.step (.addStage "load" ⟨"s3", "sink"⟩) = (.added ⟨1⟩, t) :=
    Prod.ext (by decide +kernel) rfl
  have unnamed : t.assignments later = [] := by decide +kernel
  have sound : (t.runAll later).pipeline.Sound := (Pipeline.isValid_iff _).1 (by decide +kernel)
  obtain ⟨one, several, valid⟩ := stages_only_mend
  have again := valid (t.runAll later) [("read", ⟨"csv", "source"⟩)] sound
  refine ⟨by decide +kernel, added, one s t _ _ _ added, by decide +kernel, unnamed,
    several t later unnamed, sound, again⟩

end Session
end PipelineEditor
