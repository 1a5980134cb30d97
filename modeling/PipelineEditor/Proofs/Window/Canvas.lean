import PipelineEditor.Proofs.Pipeline.Faults
import PipelineEditor.Proofs.Session.Extension
import PipelineEditor.Proofs.Text.Blank
import PipelineEditor.Proofs.Window.Frames

/-! The canvas from frame to frame. A stage is selected by a click on it and stays where it is, and
the form for new stages gives away nothing but what it has trimmed. So the selection is always on a
stage that is there, and new stages have proper names and one of the kinds that are offered. -/
namespace PipelineEditor

open Window (panelIndex)

/-- A text with more than white space in it, and with white space at neither end. -/
structure Text.Neat (s : String) : Prop where
  seen : ∃ c ∈ s.toList, c.toNat ∉ whiteSpace
  first : ∀ c ∈ s.toList.head?, c.toNat ∉ whiteSpace
  last : ∀ c ∈ s.toList.getLast?, c.toNat ∉ whiteSpace

/-- What is trimmed is neat, unless nothing is left of it. -/
theorem Text.neat_trim {s : String} (h : blank s = false) : Neat (trim s) := by
  have shown {c : Char} (hc : isBlank c = false) : c.toNat ∉ whiteSpace :=
    mt (Pipeline.isBlank_iff c).2 (Bool.eq_false_iff.1 hc)
  have chars : (trim s).toList = trimChars s.toList := String.toList_ofList
  have first : ∀ c ∈ (trim s).toList.head?, c.toNat ∉ whiteSpace := by
    rw [chars]
    exact fun c hc => shown (not_isBlank_of_mem_head?_trimChars hc)
  refine ⟨?_, first, ?_⟩
  · have left : (trim s).toList ≠ [] := fun nothing =>
      Bool.eq_false_iff.1 h ((trim_eq_empty_iff s).1 (String.toList_eq_nil_iff.1 nothing))
    exact ⟨_, List.head_mem left, first _ (List.head?_eq_some_head left)⟩
  · rw [chars]
    exact fun c hc => shown (not_isBlank_of_mem_getLast?_trimChars hc)

/-- A stage as the form for new stages gives it. -/
structure Stage.Proper (stage : Stage) : Prop where
  name : Text.Neat stage.name
  plugin : Text.Neat stage.plugin.name
  kind : stage.plugin.kind ∈ PluginKind.all.map PluginKind.name

theorem StageForm.proper {f : StageForm} (complete : f.complete = true) (id : StageId) :
    Stage.Proper ⟨id, Text.trim f.name, ⟨Text.trim f.plugin, f.kind.name⟩, .empty⟩ := by
  obtain ⟨name, plugin⟩ := Bool.and_eq_true_iff.1 complete
  have offered : f.kind ∈ PluginKind.all := by cases f.kind <;> decide
  exact ⟨Text.neat_trim (by simpa using name), Text.neat_trim (by simpa using plugin),
    List.mem_map_of_mem offered⟩

namespace Session

variable {opened : List Stage} {s : Session} {c : Command}

/-- A stage of a number is there. -/
def HasStage (s : Session) (id : StageId) : Prop :=
  ∃ stage ∈ s.pipeline.graph.stages, stage.id = id

/-- The panel of the window is there, the selection is on a stage of the pipeline, and stages behind
those that were opened are proper ones. -/
structure Furnished (opened : List Stage) (s : Session) : Prop where
  live : (s.panel? panelIndex).isSome = true
  selected : ∀ id ∈ s.selected, s.HasStage id
  added : ∃ new, s.pipeline.graph.stages = opened ++ new ∧ ∀ stage ∈ new, stage.Proper

theorem furnished_start (opening : Opening) (capacity : Nat) :
    (start opening capacity).Furnished opening.pipeline.graph.stages := by
  have stages : (start opening capacity).pipeline.graph.stages = opening.pipeline.graph.stages := by
    rw [pipeline_start]
  have selected : (start opening capacity).selected = none :=
    congrArg Session.selected (shared_addPanel _ opening.clonedFrom)
  refine ⟨live_start opening capacity, ?_, [], ?_, nofun⟩
  · rw [selected]
    exact nofun
  · rw [List.append_nil]
    exact stages

/-! One step. -/

theorem stages_step_cases (s : Session) (c : Command) :
    (s.step c).2.pipeline.graph.stages = s.pipeline.graph.stages ∨
      ∃ id name plugin, c = .addStage name plugin ∧
        (s.step c).2.pipeline.graph.stages =
          s.pipeline.graph.stages ++ [⟨id, name, plugin, .empty⟩] := by
  rw [pipeline_step_eq]
  cases c with
  | onPanel i command =>
    simp only [pipelineAfter]
    split
    · cases s.panel? i <;> exact .inl rfl
    · exact .inl rfl
  | addStage name plugin =>
    rw [pipelineAfter]
    cases nextId? s.pipeline.graph.stages with
    | none => exact .inl rfl
    | some id => exact .inr ⟨id, name, plugin, rfl, rfl⟩
  | _ => exact .inl rfl

theorem selected_step_cases (s : Session) (c : Command) :
    (s.step c).2.selected = s.selected ∨ (s.step c).2.selected = none ∨
      ∃ id, c = .select id ∧ (s.step c).2.selected = some id := by
  rw [selected_step]
  cases c with
  | select id => exact .inr (.inr ⟨id, rfl, rfl⟩)
  | deselect => exact .inr (.inl rfl)
  | _ =>
    simp only [selectedAfter]
    split
    · exact .inr (.inl rfl)
    · exact .inl rfl

theorem HasStage.step {id : StageId} (h : s.HasStage id) (c : Command) : (s.step c).2.HasStage id := by
  obtain ⟨stage, there, same⟩ := h
  exact ⟨stage, (extends_step s c).stages.subset there, same⟩

theorem furnished_step (h : s.Furnished opened) (stays : c ≠ .onPanel panelIndex .drop)
    (chosen : ∀ id, c = .select id → s.HasStage id)
    (offered : ∀ name plugin, c = .addStage name plugin → ∀ id, Stage.Proper ⟨id, name, plugin, .empty⟩) :
    (s.step c).2.Furnished opened := by
  refine ⟨live_step h.live stays, ?_, ?_⟩
  · rcases selected_step_cases s c with same | none | ⟨id, given, now⟩
    · rw [same]
      exact fun id hid => (h.selected id hid).step c
    · rw [none]
      exact nofun
    · rw [now]
      rintro _ ⟨⟩
      exact (chosen id given).step c
  · obtain ⟨new, stages, proper⟩ := h.added
    rcases stages_step_cases s c with same | ⟨id, name, plugin, given, after⟩
    · exact ⟨new, same.trans stages, proper⟩
    · refine ⟨new ++ [⟨id, name, plugin, .empty⟩], ?_, ?_⟩
      · rw [after, stages, List.append_assoc]
      · exact List.forall_mem_append.2
          ⟨proper, List.forall_mem_singleton.2 (offered name plugin given id)⟩

/-- What happens aside from the frames: anything that touches only panels, deferred actions and the
queue, as long as the panel of the window stays. -/
structure Aside (s : Session) (c : Command) : Prop where
  isLocal : c.isLocal = true
  stays : c ≠ .onPanel panelIndex .drop

private theorem furnished_aside (h : s.Furnished opened) (given : s.Aside c) :
    (s.step c).2.Furnished opened := by
  refine furnished_step h given.stays ?_ ?_
  · rintro id rfl
    cases given.isLocal
  · rintro name plugin rfl
    cases given.isLocal

private theorem furnished_played (h : s.Furnished opened) (given : s.Played c) :
    (s.step c).2.Furnished opened := by
  refine furnished_step h given.behind.stays ?_ ?_
  · rintro id rfl
    cases given with
    | select there => exact ⟨_, there, rfl⟩
  · rintro name plugin rfl
    cases given with
    | addStage complete => exact StageForm.proper complete

private theorem furnished_steady : Steady (Furnished opened) where
  live _ h := h.live
  drained _ h := ⟨h.live, h.selected, h.added⟩
  step _ _ given h := furnished_played h given

end Session

namespace Window

/-- After any frames and whatever happens aside from them, the selection is on a stage of the
pipeline, and the stages are those that were opened and behind them proper ones. -/
theorem canvas_well_formed {opening : Opening} {capacity : Nat} {w : Window}
    (reached : Reachable Session.Aside opening capacity w) :
    (∀ id ∈ w.session.selected, ∃ stage ∈ w.session.pipeline.graph.stages, stage.id = id) ∧
      ∃ new, w.session.pipeline.graph.stages = opening.pipeline.graph.stages ++ new ∧
        ∀ stage ∈ new, stage.Proper := by
  have furnished : w.session.Furnished opening.pipeline.graph.stages :=
    reached.keeps Session.furnished_steady (Session.furnished_start _ _)
      fun _ _ given h => Session.furnished_aside h given
  exact ⟨furnished.selected, furnished.added⟩

/-- A stage is added under names that were typed with white space around them, and is selected then
while the panel asks for the focus. -/
theorem canvas_well_formed_typed :
    let read : Stage := ⟨⟨5⟩, "read", ⟨"csv", "batchsource"⟩, .empty⟩
    let load : Stage := ⟨⟨6⟩, "load", ⟨"s3", "batchsink"⟩, .empty⟩
    let opening : Opening := ⟨{ Pipeline.empty .standard with graph := ⟨[read], []⟩ }, some "orders"⟩
    let filled := ((start (.start opening 8)).frame
      { Input.idle with
        typed := [(.stage, " load\t"), (.plugin, "\u2003s3")], clicks := [.kind .sink, .addStage] }).2
    let w := ((filled.onSession fun s => (s.step .finishDeferred).2).frame
      { Input.idle with clicks := [.stage 1] }).2
    Reachable Session.Aside opening 8 w ∧ w.session.selected = some load.id ∧
      (∃ stage ∈ w.session.pipeline.graph.stages, stage.id = load.id) ∧
      w.session.pipeline.graph.stages = [read, load] ∧ load.Proper := by
  intro read load opening filled w
  have reached : Reachable Session.Aside opening 8 w :=
    .frame (.command (.frame .start _) .finishDeferred ⟨rfl, nofun⟩) _
  have selected : w.session.selected = some load.id := by decide +kernel
  have stages : w.session.pipeline.graph.stages = [read, load] := by decide +kernel
  obtain ⟨there, new, same, proper⟩ := canvas_well_formed reached
  have added : [read] ++ [load] = [read] ++ new := stages.symm.trans same
  obtain rfl := List.append_cancel_left added
  exact ⟨reached, selected, there load.id selected, stages, proper load (List.mem_singleton.2 rfl)⟩

end Window
end PipelineEditor
