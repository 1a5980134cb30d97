import PipelineEditor.Proofs.Session.Asked
import PipelineEditor.Proofs.Session.Projection
import PipelineEditor.Proofs.Summary

/-! The description in the header of a panel. It is that of the draft that the panel saved last,
whatever became of the pipeline since. -/
namespace PipelineEditor

namespace Panel

/-- The draft that a request saves. -/
def savedDraft? : Panel × PanelCommand → Option Metadata
  | (p, c) => if c.saves then some p.metadata else none

/-- The summary of the draft that a request saves. -/
private def savedSummary? (request : Panel × PanelCommand) : Option Summary :=
  (savedDraft? request).map fun m => .ofDescription m.description

private theorem received_description (p : Panel) (pipeline : Pipeline) (e : Event) :
    (p.received pipeline e).description = p.description :=
  received_keeps (·.description) (fun _ _ _ => rfl) (fun _ => rfl) p pipeline e

private theorem after_description (s : Session) (p : Panel) (c : PanelCommand) :
    (p.after s c).description = (savedSummary? (p, c)).getD p.description := by
  cases c with
  | sync => exact received_description p s.pipeline .changed
  | receive e => exact received_description p s.pipeline e
  | press key =>
    by_cases he : key = some Gesture.enter
    · subst he
      rfl
    · simp only [after, savedSummary?, savedDraft?, PanelCommand.saves, he, decide_false,
        Bool.false_eq_true, if_false]
      split <;> rfl
  | run operation => exact operated_keeps (·.description) (fun _ _ _ => rfl) p s operation
  | _ => rfl

private theorem own_description :
    Own (·.description) fun description request => (savedSummary? request).getD description where
  after := after_description
  told _ := rfl
  received := received_description
  copied _ _ := rfl

end Panel

namespace Session

private theorem description_of_saved {opening : Opening} {capacity : Nat} {commands : List Command}
    {i : Nat} {p : Panel} {m : Metadata}
    (hp : ((start opening capacity).runAll commands).panel? i = some p)
    (hm : ((opening.asked capacity i commands).filterMap Panel.savedDraft?).getLast? = some m) :
    p.description = .ofDescription m.description := by
  obtain ⟨t, made⟩ := Panel.own_description.of_start hp
  have summaries : (opening.asked capacity i commands).filterMap Panel.savedSummary? =
      ((opening.asked capacity i commands).filterMap Panel.savedDraft?).map
        fun m => .ofDescription m.description :=
    List.map_filterMap.symm
  rw [made, foldl_getD, summaries, List.getLastD_eq_getLast?, List.getLast?_map, hm]
  rfl

/-- In every session the description in the header of a panel that has saved a draft is that of the
draft it saved last, whether or not its editor is closed or the panel is stale. It is the one of the
pipeline as long as the pipeline has the same description, and no longer, although the name beside
it is the one of the pipeline while the editor is closed and the panel is not stale. -/
theorem header_describes_last_draft (opening : Opening) (capacity : Nat) (commands : List Command)
    {i : Nat} {p : Panel} {m : Metadata}
    (hp : ((start opening capacity).runAll commands).panel? i = some p)
    (hm : ((opening.asked capacity i commands).filterMap Panel.savedDraft?).getLast? = some m) :
    let s := (start opening capacity).runAll commands
    p.description = .ofDescription m.description ∧
      (p.description = .ofDescription s.pipeline.description ↔
        s.pipeline.description = m.description) ∧
      ((start opening capacity).orderly commands = true → p.expanded = false → p.stale = false →
        p.metadata = s.pipeline.metadata) := by
  intro s
  have saved : p.description = .ofDescription m.description := description_of_saved hp hm
  refine ⟨saved, ?_, fun orderly closed current => ?_⟩
  · rw [saved, Summary.ofDescription_inj]
    exact eq_comm
  · have faithful : s.Faithful := faithful_runAll (faithful_start opening capacity) orderly
    exact (faithful.shows i p hp closed current).1

/-- Two panels save one after the other. The header of the first goes on showing its own draft. -/
theorem header_describes_last_draft_overtaken :
    let opening : Opening := ⟨.empty .standard, none⟩
    let commands : List Command :=
      [.onPanel 0 .openEditor, .onPanel 0 (.edit (some "orders") (some "north\nsouth")),
        .onPanel 0 (.press (some Gesture.enter)), .addPanel none,
        .onPanel 1 (.edit none (some "all regions")), .onPanel 1 (.save none), .pump]
    ∃ p, ((start opening 16).runAll commands).panel? 0 = some p ∧
      ((opening.asked 16 0 commands).filterMap Panel.savedDraft?).getLast? =
        some ⟨"orders", "north\nsouth"⟩ ∧
      p.description = .ofDescription "north\nsouth" ∧
      p.description ≠ .ofDescription ((start opening 16).runAll commands).pipeline.description := by
  intro opening commands
  have live : (((start opening 16).runAll commands).panel? 0).isSome = true := by decide +kernel
  obtain ⟨p, hp⟩ := Option.isSome_iff_exists.1 live
  have last : ((opening.asked 16 0 commands).filterMap Panel.savedDraft?).getLast? =
      some ⟨"orders", "north\nsouth"⟩ := by decide +kernel
  obtain ⟨own, same, -⟩ := header_describes_last_draft opening 16 commands hp last
  exact ⟨p, hp, last, own, mt same.1 (by decide +kernel)⟩

/-- A panel has saved a draft and is brought in step with the pipeline, whose name and description
were set meanwhile. Its header shows the new name and the old description. -/
theorem header_keeps_old_description :
    let opening : Opening := ⟨.empty .standard, none⟩
    let commands : List Command :=
      [.onPanel 0 (.save none), .setMetadata ⟨"sales", "all regions"⟩, .onPanel 0 .sync]
    let s := (start opening 16).runAll commands
    (opening.asked 16 0 commands).filterMap Panel.savedDraft? = [⟨"", ""⟩] ∧
      (s.panel? 0).map (fun p => (p.expanded, p.stale, p.metadata.name, p.description)) =
        some (false, false, "sales", ⟨"", ""⟩) ∧
      Summary.ofDescription s.pipeline.description = ⟨"all regions", "all regions"⟩ := by
  decide +kernel

end Session
end PipelineEditor
