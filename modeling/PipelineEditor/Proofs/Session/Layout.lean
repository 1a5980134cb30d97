import PipelineEditor.Proofs.Session.Frame

/-! The layout is for the editor only. Sessions on pipelines that differ in their layouts stay alike
under the same commands: a layout gets to the drafts and to what is on display, and no further. -/
namespace PipelineEditor

/-- The request without the layout of the pipeline on display. -/
def ExportRequest.withoutLayout (r : ExportRequest) : ExportRequest :=
  { r with display := r.display.withoutLayout }

namespace Session

/-- The session without the layouts of its pipeline, of its drafts and of what is on display. -/
def withoutLayouts (s : Session) : Session :=
  { s with
    pipeline := s.pipeline.withoutLayout
    drafts := s.drafts.map Pipeline.withoutLayout
    exportRequest := s.exportRequest.map ExportRequest.withoutLayout }

section

variable (s : Session)

private theorem withoutLayouts_withoutLayouts :
    s.withoutLayouts.withoutLayouts = s.withoutLayouts := by
  simp only [withoutLayouts, List.map_map, Option.map_map]
  rfl

private theorem withoutLayouts_of_eq {s t : Session} (h : s.withoutLayouts = t) :
    s.withoutLayouts = t.withoutLayouts := by
  subst h
  exact (withoutLayouts_withoutLayouts s).symm

/-! The operations that go through without looking at a layout. -/

private theorem withoutLayouts_tellAll : s.tellAll.withoutLayouts = s.withoutLayouts.tellAll := by
  unfold tellAll
  change _ = s.listeners.foldl tell _
  generalize s.listeners = ls
  induction ls generalizing s with
  | nil => rfl
  | cons l ls ih =>
    have one : (s.tell l).withoutLayouts = s.withoutLayouts.tell l := by cases l <;> rfl
    rw [List.foldl_cons, List.foldl_cons, ih, one]

private theorem withoutLayouts_save (i : Nat) :
    (s.save i).withoutLayouts = s.withoutLayouts.save i := by
  have same : s.withoutLayouts.panel? i = s.panel? i := rfl
  simp only [save, same]
  cases s.panel? i with
  | none => rfl
  | some p => exact congrArg (modifyPanel · i _) (withoutLayouts_tellAll _)

private theorem withoutLayouts_deliver (events : List Event) :
    (s.deliver events).withoutLayouts = s.withoutLayouts.deliver events := by
  rw [deliver_eq, deliver_eq]
  change _ = (List.range s.panels.length).foldl _ _
  generalize List.range s.panels.length = is
  induction is generalizing s with
  | nil => rfl
  | cons i is ih => exact ih _

private theorem withoutLayouts_saveDraft :
    s.saveDraft.withoutLayouts = s.withoutLayouts.saveDraft := by
  unfold saveDraft
  change _ = (if Text.blank s.pipeline.name then _ else _ : Session)
  split
  · rfl
  · simp only [withoutLayouts, List.map_append]
    rfl

private theorem withoutLayouts_publish : s.publish.withoutLayouts = s.withoutLayouts.publish := by
  simp only [publish, validate]
  change _ = (if s.clearConsole.pipeline.isValid = true then _ else _ : Session)
  split <;> rfl

private theorem withoutLayouts_validateFor (i : Nat) :
    (s.validateFor i).withoutLayouts = s.withoutLayouts.validateFor i := by
  simp only [validateFor, validate]
  change _ = (if s.clearConsole.pipeline.isValid = true then _ else _ : Session)
  split <;> rfl

private theorem withoutLayouts_run (i : Nat) (operation : Operation) :
    (s.run i operation).withoutLayouts = s.withoutLayouts.run i operation := by
  cases operation with
  | settings => rfl
  | exportDocument => rfl
  | save => exact withoutLayouts_saveDraft s
  | validate => exact withoutLayouts_validateFor s i
  | publish =>
    have checked (t : Session) : (t.checkName i).withoutLayouts = t.withoutLayouts.checkName i := rfl
    exact (checked s.publish).trans (congrArg (checkName · i) (withoutLayouts_publish s))

private theorem withoutLayouts_addPanel (clonedFrom : Option String) :
    (s.addPanel clonedFrom).withoutLayouts = s.withoutLayouts.addPanel clonedFrom := by
  cases clonedFrom with
  | none => rfl
  | some name =>
    rw [addPanel_some, addPanel_some]
    rfl

private theorem withoutLayouts_finishDeferred :
    s.finishDeferred.withoutLayouts = s.withoutLayouts.finishDeferred := by
  have all (hs : List Handle) (t : Session) :
      (hs.foldl (fun s h => s.post (.focusDue h)) t).withoutLayouts =
        hs.foldl (fun s h => s.post (.focusDue h)) t.withoutLayouts := by
    induction hs generalizing t with
    | nil => rfl
    | cons h hs ih => exact ih _
  exact all _ _

private theorem withoutLayouts_onPanel {s : Session} {i : Nat} {p : Panel}
    (hp : s.panel? i = some p) (c : PanelCommand) :
    (s.onPanel i p c).1 = (s.withoutLayouts.onPanel i p c).1 ∧
      (s.onPanel i p c).2.withoutLayouts = (s.withoutLayouts.onPanel i p c).2 := by
  have hq : s.withoutLayouts.panel? i = some p := hp
  cases c with
  | openEditor =>
    refine ⟨rfl, ?_⟩
    simp only [onPanel, openEditor_eq hp, openEditor_eq hq]
    rfl
  | requestFocus =>
    refine ⟨rfl, ?_⟩
    simp only [onPanel, requestFocus_eq hp, requestFocus_eq hq]
    rfl
  | drop =>
    refine ⟨rfl, ?_⟩
    simp only [onPanel, dropPanel, dropFocus_eq hp, dropFocus_eq hq]
    rfl
  | save key => exact ⟨rfl, withoutLayouts_save s i⟩
  | press key =>
    simp only [onPanel, press]
    split
    · exact ⟨rfl, withoutLayouts_save s i⟩
    · split <;> exact ⟨rfl, rfl⟩
  | run operation => exact ⟨rfl, withoutLayouts_run s i operation⟩
  | _ => exact ⟨rfl, rfl⟩

/-- A command that does not export the layout answers the same with and without layouts, and does
not bring them anywhere else. A new stage gets its place in either case, in a layout that is made if
there is none. -/
theorem withoutLayouts_step {c : Command} (h : c ≠ .showDisplay) :
    (s.step c).1 = (s.withoutLayouts.step c).1 ∧
      (s.step c).2.withoutLayouts = (s.withoutLayouts.step c).2.withoutLayouts := by
  cases c with
  | onPanel i command =>
    have same : s.withoutLayouts.panel? i = s.panel? i := rfl
    simp only [step, same]
    cases hp : s.panel? i with
    | none => exact ⟨rfl, withoutLayouts_of_eq rfl⟩
    | some p =>
      obtain ⟨reply, alike⟩ := withoutLayouts_onPanel hp command
      exact ⟨reply, withoutLayouts_of_eq alike⟩
  | addPanel clonedFrom => exact ⟨rfl, withoutLayouts_of_eq (withoutLayouts_addPanel s clonedFrom)⟩
  | finishDeferred => exact ⟨rfl, withoutLayouts_of_eq (withoutLayouts_finishDeferred s)⟩
  | fire handle =>
    refine ⟨rfl, withoutLayouts_of_eq ?_⟩
    simp only [step]
    change _ = (if (s.deferral.fire handle).1 = true then _ else _ : Session)
    split <;> rfl
  | pump =>
    refine ⟨rfl, withoutLayouts_of_eq ?_⟩
    exact withoutLayouts_deliver { s with queue := s.queue.drain.2 } s.queue.drain.1
  | setMetadata m => exact ⟨rfl, withoutLayouts_of_eq (withoutLayouts_tellAll _)⟩
  | addStage name plugin =>
    have same : nextId? s.withoutLayouts.pipeline.graph.stages = nextId? s.pipeline.graph.stages :=
      rfl
    simp only [step, addStage, same]
    cases nextId? s.pipeline.graph.stages with
    | none => exact ⟨rfl, withoutLayouts_of_eq rfl⟩
    | some id =>
      let added : Session := { s with pipeline := withStage s.pipeline id name plugin }
      let bare : Session :=
        { s.withoutLayouts with pipeline := withStage s.withoutLayouts.pipeline id name plugin }
      have same : added.withoutLayouts = bare.withoutLayouts :=
        (withoutLayouts_withoutLayouts added).symm
      refine ⟨rfl, (withoutLayouts_tellAll added).trans ?_⟩
      rw [same]
      exact (withoutLayouts_tellAll bare).symm
  | validate verbose => cases verbose <;> exact ⟨rfl, withoutLayouts_of_eq rfl⟩
  | saveDraft => exact ⟨rfl, withoutLayouts_of_eq (withoutLayouts_saveDraft s)⟩
  | publish => exact ⟨rfl, withoutLayouts_of_eq (withoutLayouts_publish s)⟩
  | showDisplay => exact absurd rfl h
  | _ => exact ⟨rfl, withoutLayouts_of_eq rfl⟩

end

private theorem step_alike {s t : Session} (h : s.withoutLayouts = t.withoutLayouts) {c : Command}
    (hc : c ≠ .showDisplay) :
    (s.step c).1 = (t.step c).1 ∧ (s.step c).2.withoutLayouts = (t.step c).2.withoutLayouts := by
  obtain ⟨reply, after⟩ := withoutLayouts_step s hc
  obtain ⟨reply', after'⟩ := withoutLayouts_step t hc
  rw [h] at reply after
  exact ⟨reply.trans reply'.symm, after.trans after'.symm⟩

private theorem runAll_alike {s t : Session} (h : s.withoutLayouts = t.withoutLayouts)
    {commands : List Command} (hc : .showDisplay ∉ commands) :
    (s.runAll commands).withoutLayouts = (t.runAll commands).withoutLayouts := by
  induction commands generalizing s t with
  | nil => exact h
  | cons c cs ih =>
    obtain ⟨first, rest⟩ := not_or.1 (mt List.mem_cons.2 hc)
    exact ih (step_alike h (Ne.symm first)).2 rest

/-- What is read off sessions that are equal but for layouts. -/
private theorem read_alike {s t : Session} (h : s.withoutLayouts = t.withoutLayouts) :
    s.pipeline.problems = t.pipeline.problems ∧
      s.exportRequest.map (fun r => (r.exported, r.document, r.exported.fileName)) =
        t.exportRequest.map (fun r => (r.exported, r.document, r.exported.fileName)) := by
  refine ⟨congrArg (·.pipeline.problems) h, ?_⟩
  have requests := congrArg (·.exportRequest.map fun r : ExportRequest =>
    (r.exported, r.document, r.exported.fileName)) h
  simp only [withoutLayouts, Option.map_map] at requests
  exact requests

/-- Two sessions that open with pipelines that are equal but for their layouts, and go on alike
without exporting what is on display. They are equal but for the layouts of the pipeline, of the
drafts and of what is on display, give the same answers, find the same problems, and offer the same
document for export under the same name. -/
theorem layout_only_displayed {p q : Pipeline} (h : p.withoutLayout = q.withoutLayout)
    (clonedFrom : Option String) (capacity : Nat) {commands : List Command}
    (hc : .showDisplay ∉ commands) :
    let s := (start ⟨p, clonedFrom⟩ capacity).runAll commands
    let t := (start ⟨q, clonedFrom⟩ capacity).runAll commands
    s.withoutLayouts = t.withoutLayouts ∧
      (∀ c, (s.step c).1 = (t.step c).1) ∧
      s.pipeline.problems = t.pipeline.problems ∧
      s.exportRequest.map (fun r => (r.exported, r.document, r.exported.fileName)) =
        t.exportRequest.map (fun r => (r.exported, r.document, r.exported.fileName)) := by
  intro s t
  have started : (start ⟨p, clonedFrom⟩ capacity).withoutLayouts =
      (start ⟨q, clonedFrom⟩ capacity).withoutLayouts := by
    simp only [start, withoutLayouts_addPanel]
    refine congrArg (addPanel · clonedFrom) ?_
    simp only [withoutLayouts, h]
  have alike : s.withoutLayouts = t.withoutLayouts := runAll_alike started hc
  refine ⟨alike, fun c => ?_, read_alike alike⟩
  by_cases hd : c = .showDisplay
  · subst hd
    rfl
  · exact (step_alike alike hd).1

/-- A pipeline without a layout and one with a place for a stage get the same stage, are exported,
saved as a draft and published. -/
theorem layout_only_displayed_published :
    let p : Pipeline := { Pipeline.empty .standard with name := "orders", layout := none }
    let q : Pipeline := { p with layout := some ⟨Table.empty.insert "read" (newPosition 3)⟩ }
    let commands : List Command :=
      [.addStage "write" ⟨"s3", "sink"⟩, .onPanel 0 (.run .exportDocument), .saveDraft, .publish]
    let s := (start ⟨p, none⟩ 4).runAll commands
    let t := (start ⟨q, none⟩ 4).runAll commands
    p.withoutLayout = q.withoutLayout ∧ .showDisplay ∉ commands ∧
      s.pipeline ≠ t.pipeline ∧ s.drafts ≠ t.drafts ∧ s.withoutLayouts = t.withoutLayouts ∧
      s.published = t.published ∧ s.published ≠ none := by
  intro p q commands s t
  have equal : p.withoutLayout = q.withoutLayout :=
    Pipeline.withoutLayout_eq_iff.2 ⟨rfl, rfl, rfl, rfl⟩
  have offered : .showDisplay ∉ commands := by decide +kernel
  obtain ⟨alike, -, -, -⟩ := layout_only_displayed equal none 4 offered
  have published {a b : Session} (h : a.withoutLayouts = b.withoutLayouts) :
      a.published = b.published := congrArg (·.published) h
  refine ⟨equal, offered, ?_, ?_, alike, published alike, ?_⟩
  · decide +kernel
  · decide +kernel
  · decide +kernel

end Session
end PipelineEditor
