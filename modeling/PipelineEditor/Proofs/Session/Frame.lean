import PipelineEditor.Proofs.Session.Effect

/-! What the steps of a session leave alone. Most commands are local: they touch panels, deferred
actions and the queue, and nothing that the panels share. -/
namespace PipelineEditor

/-- Whether a panel command touches its panel and the deferred actions only. -/
def PanelCommand.isLocal : PanelCommand → Bool
  | .run operation => operation = .settings
  | command => !command.saves

/-- Whether a command touches panels, deferred actions and the queue only. -/
def Command.isLocal : Command → Bool
  | .onPanel _ command => command.isLocal
  | .finishDeferred | .giveWay _ | .leave _ | .fire _ | .pump | .post _ | .closeQueue => true
  | _ => false

/-- Whether a command opens or closes the export window. -/
def Command.setsExport : Command → Bool
  | .onPanel _ (.run .exportDocument) | .showDisplay | .closeExport => true
  | _ => false

/-- The pipeline with other metadata. -/
def Pipeline.described (p : Pipeline) (m : Metadata) : Pipeline :=
  { p with name := m.name, description := m.description }

namespace Session

/-- What the panels of a session share. -/
def shared (s : Session) : Session :=
  { s with panels := [], deferral := .empty, queue := .empty 0, journal := [] }

@[simp] theorem shared_tellAll (s : Session) : s.tellAll.shared = s.shared :=
  tellAll_keeps shared (fun _ _ => rfl) (fun _ _ => rfl) (fun _ _ _ => rfl) s

theorem shared_deliver (s : Session) (events : List Event) :
    (s.deliver events).shared = s.shared :=
  deliver_keeps shared (fun _ _ _ => rfl) s events

theorem shared_finishDeferred (s : Session) : s.finishDeferred.shared = s.shared :=
  finishDeferred_keeps shared (fun _ _ => rfl) s

private theorem shared_onPanel {s : Session} {i : Nat} {p : Panel} (hp : s.panel? i = some p)
    {c : PanelCommand} (h : c.isLocal = true) : (s.onPanel i p c).2.shared = s.shared := by
  cases c with
  | openEditor =>
    change (s.openEditor i).shared = _
    rw [openEditor_eq hp]
    rfl
  | requestFocus =>
    change (s.requestFocus i).shared = _
    rw [requestFocus_eq hp]
    rfl
  | save key => cases h
  | press key =>
    have he : key ≠ some Gesture.enter := by
      simpa [PanelCommand.isLocal, PanelCommand.saves] using h
    change (s.press i key).2.shared = _
    unfold press
    rw [if_neg he]
    split <;> rfl
  | run operation =>
    obtain rfl : operation = .settings := by simpa [PanelCommand.isLocal] using h
    rfl
  | drop =>
    change (s.dropPanel i).shared = _
    unfold dropPanel
    rw [dropFocus_eq hp]
    rfl
  | _ => rfl

/-- A local command leaves alone what the panels share. -/
theorem shared_step (s : Session) {c : Command} (h : c.isLocal = true) :
    (s.step c).2.shared = s.shared := by
  cases c with
  | onPanel i command =>
    simp only [step]
    cases hp : s.panel? i with
    | none => rfl
    | some p => exact shared_onPanel hp h
  | finishDeferred => exact shared_finishDeferred s
  | fire handle =>
    simp only [step]
    split <;> rfl
  | pump => exact shared_deliver _ _
  | giveWay handle => rfl
  | leave handle => rfl
  | post e => rfl
  | closeQueue => rfl
  | _ => cases h

/-! The other commands, by what they change of the shared part. -/

theorem shared_setMetadata (s : Session) (m : Metadata) :
    (s.setMetadata m).shared =
      { s.shared with pipeline := s.pipeline.described m } :=
  shared_tellAll _

theorem shared_save {s : Session} {i : Nat} {p : Panel} (hp : s.panel? i = some p) :
    (s.save i).shared = (s.setMetadata p.metadata).shared := by
  rw [save, hp]
  rfl

theorem shared_addPanel (s : Session) (clonedFrom : Option String) :
    (s.addPanel clonedFrom).shared =
      { s.shared with listeners := s.listeners ++ [.panel s.panels.length] } := by
  cases clonedFrom with
  | none => rfl
  | some name =>
    rw [addPanel_some]
    rfl

theorem saveDraft_eq (s : Session) :
    s.saveDraft = { s with console := s.saveDraft.console, drafts := s.saveDraft.drafts } := by
  unfold saveDraft
  split <;> rfl

theorem publish_eq (s : Session) :
    s.publish = { s with console := s.publish.console, published := s.publish.published } := by
  simp only [publish, validate]
  split <;> rfl

theorem validateFor_eq (s : Session) (i : Nat) :
    s.validateFor i =
      { s with console := (s.validateFor i).console, panels := (s.validateFor i).panels } := by
  simp only [validateFor, validate]
  split <;> rfl

/-- A panel command saves the draft, runs an operation, or is local. -/
theorem onPanel_cases {s : Session} {i : Nat} {p : Panel} (hp : s.panel? i = some p)
    (c : PanelCommand) :
    (c.saves = true ∧ (s.onPanel i p c).2.shared = (s.setMetadata p.metadata).shared) ∨
      (∃ operation, c = .run operation ∧ (s.onPanel i p c).2 = s.run i operation) ∨
        (c.saves = false ∧ c.isLocal = true) := by
  cases c with
  | save key => exact .inl ⟨rfl, shared_save hp⟩
  | press key =>
    by_cases he : key = some Gesture.enter
    · refine .inl ⟨by simp [PanelCommand.saves, he], ?_⟩
      change (s.press i key).2.shared = _
      rw [press, if_pos he]
      exact shared_save hp
    · exact .inr (.inr (by simp [PanelCommand.isLocal, PanelCommand.saves, he]))
  | run operation => exact .inr (.inl ⟨operation, rfl, rfl⟩)
  | _ => exact .inr (.inr ⟨rfl, rfl⟩)

/-! The shared part after any command. -/

/-- The operation that a command runs, for a panel or by itself. -/
def operation? (s : Session) : Command → Option Operation
  | .onPanel i (.run operation) => (s.panel? i).map fun _ => operation
  | .saveDraft => some .save
  | .publish => some .publish
  | _ => none

private theorem operation?_of_none {s : Session} {i : Nat} (hp : s.panel? i = none)
    (c : PanelCommand) : s.operation? (.onPanel i c) = none := by
  cases c with
  | run operation => rw [operation?, hp, Option.map_none]
  | _ => rfl

/-- The listeners that a command registers. -/
def registered (s : Session) : Command → List Listener
  | .addPanel _ => [.panel s.panels.length]
  | .observe => [.observer s.observers]
  | _ => []

def pipelineAfter (s : Session) : Command → Pipeline
  | .onPanel i command =>
    if command.saves then (s.panel? i).elim s.pipeline fun p => s.pipeline.described p.metadata
    else s.pipeline
  | .setMetadata m => s.pipeline.described m
  | .addStage name plugin =>
    (nextId? s.pipeline.graph.stages).elim s.pipeline fun id => withStage s.pipeline id name plugin
  | _ => s.pipeline

def draftsAfter (s : Session) (c : Command) : List Pipeline :=
  if s.operation? c = some .save ∧ Text.blank s.pipeline.name = false then s.drafts ++ [s.pipeline]
  else s.drafts

def publishedAfter (s : Session) (c : Command) : Option Published :=
  if s.operation? c = some .publish ∧ s.pipeline.isValid = true then
    some ⟨s.pipeline.name, s.pipeline.withoutLayout⟩
  else s.published

def selectedAfter (s : Session) : Command → Option StageId
  | .select id => some id
  | .deselect => none
  | c => if s.operation? c = some .exportDocument then none else s.selected

def exportAfter (s : Session) : Command → Option ExportRequest
  | .showDisplay => some ⟨s.pipeline, s.pipeline, s.pipeline.document⟩
  | .closeExport => none
  | c =>
    if s.operation? c = some .exportDocument then
      some ⟨s.pipeline, s.pipeline.withoutLayout, s.pipeline.withoutLayout.document⟩
    else s.exportRequest

theorem shared_saveDraft (s : Session) :
    s.saveDraft.shared =
      { s.shared with console := s.saveDraft.console, drafts := s.draftsAfter .saveDraft } := by
  simp only [saveDraft, draftsAfter, operation?, true_and]
  cases Text.blank s.pipeline.name <;> rfl

theorem shared_publish (s : Session) :
    s.publish.shared =
      { s.shared with console := s.publish.console, published := s.publishedAfter .publish } := by
  have same : s.clearConsole.pipeline = s.pipeline := rfl
  simp only [publish, validate, same, publishedAfter, operation?, true_and]
  cases s.pipeline.isValid <;> rfl

theorem shared_validateFor (s : Session) (i : Nat) :
    (s.validateFor i).shared = { s.shared with console := (s.validateFor i).console } := by
  simp only [validateFor, validate]
  split <;> rfl

private theorem shared_run {s : Session} {i : Nat} {p : Panel} (hp : s.panel? i = some p)
    (operation : Operation) :
    (s.run i operation).shared =
      { s.shared with
        console := (s.run i operation).console
        drafts := s.draftsAfter (.onPanel i (.run operation))
        published := s.publishedAfter (.onPanel i (.run operation))
        selected := s.selectedAfter (.onPanel i (.run operation))
        exportRequest := s.exportAfter (.onPanel i (.run operation)) } := by
  have runs : s.operation? (.onPanel i (.run operation)) = some operation := by
    rw [operation?, hp]
    rfl
  simp only [draftsAfter, publishedAfter, selectedAfter, exportAfter, runs]
  cases operation with
  | settings | exportDocument => rfl
  | save => exact shared_saveDraft s
  | validate => exact shared_validateFor s i
  | publish => exact shared_publish s

/-- What a command makes of the shared part, but for the console. -/
def sharedAfter (s : Session) (c : Command) : Session :=
  { s.shared with
    pipeline := s.pipelineAfter c
    listeners := s.listeners ++ s.registered c
    drafts := s.draftsAfter c
    published := s.publishedAfter c
    selected := s.selectedAfter c
    exportRequest := s.exportAfter c }

private theorem sharedAfter_of_registers_none {s : Session} {c : Command}
    (h : s.registered c = []) :
    s.sharedAfter c =
      { s.shared with
        pipeline := s.pipelineAfter c
        drafts := s.draftsAfter c
        published := s.publishedAfter c
        selected := s.selectedAfter c
        exportRequest := s.exportAfter c } := by
  unfold sharedAfter
  rw [h, List.append_nil]
  rfl

/-- A panel command that neither saves nor runs an operation over the canvas changes nothing that is
shared. -/
private theorem sharedAfter_onPanel {s : Session} {i : Nat} {c : PanelCommand}
    (hs : c.saves = true → s.panel? i = none)
    (ho : ∀ operation, s.operation? (.onPanel i c) = some operation → operation = .settings) :
    s.sharedAfter (.onPanel i c) = s.shared := by
  have pipeline : s.pipelineAfter (.onPanel i c) = s.pipeline := by
    simp only [pipelineAfter]
    split
    next h => rw [hs h, Option.elim_none]
    · rfl
  have other (operation : Operation) (h : operation ≠ .settings) :
      ¬ s.operation? (.onPanel i c) = some operation := fun he => h (ho operation he)
  rw [sharedAfter_of_registers_none rfl, pipeline]
  simp only [draftsAfter, publishedAfter, selectedAfter, exportAfter, other .save (by decide),
    other .publish (by decide), other .exportDocument (by decide), false_and, if_false]
  rfl

private theorem sharedAfter_of_isLocal (s : Session) {c : Command} (h : c.isLocal = true) :
    s.sharedAfter c = s.shared := by
  cases c with
  | onPanel i command =>
    apply sharedAfter_onPanel
    · intro hs
      cases command <;> simp_all [Command.isLocal, PanelCommand.isLocal, PanelCommand.saves]
    · intro operation ho
      cases command <;> simp_all [Command.isLocal, PanelCommand.isLocal, operation?]
  | finishDeferred | giveWay _ | leave _ | fire _ | pump | post _ | closeQueue =>
    exact sharedAfter_of_registers_none rfl
  | _ => cases h

theorem shared_step_eq (s : Session) (c : Command) :
    (s.step c).2.shared = { s.sharedAfter c with console := (s.step c).2.console } := by
  -- the console is read off the shared part that a command is known to leave
  have settled {t u : Session} (ht : t.shared = u)
      (hu : u = { s.sharedAfter c with console := u.console }) :
      t.shared = { s.sharedAfter c with console := t.console } := by
    subst ht
    exact hu
  by_cases hl : c.isLocal = true
  · refine settled (shared_step s hl) ?_
    rw [sharedAfter_of_isLocal s hl]
  cases c with
  | onPanel i command =>
    simp only [step]
    cases hp : s.panel? i with
    | none =>
      refine settled rfl ?_
      rw [sharedAfter_onPanel fun _ => hp]
      intro operation ho
      rw [operation?_of_none hp] at ho
      cases ho
    | some p =>
      rcases onPanel_cases hp command with ⟨hs, h⟩ | ⟨operation, rfl, h⟩ | ⟨-, hl'⟩
      · refine settled (h.trans (shared_setMetadata s p.metadata)) ?_
        have pipeline : s.pipelineAfter (.onPanel i command) = s.pipeline.described p.metadata := by
          rw [pipelineAfter, if_pos hs, hp, Option.elim_some]
        rw [sharedAfter_of_registers_none rfl, pipeline]
        cases command <;> first | rfl | cases hs
      · rw [sharedAfter_of_registers_none rfl]
        exact shared_run hp operation
      · exact absurd hl' hl
  | addPanel clonedFrom => exact settled (shared_addPanel s clonedFrom) rfl
  | observe => rfl
  | setMetadata m =>
    rw [sharedAfter_of_registers_none rfl] at settled ⊢
    exact settled (shared_setMetadata s m) rfl
  | addStage name plugin =>
    simp only [step, addStage]
    cases hn : nextId? s.pipeline.graph.stages with
    | none =>
      refine settled rfl ?_
      rw [sharedAfter_of_registers_none rfl, pipelineAfter, hn]
      rfl
    | some id =>
      refine settled (shared_tellAll _) ?_
      rw [sharedAfter_of_registers_none rfl, pipelineAfter, hn]
      rfl
  | saveDraft =>
    rw [sharedAfter_of_registers_none rfl]
    exact shared_saveDraft s
  | publish =>
    rw [sharedAfter_of_registers_none rfl]
    exact shared_publish s
  | validate verbose =>
    rw [sharedAfter_of_registers_none rfl]
    simp only [step, validate]
    split <;> rfl
  | say messages | clearConsole | select id | deselect | showDisplay | closeExport =>
    rw [sharedAfter_of_registers_none rfl]
    rfl
  | _ => exact absurd rfl hl

/-! One step, field by field. -/

theorem pipelineAfter_of_not_alters {s : Session} {c : Command} (h : s.alters c = false) :
    s.pipelineAfter c = s.pipeline := by
  cases c with
  | onPanel i command =>
    simp only [pipelineAfter]
    split
    next hs =>
      have gone : s.panel? i = none := by simpa [alters, hs] using h
      rw [gone, Option.elim_none]
    · rfl
  | setMetadata m => cases h
  | addStage name plugin =>
    have full : nextId? s.pipeline.graph.stages = none := by simpa [alters] using h
    rw [pipelineAfter, full, Option.elim_none]
  | _ => rfl

theorem pipeline_step_eq (s : Session) (c : Command) :
    (s.step c).2.pipeline = s.pipelineAfter c :=
  (congrArg Session.pipeline (shared_step_eq s c) :)

/-- A command that does not alter the pipeline leaves it as it is. -/
theorem pipeline_step {s : Session} {c : Command} (h : s.alters c = false) :
    (s.step c).2.pipeline = s.pipeline :=
  (pipeline_step_eq s c).trans (pipelineAfter_of_not_alters h)

/-- Listeners come with panels and observers, and stay. -/
theorem listeners_step (s : Session) (c : Command) :
    (s.step c).2.listeners = s.listeners ++ s.registered c :=
  (congrArg Session.listeners (shared_step_eq s c) :)

theorem published_step (s : Session) (c : Command) :
    (s.step c).2.published = s.publishedAfter c :=
  (congrArg Session.published (shared_step_eq s c) :)

theorem selected_step (s : Session) (c : Command) :
    (s.step c).2.selected = s.selectedAfter c :=
  (congrArg Session.selected (shared_step_eq s c) :)

/-- The export window shows what it was opened on until it is opened again or closed. -/
theorem exportRequest_step (s : Session) {c : Command} (h : c.setsExport = false) :
    (s.step c).2.exportRequest = s.exportRequest := by
  have kept : s.exportAfter c = s.exportRequest := by
    have other : ¬ s.operation? c = some .exportDocument := by
      intro ho
      cases c with
      | onPanel i command =>
        cases command with
        | run operation =>
          obtain ⟨-, -, rfl⟩ := Option.map_eq_some_iff.1 ho
          cases h
        | _ => cases ho
      | _ => cases ho
    cases c with
    | showDisplay | closeExport => cases h
    | _ => simp only [exportAfter, other, if_false]
  exact (congrArg Session.exportRequest (shared_step_eq s c) :).trans kept

/-- Every panel is told of changes. -/
def Attentive (s : Session) : Prop :=
  ∀ i p, s.panel? i = some p → .panel i ∈ s.listeners

theorem attentive_step {s : Session} (h : s.Attentive) (c : Command) : (s.step c).2.Attentive := by
  intro i q hq
  rw [listeners_step]
  rcases panel?_step_some hq with ⟨p, hp, -, -⟩ | ⟨clonedFrom, rfl, rfl, -⟩
  · exact List.mem_append_left _ (h i p hp)
  · exact List.mem_append_right _ (List.mem_singleton.2 rfl)

theorem attentive_start (opening : Opening) (capacity : Nat) :
    (start opening capacity).Attentive := by
  rw [start_eq]
  apply attentive_step
  intro i p hp
  cases hp

end Session
end PipelineEditor
