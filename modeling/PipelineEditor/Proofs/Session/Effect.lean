import PipelineEditor.Proofs.Session.Refocus

/-! What a command makes of the panels of a session. It changes at most the panel it is given to;
the others are told when the pipeline changes, and brought up to date when the queue is drained. -/
namespace PipelineEditor

namespace Panel

/-- The panel after its draft was saved. -/
def saved (p : Panel) : Panel :=
  { p with description := .ofDescription p.metadata.description, expanded := false }

/-- The panel after its draft was given up. -/
def discarded (p : Panel) (pipeline : Pipeline) : Panel :=
  { p.rebuilt pipeline with expanded := false }

/-- The panel with its name marked by the messages of a console. -/
def checked (p : Panel) (console : List Message) : Panel :=
  { p with invalidName := console.any (·.kind.isNameError) }

/-- What an operation makes of the panel that runs it. -/
def operated (p : Panel) (s : Session) : Operation → Panel
  | .settings => { p with settingsVisible := !p.settingsVisible }
  | .exportDocument => p
  | .save => p
  | .validate => if s.pipeline.isValid then p else p.checked s.pipeline.problems
  | .publish => p.checked s.publish.console

/-- What a command makes of the panel it is given to. The news of a change of the pipeline is left
out, and so is the end of a panel that is dropped. -/
def after (p : Panel) (s : Session) : PanelCommand → Panel
  | .edit name description =>
    { p with metadata := ⟨name.getD p.metadata.name, description.getD p.metadata.description⟩ }
  | .openEditor => p.opened s.deferral.next
  | .requestFocus => p.asking s.deferral.next
  | .rebuild => p.rebuilt s.pipeline
  | .sync => p.synced s.pipeline
  | .takeFocus => { p with focusReady := false }
  | .receive e => p.received s.pipeline e
  | .save _ => p.saved
  | .reset _ => p.discarded s.pipeline
  | .press key =>
    if key = some Gesture.enter then p.saved
    else if key = some Gesture.escape then p.discarded s.pipeline
    else p
  | .run operation => p.operated s operation
  | .checkName => p.checked s.console
  | .drop => p

/-- A panel as it is added to a session. That of a copy has its editor open and asks for the
focus. -/
def added (s : Session) (clonedFrom : Option String) : Panel :=
  { metadata := s.pipeline.metadata
    settingsVisible := false
    artifact := s.pipeline.artifact
    description := ⟨s.pipeline.description, ""⟩
    expanded := clonedFrom.isSome
    invalidName := false
    clonedFrom := none
    awaited := clonedFrom.map fun _ => s.deferral.next
    focusReady := false
    stale := false }

/-! What the parts of a command leave alone, seen through a view of the panel. -/

section

variable {α : Type} (view : Panel → α)

theorem synced_keeps
    (h : ∀ (p : Panel) m a, view { p with metadata := m, artifact := a, stale := false } = view p)
    (p : Panel) (pipeline : Pipeline) : view (p.synced pipeline) = view p := by
  unfold synced
  split
  · exact h p pipeline.metadata pipeline.artifact
  · rfl

theorem focusDue_keeps
    (h : ∀ (p : Panel), view { p with awaited := none, focusReady := true } = view p)
    (p : Panel) (pipeline : Pipeline) (handle : Handle) :
    view (p.received pipeline (.focusDue handle)) = view p := by
  simp only [received]
  split
  · exact h p
  · rfl

/-- What is left alone by being brought in step and by the answer to a request for the focus is left
alone by every event. -/
theorem received_keeps
    (rebuilt : ∀ (p : Panel) m a,
      view { p with metadata := m, artifact := a, stale := false } = view p)
    (focused : ∀ (p : Panel), view { p with awaited := none, focusReady := true } = view p)
    (p : Panel) (pipeline : Pipeline) (e : Event) : view (p.received pipeline e) = view p := by
  cases e with
  | changed => exact synced_keeps view rebuilt p pipeline
  | focusDue handle => exact focusDue_keeps view focused p pipeline handle
  | info text => rfl
  | failed report => rfl

theorem operated_keeps
    (h : ∀ (p : Panel) v n, view { p with settingsVisible := v, invalidName := n } = view p)
    (p : Panel) (s : Session) (operation : Operation) :
    view (p.operated s operation) = view p := by
  cases operation with
  | settings => exact h p (!p.settingsVisible) p.invalidName
  | validate =>
    simp only [operated]
    split
    · rfl
    · exact h p p.settingsVisible _
  | publish => exact h p p.settingsVisible _
  | exportDocument => rfl
  | save => rfl

end

/-- What every event keeps, and bringing the panel in step, is kept when the panel catches up. -/
theorem caughtUp_keeps (I : Panel → Prop) {p : Panel} {pipeline : Pipeline} {events : List Event}
    (received : ∀ q, ∀ e ∈ events, I q → I (q.received pipeline e))
    (synced : ∀ q, I q → I (q.synced pipeline)) (h : I p) : I (p.caughtUp pipeline events) := by
  apply synced
  induction events generalizing p with
  | nil => exact h
  | cons e es ih =>
    have first := received p e List.mem_cons_self h
    exact ih (fun q d hd => received q d (List.mem_cons_of_mem e hd)) first

end Panel

/-- Whether a panel command saves the draft of its panel. -/
def PanelCommand.saves : PanelCommand → Bool
  | .save _ => true
  | .press key => key = some Gesture.enter
  | _ => false

/-- Whether a command brings a panel in step with the pipeline if it is stale. -/
def Command.syncs (i : Nat) : Command → Bool
  | .onPanel j .sync | .onPanel j (.receive .changed) => j = i
  | .pump => true
  | _ => false

theorem Command.syncs_cases {i : Nat} {c : Command} (h : c.syncs i = true) :
    c = .onPanel i .sync ∨ c = .onPanel i (.receive .changed) ∨ c = .pump := by
  unfold syncs at h
  split at h
  · exact .inl (by rw [of_decide_eq_true h])
  · exact .inr (.inl (by rw [of_decide_eq_true h]))
  · exact .inr (.inr rfl)
  · cases h

namespace Session

/-- Whether a command changes the pipeline. -/
def alters (s : Session) : Command → Bool
  | .onPanel i command => (s.panel? i).isSome && command.saves
  | .setMetadata _ => true
  | .addStage _ _ => (nextId? s.pipeline.graph.stages).isSome
  | _ => false

/-- What a command itself makes of a panel of the session that it does not drop. -/
def reached (s : Session) (c : Command) (i : Nat) (p : Panel) : Panel :=
  match c with
  | .onPanel j command => if j = i then p.after s command else p
  | .pump => p.caughtUp s.pipeline s.queue.drain.1
  | _ => p

/-- What becomes of a panel that is not dropped: a change of the pipeline is told as well. -/
def panelAfter (s : Session) (c : Command) (i : Nat) (p : Panel) : Panel :=
  if s.alters c ∧ .panel i ∈ s.listeners then (s.reached c i p).told else s.reached c i p

/-! The operations of a panel. -/

theorem panel?_saveDraft (s : Session) (i : Nat) : s.saveDraft.panel? i = s.panel? i := by
  unfold saveDraft
  split <;> rfl

theorem panel?_publish (s : Session) (i : Nat) : s.publish.panel? i = s.panel? i := by
  simp only [publish, validate]
  split <;> rfl

private theorem panel?_save {s : Session} {i : Nat} {p : Panel} (hp : s.panel? i = some p)
    (j : Nat) :
    (s.save i).panel? j = (if i = j then some p.saved else s.panel? j).map fun q =>
      if .panel j ∈ s.listeners then q.told else q := by
  unfold save
  rw [hp]
  dsimp only
  rw [panel?_modifyPanel, setMetadata, panel?_tellAll]
  simp only [panel?_mk, join_panels]
  by_cases h : i = j
  · subst h
    rw [if_pos rfl, if_pos rfl, hp]
    by_cases hl : Listener.panel i ∈ s.listeners <;> simp [hl] <;> rfl
  · rw [if_neg h, if_neg h]

private theorem panel?_reset (s : Session) (i j : Nat) :
    (s.reset i).panel? j =
      if i = j then (s.panel? j).map (·.discarded s.pipeline) else s.panel? j := by
  unfold reset rebuild
  rw [modifyPanel_modifyPanel, panel?_modifyPanel]
  rfl

theorem panel?_run (s : Session) (i j : Nat) (operation : Operation) :
    (s.run i operation).panel? j =
      if i = j then (s.panel? j).map (·.operated s operation) else s.panel? j := by
  cases operation with
  | settings => exact panel?_modifyPanel s i j _
  | exportDocument =>
    change s.panel? j = _
    by_cases h : i = j <;> cases s.panel? j <;> simp [h, Panel.operated]
  | save =>
    change s.saveDraft.panel? j = _
    rw [panel?_saveDraft]
    by_cases h : i = j <;> cases s.panel? j <;> simp [h, Panel.operated]
  | validate =>
    change (s.validateFor i).panel? j = _
    simp only [validateFor, validate, if_true]
    by_cases hv : s.pipeline.isValid = true
    · rw [if_pos (show s.clearConsole.pipeline.isValid = true from hv)]
      change s.panel? j = _
      by_cases h : i = j <;> cases s.panel? j <;> simp [h, Panel.operated, hv]
    · rw [if_neg (show ¬ s.clearConsole.pipeline.isValid = true from hv), checkName,
        panel?_modifyPanel]
      by_cases h : i = j <;> cases hj : s.panel? j <;> simp [h, hj, Panel.operated, hv, say,
        clearConsole, Panel.checked]
  | publish =>
    change (s.publish.checkName i).panel? j = _
    rw [checkName, panel?_modifyPanel, panel?_publish]
    rfl

private theorem map_at {s : Session} {i : Nat} {p : Panel} (hp : s.panel? i = some p) (j : Nat)
    (f : Panel → Panel) :
    (if i = j then (s.panel? j).map f else s.panel? j) =
      if i = j then some (f p) else s.panel? j := by
  by_cases h : i = j
  · subst h; rw [if_pos rfl, if_pos rfl, hp]; rfl
  · rw [if_neg h, if_neg h]

/-- A command given to a panel changes that panel; if it saves a draft, all registered panels are
told. -/
theorem panel?_onPanel {s : Session} {i : Nat} {p : Panel} (hp : s.panel? i = some p)
    {c : PanelCommand} (hc : c ≠ .drop) (j : Nat) :
    (s.onPanel i p c).2.panel? j = (if i = j then some (p.after s c) else s.panel? j).map fun q =>
      if c.saves ∧ .panel j ∈ s.listeners then q.told else q := by
  have one (f : Panel → Panel) : (s.modifyPanel i f).panel? j =
      if i = j then some (f p) else s.panel? j :=
    (panel?_modifyPanel s i j f).trans (map_at hp j f)
  have quiet {q : Option Panel} (h : c.saves = false) :
      (q.map fun q => if c.saves ∧ .panel j ∈ s.listeners then q.told else q) = q := by
    simp [h]
  cases c with
  | edit name description => rw [quiet rfl]; exact one _
  | openEditor =>
    rw [quiet rfl]
    change (s.openEditor i).panel? j = _
    rw [openEditor_eq hp]
    exact one _
  | requestFocus =>
    rw [quiet rfl]
    change (s.requestFocus i).panel? j = _
    rw [requestFocus_eq hp]
    exact one _
  | rebuild => rw [quiet rfl]; exact one _
  | sync => rw [quiet rfl]; exact one _
  | takeFocus => rw [quiet rfl]; exact one _
  | receive e => rw [quiet rfl]; exact one _
  | save key =>
    change (s.save i).panel? j = _
    rw [panel?_save hp]
    simp [PanelCommand.saves, Panel.after]
  | reset key =>
    rw [quiet rfl]
    exact (panel?_reset s i j).trans (map_at hp j _)
  | press key =>
    change (s.press i key).2.panel? j = _
    unfold press
    by_cases he : key = some Gesture.enter
    · rw [if_pos he]
      change (s.save i).panel? j = _
      rw [panel?_save hp]
      simp [PanelCommand.saves, Panel.after, he]
    · rw [if_neg he, quiet (by simp [PanelCommand.saves, he]), Panel.after, if_neg he]
      by_cases hx : key = some Gesture.escape
      · rw [if_pos hx, if_pos hx]
        exact (panel?_reset s i j).trans (map_at hp j _)
      · rw [if_neg hx, if_neg hx]
        by_cases h : i = j
        · subst h; rw [if_pos rfl]; exact hp
        · rw [if_neg h]
  | run operation =>
    rw [quiet rfl]
    exact (panel?_run s i j operation).trans (map_at hp j _)
  | checkName => rw [quiet rfl]; exact one _
  | drop => exact absurd rfl hc

theorem panel?_dropPanel {s : Session} {i : Nat} {p : Panel} (hp : s.panel? i = some p) (j : Nat) :
    (s.dropPanel i).panel? j = if i = j then none else s.panel? j := by
  unfold dropPanel
  rw [dropFocus_eq hp]
  simp only [panel?_mk]
  rw [List.getElem?_modify]
  by_cases h : i = j
  · subst h
    cases (s.refocus i _ _ _).panels[i]? <;> simp
  · simp only [h, if_false, id_map']
    exact (panel?_refocus s i j _ _ _).trans (if_neg h)

theorem panel?_append (s : Session) (p : Panel) (i : Nat) :
    (s.panels ++ [some p])[i]?.join = if i = s.panels.length then some p else s.panel? i := by
  by_cases h : i < s.panels.length
  · rw [List.getElem?_append_left h, if_neg (by omega)]
    rfl
  · rw [List.getElem?_append_right (by omega)]
    by_cases he : i = s.panels.length
    · subst he; simp
    · rw [if_neg he, panel?_eq_none_of_length_le s i (by omega), List.getElem?_eq_none (by simp; omega)]
      rfl

/-- A panel of a copy before its editor is opened. -/
def unopenedPanel (s : Session) (name : String) : Panel :=
  { Panel.added s none with clonedFrom := some name }

/-- The panel of a copy is added like any other, and its editor is opened then. -/
theorem addPanel_some (s : Session) (name : String) :
    s.addPanel (some name) =
      Session.refocus
        { s with
          panels := s.panels ++ [some (s.unopenedPanel name)]
          listeners := s.listeners ++ [.panel s.panels.length] }
        s.panels.length (Panel.opened s.deferral.next) s.deferral.start.2
        [.deferred s.deferral.next] := by
  unfold addPanel
  simp only [Option.isSome_some, if_true]
  rw [openEditor_eq (p := s.unopenedPanel name)]
  · rfl
  · exact (panel?_append s _ _).trans (if_pos rfl)

/-- A panel is added behind all others. -/
theorem panel?_addPanel (s : Session) (clonedFrom : Option String) (i : Nat) :
    (s.addPanel clonedFrom).panel? i =
      if i = s.panels.length then some (.added s clonedFrom) else s.panel? i := by
  cases clonedFrom with
  | none => exact panel?_append s _ i
  | some name =>
    rw [addPanel_some, panel?_refocus, panel?_mk, panel?_append]
    by_cases h : i = s.panels.length
    · subst h
      simp only [if_true, Option.map_some]
      rfl
    · rw [if_neg (Ne.symm h), if_neg h, if_neg h]

theorem panelAfter_of_not_alters {s : Session} {c : Command} (h : s.alters c = false) (i : Nat)
    (p : Panel) : s.panelAfter c i p = s.reached c i p :=
  if_neg fun ht => by simp [h] at ht

private theorem map_panelAfter_of_quiet {s t : Session} {c : Command} {i : Nat}
    (ht : t.panel? i = s.panel? i) (ha : s.alters c = false) (hr : ∀ p, s.reached c i p = p) :
    t.panel? i = (s.panel? i).map (s.panelAfter c i) := by
  rw [ht]
  cases s.panel? i with
  | none => rfl
  | some p => rw [Option.map_some, panelAfter_of_not_alters ha, hr]

private theorem map_panelAfter_of_told {s t : Session} {c : Command} {i : Nat}
    (ht : t.panel? i =
      (s.panel? i).map fun p => if .panel i ∈ s.listeners then p.told else p)
    (ha : s.alters c = true) (hr : ∀ p, s.reached c i p = p) :
    t.panel? i = (s.panel? i).map (s.panelAfter c i) := by
  rw [ht]
  congr 1
  funext p
  simp only [panelAfter, ha, hr, true_and]

private theorem panel?_step_onPanel {s : Session} {i j : Nat} {c : PanelCommand}
    (hc : Command.onPanel j c ≠ .onPanel i .drop) :
    (s.step (.onPanel j c)).2.panel? i = (s.panel? i).map (s.panelAfter (.onPanel j c) i) := by
  simp only [step]
  cases hj : s.panel? j with
  | none =>
    cases hi : s.panel? i with
    | none => rfl
    | some p =>
      have hne : j ≠ i := fun h => by simp [h, hi] at hj
      simp [panelAfter, reached, alters, hj, hne]
  | some q =>
    by_cases hd : c = .drop
    · subst hd
      have hne : j ≠ i := fun h => hc (h ▸ rfl)
      exact map_panelAfter_of_quiet ((panel?_dropPanel hj i).trans (if_neg hne))
        (by simp [alters, PanelCommand.saves]) (fun p => if_neg hne)
    · rw [panel?_onPanel hj hd]
      by_cases h : j = i
      · subst h
        simp [panelAfter, reached, alters, hj]
      · cases hi : s.panel? i <;> simp [panelAfter, reached, alters, hj, h]

/-- What a step makes of a panel that it neither drops nor adds. -/
theorem panel?_step {s : Session} {c : Command} {i : Nat} (hd : c ≠ .onPanel i .drop)
    (ha : ∀ clonedFrom, c = .addPanel clonedFrom → i ≠ s.panels.length) :
    (s.step c).2.panel? i = (s.panel? i).map (s.panelAfter c i) := by
  cases c with
  | onPanel j command => exact panel?_step_onPanel hd
  | addPanel clonedFrom =>
    exact map_panelAfter_of_quiet
      ((panel?_addPanel s clonedFrom i).trans (if_neg (ha clonedFrom rfl))) rfl fun _ => rfl
  | finishDeferred =>
    have kept := finishDeferred_keeps (·.panel? i) (fun _ _ => rfl) s
    exact map_panelAfter_of_quiet kept rfl fun _ => rfl
  | giveWay h => exact map_panelAfter_of_quiet rfl rfl fun _ => rfl
  | leave h => exact map_panelAfter_of_quiet rfl rfl fun _ => rfl
  | fire h =>
    refine map_panelAfter_of_quiet ?_ rfl fun _ => rfl
    simp only [step]
    split <;> rfl
  | pump => exact panel?_deliver _ _ i
  | post e => exact map_panelAfter_of_quiet rfl rfl fun _ => rfl
  | closeQueue => exact map_panelAfter_of_quiet rfl rfl fun _ => rfl
  | observe => exact map_panelAfter_of_quiet rfl rfl fun _ => rfl
  | setMetadata m => exact map_panelAfter_of_told (panel?_tellAll _ i) rfl fun _ => rfl
  | addStage name plugin =>
    simp only [step, addStage]
    cases hn : nextId? s.pipeline.graph.stages with
    | none => exact map_panelAfter_of_quiet rfl (by simp [alters, hn]) fun _ => rfl
    | some id =>
      exact map_panelAfter_of_told (panel?_tellAll _ i) (by simp [alters, hn]) fun _ => rfl
  | validate verbose =>
    refine map_panelAfter_of_quiet ?_ rfl fun _ => rfl
    simp only [step, validate]
    split <;> rfl
  | saveDraft => exact map_panelAfter_of_quiet (panel?_saveDraft s i) rfl fun _ => rfl
  | publish => exact map_panelAfter_of_quiet (panel?_publish s i) rfl fun _ => rfl
  | say messages => exact map_panelAfter_of_quiet rfl rfl fun _ => rfl
  | clearConsole => exact map_panelAfter_of_quiet rfl rfl fun _ => rfl
  | select id => exact map_panelAfter_of_quiet rfl rfl fun _ => rfl
  | deselect => exact map_panelAfter_of_quiet rfl rfl fun _ => rfl
  | showDisplay => exact map_panelAfter_of_quiet rfl rfl fun _ => rfl
  | closeExport => exact map_panelAfter_of_quiet rfl rfl fun _ => rfl

/-- A panel after a step was there before it or was added by it. -/
theorem panel?_step_some {s : Session} {c : Command} {i : Nat} {q : Panel}
    (h : (s.step c).2.panel? i = some q) :
    (∃ p, s.panel? i = some p ∧ c ≠ .onPanel i .drop ∧ q = s.panelAfter c i p) ∨
      ∃ clonedFrom, c = .addPanel clonedFrom ∧ i = s.panels.length ∧ q = .added s clonedFrom := by
  by_cases hd : c = .onPanel i .drop
  · subst hd
    simp only [step] at h
    cases hp : s.panel? i with
    | none => simp [hp] at h
    | some p =>
      have gone := (panel?_dropPanel hp i).trans (if_pos rfl)
      rw [hp] at h
      exact absurd (gone.symm.trans h) (by simp)
  · by_cases ha : ∃ clonedFrom, c = .addPanel clonedFrom ∧ i = s.panels.length
    · obtain ⟨clonedFrom, rfl, hi⟩ := ha
      have new := (panel?_addPanel s clonedFrom i).trans (if_pos hi)
      exact .inr ⟨clonedFrom, rfl, hi, Option.some.inj (h.symm.trans new)⟩
    · rw [panel?_step hd fun clonedFrom hc hi => ha ⟨clonedFrom, hc, hi⟩] at h
      obtain ⟨p, hp, rfl⟩ := Option.map_eq_some_iff.1 h
      exact .inl ⟨p, hp, hd, rfl⟩

/-- A panel that is not dropped stays at its place. -/
theorem panel?_step_of_some {s : Session} {c : Command} {i : Nat} {p : Panel}
    (hp : s.panel? i = some p) (hd : c ≠ .onPanel i .drop) :
    (s.step c).2.panel? i = some (s.panelAfter c i p) := by
  rw [panel?_step hd, hp, Option.map_some]
  rintro clonedFrom - hi
  rw [panel?_eq_none_of_length_le s i (by omega)] at hp
  cases hp

/-! The start of a session. -/

/-- A session on a pipeline before there are panels. -/
def vacant (pipeline : Pipeline) (capacity : Nat) : Session :=
  { pipeline := pipeline
    listeners := []
    console := []
    drafts := []
    published := none
    selected := none
    exportRequest := none
    panels := []
    deferral := .empty
    queue := .empty capacity
    journal := [] }

theorem start_eq (opening : Opening) (capacity : Nat) :
    start opening capacity =
      ((vacant opening.pipeline capacity).step (.addPanel opening.clonedFrom)).2 := rfl

theorem runAll_append (s : Session) (before after : List Command) :
    s.runAll (before ++ after) = (s.runAll before).runAll after :=
  List.foldl_append

theorem runAll_concat (s : Session) (commands : List Command) (c : Command) :
    s.runAll (commands ++ [c]) = ((s.runAll commands).step c).2 :=
  runAll_append s commands [c]

/-- What every step keeps holds in every run. -/
theorem runAll_keeps (I : Session → Prop) (step : ∀ s c, I s → I (s.step c).2) {s : Session}
    (h : I s) (commands : List Command) : I (s.runAll commands) := by
  induction commands generalizing s with
  | nil => exact h
  | cons c cs ih => exact ih (step s c h)

end Session
end PipelineEditor
