import PipelineEditor.Proofs.Session.Frame

/-! Panels as projections of the pipeline. In every run a panel whose editor is closed shows the
pipeline as it is, or is marked as stale, and bringing a stale panel in step makes it show the
pipeline whether or not its editor is open. -/
namespace PipelineEditor

namespace Panel

/-- The panel shows the metadata and the artifact of the pipeline. -/
def Shows (p : Panel) (pipeline : Pipeline) : Prop :=
  p.metadata = pipeline.metadata ∧ p.artifact = pipeline.artifact

/-- The panel shows the pipeline unless it is being edited or known to be stale. -/
def Faithful (p : Panel) (pipeline : Pipeline) : Prop :=
  p.expanded = false → p.stale = false → p.Shows pipeline

theorem rebuilt_shows (p : Panel) (pipeline : Pipeline) : (p.rebuilt pipeline).Shows pipeline :=
  ⟨rfl, rfl⟩

theorem synced_stale (p : Panel) (pipeline : Pipeline) : (p.synced pipeline).stale = false := by
  unfold synced
  split
  · rfl
  next h => exact Bool.eq_false_iff.2 h

theorem synced_shows {p : Panel} (h : p.stale = true) (pipeline : Pipeline) :
    (p.synced pipeline).Shows pipeline := by
  rw [synced, if_pos h]
  exact rebuilt_shows _ _

private theorem synced_faithful {p : Panel} {pipeline : Pipeline} (h : p.Faithful pipeline) :
    (p.synced pipeline).Faithful pipeline := by
  unfold synced
  split
  · intro _ _
    exact rebuilt_shows _ _
  · exact h

private theorem received_faithful {p : Panel} {pipeline : Pipeline} (h : p.Faithful pipeline)
    (e : Event) : (p.received pipeline e).Faithful pipeline := by
  cases e with
  | changed => exact synced_faithful h
  | focusDue handle =>
    rw [focusDue_keeps (·.Faithful pipeline) fun _ => rfl]
    exact h
  | info text => exact h
  | failed report => exact h

/-- Whatever a panel is handed, it does not stop showing the pipeline. -/
private theorem received_shows {p : Panel} {pipeline : Pipeline}
    (h : p.stale = true ∨ p.Shows pipeline) (e : Event) :
    (p.received pipeline e).stale = true ∨ (p.received pipeline e).Shows pipeline := by
  cases e with
  | changed =>
    simp only [received, synced]
    split
    · exact .inr (rebuilt_shows _ _)
    next hs => exact .inr (h.resolve_left hs)
  | focusDue handle =>
    rw [focusDue_keeps (·.stale) fun _ => rfl, focusDue_keeps (·.Shows pipeline) fun _ => rfl]
    exact h
  | info text => exact h
  | failed report => exact h

theorem caughtUp_shows {p : Panel} {pipeline : Pipeline} (h : p.stale = true)
    (events : List Event) : (p.caughtUp pipeline events).Shows pipeline := by
  have shown : (p.caughtUp pipeline events).stale = true ∨
      (p.caughtUp pipeline events).Shows pipeline := by
    apply caughtUp_keeps (fun q => q.stale = true ∨ q.Shows pipeline)
    · exact fun q e _ hq => received_shows hq e
    · exact fun q hq => received_shows hq .changed
    · exact .inl h
  have current : (p.caughtUp pipeline events).stale = false := synced_stale _ pipeline
  exact shown.resolve_left fun hs => Bool.noConfusion (hs.symm.trans current)

/-- No command but typing into a closed editor makes a panel unfaithful, as long as the draft is not
saved. -/
private theorem after_faithful {s : Session} {p : Panel} (h : p.Faithful s.pipeline)
    {c : PanelCommand} (hs : c.saves = false)
    (hc : ∀ name description, c = .edit name description → p.expanded = true) :
    (p.after s c).Faithful s.pipeline := by
  cases c with
  | edit name description =>
    intro he
    exact absurd ((hc name description rfl).symm.trans he) (by decide)
  | openEditor =>
    intro he
    cases he
  | requestFocus => exact h
  | rebuild => exact fun _ _ => rebuilt_shows _ _
  | sync => exact synced_faithful h
  | takeFocus => exact h
  | receive e => exact received_faithful h e
  | save key => cases hs
  | reset key => exact fun _ _ => ⟨rfl, rfl⟩
  | press key =>
    have he : key ≠ some Gesture.enter := by simpa [PanelCommand.saves] using hs
    simp only [after, if_neg he]
    split
    · exact fun _ _ => ⟨rfl, rfl⟩
    · exact h
  | run operation =>
    rw [after, operated_keeps (·.Faithful s.pipeline) fun _ _ _ => rfl]
    exact h
  | checkName => exact h
  | drop => exact h

private theorem after_stale (p : Panel) (s : Session) {c : PanelCommand} (hs : c ≠ .sync)
    (hr : c ≠ .receive .changed) : (p.after s c).stale = p.stale := by
  cases c with
  | sync => exact absurd rfl hs
  | receive e =>
    cases e with
    | changed => exact absurd rfl hr
    | focusDue handle => exact focusDue_keeps (·.stale) (fun _ => rfl) p s.pipeline handle
    | info text => rfl
    | failed report => rfl
  | press key =>
    simp only [after]
    split
    · rfl
    · split <;> rfl
  | run operation => exact operated_keeps (·.stale) (fun _ _ _ => rfl) p s operation
  | _ => rfl

end Panel

namespace Session

private theorem reached_stale (s : Session) (c : Command) (i : Nat) (p : Panel) :
    (s.reached c i p).stale = (p.stale && !c.syncs i) := by
  cases hc : c.syncs i with
  | true =>
    rw [Bool.not_true, Bool.and_false]
    rcases Command.syncs_cases hc with rfl | rfl | rfl
    · rw [reached, if_pos rfl]
      exact Panel.synced_stale p s.pipeline
    · rw [reached, if_pos rfl]
      exact Panel.synced_stale p s.pipeline
    · exact Panel.synced_stale _ _
  | false =>
    rw [Bool.not_false, Bool.and_true]
    cases c with
    | onPanel j command =>
      simp only [reached]
      split
      next hj =>
        subst hj
        apply Panel.after_stale p s
        · rintro rfl
          simp [Command.syncs] at hc
        · rintro rfl
          simp [Command.syncs] at hc
      · rfl
    | pump => cases hc
    | _ => rfl

/-- A panel becomes stale when the pipeline changes, and stops being so when it is brought in
step. -/
theorem stale_step {s : Session} (hs : s.Attentive) {c : Command} {i : Nat} {p q : Panel}
    (hp : s.panel? i = some p) (hq : (s.step c).2.panel? i = some q) :
    q.stale = (s.alters c || p.stale && !c.syncs i) := by
  rcases panel?_step_some hq with ⟨p', hp', -, rfl⟩ | ⟨clonedFrom, rfl, rfl, -⟩
  · obtain rfl := Option.some.inj (hp.symm.trans hp')
    cases ha : s.alters c with
    | true =>
      rw [panelAfter, if_pos ⟨ha, hs i p hp⟩]
      rfl
    | false =>
      rw [panelAfter_of_not_alters ha, Bool.false_or]
      exact reached_stale s c i p
  · rw [panel?_eq_none_of_length_le s _ (Nat.le_refl _)] at hp
    cases hp

/-- At the end of a row of commands that keeps a panel, the panel is stale exactly if nothing has
brought it in step since the pipeline last changed. -/
theorem stale_runAll {s : Session} (hs : s.Attentive) {i : Nat} {p q : Panel}
    (hp : s.panel? i = some p) {commands : List Command}
    (kept : ∀ c ∈ commands, c ≠ .onPanel i .drop)
    (hq : (s.runAll commands).panel? i = some q) :
    q.stale = true ↔
      (p.stale = true ∧ ∀ c ∈ commands, c.syncs i = false) ∨
        ∃ before c after, commands = before ++ c :: after ∧ (s.runAll before).alters c = true ∧
          ∀ d ∈ after, d.syncs i = false := by
  induction commands generalizing s p with
  | nil =>
    obtain rfl := Option.some.inj (hp.symm.trans hq)
    simp
  | cons c cs ih =>
    have hr := panel?_step_of_some hp (kept c List.mem_cons_self)
    have stale := stale_step hs hp hr
    rw [ih (attentive_step hs c) hr (fun d hd => kept d (List.mem_cons_of_mem c hd)) hq, stale]
    -- the last change of the pipeline is made by the first command, or by one of those behind it
    constructor
    · rintro (⟨h, quiet⟩ | ⟨before, d, after, rfl, hd, quiet⟩)
      · rcases Bool.or_eq_true_iff.1 h with changed | old
        · exact .inr ⟨[], c, cs, rfl, changed, quiet⟩
        · obtain ⟨old, hc⟩ := Bool.and_eq_true_iff.1 old
          refine .inl ⟨old, ?_⟩
          intro d hd
          rcases List.mem_cons.1 hd with rfl | hd
          · simpa using hc
          · exact quiet d hd
      · exact .inr ⟨c :: before, d, after, rfl, hd, quiet⟩
    · rintro (⟨old, quiet⟩ | ⟨before, d, after, hsplit, hd, quiet⟩)
      · refine .inl ⟨?_, fun d hd => quiet d (List.mem_cons_of_mem c hd)⟩
        simp [old, quiet c List.mem_cons_self]
      · cases before with
        | nil =>
          obtain ⟨rfl, rfl⟩ := List.cons.inj hsplit
          have now : s.alters c = true := hd
          exact .inl ⟨by simp [now], quiet⟩
        | cons b before =>
          obtain ⟨rfl, rfl⟩ := List.cons.inj hsplit
          exact .inr ⟨before, d, after, rfl, hd, quiet⟩

/-- Whether a command does not type into a closed editor. -/
def typesIntoEditor (s : Session) : Command → Bool
  | .onPanel i (.edit _ _) => (s.panel? i).all (·.expanded)
  | _ => true

/-- Whether all typing in a row of commands goes into open editors. -/
def orderly (s : Session) : List Command → Bool
  | [] => true
  | c :: cs => s.typesIntoEditor c && (s.step c).2.orderly cs

/-- Every panel is told of changes and shows the pipeline while it is neither edited nor stale. -/
structure Faithful (s : Session) : Prop where
  told : s.Attentive
  shows : ∀ i p, s.panel? i = some p → p.Faithful s.pipeline

private theorem reached_faithful {s : Session} {c : Command} {i : Nat} {p : Panel}
    (hp : s.panel? i = some p) (h : p.Faithful s.pipeline) (ha : s.alters c = false)
    (hc : s.typesIntoEditor c = true) : (s.reached c i p).Faithful s.pipeline := by
  cases c with
  | onPanel j command =>
    simp only [reached]
    split
    next hj =>
      subst hj
      apply Panel.after_faithful h
      · simpa [alters, hp] using ha
      · rintro name description rfl
        simpa [typesIntoEditor, hp] using hc
    · exact h
  | pump =>
    apply Panel.caughtUp_keeps (·.Faithful s.pipeline) _ _ h
    · exact fun q e _ hq => Panel.received_faithful hq e
    · exact fun q hq => Panel.synced_faithful hq
  | _ => exact h

theorem faithful_step {s : Session} {c : Command} (h : s.Faithful)
    (hc : s.typesIntoEditor c = true) : (s.step c).2.Faithful := by
  refine ⟨attentive_step h.told c, ?_⟩
  intro i q hq
  rcases panel?_step_some hq with ⟨p, hp, -, rfl⟩ | ⟨clonedFrom, rfl, rfl, rfl⟩
  · cases ha : s.alters c with
    | true =>
      rw [panelAfter, if_pos ⟨ha, h.told i p hp⟩]
      intro _ hs
      cases hs
    | false =>
      rw [panelAfter_of_not_alters ha, pipeline_step ha]
      exact reached_faithful hp (h.shows i p hp) ha hc
  · rw [pipeline_step rfl]
    exact fun _ _ => ⟨rfl, rfl⟩

theorem faithful_runAll {s : Session} {commands : List Command} (h : s.Faithful)
    (hc : s.orderly commands = true) : (s.runAll commands).Faithful := by
  induction commands generalizing s with
  | nil => exact h
  | cons c cs ih =>
    obtain ⟨first, rest⟩ := Bool.and_eq_true_iff.1 hc
    exact ih (faithful_step h first) rest

theorem faithful_start (opening : Opening) (capacity : Nat) :
    (start opening capacity).Faithful := by
  refine ⟨attentive_start opening capacity, ?_⟩
  intro i p hp
  rw [start_eq] at hp
  rcases panel?_step_some hp with ⟨q, hq, -, -⟩ | ⟨clonedFrom, -, -, rfl⟩
  · cases hq
  · rw [start_eq, pipeline_step rfl]
    exact fun _ _ => ⟨rfl, rfl⟩

private theorem panelAfter_syncing {s : Session} {i : Nat} {p : Panel} (hp : s.panel? i = some p)
    (hs : p.stale = true) {c : Command} (hc : c.syncs i = true) :
    ∃ q, (s.step c).2.panel? i = some q ∧ q.stale = false ∧ q.Shows (s.step c).2.pipeline := by
  have made : s.alters c = false ∧ c ≠ .onPanel i .drop ∧ (s.reached c i p).stale = false ∧
      (s.reached c i p).Shows s.pipeline := by
    rcases Command.syncs_cases hc with rfl | rfl | rfl
    · simp only [reached, if_true]
      exact ⟨by simp [alters, PanelCommand.saves], by simp, Panel.synced_stale _ _,
        Panel.synced_shows hs _⟩
    · simp only [reached, if_true]
      exact ⟨by simp [alters, PanelCommand.saves], by simp, Panel.synced_stale _ _,
        Panel.synced_shows hs _⟩
    · exact ⟨rfl, by simp, Panel.synced_stale _ _, Panel.caughtUp_shows hs _⟩
  obtain ⟨quiet, kept, fresh, current⟩ := made
  refine ⟨s.reached c i p, ?_, fresh, ?_⟩
  · rw [panel?_step_of_some hp kept, panelAfter_of_not_alters quiet]
  · rw [pipeline_step quiet]
    exact current

/-- In every run in which all typing goes into open editors, a panel whose editor is closed and that
is not marked as stale shows the pipeline, and a stale panel shows it as soon as it is brought in
step. -/
theorem panels_project_pipeline (opening : Opening) (capacity : Nat) (commands : List Command)
    (h : (start opening capacity).orderly commands = true) :
    let s := (start opening capacity).runAll commands
    (∀ i p, s.panel? i = some p → p.expanded = false → p.stale = false → p.Shows s.pipeline) ∧
      ∀ i p, s.panel? i = some p → p.stale = true → ∀ c, c.syncs i = true →
        ∃ q, (s.step c).2.panel? i = some q ∧ q.stale = false ∧ q.Shows (s.step c).2.pipeline := by
  intro s
  have faithful : s.Faithful := faithful_runAll (faithful_start opening capacity) h
  refine ⟨faithful.shows, ?_⟩
  intro i p hp hs c hc
  exact panelAfter_syncing hp hs hc

/-- A run that types a draft while another panel comes and the pipeline changes. -/
theorem panels_project_pipeline_drafting :
    let opening : Opening := ⟨.empty .standard, none⟩
    let commands : List Command :=
      [.onPanel 0 .openEditor, .onPanel 0 (.edit (some "orders") none), .addPanel none,
        .setMetadata ⟨"sales", "all regions"⟩]
    (start opening 1).orderly commands = true ∧
      let s := (start opening 1).runAll commands
      (∀ i p, s.panel? i = some p → p.expanded = false → p.stale = false → p.Shows s.pipeline) ∧
        ∀ i p, s.panel? i = some p → p.stale = true → ∀ c, c.syncs i = true →
          ∃ q, (s.step c).2.panel? i = some q ∧ q.stale = false ∧
            q.Shows (s.step c).2.pipeline := by
  have h : (start ⟨.empty .standard, none⟩ 1).orderly
      [.onPanel 0 .openEditor, .onPanel 0 (.edit (some "orders") none), .addPanel none,
        .setMetadata ⟨"sales", "all regions"⟩] = true := by
    decide +kernel
  exact ⟨h, panels_project_pipeline _ _ _ h⟩

end Session
end PipelineEditor
