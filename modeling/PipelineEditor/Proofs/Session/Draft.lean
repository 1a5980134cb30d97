import PipelineEditor.Proofs.Session.Projection

/-! Drafts in open editors. What is typed into an open editor stays there until the panel is rebuilt
from the pipeline, and an open editor does not keep a stale panel from being rebuilt. -/
namespace PipelineEditor

/-- Whether a panel command ends the editing of its panel. -/
def PanelCommand.ends : PanelCommand → Bool
  | .save _ | .reset _ | .drop => true
  | .press key => key = some Gesture.enter || key = some Gesture.escape
  | _ => false

namespace Command

/-- Whether a command ends the editing of a panel. -/
def ends (i : Nat) : Command → Bool
  | .onPanel j command => j = i && command.ends
  | _ => false

/-- The draft in the editor of a panel after what a command types into it. -/
def typed (i : Nat) (m : Metadata) : Command → Metadata
  | .onPanel j (.edit name description) =>
    if j = i then ⟨name.getD m.name, description.getD m.description⟩ else m
  | _ => m

end Command

namespace Panel

/-- The metadata that the panel shows once it is brought in step. -/
def settled (p : Panel) (pipeline : Pipeline) : Metadata :=
  if p.stale then pipeline.metadata else p.metadata

private theorem synced_metadata (p : Panel) (pipeline : Pipeline) :
    (p.synced pipeline).metadata = p.settled pipeline := by
  unfold synced settled
  split <;> rfl

private theorem synced_settled (p : Panel) (pipeline : Pipeline) :
    (p.synced pipeline).settled pipeline = p.settled pipeline := by
  unfold synced
  split
  next h => exact (if_pos h).symm
  · rfl

private theorem received_settled (p : Panel) (pipeline : Pipeline) (e : Event) :
    (p.received pipeline e).settled pipeline = p.settled pipeline := by
  cases e with
  | changed => exact synced_settled p pipeline
  | focusDue handle => exact focusDue_keeps (·.settled pipeline) (fun _ => rfl) p pipeline handle
  | info text => rfl
  | failed report => rfl

private theorem caughtUp_metadata (p : Panel) (pipeline : Pipeline) (events : List Event) :
    (p.caughtUp pipeline events).metadata = p.settled pipeline := by
  have same : (p.caughtUp pipeline events).settled pipeline = p.settled pipeline := by
    apply caughtUp_keeps (fun q => q.settled pipeline = p.settled pipeline)
    · exact fun q e _ hq => (received_settled q pipeline e).trans hq
    · exact fun q hq => (synced_settled q pipeline).trans hq
    · rfl
  have current : (p.caughtUp pipeline events).stale = false := synced_stale _ pipeline
  rwa [settled, current] at same

private theorem received_expanded (p : Panel) (pipeline : Pipeline) (e : Event) :
    (p.received pipeline e).expanded = p.expanded :=
  received_keeps (·.expanded) (fun _ _ _ => rfl) (fun _ => rfl) p pipeline e

private theorem after_expanded {s : Session} {p : Panel} {c : PanelCommand}
    (he : p.expanded = true) (hc : c.ends = false) : (p.after s c).expanded = true := by
  cases c with
  | openEditor => rfl
  | sync => exact (received_expanded p s.pipeline .changed).trans he
  | receive e => exact (received_expanded p s.pipeline e).trans he
  | press key =>
    have keys : key ≠ some Gesture.enter ∧ key ≠ some Gesture.escape := by
      simpa [PanelCommand.ends] using hc
    rw [after, if_neg keys.1, if_neg keys.2]
    exact he
  | run operation =>
    exact (operated_keeps (·.expanded) (fun _ _ _ => rfl) p s operation).trans he
  | save key | reset key => cases hc
  | _ => exact he

end Panel

namespace Session

/-- Whether a command puts the metadata of the pipeline in the place of those that a panel shows. -/
def replaces (s : Session) (i : Nat) (c : Command) : Bool :=
  c = .onPanel i .rebuild || c.syncs i && (s.panel? i).any (·.stale)

/-- Whether no command of a row replaces what a panel shows. -/
def keepsDraft (s : Session) (i : Nat) : List Command → Bool
  | [] => true
  | c :: cs => !s.replaces i c && (s.step c).2.keepsDraft i cs

private theorem reached_expanded {s : Session} {c : Command} {i : Nat} {p : Panel}
    (he : p.expanded = true) (hc : c.ends i = false) : (s.reached c i p).expanded = true := by
  cases c with
  | onPanel j command =>
    simp only [reached]
    split
    next hj =>
      subst hj
      exact Panel.after_expanded he (by simpa [Command.ends] using hc)
    · exact he
  | pump =>
    apply Panel.caughtUp_keeps (·.expanded = true) _ _ he
    · exact fun q e _ hq => (Panel.received_expanded q s.pipeline e).trans hq
    · exact fun q hq => (Panel.received_expanded q s.pipeline .changed).trans hq
  | _ => exact he

private theorem settled_eq {s : Session} {i : Nat} {p : Panel} (hp : s.panel? i = some p) :
    p.settled s.pipeline =
      if (s.panel? i).any (·.stale) then s.pipeline.metadata else p.metadata := by
  rw [hp]
  rfl

/-- What a command makes of the draft in the panel it is given to. -/
private theorem after_metadata {s : Session} {c : PanelCommand} {i : Nat} {p : Panel}
    (hp : s.panel? i = some p) (hc : c.ends = false) :
    (p.after s c).metadata =
      if s.replaces i (.onPanel i c) then s.pipeline.metadata
      else (Command.onPanel i c).typed i p.metadata := by
  cases c with
  | edit name description => simp [Panel.after, replaces, Command.syncs, Command.typed]
  | rebuild => simp [Panel.after, Panel.rebuilt, replaces]
  | sync =>
    refine (Panel.synced_metadata p s.pipeline).trans ?_
    simp [settled_eq hp, replaces, Command.syncs, Command.typed]
  | receive e =>
    cases e with
    | changed =>
      refine (Panel.synced_metadata p s.pipeline).trans ?_
      simp [settled_eq hp, replaces, Command.syncs, Command.typed]
    | focusDue h =>
      refine (Panel.focusDue_keeps (·.metadata) (fun _ => rfl) p s.pipeline h).trans ?_
      simp [replaces, Command.syncs, Command.typed]
    | info text => simp [Panel.after, Panel.received, replaces, Command.syncs, Command.typed]
    | failed report => simp [Panel.after, Panel.received, replaces, Command.syncs, Command.typed]
  | press key =>
    have keys : key ≠ some Gesture.enter ∧ key ≠ some Gesture.escape := by
      simpa [PanelCommand.ends] using hc
    rw [Panel.after, if_neg keys.1, if_neg keys.2]
    simp [replaces, Command.syncs, Command.typed]
  | run operation =>
    refine (Panel.operated_keeps (·.metadata) (fun _ _ _ => rfl) p s operation).trans ?_
    simp [replaces, Command.syncs, Command.typed]
  | openEditor | requestFocus | takeFocus | checkName =>
    simp [Panel.after, Panel.opened, Panel.asking, Panel.checked, replaces, Command.syncs,
      Command.typed]
  | save key | reset key | drop => cases hc

private theorem reached_metadata {s : Session} {c : Command} {i : Nat} {p : Panel}
    (hp : s.panel? i = some p) (hc : c.ends i = false) :
    (s.reached c i p).metadata =
      if s.replaces i c then s.pipeline.metadata else c.typed i p.metadata := by
  cases c with
  | onPanel j command =>
    by_cases hj : j = i
    · subst hj
      rw [reached, if_pos rfl]
      exact after_metadata hp (by simpa [Command.ends] using hc)
    · have other : s.replaces i (.onPanel j command) = false := by
        cases hs : (Command.onPanel j command).syncs i with
        | false => simp [replaces, hs, hj]
        | true =>
          rcases Command.syncs_cases hs with h | h | h <;> cases h <;> exact absurd rfl hj
      rw [reached, if_neg hj, other]
      cases command <;> simp [Command.typed, hj]
  | pump =>
    refine (Panel.caughtUp_metadata p s.pipeline _).trans ?_
    simp [settled_eq hp, replaces, Command.syncs, Command.typed]
  | _ => simp [reached, replaces, Command.syncs, Command.typed]

/-- A command that does not end the editing of a panel leaves the editor open, and the draft is what
was typed unless the command replaces it. -/
theorem draft_step {s : Session} {c : Command} {i : Nat} {p : Panel} (hp : s.panel? i = some p)
    (he : p.expanded = true) (hc : c.ends i = false) :
    ∃ q, (s.step c).2.panel? i = some q ∧ q.expanded = true ∧
      q.metadata = if s.replaces i c then s.pipeline.metadata else c.typed i p.metadata := by
  have kept : c ≠ .onPanel i .drop := by
    rintro rfl
    simp [Command.ends, PanelCommand.ends] at hc
  refine ⟨s.panelAfter c i p, panel?_step_of_some hp kept, ?_, ?_⟩
  · unfold panelAfter
    split <;> exact reached_expanded he hc
  · unfold panelAfter
    split <;> exact reached_metadata hp hc

private theorem draft_runAll {s : Session} {i : Nat} {p : Panel} (hp : s.panel? i = some p)
    (he : p.expanded = true) {commands : List Command}
    (hc : ∀ c ∈ commands, c.ends i = false) :
    ∃ q, (s.runAll commands).panel? i = some q ∧ q.expanded = true ∧
      (s.keepsDraft i commands = true →
        q.metadata = commands.foldl (fun m c => c.typed i m) p.metadata) ∧
      ∀ before c after, commands = before ++ c :: after →
        (s.runAll before).replaces i c = true →
        ((s.runAll before).step c).2.keepsDraft i after = true →
          q.metadata =
            after.foldl (fun m c => c.typed i m) (s.runAll before).pipeline.metadata := by
  induction commands generalizing s p with
  | nil =>
    refine ⟨p, hp, he, fun _ => rfl, ?_⟩
    intro before c after hsplit
    simp at hsplit
  | cons c cs ih =>
    obtain ⟨q, hq, hqe, hqm⟩ := draft_step hp he (hc c List.mem_cons_self)
    obtain ⟨r, hr, hre, kept, replaced⟩ := ih hq hqe fun d hd => hc d (List.mem_cons_of_mem c hd)
    refine ⟨r, hr, hre, ?_, ?_⟩
    · intro hk
      obtain ⟨first, rest⟩ := Bool.and_eq_true_iff.1 hk
      rw [kept rest, hqm, if_neg (by simpa using first)]
      rfl
    · intro before d after hsplit hd hk
      -- the draft is replaced by the first command, or by one of those behind it
      cases before with
      | nil =>
        obtain ⟨rfl, rfl⟩ := List.cons.inj hsplit
        have now : s.replaces i c = true := hd
        rw [kept hk, hqm, if_pos now]
        rfl
      | cons b before =>
        obtain ⟨rfl, rfl⟩ := List.cons.inj hsplit
        exact replaced before d after rfl hd hk

/-- In every session, a row of commands that does not end the editing of a panel leaves its editor
open. If nothing replaces the draft it is what was typed. If something does, the draft is what the
pipeline then had, with what was typed afterwards. Bringing the panel in step replaces it if the
panel is stale: if the pipeline has changed since the panel was last brought in step. -/
theorem open_draft_kept_or_replaced (opening : Opening) (capacity : Nat) (earlier : List Command)
    {i : Nat} {p : Panel}
    (hp : ((start opening capacity).runAll earlier).panel? i = some p) (he : p.expanded = true)
    {commands : List Command} (hc : ∀ c ∈ commands, c.ends i = false) :
    let s := (start opening capacity).runAll earlier
    ∃ q, (s.runAll commands).panel? i = some q ∧ q.expanded = true ∧
      (s.keepsDraft i commands = true →
        q.metadata = commands.foldl (fun m c => c.typed i m) p.metadata) ∧
      (∀ before c after, commands = before ++ c :: after →
        (s.runAll before).replaces i c = true →
        ((s.runAll before).step c).2.keepsDraft i after = true →
          q.metadata =
            after.foldl (fun m c => c.typed i m) (s.runAll before).pipeline.metadata) ∧
      (q.stale = true ↔
        (p.stale = true ∧ ∀ c ∈ commands, c.syncs i = false) ∨
          ∃ before c after, commands = before ++ c :: after ∧
            (s.runAll before).alters c = true ∧ ∀ d ∈ after, d.syncs i = false) := by
  intro s
  have attentive : s.Attentive :=
    runAll_keeps Attentive (fun _ c h => attentive_step h c) (attentive_start opening capacity)
      earlier
  have live : ∀ c ∈ commands, c ≠ .onPanel i .drop := by
    rintro c hm rfl
    have := hc _ hm
    simp [Command.ends, PanelCommand.ends] at this
  obtain ⟨q, hq, hqe, kept, replaced⟩ := draft_runAll hp he hc
  exact ⟨q, hq, hqe, kept, replaced, stale_runAll attentive hp live hq⟩

/-- A draft that a stage makes the panel lose is typed again. -/
theorem open_draft_retyped :
    let s := (start ⟨.empty .standard, none⟩ 16).runAll [.onPanel 0 .openEditor]
    let commands : List Command :=
      [.onPanel 0 (.edit (some "orders") none), .addStage "read" ⟨"csv", "source"⟩,
        .onPanel 0 .sync, .onPanel 0 (.edit none (some "daily"))]
    ∃ p, s.panel? 0 = some p ∧ p.expanded = true ∧ (∀ c ∈ commands, c.ends 0 = false) ∧
      ∃ q, (s.runAll commands).panel? 0 = some q ∧ q.expanded = true ∧
        q.metadata = ⟨"", "daily"⟩ := by
  intro s commands
  have hp : s.panel? 0 = some ((Panel.added (vacant (.empty .standard) 16) none).opened 1) := by
    decide +kernel
  have editing : ∀ c ∈ commands, c.ends 0 = false := by decide +kernel
  obtain ⟨q, hq, hqe, -, replaced, -⟩ := open_draft_kept_or_replaced _ _ _ hp rfl editing
  refine ⟨_, hp, rfl, editing, q, hq, hqe, ?_⟩
  exact replaced (commands.take 2) (.onPanel 0 .sync) (commands.drop 3) rfl (by decide +kernel)
    (by decide +kernel)

/-- A stage is added while a draft is typed, and the draft is lost. -/
theorem open_draft_lost_to_stage :
    let s := (start ⟨.empty .standard, none⟩ 16).runAll [.onPanel 0 .openEditor]
    let commands : List Command :=
      [.onPanel 0 (.edit (some "orders") none), .addStage "read" ⟨"csv", "source"⟩,
        .onPanel 0 .sync]
    (s.panel? 0).any (·.expanded) = true ∧ (∀ c ∈ commands, c.ends 0 = false) ∧
      commands.foldl (fun m c => c.typed 0 m) ⟨"", ""⟩ = ⟨"orders", ""⟩ ∧
      ((s.runAll commands).panel? 0).map (·.metadata) = some ⟨"", ""⟩ := by
  decide +kernel

end Session
end PipelineEditor
