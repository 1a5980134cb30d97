import PipelineEditor.Proofs.Session.Asked

/-! What a panel keeps for itself: whether the settings are shown and the editor is open, the mark of
an invalid name, and its request for the focus. Other panels and rebuilds leave all of it alone. -/
namespace PipelineEditor

/-- Whether a panel command opens the editor, or closes it. -/
def PanelCommand.turnsEditor? : PanelCommand → Option Bool
  | .openEditor => some true
  | .save _ | .reset _ => some false
  | .press key => if key = some Gesture.enter ∨ key = some Gesture.escape then some false else none
  | _ => none

namespace Panel

/-! The settings. -/

private theorem received_settings (p : Panel) (pipeline : Pipeline) (e : Event) :
    (p.received pipeline e).settingsVisible = p.settingsVisible :=
  received_keeps (·.settingsVisible) (fun _ _ _ => rfl) (fun _ => rfl) p pipeline e

private theorem after_settings (s : Session) (p : Panel) (c : PanelCommand) :
    (p.after s c).settingsVisible =
      if c == .run .settings then !p.settingsVisible else p.settingsVisible := by
  cases c with
  | sync => exact received_settings p s.pipeline .changed
  | receive e => exact received_settings p s.pipeline e
  | press key =>
    simp only [after]
    split
    · rfl
    · split <;> rfl
  | run operation =>
    cases operation with
    | validate =>
      simp only [after, operated]
      split <;> rfl
    | _ => rfl
  | _ => rfl

private theorem own_settings :
    Own (·.settingsVisible) fun visible request =>
      if request.2 == .run .settings then !visible else visible where
  after := after_settings
  told _ := rfl
  received := received_settings
  copied _ _ := rfl

/-! The editor. -/

private theorem received_editor (p : Panel) (pipeline : Pipeline) (e : Event) :
    (p.received pipeline e).expanded = p.expanded :=
  received_keeps (·.expanded) (fun _ _ _ => rfl) (fun _ => rfl) p pipeline e

private theorem after_editor (s : Session) (p : Panel) (c : PanelCommand) :
    (p.after s c).expanded = c.turnsEditor?.getD p.expanded := by
  cases c with
  | sync => exact received_editor p s.pipeline .changed
  | receive e => exact received_editor p s.pipeline e
  | press key =>
    simp only [after, PanelCommand.turnsEditor?]
    by_cases enter : key = some Gesture.enter
    · rw [if_pos enter, if_pos (.inl enter)]
      rfl
    · by_cases escape : key = some Gesture.escape
      · rw [if_neg enter, if_pos escape, if_pos (.inr escape)]
        rfl
      · rw [if_neg enter, if_neg escape, if_neg (not_or.2 ⟨enter, escape⟩)]
        rfl
  | run operation => exact operated_keeps (·.expanded) (fun _ _ _ => rfl) p s operation
  | _ => rfl

private theorem own_editor :
    Own (·.expanded) fun expanded request => request.2.turnsEditor?.getD expanded where
  after := after_editor
  told _ := rfl
  received := received_editor
  copied _ _ := rfl

/-! The request for the focus. -/

/-- The request of a panel, and whether its focus is due. -/
private def focus (p : Panel) : Option Handle × Bool :=
  (p.awaited, p.focusReady)

private theorem focus_received (p : Panel) (pipeline : Pipeline) (e : Event) :
    (∃ h, p.awaited = some h ∧ e = .focusDue h ∧ (p.received pipeline e).focus = (none, true)) ∨
      (p.received pipeline e).focus = p.focus := by
  cases e with
  | changed => exact .inr (synced_keeps focus (fun _ _ _ => rfl) p pipeline)
  | focusDue h =>
    simp only [received]
    split
    next waits => exact .inl ⟨h, waits, rfl, rfl⟩
    · exact .inr rfl
  | info text => exact .inr rfl
  | failed report => exact .inr rfl

private theorem focus_received_all (p : Panel) (pipeline : Pipeline) (events : List Event) :
    let q := events.foldl (fun q e => q.received pipeline e) p
    (∃ h, p.awaited = some h ∧ .focusDue h ∈ events ∧ q.focus = (none, true)) ∨
      q.focus = p.focus := by
  induction events generalizing p with
  | nil => exact .inr rfl
  | cons e es ih =>
    rcases focus_received p pipeline e with ⟨h, waits, rfl, due⟩ | kept
    · -- the request is answered, and no later event can answer it again
      have answered : (p.received pipeline (.focusDue h)).awaited = none := congrArg Prod.fst due
      rcases ih (p.received pipeline (.focusDue h)) with ⟨g, again, -, -⟩ | same
      · cases answered.symm.trans again
      · exact .inl ⟨h, waits, List.mem_cons_self, same.trans due⟩
    · have waiting : (p.received pipeline e).awaited = p.awaited := congrArg Prod.fst kept
      rcases ih (p.received pipeline e) with ⟨h, waits, posted, due⟩ | same
      · exact .inl ⟨h, waiting.symm.trans waits, List.mem_cons_of_mem e posted, due⟩
      · exact .inr (same.trans kept)

private theorem focus_caughtUp (p : Panel) (pipeline : Pipeline) (events : List Event) :
    let q := p.caughtUp pipeline events
    (∃ h, p.awaited = some h ∧ .focusDue h ∈ events ∧ q.awaited = none ∧ q.focusReady = true) ∨
      (q.awaited = p.awaited ∧ q.focusReady = p.focusReady) := by
  have same := synced_keeps focus (fun _ _ _ => rfl)
    (events.foldl (fun q e => q.received pipeline e) p) pipeline
  rcases focus_received_all p pipeline events with ⟨h, waits, posted, due⟩ | kept
  · exact .inl ⟨h, waits, posted, Prod.mk.inj (same.trans due)⟩
  · exact .inr (Prod.mk.inj (same.trans kept))

private theorem caughtUp_mark (p : Panel) (pipeline : Pipeline) (events : List Event) :
    (p.caughtUp pipeline events).invalidName = p.invalidName := by
  have received (q : Panel) (e : Event) : (q.received pipeline e).invalidName = q.invalidName :=
    received_keeps (·.invalidName) (fun _ _ _ => rfl) (fun _ => rfl) q pipeline e
  apply caughtUp_keeps fun q => q.invalidName = p.invalidName
  · exact fun q e _ hq => (received q e).trans hq
  · exact fun q hq => (received q .changed).trans hq
  · rfl

end Panel

/-- What is switched on and off is on after an odd number of times. -/
private theorem foldl_switch {α : Type} (f : α → Bool) (l : List α) (b : Bool) :
    l.foldl (fun b a => if f a then !b else b) b = (b ^^ decide (l.countP f % 2 = 1)) := by
  induction l generalizing b with
  | nil => simp
  | cons a l ih =>
    rw [List.foldl_cons, ih, List.countP_cons]
    cases f a with
    | false => simp
    | true =>
      have parity : (l.countP f + 1) % 2 = 1 ↔ ¬ l.countP f % 2 = 1 := by omega
      simp only [if_true, parity, decide_not]
      cases b <;> simp

namespace Session

/-- A command that is not given to a panel and hands over no events can do no more to it than tell
it that the pipeline has changed. -/
theorem panel?_step_of_other {s : Session} (hs : s.Attentive) {i : Nat} {p : Panel}
    (hp : s.panel? i = some p) {c : Command} (hd : c ≠ .pump)
    (hc : ∀ request, c ≠ .onPanel i request) :
    (s.step c).2.panel? i = some { p with stale := p.stale || s.alters c } := by
  have same : s.reached c i p = p := by
    cases c with
    | onPanel j request =>
      have other : j ≠ i := fun h => hc request (congrArg (Command.onPanel · request) h)
      exact if_neg other
    | pump => exact absurd rfl hd
    | _ => rfl
  rw [panel?_step_of_some hp (hc .drop), panelAfter, same]
  cases ha : s.alters c with
  | true =>
    rw [if_pos ⟨rfl, hs i p hp⟩, Bool.or_true]
    rfl
  | false =>
    rw [if_neg (fun h => Bool.noConfusion h.1), Bool.or_false]

/-- In every session a panel shows the settings if it was asked to turn them over an odd number of
times since it was added, and its editor is open if it was opened after it was closed last; that of a
copy is opened when the panel is added. A command that is not given to the panel, be it given to
another one, does no more than mark it as stale. Only the delivery of events can besides answer its
request for the focus, and leaves the mark of an invalid name. -/
theorem panels_keep_view_state (opening : Opening) (capacity : Nat) (commands : List Command)
    {i : Nat} {p : Panel} (hp : ((start opening capacity).runAll commands).panel? i = some p) :
    let s := (start opening capacity).runAll commands
    let requests := (opening.asked capacity i commands).map Prod.snd
    (p.settingsVisible = true ↔ requests.count (.run .settings) % 2 = 1) ∧
      (p.expanded = true ↔
        (requests.filterMap PanelCommand.turnsEditor?).getLast? = some true) ∧
      (∀ c, c ≠ .pump → (∀ request, c ≠ .onPanel i request) →
        (s.step c).2.panel? i = some { p with stale := p.stale || s.alters c }) ∧
      ∃ q, (s.step .pump).2.panel? i = some q ∧ q.invalidName = p.invalidName ∧
        ((∃ h, p.awaited = some h ∧ .focusDue h ∈ s.queue.drain.1 ∧ q.awaited = none ∧
            q.focusReady = true) ∨
          (q.awaited = p.awaited ∧ q.focusReady = p.focusReady)) := by
  intro s requests
  have attentive : s.Attentive :=
    runAll_keeps Attentive (fun _ c h => attentive_step h c) (attentive_start opening capacity)
      commands
  obtain ⟨_, settings⟩ := Panel.own_settings.of_start hp
  obtain ⟨_, editor⟩ := Panel.own_editor.of_start hp
  refine ⟨?_, ?_, fun c => panel?_step_of_other attentive hp, p.caughtUp s.pipeline s.queue.drain.1,
    ?_, Panel.caughtUp_mark _ _ _, Panel.focus_caughtUp _ _ _⟩
  · have counted : requests.count (.run .settings) =
        (opening.asked capacity i commands).countP fun request => request.2 == .run .settings := by
      rw [List.count, List.countP_map]
      rfl
    rw [settings, foldl_switch, ← counted]
    change (false ^^ decide _) = true ↔ _
    rw [Bool.false_xor, decide_eq_true_iff]
  · have turned : requests.filterMap PanelCommand.turnsEditor? =
        (opening.asked capacity i commands).filterMap fun request => request.2.turnsEditor? :=
      List.filterMap_map
    rw [editor, foldl_getD, ← turned, List.getLastD_eq_getLast?]
    change Option.getD _ false = true ↔ _
    cases (requests.filterMap PanelCommand.turnsEditor?).getLast? <;> simp
  · exact panel?_step_of_some hp (by simp)

/-- The panel of a copy turns the settings over three times and closes its editor, while another
panel opens its own and the pipeline changes. When the other one saves, the first is marked as
stale. -/
theorem panels_keep_view_state_beside :
    let opening : Opening := ⟨.empty .standard, some "orders"⟩
    let commands : List Command :=
      [.addPanel none, .onPanel 0 (.run .settings), .onPanel 1 .openEditor,
        .setMetadata ⟨"sales", ""⟩, .pump, .onPanel 0 (.press (some Gesture.escape)),
        .onPanel 0 (.run .settings), .onPanel 1 (.run .settings), .onPanel 0 (.run .settings)]
    ∃ p, ((start opening 4).runAll commands).panel? 0 = some p ∧ p.settingsVisible = true ∧
      ¬ p.expanded = true ∧
      (((start opening 4).runAll commands).step (.onPanel 1 (.save none))).2.panel? 0 =
        some { p with stale := true } := by
  intro opening commands
  have live : (((start opening 4).runAll commands).panel? 0).isSome = true := by decide +kernel
  obtain ⟨p, hp⟩ := Option.isSome_iff_exists.1 live
  obtain ⟨settings, editor, others, -⟩ := panels_keep_view_state opening 4 commands hp
  have changes : ((start opening 4).runAll commands).alters (.onPanel 1 (.save none)) = true := by
    decide +kernel
  have told := others (.onPanel 1 (.save none)) (by simp) (by simp)
  rw [changes, Bool.or_true] at told
  exact ⟨p, hp, settings.2 (by decide +kernel), mt editor.1 (by decide +kernel), told⟩

end Session
end PipelineEditor
