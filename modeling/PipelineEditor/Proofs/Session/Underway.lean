import PipelineEditor.Proofs.Deferral
import PipelineEditor.Proofs.Session.Frame

/-! What commands make of the deferred actions, the queue and the journal. -/
namespace PipelineEditor

/-- The event that wakes a panel up. Observers are told by other means. -/
def Listener.wakeUp? : Listener → Option Event
  | .panel _ => some .changed
  | .observer _ => none

namespace Session

/-- The deferred actions, the queue and the journal. -/
def underway (s : Session) : Deferral × EventQueue × List Trace :=
  (s.deferral, s.queue, s.journal)

/-- The events that a change of the pipeline posts, one for each panel that was ever added. -/
def wakeUps (s : Session) : List Event :=
  s.listeners.filterMap Listener.wakeUp?

/-- What the journal has of a change to a pipeline. -/
def notices (s : Session) (p : Pipeline) : List Trace :=
  s.listeners.map fun l => .notified l p.name p.graph.stages.length

theorem underway_tellAll (s : Session) :
    s.tellAll.underway =
      (s.deferral, s.wakeUps.foldl EventQueue.post s.queue,
        s.journal ++ s.notices s.pipeline) := by
  unfold tellAll wakeUps notices
  generalize s.listeners = ls
  induction ls generalizing s with
  | nil => simp [underway]
  | cons l ls ih =>
    rw [List.foldl_cons, ih]
    cases l with
    | panel i => simp [tell, note, modifyPanel, post, Listener.wakeUp?]
    | observer i => simp [tell, note, List.filterMap_cons, Listener.wakeUp?]

def deferralAfter (s : Session) : Command → Deferral
  | .onPanel i .openEditor =>
    (s.panel? i).elim s.deferral fun p =>
      let d := withdrawn s.deferral p.awaited
      if p.clonedFrom.isSome then d.start.2 else d
  | .onPanel i .requestFocus =>
    (s.panel? i).elim s.deferral fun p => (withdrawn s.deferral p.awaited).start.2
  | .onPanel i .drop => (s.panel? i).elim s.deferral fun p => withdrawn s.deferral p.awaited
  | .addPanel clonedFrom => if clonedFrom.isSome then s.deferral.start.2 else s.deferral
  | .finishDeferred => s.deferral.finish.2
  | .giveWay h => s.deferral.giveWay h
  | .leave h => s.deferral.leave h
  | .fire h => (s.deferral.fire h).2
  | _ => s.deferral

/-- The events that a command posts, whether or not there is room for them. -/
def offered (s : Session) : Command → List Event
  | .post e => [e]
  | .fire h => if (s.deferral.fire h).1 then [.focusDue h] else []
  | .finishDeferred => s.deferral.finish.1.map .focusDue
  | c => if s.alters c then s.wakeUps else []

def queueAfter (s : Session) : Command → EventQueue
  | .pump => s.queue.drain.2
  | .closeQueue => s.queue.close
  | c => (s.offered c).foldl EventQueue.post s.queue

/-- What a command adds to the journal. -/
def recorded (s : Session) : Command → List Trace
  | .onPanel i .openEditor =>
    (s.panel? i).elim [] fun p => p.awaited.toList.map .cancelled ++
      if p.clonedFrom.isSome then [.deferred s.deferral.next] else []
  | .onPanel i .requestFocus =>
    (s.panel? i).elim [] fun p => p.awaited.toList.map .cancelled ++ [.deferred s.deferral.next]
  | .onPanel i .drop => (s.panel? i).elim [] fun p => p.awaited.toList.map .cancelled
  | .addPanel clonedFrom => if clonedFrom.isSome then [.deferred s.deferral.next] else []
  | c => if s.alters c then s.notices (s.pipelineAfter c) else []

private theorem post_all (s : Session) (hs : List Handle) :
    hs.foldl (fun s h => s.post (.focusDue h)) s =
      { s with queue := (hs.map Event.focusDue).foldl EventQueue.post s.queue } := by
  induction hs generalizing s with
  | nil => rfl
  | cons h hs ih => exact ih (s.post (.focusDue h))

private theorem underway_finishDeferred (s : Session) :
    s.finishDeferred.underway =
      (s.deferral.finish.2,
        (s.deferral.finish.1.map Event.focusDue).foldl EventQueue.post s.queue, s.journal) :=
  congrArg underway (post_all { s with deferral := s.deferral.finish.2 } s.deferral.finish.1)

private theorem underway_save {s : Session} {i : Nat} {p : Panel} (hp : s.panel? i = some p) :
    (s.save i).underway =
      (s.deferral, s.wakeUps.foldl EventQueue.post s.queue,
        s.journal ++ s.notices (s.pipeline.described p.metadata)) := by
  rw [save, hp]
  exact underway_tellAll _

private theorem underway_run (s : Session) (i : Nat) (operation : Operation) :
    (s.run i operation).underway = s.underway := by
  cases operation with
  | settings | exportDocument => rfl
  | save => exact (congrArg underway (saveDraft_eq s) :)
  | validate => exact (congrArg underway (validateFor_eq s i) :)
  | publish => exact (congrArg underway (publish_eq s) :)

private theorem queueAfter_onPanel (s : Session) (i : Nat) {c : PanelCommand}
    (h : c.saves = false) : s.queueAfter (.onPanel i c) = s.queue := by
  simp [queueAfter, offered, alters, h]

/-! Commands that leave no trace in the journal, and those that have no part in what is under way. -/

private theorem underway_silent {s t : Session} {c : Command}
    (ht : t.underway = (s.deferralAfter c, s.queueAfter c, s.journal)) (hj : s.recorded c = []) :
    t.underway = (s.deferralAfter c, s.queueAfter c, s.journal ++ s.recorded c) := by
  rw [ht, hj, List.append_nil]

private theorem underway_quiet {s t : Session} {c : Command} (ht : t.underway = s.underway)
    (hd : s.deferralAfter c = s.deferral) (hq : s.queueAfter c = s.queue)
    (hj : s.recorded c = []) :
    t.underway = (s.deferralAfter c, s.queueAfter c, s.journal ++ s.recorded c) := by
  apply underway_silent _ hj
  rw [ht, hd, hq]
  rfl

private theorem underway_onPanel {s : Session} {i : Nat} {p : Panel} (hp : s.panel? i = some p)
    (c : PanelCommand) :
    (s.onPanel i p c).2.underway =
      (s.deferralAfter (.onPanel i c), s.queueAfter (.onPanel i c),
        s.journal ++ s.recorded (.onPanel i c)) := by
  have saved (hs : c.saves = true) :
      (s.save i).underway = (s.deferralAfter (.onPanel i c), s.queueAfter (.onPanel i c),
        s.journal ++ s.recorded (.onPanel i c)) := by
    rw [underway_save hp]
    cases c with
    | save key | press key =>
      simp [deferralAfter, queueAfter, offered, recorded, alters, pipelineAfter, hp, hs]
    | _ => cases hs
  cases c with
  | openEditor =>
    change (s.openEditor i).underway = _
    rw [openEditor_eq hp, queueAfter_onPanel s i rfl, deferralAfter, recorded, hp]
    rfl
  | requestFocus =>
    change (s.requestFocus i).underway = _
    rw [requestFocus_eq hp, queueAfter_onPanel s i rfl, deferralAfter, recorded, hp]
    rfl
  | drop =>
    change (s.dropPanel i).underway = _
    rw [dropPanel, dropFocus_eq hp, queueAfter_onPanel s i rfl, deferralAfter, recorded, hp]
    rfl
  | save key => exact saved rfl
  | press key =>
    by_cases he : key = some Gesture.enter
    · change (s.press i key).2.underway = _
      rw [press, if_pos he]
      exact saved (by simp [PanelCommand.saves, he])
    · have saves : (PanelCommand.press key).saves = false := by simp [PanelCommand.saves, he]
      refine underway_quiet ?_ rfl (queueAfter_onPanel s i saves)
        (by simp [recorded, alters, saves])
      change (s.press i key).2.underway = _
      unfold press
      rw [if_neg he]
      split <;> rfl
  | run operation =>
    exact underway_quiet (underway_run s i operation) rfl (queueAfter_onPanel s i rfl)
      (by simp [recorded, alters, PanelCommand.saves])
  | _ =>
    exact underway_quiet rfl rfl (queueAfter_onPanel s i rfl)
      (by simp [recorded, alters, PanelCommand.saves])

/-- What a command makes of what is under way. -/
theorem underway_step (s : Session) (c : Command) :
    (s.step c).2.underway = (s.deferralAfter c, s.queueAfter c, s.journal ++ s.recorded c) := by
  cases c with
  | onPanel i command =>
    simp only [step]
    cases hp : s.panel? i with
    | none =>
      refine underway_quiet rfl ?_ ?_ ?_
      · cases command <;> simp [deferralAfter, hp]
      · simp [queueAfter, offered, alters, hp]
      · cases command <;> simp [recorded, alters, hp]
    | some p => exact underway_onPanel hp command
  | addPanel clonedFrom =>
    cases clonedFrom with
    | none => exact underway_quiet rfl rfl rfl rfl
    | some name =>
      change (s.addPanel (some name)).underway = _
      rw [addPanel_some]
      rfl
  | finishDeferred => exact underway_silent (underway_finishDeferred s) rfl
  | fire h =>
    refine underway_silent ?_ rfl
    simp only [step, queueAfter, offered, deferralAfter]
    split <;> rfl
  | pump =>
    refine underway_silent ?_ rfl
    exact deliver_keeps underway (fun _ _ _ => rfl) _ _
  | setMetadata m => exact underway_tellAll _
  | addStage name plugin =>
    simp only [step, addStage]
    cases hn : nextId? s.pipeline.graph.stages with
    | none =>
      exact underway_quiet rfl rfl (by simp [queueAfter, offered, alters, hn])
        (by simp [recorded, alters, hn])
    | some id =>
      have alters : s.alters (.addStage name plugin) = true := by rw [Session.alters, hn]; rfl
      simp only [queueAfter, offered, recorded, alters, if_true, pipelineAfter, hn]
      exact underway_tellAll _
  | saveDraft => exact underway_quiet (congrArg underway (saveDraft_eq s) :) rfl rfl rfl
  | publish => exact underway_quiet (congrArg underway (publish_eq s) :) rfl rfl rfl
  | validate verbose =>
    refine underway_quiet ?_ rfl rfl rfl
    simp only [step, validate]
    split <;> rfl
  | giveWay h | leave h | post e | closeQueue => exact underway_silent rfl rfl
  | observe | say messages | clearConsole | select id | deselect | showDisplay | closeExport =>
    exact underway_quiet rfl rfl rfl rfl

theorem deferral_step (s : Session) (c : Command) :
    (s.step c).2.deferral = s.deferralAfter c :=
  congrArg Prod.fst (underway_step s c)

/-- What every operation on deferred actions keeps is kept by every command. -/
theorem deferral_keeps (I : Deferral → Prop) (start : ∀ d, I d → I d.start.2)
    (cancel : ∀ d h, I d → I (d.cancel h)) (giveWay : ∀ d h, I d → I (d.giveWay h))
    (leave : ∀ d h, I d → I (d.leave h)) (fire : ∀ d h, I d → I (d.fire h).2)
    (finish : ∀ d, I d → I d.finish.2) {s : Session} (h : I s.deferral) (c : Command) :
    I (s.step c).2.deferral := by
  have withdraw (awaited : Option Handle) : I (withdrawn s.deferral awaited) := by
    cases awaited with
    | none => exact h
    | some g => exact cancel _ g h
  rw [deferral_step]
  cases c with
  | onPanel i command =>
    cases hp : s.panel? i with
    | none => cases command <;> simpa [deferralAfter, hp] using h
    | some p =>
      cases command with
      | openEditor =>
        simp only [deferralAfter, hp, Option.elim_some]
        split
        · exact start _ (withdraw p.awaited)
        · exact withdraw p.awaited
      | requestFocus =>
        simp only [deferralAfter, hp, Option.elim_some]
        exact start _ (withdraw p.awaited)
      | drop =>
        simp only [deferralAfter, hp, Option.elim_some]
        exact withdraw p.awaited
      | _ => exact h
  | addPanel clonedFrom =>
    cases clonedFrom with
    | none => exact h
    | some name => exact start _ h
  | finishDeferred => exact finish _ h
  | giveWay g => exact giveWay _ g h
  | leave g => exact leave _ g h
  | fire g => exact fire _ g h
  | _ => exact h

/-- No handle that was given out is owed again. -/
theorem later_step (s : Session) (c : Command) :
    s.deferral.Later (s.step c).2.deferral := by
  apply deferral_keeps s.deferral.Later _ _ _ _ _ _ (.refl _)
  · exact fun d hd => hd.trans d.later_start
  · exact fun d g hd => hd.trans (d.later_cancel g)
  · exact fun d g hd => hd.trans (d.later_giveWay g)
  · exact fun d g hd => hd.trans (d.later_leave g)
  · exact fun d g hd => hd.trans (d.later_fire g)
  · exact fun d hd => hd.trans d.later_finish

theorem later_runAll (s : Session) (commands : List Command) :
    s.deferral.Later (s.runAll commands).deferral := by
  apply runAll_keeps (fun t => s.deferral.Later t.deferral) _ (.refl _)
  exact fun t c ht => ht.trans (later_step t c)

theorem queue_step (s : Session) (c : Command) : (s.step c).2.queue = s.queueAfter c :=
  congrArg (fun u => u.2.1) (underway_step s c)

theorem journal_step (s : Session) (c : Command) :
    (s.step c).2.journal = s.journal ++ s.recorded c :=
  congrArg (fun u => u.2.2) (underway_step s c)

end Session
end PipelineEditor
