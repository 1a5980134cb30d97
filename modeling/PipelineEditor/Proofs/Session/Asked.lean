import Mathlib.Data.List.Induction
import PipelineEditor.Proofs.Session.Listeners

/-! What a panel was asked to do since it was added. A part of a panel that nothing else touches is
made by these requests, one after the other. -/
namespace PipelineEditor

namespace Session

/-- What a command asks of a panel, with the panel as it is then. A panel of a copy is asked to open
its editor when it is added. -/
def asked? (s : Session) (i : Nat) : Command → Option (Panel × PanelCommand)
  | .onPanel j command => if j = i then (s.panel? i).map fun p => (p, command) else none
  | .addPanel (some name) =>
    if i = s.panels.length then some (s.unopenedPanel name, .openEditor) else none
  | _ => none

/-- What a row of commands asks of a panel. -/
def asked (s : Session) (i : Nat) : List Command → List (Panel × PanelCommand)
  | [] => []
  | c :: cs => (s.asked? i c).toList ++ (s.step c).2.asked i cs

theorem asked_concat (s : Session) (i : Nat) (commands : List Command) (c : Command) :
    s.asked i (commands ++ [c]) =
      s.asked i commands ++ ((s.runAll commands).asked? i c).toList := by
  induction commands generalizing s with
  | nil => exact List.append_nil _
  | cons d ds ih =>
    rw [List.cons_append, asked, ih, asked, List.append_assoc]
    rfl

/-- Nothing was asked of a panel that is still to come. -/
theorem asked_of_length_le {s : Session} {i : Nat} {commands : List Command}
    (h : (s.runAll commands).panels.length ≤ i) : s.asked i commands = [] := by
  induction commands using List.reverseRecOn with
  | nil => rfl
  | append_singleton commands c ih =>
    rw [runAll_concat, length_step] at h
    rw [asked_concat, ih (by omega), List.nil_append]
    cases c with
    | onPanel j command =>
      have absent := panel?_eq_none_of_length_le _ i (Nat.le_of_add_right_le h)
      simp only [asked?, absent, Option.map_none, ite_self, Option.toList_none]
    | addPanel clonedFrom =>
      have later : i ≠ (s.runAll commands).panels.length := by
        simp only [Command.addsPanel, if_true] at h
        omega
      cases clonedFrom with
      | none => rfl
      | some name => rw [asked?, if_neg later, Option.toList_none]
    | _ => rfl

end Session

/-- What a panel was asked in a session on an opened pipeline, from the time it was added. -/
def Opening.asked (opening : Opening) (capacity i : Nat) (commands : List Command) :
    List (Panel × PanelCommand) :=
  (Session.vacant opening.pipeline capacity).asked i (.addPanel opening.clonedFrom :: commands)

/-- A part of a panel that requests change, each in a way of its own, and nothing else. -/
structure Panel.Own {α : Type} (view : Panel → α) (act : α → Panel × PanelCommand → α) : Prop where
  after : ∀ s p c, view (p.after s c) = act (view p) (p, c)
  told : ∀ p, view p.told = view p
  received : ∀ p pipeline e, view (p.received pipeline e) = view p
  copied : ∀ (p : Panel) name, view { p with clonedFrom := name } = view p

namespace Panel.Own

variable {α : Type} {view : Panel → α} {act : α → Panel × PanelCommand → α}

private theorem caughtUp (own : Own view act) (p : Panel) (pipeline : Pipeline)
    (events : List Event) : view (p.caughtUp pipeline events) = view p := by
  apply caughtUp_keeps fun q => view q = view p
  · exact fun q e _ hq => (own.received q pipeline e).trans hq
  · exact fun q hq => (own.received q pipeline .changed).trans hq
  · rfl

private theorem panelAfter (own : Own view act) {s : Session} {c : Command} {i : Nat} {p : Panel}
    (hp : s.panel? i = some p) :
    view (s.panelAfter c i p) = (s.asked? i c).toList.foldl act (view p) := by
  have reached : view (s.reached c i p) = (s.asked? i c).toList.foldl act (view p) := by
    cases c with
    | onPanel j command =>
      simp only [Session.reached, Session.asked?, hp]
      split
      · exact own.after s p command
      · rfl
    | addPanel clonedFrom =>
      have old : i ≠ s.panels.length := by
        rintro rfl
        rw [Session.panel?_eq_none_of_length_le s _ (Nat.le_refl _)] at hp
        cases hp
      cases clonedFrom with
      | none => rfl
      | some name => simp [Session.reached, Session.asked?, old]
    | pump => exact own.caughtUp p s.pipeline _
    | _ => rfl
  unfold Session.panelAfter
  split
  · exact (own.told _).trans reached
  · exact reached

private theorem added (own : Own view act) (s : Session) (clonedFrom : Option String) :
    view (.added s clonedFrom) =
      (s.asked? s.panels.length (.addPanel clonedFrom)).toList.foldl act
        (view (.added s none)) := by
  cases clonedFrom with
  | none => rfl
  | some name =>
    rw [Session.asked?, if_pos rfl]
    exact (own.after s (s.unopenedPanel name) .openEditor).trans
      (congrArg (act · _) (own.copied _ _))

private theorem runAll (own : Own view act) {s : Session} (empty : s.panels = [])
    {commands : List Command} {i : Nat} {q : Panel} (hq : (s.runAll commands).panel? i = some q) :
    ∃ t, view q = (s.asked i commands).foldl act (view (.added t none)) := by
  induction commands using List.reverseRecOn generalizing q with
  | nil =>
    have none : s.panel? i = none := Session.panel?_eq_none_of_length_le s i (by simp [empty])
    cases none.symm.trans hq
  | append_singleton commands c ih =>
    rw [Session.runAll_concat] at hq
    simp only [Session.asked_concat, List.foldl_append]
    rcases Session.panel?_step_some hq with ⟨p, hp, -, rfl⟩ | ⟨clonedFrom, rfl, rfl, rfl⟩
    · obtain ⟨t, before⟩ := ih hp
      exact ⟨t, by rw [own.panelAfter hp, before]⟩
    · rw [Session.asked_of_length_le (Nat.le_refl _)]
      exact ⟨_, own.added _ clonedFrom⟩

/-- In every session such a part of a panel is what all requests since it was added made of it. -/
theorem of_start (own : Own view act) {opening : Opening} {capacity : Nat}
    {commands : List Command} {i : Nat} {p : Panel}
    (hp : ((Session.start opening capacity).runAll commands).panel? i = some p) :
    ∃ t, view p = (opening.asked capacity i commands).foldl act (view (.added t none)) :=
  own.runAll rfl hp

end Panel.Own

/-- What is set now and then is as it was set last. -/
theorem foldl_getD {α β : Type} (f : α → Option β) (b : β) (l : List α) :
    l.foldl (fun b a => (f a).getD b) b = (l.filterMap f).getLastD b := by
  induction l generalizing b with
  | nil => rfl
  | cons a l ih =>
    rw [List.foldl_cons, ih, List.filterMap_cons]
    cases f a with
    | none => rfl
    | some c => exact (List.getLastD_cons ..).symm

end PipelineEditor
