import PipelineEditor.Proofs.Session.Panels

/-! Requests for the focus of a panel. Making one, giving one up and opening the editor are one kind
of change: of a single panel, the deferred actions and the journal. -/
namespace PipelineEditor

namespace Panel

/-- The panel without a request for the focus. -/
def unfocused (p : Panel) : Panel := { p with focusReady := false, awaited := none }

/-- The panel with one request for the focus, by its handle. -/
def asking (h : Handle) (p : Panel) : Panel := { p with focusReady := false, awaited := some h }

/-- The panel with its editor open. The first time after a copy it asks for the focus. -/
def opened (h : Handle) (p : Panel) : Panel :=
  { p with
    expanded := true
    invalidName := false
    focusReady := false
    awaited := p.clonedFrom.map fun _ => h
    clonedFrom := none }

end Panel

namespace Session

/-- A change of one panel together with what it asks of the deferred actions. -/
def refocus (s : Session) (i : Nat) (f : Panel → Panel) (d : Deferral) (ts : List Trace) : Session :=
  { s.modifyPanel i f with deferral := d, journal := s.journal ++ ts }

theorem panel?_refocus (s : Session) (i j : Nat) (f : Panel → Panel) (d : Deferral)
    (ts : List Trace) :
    (s.refocus i f d ts).panel? j = if i = j then (s.panel? j).map f else s.panel? j :=
  panel?_modifyPanel s i j f

private theorem modifyPanel_refocus (s : Session) (i : Nat) (f g : Panel → Panel) (d : Deferral)
    (ts : List Trace) : (s.refocus i f d ts).modifyPanel i g = s.refocus i (g ∘ f) d ts := by
  simp only [refocus, modifyPanel, List.modify_modify_eq, Option.map_comp_map]

private theorem refocus_modifyPanel (s : Session) (i : Nat) (f g : Panel → Panel) (d : Deferral)
    (ts : List Trace) : (s.modifyPanel i f).refocus i g d ts = s.refocus i (g ∘ f) d ts := by
  simp only [refocus, modifyPanel, List.modify_modify_eq, Option.map_comp_map]

private theorem refocus_refocus (s : Session) (i : Nat) (f g : Panel → Panel) (d e : Deferral)
    (ts us : List Trace) :
    (s.refocus i f d ts).refocus i g e us = s.refocus i (g ∘ f) e (ts ++ us) := by
  simp only [refocus, modifyPanel, List.modify_modify_eq, Option.map_comp_map, List.append_assoc]

private theorem refocus_congr {s : Session} {i : Nat} {p : Panel} (hp : s.panel? i = some p)
    {f g : Panel → Panel} (h : f p = g p) (d : Deferral) (ts : List Trace) :
    s.refocus i f d ts = s.refocus i g d ts :=
  congrArg (fun t : Session => { t with deferral := d, journal := s.journal ++ ts })
    (modifyPanel_congr hp h)

/-- The deferred actions without that of a request. -/
def withdrawn (d : Deferral) (awaited : Option Handle) : Deferral :=
  awaited.elim d d.cancel

@[simp] theorem withdrawn_next (d : Deferral) (awaited : Option Handle) :
    (withdrawn d awaited).next = d.next := by
  cases awaited <;> rfl

/-- Giving up a request for the focus cancels it. -/
theorem dropFocus_eq {s : Session} {i : Nat} {p : Panel} (hp : s.panel? i = some p) :
    s.dropFocus i = s.refocus i Panel.unfocused (withdrawn s.deferral p.awaited)
      (p.awaited.toList.map .cancelled) := by
  rw [dropFocus, hp, Option.bind_some]
  cases p.awaited with
  | none =>
    rw [Option.toList_none, List.map_nil, refocus, List.append_nil]
    rfl
  | some h => rfl

private theorem start_refocus (s : Session) (i : Nat) :
    let (h, deferral) := s.deferral.start
    ({ s with deferral := deferral }.note (.deferred h) |>.modifyPanel i fun p =>
      { p with awaited := some h }) =
        s.refocus i (fun p => { p with awaited := some s.deferral.next }) s.deferral.start.2
          [.deferred s.deferral.next] := rfl

/-- A request for the focus takes the next handle, and the place of an earlier request. -/
theorem requestFocus_eq {s : Session} {i : Nat} {p : Panel} (hp : s.panel? i = some p) :
    s.requestFocus i = s.refocus i (Panel.asking s.deferral.next)
      (withdrawn s.deferral p.awaited).start.2
      (p.awaited.toList.map .cancelled ++ [.deferred s.deferral.next]) := by
  have next : (s.dropFocus i).deferral.next = s.deferral.next := by
    rw [dropFocus_eq hp]
    exact withdrawn_next _ _
  refine (start_refocus (s.dropFocus i) i).trans ?_
  rw [next, dropFocus_eq hp, refocus_refocus]
  rfl

/-- Opening the editor gives up a request for the focus, and makes one if it is the first time after
a copy. -/
theorem openEditor_eq {s : Session} {i : Nat} {p : Panel} (hp : s.panel? i = some p) :
    s.openEditor i =
      let d := withdrawn s.deferral p.awaited
      s.refocus i (Panel.opened s.deferral.next) (if p.clonedFrom.isSome then d.start.2 else d)
        (p.awaited.toList.map .cancelled ++
          if p.clonedFrom.isSome then [.deferred s.deferral.next] else []) := by
  let shown (p : Panel) : Panel := { p with expanded := true, invalidName := false }
  have hs : (s.modifyPanel i shown).panel? i = some (shown p) := by
    rw [panel?_modifyPanel_self, hp]; rfl
  have quiet : (s.modifyPanel i shown).dropFocus i =
      s.refocus i (Panel.unfocused ∘ shown) (withdrawn s.deferral p.awaited)
        (p.awaited.toList.map .cancelled) := by
    rw [dropFocus_eq hs, refocus_modifyPanel]; rfl
  have hq : (s.refocus i (Panel.unfocused ∘ shown) (withdrawn s.deferral p.awaited)
      (p.awaited.toList.map .cancelled)).panel? i = some (shown p).unfocused := by
    rw [panel?_refocus, if_pos rfl, hp]; rfl
  -- what is left after the old request is given up: the request of a copy, or nothing
  unfold openEditor
  rw [quiet]
  dsimp only
  rw [hq, Option.bind_some]
  cases hc : p.clonedFrom with
  | none =>
    rw [show (shown p).unfocused.clonedFrom = none from hc]
    simp only [Option.isSome_none, Bool.false_eq_true, if_false, List.append_nil]
    exact refocus_congr hp (by simp [Panel.unfocused, Panel.opened, shown, hc]) _ _
  | some name =>
    rw [show (shown p).unfocused.clonedFrom = some name from hc]
    dsimp only
    rw [modifyPanel_refocus]
    have hr : (s.refocus i ((fun p : Panel => { p with clonedFrom := none }) ∘
        Panel.unfocused ∘ shown) (withdrawn s.deferral p.awaited)
        (p.awaited.toList.map .cancelled)).panel? i =
          some { (shown p).unfocused with clonedFrom := none } := by
      rw [panel?_refocus, if_pos rfl, hp]; rfl
    rw [requestFocus_eq hr, refocus_refocus]
    simp only [Option.isSome_some, if_true]
    change s.refocus i _ (withdrawn s.deferral p.awaited).start.2
      (p.awaited.toList.map .cancelled ++ [.deferred (withdrawn s.deferral p.awaited).next]) = _
    rw [withdrawn_next]
    exact refocus_congr hp (by simp [Panel.unfocused, Panel.asking, Panel.opened, shown, hc,
      refocus]) _ _

end Session
end PipelineEditor
