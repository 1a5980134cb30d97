import PipelineEditor.Session.Command

/-! Changes of single panels, the telling of all that are registered, and the delivery of events.
Telling and delivering are described by what becomes of the panel behind a number. -/
namespace PipelineEditor

namespace Panel

/-- The panel after it was told that the pipeline has changed. -/
def told (p : Panel) : Panel := { p with stale := true }

/-- The panel after events were handed to it and it was brought in step. -/
def caughtUp (p : Panel) (pipeline : Pipeline) (events : List Event) : Panel :=
  (events.foldl (fun p e => p.received pipeline e) p).synced pipeline

end Panel

namespace Session

@[simp] theorem panel?_mk (pipeline listeners console drafts published selected exportRequest panels
    deferral queue journal) (i : Nat) :
    (Session.mk pipeline listeners console drafts published selected exportRequest panels
      deferral queue journal).panel? i = panels[i]?.join := rfl

@[simp] theorem join_panels (s : Session) (i : Nat) : s.panels[i]?.join = s.panel? i := rfl

@[simp] theorem panel?_note (s : Session) (t : Trace) (i : Nat) : (s.note t).panel? i = s.panel? i :=
  rfl

theorem panel?_modifyPanel_self (s : Session) (i : Nat) (f : Panel → Panel) :
    (s.modifyPanel i f).panel? i = (s.panel? i).map f := by
  rw [panel?_modifyPanel, if_pos rfl]

theorem panel?_modifyPanel_of_ne (s : Session) {i j : Nat} (f : Panel → Panel) (h : i ≠ j) :
    (s.modifyPanel i f).panel? j = s.panel? j := by
  rw [panel?_modifyPanel, if_neg h]

theorem modifyPanel_id (s : Session) (i : Nat) : s.modifyPanel i id = s := by
  unfold modifyPanel
  rw [Option.map_id, List.modify_id]

theorem modifyPanel_modifyPanel (s : Session) (i : Nat) (f g : Panel → Panel) :
    (s.modifyPanel i f).modifyPanel i g = s.modifyPanel i (g ∘ f) := by
  unfold modifyPanel
  simp only [List.modify_modify_eq, Option.map_comp_map]

/-- Two changes of a panel are one when they make the same of it, if it is there. -/
theorem modifyPanel_ext {s : Session} {i : Nat} {f g : Panel → Panel}
    (h : ∀ p, s.panel? i = some p → f p = g p) : s.modifyPanel i f = s.modifyPanel i g := by
  have panels : s.panels.modify i (Option.map f) = s.panels.modify i (Option.map g) := by
    apply List.ext_getElem?
    intro j
    rw [List.getElem?_modify, List.getElem?_modify]
    by_cases hj : i = j
    · subst hj
      cases hi : s.panels[i]? with
      | none => rfl
      | some slot =>
        cases slot with
        | none => rfl
        | some p => simp [h p (join_panels s i ▸ Option.join_eq_some_iff.2 hi)]
    · simp [hj]
  unfold modifyPanel
  rw [panels]

theorem modifyPanel_congr {s : Session} {i : Nat} {p : Panel} (hp : s.panel? i = some p)
    {f g : Panel → Panel} (h : f p = g p) : s.modifyPanel i f = s.modifyPanel i g := by
  refine modifyPanel_ext fun q hq => ?_
  obtain rfl := Option.some.inj (hp.symm.trans hq)
  exact h

/-- Nothing changes when the panel stays as it is, if it is there. -/
theorem modifyPanel_eq_self {s : Session} {i : Nat} {f : Panel → Panel}
    (h : ∀ p, s.panel? i = some p → f p = p) : s.modifyPanel i f = s :=
  (modifyPanel_ext h).trans (modifyPanel_id s i)

/-! Telling the listeners. -/

private theorem tell_keeps {α : Type} (view : Session → α)
    (note : ∀ s t, view (s.note t) = view s) (post : ∀ s e, view (s.post e) = view s)
    (modify : ∀ s i f, view (s.modifyPanel i f) = view s) (s : Session) (l : Listener) :
    view (s.tell l) = view s := by
  cases l with
  | panel i => exact (post _ _).trans ((modify _ _ _).trans (note _ _))
  | observer i => exact note _ _

/-- What notes, events and changes of panels leave alone is left alone by telling all listeners. -/
theorem tellAll_keeps {α : Type} (view : Session → α)
    (note : ∀ s t, view (s.note t) = view s) (post : ∀ s e, view (s.post e) = view s)
    (modify : ∀ s i f, view (s.modifyPanel i f) = view s) (s : Session) :
    view s.tellAll = view s := by
  unfold tellAll
  generalize s.listeners = ls
  induction ls generalizing s with
  | nil => rfl
  | cons l ls ih => exact (ih _).trans (tell_keeps view note post modify s l)

private theorem panel?_tell (s : Session) (l : Listener) (i : Nat) :
    (s.tell l).panel? i = (s.panel? i).map fun p => if l = .panel i then p.told else p := by
  cases l with
  | panel j =>
    change ((s.note _).modifyPanel j Panel.told).panel? i = _
    rw [panel?_modifyPanel, panel?_note]
    by_cases h : j = i <;> simp [h]
  | observer j =>
    change (s.note _).panel? i = _
    simp

/-- The panels whose listeners are registered are told, and no others. -/
theorem panel?_tellAll (s : Session) (i : Nat) :
    s.tellAll.panel? i =
      (s.panel? i).map fun p => if .panel i ∈ s.listeners then p.told else p := by
  unfold tellAll
  generalize s.listeners = ls
  induction ls generalizing s with
  | nil => simp
  | cons l ls ih =>
    rw [List.foldl_cons, ih, panel?_tell, Option.map_map]
    congr 1
    funext p
    by_cases hl : l = .panel i <;> by_cases hi : Listener.panel i ∈ ls <;>
      simp [hl, hi, Panel.told, eq_comm]

/-- What events leave alone is left alone by the end of all deferred actions. -/
theorem finishDeferred_keeps {α : Type} (view : Session → α)
    (post : ∀ s e, view (s.post e) = view s) (s : Session) :
    view s.finishDeferred = view { s with deferral := s.deferral.finish.2 } := by
  change view (s.deferral.finish.1.foldl (fun s h => s.post (.focusDue h))
    { s with deferral := s.deferral.finish.2 }) = _
  generalize s.deferral.finish.1 = hs
  generalize ({ s with deferral := s.deferral.finish.2 } : Session) = t
  induction hs generalizing t with
  | nil => rfl
  | cons h hs ih => exact (ih _).trans (post t _)

/-! Bringing panels up to date. -/

theorem receive_all (s : Session) (i : Nat) (events : List Event) :
    events.foldl (fun s e => s.receive i e) s =
      s.modifyPanel i fun p => events.foldl (fun p e => p.received s.pipeline e) p := by
  induction events generalizing s with
  | nil => exact (modifyPanel_id s i).symm
  | cons e es ih =>
    rw [List.foldl_cons, ih]
    exact modifyPanel_modifyPanel s i _ _

/-- Delivering events to a session brings its panels up to date one after the other. -/
theorem deliver_eq (s : Session) (events : List Event) :
    s.deliver events = (List.range s.panels.length).foldl
      (fun t i => t.modifyPanel i fun p => p.caughtUp t.pipeline events) s := by
  unfold deliver
  congr 1
  funext t i
  rw [receive_all]
  exact modifyPanel_modifyPanel t i _ _

/-- What changes of panels leave alone is left alone by delivering events. -/
theorem deliver_keeps {α : Type} (view : Session → α)
    (modify : ∀ s i f, view (s.modifyPanel i f) = view s) (s : Session) (events : List Event) :
    view (s.deliver events) = view s := by
  rw [deliver_eq]
  generalize List.range s.panels.length = is
  induction is generalizing s with
  | nil => rfl
  | cons i is ih => exact (ih _).trans (modify s i _)

/-- Changes all live panels. -/
def modifyAll (s : Session) (f : Panel → Panel) : Session :=
  { s with panels := s.panels.map (Option.map f) }

theorem panel?_modifyAll (s : Session) (f : Panel → Panel) (i : Nat) :
    (s.modifyAll f).panel? i = (s.panel? i).map f := by
  change (s.panels.map (Option.map f))[i]?.join = s.panels[i]?.join.map f
  rw [List.getElem?_map]
  cases s.panels[i]? <;> rfl

theorem modifyAll_modifyAll (s : Session) (f g : Panel → Panel) :
    (s.modifyAll f).modifyAll g = s.modifyAll (g ∘ f) := by
  unfold modifyAll
  simp only [List.map_map, Option.map_comp_map]

private theorem getElem?_foldl_modify {α : Type} (f : α → α) (l : List α) (n k : Nat) :
    ((List.range n).foldl (fun l i => l.modify i f) l)[k]? =
      if k < n then l[k]?.map f else l[k]? := by
  induction n with
  | zero => rfl
  | succ n ih =>
    rw [List.range_succ, List.foldl_append, List.foldl_cons, List.foldl_nil, List.getElem?_modify, ih]
    by_cases hk : n = k
    · subst hk
      simp
    · have same : k < n + 1 ↔ k < n := by omega
      simp only [hk, if_false, id_map', same]

private theorem foldl_modify {α : Type} (f : α → α) (l : List α) :
    (List.range l.length).foldl (fun l i => l.modify i f) l = l.map f := by
  apply List.ext_getElem?
  intro k
  rw [getElem?_foldl_modify, List.getElem?_map]
  split
  · rfl
  next h => rw [List.getElem?_eq_none (by omega), Option.map_none]

/-- Panels that are changed one after the other are all changed. -/
theorem foldl_modifyPanel (s : Session) (f : Pipeline → Panel → Panel) :
    (List.range s.panels.length).foldl (fun t i => t.modifyPanel i (f t.pipeline)) s =
      s.modifyAll (f s.pipeline) := by
  have panels (is : List Nat) (t : Session) :
      is.foldl (fun t i => t.modifyPanel i (f t.pipeline)) t =
        { t with panels := is.foldl (fun ps i => ps.modify i (Option.map (f t.pipeline))) t.panels } := by
    induction is generalizing t with
    | nil => rfl
    | cons i is ih => exact ih _
  rw [panels, foldl_modify]
  rfl

theorem deliver_eq_modifyAll (s : Session) (events : List Event) :
    s.deliver events = s.modifyAll fun p => p.caughtUp s.pipeline events :=
  (deliver_eq s events).trans (foldl_modifyPanel s fun pipeline p => p.caughtUp pipeline events)

theorem panel?_eq_none_of_length_le (s : Session) (i : Nat) (h : s.panels.length ≤ i) :
    s.panel? i = none := by
  rw [← join_panels, List.getElem?_eq_none h]
  rfl

theorem panel?_deliver (s : Session) (events : List Event) (i : Nat) :
    (s.deliver events).panel? i = (s.panel? i).map fun p => p.caughtUp s.pipeline events := by
  rw [deliver_eq_modifyAll, panel?_modifyAll]

end Session
end PipelineEditor
