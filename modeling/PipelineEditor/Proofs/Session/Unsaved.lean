import PipelineEditor.Proofs.History
import PipelineEditor.Proofs.Session.Draft

/-! Drafts that are not saved. Two runs that type different texts into an editor, and do away with
them before the draft is saved, differ in that draft and in nothing else. -/
namespace PipelineEditor

/-- Whether a panel command does away with the draft of its panel without saving it. Bringing the
panel in step does so if it is stale. -/
def PanelCommand.discards (stale : Bool) : PanelCommand → Bool
  | .rebuild | .reset _ | .drop => true
  | .press key => key = some Gesture.escape
  | .sync | .receive .changed => stale
  | _ => false

namespace Command

/-- Whether a command types into the editor of a panel. -/
def types (i : Nat) : Command → Bool
  | .onPanel j (.edit _ _) => j = i
  | _ => false

/-- Whether a command saves the draft of a panel. -/
def savesDraft (i : Nat) : Command → Bool
  | .onPanel j command => j = i && command.saves
  | _ => false

theorem types_cases {i : Nat} {c : Command} (h : c.types i = true) :
    ∃ name description, c = .onPanel i (.edit name description) := by
  unfold types at h
  split at h
  next j name description =>
    obtain rfl : j = i := of_decide_eq_true h
    exact ⟨name, description, rfl⟩
  · cases h

end Command

namespace Panel

/-- The panel with another draft. -/
def drafting (m : Metadata) (p : Panel) : Panel := { p with metadata := m }

private theorem synced_drafting (p : Panel) (m : Metadata) (pipeline : Pipeline) :
    (p.drafting m).synced pipeline =
      if p.stale then p.synced pipeline else (p.synced pipeline).drafting m := by
  cases h : p.stale <;> simp [synced, drafting, h, rebuilt]

/-- Being handed an event leaves the draft alone, unless it brings a stale panel in step. -/
private theorem received_drafting (p : Panel) (m : Metadata) (pipeline : Pipeline) (e : Event) :
    (p.drafting m).received pipeline e =
      if e = .changed ∧ p.stale = true then p.received pipeline e
      else (p.received pipeline e).drafting m := by
  cases e with
  | changed =>
    simp only [true_and]
    exact synced_drafting p m pipeline
  | focusDue h =>
    rw [if_neg fun hc => Event.noConfusion hc.1]
    by_cases ha : p.awaited = some h <;> simp [received, drafting, ha]
  | info text => exact (if_neg fun hc => Event.noConfusion hc.1).symm
  | failed report => exact (if_neg fun hc => Event.noConfusion hc.1).symm

private theorem received_stale {p : Panel} {e : Event} (h : ¬(e = .changed ∧ p.stale = true))
    (pipeline : Pipeline) : (p.received pipeline e).stale = p.stale := by
  cases e with
  | changed =>
    have current : p.stale = false := by simpa using h
    exact (synced_stale p pipeline).trans current.symm
  | focusDue handle => exact focusDue_keeps (·.stale) (fun _ => rfl) p pipeline handle
  | info text => rfl
  | failed report => rfl

private theorem caughtUp_drafting (p : Panel) (m : Metadata) (pipeline : Pipeline)
    (events : List Event) :
    (p.drafting m).caughtUp pipeline events =
      if p.stale then p.caughtUp pipeline events
      else (p.caughtUp pipeline events).drafting m := by
  unfold caughtUp
  induction events generalizing p with
  | nil => exact synced_drafting p m pipeline
  | cons e es ih =>
    rw [List.foldl_cons, List.foldl_cons, received_drafting]
    split
    next h => rw [if_pos h.2]
    next h => rw [ih, received_stale h]

end Panel

namespace Session

/-- Whether a command does away with the draft of a panel without saving it. -/
def discards (s : Session) (i : Nat) : Command → Bool
  | .onPanel j command => j = i && command.discards ((s.panel? i).any (·.stale))
  | .pump => (s.panel? i).any (·.stale)
  | _ => false

section

variable {s : Session} {i j : Nat} {m : Metadata} {p q : Panel}

/-! A session with another draft in one of its panels, and the operations on it. -/

private theorem edit_eq (s : Session) (i : Nat) (m : Metadata) :
    s.edit i m = s.modifyPanel i (·.drafting m) := rfl

private theorem edit_edit (s : Session) (i : Nat) (m n : Metadata) :
    (s.edit i m).edit i n = s.edit i n :=
  modifyPanel_modifyPanel s i _ _

private theorem edit_of_none (h : s.panel? i = none) : s.edit i m = s := by
  have panels : s.panels.modify i (Option.map (·.drafting m)) = s.panels := by
    apply List.ext_getElem?
    intro j
    rw [List.getElem?_modify]
    by_cases hj : i = j
    · subst hj
      cases hi : s.panels[i]? with
      | none => rfl
      | some o =>
        obtain rfl : o = none := by simpa [panel?, hi] using h
        simp
    · simp [hj]
  rw [edit_eq, modifyPanel, panels]

private theorem panel?_edit (hp : s.panel? i = some p) :
    (s.edit i m).panel? i = some (p.drafting m) := by
  rw [edit_eq, panel?_modifyPanel_self, hp]
  rfl

private theorem panel?_edit_of_ne (h : i ≠ j) : (s.edit i m).panel? j = s.panel? j :=
  panel?_modifyPanel_of_ne s _ h

private theorem edit_modifyPanel_of_ne (h : i ≠ j) (f : Panel → Panel) :
    (s.edit i m).modifyPanel j f = (s.modifyPanel j f).edit i m := by
  simp only [edit, modifyPanel, List.modify_modify_ne _ _ _ h]

/-- A change of a panel that does not look at the draft. -/
private theorem edit_modifyPanel (s : Session) {f : Panel → Panel}
    (hf : ∀ p, f (p.drafting m) = (f p).drafting m) :
    (s.edit i m).modifyPanel j f = (s.modifyPanel j f).edit i m := by
  by_cases h : i = j
  · subst h
    rw [edit_eq, edit_eq, modifyPanel_modifyPanel, modifyPanel_modifyPanel]
    exact congrArg (s.modifyPanel i) (funext hf)
  · exact edit_modifyPanel_of_ne h f

/-- A change of the panel with the draft that either does away with it or leaves another one. -/
private theorem edit_modifyPanel_self (hp : s.panel? i = some p) {f : Panel → Panel} (gone : Bool)
    {n : Metadata} (h : f (p.drafting m) = if gone then f p else (f p).drafting n) :
    (s.edit i m).modifyPanel i f =
      if gone then s.modifyPanel i f else (s.modifyPanel i f).edit i n := by
  rw [edit_eq, modifyPanel_modifyPanel]
  cases gone with
  | true => exact modifyPanel_congr hp h
  | false =>
    refine (modifyPanel_congr hp (g := Panel.drafting n ∘ f) h).trans ?_
    exact (modifyPanel_modifyPanel s i f _).symm

private theorem edit_tell (s : Session) (l : Listener) :
    (s.edit i m).tell l = (s.tell l).edit i m := by
  cases l with
  | panel j =>
    let noted := s.note (.notified (.panel j) s.pipeline.name s.pipeline.graph.stages.length)
    have marked : (noted.edit i m).modifyPanel j Panel.told =
        (noted.modifyPanel j Panel.told).edit i m := edit_modifyPanel noted fun _ => rfl
    exact congrArg (post · .changed) marked
  | observer j => rfl

private theorem edit_tellAll (s : Session) : (s.edit i m).tellAll = s.tellAll.edit i m := by
  unfold tellAll
  change s.listeners.foldl tell _ = _
  generalize s.listeners = ls
  induction ls generalizing s with
  | nil => rfl
  | cons l ls ih => rw [List.foldl_cons, List.foldl_cons, edit_tell, ih]

private theorem edit_setMetadata (s : Session) (n : Metadata) :
    (s.edit i m).setMetadata n = (s.setMetadata n).edit i m :=
  edit_tellAll { s with pipeline := s.pipeline.described n }

private theorem edit_refocus (s : Session) {f : Panel → Panel}
    (hf : ∀ p, f (p.drafting m) = (f p).drafting m) (d : Deferral) (ts : List Trace) :
    (s.edit i m).refocus j f d ts = (s.refocus j f d ts).edit i m :=
  congrArg (fun t : Session => { t with deferral := d, journal := s.journal ++ ts })
    (edit_modifyPanel s hf)

private theorem edit_openEditor (hp : s.panel? j = some p) (hq : (s.edit i m).panel? j = some q)
    (ha : q.awaited = p.awaited) (hc : q.clonedFrom = p.clonedFrom) :
    (s.edit i m).openEditor j = (s.openEditor j).edit i m := by
  rw [openEditor_eq hp, openEditor_eq hq, ha, hc]
  exact edit_refocus s (f := Panel.opened s.deferral.next) (fun _ => rfl) _ _

private theorem edit_requestFocus (hp : s.panel? j = some p)
    (hq : (s.edit i m).panel? j = some q) (ha : q.awaited = p.awaited) :
    (s.edit i m).requestFocus j = (s.requestFocus j).edit i m := by
  rw [requestFocus_eq hp, requestFocus_eq hq, ha]
  exact edit_refocus s (f := Panel.asking s.deferral.next) (fun _ => rfl) _ _

private theorem edit_saveDraft (s : Session) : (s.edit i m).saveDraft = s.saveDraft.edit i m := by
  unfold saveDraft
  change (if Text.blank s.pipeline.name then _ else _ : Session) = _
  split <;> rfl

private theorem edit_publish (s : Session) : (s.edit i m).publish = s.publish.edit i m := by
  simp only [publish, validate]
  change (if s.clearConsole.pipeline.isValid = true then _ else _ : Session) = _
  split <;> rfl

private theorem edit_run (s : Session) (operation : Operation) :
    (s.edit i m).run j operation = (s.run j operation).edit i m := by
  cases operation with
  | settings => exact edit_modifyPanel s fun _ => rfl
  | exportDocument => rfl
  | save => exact edit_saveDraft s
  | validate =>
    simp only [run, validateFor, validate]
    change (if s.clearConsole.pipeline.isValid = true then _ else _ : Session) = _
    split
    · rfl
    · exact edit_modifyPanel (s.clearConsole.say s.pipeline.problems) fun _ => rfl
  | publish =>
    change (s.edit i m).publish.checkName j = _
    rw [edit_publish]
    exact edit_modifyPanel s.publish fun _ => rfl

private theorem edit_dropPanel_of_ne (hp : s.panel? j = some p) (h : i ≠ j) :
    (s.edit i m).dropPanel j = (s.dropPanel j).edit i m := by
  have hq := (panel?_edit_of_ne (m := m) h).trans hp
  unfold dropPanel
  rw [dropFocus_eq hp, dropFocus_eq hq,
    edit_refocus s (f := Panel.unfocused) (fun _ => rfl)]
  simp only [edit, modifyPanel, List.modify_modify_ne _ _ _ h]

private theorem edit_dropPanel (hp : s.panel? i = some p) :
    (s.edit i m).dropPanel i = s.dropPanel i := by
  unfold dropPanel
  rw [dropFocus_eq hp, dropFocus_eq (panel?_edit hp)]
  simp only [refocus, edit, modifyPanel, List.modify_modify_eq]
  rfl

private theorem lt_length (hp : s.panel? i = some p) : i < s.panels.length := by
  refine Nat.lt_of_not_le fun h => ?_
  rw [panel?_eq_none_of_length_le s i h] at hp
  cases hp

/-- A panel that is added stands behind the one with the draft. -/
private theorem edit_append (hp : s.panel? i = some p) (o : Option Panel) (ls : List Listener) :
    { s.edit i m with panels := (s.edit i m).panels ++ [o], listeners := ls } =
      { s with panels := s.panels ++ [o], listeners := ls }.edit i m := by
  have there : i < s.panels.length := lt_length hp
  have panels (f : Option Panel → Option Panel) :
      s.panels.modify i f ++ [o] = (s.panels ++ [o]).modify i f := by
    apply List.ext_getElem?
    intro k
    rw [List.getElem?_modify, List.getElem?_append, List.getElem?_append, List.getElem?_modify,
      List.length_modify]
    by_cases hk : k < s.panels.length
    · rw [if_pos hk, if_pos hk]
    · simp [hk, show i ≠ k by omega]
  simp only [edit, modifyPanel, panels]

private theorem edit_addPanel (hp : s.panel? i = some p) (clonedFrom : Option String) :
    (s.edit i m).addPanel clonedFrom = (s.addPanel clonedFrom).edit i m := by
  have length : (s.edit i m).panels.length = s.panels.length := List.length_modify _ _ _
  cases clonedFrom with
  | none =>
    have added := edit_append (m := m) hp (some (.added s none))
      (s.listeners ++ [.panel s.panels.length])
    rw [← length] at added
    refine Eq.trans added ?_
    rw [length]
    rfl
  | some name =>
    rw [addPanel_some, addPanel_some, length]
    have added := edit_append (m := m) hp (some (s.unopenedPanel name))
      (s.listeners ++ [.panel s.panels.length])
    change Session.refocus { s.edit i m with
      panels := (s.edit i m).panels ++ [some (s.unopenedPanel name)]
      listeners := s.listeners ++ [.panel s.panels.length] } _ _ _ _ = _
    rw [added]
    exact edit_refocus _ (f := Panel.opened s.deferral.next) (fun _ => rfl) _ _

private theorem edit_finishDeferred (s : Session) :
    (s.edit i m).finishDeferred = s.finishDeferred.edit i m := by
  have all (hs : List Handle) (t : Session) :
      hs.foldl (fun s h => s.post (.focusDue h)) (t.edit i m) =
        (hs.foldl (fun s h => s.post (.focusDue h)) t).edit i m := by
    induction hs generalizing t with
    | nil => rfl
    | cons h hs ih => exact ih (t.post (.focusDue h))
  exact all _ { s with deferral := s.deferral.finish.2 }

/-- Bringing panels up to date one after the other does away with the draft of a stale panel when
its turn comes. -/
private theorem edit_caughtUp (hp : s.panel? i = some p) (events : List Event) (is : List Nat) :
    let all := fun t : Session =>
      is.foldl (fun t k => t.modifyPanel k fun p => p.caughtUp t.pipeline events) t
    all (s.edit i m) = if p.stale && is.contains i then all s else (all s).edit i m := by
  intro all
  induction is generalizing s p with
  | nil => simp [all]
  | cons k is ih =>
    let f (p : Panel) : Panel := p.caughtUp s.pipeline events
    simp only [all, List.foldl_cons]
    change is.foldl _ ((s.edit i m).modifyPanel k f) = if _ then is.foldl _ (s.modifyPanel k f)
      else (is.foldl _ (s.modifyPanel k f)).edit i m
    by_cases hk : i = k
    · subst hk
      rw [edit_modifyPanel_self hp _ (Panel.caughtUp_drafting p m s.pipeline events)]
      cases hs : p.stale with
      | true => simp
      | false =>
        have next : (s.modifyPanel i f).panel? i = some (f p) := by
          rw [panel?_modifyPanel_self, hp]
          rfl
        have current : (f p).stale = false := Panel.synced_stale _ _
        simpa [current] using ih next
    · have next : (s.modifyPanel k f).panel? i = some p := by
        rw [panel?_modifyPanel_of_ne s f (Ne.symm hk), hp]
      rw [edit_modifyPanel_of_ne hk]
      simpa [hk] using ih next

/-- Delivering events does away with the draft of a stale panel. -/
private theorem edit_deliver (hp : s.panel? i = some p) (events : List Event) :
    (s.edit i m).deliver events =
      if p.stale then s.deliver events else (s.deliver events).edit i m := by
  have length : (s.edit i m).panels.length = s.panels.length := List.length_modify _ _ _
  have there : (List.range s.panels.length).contains i = true := by
    rw [List.contains_iff_mem, List.mem_range]
    exact lt_length hp
  have all := edit_caughtUp (m := m) hp events (List.range s.panels.length)
  rw [there, Bool.and_true] at all
  rw [deliver_eq, deliver_eq, length]
  exact all

private theorem edit_reset (hp : s.panel? i = some p) : (s.edit i m).reset i = s.reset i := by
  unfold reset rebuild
  rw [modifyPanel_modifyPanel, modifyPanel_modifyPanel]
  exact edit_modifyPanel_self hp true (n := m) rfl

/-- A command given to another panel, which may save its own draft. -/
private theorem onPanel_edit_of_ne (h : i ≠ j) (hp : s.panel? j = some p) (c : PanelCommand) :
    (s.edit i m).onPanel j p c = ((s.onPanel j p c).1, (s.onPanel j p c).2.edit i m) := by
  have hq := (panel?_edit_of_ne (m := m) h).trans hp
  have saved : (s.edit i m).save j = (s.save j).edit i m := by
    unfold save
    rw [hp, hq]
    simp only [edit_setMetadata]
    exact edit_modifyPanel_of_ne h _
  have reset : (s.edit i m).reset j = (s.reset j).edit i m := by
    unfold reset rebuild
    rw [modifyPanel_modifyPanel, modifyPanel_modifyPanel]
    exact edit_modifyPanel_of_ne h _
  cases c with
  | openEditor => exact Prod.ext rfl (edit_openEditor hp hq rfl rfl)
  | requestFocus => exact Prod.ext rfl (edit_requestFocus hp hq rfl)
  | takeFocus =>
    refine Prod.ext ?_ (edit_modifyPanel_of_ne h _)
    simp only [onPanel, takeFocus, hp, hq]
  | save key => exact Prod.ext rfl saved
  | reset key => exact Prod.ext rfl reset
  | press key =>
    simp only [onPanel, press]
    split
    · exact Prod.ext rfl saved
    · split
      · exact Prod.ext rfl reset
      · rfl
  | run operation => exact Prod.ext rfl (edit_run s operation)
  | drop => exact Prod.ext rfl (edit_dropPanel_of_ne hp h)
  | _ => exact Prod.ext rfl (edit_modifyPanel_of_ne h _)

/-- A command given to the panel with the draft, which it does not save. -/
private theorem onPanel_edit (hp : s.panel? i = some p) {c : PanelCommand} (hc : c.saves = false) :
    (s.edit i m).onPanel i (p.drafting m) c =
      ((s.onPanel i p c).1,
        if c.discards p.stale then (s.onPanel i p c).2
        else (s.onPanel i p c).2.edit i ((Command.onPanel i c).typed i m)) := by
  have hq := panel?_edit (m := m) hp
  cases c with
  | edit name description =>
    refine Prod.ext rfl ?_
    simp only [Command.typed, if_true]
    exact (edit_edit s i _ _).trans (edit_edit s i _ _).symm
  | openEditor => exact Prod.ext rfl (edit_openEditor hp hq rfl rfl)
  | requestFocus => exact Prod.ext rfl (edit_requestFocus hp hq rfl)
  | rebuild => exact Prod.ext rfl (edit_modifyPanel_self hp true (n := m) rfl)
  | sync => exact Prod.ext rfl (edit_modifyPanel_self hp _ (Panel.synced_drafting p m s.pipeline))
  | receive e =>
    refine Prod.ext rfl ?_
    cases e with
    | changed => exact edit_modifyPanel_self hp _ (Panel.synced_drafting p m s.pipeline)
    | focusDue h =>
      refine edit_modifyPanel_self hp false ?_
      rw [Panel.received_drafting]
      rfl
    | info text => exact edit_modifyPanel s fun _ => rfl
    | failed report => exact edit_modifyPanel s fun _ => rfl
  | takeFocus =>
    refine Prod.ext ?_ (edit_modifyPanel s fun _ => rfl)
    simp only [onPanel, takeFocus, hp, hq]
    rfl
  | save key => cases hc
  | reset key => exact Prod.ext rfl (edit_reset hp)
  | press key =>
    have he : key ≠ some Gesture.enter := by simpa [PanelCommand.saves] using hc
    simp only [onPanel, press, if_neg he, PanelCommand.discards, decide_eq_true_eq]
    split
    · exact Prod.ext rfl (edit_reset hp)
    · rfl
  | run operation => exact Prod.ext rfl (edit_run s operation)
  | checkName => exact Prod.ext rfl (edit_modifyPanel s fun _ => rfl)
  | drop => exact Prod.ext rfl (edit_dropPanel hp)

/-- A command that does not save a draft answers the same whatever the draft is. It does away with
the draft, or leaves it as it is but for what it types. -/
theorem step_edit (hp : s.panel? i = some p) (m : Metadata) {c : Command}
    (hc : c.savesDraft i = false) :
    (s.edit i m).step c =
      ((s.step c).1,
        if s.discards i c then (s.step c).2 else (s.step c).2.edit i (c.typed i m)) := by
  cases c with
  | onPanel j command =>
    simp only [step]
    by_cases h : i = j
    · subst h
      have hs : command.saves = false := by simpa [Command.savesDraft] using hc
      simp only [panel?_edit hp, hp, onPanel_edit hp hs, discards]
      simp
    · have other : s.discards i (.onPanel j command) = false := by simp [discards, Ne.symm h]
      have typed : (Command.onPanel j command).typed i m = m := by
        cases command <;> simp [Command.typed, Ne.symm h]
      rw [panel?_edit_of_ne h, other, typed]
      cases hj : s.panel? j with
      | none => rfl
      | some q => exact onPanel_edit_of_ne h hj command
  | addPanel clonedFrom => exact Prod.ext rfl (edit_addPanel hp clonedFrom)
  | finishDeferred => exact Prod.ext rfl (edit_finishDeferred s)
  | fire h =>
    simp only [step]
    refine Prod.ext rfl ?_
    change (if (s.deferral.fire h).1 = true then _ else _ : Session) = _
    split <;> rfl
  | pump =>
    have drained := edit_deliver (m := m)
      (show { s with queue := s.queue.drain.2 }.panel? i = some p from hp) s.queue.drain.1
    refine Prod.ext rfl (drained.trans ?_)
    simp only [discards, hp, Option.any_some]
    rfl
  | setMetadata n => exact Prod.ext rfl (edit_setMetadata s n)
  | addStage name plugin =>
    have same : nextId? (s.edit i m).pipeline.graph.stages = nextId? s.pipeline.graph.stages := rfl
    simp only [step, addStage, same]
    cases nextId? s.pipeline.graph.stages with
    | none => rfl
    | some id =>
      exact Prod.ext rfl (edit_tellAll { s with pipeline := withStage s.pipeline id name plugin })
  | saveDraft => exact Prod.ext rfl (edit_saveDraft s)
  | publish => exact Prod.ext rfl (edit_publish s)
  | validate verbose =>
    simp only [step, validate]
    cases verbose <;> rfl
  | _ => rfl

end

/-- The differences between two rows of commands that run side by side: every text that was typed in
one way and another has been done away with. -/
def Discarded (s : Session) (i : Nat) (steps : List (Command × Command)) : Prop :=
  ∀ before x after, steps = before ++ x :: after → x.1 ≠ x.2 →
    ∃ between y rest, after = between ++ y :: rest ∧
      (s.runAll ((before ++ x :: between).map Prod.fst)).discards i y.1 = true

private theorem discarded_concat {s : Session} {i : Nat} {steps : List (Command × Command)}
    {x : Command × Command} (h : s.Discarded i (steps ++ [x])) :
    x.1 = x.2 ∧
      (s.Discarded i steps ∨ (s.runAll (steps.map Prod.fst)).discards i x.1 = true) := by
  constructor
  · refine Decidable.byContradiction fun hx => ?_
    obtain ⟨between, y, rest, hs, -⟩ := h steps x [] rfl hx
    simp at hs
  · by_cases hx : (s.runAll (steps.map Prod.fst)).discards i x.1 = true
    · exact .inr hx
    · refine .inl fun before y after hs hy => ?_
      obtain ⟨between, z, rest, ha, hz⟩ := h before y (after ++ [x]) (by simp [hs]) hy
      rcases concat_eq_cut_iff.1 ha with ⟨rfl, rfl, -⟩ | ⟨rest, -, ha⟩
      · rw [← hs] at hz
        exact absurd hz hx
      · exact ⟨between, z, rest, ha, hz⟩

theorem discarded_of_discards {s : Session} {i : Nat} {steps : List (Command × Command)}
    {x : Command × Command} (hx : x.1 = x.2)
    (h : (s.runAll (steps.map Prod.fst)).discards i x.1 = true) : s.Discarded i (steps ++ [x]) := by
  intro before y after hs hy
  rcases concat_eq_cut_iff.1 hs with ⟨-, rfl, -⟩ | ⟨between, rfl, rfl⟩
  · exact absurd hx hy
  · exact ⟨between, x, [], rfl, h⟩

private theorem exists_edit_eq (s : Session) (i : Nat) : ∃ m, s = s.edit i m := by
  cases hp : s.panel? i with
  | none => exact ⟨⟨"", ""⟩, (edit_of_none hp).symm⟩
  | some p =>
    have same : s.modifyPanel i id = s.modifyPanel i (·.drafting p.metadata) :=
      modifyPanel_congr hp rfl
    exact ⟨p.metadata, (modifyPanel_id s i).symm.trans same⟩

/-- Texts typed in a session with one draft and in the same session with another. -/
private theorem step_types (t : Session) {i : Nat} (m : Metadata) {c d : Command}
    (hc : c.types i = true) (hd : d.types i = true) :
    ((t.edit i m).step d).1 = (t.step c).1 ∧
      ∃ n, ((t.edit i m).step d).2 = (t.step c).2.edit i n := by
  obtain ⟨name, description, rfl⟩ := Command.types_cases hc
  obtain ⟨name', description', rfl⟩ := Command.types_cases hd
  cases hp : t.panel? i with
  | none =>
    rw [edit_of_none hp]
    simp only [step, hp]
    exact ⟨trivial, exists_edit_eq t i⟩
  | some p =>
    refine ⟨by simp only [step, hp, panel?_edit hp, onPanel], ?_⟩
    simp only [step, hp, panel?_edit hp]
    exact ⟨_, (edit_edit t i m _).trans (edit_edit t i _ _).symm⟩

/-- Two sessions that differ at most in the draft of a panel, after a command that is the same for
both or types into that panel. A draft that differs is not saved. -/
private theorem unsaved_step {t u : Session} {i : Nat} (ht : ∃ m, u = t.edit i m) {c d : Command}
    (alike : c = d ∨ c.types i = true ∧ d.types i = true)
    (kept : c.savesDraft i = true → u = t) :
    (u.step d).1 = (t.step c).1 ∧ (∃ n, (u.step d).2 = (t.step c).2.edit i n) ∧
      (c = d → u = t ∨ t.discards i c = true → (u.step d).2 = (t.step c).2) := by
  obtain ⟨m, rfl⟩ := ht
  by_cases hcd : c = d
  · subst hcd
    by_cases he : t.edit i m = t
    · rw [he]
      exact ⟨rfl, exists_edit_eq _ i, fun _ _ => rfl⟩
    · obtain ⟨p, hp⟩ : ∃ p, t.panel? i = some p :=
        Option.ne_none_iff_exists'.1 fun hp => he (edit_of_none hp)
      have hs : c.savesDraft i = false := Bool.eq_false_iff.2 fun hs => he (kept hs)
      rw [step_edit hp m hs]
      cases t.discards i c with
      | true => exact ⟨rfl, exists_edit_eq _ i, fun _ _ => rfl⟩
      | false => exact ⟨rfl, ⟨_, rfl⟩, fun _ h => absurd h (by simp [he])⟩
  · obtain ⟨hc, hd⟩ := alike.resolve_left hcd
    obtain ⟨reply, drafts⟩ := step_types t m hc hd
    exact ⟨reply, drafts, fun h => absurd h hcd⟩

private theorem unsaved_run (s : Session) (i : Nat) (steps : List (Command × Command))
    (alike : ∀ x ∈ steps, x.1 = x.2 ∨ x.1.types i = true ∧ x.2.types i = true)
    (kept : ∀ before x after, steps = before ++ x :: after → x.1.savesDraft i = true →
      s.Discarded i before) :
    (∃ m, s.runAll (steps.map Prod.snd) = (s.runAll (steps.map Prod.fst)).edit i m) ∧
      (s.Discarded i steps → s.runAll (steps.map Prod.snd) = s.runAll (steps.map Prod.fst)) := by
  induction steps using List.reverseRecOn with
  | nil => exact ⟨exists_edit_eq s i, fun _ => rfl⟩
  | append_singleton steps x ih =>
    obtain ⟨drafts, same⟩ := ih (fun y hy => alike y (List.mem_append_left _ hy))
      fun before y after hs => kept before y (after ++ [x]) (by simp [hs])
    obtain ⟨-, drafts', same'⟩ := unsaved_step drafts (alike x (by simp))
      fun hx => same (kept steps x [] rfl hx)
    simp only [List.map_append, List.map_cons, List.map_nil, runAll_concat]
    refine ⟨drafts', fun h => ?_⟩
    obtain ⟨hx, before | now⟩ := discarded_concat h
    · exact same' hx (.inl (same before))
    · exact same' hx (.inr now)

/-- Two runs of a session perform the same commands, but that different texts may be typed into one
panel; each such text is done away with before that panel saves its draft. At every step the runs
answer the same, and the sessions are equal but for the draft of the panel; they are equal altogether
once the texts are done away with. -/
theorem unsaved_draft_confined (s : Session) (i : Nat) {steps : List (Command × Command)}
    (alike : ∀ x ∈ steps, x.1 = x.2 ∨ x.1.types i = true ∧ x.2.types i = true)
    (kept : ∀ before x after, steps = before ++ x :: after → x.1.savesDraft i = true →
      s.Discarded i before) :
    ∀ before after, steps = before ++ after →
      let t := s.runAll (before.map Prod.fst)
      let u := s.runAll (before.map Prod.snd)
      (∃ m, u = t.edit i m) ∧ (s.Discarded i before → u = t) ∧
        ∀ x rest, after = x :: rest → (u.step x.2).1 = (t.step x.1).1 := by
  intro before after hs t u
  obtain ⟨drafts, same⟩ := unsaved_run s i before
    (fun x hx => alike x (hs ▸ List.mem_append_left _ hx))
    fun first x rest hb => kept first x (rest ++ after) (by simp [hs, hb])
  refine ⟨drafts, same, ?_⟩
  rintro x rest rfl
  have hx : x ∈ steps := hs ▸ List.mem_append_right _ List.mem_cons_self
  exact (unsaved_step drafts (alike x hx) fun h => same (kept before x rest hs h)).1

/-- A name and a description are typed into a stale panel in turn, the pipeline is published, and the
panel is brought in step and then saved. -/
theorem unsaved_draft_confined_published :
    let s := start ⟨.empty .standard, none⟩ 4
    let typing : List (Command × Command) :=
      [(.onPanel 0 .openEditor, .onPanel 0 .openEditor),
        (.setMetadata ⟨"sales", ""⟩, .setMetadata ⟨"sales", ""⟩),
        (.addStage "read" ⟨"csv", "source"⟩, .addStage "read" ⟨"csv", "source"⟩),
        (.onPanel 0 (.edit (some "orders") none), .onPanel 0 (.edit none (some "all regions"))),
        (.onPanel 0 (.run .publish), .onPanel 0 (.run .publish))]
    let gone := typing ++ [(.pump, .pump)]
    let steps := gone ++ [(.onPanel 0 (.save none), .onPanel 0 (.save none))]
    (∀ x ∈ steps, x.1 = x.2 ∨ x.1.types 0 = true ∧ x.2.types 0 = true) ∧
      (∀ before x after, steps = before ++ x :: after → x.1.savesDraft 0 = true →
        s.Discarded 0 before) ∧
      (∃ m, s.runAll (typing.map Prod.snd) = (s.runAll (typing.map Prod.fst)).edit 0 m) ∧
      (s.runAll (typing.map Prod.snd)).panels ≠ (s.runAll (typing.map Prod.fst)).panels ∧
      s.runAll (gone.map Prod.snd) = s.runAll (gone.map Prod.fst) := by
  intro s typing gone steps
  have alike : ∀ x ∈ steps, x.1 = x.2 ∨ x.1.types 0 = true ∧ x.2.types 0 = true := by decide
  have discarded : s.Discarded 0 gone := discarded_of_discards rfl (by decide +kernel)
  have unsaved : ∀ x ∈ gone, x.1.savesDraft 0 = false := by decide
  have kept : ∀ before x after, steps = before ++ x :: after → x.1.savesDraft 0 = true →
      s.Discarded 0 before := by
    intro before x after hs hx
    rcases List.eq_nil_or_concat after with rfl | ⟨rest, y, rfl⟩
    · obtain ⟨rfl, -⟩ := List.append_inj' hs rfl
      exact discarded
    · have hs' : gone ++ [(.onPanel 0 (.save none), .onPanel 0 (.save none))] =
          (before ++ x :: rest) ++ [y] := by simpa using hs
      have hg : gone = before ++ x :: rest := List.append_inj_left' hs' rfl
      have clean := unsaved x (by rw [hg]; exact List.mem_append_right _ List.mem_cons_self)
      rw [hx] at clean
      cases clean
  obtain ⟨drafts, -, -⟩ := unsaved_draft_confined s 0 alike kept typing _ rfl
  obtain ⟨-, same, -⟩ := unsaved_draft_confined s 0 alike kept gone _ rfl
  exact ⟨alike, kept, drafts, by decide +kernel, same discarded⟩

end Session
end PipelineEditor
