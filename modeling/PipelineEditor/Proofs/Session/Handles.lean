import PipelineEditor.Proofs.Session.Underway

/-! Handles of requests for the focus. Panels share one counter of handles, which goes up with every
request, so that no two requests of a run have the same handle. -/
namespace PipelineEditor.Session

/-- The request for the focus that a command makes: the panel it is for, and its handle. -/
def request? (s : Session) : Command → Option (Nat × Handle)
  | .onPanel i .requestFocus => (s.panel? i).map fun _ => (i, s.deferral.next)
  | .onPanel i .openEditor => ((s.panel? i).bind (·.clonedFrom)).map fun _ => (i, s.deferral.next)
  | .addPanel clonedFrom => clonedFrom.map fun _ => (s.panels.length, s.deferral.next)
  | _ => none

theorem request?_eq_some {s : Session} {c : Command} {i : Nat} {h : Handle}
    (hr : s.request? c = some (i, h)) : h = s.deferral.next := by
  unfold request? at hr
  split at hr
  · obtain ⟨_, -, he⟩ := Option.map_eq_some_iff.1 hr
    exact (Prod.mk.inj he).2.symm
  · obtain ⟨_, -, he⟩ := Option.map_eq_some_iff.1 hr
    exact (Prod.mk.inj he).2.symm
  · obtain ⟨_, -, he⟩ := Option.map_eq_some_iff.1 hr
    exact (Prod.mk.inj he).2.symm
  · cases hr

/-- The counter of handles goes up with every request, and with nothing else. -/
theorem next_step (s : Session) (c : Command) :
    (s.step c).2.deferral.next =
      if (s.request? c).isSome then s.deferral.next + 1 else s.deferral.next := by
  rw [deferral_step]
  cases c with
  | onPanel i command =>
    cases hp : s.panel? i with
    | none => cases command <;> simp [deferralAfter, request?, hp]
    | some p =>
      cases command with
      | openEditor =>
        rw [deferralAfter, request?, hp, Option.elim_some, Option.bind_some, Option.isSome_map]
        split
        · exact congrArg (· + 1) (withdrawn_next _ _)
        · exact withdrawn_next _ _
      | requestFocus =>
        rw [deferralAfter, request?, hp, Option.elim_some]
        exact congrArg (· + 1) (withdrawn_next _ _)
      | drop =>
        rw [deferralAfter, hp, Option.elim_some]
        exact withdrawn_next _ _
      | _ => rfl
  | addPanel clonedFrom => cases clonedFrom <;> rfl
  | leave h =>
    change (s.deferral.leave h).next = _
    unfold Deferral.leave
    split <;> rfl
  | _ => rfl

/-- After a request its handle is used up. -/
theorem handle_lt_step {s : Session} {c : Command} {i : Nat} {h : Handle}
    (hr : s.request? c = some (i, h)) : h < (s.step c).2.deferral.next := by
  rw [next_step, hr, request?_eq_some hr]
  exact Nat.lt_succ_self _

private theorem handle_lt {s : Session} {before : List Command} {c : Command} {i : Nat}
    {h : Handle} (hr : (s.runAll before).request? c = some (i, h)) (after : List Command) :
    h < (s.runAll (before ++ c :: after)).deferral.next := by
  rw [runAll_append]
  exact Nat.lt_of_lt_of_le (handle_lt_step hr) (later_runAll _ after).next

private theorem request_unique_of_prefix {s : Session} {before m after after' : List Command}
    {c c' : Command} {i i' : Nat} {h : Handle} (hm : c :: after = m ++ c' :: after')
    (hr : (s.runAll before).request? c = some (i, h))
    (hr' : (s.runAll (before ++ m)).request? c' = some (i', h)) :
    m = [] ∧ c = c' ∧ i = i' := by
  cases m with
  | nil =>
    obtain ⟨rfl, -⟩ := List.cons.inj hm
    rw [List.append_nil, hr] at hr'
    exact ⟨rfl, rfl, (Prod.mk.inj (Option.some.inj hr')).1⟩
  | cons d m =>
    -- the later request takes a handle that the counter has passed
    obtain ⟨rfl, -⟩ := List.cons.inj hm
    have used : h < h := by
      have := handle_lt hr m
      rwa [← request?_eq_some hr'] at this
    exact absurd used (Nat.lt_irrefl h)

/-- Two requests of a run with the same handle are one. -/
theorem request_unique {s : Session} {before before' after after' : List Command}
    {c c' : Command} {i i' : Nat} {h : Handle} (hs : before ++ c :: after = before' ++ c' :: after')
    (hr : (s.runAll before).request? c = some (i, h))
    (hr' : (s.runAll before').request? c' = some (i', h)) :
    before = before' ∧ c = c' ∧ i = i' := by
  rcases List.append_eq_append_iff.1 hs with ⟨m, rfl, hm⟩ | ⟨m, rfl, hm⟩
  · obtain ⟨rfl, hc, hi⟩ := request_unique_of_prefix hm hr hr'
    exact ⟨(List.append_nil before).symm, hc, hi⟩
  · obtain ⟨rfl, hc, hi⟩ := request_unique_of_prefix hm hr' hr
    exact ⟨List.append_nil before', hc.symm, hi.symm⟩

end PipelineEditor.Session
