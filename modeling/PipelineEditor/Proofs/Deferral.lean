import PipelineEditor.Deferral

/-! The handles of deferred actions. No two tasks that have still to fire have the same one, and one
that has fired or was cancelled does not come back. -/
namespace PipelineEditor.Deferral

/-- The handles of the tasks that can be cancelled. -/
def handles (d : Deferral) : List Handle :=
  d.pending.map (·.handle)

/-- The handles of the tasks that have still to fire. -/
def owed (d : Deferral) : List Handle :=
  d.leaving ++ d.pending.map (·.handle)

theorem mem_owed {d : Deferral} {h : Handle} : h ∈ d.owed ↔ h ∈ d.leaving ∨ h ∈ d.handles :=
  List.mem_append

theorem handles_start (d : Deferral) : d.start.2.handles = d.handles ++ [d.next] := by
  simp [handles, start]

theorem handles_giveWay (d : Deferral) (h : Handle) : (d.giveWay h).handles = d.handles := by
  unfold handles giveWay
  rw [List.map_map]
  refine List.map_congr_left fun t _ => ?_
  simp only [Function.comp_apply]
  split <;> rfl

theorem handles_cancel (d : Deferral) (h : Handle) :
    (d.cancel h).handles = d.handles.filter (· != h) := by
  simp only [handles, cancel, List.filter_map]
  rfl

/-- A task that leaves can no longer be cancelled. -/
theorem handles_leave (d : Deferral) (h : Handle) : (d.leave h).handles ⊆ d.handles := by
  unfold leave
  split
  · change (d.cancel h).handles ⊆ d.handles
    rw [handles_cancel]
    exact List.filter_sublist.subset
  · exact List.Subset.refl _

/-- Tasks are told apart by their handles, which are behind the next one. -/
structure Distinct (d : Deferral) : Prop where
  nodup : d.owed.Nodup
  below : ∀ h ∈ d.owed, h < d.next

theorem Distinct.handles_nodup {d : Deferral} (hd : d.Distinct) : d.handles.Nodup :=
  (List.nodup_append.1 hd.nodup).2.1

theorem Distinct.not_leaving {d : Deferral} (hd : d.Distinct) {h : Handle} (hm : h ∈ d.handles) :
    h ∉ d.leaving :=
  fun leaving => (List.nodup_append.1 hd.nodup).2.2 h leaving h hm rfl

theorem distinct_empty : empty.Distinct :=
  ⟨List.nodup_nil, fun _ h => absurd h List.not_mem_nil⟩

theorem owed_start (d : Deferral) : d.start.2.owed = d.owed ++ [d.next] := by
  simp [owed, start]

theorem owed_cancel (d : Deferral) (h : Handle) : (d.cancel h).owed.Sublist d.owed := by
  unfold owed cancel
  exact (List.Sublist.refl _).append (List.filter_sublist.map _)

theorem owed_giveWay (d : Deferral) (h : Handle) : (d.giveWay h).owed = d.owed :=
  congrArg (d.leaving ++ ·) (handles_giveWay d h)

theorem owed_fire (d : Deferral) (h : Handle) : (d.fire h).2.owed.Sublist d.owed := by
  unfold owed fire
  exact List.filter_sublist.append (List.Sublist.refl _)

/-- A task that has given way is among those that can be cancelled. -/
theorem mem_handles_of_ready {d : Deferral} {h : Handle}
    (ready : d.pending.contains ⟨h, true⟩ = true) : h ∈ d.handles :=
  List.mem_map.2 ⟨⟨h, true⟩, by simpa using ready, rfl⟩

/-- A task that leaves is still owed. -/
theorem owed_leave {d : Deferral} (hd : d.Distinct) (h : Handle) :
    (d.leave h).owed.Perm d.owed := by
  unfold leave
  split
  next ready =>
    have rest : (d.cancel h).handles = d.handles.erase h := by
      rw [handles_cancel, hd.handles_nodup.erase_eq_filter]
    change ((d.leaving ++ [h]) ++ (d.cancel h).handles).Perm (d.leaving ++ d.handles)
    rw [rest, List.append_assoc]
    exact (List.perm_cons_erase (mem_handles_of_ready ready)).symm.append_left d.leaving
  · exact .refl _

private theorem Distinct.of_sublist {d e : Deferral} (hd : d.Distinct)
    (owed : e.owed.Sublist d.owed) (next : d.next = e.next) : e.Distinct :=
  ⟨owed.nodup hd.nodup, fun h hm => next ▸ hd.below h (owed.subset hm)⟩

theorem distinct_start {d : Deferral} (hd : d.Distinct) : d.start.2.Distinct := by
  constructor
  · rw [owed_start, List.nodup_append]
    refine ⟨hd.nodup, by simp, fun h hm n hn => ?_⟩
    rw [List.mem_singleton.1 hn]
    exact Nat.ne_of_lt (hd.below h hm)
  · intro h hm
    rw [owed_start, List.mem_append, List.mem_singleton] at hm
    rcases hm with hm | rfl
    · exact Nat.lt_succ_of_lt (hd.below h hm)
    · exact Nat.lt_succ_self _

theorem distinct_cancel {d : Deferral} (hd : d.Distinct) (h : Handle) : (d.cancel h).Distinct :=
  hd.of_sublist (owed_cancel d h) rfl

theorem distinct_giveWay {d : Deferral} (hd : d.Distinct) (h : Handle) : (d.giveWay h).Distinct :=
  hd.of_sublist (owed_giveWay d h ▸ List.Sublist.refl _) rfl

theorem leave_next (d : Deferral) (h : Handle) : (d.leave h).next = d.next := by
  unfold leave
  split <;> rfl

theorem distinct_leave {d : Deferral} (hd : d.Distinct) (h : Handle) : (d.leave h).Distinct := by
  have same := owed_leave hd h
  refine ⟨same.nodup_iff.2 hd.nodup, fun g hg => ?_⟩
  rw [leave_next]
  exact hd.below g (same.mem_iff.1 hg)

theorem distinct_fire {d : Deferral} (hd : d.Distinct) (h : Handle) : (d.fire h).2.Distinct :=
  hd.of_sublist (owed_fire d h) rfl

theorem distinct_finish (d : Deferral) : d.finish.2.Distinct :=
  ⟨List.nodup_nil, fun _ h => absurd h List.not_mem_nil⟩

/-- A task that fires is not owed any more. -/
theorem not_owed_of_fire {d : Deferral} (hd : d.Distinct) {h : Handle}
    (hf : (d.fire h).1 = true) : h ∉ (d.fire h).2.owed := by
  have leaving : h ∈ d.leaving := by simpa [fire] using hf
  intro hm
  rcases List.mem_append.1 hm with hm | hm
  · simp [fire] at hm
  · exact (List.nodup_append.1 hd.nodup).2.2 h leaving h hm rfl

/-! Time only takes tasks away, and adds new ones behind those that were there. -/

/-- Deferred actions after others: no handle that was given out is owed again. -/
structure Later (d e : Deferral) : Prop where
  next : d.next ≤ e.next
  owed : ∀ h < d.next, h ∈ e.owed → h ∈ d.owed

theorem Later.refl (d : Deferral) : d.Later d :=
  ⟨Nat.le_refl _, fun _ _ hm => hm⟩

theorem Later.trans {d e f : Deferral} (hd : d.Later e) (he : e.Later f) : d.Later f :=
  ⟨Nat.le_trans hd.next he.next,
    fun h past hm => hd.owed h past (he.owed h (Nat.lt_of_lt_of_le past hd.next) hm)⟩

private theorem Later.of_subset {d e : Deferral} (owed : e.owed ⊆ d.owed) (next : d.next = e.next) :
    d.Later e :=
  ⟨Nat.le_of_eq next, fun _ _ hm => owed hm⟩

theorem later_start (d : Deferral) : d.Later d.start.2 := by
  refine ⟨Nat.le_succ _, fun h past hm => ?_⟩
  rw [owed_start, List.mem_append, List.mem_singleton] at hm
  rcases hm with hm | rfl
  · exact hm
  · exact absurd past (Nat.lt_irrefl _)

theorem later_cancel (d : Deferral) (h : Handle) : d.Later (d.cancel h) :=
  .of_subset (owed_cancel d h).subset rfl

theorem later_cancelAll (d : Deferral) : d.Later d.cancelAll :=
  .of_subset (List.append_subset.2 ⟨List.subset_append_left _ _, List.nil_subset _⟩) rfl

theorem later_giveWay (d : Deferral) (h : Handle) : d.Later (d.giveWay h) :=
  .of_subset (owed_giveWay d h ▸ List.Subset.refl _) rfl

theorem later_leave (d : Deferral) (h : Handle) : d.Later (d.leave h) := by
  refine .of_subset (fun g hg => ?_) (leave_next d h).symm
  rcases mem_owed.1 hg with hg | hg
  · unfold leave at hg
    split at hg
    next ready =>
      rcases List.mem_append.1 hg with hg | hg
      · exact mem_owed.2 (.inl hg)
      · exact mem_owed.2 (.inr (List.mem_singleton.1 hg ▸ mem_handles_of_ready ready))
    · exact mem_owed.2 (.inl hg)
  · exact mem_owed.2 (.inr (handles_leave d h hg))

theorem later_fire (d : Deferral) (h : Handle) : d.Later (d.fire h).2 :=
  .of_subset (owed_fire d h).subset rfl

theorem later_finish (d : Deferral) : d.Later d.finish.2 :=
  .of_subset (List.nil_subset _) rfl

/-- A handle that was given out, and whose task has fired or was cancelled. -/
structure Spent (d : Deferral) (h : Handle) : Prop where
  past : h < d.next
  gone : h ∉ d.owed

theorem Spent.later {d e : Deferral} {h : Handle} (hs : d.Spent h) (hl : d.Later e) : e.Spent h :=
  ⟨Nat.lt_of_lt_of_le hs.past hl.next, fun hm => hs.gone (hl.owed h hs.past hm)⟩

end PipelineEditor.Deferral
