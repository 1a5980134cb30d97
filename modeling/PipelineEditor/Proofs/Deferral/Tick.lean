import PipelineEditor.Proofs.Deferral

/-! Ticks of the runtime. In a tick every task finishes: all give way, and then they are resumed. In
which order that happens is the runtime's own affair. -/
namespace PipelineEditor

/-- The order in which tasks that became ready together are resumed. -/
structure Runtime where
  order : List Handle → List Handle
  perm : ∀ handles, (order handles).Perm handles

namespace Runtime

/-- Tasks are resumed in the order of their start. -/
def oldestFirst : Runtime := ⟨id, fun _ => .refl _⟩

/-- Tasks are resumed from the last one back to the first. -/
def newestFirst : Runtime := ⟨List.reverse, List.reverse_perm⟩

end Runtime

namespace Deferral

/-- A task goes on after it gave way: it leaves, and fires. -/
def resume (d : Deferral) (h : Handle) : List Handle × Deferral :=
  let (fired, rest) := (d.leave h).fire h
  (if fired then [h] else [], rest)

/-- Tasks go on one after another. -/
def resumeAll (d : Deferral) : List Handle → List Handle × Deferral
  | [] => ([], d)
  | h :: hs =>
    let (first, d) := d.resume h
    let (others, d) := d.resumeAll hs
    (first ++ others, d)

/-- Lets every task finish: all give way in the order of their start, and then go on in the order of
the runtime. -/
def tick (r : Runtime) (d : Deferral) : List Handle × Deferral :=
  (d.handles.foldl giveWay d).resumeAll (r.order d.handles)

/-- Once its task gave way, a handle fires, and nothing else changes. -/
theorem resume_eq {d : Deferral} {h : Handle} (still : d.leaving = [])
    (ready : (⟨h, true⟩ : Task) ∈ d.pending) : d.resume h = ([h], d.cancel h) := by
  simp [resume, leave, fire, cancel, still, ready]

/-- What goes on one after another fires in that order, and each is taken off the list. -/
theorem resumeAll_eq {d : Deferral} {hs : List Handle} (still : d.leaving = []) (distinct : hs.Nodup)
    (ready : ∀ h ∈ hs, (⟨h, true⟩ : Task) ∈ d.pending) :
    d.resumeAll hs = (hs, hs.foldl cancel d) := by
  induction hs generalizing d with
  | nil => rfl
  | cons h hs ih =>
    obtain ⟨fresh, distinct⟩ := List.nodup_cons.1 distinct
    have others : ∀ g ∈ hs, (⟨g, true⟩ : Task) ∈ (d.cancel h).pending := fun g hg =>
      List.mem_filter.2 ⟨ready g (List.mem_cons_of_mem _ hg),
        by simpa using fun same : g = h => fresh (same ▸ hg)⟩
    rw [resumeAll, resume_eq still (ready h List.mem_cons_self), List.foldl_cons]
    change ([h] ++ ((d.cancel h).resumeAll hs).1, ((d.cancel h).resumeAll hs).2) = _
    rw [ih (d := d.cancel h) still distinct others]
    rfl

theorem foldl_cancel (d : Deferral) (hs : List Handle) :
    hs.foldl cancel d = { d with pending := d.pending.filter fun t => t.handle ∉ hs } := by
  induction hs generalizing d with
  | nil => rw [List.filter_eq_self.2 (by simp), List.foldl_nil]
  | cons h hs ih =>
    rw [List.foldl_cons, ih]
    simp only [cancel, List.filter_filter, Deferral.mk.injEq, true_and, and_true]
    refine List.filter_congr fun t _ => ?_
    by_cases same : t.handle = h <;> simp [same]

/-- Tasks that give way stay where they are. -/
theorem foldl_giveWay (d : Deferral) (hs : List Handle) :
    hs.foldl giveWay d =
      { d with pending := d.pending.map fun t => ⟨t.handle, t.yielded || t.handle ∈ hs⟩ } := by
  induction hs generalizing d with
  | nil => simp only [List.foldl_nil, List.not_mem_nil, decide_false, Bool.or_false, List.map_id']
  | cons h hs ih =>
    rw [List.foldl_cons, ih]
    simp only [giveWay, List.map_map, Deferral.mk.injEq, true_and, and_true]
    refine List.map_congr_left fun t _ => ?_
    by_cases same : t.handle = h <;> simp [same]

/-- All pending tasks fire, in the order of the runtime. -/
theorem tick_eq (r : Runtime) {d : Deferral} (still : d.leaving = []) (distinct : d.handles.Nodup) :
    d.tick r = (r.order d.handles, d.cancelAll) := by
  have all := r.perm d.handles
  have ready : ∀ h ∈ r.order d.handles, (⟨h, true⟩ : Task) ∈ (d.handles.foldl giveWay d).pending := by
    intro h hm
    have pending := all.mem_iff.1 hm
    obtain ⟨t, ht, rfl⟩ := List.mem_map.1 pending
    rw [foldl_giveWay]
    exact List.mem_map.2 ⟨t, ht, by simp [pending]⟩
  have gone : ∀ t ∈ d.pending, t.handle ∈ r.order d.handles := fun t ht =>
    all.mem_iff.2 (List.mem_map_of_mem ht)
  rw [tick, resumeAll_eq (by rw [foldl_giveWay, still]) (all.nodup_iff.2 distinct) ready]
  simpa [foldl_cancel, foldl_giveWay, cancelAll] using gone

/-- The tasks of the program are resumed from the last one back to the first. -/
theorem tick_newestFirst {d : Deferral} (still : d.leaving = []) (distinct : d.handles.Nodup) :
    d.tick .newestFirst = d.finish := by
  rw [tick_eq _ still distinct]
  simp [finish, still, Runtime.newestFirst, handles, cancelAll]

end Deferral

end PipelineEditor
