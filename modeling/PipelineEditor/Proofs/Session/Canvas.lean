import Mathlib.Data.List.Dedup
import PipelineEditor.Proofs.History
import PipelineEditor.Proofs.Number.Nearest
import PipelineEditor.Proofs.Pipeline.Faults
import PipelineEditor.Proofs.Session.StageIds

/-! The places of stages on the canvas, which are kept by name. A new stage takes the place of its
name to the right of all stages, wherever that place was before, and no other place changes. -/
namespace PipelineEditor

namespace Table

variable {α : Type}

def keys (t : Table α) : List String :=
  t.entries.map (·.1)

theorem nodup_keys (t : Table α) : t.keys.Nodup := by
  refine (List.pairwise_map.2 t.sorted).imp fun less same => ?_
  exact String.lt_irrefl _ (same ▸ less)

theorem mem_keys_iff {t : Table α} {key : String} : key ∈ t.keys ↔ (t.get? key).isSome = true := by
  rw [Option.isSome_iff_ne_none, get?, Ne, List.lookup_eq_none_iff, keys, List.mem_map]
  simp only [bne_iff_ne, ne_eq, not_forall, not_not, exists_prop]
  exact exists_congr fun _ => and_congr_right fun _ => eq_comm

/-- A table has as many entries as there are different keys with a value. -/
theorem size_eq_length_dedup {t : Table α} {names : List String}
    (h : ∀ key, (t.get? key).isSome = true ↔ key ∈ names) : t.size = names.dedup.length := by
  have same : t.keys.Perm names.dedup := by
    rw [List.perm_ext_iff_of_nodup t.nodup_keys (List.nodup_dedup names)]
    intro key
    rw [mem_keys_iff, h, List.mem_dedup]
  rw [← same.length_eq, keys, List.length_map]
  rfl

end Table

namespace Session

/-- New stages stand in one row, each two hundred to the right of the one before it. The places are
exact as long as 32-bit numbers are. -/
theorem newPosition_value {stages : Nat} (h : 200 * stages < 16777216) :
    (newPosition stages).x.negative = false ∧ (newPosition stages).x.magnitude.value = 200 * stages ∧
      (newPosition stages).y.negative = false ∧ (newPosition stages).y.magnitude.value = 100 := by
  have column : (Number.Single.ofNat stages).magnitude.value = stages :=
    Number.Single.nearest_whole Nat.one_pos (by simp) (by omega) false
  have x : (newPosition stages).x.magnitude.value = (200 * stages : Nat) := by
    refine Number.Single.nearest_whole (Number.Binary.den_pos _) ?_ h false
    rw [Nat.cast_mul, mul_div_assoc, Number.Binary.num_div_den, column, Nat.cast_mul]
    rfl
  have y : (newPosition stages).y.magnitude.value = (100 : Nat) :=
    Number.Single.nearest_whole Nat.one_pos (by simp [stageRow]) (by decide) false
  exact ⟨rfl, by exact_mod_cast x, rfl, by exact_mod_cast y⟩

example : newPosition 3 = ⟨.ofNat 600, .ofNat 100⟩ := by decide +kernel

end Session

namespace Pipeline

/-- The places on the canvas. A pipeline without a layout has none. -/
def places (p : Pipeline) : Table Position :=
  (p.layout.getD .empty).positions

/-- The place that is kept for a name. -/
def place? (p : Pipeline) (name : String) : Option Position :=
  p.places.get? name

open Session (newPosition withStage)

/-- A pipeline after new stages were added. A name that none of them has keeps its place; otherwise
the last of them with that name is to the right of all stages before it. -/
structure Arranged (new : List Stage) (p q : Pipeline) : Prop where
  stages : q.graph.stages = p.graph.stages ++ new
  kept : ∀ name, name ∉ new.map (·.name) → q.place? name = p.place? name
  placed : ∀ before stage after, new = before ++ stage :: after →
    stage.name ∉ after.map (·.name) →
      q.place? stage.name = some (newPosition (p.graph.stages.length + before.length))

theorem place?_withStage (p : Pipeline) (id : StageId) (name other : String) (plugin : Plugin) :
    (withStage p id name plugin).place? other =
      if other = name then some (newPosition p.graph.stages.length) else p.place? other :=
  Table.get?_insert _ _ _ _

namespace Arranged

variable {p q : Pipeline} {new : List Stage}

theorem refl (p : Pipeline) : Arranged [] p p :=
  ⟨(List.append_nil _).symm, fun _ _ => rfl, fun before stage after h => by simp at h⟩

theorem described (h : Arranged new p q) (m : Metadata) : Arranged new p (q.described m) :=
  ⟨h.stages, h.kept, h.placed⟩

theorem withStage (h : Arranged new p q) (id : StageId) (name : String) (plugin : Plugin) :
    Arranged (new ++ [⟨id, name, plugin, .empty⟩]) p (Session.withStage q id name plugin) where
  stages := by
    rw [← List.append_assoc, ← h.stages]
    rfl
  kept other absent := by
    rw [List.map_append, List.mem_append, not_or] at absent
    rw [place?_withStage, if_neg fun same => absent.2 (List.mem_singleton.2 same)]
    exact h.kept other absent.1
  placed before stage after cut last := by
    rw [place?_withStage]
    rcases concat_eq_cut_iff.1 cut with ⟨rfl, rfl, rfl⟩ | ⟨rest, rfl, rfl⟩
    · rw [if_pos rfl, h.stages, List.length_append]
    · rw [List.map_append, List.mem_append, not_or] at last
      rw [if_neg fun same => last.2 (List.mem_singleton.2 same)]
      exact h.placed before stage rest rfl last.1

/-- A name of some stages is that of a last one. -/
private theorem exists_last {name : String} (h : name ∈ new.map (·.name)) :
    ∃ before stage after, new = before ++ stage :: after ∧ stage.name = name ∧
      name ∉ after.map (·.name) := by
  induction new with
  | nil => cases h
  | cons first rest ih =>
    by_cases later : name ∈ rest.map (·.name)
    · obtain ⟨before, stage, after, rfl, named, last⟩ := ih later
      exact ⟨first :: before, stage, after, rfl, named, last⟩
    · exact ⟨[], first, rest, rfl, ((List.mem_cons.1 h).resolve_right later).symm, later⟩

/-- Names that have places are those that had them, and those of new stages. -/
theorem isSome_place? (h : Arranged new p q) (name : String) :
    (q.place? name).isSome = true ↔
      name ∈ new.map (·.name) ∨ (p.place? name).isSome = true := by
  by_cases named : name ∈ new.map (·.name)
  · obtain ⟨before, stage, after, cut, rfl, last⟩ := exists_last named
    rw [h.placed before stage after cut last]
    exact iff_of_true rfl (.inl named)
  · rw [h.kept name named]
    exact (or_iff_right named).symm

end Arranged
end Pipeline

namespace Session

open Pipeline (Arranged)

theorem arranged_runAll (s : Session) (commands : List Command) :
    ∃ new, Arranged new s.pipeline (s.runAll commands).pipeline := by
  induction commands using List.reverseRecOn with
  | nil => exact ⟨[], .refl _⟩
  | append_singleton commands c ih =>
    obtain ⟨new, arranged⟩ := ih
    rw [runAll_concat]
    rcases pipeline_step_cases (s.runAll commands) c with ⟨m, after⟩ | ⟨id, name, plugin, after⟩
    · rw [after]
      exact ⟨new, arranged.described m⟩
    · rw [after]
      exact ⟨_, arranged.withStage id name plugin⟩

/-- A new stage takes the place of its name, and all other names keep theirs. So it is in every run:
a name has its place from the last new stage of that name, or else from before. After any commands on
an empty pipeline there are as many places as different names of stages, which is as many as stages
exactly when their names differ. -/
theorem places_kept_by_name :
    (∀ (s t : Session) (name : String) (plugin : Plugin) (id : StageId),
      s.step (.addStage name plugin) = (.added id, t) →
        t.pipeline.place? name = some (newPosition s.pipeline.graph.stages.length) ∧
          ∀ other, other ≠ name → t.pipeline.place? other = s.pipeline.place? other) ∧
    (∀ (s : Session) (commands : List Command),
      ∃ new, Arranged new s.pipeline (s.runAll commands).pipeline) ∧
    ∀ (artifact : Artifact) (m : Metadata) (clonedFrom : Option String) (capacity : Nat)
      (commands : List Command),
      let p := ((start ⟨(Pipeline.empty artifact).described m, clonedFrom⟩ capacity).runAll
        commands).pipeline
      p.places.size = p.graph.names.dedup.length ∧
        (p.places.size = p.graph.stages.length ↔ p.graph.names.Nodup) := by
  refine ⟨fun s t name plugin id h => ?_, arranged_runAll, fun artifact m clonedFrom capacity
    commands => ?_⟩
  · rw [pipeline_of_added h, Pipeline.place?_withStage, if_pos rfl]
    exact ⟨rfl, fun other apart =>
      (Pipeline.place?_withStage s.pipeline id name other plugin).trans (if_neg apart)⟩
  · intro p
    obtain ⟨new, arranged⟩ :=
      arranged_runAll (start ⟨(Pipeline.empty artifact).described m, clonedFrom⟩ capacity) commands
    rw [pipeline_start] at arranged
    have stages : p.graph.stages = new := arranged.stages
    have size : p.places.size = p.graph.names.dedup.length :=
      Table.size_eq_length_dedup fun name => by
        rw [Graph.names, stages]
        exact (arranged.isSome_place? name).trans (or_iff_left Bool.false_ne_true)
    have length : p.graph.stages.length = p.graph.names.length := (List.length_map _).symm
    refine ⟨size, ?_⟩
    rw [size, length, ← List.dedup_eq_self]
    exact ⟨(List.dedup_sublist _).eq_of_length, congrArg List.length⟩

/-- A copy has a place for a stage and one for a name that is no stage. The new stage of that name
takes the latter, and the former stays. -/
theorem places_kept_by_name_copied :
    let layout : Layout :=
      ⟨(Table.empty.insert "read" (newPosition 7)).insert "load" (newPosition 9)⟩
    let p : Pipeline :=
      { Pipeline.empty .standard with
        graph := ⟨[⟨⟨5⟩, "read", ⟨"csv", "source"⟩, .empty⟩], []⟩
        layout := some layout }
    let s := start ⟨p, some "orders"⟩ 4
    let t := (s.step (.addStage "load" ⟨"s3", "sink"⟩)).2
    s.step (.addStage "load" ⟨"s3", "sink"⟩) = (.added ⟨6⟩, t) ∧
      s.pipeline.place? "load" = some (newPosition 9) ∧
        t.pipeline.place? "load" = some (newPosition 1) ∧
          "read" ≠ "load" ∧ t.pipeline.place? "read" = s.pipeline.place? "read" ∧
            s.pipeline.place? "read" = some (newPosition 7) := by
  intro layout p s t
  have added : s.step (.addStage "load" ⟨"s3", "sink"⟩) = (.added ⟨6⟩, t) :=
    Prod.ext (by decide +kernel) rfl
  have one : s.pipeline.graph.stages.length = 1 := by decide +kernel
  have apart : "read" ≠ "load" := by decide
  obtain ⟨taken, kept⟩ := places_kept_by_name.1 s t _ _ _ added
  rw [one] at taken
  exact ⟨added, by decide +kernel, taken, apart, kept "read" apart, by decide +kernel⟩

/-- A second stage of a name moves the first one's place to its own, so that there are more stages
than places. -/
theorem place_lost_to_namesake :
    let s := (start ⟨.empty .standard, none⟩ 4).runAll [.addStage "read" ⟨"csv", "source"⟩]
    let t := (s.step (.addStage "read" ⟨"s3", "source"⟩)).2
    (s.step (.addStage "read" ⟨"s3", "source"⟩)).1 = .added ⟨2⟩ ∧
      s.pipeline.graph.names = ["read"] ∧ s.pipeline.place? "read" = some (newPosition 0) ∧
        t.pipeline.place? "read" ≠ s.pipeline.place? "read" ∧
          t.pipeline.graph.stages.length = 2 ∧ t.pipeline.places.size = 1 := by
  decide +kernel

end Session
end PipelineEditor
