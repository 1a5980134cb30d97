import PipelineEditor.Proofs.Session.Extension
import PipelineEditor.Proofs.Session.Underway

/-! The ids of stages. A new stage gets the number after the largest one. If there is none, the
stage is refused before anything of the pipeline is touched, and nobody can tell that it was tried. -/
namespace PipelineEditor

/-- The number of a stage as an integer. -/
def StageId.number (id : StageId) : Int :=
  id.value.toInt

/-- The ids of the stages, in their order. -/
def Pipeline.stageIds (p : Pipeline) : List StageId :=
  p.graph.stages.map (·.id)

/-- An id comes right after others: it is the first one, or one above the largest of them. -/
structure StageId.Follows (id : StageId) (ids : List StageId) : Prop where
  above : ∀ old ∈ ids, old.number < id.number
  first : ids = [] → id.number = 1
  next : ids ≠ [] → ∃ old ∈ ids, id.number = old.number + 1

/-- The id of the stage that a command has added. -/
def Reply.added? : Reply → Option StageId
  | .added id => some id
  | _ => none

/-- A value behind a lock, which is poisoned if someone has panicked who held it. -/
structure Guarded (α : Type) where
  value : α
  poisoned : Bool

namespace Guarded

variable {α : Type}

/-- Does work on a value while holding its lock, poisoned or not. Work that panics has no outcome.
It leaves the value as it is by then, and the lock poisoned. -/
def hold {β : Type} (g : Guarded α) (work : StateM α (Option β)) : Option β × Guarded α :=
  let (outcome, value) := (work.run g.value).run
  (outcome, ⟨value, g.poisoned || outcome.isNone⟩)

/-- Whoever holds the lock next does the same with either value. -/
def Alike (g h : Guarded α) : Prop :=
  ∀ (β : Type) (work : StateM α (Option β)),
    (g.hold work).1 = (h.hold work).1 ∧ (g.hold work).2.value = (h.hold work).2.value

theorem alike_of_value {g h : Guarded α} (same : g.value = h.value) : g.Alike h := by
  intro β work
  rw [hold, hold, same]
  exact ⟨rfl, rfl⟩

end Guarded

namespace Session

/-- Some stage has the largest number there is. -/
def Exhausted (s : Session) : Prop :=
  ∃ id ∈ s.pipeline.stageIds, id.number = 9223372036854775807

/-- What the replies to a row of commands are. -/
def replies (s : Session) : List Command → List Reply
  | [] => []
  | c :: cs => (s.step c).1 :: (s.step c).2.replies cs

/-- The ids that are given to new stages in a row of commands. -/
def addedIds (s : Session) (commands : List Command) : List StageId :=
  (s.replies commands).filterMap Reply.added?

/-- The work on the pipeline when a stage is added, in its order: the next number, where an overflow
is a panic, the place on the canvas, and the stage. -/
def enterStage (next : List Stage → Option StageId) (place : Nat → Position) (name : String)
    (plugin : Plugin) : StateM Pipeline (Option StageId) := do
  let stages := (← get).graph.stages
  let some id := next stages | return none
  modify fun p =>
    { p with
      layout := some ⟨(p.layout.getD .empty).positions.insert name (place stages.length)⟩ }
  modify fun p =>
    { p with graph := { p.graph with stages := p.graph.stages ++ [⟨id, name, plugin, .empty⟩] } }
  return some id

/-- A session after a stage was added to it. The listeners were called one after the other, when the
stage was there. -/
structure Adds (s : Session) (stage : Stage) (t : Session) : Prop where
  stages : t.pipeline.graph.stages = s.pipeline.graph.stages ++ [stage]
  connections : t.pipeline.graph.connections = s.pipeline.graph.connections
  artifact : t.pipeline.artifact = s.pipeline.artifact
  metadata : t.pipeline.metadata = s.pipeline.metadata
  layout : t.pipeline.layout = some ⟨(s.pipeline.layout.getD .empty).positions.insert stage.name
    (newPosition s.pipeline.graph.stages.length)⟩
  listeners : t.listeners = s.listeners
  calls : t.journal = s.journal ++ s.listeners.map fun l =>
    .notified l t.pipeline.name (s.pipeline.graph.stages.length + 1)
  queue : t.queue = s.wakeUps.foldl EventQueue.post s.queue
  panels : ∀ i, t.panel? i = (s.panel? i).map fun p =>
    if .panel i ∈ s.listeners then p.told else p

/-- A stage cannot be added. All that comes later goes as if it had not been tried, and those who
hold the lock of the pipeline later do not notice that it is poisoned. -/
structure Refuses (s : Session) (name : String) (plugin : Plugin) : Prop where
  step : s.step (.addStage name plugin) = (.overflow, s)
  runAll : ∀ later, s.runAll (.addStage name plugin :: later) = s.runAll later
  replies : ∀ later, s.replies (.addStage name plugin :: later) = .overflow :: s.replies later
  lock : ∀ poisoned,
    (Guarded.mk s.pipeline poisoned).hold (enterStage nextId? newPosition name plugin) =
        (none, ⟨s.pipeline, true⟩) ∧
      (Guarded.mk s.pipeline true).Alike ⟨s.pipeline, poisoned⟩

/-- A stage can be added, under the id that follows those there are. -/
structure Accepts (s : Session) (name : String) (plugin : Plugin) (id : StageId) (t : Session) :
    Prop where
  step : s.step (.addStage name plugin) = (.added id, t)
  follows : id.Follows s.pipeline.stageIds
  adds : s.Adds ⟨id, name, plugin, .empty⟩ t
  lock : ∀ poisoned,
    (Guarded.mk s.pipeline poisoned).hold (enterStage nextId? newPosition name plugin) =
      (some id, ⟨t.pipeline, poisoned⟩)

instance (s : Session) : Decidable s.Exhausted :=
  inferInstanceAs (Decidable (∃ id ∈ s.pipeline.stageIds, id.number = 9223372036854775807))

/-! The next number. -/

private theorem number_le_largestId {stages : List Stage} {stage : Stage} (h : stage ∈ stages) :
    stage.id.number ≤ largestId stages := by
  induction stages with
  | nil => cases h
  | cons first rest ih =>
    cases rest with
    | nil =>
      obtain rfl := List.mem_singleton.1 h
      exact Int.le_refl _
    | cons second rest =>
      rcases List.mem_cons.1 h with rfl | h
      · exact Int.le_max_left _ _
      · exact Int.le_trans (ih h) (Int.le_max_right _ _)

private theorem exists_largestId {stages : List Stage} (h : stages ≠ []) :
    ∃ stage ∈ stages, stage.id.number = largestId stages := by
  induction stages with
  | nil => exact absurd rfl h
  | cons first rest ih =>
    cases rest with
    | nil => exact ⟨first, List.mem_cons_self, rfl⟩
    | cons second rest =>
      obtain ⟨stage, there, largest⟩ := ih (List.cons_ne_nil _ _)
      have either : max first.id.number (largestId (second :: rest)) = first.id.number ∨
          max first.id.number (largestId (second :: rest)) = largestId (second :: rest) := by omega
      rcases either with left | right
      · exact ⟨first, List.mem_cons_self, left.symm⟩
      · exact ⟨stage, List.mem_cons_of_mem _ there, largest.trans right.symm⟩

theorem nextId?_eq_some_iff {stages : List Stage} {id : StageId} :
    nextId? stages = some id ↔ id.number = largestId stages + 1 := by
  rw [nextId?, Option.map_eq_some_iff]
  constructor
  · rintro ⟨n, next, rfl⟩
    exact Number.int64?_eq_some_iff.1 next
  · exact fun next => ⟨id.value, Number.int64?_eq_some_iff.2 next, rfl⟩

theorem nextId?_follows {p : Pipeline} {id : StageId} (h : nextId? p.graph.stages = some id) :
    id.Follows p.stageIds := by
  have next : id.number = largestId p.graph.stages + 1 := nextId?_eq_some_iff.1 h
  refine ⟨fun old there => ?_, fun none => ?_, fun some => ?_⟩
  · obtain ⟨stage, member, rfl⟩ := List.mem_map.1 there
    have := number_le_largestId member
    omega
  · rw [next, List.map_eq_nil_iff.1 none]
    rfl
  · obtain ⟨stage, there, largest⟩ := exists_largestId fun none => some (congrArg _ none)
    exact ⟨stage.id, List.mem_map_of_mem there, next.trans (congrArg (· + 1) largest.symm)⟩

/-- There is a next number unless the largest one there is has been given. -/
theorem nextId?_eq_none_iff {s : Session} :
    nextId? s.pipeline.graph.stages = none ↔ s.Exhausted := by
  constructor
  · intro full
    have some : s.pipeline.graph.stages ≠ [] := by
      intro none
      rw [none] at full
      cases full
    obtain ⟨stage, there, largest⟩ := exists_largestId some
    refine ⟨stage.id, List.mem_map_of_mem there, ?_⟩
    have low : -9223372036854775808 ≤ stage.id.number := Int64.le_toInt _
    have high : stage.id.number < 9223372036854775808 := Int64.toInt_lt _
    have outside : Number.int64? (stage.id.number + 1) = none := by
      rw [largest]
      exact Option.map_eq_none_iff.1 full
    unfold Number.int64? at outside
    split at outside
    · cases outside
    · omega
  · rintro ⟨id, there, top⟩
    refine Option.eq_none_iff_forall_ne_some.2 fun next h => ?_
    have above : id.number < next.number := (nextId?_follows h).above id there
    have high : next.number < 9223372036854775808 := Int64.toInt_lt _
    omega

/-! Adding a stage. -/

private theorem step_of_next {s : Session} {name : String} {plugin : Plugin} {id : StageId}
    (h : nextId? s.pipeline.graph.stages = some id) :
    s.step (.addStage name plugin) =
      (.added id, tellAll { s with pipeline := withStage s.pipeline id name plugin }) := by
  simp only [step, addStage, h, Option.map_some]

private theorem step_of_exhausted {s : Session} (h : s.Exhausted) (name : String)
    (plugin : Plugin) : s.step (.addStage name plugin) = (.overflow, s) := by
  simp only [step, addStage, nextId?_eq_none_iff.2 h, Option.map_none]

private theorem pipeline_tellAll (s : Session) : s.tellAll.pipeline = s.pipeline :=
  tellAll_keeps (·.pipeline) (fun _ _ => rfl) (fun _ _ => rfl) (fun _ _ _ => rfl) s

theorem pipeline_of_added {s t : Session} {name : String} {plugin : Plugin} {id : StageId}
    (h : s.step (.addStage name plugin) = (.added id, t)) :
    t.pipeline = withStage s.pipeline id name plugin := by
  cases next : nextId? s.pipeline.graph.stages with
  | none =>
    rw [step_of_exhausted (nextId?_eq_none_iff.1 next)] at h
    cases h
  | some new =>
    rw [step_of_next next] at h
    cases h
    exact pipeline_tellAll _

private theorem adds_of_next {s : Session} (id : StageId) (name : String) (plugin : Plugin) :
    s.Adds ⟨id, name, plugin, .empty⟩
      (tellAll { s with pipeline := withStage s.pipeline id name plugin }) := by
  have told := underway_tellAll { s with pipeline := withStage s.pipeline id name plugin }
  exact {
    stages := by rw [pipeline_tellAll]; rfl
    connections := by rw [pipeline_tellAll]; rfl
    artifact := by rw [pipeline_tellAll]; rfl
    metadata := by rw [pipeline_tellAll]; rfl
    layout := by rw [pipeline_tellAll]; rfl
    listeners := tellAll_keeps (·.listeners) (fun _ _ => rfl) (fun _ _ => rfl) (fun _ _ _ => rfl) _
    calls := by
      rw [pipeline_tellAll]
      refine (congrArg (fun u => u.2.2) told).trans ?_
      simp [notices, withStage]
    queue := congrArg (fun u => u.2.1) told
    panels := panel?_tellAll _ }

/-- A stage is entered in one piece or, when the number overflows, not at all. -/
private theorem run_enterStage (next : List Stage → Option StageId) (place : Nat → Position)
    (name : String) (plugin : Plugin) (p : Pipeline) :
    ((enterStage next place name plugin).run p).run = match next p.graph.stages with
      | some id => (some id,
        { p with
          graph := { p.graph with stages := p.graph.stages ++ [⟨id, name, plugin, .empty⟩] }
          layout := some ⟨(p.layout.getD .empty).positions.insert name
            (place p.graph.stages.length)⟩ })
      | none => (none, p) := by
  -- with the functions of the model for them, large numbers would be counted down
  cases h : next p.graph.stages with
  | none => simp [enterStage, h]
  | some id => simp [enterStage, h]

private theorem hold_enterStage (p : Pipeline) (poisoned : Bool) (name : String) (plugin : Plugin) :
    (Guarded.mk p poisoned).hold (enterStage nextId? newPosition name plugin) =
      match nextId? p.graph.stages with
      | some id => (some id, ⟨withStage p id name plugin, poisoned⟩)
      | none => (none, ⟨p, true⟩) := by
  rw [Guarded.hold, run_enterStage]
  cases nextId? p.graph.stages with
  | none => simp
  | some id => simp [withStage]

/-! Rows of commands. -/

private theorem added?_onPanel (s : Session) (i : Nat) (c : PanelCommand) :
    (s.step (.onPanel i c)).1.added? = none := by
  simp only [step]
  cases s.panel? i with
  | none => rfl
  | some p => cases c <;> rfl

/-- The ids after a command are those before it and the one that it has added. -/
theorem stageIds_step (s : Session) (c : Command) :
    (s.step c).2.pipeline.stageIds = s.pipeline.stageIds ++ (s.step c).1.added?.toList := by
  rw [pipeline_step_eq]
  cases c with
  | onPanel i command =>
    rw [added?_onPanel, Option.toList_none, List.append_nil, pipelineAfter]
    split
    · cases s.panel? i <;> rfl
    · rfl
  | addStage name plugin =>
    rw [pipelineAfter]
    cases h : nextId? s.pipeline.graph.stages with
    | none =>
      rw [step_of_exhausted (nextId?_eq_none_iff.1 h)]
      exact (List.append_nil _).symm
    | some id =>
      rw [step_of_next h]
      exact List.map_append
  | fire h =>
    simp only [step]
    exact (List.append_nil _).symm
  | _ => exact (List.append_nil _).symm

theorem follows_of_added {s : Session} {c : Command} {id : StageId}
    (h : (s.step c).1.added? = some id) : id.Follows s.pipeline.stageIds := by
  cases c with
  | onPanel i command =>
    rw [added?_onPanel] at h
    cases h
  | addStage name plugin =>
    cases next : nextId? s.pipeline.graph.stages with
    | none =>
      rw [step_of_exhausted (nextId?_eq_none_iff.1 next)] at h
      cases h
    | some new =>
      rw [step_of_next next] at h
      obtain rfl := Option.some.inj h
      exact nextId?_follows next
  | _ => cases h

private theorem addedIds_cons (s : Session) (c : Command) (cs : List Command) :
    s.addedIds (c :: cs) = (s.step c).1.added?.toList ++ (s.step c).2.addedIds cs := by
  rw [addedIds, replies, List.filterMap_cons]
  cases (s.step c).1.added? <;> rfl

theorem stageIds_runAll (s : Session) (commands : List Command) :
    (s.runAll commands).pipeline.stageIds = s.pipeline.stageIds ++ s.addedIds commands := by
  induction commands generalizing s with
  | nil => exact (List.append_nil _).symm
  | cons c cs ih =>
    refine (ih (s.step c).2).trans ?_
    rw [stageIds_step, addedIds_cons, List.append_assoc]

/-- The ids that are added rise, from above those there were. -/
theorem addedIds_rise (s : Session) (commands : List Command) :
    (s.addedIds commands).Pairwise (fun a b => a.number < b.number) ∧
      ∀ old ∈ s.pipeline.stageIds, ∀ id ∈ s.addedIds commands, old.number < id.number := by
  induction commands generalizing s with
  | nil => exact ⟨.nil, nofun⟩
  | cons c cs ih =>
    obtain ⟨rise, above⟩ := ih (s.step c).2
    rw [stageIds_step] at above
    rw [addedIds_cons]
    cases h : (s.step c).1.added? with
    | none =>
      rw [h, Option.toList_none, List.append_nil] at above
      exact ⟨rise, above⟩
    | some new =>
      rw [h] at above
      have behind : ∀ id ∈ (s.step c).2.addedIds cs, new.number < id.number :=
        above new (List.mem_append_right _ List.mem_cons_self)
      refine ⟨.cons behind rise, fun old there id added => ?_⟩
      rcases List.mem_cons.1 added with rfl | later
      · exact (follows_of_added h).above old there
      · exact above old (List.mem_append_left _ there) id later

/-- Ids that differ go on to differ. -/
theorem nodup_stageIds_runAll {s : Session} (h : s.pipeline.stageIds.Nodup)
    (commands : List Command) : (s.runAll commands).pipeline.stageIds.Nodup := by
  obtain ⟨rise, above⟩ := addedIds_rise s commands
  have apart {a b : StageId} (less : a.number < b.number) : a ≠ b := by
    rintro rfl
    exact Int.lt_irrefl _ less
  rw [stageIds_runAll, List.nodup_append]
  exact ⟨h, rise.imp apart, fun old there id added => apart (above old there id added)⟩

/-! The two outcomes. -/

private theorem refuses_of_exhausted {s : Session} (h : s.Exhausted) (name : String)
    (plugin : Plugin) : s.Refuses name plugin where
  step := step_of_exhausted h name plugin
  runAll later := by
    change (s.step (.addStage name plugin)).2.runAll later = _
    rw [step_of_exhausted h]
  replies later := by rw [replies, step_of_exhausted h]
  lock poisoned := by
    rw [hold_enterStage, nextId?_eq_none_iff.2 h]
    exact ⟨rfl, Guarded.alike_of_value rfl⟩

private theorem accepts_of_next {s : Session} {id : StageId}
    (h : nextId? s.pipeline.graph.stages = some id) (name : String) (plugin : Plugin) :
    s.Accepts name plugin id
      (tellAll { s with pipeline := withStage s.pipeline id name plugin }) where
  step := step_of_next h
  follows := nextId?_follows h
  adds := adds_of_next id name plugin
  lock poisoned := by
    rw [hold_enterStage, h, pipeline_tellAll]

/-- In every session, whatever the ids of its stages are, a stage is refused exactly when some stage
has the largest number of 64 bits. Nothing changes then. Otherwise it is added under an id above all
others, and every listener is called once. The ids that are added in a run rise from above those
there were, so that ids that differ when a pipeline is opened differ ever after. -/
theorem stage_id_fresh_or_refused :
    (∀ (s : Session) (name : String) (plugin : Plugin),
      ((s.step (.addStage name plugin)).1 = .overflow ↔ s.Exhausted) ∧
        (s.Exhausted → s.Refuses name plugin) ∧
          (¬s.Exhausted → ∃ id t, s.Accepts name plugin id t)) ∧
    (∀ (s : Session) (commands : List Command),
      (s.runAll commands).pipeline.stageIds = s.pipeline.stageIds ++ s.addedIds commands ∧
        (s.addedIds commands).Pairwise (fun a b => a.number < b.number) ∧
          ∀ old ∈ s.pipeline.stageIds, ∀ id ∈ s.addedIds commands, old.number < id.number) ∧
    ∀ (opening : Opening) (capacity : Nat) (commands : List Command),
      opening.pipeline.stageIds.Nodup →
        ((start opening capacity).runAll commands).pipeline.stageIds.Nodup := by
  refine ⟨fun s name plugin => ?_, fun s commands => ?_, fun opening capacity commands h => ?_⟩
  · cases next : nextId? s.pipeline.graph.stages with
    | none =>
      have full : s.Exhausted := nextId?_eq_none_iff.1 next
      have refused : s.Refuses name plugin := refuses_of_exhausted full name plugin
      have answered : (s.step (.addStage name plugin)).1 = .overflow := by rw [refused.step]
      exact ⟨iff_of_true answered full, fun _ => refused, fun room => absurd full room⟩
    | some id =>
      have room : ¬s.Exhausted := fun full => by
        rw [nextId?_eq_none_iff.2 full] at next
        cases next
      have accepted := accepts_of_next next name plugin
      have answered : (s.step (.addStage name plugin)).1 ≠ .overflow := by
        rw [accepted.step]
        exact nofun
      exact ⟨iff_of_false answered room, fun full => absurd full room, fun _ => ⟨id, _, accepted⟩⟩
  · exact ⟨stageIds_runAll s commands, addedIds_rise s commands⟩
  · rw [← pipeline_start opening capacity] at h
    exact nodup_stageIds_runAll h commands

/-- The last number there is goes to a stage, and the stage after it is refused. -/
theorem stage_id_fresh_or_refused_last :
    let opening : Opening :=
      ⟨{ Pipeline.empty .standard with
          graph := ⟨[⟨⟨9223372036854775806⟩, "read", ⟨"csv", "source"⟩, .empty⟩], []⟩ }, none⟩
    let s := start opening 4
    let t := (s.step (.addStage "write" ⟨"s3", "sink"⟩)).2
    ¬s.Exhausted ∧ (∃ id u, s.Accepts "write" ⟨"s3", "sink"⟩ id u) ∧
      t.Exhausted ∧ t.Refuses "copy" ⟨"s3", "sink"⟩ ∧
        opening.pipeline.stageIds.Nodup ∧ t.pipeline.stageIds.Nodup := by
  intro opening s t
  have room : ¬s.Exhausted := by decide +kernel
  have full : t.Exhausted := by decide +kernel
  have apart : opening.pipeline.stageIds.Nodup := by decide +kernel
  obtain ⟨adding, -, distinct⟩ := stage_id_fresh_or_refused
  exact ⟨room, (adding s _ _).2.2 room, full, (adding t _ _).2.1 full, apart,
    distinct opening 4 [.addStage "write" ⟨"s3", "sink"⟩] apart⟩

end Session
end PipelineEditor
