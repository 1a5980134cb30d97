import PipelineEditor.Proofs.Pipeline.Faults
import PipelineEditor.Proofs.Session.Frame

/-! The drafts of a session. They are a history of the pipeline: each is the pipeline as a call for a
draft found it, they stand in the order of the calls, and none is lost or changed afterwards. -/
namespace PipelineEditor.Session

/-- The pipelines that the calls for a draft find in a row of commands, one after the other. -/
def draftCalls (s : Session) : List Command → List Pipeline
  | [] => []
  | c :: cs =>
    (if s.operation? c = some .save then [s.pipeline] else []) ++ (s.step c).2.draftCalls cs

/-! One call. -/

private theorem step_saveDraft {s : Session} {c : Command} (h : s.operation? c = some .save) :
    (s.step c).2 = s.saveDraft := by
  cases c with
  | saveDraft => rfl
  | onPanel i command =>
    cases command with
    | run operation =>
      obtain ⟨p, hp, rfl⟩ := Option.map_eq_some_iff.1 h
      simp only [step, hp]
      rfl
    | _ => cases h
  | _ => cases h

private theorem saveDraft_of_unnamed {s : Session} (h : s.pipeline.Unnamed) :
    s.saveDraft = { s with
      console := s.console ++
        [⟨.missingName, "Please name the pipeline before saving a draft."⟩] } := by
  rw [saveDraft, if_pos ((Pipeline.blank_iff _).2 h)]
  rfl

private theorem saveDraft_of_named {s : Session} (h : ¬ s.pipeline.Unnamed) :
    s.saveDraft = { s with
      console := s.console ++ [⟨.info, "Draft " ++ s.pipeline.name ++ " saved."⟩]
      drafts := s.drafts ++ [s.pipeline] } := by
  rw [saveDraft, if_neg (mt (Pipeline.blank_iff _).1 h)]
  rfl

/-! A run. -/

theorem drafts_step (s : Session) (c : Command) :
    (s.step c).2.drafts = s.drafts ++ (s.draftCalls [c]).filter (¬ ·.Unnamed) := by
  have after : (s.step c).2.drafts = s.draftsAfter c :=
    (congrArg Session.drafts (shared_step_eq s c) :)
  have shown : Text.blank s.pipeline.name = false ↔ ¬ s.pipeline.Unnamed := by
    rw [← Bool.not_eq_true, Pipeline.blank_iff]
    rfl
  rw [after, draftsAfter, draftCalls, draftCalls, List.append_nil]
  by_cases call : s.operation? c = some .save
  · by_cases unnamed : s.pipeline.Unnamed <;> simp [call, shown, unnamed]
  · simp [call]

/-- A call for a draft is refused when it finds no name, and only then. -/
theorem draft_refused_iff {s : Session} {c : Command} (call : s.operation? c = some .save) :
    (s.step c).2.drafts = s.drafts ↔ s.pipeline.Unnamed := by
  rw [drafts_step, draftCalls, draftCalls, if_pos call]
  by_cases unnamed : s.pipeline.Unnamed <;> simp [unnamed]

/-- A run adds to the drafts the pipelines that its calls found, but for those without a name. -/
theorem drafts_runAll (s : Session) (commands : List Command) :
    (s.runAll commands).drafts =
      s.drafts ++ (s.draftCalls commands).filter (¬ ·.Unnamed) := by
  induction commands generalizing s with
  | nil => exact (List.append_nil _).symm
  | cons c cs ih =>
    refine (ih (s.step c).2).trans ?_
    rw [drafts_step, draftCalls, draftCalls, draftCalls, List.append_nil, List.filter_append,
      List.append_assoc]

theorem drafts_stay (s : Session) (commands : List Command) :
    s.drafts <+: (s.runAll commands).drafts :=
  drafts_runAll s commands ▸ List.prefix_append _ _

private theorem drafts_start (opening : Opening) (capacity : Nat) :
    (start opening capacity).drafts = [] :=
  (congrArg Session.drafts (shared_addPanel (vacant opening.pipeline capacity)
    opening.clonedFrom) :)

/-- The drafts of an earlier moment are the first ones of a later moment. They are the pipelines that
the calls for a draft found, with their layouts, but for those without a name, and so there are as
many as calls that found a name. A call that finds one puts the pipeline behind all drafts, where it
stays whatever comes, and one message into the console; a call that finds none only puts a message
into the console. Nothing else is touched. -/
theorem drafts_append_only (opening : Opening) (capacity : Nat) (earlier later : List Command) :
    let s := start opening capacity
    let t := s.runAll earlier
    let u := t.runAll later
    t.drafts <+: u.drafts ∧
    u.drafts = (s.draftCalls (earlier ++ later)).filter (¬ ·.Unnamed) ∧
    u.drafts.length = (s.draftCalls (earlier ++ later)).countP (¬ ·.Unnamed) ∧
    (∀ c, t.operation? c = some .save → ¬ t.pipeline.Unnamed →
      (t.step c).2 = { t with
        console := t.console ++ [⟨.info, "Draft " ++ t.pipeline.name ++ " saved."⟩]
        drafts := t.drafts ++ [t.pipeline] } ∧
      ∀ rest, ((t.step c).2.runAll rest).drafts[t.drafts.length]? = some t.pipeline) ∧
    (∀ c, t.operation? c = some .save → t.pipeline.Unnamed →
      (t.step c).2 = { t with
        console := t.console ++
          [⟨.missingName, "Please name the pipeline before saving a draft."⟩] }) := by
  intro s t u
  have history : u.drafts = (s.draftCalls (earlier ++ later)).filter (¬ ·.Unnamed) := by
    rw [show u = s.runAll (earlier ++ later) from (runAll_append s earlier later).symm,
      drafts_runAll, drafts_start, List.nil_append]
  refine ⟨drafts_stay t later, history, ?_, fun c call named => ⟨?_, fun rest => ?_⟩,
    fun c call unnamed => ?_⟩
  · rw [history, List.countP_eq_length_filter]
  · rw [step_saveDraft call, saveDraft_of_named named]
  · obtain ⟨more, kept⟩ := drafts_stay (t.step c).2 rest
    have saved : (t.step c).2.drafts = t.drafts ++ [t.pipeline] := by
      rw [step_saveDraft call, saveDraft_of_named named]
    rw [← kept, saved]
    simp
  · rw [step_saveDraft call, saveDraft_of_unnamed unnamed]

/-- A draft without a name is refused, and one with a name saved by the panel. It stays as it was
when the pipeline gets a stage and no name again, and publishing clears the console. -/
theorem drafts_append_only_refused :
    let s := start ⟨.empty .standard, none⟩ 4
    let t := s.runAll [.saveDraft, .setMetadata ⟨"orders", ""⟩]
    let u := (t.step (.onPanel 0 (.run .save))).2.runAll
      [.addStage "read" ⟨"csv", "source"⟩, .setMetadata ⟨"\u2003", ""⟩, .saveDraft, .publish]
    s.operation? .saveDraft = some .save ∧ s.pipeline.Unnamed ∧
      (s.step .saveDraft).2 = { s with
        console := s.console ++
          [⟨.missingName, "Please name the pipeline before saving a draft."⟩] } ∧
    t.operation? (.onPanel 0 (.run .save)) = some .save ∧ ¬ t.pipeline.Unnamed ∧
      u.drafts[t.drafts.length]? = some t.pipeline ∧ t.pipeline.name = "orders" ∧
      u.drafts.length = 1 ∧ u.pipeline.graph.stages.length = 1 ∧ u.pipeline.name = "\u2003" := by
  intro s t u
  have unnamed : s.pipeline.Unnamed := by decide +kernel
  have call : t.operation? (.onPanel 0 (.run .save)) = some .save := by decide +kernel
  have named : ¬ t.pipeline.Unnamed := by decide +kernel
  obtain ⟨-, -, -, -, refused⟩ := drafts_append_only ⟨.empty .standard, none⟩ 4 [] []
  obtain ⟨-, -, -, saved, -⟩ := drafts_append_only ⟨.empty .standard, none⟩ 4
    [.saveDraft, .setMetadata ⟨"orders", ""⟩] []
  exact ⟨rfl, unnamed, refused .saveDraft rfl unnamed, call, named, (saved _ call named).2 _,
    by decide +kernel, by decide +kernel, by decide +kernel, by decide +kernel⟩

end PipelineEditor.Session
