import PipelineEditor.Proofs.Session.Publication

/-! What is said of the pipeline when it is looked at. Validation finds its faults and nothing else,
and a panel that validates or publishes shows what was found now, whatever was found before. -/
namespace PipelineEditor.Session

open Pipeline (FollowsPattern)

/-- What a session says of the pipeline of an earlier one, which it has kept: one success, or the
problems. -/
structure Verdict (s : Session) (success : String) (t : Session) : Prop where
  pipeline : t.pipeline = s.pipeline
  sound : s.pipeline.Sound → t.console = [⟨.success, success⟩]
  faulty : ¬ s.pipeline.Sound → t.console = s.pipeline.problems

theorem step_validate (s : Session) (verbose : Bool) :
    s.step (.validate verbose) = (.flag (s.pipeline.problems = []),
      { s with console := s.console ++ if verbose then s.pipeline.problems else [] }) := by
  have valid : s.pipeline.isValid = decide (s.pipeline.problems = []) := by
    rw [Pipeline.isValid, Bool.eq_iff_iff, List.isEmpty_iff, decide_eq_true_iff]
  simp only [step, validate, valid]
  cases verbose with
  | false => rw [if_neg Bool.false_ne_true, if_neg Bool.false_ne_true, List.append_nil]
  | true => rfl

/-- The faults of a pipeline are one list, which is found in words: that of the name, that of having
no stage, and one for each end of a connection that is no stage. There are none exactly when the
name follows the pattern, there is a stage, and all ends are stages. Validating says whether there
are any, adds them to the console when verbose, and changes nothing else. -/
theorem validation_reports_faults :
    (∀ p : Pipeline, ∃ fs, (∀ gs, p.Listed gs ↔ gs = fs) ∧ p.problems = fs.map Fault.message) ∧
    (∀ p : Pipeline, p.problems = [] ↔
      FollowsPattern p.name ∧ p.graph.stages ≠ [] ∧
        ∀ c ∈ p.graph.connections, c.source ∈ p.graph.names ∧ c.target ∈ p.graph.names) ∧
    ∀ (s : Session) (verbose : Bool),
      s.step (.validate verbose) = (.flag (s.pipeline.problems = []),
        { s with console := s.console ++ if verbose then s.pipeline.problems else [] }) := by
  refine ⟨fun p => ?_, fun p => ?_, step_validate⟩
  · obtain ⟨fs, listed⟩ := Pipeline.Listed.exists_of p
    refine ⟨fs, fun gs => ⟨listed.unique, ?_⟩, listed.problems⟩
    rintro rfl
    exact listed
  · have valid : p.problems = [] ↔ p.isValid = true := List.isEmpty_iff.symm
    rw [valid, Pipeline.isValid_iff]
    constructor
    · rintro ⟨name, stages, joined⟩
      exact ⟨(Pipeline.isValidName_iff _).1 name, stages, joined⟩
    · rintro ⟨name, stages, joined⟩
      exact ⟨(Pipeline.isValidName_iff _).2 name, stages, joined⟩

/-- A pipeline with a blank name, two stages of one name and a connection of a missing stage to
itself. -/
theorem validation_reports_faults_twice :
    let stage (n : Int64) : Stage := ⟨⟨n⟩, "read", ⟨"csv", "source"⟩, .empty⟩
    let p : Pipeline :=
      { Pipeline.empty .standard with
        name := "\u2003\t"
        graph := ⟨[stage 1, stage 2], [⟨"read", "load"⟩, ⟨"load", "load"⟩, ⟨"read", "read"⟩]⟩ }
    p.problems =
      [⟨.missingName, "Pipeline name is missing."⟩,
        ⟨.error, "Connection read -> load references unknown stage 'load'."⟩,
        ⟨.error, "Connection load -> load references unknown stage 'load'."⟩,
        ⟨.error, "Connection load -> load references unknown stage 'load'."⟩] := by
  intro stage p
  obtain ⟨fs, only, said⟩ := validation_reports_faults.1 p
  have name : p.name = "\u2003\t" := rfl
  have blank : ∀ c ∈ p.name.toList, c.toNat ∈ Text.whiteSpace := by
    simp [name, Text.whiteSpace]
  have there : "read" ∈ p.graph.names := List.mem_cons_self
  have missing : "load" ∉ p.graph.names := by decide
  have listed : p.Listed _ :=
    .intro (.missing blank) .none
      (.joined there (.dangling missing (.dangling missing (.dangling missing
        (.joined there (.joined there .nil))))))
  rw [said, ← (only _).1 listed]
  rfl

/-! Validating and publishing for a panel. -/

private theorem step_run {s : Session} {i : Nat} {p : Panel} (hp : s.panel? i = some p)
    (operation : Operation) : (s.step (.onPanel i (.run operation))).2 = s.run i operation := by
  simp only [step, hp]
  rfl

private theorem validateFor_of_isValid {s : Session} (h : s.pipeline.isValid = true) (i : Nat) :
    s.validateFor i = { s with
      console := [⟨.success, "Validation success! Pipeline " ++ s.pipeline.name ++ " is valid."⟩] } := by
  have none : s.pipeline.problems = [] := List.isEmpty_iff.1 h
  simp only [validateFor, validate, if_true]
  rw [if_pos (show s.clearConsole.pipeline.isValid = true from h)]
  simp [say, clearConsole, none]

private theorem validateFor_of_not_isValid {s : Session} (h : s.pipeline.isValid = false)
    (i : Nat) : s.validateFor i = { s with console := s.pipeline.problems }.checkName i := by
  simp only [validateFor, validate, if_true]
  rw [if_neg (by simp [clearConsole, h])]
  rfl

private theorem verdict_validateFor (s : Session) (i : Nat) :
    s.Verdict ("Validation success! Pipeline " ++ s.pipeline.name ++ " is valid.")
      (s.validateFor i) := by
  refine ⟨(congrArg Session.pipeline (validateFor_eq s i) :), fun sound => ?_, fun faulty => ?_⟩
  · rw [validateFor_of_isValid ((Pipeline.isValid_iff _).2 sound)]
  · have invalid := Bool.eq_false_iff.2 (mt (Pipeline.isValid_iff _).1 faulty)
    rw [validateFor_of_not_isValid invalid]
    rfl

private theorem verdict_publish (s : Session) :
    s.Verdict ("Pipeline " ++ s.pipeline.name ++ " published.") s.publish := by
  refine ⟨(congrArg Session.pipeline (publish_eq s) :), fun sound => ?_, fun faulty => ?_⟩
  · exact publish_of_isValid ((Pipeline.isValid_iff _).2 sound)
  · have invalid := Bool.eq_false_iff.2 (mt (Pipeline.isValid_iff _).1 faulty)
    rw [publish_of_not_isValid invalid]

/-- A panel may look at the console afterwards. -/
private theorem Verdict.checkName {s t : Session} {success : String} (h : s.Verdict success t)
    (i : Nat) : s.Verdict success (t.checkName i) :=
  ⟨h.pipeline, h.sound, h.faulty⟩

private theorem any_isNameError_publish (s : Session) :
    s.publish.console.any (·.kind.isNameError) = !Pipeline.isValidName s.pipeline.name := by
  cases valid : s.pipeline.isValid with
  | true =>
    rw [publish_of_isValid valid, ((Pipeline.isValid_iff _).1 valid).name]
    rfl
  | false =>
    rw [publish_of_not_isValid valid]
    exact Pipeline.any_isNameError s.pipeline

/-- In every state of a session, whatever the console holds, a panel that validates or publishes
leaves the verdict on the pipeline there and nothing else. It then marks its name exactly when the
name of the pipeline is not valid, except that it keeps its mark when validation succeeds. What the
console held before makes no difference. -/
theorem verdict_of_current_pipeline {s : Session} {i : Nat} {p : Panel}
    (hp : s.panel? i = some p) :
    let validated := (s.step (.onPanel i (.run .validate))).2
    let published := (s.step (.onPanel i (.run .publish))).2
    let marked := { p with invalidName := !Pipeline.isValidName s.pipeline.name }
    s.Verdict ("Validation success! Pipeline " ++ s.pipeline.name ++ " is valid.") validated ∧
    s.Verdict ("Pipeline " ++ s.pipeline.name ++ " published.") published ∧
    (s.pipeline.Sound → validated.panel? i = some p) ∧
    (¬ s.pipeline.Sound → validated.panel? i = some marked) ∧
    published.panel? i = some marked ∧
    ∀ old, ({ s with console := old }.step (.onPanel i (.run .validate))).2 = validated ∧
      ({ s with console := old }.step (.onPanel i (.run .publish))).2 = published := by
  intro validated published marked
  have validates : validated = s.validateFor i := step_run hp .validate
  have publishes : published = s.publish.checkName i := step_run hp .publish
  have operated (operation : Operation) :
      (s.run i operation).panel? i = some (p.operated s operation) := by
    rw [panel?_run, if_pos rfl, hp]
    rfl
  refine ⟨validates ▸ verdict_validateFor s i, publishes ▸ (verdict_publish s).checkName i,
    fun sound => ?_, fun faulty => ?_, ?_, fun old => ?_⟩
  · have valid : s.pipeline.isValid = true := (Pipeline.isValid_iff _).2 sound
    rw [validates]
    refine (operated .validate).trans (congrArg some ?_)
    rw [Panel.operated, if_pos valid]
  · have invalid : ¬ s.pipeline.isValid = true := mt (Pipeline.isValid_iff _).1 faulty
    rw [validates]
    refine (operated .validate).trans (congrArg some ?_)
    rw [Panel.operated, if_neg invalid, Panel.checked, Pipeline.any_isNameError]
  · rw [publishes]
    refine (operated .publish).trans (congrArg some ?_)
    rw [Panel.operated, Panel.checked, any_isNameError_publish]
  · have there : ({ s with console := old } : Session).panel? i = some p := hp
    rw [step_run there, step_run there, validates, publishes]
    exact ⟨rfl, rfl⟩

/-- A draft without a name is refused and leaves its message. The panel marks the name when it
publishes, keeps the mark when the named pipeline validates, and takes it back when it publishes
again. -/
theorem verdict_of_current_pipeline_renamed :
    let s := (start ⟨.empty .standard, none⟩ 4).runAll
      [.saveDraft, .onPanel 0 (.run .publish), .saveDraft, .addStage "read" ⟨"csv", "source"⟩,
        .setMetadata ⟨"orders", ""⟩]
    let validated := (s.step (.onPanel 0 (.run .validate))).2
    let published := (s.step (.onPanel 0 (.run .publish))).2
    ∃ p, s.panel? 0 = some p ∧ p.invalidName = true ∧ s.pipeline.Sound ∧
      s.console.any (·.kind.isNameError) = true ∧
      validated.console =
        [⟨.success, "Validation success! Pipeline orders is valid."⟩] ∧
      validated.panel? 0 = some p ∧
      published.console = [⟨.success, "Pipeline orders published."⟩] ∧
      published.panel? 0 = some { p with invalidName := false } := by
  intro s validated published
  have before : (s.panel? 0).map (·.invalidName) = some true := by decide +kernel
  obtain ⟨p, hp, mark⟩ := Option.map_eq_some_iff.1 before
  have sound : s.pipeline.Sound := (Pipeline.isValid_iff _).1 (by decide +kernel)
  obtain ⟨validation, publication, kept, -, marked, -⟩ := verdict_of_current_pipeline hp
  have name : s.pipeline.name = "orders" := by decide +kernel
  rw [name] at validation publication
  rw [sound.name] at marked
  exact ⟨p, hp, mark, sound, by decide +kernel, validation.sound sound, kept sound,
    publication.sound sound, marked⟩

end PipelineEditor.Session
