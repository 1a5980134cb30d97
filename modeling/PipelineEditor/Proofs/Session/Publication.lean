import PipelineEditor.Proofs.History
import PipelineEditor.Proofs.Pipeline.Faults
import PipelineEditor.Proofs.Session.Frame

/-! The published record. It holds the pipeline as it was when it was published last, and only sound
pipelines get there. -/
namespace PipelineEditor.Session

/-- What the console holds after the pipeline was published. -/
def publishedNote (s : Session) : List Message :=
  [⟨.success, "Pipeline " ++ s.pipeline.name ++ " published."⟩]

/-- Whether a command publishes the pipeline, as the console has it. -/
def Publishes (s : Session) (c : Command) : Prop :=
  s.operation? c = some .publish ∧ (s.step c).2.console = s.publishedNote

private theorem operation?_publish {s : Session} {c : Command}
    (h : s.operation? c = some .publish) :
    c = .publish ∨ ∃ i p, s.panel? i = some p ∧ c = .onPanel i (.run .publish) := by
  cases c with
  | publish => exact .inl rfl
  | onPanel i command =>
    cases command with
    | run operation =>
      obtain ⟨p, hp, rfl⟩ := Option.map_eq_some_iff.1 h
      exact .inr ⟨i, p, hp, rfl⟩
    | _ => cases h
  | _ => cases h

/-- A panel that publishes looks at the console afterwards. -/
private theorem step_publish {s : Session} {c : Command} (h : s.operation? c = some .publish) :
    (s.step c).2 = s.publish ∨ ∃ i, (s.step c).2 = s.publish.checkName i := by
  rcases operation?_publish h with rfl | ⟨i, p, hp, rfl⟩
  · exact .inl rfl
  · refine .inr ⟨i, ?_⟩
    simp only [step, hp]
    rfl

theorem publish_of_isValid {s : Session} (h : s.pipeline.isValid = true) :
    s.publish.console = s.publishedNote := by
  have none : s.pipeline.problems = [] := List.isEmpty_iff.1 h
  simp only [publish, validate, if_true]
  rw [if_pos (show s.clearConsole.pipeline.isValid = true from h)]
  simp [say, clearConsole, none, publishedNote, Pipeline.withoutLayout]

theorem publish_of_not_isValid {s : Session} (h : s.pipeline.isValid = false) :
    s.publish = { s with console := s.pipeline.problems } := by
  simp only [publish, validate, if_true]
  rw [if_neg (by simp [clearConsole, h])]
  rfl

private theorem console_step_publish {s : Session} {c : Command}
    (h : s.operation? c = some .publish) : (s.step c).2.console = s.publish.console := by
  rcases step_publish h with he | ⟨i, he⟩
  · rw [he]
  · rw [he]
    rfl

/-- A command that is to publish does so when the pipeline is valid, and only then. -/
theorem publishes_iff (s : Session) (c : Command) :
    s.Publishes c ↔ s.operation? c = some .publish ∧ s.pipeline.isValid = true := by
  constructor
  · rintro ⟨runs, console⟩
    refine ⟨runs, ?_⟩
    rw [console_step_publish runs] at console
    cases valid : s.pipeline.isValid with
    | true => rfl
    | false =>
      rw [publish_of_not_isValid valid] at console
      have success : ⟨.success, "Pipeline " ++ s.pipeline.name ++ " published."⟩ ∈
          s.pipeline.problems := by
        rw [show s.pipeline.problems = s.publishedNote from console]
        exact List.mem_singleton_self _
      exact absurd rfl (Pipeline.kind_of_mem_problems success)
  · rintro ⟨runs, valid⟩
    exact ⟨runs, (console_step_publish runs).trans (publish_of_isValid valid)⟩

theorem published_of_publishes {s : Session} {c : Command} (h : s.Publishes c) :
    (s.step c).2.published = some ⟨s.pipeline.name, s.pipeline.withoutLayout⟩ := by
  rw [published_step, publishedAfter, if_pos ((publishes_iff s c).1 h)]

theorem published_of_not_publishes {s : Session} {c : Command} (h : ¬ s.Publishes c) :
    (s.step c).2.published = s.published := by
  rw [published_step, publishedAfter, if_neg fun hp => h ((publishes_iff s c).2 hp)]

/-- A run publishes at a command, and not again after it. -/
structure PublishedLast (s : Session) (before : List Command) (c : Command) (after : List Command) :
    Prop where
  done : (s.runAll before).Publishes c
  last : ∀ between d rest, after = between ++ d :: rest →
    ¬ (s.runAll (before ++ c :: between)).Publishes d

private theorem publishedLast_concat {s : Session} {before after : List Command} {c d : Command} :
    s.PublishedLast before c (after ++ [d]) ↔
      s.PublishedLast before c after ∧ ¬ (s.runAll (before ++ c :: after)).Publishes d := by
  constructor
  · rintro ⟨done, last⟩
    refine ⟨⟨done, ?_⟩, last after d [] rfl⟩
    rintro between e rest rfl
    exact last between e (rest ++ [d]) (by simp)
  · rintro ⟨⟨done, last⟩, quiet⟩
    refine ⟨done, fun between e rest hs => ?_⟩
    rcases concat_eq_cut_iff.1 hs with ⟨rfl, rfl, -⟩ | ⟨rest, -, rfl⟩
    · exact quiet
    · exact last between e rest rfl

/-- The record is that of the last publication of the run, if there was one. -/
theorem published_runAll {s : Session} (h : s.published = none) (commands : List Command)
    (r : Published) :
    (s.runAll commands).published = some r ↔ ∃ before c after,
      commands = before ++ c :: after ∧ s.PublishedLast before c after ∧
        r = ⟨(s.runAll before).pipeline.name, (s.runAll before).pipeline.withoutLayout⟩ := by
  induction commands using List.reverseRecOn with
  | nil =>
    constructor
    · intro hr
      cases h.symm.trans hr
    · rintro ⟨before, c, after, hs, -⟩
      simp at hs
  | append_singleton commands d ih =>
    rw [runAll_concat]
    constructor
    · intro hr
      by_cases hd : (s.runAll commands).Publishes d
      · rw [published_of_publishes hd] at hr
        have alone : s.PublishedLast commands d [] := ⟨hd, fun between e rest hs => by simp at hs⟩
        exact ⟨commands, d, [], rfl, alone, (Option.some.inj hr).symm⟩
      · rw [published_of_not_publishes hd] at hr
        obtain ⟨before, c, after, rfl, hl, he⟩ := ih.1 hr
        exact ⟨before, c, after ++ [d], by simp, publishedLast_concat.2 ⟨hl, hd⟩, he⟩
    · rintro ⟨before, c, after, hs, hl, rfl⟩
      rcases concat_eq_cut_iff.1 hs with ⟨rfl, rfl, -⟩ | ⟨after, rfl, rfl⟩
      · exact published_of_publishes hl.done
      · obtain ⟨hl, quiet⟩ := publishedLast_concat.1 hl
        rw [published_of_not_publishes quiet]
        exact ih.2 ⟨before, c, after, rfl, hl, rfl⟩

/-- The panel without the mark of its name. -/
def unmarked (p : Panel) : Panel :=
  { p with invalidName := false }

/-- When nothing is published, the console gets the problems, and the panel that was to publish may
mark its name. -/
theorem step_of_not_publishes {s : Session} {c : Command} (h : s.operation? c = some .publish)
    (hp : ¬ s.Publishes c) :
    (s.step c).2 =
        { s with console := s.pipeline.problems, panels := (s.step c).2.panels } ∧
      ∀ i, ((s.step c).2.panel? i).map unmarked = (s.panel? i).map unmarked := by
  have invalid : s.pipeline.isValid = false :=
    Bool.eq_false_iff.2 fun valid => hp ((publishes_iff s c).2 ⟨h, valid⟩)
  have rejected := publish_of_not_isValid invalid
  rcases step_publish h with he | ⟨j, he⟩
  · rw [he, rejected]
    exact ⟨rfl, fun i => rfl⟩
  · rw [he, rejected]
    refine ⟨rfl, fun i => ?_⟩
    rw [checkName, panel?_modifyPanel]
    split
    · rw [Option.map_map]
      rfl
    · rfl

/-- In every run of a session the record holds the pipeline, without its layout, as the last command
that published found it, and it is sound. A command that is to publish does so exactly when the
pipeline is found valid; it leaves all but the console and the mark of a panel alone otherwise. -/
theorem published_pipeline_sound (opening : Opening) (capacity : Nat) (commands : List Command) :
    let s := start opening capacity
    let t := s.runAll commands
    (∀ r, t.published = some r →
      r.name = r.pipeline.name ∧ r.pipeline.Sound ∧ r.pipeline.layout = none) ∧
    (∀ r, t.published = some r ↔ ∃ before c after,
      commands = before ++ c :: after ∧ s.PublishedLast before c after ∧
        r = ⟨(s.runAll before).pipeline.name, (s.runAll before).pipeline.withoutLayout⟩) ∧
    (∀ c, t.operation? c = some .publish →
      (t.Publishes c ↔ (t.step (.validate false)).1 = .flag true)) ∧
    (∀ c, t.operation? c = some .publish → ¬ t.Publishes c →
      (t.step c).2 = { t with console := t.pipeline.problems, panels := (t.step c).2.panels } ∧
        ∀ i, ((t.step c).2.panel? i).map unmarked = (t.panel? i).map unmarked) := by
  intro s t
  have fresh : s.published = none :=
    (congrArg Session.published (shared_addPanel (vacant opening.pipeline capacity)
      opening.clonedFrom) :)
  have history := published_runAll fresh commands
  refine ⟨fun r hr => ?_, history, fun c hc => ?_, fun c hc => step_of_not_publishes hc⟩
  · obtain ⟨before, c, after, -, hl, rfl⟩ := (history r).1 hr
    have valid := ((publishes_iff _ c).1 hl.done).2
    obtain ⟨name, stages, joined⟩ := (Pipeline.isValid_iff _).1 valid
    exact ⟨rfl, ⟨name, stages, joined⟩, rfl⟩
  · have reply : (t.step (.validate false)).1 = .flag t.pipeline.isValid := rfl
    rw [publishes_iff, reply, Reply.flag.injEq]
    exact and_iff_right hc

/-- A pipeline is published, renamed to what is no name, and kept from being published again by its
panel. -/
theorem published_pipeline_sound_renamed :
    let s := start ⟨.empty .standard, none⟩ 4
    let commands : List Command :=
      [.addStage "read" ⟨"csv", "source"⟩, .setMetadata ⟨"orders", ""⟩, .publish,
        .setMetadata ⟨"old orders", ""⟩, .onPanel 0 (.run .publish)]
    let t := s.runAll commands
    (∃ r, t.published = some r ∧ r.name = "orders" ∧ r.name = r.pipeline.name ∧ r.pipeline.Sound ∧
      r.pipeline.layout = none) ∧
    t.operation? .publish = some .publish ∧ ¬ t.Publishes .publish ∧
      (t.step .publish).2 =
        { t with console := t.pipeline.problems, panels := (t.step .publish).2.panels } := by
  intro s commands t
  obtain ⟨sound, -, accepted, rejected⟩ :=
    published_pipeline_sound ⟨.empty .standard, none⟩ 4 commands
  have refused : ¬ t.Publishes .publish := by
    rw [accepted .publish rfl]
    decide +kernel
  have kept : t.published.map (·.name) = some "orders" := by
    decide +kernel
  obtain ⟨r, hr, name⟩ := Option.map_eq_some_iff.1 kept
  exact ⟨⟨r, hr, name, sound r hr⟩, rfl, refused, (rejected .publish rfl refused).1⟩

end PipelineEditor.Session
