import PipelineEditor.Proofs.File
import PipelineEditor.Proofs.Settings.Sections
import PipelineEditor.Proofs.Settings.Variables

/-! The settings that are loaded, field by field. Every field is on its own: what the environment
names it, or else what the file sets it to, or else what it is by itself. -/
namespace PipelineEditor.Settings

open Toml (Value Entries)

/-- What is found where the settings file is. -/
def Source.file : Source → FileState
  | .given file => file
  | .usual file => file

/-- The text that the settings file has, in UTF-8. It has none if there is no file in the usual
place, which a file at a path that was given may not do. -/
def Source.Holds (source : Source) : Option String → Prop
  | none => source = .usual .missing
  | some text => source.file = .content text.toUTF8

/-- The table of what the settings file sets. -/
def Source.Sets (source : Source) (entries : Entries) : Prop :=
  (source.Holds none ∧ entries = []) ∨
    ∃ text, source.Holds (some text) ∧ Toml.ofString? text = some entries

/-- A field is resolved over the layers: to what its variable names, if it names anything, or else
to what the value in the file stands for, if there is one, or else to the standard. -/
structure Layered {α : Type} (names : α → Prop) (value : Option Value)
    (means : Value → α → Prop) (standard x : α) : Prop where
  ofVariable : ∀ y, names y → x = y
  ofFile : (∀ y, ¬names y) → ∀ v, value = some v → means v x
  ofStandard : (∀ y, ¬names y) → value = none → x = standard

/-- All fields are resolved over the layers, each from the variable of its own, if it has one, and
from its own value in the file. -/
structure Resolved (entries : Entries) (env : Environment) (s : Settings) : Prop where
  logFilter : Layered (fun x => env "STUDIO__LOG_FILTER" = some x) (under? entries "log_filter")
    IsText "info" s.logFilter
  windowTitle : Layered (fun _ => False) (under? entries "window_title") IsText
    "Pipeline Studio" s.windowTitle
  queueCapacity :
    Layered (fun n => ∃ v, env "STUDIO__EVENT_QUEUE_CAPACITY" = some v ∧ NamesCapacity v n)
      (under? entries "event_queue_capacity") IsCount 256 s.queueCapacity
  name : Layered (fun x => env "STUDIO__ARTIFACT_NAME" = some x)
    ((under? entries "artifact").bind (member? "name")) IsText "cdap-data-pipeline"
    s.artifact.name
  version : Layered (fun x => env "STUDIO__ARTIFACT_VERSION" = some x)
    ((under? entries "artifact").bind (member? "version")) IsText "4.0.0"
    s.artifact.version
  scope : Layered (fun x => ∃ v, env "STUDIO__ARTIFACT_SCOPE" = some v ∧ NamesScope v x)
    ((under? entries "artifact").bind (member? "scope")) IsScope .system
    s.artifact.scope
  room : 0 < s.queueCapacity

/-! The text of the file. -/

theorem Source.Holds.unique {source : Source} {t u : Option String} (ht : source.Holds t)
    (hu : source.Holds u) : t = u := by
  cases t with
  | none =>
    obtain rfl : source = _ := ht
    cases u with
    | none => rfl
    | some u => exact absurd hu (by simp [Source.Holds, Source.file])
  | some t =>
    cases u with
    | none =>
      obtain rfl : source = _ := hu
      exact absurd ht (by simp [Source.Holds, Source.file])
    | some u =>
      have same : Except.ok t = Except.ok u :=
        (FileState.text_eq_ok_iff.2 ht).symm.trans (FileState.text_eq_ok_iff.2 hu)
      exact congrArg some (Except.ok.inj same)

private theorem ofSource_of_holds_none {source : Source} (h : source.Holds none) :
    ofSource source = .ok standard := by
  obtain rfl : source = _ := h
  rfl

private theorem ofSource_of_ne {source : Source} (h : source ≠ .usual .missing) :
    ofSource source = match source.file.text with
      | .error e => .error (.unreadable e)
      | .ok text => match standard.applyFile text with
        | (s, none) => .ok s
        | (_, some e) => .error e := by
  unfold ofSource
  split
  · exact absurd rfl h
  · rfl
  · rfl

private theorem ofSource_of_holds_some {source : Source} {text : String}
    (h : source.Holds (some text)) :
    ofSource source = match standard.applyFile text with
      | (s, none) => .ok s
      | (_, some e) => .error e := by
  have found : source ≠ .usual .missing := fun missing =>
    Option.some_ne_none text (h.unique missing)
  simp only [ofSource_of_ne found, FileState.text_eq_ok_iff.2 h]

private theorem ofSource_of_not_holds {source : Source} (h : ∀ text, ¬source.Holds text) :
    ∃ reason, ofSource source = .error (.unreadable reason) := by
  rw [ofSource_of_ne (h none)]
  cases read : source.file.text with
  | error reason => exact ⟨reason, rfl⟩
  | ok text => exact absurd (FileState.text_eq_ok_iff.1 read) (h (some text))

/-- The layers below the environment are refused if there is no text to read or it is rejected. -/
private theorem ofSource_error_iff {source : Source} :
    (∃ e, ofSource source = .error e) ↔ (∀ text, ¬source.Holds text) ∨
      ∃ text, source.Holds (some text) ∧ (standard.applyFile text).2 ≠ none := by
  constructor
  · rintro ⟨e, refused⟩
    by_cases held : ∃ text, source.Holds text
    · obtain ⟨_ | text, held⟩ := held
      · rw [ofSource_of_holds_none held] at refused
        cases refused
      · refine .inr ⟨text, held, fun accepted => ?_⟩
        rw [ofSource_of_holds_some held] at refused
        split at refused
        · cases refused
        next rejected => simp [rejected] at accepted
    · exact .inl fun text h => held ⟨text, h⟩
  · rintro (unreadable | ⟨text, held, rejected⟩)
    · obtain ⟨reason, refused⟩ := ofSource_of_not_holds unreadable
      exact ⟨_, refused⟩
    · rw [ofSource_of_holds_some held]
      split
      next accepted => simp [accepted] at rejected
      next e _ => exact ⟨e, rfl⟩

private theorem applySections_eq_accepted {s t : Settings} {f : Sections}
    (h : s.applySections f = (t, none)) :
    f.queueCapacity ≠ some 0 ∧ t =
      { logFilter := f.logFilter.getD s.logFilter
        windowTitle := f.windowTitle.getD s.windowTitle
        queueCapacity := f.queueCapacity.getD s.queueCapacity
        artifact :=
          { name := (f.artifact.bind (·.name)).getD s.artifact.name
            version := (f.artifact.bind (·.version)).getD s.artifact.version
            scope := (f.artifact.bind (·.scope)).getD s.artifact.scope } } := by
  unfold applySections at h
  dsimp only at h
  split at h
  · cases h
  next room =>
    refine ⟨room, ?_⟩
    obtain ⟨rfl, -⟩ := Prod.mk.inj h
    cases f.artifact <;> rfl

private theorem applyFile_eq_accepted {s t : Settings} {text : String}
    (h : s.applyFile text = (t, none)) :
    ∃ entries f, Toml.ofString? text = some entries ∧ readEntries entries = .ok f ∧
      s.applySections f = (t, none) := by
  unfold applyFile Sections.ofString at h
  cases parsed : Toml.ofString? text with
  | none => simp [parsed] at h
  | some entries =>
    simp only [parsed] at h
    cases read : readEntries entries with
    | error e => simp [read] at h
    | ok f =>
      simp only [read] at h
      exact ⟨entries, f, rfl, read, h⟩

/-- What is below the environment is the standard with the fields of one table over it. -/
private theorem ofSource_ok {source : Source} {s : Settings} (h : ofSource source = .ok s) :
    ∃ entries f, source.Sets entries ∧ readEntries entries = .ok f ∧
      standard.applySections f = (s, none) := by
  by_cases held : ∃ text, source.Holds text
  · obtain ⟨_ | text, held⟩ := held
    · rw [ofSource_of_holds_none held] at h
      obtain rfl := Except.ok.inj h
      exact ⟨[], ⟨none, none, none, none⟩, .inl ⟨held, rfl⟩, rfl, rfl⟩
    · rw [ofSource_of_holds_some held] at h
      split at h
      next accepted =>
        obtain rfl := Except.ok.inj h
        obtain ⟨entries, f, parsed, read, applied⟩ := applyFile_eq_accepted accepted
        exact ⟨entries, f, .inr ⟨text, held, parsed⟩, read, applied⟩
      · cases h
  · obtain ⟨reason, refused⟩ := ofSource_of_not_holds fun text h => held ⟨text, h⟩
    rw [refused] at h
    cases h

/-! The fields. -/

theorem layered_getD {α : Type} {names : α → Prop} (named : Option α)
    (hn : ∀ x, named = some x ↔ names x) {value : Option Value} {read : Value → Except ReadError α}
    {means : Value → α → Prop} (hr : ∀ {v x}, read v = .ok x ↔ means v x) {set : Option α}
    (hv : value.map read = set.map .ok) (standard : α) :
    Layered names value means standard (named.getD (set.getD standard)) := by
  have unnamed : (∀ y, ¬names y) → named = none := fun silent =>
    Option.eq_none_iff_forall_ne_some.2 fun y h => silent y ((hn y).1 h)
  refine ⟨fun y hy => ?_, fun silent v found => ?_, fun silent absent => ?_⟩
  · rw [(hn y).2 hy, Option.getD_some]
  · subst found
    cases set with
    | none => cases hv
    | some x =>
      rw [unnamed silent]
      exact hr.1 (Option.some.inj hv)
  · subst absent
    cases set with
    | none =>
      rw [unnamed silent]
      rfl
    | some x => cases hv

/-- A member of the artifact, read through the section that it is in. -/
private theorem member?_sets {α : Type} {section? : Option Value}
    {artifact : Option ArtifactSection} (hs : section?.map readArtifact = artifact.map .ok)
    {field : String} {read : Value → Except ReadError α} {view : ArtifactSection → Option α}
    (one : ∀ v a, readArtifact v = .ok a → (member? field v).map read = (view a).map .ok) :
    (section?.bind (member? field)).map read = (artifact.bind view).map .ok := by
  cases section? with
  | none =>
    cases artifact with
    | none => rfl
    | some a => cases hs
  | some v =>
    cases artifact with
    | none => cases hs
    | some a => exact one v a (Option.some.inj hs)

/-- Neither the environment nor a file that is accepted leaves no room. -/
private theorem capacity_pos {value : Option String} {set : Option Nat} (room : set ≠ some 0)
    {standard : Nat} (hs : 0 < standard) :
    0 < (value.bind capacityVariable?).getD (set.getD standard) := by
  cases named : value.bind capacityVariable? with
  | some n =>
    obtain ⟨v, -, usable⟩ := Option.bind_eq_some_iff.1 named
    exact (capacityVariable?_eq_some_iff.1 usable).2.1
  | none =>
    cases set with
    | none => exact hs
    | some n => exact Nat.pos_of_ne_zero fun zero => room (congrArg some zero)

private theorem resolved_applyEnvironment {entries : Entries} {f : Sections} {s : Settings}
    (hr : readEntries entries = .ok f) (hs : standard.applySections f = (s, none))
    (env : Environment) : Resolved entries env (s.applyEnvironment env) := by
  obtain ⟨logFilter, windowTitle, queueCapacity, artifact⟩ := readEntries_sets hr
  obtain ⟨room, rfl⟩ := applySections_eq_accepted hs
  have capacity : ∀ n, (env "STUDIO__EVENT_QUEUE_CAPACITY").bind capacityVariable? = some n ↔
      ∃ v, env "STUDIO__EVENT_QUEUE_CAPACITY" = some v ∧ NamesCapacity v n := fun n => by
    simp only [Option.bind_eq_some_iff, capacityVariable?_eq_some_iff]
  have scope : ∀ x, (env "STUDIO__ARTIFACT_SCOPE").bind scopeVariable? = some x ↔
      ∃ v, env "STUDIO__ARTIFACT_SCOPE" = some v ∧ NamesScope v x := fun x => by
    simp only [Option.bind_eq_some_iff, scopeVariable?_eq_some_iff]
  exact {
    logFilter := layered_getD _ (fun _ => Iff.rfl) readText_eq_ok_iff logFilter _
    windowTitle :=
      layered_getD none (fun _ => ⟨nofun, False.elim⟩) readText_eq_ok_iff windowTitle _
    queueCapacity := layered_getD _ capacity readCount_eq_ok_iff queueCapacity _
    name := layered_getD _ (fun _ => Iff.rfl) readText_eq_ok_iff
      (member?_sets artifact fun _ _ h => (readArtifact_sets h).1) _
    version := layered_getD _ (fun _ => Iff.rfl) readText_eq_ok_iff
      (member?_sets artifact fun _ _ h => (readArtifact_sets h).2.1) _
    scope := layered_getD _ scope readScope_eq_ok_iff
      (member?_sets artifact fun _ _ h => (readArtifact_sets h).2.2) _
    room := capacity_pos room (by decide) }

/-- Settings are refused exactly when the file has no text that can be read, or its text is
rejected, whatever the environment is. If they are not, every field is resolved over the layers on
its own, and there is room for an event. -/
theorem load_layered (source : Source) (env : Environment) :
    ((∃ e, load source env = .error e) ↔ (∀ text, ¬source.Holds text) ∨
      ∃ text, source.Holds (some text) ∧ (standard.applyFile text).2 ≠ none) ∧
    ∀ s, load source env = .ok s → ∃ entries, source.Sets entries ∧ Resolved entries env s := by
  constructor
  · rw [← ofSource_error_iff, load]
    cases ofSource source with
    | error e => exact ⟨fun _ => ⟨e, rfl⟩, fun _ => ⟨e, rfl⟩⟩
    | ok s => exact ⟨nofun, nofun⟩
  · intro s loaded
    obtain ⟨below, found, rfl⟩ : ∃ b, ofSource source = .ok b ∧ b.applyEnvironment env = s := by
      unfold load at loaded
      cases below : ofSource source with
      | error e => rw [below] at loaded; cases loaded
      | ok b => rw [below] at loaded; exact ⟨b, rfl, Except.ok.inj loaded⟩
    obtain ⟨entries, f, sets, read, accepted⟩ := ofSource_ok found
    exact ⟨entries, sets, resolved_applyEnvironment read accepted env⟩

/-- The version is that of its variable, although the file sets it, too. The variables of the scope and
of the capacity name none, so the file sets both, the scope as the key of a table. -/
theorem load_layered_mixed :
    let source : Source := .given (.content
      "event_queue_capacity = 32\n[artifact]\nversion = \"6.9\"\nscope = \x7b USER = [] \x7d".toUTF8)
    let env : Environment := fun name =>
      [("STUDIO__ARTIFACT_SCOPE", "everyone"), ("STUDIO__ARTIFACT_VERSION", "6.10"),
        ("STUDIO__EVENT_QUEUE_CAPACITY", "+0")].lookup name
    let s : Settings := ⟨"info", ⟨"cdap-data-pipeline", "6.10", .user⟩, "Pipeline Studio", 32⟩
    load source env = .ok s ∧ ∃ entries, source.Sets entries ∧ Resolved entries env s := by
  intro source env s
  have loaded : load source env = .ok s := by decide +kernel
  exact ⟨loaded, (load_layered source env).2 s loaded⟩

end PipelineEditor.Settings
