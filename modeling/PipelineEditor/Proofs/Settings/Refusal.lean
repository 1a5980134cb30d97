import PipelineEditor.Proofs.Settings.Layers

/-! The settings after a file was refused. One that cannot be read leaves them as they are. One that
leaves no room for events is refused when its capacity comes to be set, behind the log filter and the
title of the window, which stay as the file sets them. -/
namespace PipelineEditor.Settings

open Toml (Value Entries)

/-- Settings after a table was refused for its capacity: the fields that are set before it are those
of the table, and all others as they were. -/
structure LeftBy (entries : Entries) (s t : Settings) : Prop where
  noCapacity : ∃ v, under? entries "event_queue_capacity" = some v ∧ IsCount v 0
  logFilter : Layered (fun _ => False) (under? entries "log_filter") IsText s.logFilter t.logFilter
  windowTitle :
    Layered (fun _ => False) (under? entries "window_title") IsText s.windowTitle t.windowTitle
  artifact : t.artifact = s.artifact
  queueCapacity : t.queueCapacity = s.queueCapacity

private theorem applyFile_eq_refused {s t : Settings} {text : String} {e : SettingsError}
    (h : s.applyFile text = (t, some e)) :
    (∃ reason, Sections.ofString text = .error reason ∧ e = .malformed reason ∧ t = s) ∨
      ∃ f, Sections.ofString text = .ok f ∧ f.queueCapacity = some 0 ∧ e = .noCapacity ∧
        t = { s with
          logFilter := f.logFilter.getD s.logFilter
          windowTitle := f.windowTitle.getD s.windowTitle } := by
  unfold applyFile at h
  split at h
  next f read =>
    unfold applySections at h
    dsimp only at h
    split at h
    next zero =>
      obtain ⟨rfl, he⟩ := Prod.mk.inj h
      exact .inr ⟨f, read, zero, (Option.some.inj he).symm, rfl⟩
    · cases h
  next reason refused =>
    obtain ⟨rfl, he⟩ := Prod.mk.inj h
    exact .inl ⟨reason, refused, (Option.some.inj he).symm, rfl⟩

private theorem ofString_eq_ok {text : String} {f : Sections} (h : Sections.ofString text = .ok f) :
    ∃ entries, Toml.ofString? text = some entries ∧ readEntries entries = .ok f := by
  unfold Sections.ofString at h
  split at h
  next entries parsed => exact ⟨entries, parsed, h⟩
  · cases h

private theorem leftBy_of_read {entries : Entries} {f : Sections} (hr : readEntries entries = .ok f)
    (zero : f.queueCapacity = some 0) (s : Settings) :
    LeftBy entries s { s with
      logFilter := f.logFilter.getD s.logFilter
      windowTitle := f.windowTitle.getD s.windowTitle } := by
  obtain ⟨logFilter, windowTitle, queueCapacity, -⟩ := readEntries_sets hr
  exact {
    noCapacity := by
      rw [zero] at queueCapacity
      obtain ⟨v, found, read⟩ := Option.map_eq_some_iff.1 queueCapacity
      exact ⟨v, found, readCount_eq_ok_iff.1 read⟩
    logFilter := layered_getD none (fun _ => ⟨nofun, False.elim⟩) readText_eq_ok_iff logFilter _
    windowTitle := layered_getD none (fun _ => ⟨nofun, False.elim⟩) readText_eq_ok_iff windowTitle _
    artifact := rfl
    queueCapacity := rfl }

/-- A field that no variable names is as it was unless the file sets it to something else. -/
private theorem layered_eq_iff {value : Option Value} {before after : String}
    (h : Layered (fun _ => False) value IsText before after) :
    after = before ↔ ∀ v, value = some v → IsText v before := by
  constructor
  · rintro rfl v found
    exact h.ofFile (fun _ => id) v found
  · intro same
    cases value with
    | none => exact h.ofStandard (fun _ => id) rfl
    | some v => exact Value.text.inj ((h.ofFile (fun _ => id) v rfl).symm.trans (same v rfl))

private theorem LeftBy.eq_iff {entries : Entries} {s t : Settings} (h : LeftBy entries s t) :
    t = s ↔ (∀ v, under? entries "log_filter" = some v → IsText v s.logFilter) ∧
      ∀ v, under? entries "window_title" = some v → IsText v s.windowTitle := by
  rw [← layered_eq_iff h.logFilter, ← layered_eq_iff h.windowTitle]
  constructor
  · rintro rfl
    exact ⟨rfl, rfl⟩
  · rintro ⟨logFilter, windowTitle⟩
    calc
      t = ⟨t.logFilter, t.artifact, t.windowTitle, t.queueCapacity⟩ := rfl
      _ = s := by rw [logFilter, h.artifact, windowTitle, h.queueCapacity]

/-- A file that is refused cannot be read, and leaves the settings as they are, or has a capacity of
zero, and leaves its log filter and its title in the settings. These are as they were then exactly if
the file sets neither of the two to anything else. -/
theorem settings_after_refusal {s t : Settings} {text : String} {e : SettingsError}
    (h : s.applyFile text = (t, some e)) :
    (∃ reason, Sections.ofString text = .error reason ∧ e = .malformed reason ∧ t = s) ∨
      ∃ entries, Toml.ofString? text = some entries ∧ e = .noCapacity ∧ LeftBy entries s t ∧
        (t = s ↔ (∀ v, under? entries "log_filter" = some v → IsText v s.logFilter) ∧
          ∀ v, under? entries "window_title" = some v → IsText v s.windowTitle) := by
  rcases applyFile_eq_refused h with ⟨reason, refused, rfl, rfl⟩ | ⟨f, read, zero, rfl, rfl⟩
  · exact .inl ⟨reason, refused, rfl, rfl⟩
  · obtain ⟨entries, parsed, fields⟩ := ofString_eq_ok read
    have left := leftBy_of_read fields zero s
    exact .inr ⟨entries, parsed, rfl, left, left.eq_iff⟩

/-- A file that sets the title to what it is, the scope, and no room. -/
theorem settings_after_refusal_same :
    let text := "event_queue_capacity = 0\nartifact.scope = \"USER\"\nwindow_title = \"Pipeline Studio\""
    standard.applyFile text = (standard, some .noCapacity) ∧
      ∃ entries, Toml.ofString? text = some entries ∧ LeftBy entries standard standard ∧
        ∀ v, under? entries "window_title" = some v → IsText v "Pipeline Studio" := by
  intro text
  have refused : standard.applyFile text = (standard, some .noCapacity) := by decide +kernel
  rcases settings_after_refusal refused with ⟨_, _, he, _⟩ | ⟨entries, parsed, -, left, same⟩
  · cases he
  · exact ⟨refused, entries, parsed, left, (same.1 rfl).2⟩

/-- The log filter of a file is set, although the file is refused. -/
theorem log_filter_of_refused_file :
    standard.applyFile "log_filter = \"debug\"\nevent_queue_capacity = 0" =
      ({ standard with logFilter := "debug" }, some .noCapacity) := by
  decide +kernel

end PipelineEditor.Settings
