import Mathlib.Data.List.Induction
import PipelineEditor.Settings.Sections

/-! What a settings file sets, key by key. A file that is accepted sets a field if its table has the
key of the field, to what the value under that key stands for. -/
namespace PipelineEditor.Settings

open Toml (Value Entries)

private theorem map_eq_ok {α β : Type} {f : α → β} {r : Except ReadError α} {b : β}
    (h : r.map f = .ok b) : ∃ a, r = .ok a ∧ f a = b := by
  cases r with
  | error e => cases h
  | ok a => exact ⟨a, rfl, Except.ok.inj h⟩

private theorem bind_eq_ok {α β : Type} {r : Except ReadError α} {f : α → Except ReadError β}
    {b : β} (h : r >>= f = .ok b) : ∃ a, r = .ok a ∧ f a = .ok b := by
  cases r with
  | error e => cases h
  | ok a => exact ⟨a, rfl, h⟩

/-! What the values of fields stand for. -/

/-- The value is a text. -/
def IsText (v : Value) (x : String) : Prop :=
  v = .text x

/-- The value is a number that is not negative. -/
def IsCount (v : Value) (n : Nat) : Prop :=
  v = .integer n

/-- The value holds nothing. -/
inductive IsVoid : Value → Prop
  | array : IsVoid (.array [])
  | table (origin : Toml.Origin) : IsVoid (.table origin [])
  | tables : IsVoid (.tables [])

/-- The value names a variant: it is the name, or a table with the name as its only key and nothing
under that. -/
inductive IsVariant (name : String) : Value → Prop
  | text : IsVariant name (.text name)
  | key (origin : Toml.Origin) {v : Value} (void : IsVoid v) :
      IsVariant name (.table origin [(name, v)])

/-- The value names a scope. -/
def IsScope (v : Value) : Scope → Prop
  | .system => IsVariant "SYSTEM" v
  | .user => IsVariant "USER" v

theorem readText_eq_ok_iff {v : Value} {x : String} : readText v = .ok x ↔ IsText v x := by
  unfold readText IsText
  split
  · rw [Except.ok.injEq, Value.text.injEq]
  next other => exact ⟨nofun, fun text => absurd text (other x)⟩

theorem readCount_eq_ok_iff {v : Value} {n : Nat} : readCount v = .ok n ↔ IsCount v n := by
  unfold readCount IsCount
  split
  next i =>
    rw [Value.integer.injEq]
    split
    · exact ⟨nofun, fun same => by omega⟩
    · rw [Except.ok.injEq]
      omega
  next other => exact ⟨nofun, fun count => absurd count (other n)⟩

private theorem isVoid_iff {v : Value} : isVoid v = true ↔ IsVoid v := by
  constructor
  · intro void
    unfold isVoid at void
    split at void
    next items => exact List.isEmpty_iff.1 void ▸ .array
    next origin entries => exact List.isEmpty_iff.1 void ▸ .table origin
    next elements => exact List.isEmpty_iff.1 void ▸ .tables
    · cases void
  · rintro (_ | _ | _) <;> rfl

private theorem variant_eq_ok_iff {name : String} {scope : Scope} :
    Codec.variant Scope.variants name = .ok scope ↔ name = scope.wireName := by
  by_cases system : name = "SYSTEM"
  · subst system
    cases scope <;> decide
  · by_cases user : name = "USER"
    · subst user
      cases scope <;> decide
    · have unknown : Scope.variants.find? (·.1 == name) = none := by
        simp [Scope.variants, Scope.wireName, Ne.symm system, Ne.symm user]
      rw [Codec.variant, unknown]
      refine ⟨nofun, fun same => ?_⟩
      cases scope with
      | system => exact absurd same system
      | user => exact absurd same user

theorem readScope_eq_ok_iff {v : Value} {scope : Scope} : readScope v = .ok scope ↔ IsScope v scope := by
  have spelled : IsScope v scope ↔ IsVariant scope.wireName v := by cases scope <;> rfl
  rw [spelled]
  constructor
  · intro read
    unfold readScope at read
    split at read
    next name => exact variant_eq_ok_iff.1 read ▸ .text
    next origin name inner =>
      obtain ⟨named, found, rest⟩ := bind_eq_ok read
      split at rest
      next void =>
        obtain rfl := Except.ok.inj rest
        exact variant_eq_ok_iff.1 found ▸ .key origin (isVoid_iff.1 void)
      · cases rest
    · cases read
  · have found : Codec.variant Scope.variants scope.wireName = .ok scope := variant_eq_ok_iff.2 rfl
    intro spelled
    cases spelled with
    | text => exact found
    | key origin void =>
      rw [readScope, found]
      exact if_pos (isVoid_iff.2 void)

/-! Where the values of fields are. -/

/-- The value that a table holds under a key, the last one of those that came. -/
def under? (entries : Entries) (key : String) : Option Value :=
  (entries.filterMap fun e => if e.1 = key then some e.2 else none).getLast?

/-- The value that an artifact holds for a field: under its name in a table, at its place in an
array. -/
def member? (field : String) : Value → Option Value
  | .table _ entries => under? entries field
  | .array items => under? (artifactFields.zip items) field
  | _ => none

private theorem under?_concat (entries : Entries) (k key : String) (v : Value) :
    under? (entries ++ [(k, v)]) key = if k = key then some v else under? entries key := by
  unfold under?
  rw [List.filterMap_append]
  by_cases h : k = key
  · simp [h]
  · simp [h]

/-- A field that one key sets and no other is, after all entries, what the last one of that key
reads as. -/
private theorem under?_foldlM {σ α : Type} (view : σ → Option α)
    {put : σ → String → Value → Except ReadError σ} {key : String}
    {read : Value → Except ReadError α}
    (one : ∀ s k v t, put s k v = .ok t →
      if k = key then (read v).map some = .ok (view t) else view t = view s)
    {s t : σ} (unset : view s = none) {entries : Entries}
    (h : entries.foldlM (fun s e => put s e.1 e.2) s = .ok t) :
    (under? entries key).map read = (view t).map .ok := by
  induction entries using List.reverseRecOn generalizing t with
  | nil =>
    obtain rfl := Except.ok.inj h
    rw [unset]
    rfl
  | append_singleton entries e ih =>
    obtain ⟨k, v⟩ := e
    rw [List.foldlM_append] at h
    obtain ⟨m, before, behind⟩ := bind_eq_ok h
    obtain ⟨u, last, rest⟩ := bind_eq_ok behind
    obtain rfl := Except.ok.inj rest
    have set := one m k v u last
    rw [under?_concat]
    by_cases hk : k = key
    · rw [if_pos hk] at set ⊢
      obtain ⟨x, read, shown⟩ := map_eq_ok set
      rw [← shown, Option.map_some, Option.map_some, read]
    · rw [if_neg hk] at set ⊢
      rw [set, ih before]

/-! The fields of an artifact. -/

private theorem readArtifactField_cases {a b : ArtifactSection} {k : String} {v : Value}
    (h : readArtifactField a k v = .ok b) :
    (k = "name" ∧ ∃ x, readText v = .ok x ∧ b = { a with name := some x }) ∨
      (k = "version" ∧ ∃ x, readText v = .ok x ∧ b = { a with version := some x }) ∨
        (k = "scope" ∧ ∃ x, readScope v = .ok x ∧ b = { a with scope := some x }) := by
  unfold readArtifactField at h
  split at h
  next hk =>
    obtain ⟨x, hx, rfl⟩ := map_eq_ok h
    exact .inl ⟨hk, x, hx, rfl⟩
  · split at h
    next hk =>
      obtain ⟨x, hx, rfl⟩ := map_eq_ok h
      exact .inr (.inl ⟨hk, x, hx, rfl⟩)
    · split at h
      next hk =>
        obtain ⟨x, hx, rfl⟩ := map_eq_ok h
        exact .inr (.inr ⟨hk, x, hx, rfl⟩)
      · cases h

/-- An artifact that was read has the fields of the value it was read from. -/
theorem readArtifact_sets {v : Value} {a : ArtifactSection} (h : readArtifact v = .ok a) :
    (member? "name" v).map readText = a.name.map .ok ∧
      (member? "version" v).map readText = a.version.map .ok ∧
        (member? "scope" v).map readScope = a.scope.map .ok := by
  unfold readArtifact at h
  split at h
  next entries =>
    change entries.foldlM (fun a e => readArtifactField a e.1 e.2) ⟨none, none, none⟩ = .ok a at h
    refine ⟨under?_foldlM ArtifactSection.name ?_ rfl h,
      under?_foldlM ArtifactSection.version ?_ rfl h, under?_foldlM ArtifactSection.scope ?_ rfl h⟩
    all_goals
      intro a k v b hb
      rcases readArtifactField_cases hb with
        ⟨rfl, x, hx, rfl⟩ | ⟨rfl, x, hx, rfl⟩ | ⟨rfl, x, hx, rfl⟩
      all_goals simp [hx, Except.map]
  next name version scope rest =>
    obtain ⟨n, hn, h⟩ := bind_eq_ok h
    obtain ⟨v, hv, h⟩ := bind_eq_ok h
    obtain ⟨c, hc, h⟩ := bind_eq_ok h
    obtain rfl := Except.ok.inj h
    simp [member?, artifactFields, under?, hn, hv, hc]
  · cases h

/-! The fields of a file. -/

private theorem readField_cases {s t : Sections} {k : String} {v : Value}
    (h : readField s k v = .ok t) :
    (k = "log_filter" ∧ ∃ x, readText v = .ok x ∧ t = { s with logFilter := some x }) ∨
      (k = "window_title" ∧ ∃ x, readText v = .ok x ∧ t = { s with windowTitle := some x }) ∨
        (k = "event_queue_capacity" ∧
          ∃ n, readCount v = .ok n ∧ t = { s with queueCapacity := some n }) ∨
          (k = "artifact" ∧ ∃ a, readArtifact v = .ok a ∧ t = { s with artifact := some a }) := by
  unfold readField at h
  split at h
  next hk =>
    obtain ⟨x, hx, rfl⟩ := map_eq_ok h
    exact .inl ⟨hk, x, hx, rfl⟩
  · split at h
    next hk =>
      obtain ⟨x, hx, rfl⟩ := map_eq_ok h
      exact .inr (.inl ⟨hk, x, hx, rfl⟩)
    · split at h
      next hk =>
        obtain ⟨n, hn, rfl⟩ := map_eq_ok h
        exact .inr (.inr (.inl ⟨hk, n, hn, rfl⟩))
      · split at h
        next hk =>
          obtain ⟨a, ha, rfl⟩ := map_eq_ok h
          exact .inr (.inr (.inr ⟨hk, a, ha, rfl⟩))
        · cases h

/-- A file that was read has the fields of its table. -/
theorem readEntries_sets {entries : Entries} {f : Sections} (h : readEntries entries = .ok f) :
    (under? entries "log_filter").map readText = f.logFilter.map .ok ∧
      (under? entries "window_title").map readText = f.windowTitle.map .ok ∧
        (under? entries "event_queue_capacity").map readCount = f.queueCapacity.map .ok ∧
          (under? entries "artifact").map readArtifact = f.artifact.map .ok := by
  change entries.foldlM (fun s e => readField s e.1 e.2) ⟨none, none, none, none⟩ = .ok f at h
  refine ⟨under?_foldlM Sections.logFilter ?_ rfl h, under?_foldlM Sections.windowTitle ?_ rfl h,
    under?_foldlM Sections.queueCapacity ?_ rfl h, under?_foldlM Sections.artifact ?_ rfl h⟩
  all_goals
    intro s k v t ht
    rcases readField_cases ht with
      ⟨rfl, x, hx, rfl⟩ | ⟨rfl, x, hx, rfl⟩ | ⟨rfl, x, hx, rfl⟩ | ⟨rfl, x, hx, rfl⟩
    all_goals simp [hx, Except.map]

end PipelineEditor.Settings
