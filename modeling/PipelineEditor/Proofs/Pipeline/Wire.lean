import PipelineEditor.Pipeline.Wire
import PipelineEditor.Proofs.Codec.Record
import PipelineEditor.Proofs.Instant
import PipelineEditor.Proofs.Uuid

/-! Documents of pipelines and of the records kept of them. Every part of a pipeline is read back as
it was written, as far as the coordinates in its layout are. -/
namespace PipelineEditor

theorem Scope.codec_roundTrips (s : Scope) : Scope.codec.RoundTrips s := by
  apply Codec.oneOf_roundTrips
  cases s <;> rfl

theorem Artifact.codec_roundTrips (a : Artifact) : Artifact.codec.RoundTrips a := by
  apply Codec.record_roundTrips (by decide) rfl
  apply Fields.roundTrips_required (Codec.text_roundTrips a.name)
  apply Fields.roundTrips_required (Codec.text_roundTrips a.version)
  exact Fields.roundTrips_withDefault (Scope.codec_roundTrips a.scope) trivial

theorem StageId.codec_roundTrips (i : StageId) : StageId.codec.RoundTrips i :=
  Codec.map_roundTrips (Codec.int64_roundTrips i.value) rfl

theorem Plugin.codec_roundTrips (p : Plugin) : Plugin.codec.RoundTrips p := by
  apply Codec.record_roundTrips (by decide) rfl
  apply Fields.roundTrips_required (Codec.text_roundTrips p.name)
  exact Fields.roundTrips_required (Codec.text_roundTrips p.kind) trivial

theorem Stage.codec_roundTrips (s : Stage) : Stage.codec.RoundTrips s := by
  apply Codec.record_roundTrips (by decide) rfl
  apply Fields.roundTrips_required (StageId.codec_roundTrips s.id)
  apply Fields.roundTrips_required (Codec.text_roundTrips s.name)
  apply Fields.roundTrips_required (Plugin.codec_roundTrips s.plugin)
  apply Fields.roundTrips_omittable (Table.roundTrips fun e _ => Codec.text_roundTrips e.2)
  · exact fun h => (Table.eq_empty h).symm
  · trivial

theorem Connection.codec_roundTrips (c : Connection) : Connection.codec.RoundTrips c := by
  apply Codec.record_roundTrips (by decide) rfl
  apply Fields.roundTrips_required (Codec.text_roundTrips c.source)
  exact Fields.roundTrips_required (Codec.text_roundTrips c.target) trivial

theorem Graph.codec_roundTrips (g : Graph) : Graph.codec.RoundTrips g := by
  apply Codec.record_roundTrips (by decide) rfl
  apply Fields.roundTrips_withDefault (Codec.list_roundTrips fun s _ => Stage.codec_roundTrips s)
  exact Fields.roundTrips_withDefault
    (Codec.list_roundTrips fun c _ => Connection.codec_roundTrips c) trivial

theorem Metadata.codec_roundTrips (m : Metadata) : Metadata.codec.RoundTrips m := by
  apply Codec.record_roundTrips (by decide) rfl
  apply Fields.roundTrips_required (Codec.text_roundTrips m.name)
  exact Fields.roundTrips_required (Codec.text_roundTrips m.description) trivial

theorem MessageKind.codec_roundTrips (k : MessageKind) : MessageKind.codec.RoundTrips k := by
  apply Codec.oneOf_roundTrips
  cases k <;> rfl

theorem Message.codec_roundTrips (m : Message) : Message.codec.RoundTrips m := by
  apply Codec.record_roundTrips (by decide) rfl
  apply Fields.roundTrips_required (MessageKind.codec_roundTrips m.kind)
  exact Fields.roundTrips_required (Codec.text_roundTrips m.content) trivial

/-! Positions. Not every coordinate is read back: an infinite one is written as null. -/

/-- The texts of both coordinates are read back. -/
def Position.Legible (p : Position) : Prop :=
  Number.Single.codec.ReadsBack p.x ∧ Number.Single.codec.ReadsBack p.y

def Layout.Legible (l : Layout) : Prop :=
  ∀ e ∈ l.positions.entries, e.2.Legible

def Pipeline.Legible (p : Pipeline) : Prop :=
  ∀ l, p.layout = some l → l.Legible

private theorem Number.Single.write_intact (x : Number.Single) :
    (Number.Single.codec.write x).intact = true := by
  unfold Number.Single.codec
  dsimp only
  split <;> rfl

theorem Number.Single.codec_roundTrips {x : Number.Single}
    (h : Number.Single.codec.ReadsBack x) : Number.Single.codec.RoundTrips x :=
  (Codec.readsBack_iff (Number.Single.write_intact x)).1 h

/-- A coordinate is read back from its text if it is from the decimal that it is written as. -/
theorem Number.Single.readsBack {x : Number.Single} {d : Number.Decimal}
    (hw : x.toDecimal? = some d) (hr : d.toSingle? = some x) : Number.Single.codec.ReadsBack x := by
  rw [Codec.readsBack_iff (Number.Single.write_intact x)]
  refine ⟨Number.Single.write_intact x, ?_⟩
  simp only [Number.Single.codec, hw, hr]

theorem Position.codec_roundTrips {p : Position} (h : p.Legible) : Position.codec.RoundTrips p := by
  apply Codec.record_roundTrips (by decide) rfl
  apply Fields.roundTrips_required (Number.Single.codec_roundTrips h.1)
  exact Fields.roundTrips_required (Number.Single.codec_roundTrips h.2) trivial

theorem Layout.codec_roundTrips {l : Layout} (h : l.Legible) : Layout.codec.RoundTrips l := by
  apply Codec.record_roundTrips (by decide) rfl
  exact Fields.roundTrips_withDefault
    (Table.roundTrips fun e he => Position.codec_roundTrips (h e he)) trivial

private theorem Layout.optional_roundTrips {o : Option Layout} (h : ∀ l, o = some l → l.Legible) :
    (Codec.optional Layout.codec).RoundTrips o := by
  cases o with
  | none => exact Codec.optional_none_roundTrips Layout.codec
  | some l =>
    apply Codec.optional_some_roundTrips (Layout.codec_roundTrips (h l rfl))
    intro null
    cases null

namespace Pipeline

theorem codec_roundTrips {p : Pipeline} (h : p.Legible) : codec.RoundTrips p := by
  apply Codec.record_roundTrips (by decide) rfl
  apply Fields.roundTrips_withDefault (Codec.text_roundTrips p.name)
  apply Fields.roundTrips_withDefault (Codec.text_roundTrips p.description)
  apply Fields.roundTrips_required (Artifact.codec_roundTrips p.artifact)
  apply Fields.roundTrips_withDefault (Graph.codec_roundTrips p.graph)
  apply Fields.roundTrips_omittable (Layout.optional_roundTrips h)
  · exact fun hl => (Option.isNone_iff_eq_none.1 hl).symm
  · trivial

/-- The document of a pipeline holds that pipeline. -/
theorem ofDocument_document {p : Pipeline} (h : p.Legible) : ofDocument p.document = .ok p :=
  Codec.decode_encodePretty (codec_roundTrips h)

theorem legible_of_layout_eq_none {p : Pipeline} (h : p.layout = none) : p.Legible := by
  intro l hl
  cases h.symm.trans hl

end Pipeline

/-! Records with UUIDs and instants. -/

theorem DraftId.codec_roundTrips (i : DraftId) : DraftId.codec.RoundTrips i :=
  Codec.map_roundTrips (Codec.textForm_roundTrips (Uuid.parse?_text i.uuid)) rfl

theorem Instant.codec_roundTrips {t : Instant} (h : t.Valid) : Instant.codec.RoundTrips t :=
  Codec.textForm_roundTrips (Instant.parse?_text h)

theorem SavedDraft.codec_roundTrips {d : SavedDraft} (ht : d.savedAt.Valid)
    (hp : d.pipeline.Legible) : SavedDraft.codec.RoundTrips d := by
  apply Codec.record_roundTrips (by decide) rfl
  apply Fields.roundTrips_required (DraftId.codec_roundTrips d.id)
  apply Fields.roundTrips_required (Instant.codec_roundTrips ht)
  exact Fields.roundTrips_required (Pipeline.codec_roundTrips hp) trivial

theorem Publication.codec_roundTrips {r : Publication} (ht : r.publishedAt.Valid)
    (hp : r.pipeline.Legible) : Publication.codec.RoundTrips r := by
  apply Codec.record_roundTrips (by decide) rfl
  apply Fields.roundTrips_required (Codec.text_roundTrips r.name)
  apply Fields.roundTrips_required (Instant.codec_roundTrips ht)
  exact Fields.roundTrips_required (Pipeline.codec_roundTrips hp) trivial

/-- Every value that is shared is read back from its text on one line, and a pipeline from its
document too: any texts, numbers of stages and tables, layouts whose coordinates are read back, and
instants that exist. -/
theorem shared_values_read_back :
    (∀ k, MessageKind.codec.ReadsBack k) ∧
      (∀ m, Message.codec.ReadsBack m) ∧ (∀ ms, (Codec.list Message.codec).ReadsBack ms) ∧
      (∀ p, Plugin.codec.ReadsBack p) ∧ (∀ s, Stage.codec.ReadsBack s) ∧
      (∀ i, StageId.codec.ReadsBack i) ∧ (∀ is, (Codec.list StageId.codec).ReadsBack is) ∧
      (∀ c, Connection.codec.ReadsBack c) ∧ (∀ g, Graph.codec.ReadsBack g) ∧
      (∀ a, Artifact.codec.ReadsBack a) ∧ (∀ m, Metadata.codec.ReadsBack m) ∧
      (∀ l : Layout, l.Legible → Layout.codec.ReadsBack l) ∧
      (∀ p : Pipeline, p.Legible →
        Pipeline.codec.ReadsBack p ∧ Pipeline.ofDocument p.document = .ok p) ∧
      (∀ d : SavedDraft, d.savedAt.Valid → d.pipeline.Legible → SavedDraft.codec.ReadsBack d) ∧
      (∀ r : Publication, r.publishedAt.Valid → r.pipeline.Legible →
        Publication.codec.ReadsBack r) := by
  refine ⟨?_, ?_, ?_, ?_, ?_, ?_, ?_, ?_, ?_, ?_, ?_, ?_, ?_, ?_, ?_⟩
  · exact fun k => (MessageKind.codec_roundTrips k).readsBack
  · exact fun m => (Message.codec_roundTrips m).readsBack
  · exact fun ms => (Codec.list_roundTrips fun m _ => Message.codec_roundTrips m).readsBack
  · exact fun p => (Plugin.codec_roundTrips p).readsBack
  · exact fun s => (Stage.codec_roundTrips s).readsBack
  · exact fun i => (StageId.codec_roundTrips i).readsBack
  · exact fun is => (Codec.list_roundTrips fun i _ => StageId.codec_roundTrips i).readsBack
  · exact fun c => (Connection.codec_roundTrips c).readsBack
  · exact fun g => (Graph.codec_roundTrips g).readsBack
  · exact fun a => (Artifact.codec_roundTrips a).readsBack
  · exact fun m => (Metadata.codec_roundTrips m).readsBack
  · exact fun l h => (Layout.codec_roundTrips h).readsBack
  · intro p h
    exact ⟨(Pipeline.codec_roundTrips h).readsBack, Pipeline.ofDocument_document h⟩
  · exact fun d ht hp => (SavedDraft.codec_roundTrips ht hp).readsBack
  · exact fun r ht hp => (Publication.codec_roundTrips ht hp).readsBack

/-- A pipeline with a stage at an odd place, saved in a leap second and published. -/
theorem shared_values_read_back_placed :
    let l : Layout := ⟨Table.ofList [("read", ⟨.ofNat 200, ⟨true, 1, by decide⟩⟩)]⟩
    let p : Pipeline := ⟨"daily \"orders\"", "one\ntwo", .standard,
      ⟨[⟨⟨-1⟩, "read", ⟨"csv", "source"⟩, Table.ofList [("path", "\x01")]⟩], []⟩, some l⟩
    let t : Instant := ⟨⟨2016, 12, 31⟩, 1439, 60, 1500000⟩
    let i : DraftId := ⟨⟨List.replicate 32 (Fin.ofNat 16 10), rfl⟩⟩
    l.Legible ∧ Layout.codec.ReadsBack l ∧ p.Legible ∧ Pipeline.codec.ReadsBack p ∧
      Pipeline.ofDocument p.document = .ok p ∧ t.Valid ∧ SavedDraft.codec.ReadsBack ⟨i, t, p⟩ ∧
      Publication.codec.ReadsBack ⟨p.name, t, p⟩ := by
  intro l p t i
  have x : Number.Single.codec.ReadsBack (.ofNat 200) :=
    Number.Single.readsBack (d := ⟨false, 200, [Text.digitOf 0], none⟩) (by decide +kernel)
      (by decide +kernel)
  have y : Number.Single.codec.ReadsBack ⟨true, 1, by decide⟩ :=
    Number.Single.readsBack (d := ⟨true, 1, [], some (-45)⟩) (by decide +kernel) (by decide +kernel)
  have hl : l.Legible := by
    intro e he
    obtain rfl := List.mem_singleton.1 he
    exact ⟨x, y⟩
  have hp : p.Legible := by
    intro k hk
    obtain rfl := Option.some.inj hk
    exact hl
  have ht : t.Valid := ⟨by decide, by decide, by decide, by decide⟩
  obtain ⟨-, -, -, -, -, -, -, -, -, -, -, layouts, pipelines, drafts, publications⟩ :=
    shared_values_read_back
  obtain ⟨line, document⟩ := pipelines p hp
  exact ⟨hl, layouts l hl, hp, line, document, ht, drafts _ ht hp, publications _ ht hp⟩

end PipelineEditor
