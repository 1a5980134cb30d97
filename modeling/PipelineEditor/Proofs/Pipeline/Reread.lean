import PipelineEditor.Proofs.Number.Legible
import PipelineEditor.Proofs.Pipeline.Wire

/-! Documents that are written for what was read. A pipeline is read back from its document unless it has
an infinite coordinate, which a number too large for the layout is read as. That one is written as null,
and null is no coordinate. -/
namespace PipelineEditor

def Position.isFinite (p : Position) : Bool :=
  !p.x.isInfinite && !p.y.isInfinite

def Layout.isFinite (l : Layout) : Bool :=
  l.positions.entries.all fun e => e.2.isFinite

def Pipeline.isFinite (p : Pipeline) : Bool :=
  p.layout.all Layout.isFinite

/-! What is finite is read back. -/

theorem Number.Single.readsBack_of_finite {x : Number.Single} (h : x.isInfinite = false) :
    Number.Single.codec.ReadsBack x := by
  obtain ⟨d, written, read⟩ := Number.Single.exists_decimal h
  exact Number.Single.readsBack written read

theorem Position.legible_of_finite {p : Position} (h : p.isFinite = true) : p.Legible := by
  obtain ⟨x, y⟩ : p.x.isInfinite = false ∧ p.y.isInfinite = false := by simpa [isFinite] using h
  exact ⟨Number.Single.readsBack_of_finite x, Number.Single.readsBack_of_finite y⟩

theorem Layout.legible_of_finite {l : Layout} (h : l.isFinite = true) : l.Legible :=
  fun e he => Position.legible_of_finite (List.all_eq_true.1 h e he)

theorem Pipeline.legible_of_finite {p : Pipeline} (h : p.isFinite = true) : p.Legible := by
  intro l hl
  rw [isFinite, hl] at h
  exact Layout.legible_of_finite h

/-! What is not finite is refused. -/

theorem Number.Single.codec_refuses {x : Number.Single} (h : x.isInfinite = true) :
    Number.Single.codec.Refuses x := by
  have written : x.toDecimal? = none := if_pos h
  constructor <;> simp only [Number.Single.codec, written]
  rfl

private theorem Number.Single.codec_intact (x : Number.Single) :
    (Number.Single.codec.write x).intact = true := by
  cases h : x.isInfinite with
  | true => exact (codec_refuses h).intact
  | false => exact (codec_roundTrips (readsBack_of_finite h)).intact

theorem Position.codec_refuses {p : Position} (h : p.isFinite = false) : Position.codec.Refuses p := by
  have intact := Number.Single.codec_intact
  apply Codec.record_refuses (by decide)
  · exact ⟨intact p.x, intact p.y, trivial⟩
  · cases hx : p.x.isInfinite with
    | true => exact .inl ⟨rfl, Number.Single.codec_refuses hx⟩
    | false =>
      have hy : p.y.isInfinite = true := by simpa [isFinite, hx] using h
      have x := Number.Single.codec_roundTrips (Number.Single.readsBack_of_finite hx)
      exact .inr ⟨x, .inl ⟨rfl, Number.Single.codec_refuses hy⟩⟩

theorem Layout.codec_refuses {l : Layout} (h : l.isFinite = false) : Layout.codec.Refuses l := by
  have each (e : String × Position) : Position.codec.RoundTrips e.2 ∨ Position.codec.Refuses e.2 := by
    cases he : e.2.isFinite with
    | true => exact .inl (Position.codec_roundTrips (Position.legible_of_finite he))
    | false => exact .inr (Position.codec_refuses he)
  obtain ⟨e, he, infinite⟩ := List.all_eq_false.1 h
  have positions := Table.refuses (fun e _ => each e) he
    (Position.codec_refuses (Bool.eq_false_iff.2 infinite))
  apply Codec.record_refuses (by decide)
  · exact ⟨positions.intact, trivial⟩
  · exact .inl ⟨rfl, positions⟩

namespace Pipeline

theorem codec_refuses {p : Pipeline} (h : p.isFinite = false) : codec.Refuses p := by
  obtain ⟨name, description, artifact, graph, layout⟩ := p
  cases layout with
  | none => cases h
  | some l =>
    have layouts : (Codec.optional Layout.codec).Refuses (some l) :=
      Codec.optional_some_refuses (Layout.codec_refuses h) fun null => by cases null
    have artifacts := Artifact.codec_roundTrips artifact
    have graphs := Graph.codec_roundTrips graph
    apply Codec.record_refuses (by decide)
    · exact ⟨rfl, rfl, artifacts.intact, graphs.intact, layouts.intact, trivial⟩
    · exact .inr ⟨Codec.text_roundTrips name, .inr ⟨Codec.text_roundTrips description,
        .inr ⟨artifacts, .inr ⟨graphs, .inl ⟨rfl, layouts⟩⟩⟩⟩⟩

/-- A pipeline is read back from its document exactly if its layout is finite. -/
theorem ofDocument_document_eq (p : Pipeline) :
    ofDocument p.document = if p.isFinite then .ok p else .error .malformed := by
  split
  next finite => exact ofDocument_document (legible_of_finite finite)
  next infinite => exact (codec_refuses (Bool.eq_false_iff.2 infinite)).decode_encodePretty

/-- What is written for a text that was read is read as the text was, or it is refused for a
coordinate that is infinite. -/
theorem ofDocument_reread {text : String} {p : Pipeline} (h : ofDocument text = .ok p) :
    ofDocument p.document = if p.isFinite then ofDocument text else .error .malformed := by
  rw [h, ofDocument_document_eq]

/-- A document of lists, with coordinates that are between the 32-bit numbers. -/
theorem ofDocument_reread_between :
    let text := "[\"\",\"\",[\"cdap\",\"6.10\"],[],[\x7b\"read\":[0.1,-3e-46]\x7d]]"
    let p : Pipeline := ⟨"", "", ⟨"cdap", "6.10", .system⟩, .empty,
      some ⟨Table.ofList [("read", ⟨⟨false, 1036831949, by decide⟩, ⟨true, 0, by decide⟩⟩)]⟩⟩
    ofDocument text = .ok p ∧ ofDocument p.document = .ok p := by
  intro text p
  have read : ofDocument text = .ok p := by decide +kernel
  have reread := ofDocument_reread read
  rw [read] at reread
  exact ⟨read, reread⟩

/-- A number beyond the 32-bit range is read, but not what is written for it. -/
theorem ofDocument_reread_huge :
    let text := "[\"\",\"\",[\"cdap\",\"6.10\"],[],[\x7b\"read\":[1e39,0]\x7d]]"
    let p : Pipeline := ⟨"", "", ⟨"cdap", "6.10", .system⟩, .empty,
      some ⟨Table.ofList [("read", ⟨⟨false, 2139095040, by decide⟩, .zero⟩)]⟩⟩
    ofDocument text = .ok p ∧ ofDocument p.document = .error .malformed := by
  intro text p
  exact ⟨by decide +kernel, ofDocument_document_eq p⟩

end Pipeline
end PipelineEditor
