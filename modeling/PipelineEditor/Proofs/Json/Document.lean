import PipelineEditor.Json.Document
import PipelineEditor.Proofs.Json.Token

/-! Documents hold the value that they lay out. The tokens of a value, at whatever place it stands,
leave that value there; a text of the tokens of an intact value holds it and nothing else. -/
namespace PipelineEditor.Json

private theorem build_cons {a b : Awaiting} {t : Token} (h : a.step t = some b) (ts : List Token) :
    build a (t :: ts) = build b ts := by
  rw [build, h]

/-- The first item of a list is read like a value that stands there. -/
private theorem build_firstItem (v : Json) (outer : Place) (ts : List Token)
    (h : v.intact = true) :
    build (.firstItem outer) (spell v ++ ts) = build (.value (.item [] outer)) (spell v ++ ts) := by
  cases v with
  | fault => cases h
  | list items closed => cases items <;> rfl
  | object members closed => cases members <;> rfl
  | _ => rfl

mutual

/-- The tokens of a value fill the place where it is wanted. -/
theorem build_spell : ∀ (v : Json) (p : Place) (ts : List Token), v.intact = true →
    build (.value p) (spell v ++ ts) = build (p.fill v) ts
  | .null, p, ts, _ => rfl
  | .bool b, p, ts, _ => rfl
  | .number d, p, ts, _ => rfl
  | .text s, p, ts, _ => rfl
  | .list [] closed, p, ts, h => by
    obtain rfl : closed = true := (Bool.and_eq_true_iff.1 h).1
    rfl
  | .list (v :: vs) closed, p, ts, h => by
    obtain ⟨rfl, hvs⟩ := Bool.and_eq_true_iff.1 h
    obtain ⟨hv, hvs⟩ := Bool.and_eq_true_iff.1 hvs
    rw [spell]
    simp only [List.cons_append, List.append_assoc, List.nil_append]
    rw [build_cons (b := .firstItem p) rfl, build_firstItem v _ _ hv, build_spell v _ _ hv]
    exact build_spellItems vs [v] p ts hvs
  | .object [] closed, p, ts, h => by
    obtain rfl : closed = true := (Bool.and_eq_true_iff.1 h).1
    rfl
  | .object ((k, v) :: ms) closed, p, ts, h => by
    obtain ⟨rfl, hms⟩ := Bool.and_eq_true_iff.1 h
    obtain ⟨hv, hms⟩ := Bool.and_eq_true_iff.1 hms
    rw [spell]
    simp only [List.cons_append, List.append_assoc, List.nil_append]
    rw [build_cons (b := .firstKey p) rfl, build_cons (b := .colon [] k p) rfl,
      build_cons (b := .value (.member [] k p)) rfl, build_spell v _ _ hv]
    exact build_spellMembers ms [(k, v)] p ts hms
  | .fault, _, _, h => by cases h

theorem build_spellItems : ∀ (vs before : List Json) (outer : Place) (ts : List Token),
    itemsIntact vs = true →
      build (.afterItem before outer) (spellItems vs ++ .endList :: ts) =
        build (outer.fill (.list (before.reverse ++ vs) true)) ts
  | [], before, outer, ts, _ => by
    rw [spellItems, List.append_nil]
    rfl
  | v :: vs, before, outer, ts, h => by
    obtain ⟨hv, hvs⟩ := Bool.and_eq_true_iff.1 h
    rw [spellItems]
    simp only [List.cons_append, List.append_assoc]
    rw [build_cons (b := .value (.item before outer)) rfl, build_spell v _ _ hv]
    refine (build_spellItems vs (v :: before) outer ts hvs).trans ?_
    rw [List.reverse_cons, List.append_assoc, List.singleton_append]

theorem build_spellMembers :
    ∀ (ms before : List (Option String × Json)) (outer : Place) (ts : List Token),
      membersIntact ms = true →
        build (.afterMember before outer) (spellMembers ms ++ .endObject :: ts) =
          build (outer.fill (.object (before.reverse ++ ms) true)) ts
  | [], before, outer, ts, _ => by
    rw [spellMembers, List.append_nil]
    rfl
  | (k, v) :: ms, before, outer, ts, h => by
    obtain ⟨hv, hms⟩ := Bool.and_eq_true_iff.1 h
    rw [spellMembers]
    simp only [List.cons_append, List.append_assoc]
    rw [build_cons (b := .key before outer) rfl, build_cons (b := .colon before k outer) rfl,
      build_cons (b := .value (.member before k outer)) rfl, build_spell v _ _ hv]
    refine (build_spellMembers ms ((k, v) :: before) outer ts hms).trans ?_
    rw [List.reverse_cons, List.append_assoc, List.singleton_append]

end

/-- A text that lays out the tokens of an intact value holds that value and nothing else. -/
theorem ofString_laid {v : Json} {s : String} (hs : Laid (spell v) s.toList)
    (h : v.intact = true) : Document.ofString s = ⟨v, true⟩ := by
  have read := build_spell v .root [] h
  rw [List.append_nil] at read
  rw [Document.ofString, tokens_spelling hs, read]
  rfl

/-- An intact value is read back from its text, however the text is laid out. -/
theorem ofString_write {l : Spacing} (hl : l.Blank) {v : Json} (h : v.intact = true) :
    Document.ofString (String.ofList (write l 0 v)) = ⟨v, true⟩ := by
  apply ofString_laid _ h
  rw [String.toList_ofList]
  exact write_laid hl 0 h

theorem ofString_compact {v : Json} (h : v.intact = true) :
    Document.ofString v.compact = ⟨v, true⟩ :=
  ofString_write compact_blank h

theorem ofString_pretty {v : Json} (h : v.intact = true) :
    Document.ofString v.pretty = ⟨v, true⟩ :=
  ofString_write pretty_blank h

end PipelineEditor.Json
