import PipelineEditor.Proofs.Text.Replacement
import PipelineEditor.Summary

/-! Summaries tell descriptions apart: where the line has a space, the tooltip shows whether a line
break stood there. The text over the header is the description again, unless marks for line breaks
stand in that itself. -/
namespace PipelineEditor.Summary

/-- What stands for a character of a description, with a mark for line breaks. -/
private def shown (mark : List Char) (c : Char) : List Char :=
  if c = '\n' then mark else [c]

private theorem ofDescription_eq (d : String) :
    ofDescription d =
      ⟨.ofList (d.toList.flatMap (shown [' '])),
        .ofList (d.toList.flatMap (shown lineBreak.toList))⟩ := by
  have marked (mark : String) :
      Text.replace "\n" mark d = .ofList (d.toList.flatMap (shown mark.toList)) :=
    congrArg String.ofList (Text.replaceFrom_singleton '\n' mark.toList d.toList)
  unfold ofDescription
  split
  next empty =>
    rw [String.isEmpty_iff.1 empty]
    rfl
  · rw [marked, marked]
    rfl

private theorem shown_ne_nil {mark : List Char} (h : mark ≠ []) (c : Char) : shown mark c ≠ [] := by
  unfold shown
  split
  · exact h
  · exact List.cons_ne_nil _ _

/-- No character but a line break looks like one both on the line and in the tooltip. -/
private theorem shown_inj {c d : Char} {cs ds es fs : List Char}
    (line : shown [' '] c ++ cs = shown [' '] d ++ ds)
    (tooltip : shown lineBreak.toList c ++ es = shown lineBreak.toList d ++ fs) : c = d := by
  have start : lineBreak.toList = '<' :: "br />".toList := by decide
  unfold shown at line tooltip
  rw [start] at tooltip
  by_cases hc : c = '\n' <;> by_cases hd : d = '\n'
  · exact hc.trans hd.symm
  · rw [if_pos hc, if_neg hd] at line tooltip
    have space : ' ' = d := (List.cons.inj line).1
    have bracket : '<' = d := (List.cons.inj tooltip).1
    cases space.trans bracket.symm
  · rw [if_neg hc, if_pos hd] at line tooltip
    have space : c = ' ' := (List.cons.inj line).1
    have bracket : c = '<' := (List.cons.inj tooltip).1
    cases space.symm.trans bracket
  · rw [if_neg hc, if_neg hd] at line
    exact (List.cons.inj line).1

private theorem eq_of_shown {cs ds : List Char}
    (line : cs.flatMap (shown [' ']) = ds.flatMap (shown [' ']))
    (tooltip : cs.flatMap (shown lineBreak.toList) = ds.flatMap (shown lineBreak.toList)) :
    cs = ds := by
  have visible (c : Char) : shown [' '] c ≠ [] := shown_ne_nil (List.cons_ne_nil _ _) c
  induction cs generalizing ds with
  | nil =>
    cases ds with
    | nil => rfl
    | cons d ds => exact absurd (List.append_eq_nil_iff.1 line.symm).1 (visible d)
  | cons c cs ih =>
    cases ds with
    | nil => exact absurd (List.append_eq_nil_iff.1 line).1 (visible c)
    | cons d ds =>
      rw [List.flatMap_cons, List.flatMap_cons] at line tooltip
      obtain rfl := shown_inj line tooltip
      rw [ih (List.append_cancel_left line) (List.append_cancel_left tooltip)]

theorem ofDescription_inj {d e : String} : ofDescription d = ofDescription e ↔ d = e := by
  refine ⟨fun same => ?_, congrArg ofDescription⟩
  rw [ofDescription_eq, ofDescription_eq] at same
  obtain ⟨line, tooltip⟩ := Summary.mk.inj same
  exact String.toList_inj.1 (eq_of_shown (String.ofList_inj.1 line) (String.ofList_inj.1 tooltip))

private theorem toList_line (d : String) :
    (ofDescription d).line.toList = d.toList.map fun c => if c = '\n' then ' ' else c := by
  have single : shown [' '] = fun c => [if c = '\n' then ' ' else c] := by
    funext c
    unfold shown
    split <;> rfl
  rw [ofDescription_eq, String.toList_ofList, single, List.map_eq_flatMap]

private theorem toList_tooltip (d : String) :
    (ofDescription d).tooltip.toList = Text.marked lineBreak.toList '\n' d.toList := by
  rw [ofDescription_eq, String.toList_ofList]
  rfl

/-- The text over the header is that of the tooltip with the marks replaced from left to right. It is
the description with the marks in it replaced likewise, and so it is the description itself exactly
when that holds no mark. The line is as long as the description, has no line break, and differs from it
just where that has one. -/
theorem hover_ofDescription (d : String) :
    Text.Replaced lineBreak.toList ['\n'] (ofDescription d).tooltip.toList
        (ofDescription d).hover.toList ∧
      (ofDescription d).hover = Text.replace lineBreak "\n" d ∧
      ((ofDescription d).hover = d ↔ ¬ lineBreak.toList <:+: d.toList) ∧
      (ofDescription d).line.length = d.length ∧ '\n' ∉ (ofDescription d).line.toList ∧
      ∀ i : Nat, (ofDescription d).line.toList[i]? = d.toList[i]? ↔ d.toList[i]? ≠ some '\n' := by
  have mark : lineBreak.toList = '<' :: "br />".toList := by decide
  have visible : lineBreak.toList ≠ [] := mark ▸ List.cons_ne_nil _ _
  have shown : Text.Replaced lineBreak.toList ['\n'] (ofDescription d).tooltip.toList
      (ofDescription d).hover.toList :=
    Text.replaced_replace visible "\n" (ofDescription d).tooltip
  have within : Text.Replaced lineBreak.toList ['\n'] d.toList
      (Text.replace lineBreak "\n" d).toList :=
    Text.replaced_replace visible "\n" d
  have undone : Text.Replaced lineBreak.toList ['\n'] (ofDescription d).tooltip.toList
      (Text.replace lineBreak "\n" d).toList := by
    rw [toList_tooltip, mark]
    exact Text.replaced_marked (by decide) (by decide) (mark ▸ within)
  have read : (ofDescription d).hover = Text.replace lineBreak "\n" d :=
    String.toList_inj.1 (shown.unique visible undone)
  refine ⟨shown, read, ?_, ?_, ?_, fun i => ?_⟩
  · rw [read, ← String.toList_inj]
    exact within.eq_iff (by decide)
  · rw [← String.length_toList, toList_line, List.length_map, String.length_toList]
  · rw [toList_line, List.mem_map]
    rintro ⟨c, -, same⟩
    split at same
    · cases same
    next other => exact other same
  · rw [toList_line, List.getElem?_map]
    cases d.toList[i]? with
    | none => simp
    | some c => by_cases h : c = '\n' <;> simp [h]

example : (ofDescription "<br\n />\n").hover = "<br\n />\n" ∧
    (ofDescription "read<br />write").hover = "read\nwrite" := by
  decide

end PipelineEditor.Summary
