import PipelineEditor.Failure
import PipelineEditor.Proofs.Text.Case
import PipelineEditor.Report

/-! The category that a failure is reported under. It is found again from the words of the message,
so that it is that of the failure unless the reason speaks of something that is looked for first. -/
namespace PipelineEditor

open Text (Mentions)

/-- The words that speak of files. -/
def Report.fileWords : List String :=
  ["permission denied", "no such file", "i/o", "read-only"]

theorem Report.category_ofMessage (activity : Activity) (message : String) :
    (ofMessage activity message).category = categorize message := by
  rw [ofMessage]

namespace Failure

/-- What is known of a failure. -/
def reason : Failure → String
  | .io reason | .json reason | .settings reason | .clipboard reason => reason

/-- What kind of failure it is. -/
def category : Failure → Category
  | .io _ => .io
  | .json _ | .settings _ => .validation
  | .clipboard _ => .clipboard

/-- The words in the reason of a failure that speak of something else. -/
def misleading : Failure → List String
  | .io _ => ["clipboard"]
  | .json _ | .settings _ => "clipboard" :: Report.fileWords
  | .clipboard _ => []

/-- What the message of a failure starts with. -/
private def label : Failure → String
  | .io _ => "i/o failure"
  | .json _ => "malformed pipeline json"
  | .settings _ => "invalid settings"
  | .clipboard _ => "clipboard unavailable"

private theorem message_eq (f : Failure) : f.message = f.label ++ ": " ++ f.reason := by
  cases f <;> rfl

/-- No occurrence of a word goes over the seam of a message, unless the word has a colon or starts
with a space. -/
private theorem holds_message (f : Failure) {word : String} (colon : ':' ∉ word.toList)
    (space : word.toList.head? ≠ some ' ') :
    Text.holds (Text.lower f.message) word =
      (Text.holds (Text.lower f.label) word || Text.holds (Text.lower f.reason) word) := by
  have parts : (Text.lower f.message).toList =
      (Text.lower f.label).toList ++ ':' :: ' ' :: (Text.lower f.reason).toList := by
    simp [message_eq, Text.lower]
  have behind (s : List Char) : word.toList <:+: ' ' :: s ↔ word.toList <:+: s := by
    rw [List.infix_cons_iff]
    refine or_iff_right_of_imp fun start => ?_
    cases chars : word.toList with
    | nil => exact List.nil_infix
    | cons c cs =>
      rw [chars] at start space
      exact absurd (congrArg some (List.cons_prefix_cons.1 start).1) space
  rw [Bool.eq_iff_iff, Bool.or_eq_true]
  simp only [Text.holds, Text.occurs_iff]
  rw [parts, Text.infix_append_cons_iff colon, behind]

private theorem any_holds_message (f : Failure) {words : List String}
    (h : ∀ word ∈ words, ':' ∉ word.toList ∧ word.toList.head? ≠ some ' ') :
    words.any (Text.holds (Text.lower f.message)) =
      (words.any (Text.holds (Text.lower f.label)) ||
        words.any (Text.holds (Text.lower f.reason))) := by
  induction words with
  | nil => rfl
  | cons word words ih =>
    obtain ⟨colon, space⟩ := h word List.mem_cons_self
    have rest := ih fun w there => h w (List.mem_cons_of_mem word there)
    rw [List.any_cons, List.any_cons, List.any_cons, f.holds_message colon space, rest]
    simp only [Bool.or_assoc, Bool.or_left_comm]

/-- Which of the three sorts of words are in a text. -/
private def sorts (text : String) : Bool × Bool × Bool :=
  (["clipboard"].any (Text.holds (Text.lower text)),
    Report.fileWords.any (Text.holds (Text.lower text)),
    ["invalid", "missing", "malformed"].any (Text.holds (Text.lower text)))

/-- The label of a failure has words for its own category, and for no other. -/
private theorem sorts_label (f : Failure) :
    sorts f.label =
      (f.category == .clipboard, f.category == .io, f.category == .validation) := by
  cases f with
  | io reason =>
    change sorts "i/o failure" = (false, true, false)
    decide +kernel
  | json reason =>
    change sorts "malformed pipeline json" = (false, false, true)
    decide +kernel
  | settings reason =>
    change sorts "invalid settings" = (false, false, true)
    decide +kernel
  | clipboard reason =>
    change sorts "clipboard unavailable" = (true, false, false)
    decide +kernel

/-- The words of the reason come after those of the label, sort by sort. A message is never without
a word, because its label is not. -/
private theorem categorize_message (f : Failure) :
    Report.categorize f.message =
      if f.category = .clipboard ∨ ["clipboard"].any (Text.holds (Text.lower f.reason)) then .clipboard
      else if f.category = .io ∨ Report.fileWords.any (Text.holds (Text.lower f.reason)) then .io
      else .validation := by
  have label := sorts_label f
  simp only [sorts, Prod.mk.injEq] at label
  obtain ⟨clipboard, files, faults⟩ := label
  have body : Report.categorize f.message =
      if ["clipboard"].any (Text.holds (Text.lower f.message)) then .clipboard
      else if Report.fileWords.any (Text.holds (Text.lower f.message)) then .io
      else if ["invalid", "missing", "malformed"].any (Text.holds (Text.lower f.message)) then
        .validation
      else .unknown := by
    rw [List.any_cons, List.any_nil, Bool.or_false]
    rfl
  rw [body, any_holds_message f (by decide), any_holds_message f (by decide),
    any_holds_message f (by decide), clipboard, files, faults]
  cases f <;> simp [category]

private theorem any_holds_iff {text : String} {words : List String}
    (h : ∀ word ∈ words, word.toList.all (!·.isUpper) = true) :
    words.any (Text.holds (Text.lower text)) = true ↔ ∃ word ∈ words, Mentions text word := by
  rw [List.any_eq_true]
  exact exists_congr fun word => and_congr_right fun there => Text.holds_lower_iff (h word there)

/-- What a failure is reported under, with what is mentioned in the reason then. -/
private theorem category_cases (f : Failure) :
    let reported := (Report.ofMessage .exporting f.message).category
    (reported = .clipboard ∧ (f.category = .clipboard ∨ Mentions f.reason "clipboard")) ∨
    (reported = .io ∧ f.category ≠ .clipboard ∧ ¬ Mentions f.reason "clipboard" ∧
      (f.category = .io ∨ ∃ word ∈ Report.fileWords, Mentions f.reason word)) ∨
    (reported = .validation ∧ f.category ≠ .clipboard ∧ f.category ≠ .io ∧
      ¬ Mentions f.reason "clipboard" ∧ ¬ ∃ word ∈ Report.fileWords, Mentions f.reason word) := by
  dsimp only
  have clipboard : ["clipboard"].any (Text.holds (Text.lower f.reason)) = true ↔
      Mentions f.reason "clipboard" :=
    (any_holds_iff (by decide)).trans (by simp)
  have files : Report.fileWords.any (Text.holds (Text.lower f.reason)) = true ↔
      ∃ word ∈ Report.fileWords, Mentions f.reason word := any_holds_iff (by decide)
  rw [Report.category_ofMessage, categorize_message]
  split
  next found => exact .inl ⟨rfl, found.imp_right clipboard.1⟩
  next silent =>
    obtain ⟨other, silent⟩ := not_or.1 silent
    split
    next found => exact .inr (.inl ⟨rfl, other, mt clipboard.2 silent, found.imp_right files.1⟩)
    next quiet =>
      obtain ⟨others, quiet⟩ := not_or.1 quiet
      exact .inr (.inr ⟨rfl, other, others, mt clipboard.2 silent, mt files.2 quiet⟩)

private theorem category_of_ne {f : Failure} (h : f.category ≠ .clipboard) (h' : f.category ≠ .io) :
    f.category = .validation := by
  cases f with
  | io reason => exact absurd rfl h'
  | clipboard reason => exact absurd rfl h
  | json reason => rfl
  | settings reason => rfl

private theorem mem_misleading {f : Failure} {word : String} :
    word ∈ f.misleading ↔ (word = "clipboard" ∧ f.category ≠ .clipboard) ∨
      (word ∈ Report.fileWords ∧ f.category = .validation) := by
  cases f <;> simp [misleading, category]

/-- A failure is reported under its own category exactly when its reason mentions none of the words
that are looked for before those of its label; a failure of the clipboard always is. Otherwise it is
reported as one of the clipboard if the reason mentions that, and as one of files if it does not. -/
theorem category_of_failure (f : Failure) :
    let reported := (Report.ofMessage .exporting f.message).category
    (reported = f.category ↔ ∀ word ∈ f.misleading, ¬ Mentions f.reason word) ∧
    (reported ≠ f.category →
      (reported = .clipboard ∧ Mentions f.reason "clipboard") ∨
        (reported = .io ∧ ¬ Mentions f.reason "clipboard" ∧
          ∃ word ∈ Report.fileWords, Mentions f.reason word)) := by
  have sorted := f.category_cases
  generalize (Report.ofMessage .exporting f.message).category = reported at sorted ⊢
  rcases sorted with ⟨made, found⟩ | ⟨made, other, silent, found⟩ |
    ⟨made, other, others, silent, quiet⟩
  · by_cases own : f.category = .clipboard
    · have none : ∀ word ∈ f.misleading, ¬ Mentions f.reason word := fun word there => by
        rcases mem_misleading.1 there with ⟨-, other⟩ | ⟨-, fault⟩
        · exact absurd own other
        · cases own.symm.trans fault
      exact ⟨iff_of_true (made.trans own.symm) none, fun h => absurd (made.trans own.symm) h⟩
    · have mention := found.resolve_left own
      have there : "clipboard" ∈ f.misleading := mem_misleading.2 (.inl ⟨rfl, own⟩)
      exact ⟨iff_of_false (fun same => own (same.symm.trans made)) fun none =>
        none _ there mention, fun _ => .inl ⟨made, mention⟩⟩
  · by_cases own : f.category = .io
    · have none : ∀ word ∈ f.misleading, ¬ Mentions f.reason word := fun word there => by
        rcases mem_misleading.1 there with ⟨rfl, -⟩ | ⟨-, fault⟩
        · exact silent
        · cases own.symm.trans fault
      exact ⟨iff_of_true (made.trans own.symm) none, fun h => absurd (made.trans own.symm) h⟩
    · obtain ⟨word, there, mention⟩ := found.resolve_left own
      have misled : word ∈ f.misleading := mem_misleading.2 (.inr ⟨there, category_of_ne other own⟩)
      exact ⟨iff_of_false (fun same => own (same.symm.trans made)) fun none =>
        none word misled mention, fun _ => .inr ⟨made, silent, word, there, mention⟩⟩
  · have own := category_of_ne other others
    have none : ∀ word ∈ f.misleading, ¬ Mentions f.reason word := fun word there mention => by
      rcases mem_misleading.1 there with ⟨rfl, -⟩ | ⟨there, -⟩
      · exact silent mention
      · exact quiet ⟨word, there, mention⟩
    exact ⟨iff_of_true (made.trans own.symm) none, fun h => absurd (made.trans own.symm) h⟩

/-- A document that is refused for a word that speaks of files. -/
theorem category_of_failure_files :
    let f := Failure.json "Read-Only"
    let reported := (Report.ofMessage .exporting f.message).category
    reported ≠ f.category ∧
      ((reported = .clipboard ∧ Mentions f.reason "clipboard") ∨
        (reported = .io ∧ ¬ Mentions f.reason "clipboard" ∧
          ∃ word ∈ Report.fileWords, Mentions f.reason word)) := by
  intro f reported
  have misled : reported ≠ f.category := by decide +kernel
  exact ⟨misled, (category_of_failure f).2 misled⟩

/-- Settings and files are taken for the clipboard, and a document for a file, by what their reasons
mention. -/
theorem category_lost_to_reason :
    let reported (f : Failure) := (Report.ofMessage .exporting f.message).category
    reported (.settings "no Clipboard") = .clipboard ∧
      reported (.io "clipboard") = .clipboard ∧
        reported (.json "Read-Only") = .io := by
  decide +kernel

end Failure
end PipelineEditor
