import PipelineEditor.Proofs.Text.Search

/-! Replacement from left to right as a relation between texts. A mark that overlaps neither itself
nor what stands between marks can be put in place of a character and be replaced by it again: only
marks that were there before are lost. -/
namespace PipelineEditor.Text

/-- A text with the occurrences of a pattern replaced from left to right. An occurrence is replaced as
a whole, and a character that starts none is kept. -/
inductive Replaced (pattern replacement : List Char) : List Char → List Char → Prop
  | nil : Replaced pattern replacement [] []
  | occurrence {s t : List Char} (rest : Replaced pattern replacement s t) :
      Replaced pattern replacement (pattern ++ s) (replacement ++ t)
  | kept {c : Char} {s t : List Char} (other : ¬ pattern <+: c :: s)
      (rest : Replaced pattern replacement s t) :
      Replaced pattern replacement (c :: s) (c :: t)

variable {pattern replacement s t : List Char} {c : Char}

/-! The relation and the function. -/

private theorem replaceFrom_eq_drop (n : Nat) (s : List Char) :
    replaceFrom pattern replacement n s = replaceFrom pattern replacement 0 (s.drop n) := by
  induction n generalizing s with
  | zero => rfl
  | succ n ih =>
    cases s with
    | nil => rfl
    | cons c s => exact ih s

private theorem replaceFrom_append (visible : pattern ≠ []) (s : List Char) :
    replaceFrom pattern replacement 0 (pattern ++ s) =
      replacement ++ replaceFrom pattern replacement 0 s := by
  obtain ⟨p, ps, rfl⟩ := List.exists_cons_of_ne_nil visible
  have found : (after? (p :: ps) (p :: (ps ++ s))).isSome = true :=
    isSome_after?_iff.2 (List.prefix_append (p :: ps) s)
  rw [List.cons_append, replaceFrom, if_pos found, replaceFrom_eq_drop]
  change replacement ++ replaceFrom _ _ 0 ((ps ++ s).drop ps.length) = _
  rw [List.drop_left]

private theorem replaceFrom_cons (other : ¬ pattern <+: c :: s) :
    replaceFrom pattern replacement 0 (c :: s) = c :: replaceFrom pattern replacement 0 s := by
  rw [replaceFrom, if_neg (mt isSome_after?_iff.1 other)]

private theorem Replaced.eq_replaceFrom (visible : pattern ≠ []) (h : Replaced pattern replacement s t) :
    t = replaceFrom pattern replacement 0 s := by
  induction h with
  | nil => rfl
  | occurrence _ ih => rw [replaceFrom_append visible, ← ih]
  | kept other _ ih => rw [replaceFrom_cons other, ← ih]

/-- The function goes over a text as the relation says. -/
theorem replaced_replaceFrom (visible : pattern ≠ []) (s : List Char) :
    Replaced pattern replacement s (replaceFrom pattern replacement 0 s) := by
  -- an occurrence is passed over at once, so that the rest is any shorter text
  induction hn : s.length using Nat.strongRecOn generalizing s with
  | ind n ih =>
    subst hn
    by_cases start : pattern <+: s
    · obtain ⟨rest, rfl⟩ := start
      rw [replaceFrom_append visible]
      have shorter : rest.length < (pattern ++ rest).length := by
        have := List.length_pos_iff.2 visible
        rw [List.length_append]
        omega
      exact .occurrence (ih _ shorter rest rfl)
    · cases s with
      | nil => exact .nil
      | cons c s =>
        rw [replaceFrom_cons start]
        exact .kept start (ih _ (Nat.lt_succ_self _) s rfl)

theorem replaced_replace {mark : String} (visible : mark.toList ≠ []) (text s : String) :
    Replaced mark.toList text.toList s.toList (replace mark text s).toList := by
  rw [replace, String.toList_ofList]
  exact replaced_replaceFrom visible s.toList

theorem Replaced.unique {u : List Char} (visible : pattern ≠ [])
    (h : Replaced pattern replacement s t) (h' : Replaced pattern replacement s u) : t = u :=
  (h.eq_replaceFrom visible).trans (h'.eq_replaceFrom visible).symm

/-! What is left of a text. -/

theorem Replaced.eq_of_not_infix (h : Replaced pattern replacement s t)
    (absent : ¬ pattern <:+: s) : t = s := by
  induction h with
  | nil => rfl
  | occurrence _ _ => exact absurd (List.infix_append [] pattern _) absent
  | kept _ _ ih => rw [ih fun inside => absent (List.infix_cons inside)]

theorem Replaced.length_le (short : replacement.length < pattern.length)
    (h : Replaced pattern replacement s t) : t.length ≤ s.length := by
  induction h with
  | nil => exact Nat.le_refl 0
  | occurrence _ ih =>
    rw [List.length_append, List.length_append]
    omega
  | kept _ _ ih => exact Nat.succ_le_succ ih

theorem Replaced.length_lt (short : replacement.length < pattern.length)
    (h : Replaced pattern replacement s t) (inside : pattern <:+: s) : t.length < s.length := by
  induction h with
  | nil =>
    rw [List.infix_nil.1 inside] at short
    cases short
  | occurrence rest _ =>
    have := rest.length_le short
    rw [List.length_append, List.length_append]
    omega
  | kept other _ ih =>
    exact Nat.succ_lt_succ (ih ((List.infix_cons_iff.1 inside).resolve_left other))

/-- A text stays as it is exactly when it does not hold the pattern, if what replaces the pattern is
shorter. -/
theorem Replaced.eq_iff (short : replacement.length < pattern.length)
    (h : Replaced pattern replacement s t) : t = s ↔ ¬ pattern <:+: s := by
  refine ⟨fun same inside => ?_, h.eq_of_not_infix⟩
  have shorter := h.length_lt short inside
  rw [same] at shorter
  exact Nat.lt_irrefl _ shorter

/-! Marks in place of a character. -/

/-- A text with a mark in place of each of a character. -/
def marked (mark : List Char) (c : Char) (s : List Char) : List Char :=
  s.flatMap fun d => if d = c then mark else [d]

section

variable {mark : List Char} {d : Char}

private theorem marked_cons_self (s : List Char) : marked mark c (c :: s) = mark ++ marked mark c s := by
  rw [marked, List.flatMap_cons, if_pos rfl]
  rfl

private theorem marked_cons_of_ne (h : d ≠ c) (s : List Char) :
    marked mark c (d :: s) = d :: marked mark c s := by
  rw [marked, List.flatMap_cons, if_neg h]
  rfl

private theorem marked_append {part : List Char} (h : c ∉ part) (s : List Char) :
    marked mark c (part ++ s) = part ++ marked mark c s := by
  induction part with
  | nil => rfl
  | cons d part ih =>
    obtain ⟨first, rest⟩ := not_or.1 (mt List.mem_cons.2 h)
    rw [List.cons_append, marked_cons_of_ne (Ne.symm first), ih rest]
    rfl

/-- What does not hold the first character of the mark does not reach into a mark. -/
private theorem prefix_of_prefix_marked {first : Char} {rest part : List Char} (h : first ∉ part)
    (start : part <+: marked (first :: rest) c s) : part <+: s := by
  induction s generalizing part with
  | nil => exact start
  | cons d s ih =>
    cases part with
    | nil => exact List.nil_prefix
    | cons e part =>
      obtain ⟨apart, later⟩ := not_or.1 (mt List.mem_cons.2 h)
      by_cases hd : d = c
      · subst hd
        rw [marked_cons_self, List.cons_append] at start
        exact absurd (List.cons_prefix_cons.1 start).1.symm apart
      · rw [marked_cons_of_ne hd] at start
        obtain ⟨rfl, on⟩ := List.cons_prefix_cons.1 start
        exact List.cons_prefix_cons.2 ⟨rfl, ih later on⟩

/-- Marks that begin with a character that they have nowhere else are found again, and no others
come about next to them. -/
theorem replaced_marked {first : Char} {rest : List Char} (once : first ∉ rest)
    (other : c ∉ first :: rest) (h : Replaced (first :: rest) [c] s t) :
    Replaced (first :: rest) [c] (marked (first :: rest) c s) t := by
  induction h with
  | nil => exact .nil
  | occurrence _ ih =>
    rw [marked_append other]
    exact .occurrence ih
  | @kept d s t start _ ih =>
    by_cases hd : d = c
    · subst hd
      rw [marked_cons_self]
      exact .occurrence ih
    · rw [marked_cons_of_ne hd]
      refine .kept (fun seam => start ?_) ih
      obtain ⟨rfl, on⟩ := List.cons_prefix_cons.1 seam
      exact List.cons_prefix_cons.2 ⟨rfl, prefix_of_prefix_marked once on⟩

end

end PipelineEditor.Text
