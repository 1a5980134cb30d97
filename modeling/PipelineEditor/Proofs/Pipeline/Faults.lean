import PipelineEditor.Proofs.Pipeline.Validation

/-! The faults of a pipeline, as they are to be found by a reader of its name, its stages and its
connections. There is one list of them for every pipeline, and its problems are those faults in
words. -/
namespace PipelineEditor

/-- The code points with the Unicode property White_Space. -/
def Text.whiteSpace : List Nat :=
  [0x9, 0xa, 0xb, 0xc, 0xd, 0x20, 0x85, 0xa0, 0x1680, 0x2000, 0x2001, 0x2002, 0x2003, 0x2004, 0x2005,
    0x2006, 0x2007, 0x2008, 0x2009, 0x200a, 0x2028, 0x2029, 0x202f, 0x205f, 0x3000]

/-- What can be wrong with a pipeline. A name that is missing at the end of a connection comes with
the connection. -/
inductive Fault
  | missingName
  | invalidName
  | noStages
  | dangling (connection : Connection) (name : String)
deriving DecidableEq, Repr

/-- A fault in words. -/
def Fault.message : Fault → Message
  | .missingName => ⟨.missingName, "Pipeline name is missing."⟩
  | .invalidName =>
    ⟨.invalidName, "Pipeline name can only contain alphanumeric characters, '-' and '_'."⟩
  | .noStages => ⟨.noStages, "Pipeline must contain at least one stage."⟩
  | .dangling c name =>
    ⟨.error, "Connection " ++ c.source ++ " -> " ++ c.target ++ " references unknown stage '" ++ name ++
      "'."⟩

namespace Graph

def names (g : Graph) : List String :=
  g.stages.map (·.name)

/-- The ends of all connections, each source before the target. -/
def ends (g : Graph) : List (Connection × String) :=
  g.connections.flatMap fun c => [(c, c.source), (c, c.target)]

end Graph

namespace Pipeline

/-- The pattern of pipeline names, `[A-Za-z0-9_-]+`. -/
structure FollowsPattern (name : String) : Prop where
  some : name ≠ ""
  chars : ∀ c ∈ name.toList,
    ('A' ≤ c ∧ c ≤ 'Z') ∨ ('a' ≤ c ∧ c ≤ 'z') ∨ ('0' ≤ c ∧ c ≤ '9') ∨ c = '_' ∨ c = '-'

/-- The fault of a name, if it has one. -/
inductive NameFaults (name : String) : List Fault → Prop
  | missing (blank : ∀ c ∈ name.toList, c.toNat ∈ Text.whiteSpace) : NameFaults name [.missingName]
  | invalid (shown : ∃ c ∈ name.toList, c.toNat ∉ Text.whiteSpace)
      (other : ¬ FollowsPattern name) : NameFaults name [.invalidName]
  | none (valid : FollowsPattern name) : NameFaults name []

inductive StageFaults : List Stage → List Fault → Prop
  | missing : StageFaults [] [.noStages]
  | none {stage : Stage} {stages : List Stage} : StageFaults (stage :: stages) []

/-- The faults of the ends of connections: one for each end that is none of the names. -/
inductive EndFaults (names : List String) : List (Connection × String) → List Fault → Prop
  | nil : EndFaults names [] []
  | joined {c : Connection} {name : String} {ends : List (Connection × String)} {fs : List Fault}
      (there : name ∈ names) (rest : EndFaults names ends fs) :
      EndFaults names ((c, name) :: ends) fs
  | dangling {c : Connection} {name : String} {ends : List (Connection × String)} {fs : List Fault}
      (missing : name ∉ names) (rest : EndFaults names ends fs) :
      EndFaults names ((c, name) :: ends) (.dangling c name :: fs)

/-- The faults of a pipeline, in the order in which they are to be reported. -/
inductive Listed (p : Pipeline) : List Fault → Prop
  | intro {ofName ofStages ofEnds : List Fault} (name : NameFaults p.name ofName)
      (stages : StageFaults p.graph.stages ofStages)
      (ends : EndFaults p.graph.names p.graph.ends ofEnds) : Listed p (ofName ++ ofStages ++ ofEnds)

/-- The name of a pipeline is missing: there is nothing in it but white space. -/
def Unnamed (p : Pipeline) : Prop :=
  ∀ c ∈ p.name.toList, c.toNat ∈ Text.whiteSpace

/-! Names. -/

theorem isBlank_iff (c : Char) : Text.isBlank c = true ↔ c.toNat ∈ Text.whiteSpace := by
  have code (d : Char) : c = d ↔ c.toNat = d.toNat := Char.toNat_inj.symm
  have upto (a b : Char) : a ≤ b ↔ a.toNat ≤ b.toNat := Iff.rfl
  simp only [Text.isBlank, Text.whiteSpace, Bool.or_eq_true, Bool.and_eq_true, decide_eq_true_eq,
    beq_iff_eq, code, upto, Char.reduceToNat, List.mem_cons, List.not_mem_nil, or_false]
  omega

theorem blank_iff (name : String) :
    Text.blank name = true ↔ ∀ c ∈ name.toList, c.toNat ∈ Text.whiteSpace := by
  rw [Text.blank, List.all_eq_true]
  exact forall₂_congr fun c _ => isBlank_iff c

instance : DecidablePred Unnamed := fun p => decidable_of_iff _ (blank_iff p.name)

theorem isValidName_iff (name : String) : isValidName name = true ↔ FollowsPattern name := by
  have char (c : Char) : isNameChar c = true ↔
      ('A' ≤ c ∧ c ≤ 'Z') ∨ ('a' ≤ c ∧ c ≤ 'z') ∨ ('0' ≤ c ∧ c ≤ '9') ∨ c = '_' ∨ c = '-' := by
    delta isNameChar Char.isAlphanum Char.isAlpha Char.isUpper Char.isLower Char.isDigit
    simp only [Bool.or_eq_true, Bool.and_eq_true, decide_eq_true_eq, beq_iff_eq, or_assoc]
    rfl
  rw [isValidName, Bool.and_eq_true, List.all_eq_true, forall₂_congr fun c _ => char c]
  have some : (!name.isEmpty) = true ↔ name ≠ "" := by simp
  rw [some]
  exact ⟨fun h => ⟨h.1, h.2⟩, fun h => ⟨h.some, h.chars⟩⟩

theorem NameFaults.exists_of (name : String) : ∃ fs, NameFaults name fs := by
  by_cases blank : ∀ c ∈ name.toList, c.toNat ∈ Text.whiteSpace
  · exact ⟨_, .missing blank⟩
  by_cases valid : FollowsPattern name
  · exact ⟨_, .none valid⟩
  · have shown : ∃ c ∈ name.toList, c.toNat ∉ Text.whiteSpace := by simpa using blank
    exact ⟨_, .invalid shown valid⟩

theorem NameFaults.problems {name : String} {fs : List Fault} (h : NameFaults name fs) :
    nameProblems name = fs.map Fault.message := by
  cases h with
  | missing blank => exact if_pos ((blank_iff name).2 blank)
  | invalid shown other =>
    have filled : ¬ Text.blank name = true := by
      rw [blank_iff]
      rintro blank
      obtain ⟨c, there, seen⟩ := shown
      exact seen (blank c there)
    rw [nameProblems, if_neg filled, if_neg (mt (isValidName_iff name).1 other)]
    rfl
  | none valid => exact (nameProblems_eq_nil_iff name).2 ((isValidName_iff name).2 valid)

/-- A name of the pattern is not blank, so that the cases exclude each other. -/
theorem NameFaults.unique {name : String} {fs gs : List Fault} (h : NameFaults name fs)
    (h' : NameFaults name gs) : gs = fs := by
  have same : gs.map Fault.message = fs.map Fault.message := h'.problems.symm.trans h.problems
  cases h <;> cases h' <;> cases same <;> rfl

/-! Stages. -/

theorem StageFaults.exists_of (stages : List Stage) : ∃ fs, StageFaults stages fs := by
  cases stages with
  | nil => exact ⟨_, .missing⟩
  | cons stage stages => exact ⟨_, .none⟩

theorem StageFaults.problems {g : Graph} {fs : List Fault} (h : StageFaults g.stages fs) :
    stageProblems g = fs.map Fault.message := by
  obtain ⟨stages, connections⟩ := g
  cases h <;> rfl

theorem StageFaults.unique {stages : List Stage} {fs gs : List Fault} (h : StageFaults stages fs)
    (h' : StageFaults stages gs) : gs = fs := by
  cases h <;> cases h' <;> rfl

/-! Connections. -/

namespace EndFaults

variable {names : List String} {ends : List (Connection × String)} {fs gs : List Fault}

theorem exists_of (names : List String) (ends : List (Connection × String)) :
    ∃ fs, EndFaults names ends fs := by
  induction ends with
  | nil => exact ⟨_, .nil⟩
  | cons e ends ih =>
    obtain ⟨fs, rest⟩ := ih
    by_cases there : e.2 ∈ names
    · exact ⟨_, .joined there rest⟩
    · exact ⟨_, .dangling there rest⟩

theorem unique (h : EndFaults names ends fs) (h' : EndFaults names ends gs) : gs = fs := by
  induction h generalizing gs with
  | nil =>
    cases h'
    rfl
  | joined there _ ih =>
    cases h' with
    | joined _ rest => exact ih rest
    | dangling missing _ => exact absurd there missing
  | dangling missing _ ih =>
    cases h' with
    | joined there _ => exact absurd there missing
    | dangling _ rest => rw [ih rest]

theorem filter_map (h : EndFaults names ends fs) :
    (ends.filter fun e => e.2 ∉ names).map (fun e => danglingEnd e.1 e.2) =
      fs.map Fault.message := by
  induction h with
  | nil => rfl
  | joined there _ ih =>
    rw [List.filter_cons_of_neg (by simpa using there)]
    exact ih
  | dangling missing _ ih =>
    rw [List.filter_cons_of_pos (by simpa using missing), List.map_cons, ih]
    rfl

theorem problems {g : Graph} (h : EndFaults g.names g.ends fs) :
    connectionProblems g = fs.map Fault.message := by
  rw [← h.filter_map, Graph.ends, List.filter_flatMap, List.map_flatMap, connectionProblems]
  have known (name : String) : (g.stages.any fun s => s.name == name) = decide (name ∈ g.names) := by
    simp [Graph.names, List.any_eq]
  simp only [known]
  refine congrArg (g.connections.flatMap ·) (funext fun c => ?_)
  change _ = List.map _ (List.filter _ ([c.source, c.target].map (Prod.mk c)))
  rw [List.filter_map, List.map_map]
  simp only [Function.comp_def, decide_not]

end EndFaults

/-! The whole pipeline. -/

namespace Listed

variable {p : Pipeline} {fs gs : List Fault}

theorem exists_of (p : Pipeline) : ∃ fs, p.Listed fs := by
  obtain ⟨_, name⟩ := NameFaults.exists_of p.name
  obtain ⟨_, stages⟩ := StageFaults.exists_of p.graph.stages
  obtain ⟨_, ends⟩ := EndFaults.exists_of p.graph.names p.graph.ends
  exact ⟨_, .intro name stages ends⟩

theorem unique (h : p.Listed fs) (h' : p.Listed gs) : gs = fs := by
  obtain ⟨name, stages, ends⟩ := h
  obtain ⟨name', stages', ends'⟩ := h'
  rw [name.unique name', stages.unique stages', ends.unique ends']

theorem problems (h : p.Listed fs) : p.problems = fs.map Fault.message := by
  obtain ⟨name, stages, ends⟩ := h
  rw [Pipeline.problems, name.problems, stages.problems, ends.problems, List.map_append,
    List.map_append]

end Listed

/-- No problem reads like a success. -/
theorem kind_of_mem_problems {p : Pipeline} {m : Message} (h : m ∈ p.problems) :
    m.kind ≠ .success := by
  obtain ⟨fs, listed⟩ := Listed.exists_of p
  rw [listed.problems] at h
  obtain ⟨f, -, rfl⟩ := List.mem_map.1 h
  cases f <;> exact nofun

/-- The problems that find fault with the name are those of the name. -/
theorem filter_isNameError (p : Pipeline) :
    p.problems.filter (·.kind.isNameError) = nameProblems p.name := by
  have name : (nameProblems p.name).filter (·.kind.isNameError) = nameProblems p.name := by
    obtain ⟨fs, faults⟩ := NameFaults.exists_of p.name
    rw [faults.problems]
    cases faults <;> rfl
  have stages : (stageProblems p.graph).filter (·.kind.isNameError) = [] := by
    unfold stageProblems
    split <;> rfl
  have connections : (connectionProblems p.graph).filter (·.kind.isNameError) = [] := by
    refine List.filter_eq_nil_iff.2 fun m there => ?_
    obtain ⟨c, -, dangling⟩ := List.mem_flatMap.1 there
    obtain ⟨name, -, rfl⟩ := List.mem_map.1 dangling
    exact Bool.false_ne_true
  rw [problems, List.filter_append, List.filter_append, name, stages, connections, List.append_nil,
    List.append_nil]

/-- A name is reported as missing when there is nothing in it but white space, and only then. -/
theorem missingName_iff (p : Pipeline) :
    (∃ m ∈ p.problems, m.kind = .missingName) ↔ p.Unnamed := by
  have ofName (m : Message) : (m ∈ p.problems ∧ m.kind = .missingName) ↔
      (m ∈ nameProblems p.name ∧ m.kind = .missingName) := by
    rw [← filter_isNameError, List.mem_filter]
    constructor
    · exact fun ⟨there, kind⟩ => ⟨⟨there, by rw [kind]; rfl⟩, kind⟩
    · exact fun ⟨there, kind⟩ => ⟨there.1, kind⟩
  obtain ⟨fs, faults⟩ := NameFaults.exists_of p.name
  rw [exists_congr ofName, faults.problems]
  cases faults with
  | missing blank => exact iff_of_true ⟨_, List.mem_singleton_self _, rfl⟩ blank
  | invalid shown other =>
    refine iff_of_false (by simp [Fault.message]) fun unnamed => ?_
    cases (NameFaults.invalid shown other).unique (.missing unnamed)
  | none valid =>
    refine iff_of_false (by simp) fun unnamed => ?_
    cases (NameFaults.none valid).unique (.missing unnamed)

theorem any_isNameError (p : Pipeline) :
    (p.problems.any (·.kind.isNameError)) = !isValidName p.name := by
  have found : p.problems.any (·.kind.isNameError) = true ↔ ¬ isValidName p.name = true := by
    rw [← nameProblems_eq_nil_iff, ← filter_isNameError, List.filter_eq_nil_iff, List.any_eq_true]
    simp
  rw [Bool.eq_iff_iff, found, Bool.not_eq_true', Bool.not_eq_true]

end Pipeline
end PipelineEditor
