import PipelineEditor.Proofs.Pipeline.Wire

/-! The documents of a pipeline. Whatever is done to the order of the keys, to the fields with their
default values, to foreign keys and to white space, the reader finds the pipeline. -/
namespace PipelineEditor

/-! The JSON forms of the parts. Only the records among them are free in what members they have: the
texts and numbers are those that are written, and so are the keys of tables. -/

def Artifact.Form (a : Artifact) : Json → Prop :=
  RecordForm
    [.required "name" (· = .ofString a.name), .required "version" (· = .ofString a.version),
      .withDefault "scope" (· = .ofString a.scope.wireName) (a.scope = .system)]

def Plugin.Form (p : Plugin) : Json → Prop :=
  RecordForm [.required "name" (· = .ofString p.name), .required "type" (· = .ofString p.kind)]

def Stage.Form (s : Stage) : Json → Prop :=
  RecordForm
    [.required "id" (· = .number (.ofInt s.id.value.toInt)),
      .required "name" (· = .ofString s.name), .required "plugin" s.plugin.Form,
      .withDefault "properties" (s.properties.Form fun text v => v = .ofString text)
        (s.properties = .empty)]

def Connection.Form (c : Connection) : Json → Prop :=
  RecordForm [.required "from" (· = .ofString c.source), .required "to" (· = .ofString c.target)]

def Graph.Form (g : Graph) : Json → Prop :=
  RecordForm
    [.withDefault "stages" (Codec.ListForm Stage.Form g.stages) (g.stages = []),
      .withDefault "connections" (Codec.ListForm Connection.Form g.connections)
        (g.connections = [])]

def Position.Form (p : Position) : Json → Prop :=
  RecordForm
    [.required "x" (· = Number.Single.codec.write p.x),
      .required "y" (· = Number.Single.codec.write p.y)]

def Layout.Form (l : Layout) : Json → Prop :=
  RecordForm
    [.withDefault "positions" (l.positions.Form Position.Form) (l.positions = .empty)]

/-- A layout that is absent may be given as null. -/
def Layout.OptionalForm : Option Layout → Json → Prop
  | none => (· = .null)
  | some l => l.Form

def Pipeline.Form (p : Pipeline) : Json → Prop :=
  RecordForm
    [.withDefault "name" (· = .ofString p.name) (p.name = ""),
      .withDefault "description" (· = .ofString p.description) (p.description = ""),
      .required "artifact" p.artifact.Form,
      .withDefault "config" p.graph.Form (p.graph = .empty),
      .withDefault "__ui__" (Layout.OptionalForm p.layout) (p.layout = none)]

/-! The codecs read all of them. -/

theorem Artifact.codec_hasForm (a : Artifact) : Artifact.codec.HasForm a.Form a := by
  apply Codec.record_hasForm (by decide) rfl
  apply Fields.haveForms_required (Codec.text_roundTrips a.name).hasForm
  apply Fields.haveForms_required (Codec.text_roundTrips a.version).hasForm
  exact Fields.haveForms_withDefault (Scope.codec_roundTrips a.scope).hasForm Eq.symm trivial

theorem Plugin.codec_hasForm (p : Plugin) : Plugin.codec.HasForm p.Form p := by
  apply Codec.record_hasForm (by decide) rfl
  apply Fields.haveForms_required (Codec.text_roundTrips p.name).hasForm
  exact Fields.haveForms_required (Codec.text_roundTrips p.kind).hasForm trivial

theorem Stage.codec_hasForm (s : Stage) : Stage.codec.HasForm s.Form s := by
  apply Codec.record_hasForm (by decide) rfl
  apply Fields.haveForms_required (StageId.codec_roundTrips s.id).hasForm
  apply Fields.haveForms_required (Codec.text_roundTrips s.name).hasForm
  apply Fields.haveForms_required (Plugin.codec_hasForm s.plugin)
  apply Fields.haveForms_omittable
  · exact Table.hasForm fun e _ => (Codec.text_roundTrips e.2).hasForm
  · exact Eq.symm
  · exact Table.eq_empty
  · trivial

theorem Connection.codec_hasForm (c : Connection) : Connection.codec.HasForm c.Form c := by
  apply Codec.record_hasForm (by decide) rfl
  apply Fields.haveForms_required (Codec.text_roundTrips c.source).hasForm
  exact Fields.haveForms_required (Codec.text_roundTrips c.target).hasForm trivial

theorem Graph.codec_hasForm (g : Graph) : Graph.codec.HasForm g.Form g := by
  apply Codec.record_hasForm (by decide) rfl
  apply Fields.haveForms_withDefault (Codec.list_hasForm fun s _ => Stage.codec_hasForm s) Eq.symm
  exact Fields.haveForms_withDefault (Codec.list_hasForm fun c _ => Connection.codec_hasForm c)
    Eq.symm trivial

theorem Position.codec_hasForm {p : Position} (h : p.Legible) :
    Position.codec.HasForm p.Form p := by
  apply Codec.record_hasForm (by decide) rfl
  apply Fields.haveForms_required (Number.Single.codec_roundTrips h.1).hasForm
  exact Fields.haveForms_required (Number.Single.codec_roundTrips h.2).hasForm trivial

theorem Layout.codec_hasForm {l : Layout} (h : l.Legible) : Layout.codec.HasForm l.Form l := by
  apply Codec.record_hasForm (by decide) rfl
  exact Fields.haveForms_withDefault
    (Table.hasForm fun e he => Position.codec_hasForm (h e he)) Eq.symm trivial

private theorem Layout.optional_hasForm {o : Option Layout} (h : ∀ l, o = some l → l.Legible) :
    (Codec.optional Layout.codec).HasForm (Layout.OptionalForm o) o := by
  cases o with
  | none => exact Codec.optional_none_hasForm Layout.codec
  | some l =>
    apply Codec.optional_some_hasForm (Layout.codec_hasForm (h l rfl))
    rintro ⟨members, given, others, null, -⟩
    cases null

namespace Pipeline

theorem codec_hasForm {p : Pipeline} (h : p.Legible) : codec.HasForm p.Form p := by
  apply Codec.record_hasForm (by decide) rfl
  apply Fields.haveForms_withDefault (Codec.text_roundTrips p.name).hasForm Eq.symm
  apply Fields.haveForms_withDefault (Codec.text_roundTrips p.description).hasForm Eq.symm
  apply Fields.haveForms_required (Artifact.codec_hasForm p.artifact)
  apply Fields.haveForms_withDefault (Graph.codec_hasForm p.graph) Eq.symm
  apply Fields.haveForms_omittable (Layout.optional_hasForm h) Eq.symm
  · exact Option.isNone_iff_eq_none.1
  · trivial

/-- The document of a pipeline is one of the texts that lay out one of its forms. -/
theorem document_form {p : Pipeline} (h : p.Legible) :
    ∃ v, p.Form v ∧ Json.Laid (Json.spell v) p.document.toList := by
  refine ⟨codec.write p, (codec_hasForm h).written, ?_⟩
  rw [document, Codec.encodePretty, Json.pretty, String.toList_ofList]
  exact Json.write_laid Json.pretty_blank 0 (codec_roundTrips h).intact

/-- A pipeline is read from every text that lays out one of its forms. -/
theorem ofDocument_of_form {p : Pipeline} (h : p.Legible) {v : Json} (hv : p.Form v)
    {text : String} (ht : Json.Laid (Json.spell v) text.toList) : ofDocument text = .ok p :=
  (codec_hasForm h).decode hv ht

/-- A pipeline with a stage at a place: all keys in reverse, default values left out, foreign keys in
front, and white space of another kind. -/
theorem ofDocument_of_form_reversed :
    let place : Position := ⟨.ofNat 200, ⟨true, 1, by decide⟩⟩
    let p : Pipeline := ⟨"orders", "", ⟨"cdap", "6.10", .system⟩,
      ⟨[⟨⟨1⟩, "read", ⟨"csv", "source"⟩, .empty⟩], []⟩, some ⟨Table.ofList [("read", place)]⟩⟩
    let reversed (members : List (String × Json)) : Json := .ofMembers members.reverse
    let artifact := reversed
      [("name", .ofString "cdap"), ("version", .ofString "6.10"),
        ("built", .list [.null, .number ⟨true, 0, [], some 999⟩] true)]
    let plugin := reversed [("name", .ofString "csv"), ("type", .ofString "source")]
    let stage := reversed
      [("id", .number (.ofInt 1)), ("name", .ofString "read"), ("plugin", plugin)]
    let position := reversed
      [("x", Number.Single.codec.write place.x), ("y", Number.Single.codec.write place.y)]
    let layout := reversed [("positions", .ofMembers [("read", position)])]
    let v := reversed
      [("name", .ofString "orders"), ("artifact", artifact),
        ("config", reversed [("stages", .ofList [stage])]), ("__ui__", layout),
        ("comment", .object [(none, .text none), (none, .bool true)] true)]
    let text := String.ofList (Json.write ⟨fun depth => List.replicate depth '\t', ['\n']⟩ 0 v)
    p.Legible ∧ p.Form v ∧ Json.Laid (Json.spell v) text.toList ∧ ofDocument text = .ok p := by
  intro place p reversed artifact plugin stage position layout v text
  have legible : p.Legible := by
    intro l hl e he
    obtain rfl := Option.some.inj hl
    obtain rfl := List.mem_singleton.1 he
    refine ⟨Number.Single.readsBack (d := ⟨false, 200, [Text.digitOf 0], none⟩) ?_ ?_,
      Number.Single.readsBack (d := ⟨true, 1, [], some (-45)⟩) ?_ ?_⟩ <;> decide +kernel
  have given {gs : List FieldForm} {members : List (String × Json)}
      {known others : List (Option String × Json)} (hg : Gives gs known)
      (split : members.map (fun m => (some m.1, m.2)) = known ++ others)
      (ho : ∀ m ∈ others, Foreign gs m) : RecordForm gs (reversed members) := by
    refine ⟨_, known, others, rfl, ?_, hg, ho⟩
    rw [List.map_reverse, split]
    exact List.reverse_perm _
  have none {gs : List FieldForm} : ∀ m ∈ [], Foreign gs m :=
    fun m hm => absurd hm List.not_mem_nil
  have one {gs : List FieldForm} {key : String} {v : Json} (hk : key ∉ gs.map (·.key))
      (hv : v.intact = true) : ∀ m ∈ [(some key, v)], Foreign gs m := by
    intro m hm
    obtain rfl := List.mem_singleton.1 hm
    exact ⟨key, rfl, hk, hv⟩
  have artifacts : p.artifact.Form artifact :=
    given (.field rfl (.field rfl (.leftOut rfl .nil))) rfl (one (by decide) rfl)
  have plugins : Plugin.Form ⟨"csv", "source"⟩ plugin :=
    given (.field rfl (.field rfl .nil)) rfl none
  have stages : Codec.ListForm Stage.Form p.graph.stages (.ofList [stage]) := by
    refine ⟨[stage], rfl, .cons ?_ .nil⟩
    exact given (.field rfl (.field rfl (.field plugins (.leftOut rfl .nil)))) rfl none
  have layouts : Layout.OptionalForm p.layout layout := by
    refine given (.field ⟨[(some "read", position)], rfl, .cons ⟨rfl, ?_⟩ .nil⟩ .nil) rfl none
    exact given (.field rfl (.field rfl .nil)) rfl none
  have graphs : p.graph.Form (reversed [("stages", .ofList [stage])]) :=
    given (.field stages (.leftOut rfl .nil)) rfl none
  have form : p.Form v :=
    given (.field rfl (.leftOut rfl (.field artifacts (.field graphs (.field layouts .nil))))) rfl
      (one (by decide) rfl)
  have laid : Json.Laid (Json.spell v) text.toList := by
    rw [String.toList_ofList]
    refine Json.write_laid ⟨?_, ?_⟩ 0 rfl
    · intro depth c hc
      rw [List.eq_of_mem_replicate hc]
      rfl
    · intro c hc
      rw [List.mem_singleton.1 hc]
      rfl
  exact ⟨legible, form, laid, ofDocument_of_form legible form laid⟩

end Pipeline
end PipelineEditor
