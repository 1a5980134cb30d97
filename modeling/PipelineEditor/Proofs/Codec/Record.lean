import PipelineEditor.Codec.Record
import PipelineEditor.Proofs.Codec.Basic

/-! Records are read from any object that gives their fields: the members come in any order, what
absence stands for may be left out, and members under other keys are passed over. A record is read
back from what is written if its fields are. -/
namespace PipelineEditor

/-- How a field of a record may be given: its key, the JSON values under it, and whether it may be
left out. -/
structure FieldForm where
  key : String
  form : Json → Prop
  optional : Prop

namespace FieldForm

def required (key : String) (form : Json → Prop) : FieldForm :=
  ⟨key, form, False⟩

/-- A field that may be left out when it has the value that absence stands for. -/
def withDefault (key : String) (form : Json → Prop) (default : Prop) : FieldForm :=
  ⟨key, form, default⟩

end FieldForm

/-- Members that give fields one after the other, but for some that are left out. -/
inductive Gives : List FieldForm → List (Option String × Json) → Prop
  | nil : Gives [] []
  | field {g : FieldForm} {gs : List FieldForm} {v : Json} {ms : List (Option String × Json)}
    (hv : g.form v) (hs : Gives gs ms) : Gives (g :: gs) ((some g.key, v) :: ms)
  | leftOut {g : FieldForm} {gs : List FieldForm} {ms : List (Option String × Json)}
    (h : g.optional) (hs : Gives gs ms) : Gives (g :: gs) ms

/-- A member under a key that is none of the fields'. Its value may be any. -/
def Foreign (gs : List FieldForm) (m : Option String × Json) : Prop :=
  ∃ key, m.1 = some key ∧ key ∉ gs.map (·.key) ∧ m.2.intact = true

/-- An object that gives the fields of a record, in any order and with foreign members anywhere. -/
def RecordForm (gs : List FieldForm) (v : Json) : Prop :=
  ∃ members given others, v = .object members true ∧ members.Perm (given ++ others) ∧
    Gives gs given ∧ ∀ m ∈ others, Foreign gs m

private theorem Gives.mem_keys {gs : List FieldForm} {ms : List (Option String × Json)}
    (h : Gives gs ms) : ∀ m ∈ ms, ∃ key ∈ gs.map (·.key), m.1 = some key := by
  have later {g : FieldForm} {gs : List FieldForm} {m : Option String × Json}
      (hm : ∃ key ∈ gs.map (·.key), m.1 = some key) :
      ∃ key ∈ (g :: gs).map (·.key), m.1 = some key := by
    obtain ⟨key, hk, he⟩ := hm
    exact ⟨key, List.mem_cons_of_mem _ hk, he⟩
  induction h with
  | nil => exact fun m hm => absurd hm List.not_mem_nil
  | field hv hs ih =>
    intro m hm
    rcases List.mem_cons.1 hm with rfl | hm
    · exact ⟨_, List.mem_cons_self, rfl⟩
    · exact later (ih m hm)
  | leftOut ho hs ih => exact fun m hm => later (ih m hm)

namespace Fields

/-- The keys of the fields in declared order. -/
def keys : {τ : Type} → Fields τ → List String
  | _, .done => []
  | _, .field f rest => f.key :: rest.keys

/-- The fields read their values from all that gives them, and are written so that they are given. -/
def HaveForms : {τ : Type} → Fields τ → τ → List FieldForm → Prop
  | _, .done, _, [] => True
  | _, .field f rest, (a, b), g :: gs =>
    (g.key = f.key ∧ f.codec.Reads g.form a ∧ (g.optional → f.absent = some a) ∧
      if f.omitted a then g.optional else g.form (f.codec.write a)) ∧ rest.HaveForms b gs
  | _, _, _, _ => False

/-- Every value is written and read back, or left out and what absence stands for. -/
def RoundTrips : {τ : Type} → Fields τ → τ → Prop
  | _, .done, _ => True
  | _, .field f rest, (a, b) =>
    (if f.omitted a then f.absent = some a else f.codec.RoundTrips a) ∧ rest.RoundTrips b

/-- All values are written without a fault. -/
def Intact : {τ : Type} → Fields τ → τ → Prop
  | _, .done, _ => True
  | _, .field f rest, (a, b) => (f.codec.write a).intact = true ∧ rest.Intact b

/-- A value is written but not read, and those of earlier fields are read back. -/
def Refuses : {τ : Type} → Fields τ → τ → Prop
  | _, .done, _ => False
  | _, .field f rest, (a, b) =>
    (f.omitted a = false ∧ f.codec.Refuses a) ∨
      (if f.omitted a then f.absent = some a else f.codec.RoundTrips a) ∧ rest.Refuses b

section

variable {α β : Type} {key : String} {codec : Codec α} {rest : Fields β} {a : α} {b : β}
  {form : Json → Prop} {gs : List FieldForm}

theorem haveForms_required (ha : codec.HasForm form a) (hb : rest.HaveForms b gs) :
    (Fields.field (.required key codec) rest).HaveForms (a, b) (.required key form :: gs) :=
  ⟨⟨rfl, ha.toReads, False.elim, ha.written⟩, hb⟩

theorem haveForms_withDefault {absent : α} {default : Prop} (ha : codec.HasForm form a)
    (hd : default → absent = a) (hb : rest.HaveForms b gs) :
    (Fields.field (.withDefault key codec absent) rest).HaveForms (a, b)
      (.withDefault key form default :: gs) :=
  ⟨⟨rfl, ha.toReads, fun h => congrArg some (hd h), ha.written⟩, hb⟩

theorem haveForms_omittable {absent : α} {omitted : α → Bool} {default : Prop}
    (ha : codec.HasForm form a) (hd : default → absent = a) (ho : omitted a = true → default)
    (hb : rest.HaveForms b gs) :
    (Fields.field (.omittable key codec absent omitted) rest).HaveForms (a, b)
      (.withDefault key form default :: gs) := by
  refine ⟨⟨rfl, ha.toReads, fun h => congrArg some (hd h), ?_⟩, hb⟩
  split
  next h => exact ho h
  · exact ha.written

theorem roundTrips_required (ha : codec.RoundTrips a) (hb : rest.RoundTrips b) :
    (Fields.field (.required key codec) rest).RoundTrips (a, b) :=
  ⟨ha, hb⟩

theorem roundTrips_withDefault {absent : α} (ha : codec.RoundTrips a) (hb : rest.RoundTrips b) :
    (Fields.field (.withDefault key codec absent) rest).RoundTrips (a, b) :=
  ⟨ha, hb⟩

theorem roundTrips_omittable {absent : α} {omitted : α → Bool} (ha : codec.RoundTrips a)
    (ho : omitted a = true → absent = a) (hb : rest.RoundTrips b) :
    (Fields.field (.omittable key codec absent omitted) rest).RoundTrips (a, b) := by
  refine ⟨?_, hb⟩
  split
  next h => exact congrArg some (ho h)
  · exact ha

end

/-! Single members. -/

/-- The places of several fields: that of the first one and those of the rest. -/
private def place {α β : Type} (f : Field α) {rest : Fields β} (slot : Option α)
    (slots : rest.Slots) : (Fields.field f rest).Slots :=
  (slot, slots)

section

variable {α β : Type} {f : Field α} {rest : Fields β} {key : String} {v : Json} {slot : Option α}
  {slots : rest.Slots}

private theorem put_of_ne (h : key ≠ f.key) :
    (Fields.field f rest).put key v (place f slot slots) =
      (rest.put key v slots).map fun r => r.map (place f slot) :=
  if_neg h

private theorem put_key {a : α} (h : f.codec.read v = .ok a) :
    (Fields.field f rest).put f.key v (place f none slots) =
      some (.ok (place f (some a) slots)) := by
  refine (if_pos rfl).trans ?_
  rw [h]
  rfl

private theorem put_eq_ok {t : (Fields.field f rest).Slots}
    (h : (Fields.field f rest).put key v (place f slot slots) = some (.ok t)) :
    (key = f.key ∧ slot = none ∧ ∃ a, f.codec.read v = .ok a ∧ t = place f (some a) slots) ∨
      (key ≠ f.key ∧ ∃ others, rest.put key v slots = some (.ok others) ∧
        t = place f slot others) := by
  by_cases hk : key = f.key
  · subst hk
    refine .inl ⟨rfl, ?_⟩
    have read := Option.some.inj ((if_pos rfl).symm.trans h)
    cases slot with
    | some a => cases read
    | none =>
      cases hr : f.codec.read v with
      | error e =>
        rw [hr] at read
        cases read
      | ok a =>
        rw [hr] at read
        cases read
        exact ⟨rfl, a, rfl, rfl⟩
  · refine .inr ⟨hk, ?_⟩
    rw [put_of_ne hk] at h
    obtain ⟨r, hr, read⟩ := Option.map_eq_some_iff.1 h
    cases r with
    | error e => cases read
    | ok others =>
      cases read
      exact ⟨others, hr, rfl⟩

private theorem finish_field {a : α} {b : β} (ha : slot.or f.absent = some a)
    (hb : rest.finish slots = .ok b) :
    (Fields.field f rest).finish (place f slot slots) = .ok (a, b) := by
  unfold finish place
  simp only [ha, hb]
  rfl

end

private theorem put_eq_none_iff {τ : Type} {fs : Fields τ} {key : String} {v : Json}
    {slots : fs.Slots} : fs.put key v slots = none ↔ key ∉ fs.keys := by
  induction fs with
  | done => exact ⟨fun _ => List.not_mem_nil, fun _ => rfl⟩
  | field f rest ih =>
    obtain ⟨slot, slots⟩ := slots
    by_cases hk : key = f.key
    · have taken : (Fields.field f rest).put key v (slot, slots) ≠ none := by simp [put, hk]
      exact iff_of_false taken fun h => h (hk ▸ List.mem_cons_self)
    · have others : (Fields.field f rest).put key v (slot, slots) =
          (rest.put key v slots).map fun r => r.map (place f slot) := put_of_ne hk
      simp [others, ih, keys, hk]

/-- Members of two fields can be taken in in either order. -/
private theorem put_put {τ : Type} {fs : Fields τ} {k₁ k₂ : String} {v₁ v₂ : Json}
    {s s₁ s₂ : fs.Slots} (h₁ : fs.put k₁ v₁ s = some (.ok s₁))
    (h₂ : fs.put k₂ v₂ s₁ = some (.ok s₂)) :
    ∃ t, fs.put k₂ v₂ s = some (.ok t) ∧ fs.put k₁ v₁ t = some (.ok s₂) := by
  induction fs with
  | done => cases h₁
  | field f rest ih =>
    obtain ⟨slot, slots⟩ := s
    have later {key : String} {v : Json} {slots slots' : rest.Slots} (hk : key ≠ f.key)
        (h : rest.put key v slots = some (.ok slots')) (slot) :
        (Fields.field f rest).put key v (place f slot slots) =
          some (.ok (place f slot slots')) := by
      rw [put_of_ne hk, h]
      rfl
    rcases put_eq_ok h₁ with ⟨rfl, rfl, a, ha, rfl⟩ | ⟨hf₁, others, ho, rfl⟩
    · -- the place of the first field is taken, so the second member is for another one
      rcases put_eq_ok h₂ with ⟨-, taken, -⟩ | ⟨hf₂, others, ho, rfl⟩
      · cases taken
      · exact ⟨_, later hf₂ ho none, put_key ha⟩
    · rcases put_eq_ok h₂ with ⟨rfl, rfl, a, ha, rfl⟩ | ⟨hf₂, others', ho', rfl⟩
      · exact ⟨_, put_key ha, later hf₁ ho (some a)⟩
      · obtain ⟨t, ht, ht'⟩ := ih ho ho'
        exact ⟨_, later hf₂ ht slot, later hf₁ ht' slot⟩

/-! Rows of members. -/

/-- A member is taken in by its field, or it is intact and passed over. -/
private theorem putAll_cons_eq_ok {τ : Type} {fs : Fields τ} {m : Option String × Json}
    {ms : List (Option String × Json)} {s t : fs.Slots} :
    fs.putAll (m :: ms) s = .ok t ↔
      ∃ key, m.1 = some key ∧
        ((∃ u, fs.put key m.2 s = some (.ok u) ∧ fs.putAll ms u = .ok t) ∨
          (key ∉ fs.keys ∧ m.2.intact = true ∧ fs.putAll ms s = .ok t)) := by
  obtain ⟨_ | key, v⟩ := m
  · constructor
    · intro h
      cases h
    · rintro ⟨key, hk, -⟩
      cases hk
  · have foreign : fs.put key v s = none ↔ key ∉ fs.keys := put_eq_none_iff
    rw [Fields.putAll]
    cases hp : fs.put key v s with
    | none =>
      have unknown := foreign.1 hp
      cases v.intact <;> simp [hp, unknown]
    | some r =>
      have known : ¬key ∉ fs.keys := fun h => by simp [foreign.2 h] at hp
      cases r <;> simp [hp, known]

private theorem putAll_swap {τ : Type} {fs : Fields τ} {x y : Option String × Json}
    {ms : List (Option String × Json)} {s t : fs.Slots} (h : fs.putAll (x :: y :: ms) s = .ok t) :
    fs.putAll (y :: x :: ms) s = .ok t := by
  obtain ⟨k, hk, h⟩ := putAll_cons_eq_ok.1 h
  rcases h with ⟨u, hu, h⟩ | ⟨foreign, intact, h⟩
  · obtain ⟨k', hk', h⟩ := putAll_cons_eq_ok.1 h
    rcases h with ⟨w, hw, h⟩ | ⟨foreign', intact', h⟩
    · obtain ⟨u', hu', hw'⟩ := put_put hu hw
      have rest := putAll_cons_eq_ok.2 ⟨k, hk, .inl ⟨w, hw', h⟩⟩
      exact putAll_cons_eq_ok.2 ⟨k', hk', .inl ⟨u', hu', rest⟩⟩
    · have rest := putAll_cons_eq_ok.2 ⟨k, hk, .inl ⟨u, hu, h⟩⟩
      exact putAll_cons_eq_ok.2 ⟨k', hk', .inr ⟨foreign', intact', rest⟩⟩
  · obtain ⟨k', hk', h⟩ := putAll_cons_eq_ok.1 h
    rcases h with ⟨w, hw, h⟩ | ⟨foreign', intact', h⟩
    · have rest := putAll_cons_eq_ok.2 ⟨k, hk, .inr ⟨foreign, intact, h⟩⟩
      exact putAll_cons_eq_ok.2 ⟨k', hk', .inl ⟨w, hw, rest⟩⟩
    · have rest := putAll_cons_eq_ok.2 ⟨k, hk, .inr ⟨foreign, intact, h⟩⟩
      exact putAll_cons_eq_ok.2 ⟨k', hk', .inr ⟨foreign', intact', rest⟩⟩

/-- The order of the members does not matter. -/
private theorem putAll_perm {τ : Type} {fs : Fields τ} {ms ns : List (Option String × Json)}
    (hp : ms.Perm ns) {s t : fs.Slots} (h : fs.putAll ms s = .ok t) : fs.putAll ns s = .ok t := by
  induction hp generalizing s with
  | nil => exact h
  | cons m hp ih =>
    obtain ⟨k, hk, h⟩ := putAll_cons_eq_ok.1 h
    refine putAll_cons_eq_ok.2 ⟨k, hk, h.imp ?_ ?_⟩
    · exact fun ⟨u, hu, h⟩ => ⟨u, hu, ih h⟩
    · exact fun ⟨foreign, intact, h⟩ => ⟨foreign, intact, ih h⟩
  | swap x y ms => exact putAll_swap h
  | trans hp hp' ih ih' => exact ih' (ih h)

/-- Members of other fields leave the place of the first field alone. -/
private theorem putAll_others {α β : Type} (f : Field α) (rest : Fields β)
    {ms : List (Option String × Json)} (h : ∀ m ∈ ms, m.1 ≠ some f.key) (slot : Option α)
    (s : rest.Slots) :
    (Fields.field f rest).putAll ms (place f slot s) = (rest.putAll ms s).map (place f slot) := by
  induction ms generalizing s with
  | nil => rfl
  | cons m ms ih =>
    have later (u : rest.Slots) := ih (fun x hx => h x (List.mem_cons_of_mem m hx)) u
    obtain ⟨_ | key, v⟩ := m
    · rfl
    · have hf : key ≠ f.key := fun he => h _ List.mem_cons_self (he ▸ rfl)
      simp only [putAll, put_of_ne hf]
      cases rest.put key v s with
      | none =>
        dsimp only [Option.map_none]
        split
        · exact later s
        · rfl
      | some r =>
        cases r with
        | error e => rfl
        | ok u => exact later u

/-- A member of the first field is read and put in its place. -/
private theorem putAll_field {α β : Type} (f : Field α) (rest : Fields β) {v : Json}
    {ms : List (Option String × Json)} (s : rest.Slots) :
    (Fields.field f rest).putAll ((some f.key, v) :: ms) (place f none s) =
      (f.codec.read v).bind fun a => (Fields.field f rest).putAll ms (place f (some a) s) := by
  have taken : (Fields.field f rest).put f.key v (place f none s) =
      some ((f.codec.read v).map fun a => place f (some a) s) := if_pos rfl
  rw [putAll, taken]
  cases f.codec.read v <;> rfl

private theorem putAll_foreign {τ : Type} {fs : Fields τ} {gs : List FieldForm}
    {ms others : List (Option String × Json)} {s t : fs.Slots}
    (hk : gs.map (·.key) = fs.keys) (ho : ∀ m ∈ others, Foreign gs m)
    (h : fs.putAll ms s = .ok t) : fs.putAll (others ++ ms) s = .ok t := by
  induction others with
  | nil => exact h
  | cons m others ih =>
    obtain ⟨key, he, foreign, intact⟩ := ho m List.mem_cons_self
    rw [hk] at foreign
    have rest := ih fun x hx => ho x (List.mem_cons_of_mem m hx)
    exact putAll_cons_eq_ok.2 ⟨key, he, .inr ⟨foreign, intact, rest⟩⟩

private theorem HaveForms.keys {τ : Type} {fs : Fields τ} {t : τ} {gs : List FieldForm}
    (h : fs.HaveForms t gs) : gs.map (·.key) = fs.keys := by
  induction fs generalizing gs with
  | done =>
    cases gs with
    | nil => rfl
    | cons g gs => cases h
  | field f rest ih =>
    cases gs with
    | nil => cases h
    | cons g gs =>
      obtain ⟨⟨hk, -⟩, hb⟩ := h
      exact congr (congrArg List.cons hk) (ih hb)

/-- What gives the fields in declared order is taken in, and finishes with their values. -/
private theorem putAll_gives {τ : Type} {fs : Fields τ} (hk : fs.keys.Nodup) {t : τ}
    {gs : List FieldForm} (h : fs.HaveForms t gs) {ms : List (Option String × Json)}
    (hm : Gives gs ms) :
    ∃ slots, fs.putAll ms fs.empty = .ok slots ∧ fs.finish slots = .ok t := by
  induction fs generalizing gs ms with
  | done =>
    cases gs with
    | nil =>
      cases hm
      exact ⟨(), rfl, rfl⟩
    | cons g gs => cases h
  | field f rest ih =>
    cases gs with
    | nil => cases h
    | cons g gs =>
      obtain ⟨a, b⟩ := t
      obtain ⟨⟨hg, ha, absent, -⟩, hb⟩ := h
      obtain ⟨hf, hrest⟩ := List.nodup_cons.1 hk
      have other {ns : List (Option String × Json)} (hn : Gives gs ns) :
          ∀ m ∈ ns, m.1 ≠ some f.key := by
        intro m hm he
        obtain ⟨key, hkey, hm⟩ := hn.mem_keys m hm
        obtain rfl := Option.some.inj (hm.symm.trans he)
        exact hf (hb.keys ▸ hkey)
      cases hm with
      | field hv hs =>
        obtain ⟨slots, read, finished⟩ := ih hrest hb hs
        refine ⟨place f (some a) slots, ?_, finish_field rfl finished⟩
        refine putAll_cons_eq_ok.2 ⟨f.key, congrArg some hg, .inl ⟨_, put_key (ha.read _ hv), ?_⟩⟩
        rw [putAll_others f rest (other hs), read]
        rfl
      | leftOut ho hs =>
        obtain ⟨slots, read, finished⟩ := ih hrest hb hs
        refine ⟨place f none slots, ?_, finish_field (absent ho) finished⟩
        refine (putAll_others f rest (other hs) none rest.empty).trans ?_
        rw [read]
        rfl

private theorem HaveForms.intact {τ : Type} {fs : Fields τ} {t : τ} {gs : List FieldForm}
    (h : fs.HaveForms t gs) {ms : List (Option String × Json)} (hm : Gives gs ms) :
    ∀ m ∈ ms, m.2.intact = true := by
  induction fs generalizing gs ms with
  | done =>
    cases gs with
    | nil =>
      cases hm
      exact fun m hm => absurd hm List.not_mem_nil
    | cons g gs => cases h
  | field f rest ih =>
    cases gs with
    | nil => cases h
    | cons g gs =>
      obtain ⟨⟨-, ha, -, -⟩, hb⟩ := h
      cases hm with
      | field hv hs =>
        intro m hm
        rcases List.mem_cons.1 hm with rfl | hm
        · exact ha.intact _ hv
        · exact ih hb hs m hm
      | leftOut ho hs => exact ih hb hs

private theorem HaveForms.gives_members {τ : Type} {fs : Fields τ} {t : τ} {gs : List FieldForm}
    (h : fs.HaveForms t gs) : Gives gs ((fs.members t).map fun m => (some m.1, m.2)) := by
  induction fs generalizing gs with
  | done =>
    cases gs with
    | nil => exact .nil
    | cons g gs => cases h
  | field f rest ih =>
    cases gs with
    | nil => cases h
    | cons g gs =>
      obtain ⟨a, b⟩ := t
      obtain ⟨⟨hg, -, -, written⟩, hb⟩ := h
      rw [members]
      split
      next ho =>
        rw [if_pos ho] at written
        exact .leftOut written (ih hb)
      next ho =>
        rw [if_neg ho] at written
        rw [List.map_cons, ← hg]
        exact .field written (ih hb)

/-- The fields as they are written. -/
private def written : {τ : Type} → Fields τ → τ → List FieldForm
  | _, .done, _ => []
  | _, .field f rest, (a, b) =>
    ⟨f.key, fun v => f.omitted a = false ∧ v = f.codec.write a, f.omitted a = true⟩ ::
      rest.written b

private theorem RoundTrips.haveForms {τ : Type} {fs : Fields τ} {t : τ} (h : fs.RoundTrips t) :
    fs.HaveForms t (fs.written t) := by
  induction fs with
  | done => trivial
  | field f rest ih =>
    obtain ⟨a, b⟩ := t
    obtain ⟨ha, hb⟩ := h
    refine ⟨⟨rfl, ⟨?_, ?_⟩, fun ho => ?_, ?_⟩, ih hb⟩
    · rintro v ⟨hw, rfl⟩
      rw [if_neg (by simp [hw])] at ha
      exact ha.intact
    · rintro v ⟨hw, rfl⟩
      rw [if_neg (by simp [hw])] at ha
      exact ha.read
    · rwa [if_pos ho] at ha
    · split
      next ho => exact ho
      next ho => exact ⟨Bool.eq_false_iff.2 ho, rfl⟩

private theorem members_key {τ : Type} (fs : Fields τ) (t : τ) :
    ∀ m ∈ fs.members t, m.1 ∈ fs.keys := by
  induction fs with
  | done => exact fun m hm => absurd hm List.not_mem_nil
  | field f rest ih =>
    obtain ⟨a, b⟩ := t
    intro m hm
    rw [members] at hm
    split at hm
    · exact List.mem_cons_of_mem _ (ih b m hm)
    · rcases List.mem_cons.1 hm with rfl | hm
      · exact List.mem_cons_self
      · exact List.mem_cons_of_mem _ (ih b m hm)

private theorem Intact.members {τ : Type} {fs : Fields τ} {t : τ} (h : fs.Intact t) :
    ∀ m ∈ fs.members t, m.2.intact = true := by
  induction fs with
  | done => exact fun m hm => absurd hm List.not_mem_nil
  | field f rest ih =>
    obtain ⟨a, b⟩ := t
    intro m hm
    rw [Fields.members] at hm
    split at hm
    · exact ih h.2 m hm
    · rcases List.mem_cons.1 hm with rfl | hm
      · exact h.1
      · exact ih h.2 m hm

/-- Reading what is written ends at the first value that is refused. -/
private theorem putAll_refuses {τ : Type} {fs : Fields τ} (hk : fs.keys.Nodup) {t : τ}
    (h : fs.Refuses t) :
    fs.putAll ((fs.members t).map fun m => (some m.1, m.2)) fs.empty = .error .malformed := by
  induction fs with
  | done => cases h
  | field f rest ih =>
    obtain ⟨a, b⟩ := t
    obtain ⟨hf, hrest⟩ := List.nodup_cons.1 hk
    have other : ∀ m ∈ (rest.members b).map fun m => (some m.1, m.2), m.1 ≠ some f.key := by
      rintro _ hm he
      obtain ⟨m, hm', rfl⟩ := List.mem_map.1 hm
      exact hf (Option.some.inj he ▸ rest.members_key b m hm')
    have later (hb : rest.Refuses b) (slot) :
        (Fields.field f rest).putAll ((rest.members b).map fun m => (some m.1, m.2))
          (place f slot rest.empty) = .error .malformed := by
      rw [putAll_others f rest other, ih hrest hb]
      rfl
    rw [Fields.members]
    split
    next ho =>
      rcases h with ⟨ho', -⟩ | ⟨-, hb⟩
      · cases ho.symm.trans ho'
      · exact later hb none
    next ho =>
      refine (putAll_field f rest rest.empty).trans ?_
      rcases h with ⟨-, ha⟩ | ⟨ha, hb⟩
      · rw [ha.read]
        rfl
      · rw [if_neg ho] at ha
        rw [ha.read]
        exact later hb (some a)

end Fields

namespace Codec

variable {τ ρ : Type} {fs : Fields τ} {make : τ → ρ} {values : ρ → τ}

/-- A record is read from whatever gives its fields, and written as one of these. -/
theorem record_hasForm {r : ρ} {gs : List FieldForm} (hk : fs.keys.Nodup)
    (hm : make (values r) = r) (h : fs.HaveForms (values r) gs) :
    (Codec.record fs make values).HasForm (RecordForm gs) r := by
  refine { intact := ?_, read := ?_, written := ?_ }
  · rintro v ⟨members, given, others, rfl, hp, hg, ho⟩
    refine Bool.and_eq_true_iff.2 ⟨rfl, Json.membersIntact_iff.2 fun m hm => ?_⟩
    rcases List.mem_append.1 (hp.mem_iff.1 hm) with hm | hm
    · exact h.intact hg m hm
    · obtain ⟨-, -, -, intact⟩ := ho m hm
      exact intact
  · rintro v ⟨members, given, others, rfl, hp, hg, ho⟩
    obtain ⟨slots, read, finished⟩ := Fields.putAll_gives hk h hg
    have sorted := hp.trans List.perm_append_comm
    have all := Fields.putAll_perm sorted.symm (Fields.putAll_foreign h.keys ho read)
    change (fs.putAll members fs.empty).bind (fun slots => (fs.finish slots).map make) = .ok r
    rw [all]
    change (fs.finish slots).map make = .ok r
    rw [finished]
    exact congrArg Except.ok hm
  · refine ⟨_, _, [], rfl, ?_, h.gives_members, fun m hm => absurd hm List.not_mem_nil⟩
    rw [List.append_nil]

/-- A record is read back when its fields are. -/
theorem record_roundTrips {r : ρ} (hk : fs.keys.Nodup) (hm : make (values r) = r)
    (h : fs.RoundTrips (values r)) : (Codec.record fs make values).RoundTrips r :=
  (record_hasForm hk hm h.haveForms).roundTrips

/-- A record is refused when one of its fields is. -/
theorem record_refuses {r : ρ} (hk : fs.keys.Nodup) (hi : fs.Intact (values r))
    (h : fs.Refuses (values r)) : (Codec.record fs make values).Refuses r := by
  constructor
  · refine Bool.and_eq_true_iff.2 ⟨rfl, Json.membersIntact_iff.2 ?_⟩
    exact List.forall_mem_map.2 hi.members
  · change (fs.putAll ((fs.members (values r)).map fun m => (some m.1, m.2)) fs.empty).bind _ = _
    rw [Fields.putAll_refuses hk h]
    rfl

end Codec
end PipelineEditor
