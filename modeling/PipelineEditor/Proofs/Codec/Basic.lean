import Mathlib.Data.List.Forall2
import PipelineEditor.Codec.Document
import PipelineEditor.Proofs.Json.Document
import PipelineEditor.Table

/-! What codecs read: the values that are given in the forms they may be given in, and those that are
read back from what they are written as. A codec for parts is enough for lists and tables of them. -/
namespace PipelineEditor

namespace Json

theorem membersIntact_iff {ms : List (Option String × Json)} :
    membersIntact ms = true ↔ ∀ m ∈ ms, m.2.intact = true := by
  induction ms with
  | nil => simp [membersIntact]
  | cons m ms ih => simp [membersIntact, ih]

end Json

namespace Codec

/-- The value is written without a fault and read back from that. -/
structure RoundTrips {α : Type} (c : Codec α) (a : α) : Prop where
  intact : (c.write a).intact = true
  read : c.read (c.write a) = .ok a

/-- All JSON values of a form are intact and read as the value. -/
structure Reads {α : Type} (c : Codec α) (form : Json → Prop) (a : α) : Prop where
  intact : ∀ v, form v → v.intact = true
  read : ∀ v, form v → c.read v = .ok a

/-- The value is read from all JSON values of a form, and the one that is written is of that form. -/
structure HasForm {α : Type} (c : Codec α) (form : Json → Prop) (a : α) : Prop
    extends c.Reads form a where
  written : form (c.write a)

/-- The value is written without a fault, but what is written is not read. -/
structure Refuses {α : Type} (c : Codec α) (a : α) : Prop where
  intact : (c.write a).intact = true
  read : c.read (c.write a) = .error .malformed

variable {α β : Type}

theorem HasForm.roundTrips {c : Codec α} {form : Json → Prop} {a : α} (h : c.HasForm form a) :
    c.RoundTrips a :=
  ⟨h.intact _ h.written, h.read _ h.written⟩

theorem RoundTrips.hasForm {c : Codec α} {a : α} (h : c.RoundTrips a) :
    c.HasForm (· = c.write a) a :=
  { intact := fun _ hv => hv ▸ h.intact
    read := fun _ hv => hv ▸ h.read
    written := rfl }

theorem map_roundTrips {c : Codec α} {f : α → β} {g : β → α} {b : β} (h : c.RoundTrips (g b))
    (hf : f (g b) = b) : (c.map f g).RoundTrips b := by
  refine ⟨h.intact, ?_⟩
  change (c.read (c.write (g b))).map f = .ok b
  rw [h.read]
  exact congrArg Except.ok hf

theorem text_roundTrips (s : String) : Codec.text.RoundTrips s :=
  ⟨rfl, rfl⟩

theorem textForm_roundTrips {parse : String → Option α} {print : α → String} {a : α}
    (h : parse (print a) = some a) : (textForm parse print).RoundTrips a := by
  refine ⟨rfl, ?_⟩
  simp only [textForm, Json.ofString, h]

theorem int64_roundTrips (i : Int64) : int64.RoundTrips i := by
  have value : (if i.toInt < 0 then -(i.toInt.natAbs : Int) else i.toInt.natAbs) = i.toInt := by
    split <;> omega
  have back : (Number.Decimal.ofInt i.toInt).toInt64? = some i := by
    rw [Number.Decimal.toInt64?, if_neg]
    · simp only [Number.Decimal.ofInt, decide_eq_true_eq, value]
      exact Number.int64?_eq_some_iff.2 rfl
    · rintro (h | h | ⟨negative, zero⟩)
      · exact h rfl
      · exact h rfl
      · have below : i.toInt < 0 := of_decide_eq_true negative
        have null : i.toInt.natAbs = 0 := zero
        omega
  refine ⟨rfl, ?_⟩
  simp only [int64, back]

theorem oneOf_roundTrips {variants : List (String × α)} {name : α → String} {a : α}
    (h : variant variants (name a) = .ok a) : (oneOf variants name).RoundTrips a :=
  ⟨rfl, h⟩

theorem optional_none_hasForm (c : Codec α) : (optional c).HasForm (· = .null) none :=
  { intact := fun _ hv => hv ▸ rfl
    read := fun _ hv => hv ▸ rfl
    written := rfl }

theorem optional_some_hasForm {c : Codec α} {form : Json → Prop} {a : α} (h : c.HasForm form a)
    (hn : ¬form .null) : (optional c).HasForm form (some a) := by
  have read (v : Json) (hv : form v) : (optional c).read v = (c.read v).map some := by
    cases v with
    | null => exact absurd hv hn
    | _ => rfl
  refine { intact := h.intact, read := fun v hv => ?_, written := h.written }
  rw [read v hv, h.read v hv]
  rfl

theorem optional_none_roundTrips (c : Codec α) : (optional c).RoundTrips none :=
  (optional_none_hasForm c).roundTrips

theorem optional_some_roundTrips {c : Codec α} {a : α} (h : c.RoundTrips a)
    (hn : c.write a ≠ .null) : (optional c).RoundTrips (some a) :=
  (optional_some_hasForm h.hasForm hn.symm).roundTrips

theorem optional_some_refuses {c : Codec α} {a : α} (h : c.Refuses a) (hn : c.write a ≠ .null) :
    (optional c).Refuses (some a) := by
  have read : (optional c).read (c.write a) = (c.read (c.write a)).map some := by
    cases hv : c.write a with
    | null => exact absurd hv hn
    | _ => rfl
  refine ⟨h.intact, read.trans ?_⟩
  rw [h.read]
  rfl

/-- Lists of the items in their order. -/
def ListForm (form : α → Json → Prop) (as : List α) (v : Json) : Prop :=
  ∃ items, v = .list items true ∧ List.Forall₂ form as items

theorem list_hasForm {c : Codec α} {form : α → Json → Prop} {as : List α}
    (h : ∀ a ∈ as, c.HasForm (form a) a) : (list c).HasForm (ListForm form as) as := by
  have items {vs : List Json} (hvs : List.Forall₂ form as vs) :
      Json.itemsIntact vs = true ∧ readItems c true vs = .ok as := by
    induction hvs with
    | nil => exact ⟨rfl, rfl⟩
    | @cons a v as vs hv _ ih =>
      have ha := h a List.mem_cons_self
      obtain ⟨intact, read⟩ := ih fun b hb => h b (List.mem_cons_of_mem a hb)
      rw [Json.itemsIntact, readItems, ha.intact v hv, ha.read v hv, read]
      exact ⟨intact, rfl⟩
  refine { intact := ?_, read := ?_, written := ⟨_, rfl, ?_⟩ }
  · rintro v ⟨vs, rfl, hvs⟩
    exact Bool.and_eq_true_iff.2 ⟨rfl, (items hvs).1⟩
  · rintro v ⟨vs, rfl, hvs⟩
    exact (items hvs).2
  · exact List.forall₂_map_right_iff.2 (List.forall₂_same.2 fun a ha => (h a ha).written)

theorem list_roundTrips {c : Codec α} {as : List α} (h : ∀ a ∈ as, c.RoundTrips a) :
    (list c).RoundTrips as :=
  (list_hasForm fun a ha => (h a ha).hasForm).roundTrips

/-! Whole texts. -/

/-- A value is read from every text that lays out one of its forms. -/
theorem Reads.decode {c : Codec α} {form : Json → Prop} {a : α} (h : c.Reads form a) {v : Json}
    (hv : form v) {text : String} (ht : Json.Laid (Json.spell v) text.toList) :
    c.decode text = .ok a := by
  simp only [Codec.decode, Json.ofString_laid ht (h.intact v hv), h.read v hv]
  rfl

/-- A value that survives its JSON form survives every text of it. -/
theorem decode_encodePretty {c : Codec α} {a : α} (h : c.RoundTrips a) :
    c.decode (c.encodePretty a) = .ok a := by
  simp only [decode, encodePretty, Json.ofString_pretty h.intact, h.read]
  rfl

theorem Refuses.decode_encodePretty {c : Codec α} {a : α} (h : c.Refuses a) :
    c.decode (c.encodePretty a) = .error .malformed := by
  simp only [decode, encodePretty, Json.ofString_pretty h.intact, h.read]
  rfl

/-- The text of the value on one line is read back as the value. -/
def ReadsBack (c : Codec α) (a : α) : Prop :=
  c.decode (c.encode a) = .ok a

theorem readsBack_iff {c : Codec α} {a : α} (h : (c.write a).intact = true) :
    c.ReadsBack a ↔ c.RoundTrips a := by
  have read : c.decode (c.encode a) = c.read (c.write a) := by
    simp only [decode, encode, Json.ofString_compact h]
    cases c.read (c.write a) <;> rfl
  rw [ReadsBack, read]
  exact ⟨fun hr => ⟨h, hr⟩, fun hr => hr.read⟩

theorem RoundTrips.readsBack {c : Codec α} {a : α} (h : c.RoundTrips a) : c.ReadsBack a :=
  (readsBack_iff h.intact).2 h

end Codec

/-! Tables. -/

namespace Table

variable {α : Type}

theorem eq_empty {t : Table α} (h : t.isEmpty = true) : t = .empty := by
  obtain ⟨entries, sorted⟩ := t
  obtain rfl : entries = [] := List.isEmpty_iff.1 h
  rfl

private theorem insertEntry_last {key : String} {value : α} {es : List (String × α)}
    (h : ∀ e ∈ es, e.1 < key) : insertEntry key value es = es ++ [(key, value)] := by
  induction es with
  | nil => rfl
  | cons e es ih =>
    have he := h e List.mem_cons_self
    rw [insertEntry, if_neg (String.lt_asymm he), if_pos he,
      ih fun x hx => h x (List.mem_cons_of_mem e hx)]
    rfl

private theorem readEntries_entries {c : Codec α} {form : α → Json → Prop} {t : Table α}
    {es : List (String × α)} {ms : List (Option String × Json)} {u : Table α}
    (h : ∀ e ∈ es, c.Reads (form e.2) e.2)
    (hm : List.Forall₂ (fun e m => m.1 = some e.1 ∧ form e.2 m.2) es ms)
    (ht : t.entries = u.entries ++ es) : c.readEntries true ms u = .ok t := by
  induction hm generalizing u with
  | nil =>
    obtain ⟨entries, sorted⟩ := t
    obtain rfl : entries = u.entries := by simpa using ht
    rfl
  | @cons e m es ms hv _ ih =>
    obtain ⟨key, v⟩ := m
    obtain ⟨rfl, hv⟩ := hv
    have sorted := t.sorted
    rw [ht] at sorted
    -- the keys read so far are all smaller, so the entry goes to the end
    have before : ∀ x ∈ u.entries, x.1 < e.1 := by
      intro x hx
      exact (List.pairwise_append.1 sorted).2.2 x hx e List.mem_cons_self
    rw [Codec.readEntries, (h e List.mem_cons_self).read v hv]
    apply ih fun x hx => h x (List.mem_cons_of_mem e hx)
    change t.entries = insertEntry e.1 e.2 u.entries ++ es
    rw [ht, insertEntry_last before, List.append_assoc]
    rfl

/-- Objects of the entries in the order of the table. -/
def Form (form : α → Json → Prop) (t : Table α) (v : Json) : Prop :=
  ∃ members, v = .object members true ∧
    List.Forall₂ (fun e m => m.1 = some e.1 ∧ form e.2 m.2) t.entries members

theorem reads {c : Codec α} {form : α → Json → Prop} {t : Table α}
    (h : ∀ e ∈ t.entries, c.Reads (form e.2) e.2) : (Codec.table c).Reads (t.Form form) t := by
  have intact {es : List (String × α)} {ms : List (Option String × Json)}
      (hes : ∀ e ∈ es, c.Reads (form e.2) e.2)
      (hm : List.Forall₂ (fun e m => m.1 = some e.1 ∧ form e.2 m.2) es ms) :
      Json.membersIntact ms = true := by
    induction hm with
    | nil => rfl
    | @cons e m es ms hv _ ih =>
      rw [Json.membersIntact, (hes e List.mem_cons_self).intact _ hv.2]
      exact ih fun x hx => hes x (List.mem_cons_of_mem e hx)
  constructor
  · rintro v ⟨members, rfl, hm⟩
    exact Bool.and_eq_true_iff.2 ⟨rfl, intact h hm⟩
  · rintro v ⟨members, rfl, hm⟩
    exact readEntries_entries (u := .empty) h hm rfl

theorem hasForm {c : Codec α} {form : α → Json → Prop} {t : Table α}
    (h : ∀ e ∈ t.entries, c.HasForm (form e.2) e.2) : (Codec.table c).HasForm (t.Form form) t :=
  { reads fun e he => (h e he).toReads with
    written := by
      refine ⟨_, rfl, ?_⟩
      rw [List.map_map, List.forall₂_map_right_iff, List.forall₂_same]
      exact fun e he => ⟨rfl, (h e he).written⟩ }

theorem roundTrips {c : Codec α} {t : Table α} (h : ∀ e ∈ t.entries, c.RoundTrips e.2) :
    (Codec.table c).RoundTrips t := by
  have forms : (Codec.table c).HasForm (t.Form fun a v => v = c.write a) t :=
    hasForm fun e he => (h e he).hasForm
  exact forms.roundTrips

/-- A table is refused for any of its entries if no other problem comes before. -/
theorem refuses {c : Codec α} {t : Table α} (h : ∀ e ∈ t.entries, c.RoundTrips e.2 ∨ c.Refuses e.2)
    {e : String × α} (he : e ∈ t.entries) (hr : c.Refuses e.2) : (Codec.table c).Refuses t := by
  have refused {es : List (String × α)} (h : ∀ e ∈ es, c.RoundTrips e.2 ∨ c.Refuses e.2) (he : e ∈ es)
      (u : Table α) :
      c.readEntries true (es.map fun e => (some e.1, c.write e.2)) u = .error .malformed := by
    induction es generalizing u with
    | nil => cases he
    | cons x es ih =>
      rw [List.map_cons, Codec.readEntries]
      rcases h x List.mem_cons_self with read | refused
      · have later : e ∈ es := by
          refine (List.mem_cons.1 he).resolve_left ?_
          rintro rfl
          cases read.read.symm.trans hr.read
        rw [read.read]
        exact ih (fun y hy => h y (List.mem_cons_of_mem x hy)) later _
      · rw [refused.read]
        rfl
  constructor
  · refine Bool.and_eq_true_iff.2 ⟨rfl, Json.membersIntact_iff.2 ?_⟩
    simp only [List.map_map, List.forall_mem_map]
    exact fun e he => (h e he).elim (·.intact) (·.intact)
  · change c.readEntries true ((t.entries.map fun e => (e.1, c.write e.2)).map fun m => (some m.1, m.2))
      .empty = .error .malformed
    rw [List.map_map]
    exact refused h he .empty

end Table
end PipelineEditor
