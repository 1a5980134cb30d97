import PipelineEditor.Uuid

/-! Texts of UUIDs. The hyphenated spelling is read back as the UUID it was written for. -/
namespace PipelineEditor.Uuid

private theorem hexValue?_digitChar (d : Fin 16) :
    Json.hexValue? (Nat.digitChar d.val) = some d.val := by
  revert d
  decide

private theorem hexValues_digitChar (ds : List (Fin 16)) :
    ((ds.map fun d => Nat.digitChar d.val).filterMap Json.hexValue?).map (Fin.ofNat 16) = ds := by
  induction ds with
  | nil => rfl
  | cons d ds ih =>
    rw [List.map_cons, List.filterMap_cons, hexValue?_digitChar, List.map_cons, ih,
      Fin.ofNat_val_eq_self]

private theorem ofHex?_digits (u : Uuid) :
    ofHex? (u.digits.map fun d => Nat.digitChar d.val) = some u := by
  have count : (u.digits.map fun d => Nat.digitChar d.val).length = 32 := by
    rw [List.length_map, u.length_eq]
  unfold ofHex?
  simp only [hexValues_digitChar, count, if_true, u.length_eq, dite_true]

/-- Five groups of characters set apart by hyphens are read as one row of digits. -/
private theorem ofHyphenated?_groups {a b c d e : List Char} (ha : a.length = 8)
    (hb : b.length = 4) (hc : c.length = 4) (hd : d.length = 4) (he : e.length = 12) :
    ofHyphenated? (a ++ '-' :: b ++ '-' :: c ++ '-' :: d ++ '-' :: e) =
      ofHex? (a ++ b ++ c ++ d ++ e) := by
  unfold ofHyphenated?
  rw [if_pos]
  · congr 1
    simp [List.drop_append, List.drop_eq_nil_of_le, ha, hb, hc, hd]
  · simp [ha, hb, hc, hd, he, List.getElem?_append]

/-- The text of a UUID is read as that UUID. -/
theorem parse?_text (u : Uuid) : parse? u.text = some u := by
  let s := u.digits.map fun d => Nat.digitChar d.val
  have hs : s.length = 32 := by rw [List.length_map, u.length_eq]
  have groups : u.text.toList = s.take 8 ++ '-' :: (s.drop 8).take 4 ++ '-' :: (s.drop 12).take 4 ++
      '-' :: (s.drop 16).take 4 ++ '-' :: s.drop 20 := String.toList_ofList
  have count : u.text.toList.length = 36 := by
    rw [groups]
    simp [hs]
  have digits : s.take 8 ++ (s.drop 8).take 4 ++ (s.drop 12).take 4 ++ (s.drop 16).take 4 ++
      s.drop 20 = s := by
    have joined (m n : Nat) : s.take m ++ (s.drop m).take n = s.take (m + n) :=
      List.take_add.symm
    rw [joined, joined, joined, List.take_append_drop]
  simp only [parse?, count]
  rw [if_neg (by decide), if_neg (by simp), if_neg (by simp), groups,
    ofHyphenated?_groups (by simp [hs]) (by simp [hs]) (by simp [hs]) (by simp [hs]) (by simp [hs]),
    digits]
  exact ofHex?_digits u

end PipelineEditor.Uuid
