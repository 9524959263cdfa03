import KeyedTable.Item.Json
import KeyedTable.Proofs.Decimal.Rereading
import KeyedTable.Proofs.SortedMap.Overwriting

namespace KeyedTable

namespace Json

/-- Data of which every number, at any depth, is whole and has at most 64 bits, signed or unsigned.
The fields of objects are in name order, as they always are. -/
inductive Integral : Json → Prop
  | null : Integral .null
  | bool (b : Bool) : Integral (.bool b)
  | int {n : Int} : -9223372036854775808 ≤ n → n ≤ 18446744073709551615 → Integral (.int n)
  | string (text : String) : Integral (.string text)
  | array {elements : List Json} : (∀ element ∈ elements, Integral element) →
      Integral (.array elements)
  | object {fields : List (String × Json)} : Entries.Sorted fields →
      (∀ field ∈ fields, Integral field.2) → Integral (.object fields)

end Json

namespace AttributeValue

theorem numberToJson_toString {n : Int} (hlow : -9223372036854775808 ≤ n)
    (hhigh : n ≤ 18446744073709551615) : numberToJson (toString n) = .ok (.int n) := by
  cases n with
  | ofNat n =>
    have htext : (toString (Int.ofNat n)).toList = Nat.toDigits 10 n := Nat.toList_repr
    have hcount : n ≤ Decimal.maxCount := Int.ofNat_le.mp hhigh
    rw [numberToJson, Decimal.readSigned_natural htext, Decimal.readCount_natural htext,
      if_pos hcount]
    by_cases hsigned : n ≤ Decimal.maxSigned
    · rw [if_pos hsigned]
    · rw [if_neg hsigned]
  | negSucc n =>
    have htext : (toString (Int.negSucc n)).toList = '-' :: Nat.toDigits 10 (n + 1) := by
      rw [Int.toString_eq_repr, Int.repr, String.toList_append, Nat.toList_repr]
      rfl
    have hsigned : n + 1 ≤ Decimal.maxSigned + 1 := by
      unfold Decimal.maxSigned
      omega
    rw [numberToJson, Decimal.readSigned_negative htext, if_pos hsigned]
    rfl

theorem toElements_ofElements {elements : List Json}
    (h : ∀ element ∈ elements, toJson (ofJson element) = .ok element) :
    toElements (ofElements elements) = .ok elements := by
  induction elements with
  | nil => rfl
  | cons element elements ih =>
    obtain ⟨helement, helements⟩ := List.forall_mem_cons.mp h
    rw [ofElements, toElements, helement, ih helements]
    rfl

theorem toFields_ofFields {fields : List (String × Json)}
    (h : ∀ field ∈ fields, toJson (ofJson field.2) = .ok field.2) :
    toFields (ofFields fields) = .ok fields := by
  induction fields with
  | nil => rfl
  | cons field fields ih =>
    obtain ⟨hfield, hfields⟩ := List.forall_mem_cons.mp h
    rw [ofFields, toFields, hfield, ih hfields]
    rfl

theorem toJson_ofJson {data : Json} (h : data.Integral) : toJson (ofJson data) = .ok data := by
  induction h with
  | null => rfl
  | bool b => rfl
  | int hlow hhigh => exact numberToJson_toString hlow hhigh
  | string text => rfl
  | array _ ih =>
    rw [ofJson, toJson, toElements_ofElements ih]
    rfl
  | object _ _ ih =>
    rw [ofJson, toJson, toFields_ofFields ih]
    rfl

theorem ofFields_eq_map (fields : List (String × Json)) :
    ofFields fields = fields.map fun field => (field.1, ofJson field.2) := by
  induction fields with
  | nil => rfl
  | cons field fields ih => rw [ofFields, ih, List.map_cons]

theorem lookup_ofFields (name : String) (fields : List (String × Json)) :
    Entries.lookup name (ofFields fields) = (Entries.lookup name fields).map ofJson := by
  induction fields with
  | nil => rfl
  | cons field fields ih =>
    rw [ofFields, Entries.lookup, Entries.lookup, ih]
    split <;> rfl

theorem sorted_ofFields {fields : List (String × Json)} (h : Entries.Sorted fields) :
    Entries.Sorted (ofFields fields) := by
  rw [ofFields_eq_map]
  exact List.pairwise_map.mpr h

end AttributeValue

theorem Item.ofJson_of_sorted {fields : List (String × Json)} (h : Entries.Sorted fields) :
    Item.ofJson (.object fields) =
      .ok ⟨AttributeValue.ofFields fields, AttributeValue.sorted_ofFields h⟩ := by
  rw [Item.ofJson]
  exact congrArg Except.ok
    (SortedMap.ext (Entries.ofList_of_sorted (AttributeValue.sorted_ofFields h)))

/-- An object with no other numbers than whole ones of 64 bits becomes an item with its fields as
attributes, and the item becomes the same object again. Nothing but an object becomes an item. -/
theorem json_survives :
    (∀ fields, Json.Integral (.object fields) → ∃ item, Item.ofJson (.object fields) = .ok item ∧
      (∀ name, item.get? name =
        (Json.field? (.object fields) name).map AttributeValue.ofJson) ∧
      item.toJson = .ok (.object fields)) ∧
    ∀ data, (∀ fields, data ≠ .object fields) →
      Item.ofJson data = .error (.invalidArgument .notAnObject) := by
  constructor
  · intro fields h
    cases h with
    | object hsorted hfields =>
      refine ⟨_, Item.ofJson_of_sorted hsorted, fun name => ?_, ?_⟩
      · exact AttributeValue.lookup_ofFields name fields
      · have hkept := AttributeValue.toFields_ofFields fun field hfield =>
          AttributeValue.toJson_ofJson (hfields field hfield)
        rw [Item.toJson, hkept]
        rfl
  · intro data hdata
    cases data with
    | object fields => exact absurd rfl (hdata fields)
    | _ => rfl

theorem json_survives_at_bounds :
    let data : List (String × Json) :=
      [("a", .object [("b", .array [.int (-9223372036854775808), .int 9223372036854775808,
        .int 18446744073709551615, .null, .object [], .array []])]), ("c", .string "")]
    Json.Integral (.object data) ∧
      (∃ item, Item.ofJson (.object data) = .ok item ∧ item.toJson = .ok (.object data) ∧
        item.get? "c" = some (.string "")) ∧
      (∀ fields, Json.array [.object data] ≠ .object fields) ∧
      Item.ofJson (.array [.object data]) = .error (.invalidArgument .notAnObject) := by
  intro data
  have hbounds : Json.Integral (.array [.int (-9223372036854775808), .int 9223372036854775808,
      .int 18446744073709551615, .null, .object [], .array []]) := by
    refine .array ?_
    simp only [List.forall_mem_cons]
    exact ⟨.int (by decide) (by decide), .int (by decide) (by decide),
      .int (by decide) (by decide), .null, .object (by decide) nofun, .array nofun, nofun⟩
  have hdata : Json.Integral (.object data) := by
    refine .object (by decide) (List.forall_mem_cons.mpr ⟨.object (by decide) ?_, ?_⟩)
    · exact List.forall_mem_singleton.mpr hbounds
    · exact List.forall_mem_singleton.mpr (.string "")
  obtain ⟨item, hitem, hget, hback⟩ := json_survives.1 data hdata
  exact ⟨hdata, ⟨item, hitem, hback, hget "c"⟩, nofun, json_survives.2 _ nofun⟩

end KeyedTable
