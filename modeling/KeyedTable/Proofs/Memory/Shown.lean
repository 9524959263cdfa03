import Mathlib.Data.List.Forall2
import KeyedTable.Proofs.Memory.Order

/-! The texts by which keys are ordered. The fields of a map have no order of their own, so that a
map may be shown now like this and now like that; what holds no map is always shown alike. -/

namespace KeyedTable

namespace AttributeValue

mutual

def holdsMap : AttributeValue → Bool
  | .map _ => true
  | .list elements => anyHoldsMap elements
  | _ => false

def anyHoldsMap : List AttributeValue → Bool
  | [] => false
  | value :: values => value.holdsMap || anyHoldsMap values

end

def IsNested : AttributeValue → Prop
  | .list _ | .map _ => True
  | _ => False

mutual

inductive Shows : AttributeValue → String → Prop
  | plain {value} : ¬ value.IsNested → Shows value value.display
  | list {elements texts} : ElementsShow elements texts →
      Shows (.list elements) ("L(" ++ bracketed texts ++ ")")
  | map {fields shown texts} : List.Perm fields shown → FieldsShow shown texts →
      Shows (.map fields) ("M(" ++ braced texts ++ ")")

inductive ElementsShow : List AttributeValue → List String → Prop
  | nil : ElementsShow [] []
  | cons {value values text texts} : Shows value text → ElementsShow values texts →
      ElementsShow (value :: values) (text :: texts)

inductive FieldsShow : List (String × AttributeValue) → List String → Prop
  | nil : FieldsShow [] []
  | cons {name value fields text texts} : Shows value text → FieldsShow fields texts →
      FieldsShow ((name, value) :: fields) ((Text.quote name ++ ": " ++ text) :: texts)

end

mutual

theorem shows_display : ∀ value : AttributeValue, value.Shows value.display
  | .list elements => .list (elementsShow_display elements)
  | .map fields => .map (.refl fields) (fieldsShow_display fields)
  | .string _ | .number _ | .boolean _ | .null _ | .binary _ | .stringSet _ | .numberSet _
  | .binarySet _ | .unknown => .plain id

theorem elementsShow_display : ∀ values : List AttributeValue,
    ElementsShow values (displayElements values)
  | [] => .nil
  | value :: values => .cons (shows_display value) (elementsShow_display values)

theorem fieldsShow_display : ∀ fields : List (String × AttributeValue),
    FieldsShow fields (displayFields fields)
  | [] => .nil
  | (_, value) :: fields => .cons (shows_display value) (fieldsShow_display fields)

end

mutual

theorem Shows.eq_display : ∀ (value : AttributeValue) {text : String}, value.Shows text →
    value.holdsMap = false → text = value.display
  | .list elements, _, .list h, hmap => by rw [display, h.eq_display elements hmap]
  | .list _, _, .plain h, _ => absurd trivial h
  | .string _, _, .plain _, _ | .number _, _, .plain _, _ | .boolean _, _, .plain _, _
  | .null _, _, .plain _, _ | .binary _, _, .plain _, _ | .stringSet _, _, .plain _, _
  | .numberSet _, _, .plain _, _ | .binarySet _, _, .plain _, _ | .unknown, _, .plain _, _ => rfl

theorem ElementsShow.eq_display : ∀ (values : List AttributeValue) {texts : List String},
    ElementsShow values texts → anyHoldsMap values = false → texts = displayElements values
  | [], _, .nil, _ => rfl
  | value :: values, _, .cons h hs, hmap => by
    obtain ⟨hfirst, hothers⟩ := Bool.or_eq_false_iff.mp hmap
    rw [displayElements, h.eq_display value hfirst, hs.eq_display values hothers]

end

def MayOrder : AttributeValue → String → Prop
  | .string own, text | .number own, text => text = own
  | value, text => value.Shows text

theorem mayOrder_orderText (value : AttributeValue) : value.MayOrder value.orderText := by
  cases value with
  | string | number => rfl
  | _ => exact shows_display _

theorem MayOrder.eq_orderText {value : AttributeValue} {text : String} (h : value.MayOrder text)
    (hmap : value.holdsMap = false) : text = value.orderText := by
  cases value with
  | string | number => exact h
  | _ => exact Shows.eq_display _ h hmap

end AttributeValue

namespace KeySchema

variable {schema : KeySchema} {x y : Item}

def Agree (schema : KeySchema) (x y : Item) : Prop :=
  ∀ name ∈ schema.names, x.get? name = y.get? name

instance (schema : KeySchema) (x y : Item) : Decidable (schema.Agree x y) :=
  inferInstanceAs (Decidable (∀ name ∈ schema.names, x.get? name = y.get? name))

theorem Agree.refl (schema : KeySchema) (x : Item) : schema.Agree x x := fun _ _ => rfl

def MayOrder (schema : KeySchema) (item : Item) (texts : List String) : Prop :=
  List.Forall₂ (fun name text => match item.get? name with
    | some value => value.MayOrder text
    | none => text = "") schema.names texts

theorem mayOrder_orderTexts (schema : KeySchema) (item : Item) :
    schema.MayOrder item (schema.orderTexts item) := by
  refine List.forall₂_map_right_iff.mpr (List.forall₂_same.mpr fun name _ => ?_)
  cases item.get? name with
  | some value => exact value.mayOrder_orderText
  | none => rfl

/-- The same item, or two with the same key, in which there is no map. -/
def Same (schema : KeySchema) (x y : Item) : Prop :=
  x = y ∨ schema.Agree x y ∧
    ∀ name ∈ schema.names, ∀ value ∈ x.get? name, value.holdsMap = false

instance (schema : KeySchema) (x y : Item) : Decidable (schema.Same x y) :=
  inferInstanceAs (Decidable (x = y ∨ schema.Agree x y ∧
    ∀ name ∈ schema.names, ∀ value ∈ x.get? name, value.holdsMap = false))

theorem Same.refl (schema : KeySchema) (x : Item) : schema.Same x x := .inl rfl

theorem Same.agree (h : schema.Same x y) : schema.Agree x y := by
  obtain rfl | ⟨hagree, -⟩ := h
  · exact .refl schema x
  · exact hagree

theorem Agree.texts_eq {texts others : List String} (h : schema.Agree x y)
    (hmap : ∀ name ∈ schema.names, ∀ value ∈ x.get? name, value.holdsMap = false)
    (hx : schema.MayOrder x texts) (hy : schema.MayOrder y others) : texts = others := by
  unfold Agree MayOrder at *
  generalize schema.names = names at h hmap hx hy
  induction names generalizing texts others with
  | nil =>
    cases hx
    cases hy
    rfl
  | cons name names ih =>
    obtain ⟨text, texts, htext, htexts, rfl⟩ := List.forall₂_cons_left_iff.mp hx
    obtain ⟨other, others, hother, hothers, rfl⟩ := List.forall₂_cons_left_iff.mp hy
    obtain ⟨hname, hnames⟩ := List.forall_mem_cons.mp h
    obtain ⟨hvalue, hvalues⟩ := List.forall_mem_cons.mp hmap
    rw [ih hnames hvalues htexts hothers]
    rw [← hname] at hother
    cases hget : x.get? name with
    | none =>
      rw [hget] at htext hother
      rw [htext, hother]
    | some value =>
      rw [hget] at htext hother
      have hplain := hvalue value hget
      rw [htext.eq_orderText hplain, hother.eq_orderText hplain]

theorem Same.orderTexts_eq (h : schema.Same x y) : schema.orderTexts x = schema.orderTexts y := by
  obtain rfl | ⟨hagree, hmap⟩ := h
  · rfl
  · exact hagree.texts_eq hmap (schema.mayOrder_orderTexts x) (schema.mayOrder_orderTexts y)

end KeySchema

end KeyedTable
