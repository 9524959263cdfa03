import KeyedTable.Condition.Evaluation

namespace KeyedTable

namespace Comparator

def opposite : Comparator → Comparator
  | .equal => .unequal
  | .unequal => .equal
  | .less => .atLeast
  | .atLeast => .less
  | .greater => .atMost
  | .atMost => .greater

@[simp] theorem holds_opposite (sign : Comparator) (o : Ordering) :
    sign.opposite.holds o = !sign.holds o := by
  cases sign <;> cases o <;> rfl

end Comparator

theorem Double.isSome_order_iff {x y : Double} :
    (x.order y).isSome ↔ x ≠ .nan ∧ y ≠ .nan := by
  cases x <;> cases y <;> simp [Double.order]

/-- The value is of the literal's type, and the type has an order for the two. Different truth
values have none. -/
inductive Comparable : AttributeValue → Literal → Prop
  | texts (a b : String) : Comparable (.string a) (.string b)
  | numbers {a b : String} {x y : Double} (ha : Double.read? a = some x)
      (hb : Double.read? b = some y) (hx : x ≠ .nan) (hy : y ≠ .nan) :
      Comparable (.number a) (.number b)
  | truth (a : Bool) : Comparable (.boolean a) (.boolean a)

theorem AttributeValue.isSome_order_iff {value : AttributeValue} {literal : Literal} :
    (value.order literal.toValue).isSome ↔ Comparable value literal := by
  constructor
  · intro h
    cases literal with
    | string b =>
      cases value with
      | string a => exact .texts a b
      | _ => cases h
    | number b =>
      cases value with
      | number a =>
        simp only [Literal.toValue, AttributeValue.order, Option.bind_eq_bind,
          Option.isSome_bind] at h
        cases ha : Double.read? a with
        | none => simp [ha] at h
        | some x =>
          cases hb : Double.read? b with
          | none => simp [ha, hb] at h
          | some y =>
            have horder : (x.order y).isSome := by simpa [ha, hb] using h
            obtain ⟨hx, hy⟩ := Double.isSome_order_iff.mp horder
            exact .numbers ha hb hx hy
      | _ => cases h
    | boolean b =>
      cases value with
      | boolean a =>
        simp only [Literal.toValue, AttributeValue.order] at h
        split at h
        next hab => exact hab ▸ .truth a
        next => cases h
      | _ => cases h
  · intro h
    cases h with
    | texts a b => rfl
    | numbers ha hb hx hy =>
      simpa [Literal.toValue, AttributeValue.order, ha, hb] using
        Double.isSome_order_iff.mpr ⟨hx, hy⟩
    | truth a => simp [Literal.toValue, AttributeValue.order]

namespace Condition

theorem compares_opposite_iff (sign : Comparator) (order : Option Ordering) :
    compares sign.opposite order = !compares sign order ↔ order.isSome := by
  cases order with
  | none => simp [compares]
  | some o => simp [compares]

theorem holds_compare_of_lookup {path : Path} {item : Item} {value : AttributeValue}
    (h : path.lookup item = some value) (sign : Comparator) (literal : Literal) :
    (compare path sign literal).holds item = compares sign (value.order literal.toValue) := by
  simp [holds, h]

theorem holds_compare_of_missing {path : Path} {item : Item} (h : path.lookup item = none)
    (sign : Comparator) (literal : Literal) : (compare path sign literal).holds item = false := by
  simp [holds, h]

end Condition

/-- A comparison is the negation of its opposite exactly at the items that have a value comparable
with the literal: a text beside a text, numbers that are not NaN, or one truth value beside itself.
Of different truth values no comparison holds, not even `<>`. -/
theorem opposite_comparisons (item : Item) (path : Path) (sign : Comparator) :
    (∀ literal, (Condition.compare path sign.opposite literal).holds item =
        !(Condition.compare path sign literal).holds item ↔
      ∃ value, path.lookup item = some value ∧ Comparable value literal) ∧
    ∀ a b, path.lookup item = some (.boolean a) →
      (Condition.compare path sign (.boolean b)).holds item = (a == b && sign.holds .eq) := by
  refine ⟨fun literal => ?_, fun a b hlookup => ?_⟩
  · cases hlookup : path.lookup item with
    | none => simp [Condition.holds_compare_of_missing hlookup]
    | some value =>
      rw [Condition.holds_compare_of_lookup hlookup, Condition.holds_compare_of_lookup hlookup,
        Condition.compares_opposite_iff, AttributeValue.isSome_order_iff]
      simp
  · rw [Condition.holds_compare_of_lookup hlookup, Literal.toValue, AttributeValue.order]
    by_cases hab : a = b <;> simp [Condition.compares, hab]

theorem opposite_comparisons_of_nested :
    let item : Item := SortedMap.empty.insert "order" (.map [("total", .number "1.0"),
      ("paid", .boolean false)])
    (Condition.compare ⟨"order", ["total"]⟩ .atMost (.number "1")).holds item =
        !(Condition.compare ⟨"order", ["total"]⟩ .greater (.number "1")).holds item ∧
      (Condition.compare ⟨"order", ["paid"]⟩ .unequal (.boolean true)).holds item = false := by
  intro item
  have hone : Double.read? "1" = some (.finite false (2 ^ 52) (-52)) := by decide +kernel
  have hdecimal : Double.read? "1.0" = some (.finite false (2 ^ 52) (-52)) := by decide +kernel
  have hcomparable : Comparable (.number "1.0") (.number "1") :=
    .numbers hdecimal hone (by simp) (by simp)
  exact ⟨((opposite_comparisons item ⟨"order", ["total"]⟩ .greater).1 (.number "1")).mpr
      ⟨_, rfl, hcomparable⟩,
    (opposite_comparisons item ⟨"order", ["paid"]⟩ .unequal).2 false true rfl⟩

/-- Neither `paid = true` nor `paid <> true` holds of an item that is not paid. -/
theorem inequality_of_different_truth_values :
    ¬ ∀ (item : Item) (path : Path) (a b : Bool), path.lookup item = some (.boolean a) →
      (Condition.compare path .unequal (.boolean b)).holds item =
        !(Condition.compare path .equal (.boolean b)).holds item := by
  intro h
  have hneither := h (SortedMap.empty.insert "paid" (.boolean false)) ⟨"paid", []⟩ false true rfl
  exact absurd hneither (by decide)

end KeyedTable
