import KeyedTable.Table

namespace KeyedTable

structure OrderKey where
  parts : List String
  deriving DecidableEq, Repr, Inhabited

namespace OrderKey

instance : LT OrderKey := ⟨fun a b => a.parts < b.parts⟩

instance : DecidableLT OrderKey := fun a b => inferInstanceAs (Decidable (a.parts < b.parts))

theorem lt_trichotomy {a b : List String} (hab : ¬ a < b) (hba : ¬ b < a) : a = b := by
  induction a generalizing b with
  | nil =>
    cases b with
    | nil => rfl
    | cons y b => exact absurd (List.nil_lt_cons y b) hab
  | cons x a ih =>
    cases b with
    | nil => exact absurd (List.nil_lt_cons x a) hba
    | cons y b =>
      rw [List.cons_lt_cons_iff] at hab hba
      have hxy : x = y :=
        KeyOrder.connected (fun h => hab (.inl h)) (fun h => hba (.inl h))
      rw [hxy, ih (fun h => hab (.inr ⟨hxy, h⟩)) (fun h => hba (.inr ⟨hxy.symm, h⟩))]

theorem lt_irreflexive (a : List String) : ¬ a < a := by
  induction a with
  | nil => exact List.not_lt_nil []
  | cons x a ih =>
    rw [List.cons_lt_cons_iff]
    exact fun h => h.elim (String.lt_irrefl x) fun h => ih h.2

theorem lt_transitive {a b c : List String} (hab : a < b) (hbc : b < c) : a < c := by
  induction a generalizing b c with
  | nil =>
    cases c with
    | nil => exact absurd hbc (List.not_lt_nil b)
    | cons z c => exact List.nil_lt_cons z c
  | cons x a ih =>
    cases b with
    | nil => exact absurd hab (List.not_lt_nil _)
    | cons y b =>
      cases c with
      | nil => exact absurd hbc (List.not_lt_nil _)
      | cons z c =>
        rw [List.cons_lt_cons_iff] at hab hbc ⊢
        rcases hab with hab | ⟨rfl, hab⟩ <;> rcases hbc with hbc | ⟨rfl, hbc⟩
        · exact .inl (String.lt_trans hab hbc)
        · exact .inl hab
        · exact .inl hbc
        · exact .inr ⟨rfl, ih hab hbc⟩

instance : KeyOrder OrderKey where
  irrefl a := lt_irreflexive a.parts
  trans := lt_transitive
  connected {a b} h h' := by
    cases a; cases b; exact congrArg OrderKey.mk (lt_trichotomy h h')

end OrderKey

namespace AttributeValue

def orderText : AttributeValue → String
  | .string text | .number text => text
  | value => value.display

end AttributeValue

namespace KeySchema

def orderTexts (schema : KeySchema) (item : Item) : List String :=
  schema.names.map fun name => ((item.get? name).map AttributeValue.orderText).getD ""

end KeySchema

namespace Table

def primaryOrder (table : Table) (item : Item) : OrderKey := ⟨table.primaryKey.orderTexts item⟩

/-- Where an item stands in a read: by the key of the index, then by the primary key. -/
def readOrder (table : Table) (index : Option String) (item : Item) : OrderKey :=
  let schema := index.bind table.indexes.get?
  ⟨(schema.map (·.orderTexts item)).getD [] ++ table.primaryKey.orderTexts item⟩

end Table

def hashBytes (hash : UInt64) (bytes : List UInt8) : UInt64 :=
  bytes.foldl (fun hash b => hash * 31 + b.toUInt64) hash

/-- The segment that holds the items with this key. -/
def segmentOf (key : OrderKey) (total : Nat) : Nat :=
  (key.parts.foldl (fun hash part => hashBytes hash part.toUTF8.data.toList) 0).toNat % total

end KeyedTable
