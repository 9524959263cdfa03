import KeyedTable.Condition.Evaluation
import KeyedTable.Proofs.Condition.Grammar

namespace KeyedTable

namespace Condition

def range (path : Path) (low high : Literal) : Condition :=
  .join .and (.compare path .atLeast low) (.compare path .atMost high)

def orEqual (path : Path) (c : Condition) : List Literal → Condition
  | [] => c
  | value :: values => orEqual path (.join .or c (.compare path .equal value)) values

def choice (path : Path) (first : Literal) (others : List Literal) : Condition :=
  orEqual path (.compare path .equal first) others

theorem holds_range (path : Path) (low high : Literal) (item : Item) :
    (range path low high).holds item = (between path low high).holds item := by
  cases hlookup : path.lookup item <;> simp [range, holds, hlookup]

theorem holds_orEqual (path : Path) (c : Condition) (values : List Literal) (item : Item) :
    (orEqual path c values).holds item =
      (c.holds item || values.any fun value => (compare path .equal value).holds item) := by
  induction values generalizing c with
  | nil => simp [orEqual]
  | cons value values ih => simp only [orEqual, ih, List.any_cons, holds, Bool.or_assoc]

theorem holds_choice (path : Path) (first : Literal) (others : List Literal) (item : Item) :
    (choice path first others).holds item = (among path first others).holds item := by
  rw [choice, holds_orEqual]
  cases hlookup : path.lookup item <;> simp [holds, hlookup]

/-- The second condition is the first one with some ranges and lists written out in
parentheses. -/
inductive Expanded : Condition → Condition → Prop
  | same (c : Condition) : Expanded c c
  | between (path : Path) (low high : Literal) :
      Expanded (.between path low high) (.group (range path low high))
  | among (path : Path) (first : Literal) (others : List Literal) :
      Expanded (.among path first others) (.group (choice path first others))
  | join {left left' right right' : Condition} (connective : Connective) :
      Expanded left left' → Expanded right right' →
      Expanded (.join connective left right) (.join connective left' right')
  | group {inner inner' : Condition} : Expanded inner inner' →
      Expanded (.group inner) (.group inner')

section

variable {path : Path} {c : Condition} {values : List Literal}

theorem leftGrouped_orEqual (h : c.LeftGrouped) : (orEqual path c values).LeftGrouped := by
  induction values generalizing c with
  | nil => exact h
  | cons value values ih => exact ih ⟨h, trivial, rfl⟩

theorem literals_orEqual : (orEqual path c values).literals = c.literals ++ values := by
  induction values generalizing c with
  | nil => simp [orEqual]
  | cons value values ih => simp [orEqual, ih, literals]

theorem mem_segments_orEqual {segment : String} (h : segment ∈ (orEqual path c values).segments) :
    segment ∈ c.segments ∨ segment ∈ path.segments := by
  induction values generalizing c with
  | nil => exact .inl h
  | cons value values ih => simpa [segments, or_assoc] using ih h

end

namespace Expanded

variable {c d : Condition}

theorem holds_eq (h : c.Expanded d) (item : Item) : d.holds item = c.holds item := by
  induction h with
  | same c => rfl
  | between path low high => exact holds_range path low high item
  | among path first others => exact holds_choice path first others item
  | join connective _ _ ihl ihr => cases connective <;> simp only [holds, ihl, ihr]
  | group _ ih => exact ih

theorem isJoin_eq (h : c.Expanded d) : d.isJoin = c.isJoin := by
  cases h <;> rfl

theorem leftGrouped (h : c.Expanded d) (hc : c.LeftGrouped) : d.LeftGrouped := by
  induction h with
  | same c => exact hc
  | between path low high => exact ⟨trivial, trivial, rfl⟩
  | among path first others => exact leftGrouped_orEqual trivial
  | join connective _ hright ihl ihr => exact ⟨ihl hc.1, ihr hc.2.1, hright.isJoin_eq ▸ hc.2.2⟩
  | group _ ih => exact ih hc

theorem literals_eq (h : c.Expanded d) : d.literals = c.literals := by
  induction h with
  | same c => rfl
  | between path low high => rfl
  | among path first others => exact literals_orEqual
  | join connective _ _ ihl ihr => simp only [literals, ihl, ihr]
  | group _ ih => exact ih

theorem mem_segments (h : c.Expanded d) {segment : String} (hd : segment ∈ d.segments) :
    segment ∈ c.segments := by
  induction h with
  | same c => exact hd
  | between path low high => simpa [segments, range] using hd
  | among path first others => exact (mem_segments_orEqual hd).elim id id
  | join connective _ _ ihl ihr =>
    simp only [segments, List.mem_append] at hd ⊢
    exact hd.imp ihl ihr
  | group _ ih => exact ih hd

theorem wellFormed (h : c.Expanded d) (hc : c.WellFormed) : d.WellFormed := by
  obtain ⟨hgrouped, hwritable⟩ := wellFormed_iff.mp hc
  refine wellFormed_iff.mpr ⟨h.leftGrouped hgrouped, fun segment hsegment => ?_, ?_⟩
  · exact hwritable.names segment (h.mem_segments hsegment)
  · exact h.literals_eq ▸ hwritable.literals

end Expanded

end Condition

end KeyedTable
