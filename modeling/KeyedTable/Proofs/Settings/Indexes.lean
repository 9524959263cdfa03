import Mathlib.Data.List.ReduceOption
import KeyedTable.Settings
import KeyedTable.Proofs.SortedMap.Overwriting
import KeyedTable.Proofs.Text.Splitting

namespace KeyedTable.Settings

/-- What an entry between commas says: nothing if it is blank, else the name of an index and the
attributes of its key, with colons between them and any blanks around each. -/
inductive Says : String → Option (String × KeySchema) → Prop
  | nothing {entry : String} : Text.Padded "" entry → Says entry none
  | index {index : String × KeySchema} {spelled : List String} :
    List.Forall₂ Text.Padded (index.1 :: index.2.names) spelled →
    (∀ part ∈ index.1 :: index.2.names, part ≠ "" ∧ ':' ∉ part.toList) →
    Says (String.intercalate ":" spelled) (some index)

def readEntry (entry : String) : Except Error (Option (String × KeySchema)) :=
  if Text.trim entry = "" then .ok none else (readIndex (Text.trim entry)).map some

section Each

variable {ε α β : Type} {f : α → Except ε β}

theorem mapM_cons_error {x : α} {xs : List α} {error : ε} (h : f x = .error error) :
    (x :: xs).mapM f = .error error := by
  rw [List.mapM_cons, h]
  rfl

theorem mapM_cons_ok {x : α} {xs : List α} {y : β} (h : f x = .ok y) :
    (x :: xs).mapM f = (xs.mapM f).map (y :: ·) := by
  rw [List.mapM_cons, h]
  cases xs.mapM f <;> rfl

theorem map_eq_error_iff {g : α → β} {result : Except ε α} {error : ε} :
    result.map g = .error error ↔ result = .error error := by
  cases result <;> simp [Except.map]

theorem mapM_eq_ok_iff {xs : List α} {ys : List β} :
    xs.mapM f = .ok ys ↔ List.Forall₂ (fun x y => f x = .ok y) xs ys := by
  induction xs generalizing ys with
  | nil => cases ys <;> simp [pure, Except.pure]
  | cons x xs ih =>
    rw [List.forall₂_cons_left_iff]
    cases hx : f x with
    | error error => simp [mapM_cons_error hx]
    | ok y =>
      rw [mapM_cons_ok hx]
      cases hxs : xs.mapM f <;> simp [Except.map, ← ih, hxs, eq_comm]

theorem mapM_eq_error_iff {xs : List α} {error : ε} :
    xs.mapM f = .error error ↔ ∃ before x after, xs = before ++ x :: after ∧
      (∀ other ∈ before, ∃ y, f other = .ok y) ∧ f x = .error error := by
  constructor
  · intro h
    induction xs with
    | nil => cases h
    | cons x xs ih =>
      cases hx : f x with
      | error other =>
        rw [mapM_cons_error hx] at h
        obtain rfl := Except.error.inj h
        exact ⟨[], x, xs, rfl, by simp, hx⟩
      | ok y =>
        rw [mapM_cons_ok hx, map_eq_error_iff] at h
        obtain ⟨before, failing, after, rfl, hbefore, hfailing⟩ := ih h
        exact ⟨x :: before, failing, after, rfl, List.forall_mem_cons.mpr ⟨⟨y, hx⟩, hbefore⟩,
          hfailing⟩
  · rintro ⟨before, x, after, rfl, hbefore, hx⟩
    induction before with
    | nil => exact mapM_cons_error hx
    | cons first before ih =>
      obtain ⟨⟨y, hy⟩, hothers⟩ := List.forall_mem_cons.mp hbefore
      rw [List.cons_append, mapM_cons_ok hy, map_eq_error_iff]
      exact ih hothers

end Each

theorem readIndex_eq_ok_iff {entry : String} {index : String × KeySchema} :
    readIndex entry = .ok index ↔
      (Text.split entry ':').map Text.trim = index.1 :: index.2.names ∧
        ∀ part ∈ index.1 :: index.2.names, part ≠ "" := by
  obtain ⟨name, ⟨partition, sort⟩⟩ := index
  rw [readIndex]
  split
  next name' partition' heq =>
    rw [heq]
    cases sort <;>
      simp [KeySchema.names, String.isEmpty_iff] <;> grind
  next name' partition' sort' heq =>
    rw [heq]
    cases sort <;>
      simp [KeySchema.names, String.isEmpty_iff] <;> grind
  next htwo hthree =>
    refine iff_of_false (fun h => by cases h) fun h => ?_
    cases sort with
    | none => exact htwo _ _ h.1
    | some sort => exact hthree _ _ _ h.1

theorem readIndex_eq_error {entry : String} {error : Error} (h : readIndex entry = .error error) :
    error = .invalidArgument (.indexEntry entry) := by
  rw [readIndex] at h
  grind

theorem readEntry_eq_error {entry : String} {error : Error} (h : readEntry entry = .error error) :
    error = .invalidArgument (.indexEntry (Text.trim entry)) := by
  rw [readEntry] at h
  split at h
  · cases h
  · exact readIndex_eq_error (map_eq_error_iff.mp h)

theorem readIndexes_eq (text : String) :
    readIndexes text = ((Text.split text ',').mapM readEntry).map List.reduceOption := by
  rw [readIndexes]
  induction Text.split text ',' with
  | nil => rfl
  | cons entry entries ih =>
    by_cases hblank : Text.trim entry = ""
    · have hread : readEntry entry = .ok none := if_pos hblank
      rw [mapM_cons_ok hread, List.map_cons, List.filter_cons_of_neg (by simp [hblank]), ih]
      cases entries.mapM readEntry <;> rfl
    · have hread : readEntry entry = (readIndex (Text.trim entry)).map some := if_neg hblank
      rw [List.map_cons, List.filter_cons_of_pos (by simpa using hblank)]
      cases hindex : readIndex (Text.trim entry) with
      | error error =>
        rw [hindex] at hread
        rw [mapM_cons_error hindex, mapM_cons_error hread]
        rfl
      | ok index =>
        rw [hindex] at hread
        rw [mapM_cons_ok hindex, mapM_cons_ok hread, ih]
        cases entries.mapM readEntry <;> rfl

theorem says_iff {entry : String} {said : Option (String × KeySchema)} :
    Says entry said ↔ readEntry entry = .ok said := by
  have hcolon : Text.isBlank ':' = false := by decide
  constructor
  · intro h
    cases h with
    | nothing hblank => exact if_pos (Text.padded_iff.mp hblank)
    | @index index spelled hspelled hparts =>
      have htrim := Text.forall₂_padded_iff.mp hspelled
      have hfree : ∀ piece ∈ spelled, ':' ∉ piece.toList := fun piece hpiece => by
        rw [(Text.padded_trim piece).mem_iff hcolon]
        exact (hparts _ (htrim ▸ List.mem_map_of_mem hpiece)).2
      have hsplit : Text.split (String.intercalate ":" spelled) ':' = spelled :=
        Text.separated_iff.mp ⟨fun hnil => by simp [hnil] at hspelled, hfree, rfl⟩
      have htrimmed := Text.map_trim_split_trim hcolon (String.intercalate ":" spelled)
      rw [hsplit, htrim] at htrimmed
      have hentry : Text.trim (String.intercalate ":" spelled) ≠ "" := fun hempty => by
        simp [hempty, Text.split, Text.pieces, KeySchema.names] at htrimmed
      rw [readEntry, if_neg hentry,
        readIndex_eq_ok_iff.mpr ⟨htrimmed, fun part hpart => (hparts part hpart).1⟩]
      rfl
  · intro h
    rw [readEntry] at h
    split at h
    next hblank =>
      cases h
      exact .nothing (Text.padded_iff.mpr hblank)
    next hentry =>
      cases hindex : readIndex (Text.trim entry) with
      | error error => rw [hindex] at h; cases h
      | ok index =>
        rw [hindex] at h
        cases h
        obtain ⟨htrimmed, hne⟩ := readIndex_eq_ok_iff.mp hindex
        rw [Text.map_trim_split_trim hcolon] at htrimmed
        obtain ⟨-, hfree, hjoined⟩ := Text.separated_iff.mpr (rfl : Text.split entry ':' = _)
        rw [← hjoined]
        refine .index (Text.forall₂_padded_iff.mpr htrimmed) fun part hpart => ⟨hne part hpart, ?_⟩
        obtain ⟨piece, hpiece, rfl⟩ := List.mem_map.mp (htrimmed ▸ hpart)
        rw [← (Text.padded_trim piece).mem_iff hcolon]
        exact hfree piece hpiece

theorem readIndexes_eq_ok_iff {text : String} {indexes : List (String × KeySchema)} :
    readIndexes text = .ok indexes ↔ ∃ entries said, Text.Separated ',' entries text ∧
      List.Forall₂ Says entries said ∧ said.reduceOption = indexes := by
  have hreadings : Says = fun entry said => readEntry entry = .ok said :=
    funext fun entry => funext fun said => propext says_iff
  rw [readIndexes_eq]
  simp only [Text.separated_iff, hreadings, ← mapM_eq_ok_iff]
  cases hread : (Text.split text ',').mapM readEntry <;> simp [hread, Except.map]

theorem readIndexes_eq_error_iff {text : String} {error : Error} :
    readIndexes text = .error error ↔ ∃ before entry after trimmed,
      Text.Separated ',' (before ++ entry :: after) text ∧
      (∀ other ∈ before, ∃ said, Says other said) ∧ (¬ ∃ said, Says entry said) ∧
      Text.Padded trimmed entry ∧ error = .invalidArgument (.indexEntry trimmed) := by
  rw [readIndexes_eq, map_eq_error_iff, mapM_eq_error_iff]
  simp only [Text.separated_iff, Text.padded_iff, says_iff]
  constructor
  · rintro ⟨before, entry, after, htext, hbefore, herror⟩
    exact ⟨before, entry, after, _, htext, hbefore, by simp [herror], rfl,
      readEntry_eq_error herror⟩
  · rintro ⟨before, entry, after, _, htext, hbefore, hentry, rfl, rfl⟩
    refine ⟨before, entry, after, htext, hbefore, ?_⟩
    cases hread : readEntry entry with
    | ok said => exact absurd ⟨said, hread⟩ hentry
    | error error => rw [readEntry_eq_error hread]

theorem Says.comma_not_mem {entry : String} {said : Option (String × KeySchema)}
    (h : Says entry said)
    (hsaid : ∀ index ∈ said, ∀ part ∈ index.1 :: index.2.names, ',' ∉ part.toList) :
    ',' ∉ entry.toList := by
  have hcomma : Text.isBlank ',' = false := by decide
  cases h with
  | nothing hblank => simp [hblank.mem_iff hcomma]
  | @index index spelled hspelled hparts =>
    intro hmem
    have htrim := Text.forall₂_padded_iff.mp hspelled
    obtain hcolon | ⟨piece, hpiece, hmem⟩ := Text.mem_intercalate hmem
    · exact absurd hcolon (by decide)
    · rw [(Text.padded_trim piece).mem_iff hcomma] at hmem
      exact hsaid index rfl _ (htrim ▸ List.mem_map_of_mem hpiece) hmem

theorem comma_not_mem_of_forall₂ {entries : List String}
    {said : List (Option (String × KeySchema))} (h : List.Forall₂ Says entries said)
    (hsaid : ∀ index ∈ said.reduceOption, ∀ part ∈ index.1 :: index.2.names, ',' ∉ part.toList) :
    ∀ entry ∈ entries, ',' ∉ entry.toList := by
  simp only [List.reduceOption_mem_iff] at hsaid
  induction h with
  | nil => exact List.forall_mem_nil _
  | cons hfirst hrest ih =>
    refine List.forall_mem_cons.mpr ⟨hfirst.comma_not_mem fun index hindex => ?_, ih ?_⟩
    · rw [Option.mem_def.mp hindex] at hsaid
      exact hsaid index List.mem_cons_self
    · exact fun index hindex => hsaid index (List.mem_cons_of_mem _ hindex)

theorem readIndexes_intercalate {entries : List String} {said : List (Option (String × KeySchema))}
    (h : List.Forall₂ Says entries said)
    (hsaid : ∀ index ∈ said.reduceOption, ∀ part ∈ index.1 :: index.2.names, ',' ∉ part.toList) :
    readIndexes (String.intercalate "," entries) = .ok said.reduceOption := by
  rw [readIndexes_eq_ok_iff]
  by_cases hentries : entries = []
  · -- with no entry at all the text is that of one blank entry
    subst hentries
    cases h
    exact ⟨[""], [none], Text.separated_iff.mpr rfl,
      .cons (.nothing (Text.padded_iff.mpr rfl)) .nil, rfl⟩
  · exact ⟨entries, said, ⟨hentries, comma_not_mem_of_forall₂ h hsaid, rfl⟩, h, rfl⟩

theorem read_of_readIndexes {lookup : String → Option String} {indexes : List (String × KeySchema)}
    {retries delay : Nat}
    (hindexes : readIndexes ((lookup "DYNAMODB_INDEXES").getD "") = .ok indexes)
    (hretries : readNumber lookup "DYNAMODB_MAX_RETRIES" RetryPolicy.standard.maxRetries =
      .ok retries)
    (hdelay : readNumber lookup "DYNAMODB_RETRY_DELAY_MS" RetryPolicy.standard.delay = .ok delay) :
    ∃ settings, read lookup = .ok settings ∧ ∀ name key,
      settings.table.indexes.get? name = some key ↔
        ∃ before after, indexes = before ++ (name, key) :: after ∧ ∀ e ∈ after, e.1 ≠ name := by
  simp only [read, hindexes, hretries, hdelay]
  refine ⟨_, rfl, fun name key => ?_⟩
  rw [← Entries.lookup_reverse_eq_some_iff, Table.indexes_withIndexes, SortedMap.get?_foldl_insert]
  exact Eq.congr_left Option.or_none

/-- A list of indexes is read just if every entry between its commas is blank or has two or three
parts between colons, none of them blank; what the entries say is then read in their order, and else
the first that says nothing sensible is quoted without its outer blanks. So whatever blanks stand
around the parts and however many blank entries between the others, what was written is read, and
every index is registered with its last key. -/
theorem index_list_format :
    (∀ text indexes, readIndexes text = .ok indexes ↔ ∃ entries said,
      Text.Separated ',' entries text ∧ List.Forall₂ Says entries said ∧
        said.reduceOption = indexes) ∧
    (∀ text error, readIndexes text = .error error ↔ ∃ before entry after trimmed,
      Text.Separated ',' (before ++ entry :: after) text ∧
        (∀ other ∈ before, ∃ said, Says other said) ∧ (¬ ∃ said, Says entry said) ∧
        Text.Padded trimmed entry ∧ error = .invalidArgument (.indexEntry trimmed) ∧
        error.message = "invalid argument: " ++
          ("invalid index entry '" ++ trimmed ++ "', expected name:partition[:sort]")) ∧
    (∀ entries said, List.Forall₂ Says entries said →
      (∀ index ∈ said.reduceOption, ∀ part ∈ index.1 :: index.2.names, ',' ∉ part.toList) →
      readIndexes (String.intercalate "," entries) = .ok said.reduceOption) ∧
    ∀ lookup indexes retries delay,
      readIndexes ((lookup "DYNAMODB_INDEXES").getD "") = .ok indexes →
      readNumber lookup "DYNAMODB_MAX_RETRIES" RetryPolicy.standard.maxRetries = .ok retries →
      readNumber lookup "DYNAMODB_RETRY_DELAY_MS" RetryPolicy.standard.delay = .ok delay →
      ∃ settings, read lookup = .ok settings ∧ ∀ name key,
        settings.table.indexes.get? name = some key ↔
          ∃ before after, indexes = before ++ (name, key) :: after ∧ ∀ e ∈ after, e.1 ≠ name := by
  refine ⟨fun _ _ => readIndexes_eq_ok_iff, fun text error => ?_,
    fun _ _ => readIndexes_intercalate, fun _ _ _ _ => read_of_readIndexes⟩
  rw [readIndexes_eq_error_iff]
  constructor
  · rintro ⟨before, entry, after, trimmed, htext, hbefore, hentry, htrimmed, rfl⟩
    exact ⟨before, entry, after, trimmed, htext, hbefore, hentry, htrimmed, rfl, rfl⟩
  · rintro ⟨before, entry, after, trimmed, htext, hbefore, hentry, htrimmed, herror, -⟩
    exact ⟨before, entry, after, trimmed, htext, hbefore, hentry, htrimmed, herror⟩

theorem index_list_format_blanks_and_repeats :
    let entries := [" by_rating :\u3000category: rating", "\t", "by_price:category ",
      "by_rating:brand"]
    let said := [some ("by_rating", ⟨"category", some "rating"⟩), none,
      some ("by_price", ⟨"category", none⟩), some ("by_rating", ⟨"brand", none⟩)]
    let lookup := fun name =>
      if name = "DYNAMODB_INDEXES" then some (String.intercalate "," entries) else none
    List.Forall₂ Says entries said ∧
    (∀ index ∈ said.reduceOption, ∀ part ∈ index.1 :: index.2.names, ',' ∉ part.toList) ∧
    readIndexes (String.intercalate "," entries) = .ok said.reduceOption ∧
    (∃ settings, read lookup = .ok settings ∧
      settings.table.indexes.get? "by_rating" = some ⟨"brand", none⟩) ∧
    readIndexes "a:b, c:d:e:f ,:g" = .error (.invalidArgument (.indexEntry "c:d:e:f")) := by
  intro entries said lookup
  obtain ⟨-, herror, hjoined, hregistered⟩ := index_list_format
  have hspoken : List.Forall₂ Says entries said :=
    .cons (says_iff.mpr (by decide +kernel)) (.cons (says_iff.mpr (by decide +kernel))
      (.cons (says_iff.mpr (by decide +kernel)) (.cons (says_iff.mpr (by decide +kernel)) .nil)))
  have hcomma : ∀ index ∈ said.reduceOption, ∀ part ∈ index.1 :: index.2.names,
      ',' ∉ part.toList := by decide +kernel
  have hread := hjoined entries said hspoken hcomma
  refine ⟨hspoken, hcomma, hread, ?_, ?_⟩
  · obtain ⟨settings, hsettings, hindexes⟩ :=
      hregistered lookup said.reduceOption 10 500 hread rfl rfl
    exact ⟨settings, hsettings, (hindexes _ _).mpr
      ⟨[("by_rating", ⟨"category", some "rating"⟩), ("by_price", ⟨"category", none⟩)], [], rfl,
        List.forall_mem_nil _⟩⟩
  · refine (herror _ _).mpr ⟨["a:b"], " c:d:e:f ", [":g"], "c:d:e:f", ?_, ?_, ?_, ?_, rfl, rfl⟩
    · exact Text.separated_iff.mpr (by decide +kernel)
    · exact fun other hother => ⟨some ("a", ⟨"b", none⟩), by
        rw [List.mem_singleton.mp hother]
        exact says_iff.mpr (by decide +kernel)⟩
    · rintro ⟨said, hsaid⟩
      have hentry := says_iff.mp hsaid
      have hfails : readEntry " c:d:e:f " = .error (.invalidArgument (.indexEntry "c:d:e:f")) := by
        decide +kernel
      rw [hfails] at hentry
      cases hentry
    · exact Text.padded_iff.mpr (by decide +kernel)

end KeyedTable.Settings
