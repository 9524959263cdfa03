import KeyedTable.Proofs.Condition.Threaded
import KeyedTable.Proofs.Gateway.Respects
import KeyedTable.Proofs.Memory.Progress
import KeyedTable.Proofs.Reading.Query

namespace KeyedTable

namespace Request

def expressions : Request → List String
  | .put p => p.condition.toList
  | .read r =>
    match r.scope with
    | .query keyCondition _ => keyCondition :: r.filter.toList
    | .segment _ _ => r.filter.toList
  | _ => []

def placeholders : Request → Placeholders
  | .put p => p.placeholders
  | .read r => r.placeholders
  | _ => .empty

def Exact (request : Request) : Prop := request.placeholders.UsedBy request.expressions

theorem exact_of_nothing {request : Request} (hplaceholders : request.placeholders = .empty)
    (hexpressions : request.expressions = []) : request.Exact := by
  rw [Exact, hplaceholders, hexpressions]
  exact Compiled.Exact.start.usedBy

end Request

theorem eq_ok_of_mapError {ε α : Type} {f : ε → Error} {result : Except ε α} {value : α}
    (h : result.mapError f = .ok value) : result = .ok value := by
  cases result with
  | error fault => cases h
  | ok found => exact congrArg Except.ok (Except.ok.inj h)

theorem exists_threaded_filter {texts : List String} {compiled : List Compiled}
    (h : Threaded texts compiled) {text : Option String} {filter : Option Compiled}
    (hfilter : filterExpression text compiled.getLast? = .ok filter) :
    ∃ more, Threaded more (compiled ++ filter.toList) := by
  have hcompiled : compileFilter text compiled.getLast? = .ok filter := eq_ok_of_mapError hfilter
  cases filter with
  | none => exact ⟨_, by simpa using h.blank hcompiled⟩
  | some own =>
    cases text with
    | none => cases hcompiled
    | some text => exact ⟨_, h.filter hcompiled⟩

namespace Gateway

variable {σ : Type} (g : Gateway σ)

theorem exact_put {item : Item} {condition : Option String} {put : Put}
    (h : g.putRequest item condition = .ok put) : (Request.put put).Exact := by
  obtain ⟨filter, hfilter, h⟩ := exists_of_bind_ok h
  cases h
  obtain ⟨texts, hthreaded⟩ := exists_threaded_filter .start hfilter
  have hused := hthreaded.exact.usedBy
  cases filter <;> exact hused

theorem exact_query {key : String} {options : QueryOptions} {read : Read}
    (h : g.queryRead key options = .ok read) (start : Option Item) (limit : Option Nat) :
    (Request.read { read with start, limit }).Exact := by
  obtain ⟨_, -, h⟩ := exists_of_bind_ok h
  obtain ⟨condition, hkey, h⟩ := exists_of_bind_ok h
  obtain ⟨filter, hfilter, h⟩ := exists_of_bind_ok h
  cases h
  have hkeyed : Threaded ([] ++ [key]) ([] ++ [condition]) := .key .start (eq_ok_of_mapError hkey)
  obtain ⟨texts, hthreaded⟩ := exists_threaded_filter hkeyed hfilter
  have hused := hthreaded.exact.usedBy
  cases filter <;> exact hused

theorem exact_scan {segments : Nat} {options : ScanOptions} {start : Option (List (Option Item))}
    {reads : List Read} (h : g.scanReads segments options start = .ok reads) {read : Read}
    (hread : read ∈ reads) (key : Option Item) (limit : Option Nat) :
    (Request.read { read with start := key, limit }).Exact := by
  obtain ⟨_, -, h⟩ := exists_of_bind_ok h
  obtain ⟨_, -, h⟩ := exists_of_bind_ok h
  obtain ⟨filter, hfilter, h⟩ := exists_of_bind_ok h
  cases h
  obtain ⟨first, -, rfl⟩ := List.mem_map.mp hread
  obtain ⟨texts, hthreaded⟩ := exists_threaded_filter .start hfilter
  have hused := hthreaded.exact.usedBy
  cases filter <;> exact hused

theorem builds_exact : g.Builds Request.Exact where
  get _ _ := Request.exact_of_nothing rfl rfl
  put h := g.exact_put h
  writeBatch _ _ := Request.exact_of_nothing rfl rfl
  getBatch _ _ := Request.exact_of_nothing rfl rfl
  query h := g.exact_query h
  scan h _ hread := g.exact_scan h hread

end Gateway

/-- After every text of a chain the maps hold the names of all texts so far and their literals,
numbered from the left, and what they held before. So every request mentions all that its maps hold
and nothing else. -/
theorem placeholders_exact :
    (∀ texts compiled, Threaded texts compiled →
      Compiled.Exact texts compiled ∧
        (placeholdersOf compiled.getLast?).UsedBy (compiled.map Compiled.expression)) ∧
      ∀ {σ : Type} (g : Gateway σ) (operation : Operation) (s : σ) (request : Request)
        (refusal : Option Error), .asked request refusal ∈ (g.perform operation s).events →
          request.placeholders.UsedBy request.expressions := by
  refine ⟨fun texts compiled h => ⟨h.exact, h.exact.usedBy⟩, ?_⟩
  intro σ g operation s request refusal
  have hupholds : g.Upholds (fun _ => True) Request.Exact :=
    ⟨fun _ _ _ _ => trivial, fun _ _ _ => trivial⟩
  exact (g.builds_exact.perform hupholds operation s trivial).2 request refusal

theorem placeholders_exact_shared :
    let filter := "a.b = 2 and size(id) > 3"
    let expressions := ["#id = :1", "#a.#b = :2 and size(#id) > :3"]
    let store : Store Unit := ⟨fun _ s => (.error (.request "InternalServerError"), s), fun _ => 0⟩
    let g : Gateway Unit := ⟨store, ⟨"orders", ⟨"id", none⟩, .empty⟩, .standard, fun _ s => s⟩
    let query := Operation.query "id = 1" ⟨none, some filter, true, none, none⟩
    ∃ compiled : List Compiled, Threaded ["id = 1", " ", filter] compiled ∧
      Compiled.Exact ["id = 1", " ", filter] compiled ∧
      compiled.map Compiled.expression = expressions ∧
      (placeholdersOf compiled.getLast?).names.keys = ["#a", "#b", "#id"] ∧
      (placeholdersOf compiled.getLast?).values.keys = [":1", ":2", ":3"] ∧
      ∃ request refusal, .asked request refusal ∈ (g.perform query ()).events ∧
        request.expressions = expressions ∧ request.placeholders.UsedBy expressions := by
  intro filter expressions store g query
  let key : Condition := .compare ⟨"id", []⟩ .equal (.number "1")
  let test : Condition := .join .and (.compare ⟨"a", ["b"]⟩ .equal (.number "2"))
    (.size ⟨"id", []⟩ .greater (.number "3"))
  let sent := Gateway.sentQuery g.table key (some test) ⟨none, some filter, true, none, none⟩
  have hkey : Condition.parse "id = 1" = .ok key := by with_unfolding_all rfl
  have hfilter : Condition.parse "a.b = 2 and size(id) > 3" = .ok test := by with_unfolding_all rfl
  have hblank (previous : Option Compiled) : compileFilter (some " ") previous = .ok none := by
    simp [compileFilter, isBlankText, Text.isBlank]
  have hthreaded : Threaded ["id = 1", " ", filter]
      [key.compile none, test.compile (some (key.compile none))] :=
    .filter (.blank (.key .start (compileKey_eq_ok_iff.mpr ⟨_, hkey, rfl⟩)) (hblank _))
      (compileFilter_eq_ok_iff.mpr ⟨_, hfilter, rfl⟩)
  have hread : g.queryRead "id = 1" ⟨none, some filter, true, none, none⟩ = .ok sent :=
    Gateway.queryRead_eq hkey (.some hfilter) (by decide)
  have hasked : .asked (.read sent) (some (.request "InternalServerError")) ∈
      (g.perform query ()).events := by
    have hperform : g.perform query = (Action.ofExcept (g.queryRead "id = 1" _) >>=
      g.readFrom none) >>= fun _ => pure Yield.nothing := rfl
    rw [hperform, hread]
    exact List.mem_cons_self
  have hexact := (placeholders_exact.1 _ _ hthreaded).1
  have hused := placeholders_exact.2 g query () _ _ hasked
  have hexpressions : (Request.read sent).expressions = expressions := by decide
  rw [hexpressions] at hused
  exact ⟨_, hthreaded, hexact, by decide, by decide, by decide, _, _, hasked, hexpressions, hused⟩

end KeyedTable
