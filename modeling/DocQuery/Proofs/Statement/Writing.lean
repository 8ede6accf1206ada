import DocQuery.Proofs.Compilation.Exits
import DocQuery.Proofs.Predicate.Spelling
import DocQuery.Proofs.Statement.Building
import DocQuery.Proofs.Statement.Reading
import Mathlib

/-! Statements written in JSON. A statement is read back from its JSON form but for a projection with
a star, which JSON takes for no projection. -/
namespace DocQuery

/-- A member of an object that may be left out. -/
def optionalMember (key : String) (value : Option Json) : Entries Json :=
  (value.map fun v => (key, v)).toList

@[simp] theorem get?_optionalMember (key : String) (value : Option Json) (k : String) :
    (optionalMember key value).get? k = if key = k then value else none :=
  Entries.get?_optional key value k

@[simp] theorem mem_keys_optionalMember {key k : String} {value : Option Json} :
    k ∈ (optionalMember key value).keys ↔ k = key ∧ value.isSome = true := by
  cases value <;> simp [optionalMember, Entries.keys]

/-- The largest integer of the unsigned 64-bit range. -/
def Json.maxCount : Nat := 0xFFFFFFFFFFFFFFFF

def Json.ofCount (n : Nat) : Json := ((Number.ofInt? n).map Json.number).getD .null

theorem Json.nat?_ofCount {n : Nat} (h : n ≤ maxCount) : (ofCount n).nat? = some n := by
  have hrange : -0x8000000000000000 ≤ (n : Int) ∧ (n : Int) ≤ 0xFFFFFFFFFFFFFFFF := by
    rw [maxCount] at h
    omega
  rw [ofCount, Number.ofInt?, dif_pos hrange]
  rfl

def SortEntry.toJson (e : SortEntry) : Json :=
  match e.direction with
  | .ascending => .object [(e.attr, .string "ASC")]
  | .descending => .object [(e.attr, .string "DESC")]

theorem Criteria.readSortEntry_toJson (e : SortEntry) : readSortEntry e.toJson = .ok e := by
  obtain ⟨attr, direction⟩ := e
  cases direction <;> rfl

theorem Predicate.ofJson_empty :
    ofJson (.object []) = .error (.predicateWithoutClauses (.object [])) := by
  rw [ofJson, readClauses, Entries.sorted, List.mergeSort_nil]
  rfl

namespace Criteria

/-- The members of the object that criteria are written as, given how predicates are. -/
def members (node : Predicate → Json) (c : Criteria) : Entries Json :=
  optionalMember "where" (c.filter.map node) ++
    optionalMember "sort" (c.sort.map fun entries => .array (entries.map SortEntry.toJson)) ++
    optionalMember "limit" (c.limit.map Json.ofCount) ++
    optionalMember "skip" (c.skip.map Json.ofCount) ++
    optionalMember "select" (c.select.map fun names => .array (names.map .string)) ++
    optionalMember "opts" (c.opts.map Dictionary.toJson)

/-- The same criteria without a projection that has a star among its names. -/
def starless (c : Criteria) : Criteria :=
  { c with select := c.select.filter fun names => !names.contains "*" }

/-- What criteria need in order to be written: a filter that is read back from its node, sort entries
if there is an order, and counts of 64 bits. -/
structure IsWritable (node : Predicate → Json) (c : Criteria) : Prop where
  filter : ∀ p, c.filter = some p → Predicate.ofJson (node p) = .ok p
  sort : c.sort ≠ some []
  limit : ∀ n, c.limit = some n → n ≤ Json.maxCount
  skip : ∀ n, c.skip = some n → n ≤ Json.maxCount

variable {node : Predicate → Json} {c : Criteria}

theorem readFilter_members (h : c.IsWritable node) :
    readFilter (c.members node) = .ok c.filter := by
  have hget : (c.members node).get? "where" = c.filter.map node := by
    simp [members, Entries.get?_append]
  cases hp : c.filter with
  | none => rw [readFilter, hget, hp, Option.map_none]
  | some p =>
    rw [hp, Option.map_some] at hget
    have hnode : node p ≠ .object [] := by
      intro hempty
      have hread := h.filter p hp
      rw [hempty, Predicate.ofJson_empty] at hread
      cases hread
    rw [readFilter_of_node hget hnode, h.filter p hp, map_ok]

theorem readSort_members (h : c.IsWritable node) : readSort (c.members node) = .ok c.sort := by
  have hget : (c.members node).get? "sort" =
      c.sort.map fun entries => .array (entries.map SortEntry.toJson) := by
    simp [members, Entries.get?_append]
  rw [readSort, hget]
  cases hs : c.sort with
  | none => rfl
  | some entries =>
    have hread : (entries.map SortEntry.toJson).mapM readSortEntry = .ok entries :=
      mapM_map_eq_ok fun e _ => readSortEntry_toJson e
    have hne : entries ≠ [] := fun hnil => h.sort (hnil ▸ hs)
    rw [Option.map_some]
    dsimp only
    rw [hread, ok_bind, if_neg (by simpa using hne), pure_eq_ok]

theorem readCount_of_get? {members : Entries Json} {clause : String} {count : Option Nat}
    (hget : members.get? clause = count.map Json.ofCount)
    (h : ∀ n, count = some n → n ≤ Json.maxCount) : readCount members clause = .ok count := by
  rw [readCount, hget]
  cases count with
  | none => rfl
  | some n =>
    rw [Option.map_some]
    dsimp only
    rw [Json.nat?_ofCount (h n rfl)]

theorem readSelect_members : readSelect (c.members node) = .ok c.starless.select := by
  have hget : (c.members node).get? "select" =
      c.select.map fun names => .array (names.map .string) := by
    simp [members, Entries.get?_append]
  rw [readSelect, hget, starless]
  cases c.select with
  | none => rfl
  | some names =>
    rw [Option.map_some]
    dsimp only
    rw [readProjection_eq_ok_iff]
    refine ⟨names, rfl, ?_⟩
    by_cases hstar : "*" ∈ names <;> simp [Option.filter, hstar]

/-- Criteria are read back from the object that they are written as. -/
theorem ofJson_members (h : c.IsWritable node) :
    ofJson (.object (c.members node)) = .ok c.starless := by
  rw [ofJson_eq_ok_iff, firstUnknown?_eq_none_iff]
  refine ⟨?_, readFilter_members h, readSort_members h, readCount_of_get? ?_ h.limit,
    readCount_of_get? ?_ h.skip, readSelect_members, readOpts_of_get? ?_⟩
  · intro key hkey
    simp only [members, Entries.keys_append, List.mem_append, mem_keys_optionalMember] at hkey
    simp only [clauseKeys, List.mem_cons]
    grind
  · simp [members, Entries.get?_append, starless]
  · simp [members, Entries.get?_append, starless]
  · simp [members, Entries.get?_append, starless, optsKey]

end Criteria

/-- The member that says what kind of statement it is; a find needs none. -/
def StatementKind.members : StatementKind → Entries Json
  | .find => []
  | .insert (.one record) => [("insert", record.toJson)]
  | .insert (.many records) => [("insert", .array (records.map Dictionary.toJson))]
  | .update values => [("update", values.toJson)]
  | .destroy => [("delete", .bool true)]

namespace Statement

def members (node : Predicate → Json) (s : Statement) : Entries Json :=
  ("using", .string s.collection) :: s.kind.members ++
    optionalMember "criteria" (s.criteria.map fun c => .object (c.members node)) ++
    optionalMember "opts" (s.opts.map Dictionary.toJson)

/-- A statement in JSON, given how its predicates are written. -/
def toJson (node : Predicate → Json) (s : Statement) : Json := .object (s.members node)

/-- The same statement without a projection that has a star among its names. -/
def starless (s : Statement) : Statement :=
  { s with criteria := (s.criteria.map Criteria.starless).filter fun c => !c.isEmpty }

variable {node : Predicate → Json} {s : Statement}

theorem get?_kindMembers {kind : StatementKind} {key : String} (hinsert : key ≠ "insert")
    (hupdate : key ≠ "update") (hdelete : key ≠ "delete") : kind.members.get? key = none := by
  match kind with
  | .find => rfl
  | .insert (.one _) | .insert (.many _) | .update _ | .destroy =>
    simp [StatementKind.members, Entries.get?_cons, hinsert.symm, hupdate.symm, hdelete.symm]

theorem firstUnknown?_members : firstUnknown? keys (s.members node) = none := by
  rw [firstUnknown?_eq_none_iff]
  intro key hkey
  have hkind : ∀ key ∈ s.kind.members.keys, key ∈ keys := by
    match s.kind with
    | .find | .insert (.one _) | .insert (.many _) | .update _ | .destroy =>
      simp [StatementKind.members, keys]
  simp only [members, List.cons_append, Entries.keys_cons, Entries.keys_append, List.mem_cons,
    List.mem_append, mem_keys_optionalMember] at hkey
  rcases hkey with rfl | (hkey | ⟨rfl, -⟩) | ⟨rfl, -⟩
  · simp [keys]
  · exact hkind key hkey
  · simp [keys]
  · simp [keys]

theorem get?_members_of_kindKey {key : String} (hkey : key ∈ kindKeys) :
    (s.members node).get? key = s.kind.members.get? key := by
  simp only [kindKeys, List.mem_cons, List.not_mem_nil, or_false] at hkey
  rcases hkey with rfl | rfl | rfl | rfl <;>
    simp [members, Entries.get?_cons, Entries.get?_append]

theorem readKind_members (criteria : Option Criteria) :
    readKind (s.members node) criteria = .ok (s.kind, criteria) := by
  rw [readKind, get?_members_of_kindKey (by decide), get?_members_of_kindKey (by decide),
    get?_members_of_kindKey (by decide), get?_members_of_kindKey (by decide)]
  match s.kind with
  | .find => rfl
  | .insert (.one record) =>
    simp [StatementKind.members, Entries.get?_cons, readRecords, Dictionary.toJson]
  | .insert (.many records) =>
    have hread : (records.map Dictionary.toJson).mapM (readDictionary "insert") = .ok records :=
      mapM_map_eq_ok fun record _ => by
        rw [Dictionary.toJson, readDictionary, Dictionary.ofList_entries]
    simp [StatementKind.members, Entries.get?_cons, readRecords, hread]
  | .update values =>
    simp [StatementKind.members, Entries.get?_cons, readDictionary, Dictionary.toJson]
  | .destroy => simp [StatementKind.members, Entries.get?_cons, readDelete]

theorem not_severalKinds_members :
    ¬ 1 < (kindKeys.filter (Entries.hasKey (s.members node))).length := by
  have hkinds : kindKeys.filter (Entries.hasKey (s.members node)) =
      kindKeys.filter (Entries.hasKey s.kind.members) := by
    apply List.filter_congr
    intro key hkey
    rw [Bool.eq_iff_iff, Entries.hasKey_iff, Entries.hasKey_iff, get?_members_of_kindKey hkey]
  rw [hkinds]
  match s.kind with
  | .find | .insert (.one _) | .insert (.many _) | .update _ | .destroy =>
    simp [StatementKind.members, kindKeys, Entries.hasKey]

/-- A statement is read back from its JSON form, but for a projection with a star. -/
theorem ofJson_toJson (h : ∀ c, s.criteria = some c → c.IsWritable node) :
    ofJson (s.toJson node) = .ok s.starless := by
  have hcriteria : readCriteria (s.members node) = .ok (s.criteria.map Criteria.starless) := by
    have hget : (s.members node).get? "criteria" =
        s.criteria.map fun c => .object (c.members node) := by
      simp [members, Entries.get?_cons, Entries.get?_append, get?_kindMembers]
    rw [readCriteria, hget]
    cases hc : s.criteria with
    | none => rfl
    | some c => simp [Criteria.ofJson_members (h c hc)]
  have hopts : (s.members node).get? optsKey = s.opts.map Dictionary.toJson := by
    simp [members, Entries.get?_cons, Entries.get?_append, get?_kindMembers, optsKey]
  rw [toJson, ofJson_eq_ok_iff]
  exact ⟨firstUnknown?_members, not_severalKinds_members, rfl, readOpts_of_get? hopts,
    _, _, hcriteria, readKind_members _, rfl⟩

section OfClauses

variable {collection : String} {kind : StatementKind} {clauses : List Clause}

/-- Criteria that clauses describe can be written if the filters and the counts among these can. -/
theorem isWritable_ofClauses
    (hnode : ∀ p, .filter p ∈ clauses → Predicate.ofJson (node p) = .ok p)
    (hcounts : ∀ n, .limit n ∈ clauses ∨ .skip n ∈ clauses → n ≤ Json.maxCount) :
    (Criteria.ofClauses clauses).IsWritable node where
  filter p hp := by
    obtain ⟨clause, hclause, hpart⟩ := exists_of_lastSet hp
    cases clause with
    | filter q =>
      cases hpart
      exact hnode _ hclause
    | _ => cases hpart
  sort := by
    rw [Criteria.ofClauses]
    cases clauses.filterMap Clause.sort? <;> simp [Option.filter]
  limit n hn := by
    obtain ⟨clause, hclause, hpart⟩ := exists_of_lastSet hn
    cases clause with
    | limit m =>
      cases hpart
      exact hcounts _ (.inl hclause)
    | _ => cases hpart
  skip n hn := by
    obtain ⟨clause, hclause, hpart⟩ := exists_of_lastSet hn
    cases clause with
    | skip m =>
      cases hpart
      exact hcounts _ (.inr hclause)
    | _ => cases hpart

theorem criteria_ofClauses_eq_some {c : Criteria}
    (h : (ofClauses collection kind clauses).criteria = some c) :
    c = Criteria.ofClauses clauses ∧ c.isEmpty = false := by
  rw [ofClauses] at h
  dsimp only at h
  split at h
  · next hany =>
    cases h
    refine ⟨rfl, ?_⟩
    rw [← Bool.not_eq_true, Criteria.isEmpty_ofClauses_iff]
    exact fun hnone => hnone hany
  · cases h

/-- Without a star, nothing is left out when a built statement is written. -/
theorem starless_ofClauses
    (hstar : ∀ names, lastSet Clause.select? clauses = some names → "*" ∉ names) :
    (ofClauses collection kind clauses).starless = ofClauses collection kind clauses := by
  have hselect : (Criteria.ofClauses clauses).starless = Criteria.ofClauses clauses := by
    have hkept : (lastSet Clause.select? clauses).filter (fun names => !names.contains "*") =
        lastSet Clause.select? clauses := by
      cases hnames : lastSet Clause.select? clauses with
      | none => rfl
      | some names => simp [Option.filter, hstar names hnames]
    rw [Criteria.starless]
    simp only [Criteria.ofClauses, hkept]
  have hcriteria : ((ofClauses collection kind clauses).criteria.map Criteria.starless).filter
      (fun c => !c.isEmpty) = (ofClauses collection kind clauses).criteria := by
    cases hc : (ofClauses collection kind clauses).criteria with
    | none => rfl
    | some c =>
      obtain ⟨rfl, hnonempty⟩ := criteria_ofClauses_eq_some hc
      rw [Option.map_some, hselect, Option.filter, hnonempty]
      rfl
  rw [starless, hcriteria]

end OfClauses

end Statement

namespace NativeQuery

theorem outcome_of_read {v : Json} {s : Statement} (h : Statement.ofJson v = .ok s)
    (context : Option Dictionary) :
    (compile v (context.map Dictionary.toJson)).outcome =
      (ofStatement s).mapError Error.kind := by
  rw [compile_eq_exit, outcome_exit, ofJson, h]
  rfl

/-- The JSON form of a built statement compiles as the statement does, up to a projection with a star,
which has an effect in the statement alone. -/
theorem compile_built {node : Predicate → Json} {collection : String} {kind : StatementKind}
    {clauses : List Clause} (hnode : ∀ p, .filter p ∈ clauses → Predicate.ofJson (node p) = .ok p)
    (hcounts : ∀ n, .limit n ∈ clauses ∨ .skip n ∈ clauses → n ≤ Json.maxCount)
    (context : Option Dictionary) :
    let built := (Statement.start collection kind).addAll clauses
    let written := (Statement.ofClauses collection kind clauses).toJson node
    let outcome := (compile written (context.map Dictionary.toJson)).outcome
    outcome = (ofStatement built.starless).mapError Error.kind ∧
      ((∀ names, lastSet Clause.select? clauses = some names → "*" ∉ names) →
        outcome = (ofStatement built).mapError Error.kind) := by
  intro built written outcome
  have hbuilt : built = Statement.ofClauses collection kind clauses :=
    Statement.addAll_start clauses
  have hread : Statement.ofJson written = .ok built.starless := by
    rw [hbuilt]
    apply Statement.ofJson_toJson
    intro c hc
    rw [(Statement.criteria_ofClauses_eq_some hc).1]
    exact Statement.isWritable_ofClauses hnode hcounts
  have houtcome : outcome = (ofStatement built.starless).mapError Error.kind :=
    outcome_of_read hread context
  refine ⟨houtcome, fun hstar => ?_⟩
  rw [houtcome, hbuilt, Statement.starless_ofClauses hstar]

/-- A limit and a projection that are set twice, around a condition and an order. -/
def searchClauses : List Clause :=
  [.limit 10, .filter (.gt "age" (.string "18")), .select ["*"], .sort "name" .descending,
    .limit 5, .select ["name"], .opts .empty]

theorem search_built :
    ((∀ p, .filter p ∈ searchClauses → Predicate.ofJson p.spelling = .ok p) ∧
      (∀ n, .limit n ∈ searchClauses ∨ .skip n ∈ searchClauses → n ≤ Json.maxCount) ∧
      ∀ names, lastSet Clause.select? searchClauses = some names → "*" ∉ names) ∧
    (compile ((Statement.ofClauses "people" .find searchClauses).toJson Predicate.spelling)
      none).outcome =
        (ofStatement ((Statement.start "people" .find).addAll searchClauses)).mapError Error.kind := by
  have hnode : ∀ p, .filter p ∈ searchClauses → Predicate.ofJson p.spelling = .ok p := by
    intro p hp
    obtain rfl : p = .gt "age" (.string "18") := by simpa [searchClauses] using hp
    cbv
  have hcounts : ∀ n, .limit n ∈ searchClauses ∨ .skip n ∈ searchClauses → n ≤ Json.maxCount := by
    intro n hn
    have hten : n = 10 ∨ n = 5 := by simpa [searchClauses] using hn
    rcases hten with rfl | rfl <;> decide
  have hstar : ∀ names, lastSet Clause.select? searchClauses = some names → "*" ∉ names := by
    rintro names ⟨⟩
    decide
  exact ⟨⟨hnode, hcounts, hstar⟩, (compile_built hnode hcounts none).2 hstar⟩

/-- A built projection with a star asks for an attribute of that name; the JSON form of the statement
has no projection. -/
theorem star_projected_when_built :
    (ofStatement ((Statement.start "people" .find).addAll [.select ["*"]])).mapError Error.kind =
      .ok ⟨"people", .find, [("projection", .document [("*", .int32 1)])]⟩ ∧
    (compile ((Statement.ofClauses "people" .find [.select ["*"]]).toJson Predicate.spelling)
      none).outcome = .ok ⟨"people", .find, []⟩ := by
  constructor <;> cbv

end NativeQuery

end DocQuery
