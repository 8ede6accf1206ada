import DocQuery.Predicate.Reading
import DocQuery.Proofs.Entries

/-! The reader of predicates as a traversal of lists. -/
namespace DocQuery

theorem readOpts_congr {members members' : Entries Json}
    (h : members'.get? optsKey = members.get? optsKey) : readOpts members' = readOpts members := by
  rw [readOpts, readOpts, h]

namespace Predicate

theorem ofItems_eq_mapM (items : List Json) : ofItems items = items.mapM ofJson := by
  induction items with
  | nil => rfl
  | cons item items ih => rw [ofItems, ih, List.mapM_cons]

theorem readClause_array {key : String} {items : List Json} :
    readClause key (.array items) =
      if key = "and" then .conj <$> items.mapM ofJson
      else if key = "or" then .disj <$> items.mapM ofJson
      else ofAttribute key (.array items) := by
  rw [readClause, ofItems_eq_mapM]

theorem readClause_of_not_array {key : String} {v : Json} (h : ∀ items, v ≠ .array items) :
    readClause key v =
      if key = "and" ∨ key = "or" then .error (.notPredicates key v) else ofAttribute key v := by
  cases v with
  | array items => exact absurd rfl (h items)
  | _ => rfl

theorem ofJson_of_not_object {v : Json} (h : ∀ members, v ≠ .object members) :
    ofJson v = .error (.predicateNotDictionary v) := by
  cases v with
  | object members => exact absurd rfl (h members)
  | _ => rfl

/-- The members of an object that are no options. -/
def clauseMembers (members : Entries Json) : Entries Json :=
  members.filter fun m => m.1 != optsKey

theorem mem_clauseMembers_iff {members : Entries Json} {m : String × Json} :
    m ∈ clauseMembers members ↔ m ∈ members ∧ m.1 ≠ optsKey := by
  rw [clauseMembers, List.mem_filter, bne_iff_ne]

theorem clauseMembers_eq_nil_iff {members : Entries Json} :
    clauseMembers members = [] ↔ ∀ m ∈ members, m.1 = optsKey := by
  simp [clauseMembers]

theorem readModifiers_eq_map (members : Entries Json) :
    readModifiers members =
      (Entries.sorted (clauseMembers members)).map fun m => ⟨.ofToken m.1, m.2⟩ := rfl

theorem readClauses_eq_map (members : Entries Json) :
    readClauses members = (clauseMembers members).map fun m => (m.1, readClause m.1 m.2) := by
  induction members with
  | nil => rfl
  | cons m members ih =>
    rw [readClauses, clauseMembers, List.filter_cons, ← clauseMembers]
    by_cases hkey : m.1 = optsKey
    · simp [hkey, ih]
    · simp [hkey, ih]

/-- The clauses of a node, one after the other in the order of their keys. -/
theorem sequence_readClauses (members : Entries Json) :
    (Entries.sorted (readClauses members)).sequence =
      (Entries.sorted (clauseMembers members)).mapM fun m =>
        (fun p => (m.1, p)) <$> readClause m.1 m.2 := by
  have hsorted := Entries.sorted_map (f := fun m => (m.1, readClause m.1 m.2)) (fun _ => rfl)
    (clauseMembers members)
  rw [readClauses_eq_map, hsorted, Entries.sequence_eq_mapM, List.mapM_map]
  rfl

end Predicate

end DocQuery
