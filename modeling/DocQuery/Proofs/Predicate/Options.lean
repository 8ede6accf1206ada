import DocQuery.Proofs.Filter.Support
import DocQuery.Proofs.Json.Structure
import DocQuery.Proofs.Predicate.Traversal
import Mathlib.Data.List.Basic

/-! What the options within a predicate hold does not count. Clearing them before a predicate is
read is clearing them afterwards, and neither the rules nor the operators that MongoDB lacks look at
them. -/
namespace DocQuery

def Dictionary.cleared (_ : Dictionary) : Dictionary := .empty

namespace Json

/-- Options without their contents. What is no dictionary stays as it is. -/
def clearedOpts : Json → Json
  | .object _ => .object []
  | other => other

/-- The members of an object with its options cleared and a change to each other one. -/
def clearMembers (change : String → Json → Json) (members : Entries Json) : Entries Json :=
  members.map fun m => (m.1, if m.1 = optsKey then m.2.clearedOpts else change m.1 m.2)

/-- Modifiers with the options among them cleared. -/
def clearModifiers (members : Entries Json) : Entries Json := clearMembers (fun _ v => v) members

mutual

/-- A predicate node with the options of the nodes and modifiers within it cleared, at any depth. -/
def clearNode : Json → Json
  | .object members => .object (clearClauses members)
  | other => other

def clearClauses : List (String × Json) → Entries Json
  | [] => []
  | (key, value) :: members =>
      (key, if key = optsKey then value.clearedOpts else clearClause key value) ::
        clearClauses members

/-- Arrays of nodes stand under two keys only. -/
def clearClause (key : String) : Json → Json
  | .array items => if key = "and" ∨ key = "or" then .array (clearNodes items) else .array items
  | .object members => .object (clearModifiers members)
  | other => other

def clearNodes : List Json → List Json
  | [] => []
  | item :: items => clearNode item :: clearNodes items

end

theorem clearNodes_eq_map (items : List Json) : clearNodes items = items.map clearNode := by
  induction items with
  | nil => rfl
  | cons item items ih => rw [clearNodes, ih, List.map_cons]

theorem clearNode_object (members : List (String × Json)) :
    clearNode (.object members) = .object (clearMembers clearClause members) := by
  rw [clearNode]
  congr 1
  induction members with
  | nil => rfl
  | cons m members ih => rw [clearClauses, ih, clearMembers, clearMembers, List.map_cons]

theorem clearNode_of_not_object {v : Json} (h : ∀ members, v ≠ .object members) :
    v.clearNode = v := by
  cases v with
  | object members => exact absurd rfl (h members)
  | _ => rfl

theorem clearClause_of_plain {key : String} {v : Json} (harray : ∀ items, v ≠ .array items)
    (hobject : ∀ members, v ≠ .object members) : clearClause key v = v := by
  cases v with
  | array items => exact absurd rfl (harray items)
  | object members => exact absurd rfl (hobject members)
  | _ => rfl

section Members

variable (change : String → Json → Json) (members : Entries Json)

@[simp] theorem keys_clearMembers :
    Entries.keys (clearMembers change members) = Entries.keys members := by
  simp [clearMembers, Entries.keys, Function.comp_def]

theorem get?_clearMembers (key : String) : (clearMembers change members).get? key =
    (members.get? key).map fun v => if key = optsKey then v.clearedOpts else change key v := by
  induction members with
  | nil => rfl
  | cons m members ih =>
    obtain ⟨k, v⟩ := m
    rw [clearMembers, List.map_cons, ← clearMembers, Entries.get?_cons, Entries.get?_cons, ih]
    split
    · next hkey =>
      subst hkey
      rfl
    · rfl

variable {members}

theorem get?_opts_clearMembers :
    (clearMembers change members).get? optsKey = (members.get? optsKey).map clearedOpts := by
  simp [get?_clearMembers]

theorem get?_clearMembers_of_ne {key : String} (hkey : key ≠ optsKey) :
    (clearMembers change members).get? key = (members.get? key).map (change key) := by
  simp [get?_clearMembers, hkey]

variable (members)

theorem clauseMembers_clearMembers : Predicate.clauseMembers (clearMembers change members) =
    (Predicate.clauseMembers members).map fun m => (m.1, change m.1 m.2) := by
  rw [Predicate.clauseMembers, Predicate.clauseMembers, clearMembers, List.filter_map]
  apply List.map_congr_left
  intro m hm
  rw [if_neg (by simpa using (List.mem_filter.1 hm).2)]

theorem sorted_clauseMembers_clearMembers :
    Entries.sorted (Predicate.clauseMembers (clearMembers change members)) =
      (Entries.sorted (Predicate.clauseMembers members)).map fun m => (m.1, change m.1 m.2) := by
  have hsorted := Entries.sorted_map (f := fun m => (m.1, change m.1 m.2)) (fun _ => rfl)
    (Predicate.clauseMembers members)
  rw [clauseMembers_clearMembers, hsorted]

end Members

theorem date?_clearModifiers (members : List (String × Json)) :
    date? (.object (clearModifiers members)) = date? (.object members) := by
  match members with
  | [] => rfl
  | [(key, value)] =>
    by_cases hkey : key = optsKey
    · subst hkey
      rfl
    · simp [clearModifiers, clearMembers, hkey]
  | _ :: _ :: _ => rfl

end Json

theorem readOpts_clearMembers (change : String → Json → Json) (members : Entries Json) :
    (readOpts (Json.clearMembers change members)).toOption =
      (readOpts members).toOption.map (Option.map Dictionary.cleared) := by
  rw [readOpts, readOpts, Json.get?_opts_clearMembers]
  cases members.get? optsKey with
  | none => rfl
  | some v => cases v <;> rfl

namespace Predicate

mutual

/-- The same tree with all of its options cleared. -/
def cleared : Predicate → Predicate
  | .conj children => .conj (clearedAll children)
  | .disj children => .disj (clearedAll children)
  | .all children => .all (clearedAll children)
  | .equal attr value => .equal attr value
  | .compare attr modifiers opts => .compare attr modifiers (opts.map Dictionary.cleared)
  | .annotated inner opts => .annotated (cleared inner) opts.cleared

def clearedAll : List Predicate → List Predicate
  | [] => []
  | p :: ps => cleared p :: clearedAll ps

end

theorem clearedAll_eq_map (ps : List Predicate) : clearedAll ps = ps.map cleared := by
  induction ps with
  | nil => rfl
  | cons p ps ih => rw [clearedAll, ih, List.map_cons]

theorem cleared_isTreeMap : IsTreeMap cleared Dictionary.cleared where
  conj ps := by rw [cleared, clearedAll_eq_map]
  disj ps := by rw [cleared, clearedAll_eq_map]
  all ps := by rw [cleared, clearedAll_eq_map]
  annotated _ _ := by rw [cleared]

theorem ofAttribute_clearModifiers (attr : String) (members : List (String × Json)) :
    (ofAttribute attr (.object (Json.clearModifiers members))).toOption =
      (ofAttribute attr (.object members)).toOption.map cleared := by
  have hdate := Json.date?_clearModifiers members
  rw [ofAttribute, ofAttribute, Json.isDateLike, Json.isDateLike, hdate]
  split
  · next hlike =>
    obtain ⟨inner, hinner⟩ := Option.isSome_iff_exists.1 hlike
    have hsame := Json.date?_eq_some_iff.1 (hdate.trans hinner)
    rw [hsame, Json.date?_eq_some_iff.1 hinner]
    rfl
  · have hmodifiers : readModifiers (Json.clearModifiers members) = readModifiers members := by
      rw [readModifiers_eq_map, readModifiers_eq_map, Json.clearModifiers,
        Json.sorted_clauseMembers_clearMembers, List.map_map]
      rfl
    rw [toOption_bind, toOption_bind, hmodifiers, Json.clearModifiers, readOpts_clearMembers]
    cases (readOpts members).toOption <;> rfl

theorem ofAttribute_of_not_object {attr : String} {v : Json}
    (h : ∀ members, v ≠ .object members) :
    (ofAttribute attr v).toOption.map cleared = (ofAttribute attr v).toOption := by
  cases v with
  | object members => exact absurd rfl (h members)
  | _ => rfl

/-- Options may be cleared before a node is read or after it. -/
def ReadsCleared (v : Json) : Prop :=
  (ofJson v.clearNode).toOption = (ofJson v).toOption.map cleared

theorem readClause_clearClause (key : String) {v : Json}
    (ih : ∀ items, v = .array items → ∀ item ∈ items, ReadsCleared item) :
    (readClause key (Json.clearClause key v)).toOption =
      (readClause key v).toOption.map cleared := by
  cases v with
  | array items =>
    by_cases hkey : key = "and" ∨ key = "or"
    · rw [Json.clearClause, if_pos hkey, Json.clearNodes_eq_map]
      exact cleared_isTreeMap.readClause_nodes hkey (ih items rfl)
    · rw [Json.clearClause, if_neg hkey, readClause_array]
      rw [not_or] at hkey
      rw [if_neg hkey.1, if_neg hkey.2, ofAttribute_of_not_object (by simp)]
  | object members =>
    rw [Json.clearClause, readClause_of_not_array (by simp), readClause_of_not_array (by simp)]
    split
    · rfl
    · exact ofAttribute_clearModifiers key members
  | _ =>
    rw [Json.clearClause_of_plain (by simp) (by simp), readClause_of_not_array (by simp)]
    split
    · rfl
    · exact (ofAttribute_of_not_object (by simp)).symm

theorem ofJson_clearNode (v : Json) : ReadsCleared v := by
  induction v using Json.nodeInduction with
  | other v hv =>
    rw [ReadsCleared, Json.clearNode_of_not_object hv, ofJson_of_not_object hv]
    rfl
  | object members ih =>
    rw [ReadsCleared, Json.clearNode_object]
    refine cleared_isTreeMap.ofJson_object (Json.sorted_clauseMembers_clearMembers _ members) ?_
      (readOpts_clearMembers _ members)
    intro m hm
    exact readClause_clearClause m.1 (ih m (mem_clauseMembers_iff.1 hm).1)

theorem validate_cleared_iff (p : Predicate) : p.cleared.validate = .ok () ↔ p.validate = .ok () := by
  refine cleared_isTreeMap.validate_iff (fun _ _ => Iff.rfl) ?_ p
  intro attr ms opts
  rw [cleared, validate_compare_iff, validate_compare_iff]

theorem leaves_cleared (p : Predicate) : p.cleared.leaves = p.leaves.map cleared := by
  induction p using Predicate.induction with
  | conj ps ih | disj ps ih | all ps ih =>
    rw [cleared, leaves, leaves, leavesOfAll_eq_flatMap, leavesOfAll_eq_flatMap, clearedAll_eq_map,
      List.flatMap_map, List.map_flatMap]
    exact List.flatMap_congr ih
  | equal attr value | compare attr ms opts => rfl
  | annotated inner opts ih => exact ih

theorem isExpressible_cleared_iff (p : Predicate) : p.cleared.IsExpressible ↔ p.IsExpressible := by
  cases p <;> rfl

/-- What MongoDB can express of a predicate does not depend on its options. -/
theorem leaves_cleared_expressible_iff (p : Predicate) :
    (∀ q ∈ p.cleared.leaves, q.IsExpressible) ↔ ∀ q ∈ p.leaves, q.IsExpressible := by
  rw [leaves_cleared, List.forall_mem_map]
  simp only [isExpressible_cleared_iff]

end Predicate

end DocQuery
