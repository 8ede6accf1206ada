import DocQuery.Filter
import DocQuery.Proofs.Sequencing
import DocQuery.Statement.Validity

/-! The leaves of predicate trees: conditions on one attribute each. The rules for a tree are those
for its leaves, and that no node is without children. -/
namespace DocQuery

theorem Modifier.validate_eq_ok_iff {attr : String} {m : Modifier} :
    m.validate attr = .ok () ↔ m.operator.accepts m.operand = true ∧
      (m.operator.isRecognized = true → DateLike.check m.operand = .ok ()) := by
  unfold validate Json.checkDates
  cases m.operator.accepts m.operand <;> cases m.operator.isRecognized <;>
    simp [mapError_eq_ok_iff]

namespace Predicate

@[elab_as_elim]
theorem induction {motive : Predicate → Prop}
    (conj : ∀ children, (∀ p ∈ children, motive p) → motive (.conj children))
    (disj : ∀ children, (∀ p ∈ children, motive p) → motive (.disj children))
    (all : ∀ children, (∀ p ∈ children, motive p) → motive (.all children))
    (equal : ∀ attr value, motive (.equal attr value))
    (compare : ∀ attr modifiers opts, motive (.compare attr modifiers opts))
    (annotated : ∀ inner opts, motive inner → motive (.annotated inner opts)) (p : Predicate) :
    motive p := by
  refine @Predicate.rec motive (fun ps => ∀ p ∈ ps, motive p)
    conj disj all equal compare annotated ?_ ?_ p
  · simp
  · intro p ps hp hps
    exact List.forall_mem_cons.2 ⟨hp, hps⟩

mutual

/-- The conditions on attributes at any depth, in order. -/
def leaves : Predicate → List Predicate
  | .conj children => leavesOfAll children
  | .disj children => leavesOfAll children
  | .all children => leavesOfAll children
  | .equal attr value => [.equal attr value]
  | .compare attr modifiers opts => [.compare attr modifiers opts]
  | .annotated inner _ => leaves inner

def leavesOfAll : List Predicate → List Predicate
  | [] => []
  | p :: ps => leaves p ++ leavesOfAll ps

end

/-- The attribute that a leaf is about. -/
def attribute? : Predicate → Option String
  | .equal attr _ => some attr
  | .compare attr _ _ => some attr
  | _ => none

mutual

/-- Neither a node nor a modifier map of the tree carries options. -/
def isOptsFree : Predicate → Bool
  | .conj children => areOptsFree children
  | .disj children => areOptsFree children
  | .all children => areOptsFree children
  | .equal _ _ => true
  | .compare _ _ opts => opts.isNone
  | .annotated _ _ => false

def areOptsFree : List Predicate → Bool
  | [] => true
  | p :: ps => isOptsFree p && areOptsFree ps

end

theorem leavesOfAll_eq_flatMap (ps : List Predicate) : leavesOfAll ps = ps.flatMap leaves := by
  induction ps with
  | nil => rfl
  | cons p ps ih => simp [leavesOfAll, ih]

theorem areOptsFree_eq_all (ps : List Predicate) : areOptsFree ps = ps.all isOptsFree := by
  induction ps with
  | nil => rfl
  | cons p ps ih => simp [areOptsFree, ih]

theorem validateAll_eq_ok_iff {ps : List Predicate} :
    validateAll ps = .ok () ↔ ∀ p ∈ ps, p.validate = .ok () := by
  induction ps with
  | nil => simp [validateAll]
  | cons p ps ih => rw [validateAll, andThen_eq_ok_iff, List.forall_mem_cons, ih]

theorem checkChildren_eq_ok_iff {node : String} {children : List Predicate} :
    checkChildren node children = .ok () ↔ children ≠ [] := by
  cases children <;> simp [checkChildren]

theorem checkAttribute_eq_ok_iff {attr : String} : checkAttribute attr = .ok () ↔ attr ≠ "" := by
  by_cases h : attr = "" <;> simp [checkAttribute, h]

theorem validate_conj_iff {children : List Predicate} :
    (conj children).validate = .ok () ↔
      children ≠ [] ∧ ∀ p ∈ children, p.validate = .ok () := by
  rw [validate, andThen_eq_ok_iff, checkChildren_eq_ok_iff, validateAll_eq_ok_iff]

theorem validate_disj_iff {children : List Predicate} :
    (disj children).validate = .ok () ↔
      children ≠ [] ∧ ∀ p ∈ children, p.validate = .ok () := by
  rw [validate, andThen_eq_ok_iff, checkChildren_eq_ok_iff, validateAll_eq_ok_iff]

theorem validate_all_iff {children : List Predicate} :
    (all children).validate = .ok () ↔
      children ≠ [] ∧ ∀ p ∈ children, p.validate = .ok () := by
  rw [validate, andThen_eq_ok_iff, checkChildren_eq_ok_iff, validateAll_eq_ok_iff]

theorem validate_equal_iff {attr : String} {value : Json} :
    (equal attr value).validate = .ok () ↔
      attr ≠ "" ∧ value.isScalar = true ∧ value.checkDates = .ok () := by
  rw [validate, andThen_eq_ok_iff, checkAttribute_eq_ok_iff]
  cases value.isScalar <;> simp

theorem validate_compare_iff {attr : String} {modifiers : List Modifier}
    {opts : Option Dictionary} : (compare attr modifiers opts).validate = .ok () ↔
      attr ≠ "" ∧ modifiers ≠ [] ∧ ∀ m ∈ modifiers, m.validate attr = .ok () := by
  rw [validate, andThen_eq_ok_iff, checkAttribute_eq_ok_iff]
  cases modifiers with
  | nil => simp
  | cons m ms =>
    rw [if_neg (by simp), forM_eq_ok_iff]
    simp

theorem validate_annotated_iff {inner : Predicate} {opts : Dictionary} :
    (annotated inner opts).validate = .ok () ↔ inner.validate = .ok () := by
  rw [validate]

end Predicate

namespace Filter

theorem ofPredicates_eq_mapM (ps : List Predicate) : ofPredicates ps = ps.mapM ofPredicate := by
  induction ps with
  | nil => rfl
  | cons p ps ih => rw [ofPredicates, ih, List.mapM_cons]

end Filter

end DocQuery
