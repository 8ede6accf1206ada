import DocQuery.Proofs.Json.Order
import DocQuery.Proofs.Predicate.Traversal

/-! Predicates up to the order of keys. Sorting the keys within a JSON value sorts those within the
operands and options of the predicate that is read from it and changes nothing else; the rules and
the translation do not look at that order. -/
namespace DocQuery

def Modifier.ordered (m : Modifier) : Modifier := { m with operand := m.operand.ordered }

namespace Predicate

mutual

/-- The same tree with the keys within its operands and options in code-point order. -/
def ordered : Predicate → Predicate
  | .conj children => .conj (orderedAll children)
  | .disj children => .disj (orderedAll children)
  | .all children => .all (orderedAll children)
  | .equal attr value => .equal attr value.ordered
  | .compare attr modifiers opts =>
      .compare attr (modifiers.map Modifier.ordered) (opts.map Dictionary.ordered)
  | .annotated inner opts => .annotated (ordered inner) opts.ordered

def orderedAll : List Predicate → List Predicate
  | [] => []
  | p :: ps => ordered p :: orderedAll ps

end

theorem orderedAll_eq_map (ps : List Predicate) : orderedAll ps = ps.map ordered := by
  induction ps with
  | nil => rfl
  | cons p ps ih => rw [orderedAll, ih, List.map_cons]

theorem ordered_isTreeMap : IsTreeMap ordered Dictionary.ordered where
  conj ps := by rw [ordered, orderedAll_eq_map]
  disj ps := by rw [ordered, orderedAll_eq_map]
  all ps := by rw [ordered, orderedAll_eq_map]
  annotated _ _ := by rw [ordered]

end Predicate

namespace Json

@[simp] theorem isScalar_ordered (v : Json) : v.ordered.isScalar = v.isScalar := by
  cases v with
  | object members =>
    have hdate := isDateLike_ordered (.object members)
    rw [ordered_object] at hdate ⊢
    exact hdate
  | _ => rfl

@[simp] theorem isOrdered_ordered (v : Json) : v.ordered.isOrdered = v.isOrdered := by
  cases v with
  | object members =>
    have hdate := isDateLike_ordered (.object members)
    rw [ordered_object] at hdate ⊢
    exact hdate
  | _ => rfl

@[simp] theorem isString_ordered (v : Json) : v.ordered.isString = v.isString := by
  cases v <;> rfl

@[simp] theorem isScalarArray_ordered (v : Json) : v.ordered.isScalarArray = v.isScalarArray := by
  cases v with
  | array items =>
    rw [ordered_array, isScalarArray, isScalarArray, List.all_map]
    exact congrArg items.all (funext isScalar_ordered)
  | _ => rfl

end Json

theorem Operator.accepts_ordered (operator : Operator) (v : Json) :
    operator.accepts v.ordered = operator.accepts v := by
  cases operator <;> simp [accepts]

theorem Modifier.validate_ordered_iff {attr : String} {m : Modifier} :
    m.ordered.validate attr = .ok () ↔ m.validate attr = .ok () := by
  rw [validate_eq_ok_iff, validate_eq_ok_iff, ordered]
  simp only [Operator.accepts_ordered, DateLike.check_ordered_iff]

/-- The rules do not look at the order of keys. -/
theorem Predicate.validate_ordered_iff (p : Predicate) :
    p.ordered.validate = .ok () ↔ p.validate = .ok () := by
  refine ordered_isTreeMap.validate_iff ?_ ?_ p
  · intro attr value
    rw [ordered, validate_equal_iff, validate_equal_iff, Json.isScalar_ordered, Json.checkDates,
      Json.checkDates, mapError_eq_ok_iff, mapError_eq_ok_iff, DateLike.check_ordered_iff]
  · intro attr ms opts
    rw [ordered, validate_compare_iff, validate_compare_iff, List.forall_mem_map]
    simp only [ne_eq, List.map_eq_nil_iff, Modifier.validate_ordered_iff]

theorem Modifier.native_ordered (m : Modifier) :
    m.ordered.native.toOption = m.native.toOption := by
  have hcomparison : ∀ native : String,
      (m.ordered.comparison native).toOption = (m.comparison native).toOption := by
    intro native
    rw [comparison, comparison, toOption_bind, toOption_bind, ordered, Bson.canonical_ordered]
  have hregex : ∀ pattern : List Char → List Char,
      (m.ordered.regex pattern).toOption = (m.regex pattern).toOption := by
    intro pattern
    have htext : m.ordered.text.toOption = m.text.toOption := by
      obtain ⟨operator, operand⟩ := m
      cases operand <;> rfl
    rw [regex, regex, toOption_bind, toOption_bind, htext]
  unfold native
  rw [show m.ordered.operator = m.operator from rfl]
  cases m.operator with
  | unrecognized token => rfl
  | like | contains | startsWith | endsWith => exact hregex _
  | _ => exact hcomparison _

namespace Filter

theorem operators_ordered (attr : String) (seen : Entries String) (ms : List Modifier) :
    (operators attr seen (ms.map Modifier.ordered)).toOption =
      (operators attr seen ms).toOption := by
  induction ms generalizing seen with
  | nil => rfl
  | cons m ms ih =>
    rw [List.map_cons, operators, operators, toOption_bind, toOption_bind, Modifier.native_ordered]
    congr 1
    funext ⟨native, value⟩
    dsimp only
    cases seen.get? native with
    | some first => rfl
    | none =>
      dsimp only
      rw [toOption_bind, toOption_bind, show m.ordered.operator = m.operator from rfl, ih]

theorem mountAll_ordered (d : Document) (opts : Option Dictionary) :
    mountAll d (opts.map Dictionary.ordered) = mountAll d opts := by
  cases opts with
  | none => rfl
  | some opts => exact Document.mount_ordered d opts

/-- The translation does not look at the order of keys. -/
theorem ofPredicate_ordered (p : Predicate) :
    (ofPredicate p.ordered).toOption = (ofPredicate p).toOption := by
  have hall : ∀ ps : List Predicate,
      (∀ p ∈ ps, (ofPredicate p.ordered).toOption = (ofPredicate p).toOption) →
      (ofPredicates (Predicate.orderedAll ps)).toOption = (ofPredicates ps).toOption := by
    intro ps h
    rw [Predicate.orderedAll_eq_map, ofPredicates_eq_mapM, ofPredicates_eq_mapM, toOption_mapM_eq h]
  induction p using Predicate.induction with
  | conj ps ih | disj ps ih | all ps ih =>
    rw [Predicate.ordered, ofPredicate, ofPredicate, toOption_map, toOption_map, hall ps ih]
  | equal attr value =>
    rw [Predicate.ordered, ofPredicate, ofPredicate, toOption_bind, toOption_bind,
      Bson.canonical_ordered]
  | compare attr ms opts =>
    rw [Predicate.ordered, ofPredicate, ofPredicate, toOption_bind, toOption_bind,
      operators_ordered]
    simp only [mountAll_ordered]
  | annotated inner opts ih =>
    rw [Predicate.ordered, ofPredicate, ofPredicate, toOption_bind, toOption_bind, ih]
    simp only [Document.mount_ordered]

end Filter

theorem readDictionary_ordered (clause : String) {v : Json} (h : v.KeysDistinct) :
    (readDictionary clause v.ordered).toOption =
      (readDictionary clause v).toOption.map Dictionary.ordered := by
  cases v with
  | object members =>
    rw [Json.ordered_object, readDictionary, readDictionary,
      Dictionary.ofList_sortedMembers (Json.keysDistinct_object_iff.1 h).1]
    rfl
  | _ => rfl

theorem readOpts_sortedMembers {members : Entries Json} (h : (Json.object members).KeysDistinct) :
    (readOpts (Json.sortedMembers members)).toOption =
      (readOpts members).toOption.map (Option.map Dictionary.ordered) := by
  rw [readOpts, readOpts, Json.get?_sortedMembers (Json.keysDistinct_object_iff.1 h).1]
  cases hopts : members.get? optsKey with
  | none => rfl
  | some v =>
    have hv := readDictionary_ordered optsKey (Json.keysDistinct_of_get? h hopts)
    rw [Option.map_some]
    dsimp only
    rw [toOption_map, toOption_map, hv, Option.map_map, Option.map_map]
    rfl

namespace Predicate

theorem sorted_clauseMembers_sortedMembers {members : Entries Json}
    (h : (Entries.keys members).Nodup) :
    Entries.sorted (clauseMembers (Json.sortedMembers members)) =
      (Entries.sorted (clauseMembers members)).map fun m => (m.1, m.2.ordered) := by
  have hnodup : (Entries.keys (Json.sortedMembers members)).Nodup :=
    Entries.keys_nodup_sorted (by simpa using h)
  rw [clauseMembers, clauseMembers, Entries.sorted_filter hnodup, Entries.sorted_filter h,
    Json.sorted_sortedMembers, Json.sortedMembers_eq_mapValues, Entries.mapValues, List.filter_map]
  rfl

theorem readModifiers_sortedMembers {members : Entries Json} (h : (Entries.keys members).Nodup) :
    readModifiers (Json.sortedMembers members) = (readModifiers members).map Modifier.ordered := by
  rw [readModifiers_eq_map, readModifiers_eq_map, sorted_clauseMembers_sortedMembers h,
    List.map_map, List.map_map]
  rfl

theorem ofAttribute_ordered (attr : String) {v : Json} (h : v.KeysDistinct) :
    (ofAttribute attr v.ordered).toOption = (ofAttribute attr v).toOption.map ordered := by
  cases v with
  | null | bool _ | number _ | string _ => rfl
  | array items =>
    rw [Json.ordered_array, ofAttribute, ofAttribute]
    simp [isIn, modifier, ordered, Modifier.ordered, Json.ordered_array]
  | object members =>
    have hdate := Json.isDateLike_ordered (.object members)
    rw [Json.ordered_object] at hdate ⊢
    rw [ofAttribute, ofAttribute, hdate]
    split
    · simp [ordered, Json.ordered_object]
    · rw [toOption_bind, toOption_bind, readOpts_sortedMembers h,
        readModifiers_sortedMembers (Json.keysDistinct_object_iff.1 h).1]
      cases (readOpts members).toOption <;> rfl

/-- Sorting the keys before reading a predicate or after it comes to the same. -/
def ReadsOrdered (v : Json) : Prop :=
  (ofJson v.ordered).toOption = (ofJson v).toOption.map ordered

theorem readClause_ordered (key : String) {v : Json} (h : v.KeysDistinct)
    (ih : ∀ items, v = .array items → ∀ item ∈ items, ReadsOrdered item) :
    (readClause key v.ordered).toOption = (readClause key v).toOption.map ordered := by
  have hattribute := ofAttribute_ordered key h
  by_cases harray : ∃ items, v = .array items
  · obtain ⟨items, rfl⟩ := harray
    rw [Json.ordered_array] at hattribute ⊢
    by_cases hkey : key = "and" ∨ key = "or"
    · exact ordered_isTreeMap.readClause_nodes hkey (ih items rfl)
    · rw [not_or] at hkey
      rw [readClause_array, readClause_array, if_neg hkey.1, if_neg hkey.2, if_neg hkey.1,
        if_neg hkey.2, hattribute]
  · have hv : ∀ items, v ≠ .array items := fun items heq => harray ⟨items, heq⟩
    rw [readClause_of_not_array (Json.ordered_ne_array hv), readClause_of_not_array hv]
    split
    · rfl
    · exact hattribute

/-- What is read from a value does not depend on the order of its keys. -/
theorem ofJson_ordered {v : Json} (h : v.KeysDistinct) : ReadsOrdered v := by
  induction v using Json.nodeInduction with
  | other v hv =>
    have hordered : ∀ members, v.ordered ≠ .object members := by
      cases v with
      | object members => exact absurd rfl (hv members)
      | _ => simp [Json.ordered]
    rw [ReadsOrdered, ofJson_of_not_object hv, ofJson_of_not_object hordered]
    rfl
  | object members ih =>
    have hnodup := (Json.keysDistinct_object_iff.1 h).1
    rw [ReadsOrdered, Json.ordered_object]
    refine ordered_isTreeMap.ofJson_object (sorted_clauseMembers_sortedMembers hnodup) ?_
      (readOpts_sortedMembers h)
    intro m hclause
    have hm := (mem_clauseMembers_iff.1 hclause).1
    have hm' := (Json.keysDistinct_object_iff.1 h).2 m hm
    apply readClause_ordered m.1 hm'
    intro items heq item hitem
    have hitems : (Json.array items).KeysDistinct := heq ▸ hm'
    exact ih m hm items heq item hitem (Json.keysDistinct_array_iff.1 hitems item hitem)

end Predicate

end DocQuery
