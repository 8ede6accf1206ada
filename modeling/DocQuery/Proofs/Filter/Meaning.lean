import DocQuery.Proofs.Entries
import DocQuery.Proofs.Predicate.Leaves

/-! The meaning of predicate trees and of filter documents over an arbitrary reading of atomic
conditions. A tree and its translation mean the same: no condition is lost when siblings share a
document or fall back to `$and`. -/
namespace DocQuery

/-- A reading of atomic conditions: whether an attribute stands in the relation of a native operator
to an operand. -/
abbrev Interpretation := String → String → Bson → Bool

namespace Predicate

mutual

/-- The truth of a tree, if all of its operands have a native form. -/
def truth (J : Interpretation) : Predicate → Except Error Bool
  | .conj children => do return (← truths J children).all id
  | .disj children => do return (← truths J children).any id
  | .all children => do return (← truths J children).all id
  | .equal attr value => do return J attr "$eq" (← Bson.canonical value)
  | .compare attr modifiers _ => do
      let conditions ← modifiers.mapM Modifier.native
      return conditions.all fun c => J attr c.1 c.2
  | .annotated inner _ => truth J inner

def truths (J : Interpretation) : List Predicate → Except Error (List Bool)
  | [] => .ok []
  | p :: ps => do
      let b ← truth J p
      let bs ← truths J ps
      return b :: bs

end

theorem truths_eq_mapM (J : Interpretation) (ps : List Predicate) :
    truths J ps = ps.mapM (truth J) := by
  induction ps with
  | nil => rfl
  | cons p ps ih => rw [truths, ih, List.mapM_cons]

end Predicate

namespace Filter

mutual

/-- A filter document is the conjunction of its entries. -/
def holds (J : Interpretation) : List (String × Bson) → Bool
  | [] => true
  | (key, value) :: entries => entryHolds J key value && holds J entries

/-- `$and` and `$or` join the documents of their array. Any other key is an attribute, with an
operator document or a value that it equals. -/
def entryHolds (J : Interpretation) (key : String) : Bson → Bool
  | .array items =>
      if key = "$and" then allHold J items
      else if key = "$or" then anyHolds J items
      else J key "$eq" (.array items)
  | .document operators => operators.all fun o => J key o.1 o.2
  | value => J key "$eq" value

def itemHolds (J : Interpretation) : Bson → Bool
  | .document entries => holds J entries
  | _ => false

def allHold (J : Interpretation) : List Bson → Bool
  | [] => true
  | item :: items => itemHolds J item && allHold J items

def anyHolds (J : Interpretation) : List Bson → Bool
  | [] => false
  | item :: items => itemHolds J item || anyHolds J items

end

variable {J : Interpretation}

theorem holds_append (d e : Document) : holds J (d ++ e) = (holds J d && holds J e) := by
  induction d with
  | nil => simp [holds]
  | cons entry d ih => simp [holds, ih, Bool.and_assoc]

theorem holds_flatten (ds : List Document) : holds J ds.flatten = ds.all (holds J) := by
  induction ds with
  | nil => simp [holds]
  | cons d ds ih => simp [holds_append, ih]

theorem allHold_documents (ds : List Document) :
    allHold J (ds.map .document) = ds.all (holds J) := by
  induction ds with
  | nil => simp [allHold]
  | cons d ds ih => simp [allHold, itemHolds, ih]

theorem anyHolds_documents (ds : List Document) :
    anyHolds J (ds.map .document) = ds.any (holds J) := by
  induction ds with
  | nil => simp [anyHolds]
  | cons d ds ih => simp [anyHolds, itemHolds, ih]

theorem holds_conjunction (ds : List Document) : holds J (conjunction ds) = ds.all (holds J) := by
  simp [conjunction, holds, entryHolds, allHold_documents]

theorem holds_disjunction (ds : List Document) : holds J (disjunction ds) = ds.any (holds J) := by
  simp [disjunction, holds, entryHolds, anyHolds_documents]

theorem merge?_eq_some {merged result : Document} {ds : List Document}
    (h : merge? merged ds = some result) : result = merged ++ ds.flatten := by
  induction ds generalizing merged with
  | nil => simpa [merge?] using h.symm
  | cons d ds ih =>
    rw [merge?] at h
    split at h
    · cases h
    · simpa using ih h

/-- Siblings either share a document or are listed. -/
theorem joinAll_eq_or (ds : List Document) : joinAll ds = ds.flatten ∨ joinAll ds = conjunction ds := by
  unfold joinAll
  cases h : merge? [] ds with
  | none => exact .inr rfl
  | some d => exact .inl (merge?_eq_some h)

/-- Whether siblings share a document or not, all of them must hold. -/
theorem holds_joinAll (ds : List Document) : holds J (joinAll ds) = ds.all (holds J) := by
  rcases joinAll_eq_or ds with h | h
  · rw [h, holds_flatten]
  · rw [h, holds_conjunction]

/-- Each modifier of an attribute leaves exactly its own entry in the operator document. -/
theorem operators_eq_ok {attr : String} {seen : Entries String} {ms : List Modifier} {d : Document}
    (h : operators attr seen ms = .ok d) : ms.mapM Modifier.native = .ok d := by
  induction ms generalizing seen d with
  | nil =>
    cases h
    rfl
  | cons m ms ih =>
    rw [operators, bind_eq_ok_iff] at h
    obtain ⟨⟨native, value⟩, hm, h⟩ := h
    cases hseen : seen.get? native with
    | some first => simp [hseen] at h
    | none =>
      simp only [hseen, bind_eq_ok_iff] at h
      obtain ⟨rest, hrest, h⟩ := h
      cases h
      rw [List.mapM_cons, hm, ok_bind, ih hrest]
      rfl

/-- No native operator comes twice, among those that were seen before or after them. -/
theorem operators_keys_nodup {attr : String} {seen : Entries String} {ms : List Modifier}
    {d : Document} (h : operators attr seen ms = .ok d) :
    (Entries.keys d).Nodup ∧ ∀ key ∈ Entries.keys d, key ∉ Entries.keys seen := by
  induction ms generalizing seen d with
  | nil =>
    cases h
    simp
  | cons m ms ih =>
    rw [operators, bind_eq_ok_iff] at h
    obtain ⟨⟨native, value⟩, hm, h⟩ := h
    cases hseen : seen.get? native with
    | some first => simp [hseen] at h
    | none =>
      simp only [hseen, bind_eq_ok_iff] at h
      obtain ⟨rest, hrest, h⟩ := h
      cases h
      obtain ⟨hnodup, hfresh⟩ := ih hrest
      have hnative : native ∉ Entries.keys rest := by
        intro hmem
        apply hfresh native hmem
        simp [Entries.keys]
      refine ⟨List.nodup_cons.2 ⟨hnative, hnodup⟩, List.forall_mem_cons.2 ⟨?_, ?_⟩⟩
      · exact Entries.get?_eq_none_iff.1 hseen
      · intro key hkey hold
        apply hfresh key hkey
        rw [Entries.keys, List.map_append]
        exact List.mem_append_left _ hold

theorem merge?_keys_nodup {merged result : Document} {ds : List Document}
    (hmerged : (Entries.keys merged).Nodup) (hds : ∀ d ∈ ds, (Entries.keys d).Nodup)
    (h : merge? merged ds = some result) : (Entries.keys result).Nodup := by
  induction ds generalizing merged with
  | nil =>
    cases h
    exact hmerged
  | cons d ds ih =>
    rw [List.forall_mem_cons] at hds
    rw [merge?] at h
    split at h
    · cases h
    · next hfree =>
      apply ih ?_ hds.2 h
      have hdisjoint : ∀ key ∈ Entries.keys d, key ∉ Entries.keys merged := by
        simpa [Entries.hasKey] using hfree
      rw [Entries.keys, List.map_append]
      refine List.nodup_append.2 ⟨hmerged, hds.1, ?_⟩
      rintro key hold _ hkey rfl
      exact hdisjoint key hkey hold

/-- A filter document has distinct keys, so that writing it key by key loses no condition. -/
theorem ofPredicate_keys_nodup {p : Predicate} {d : Document} (h : ofPredicate p = .ok d) :
    (Entries.keys d).Nodup := by
  induction p using Predicate.induction generalizing d with
  | conj ps ih | disj ps ih =>
    rw [ofPredicate, map_eq_ok_iff] at h
    obtain ⟨ds, -, rfl⟩ := h
    simp [conjunction, disjunction]
  | all ps ih =>
    rw [ofPredicate, map_eq_ok_iff] at h
    obtain ⟨ds, hds, rfl⟩ := h
    unfold joinAll
    cases hmerge : merge? [] ds with
    | none => simp [conjunction]
    | some d =>
      rw [ofPredicates_eq_mapM] at hds
      have hall : ∀ d ∈ ds, (Entries.keys d).Nodup :=
        forall_of_mapM hds fun p hp d hd => ih p hp hd
      exact merge?_keys_nodup (by simp) hall hmerge
  | equal attr value =>
    rw [ofPredicate, bind_eq_ok_iff] at h
    obtain ⟨b, -, h⟩ := h
    cases h
    simp
  | compare attr ms opts =>
    rw [ofPredicate, bind_eq_ok_iff] at h
    obtain ⟨b, -, h⟩ := h
    cases h
    simp
  | annotated inner opts ih =>
    rw [ofPredicate, bind_eq_ok_iff] at h
    obtain ⟨inner', hinner, h⟩ := h
    cases h
    exact Entries.keys_nodup_insertAll (ih hinner) _

theorem ofInt_scalar (i : Int) :
    (Bson.ofInt i).document? = none ∧ (Bson.ofInt i).array? = none := by
  unfold Bson.ofInt
  split
  · exact ⟨rfl, rfl⟩
  · split <;> exact ⟨rfl, rfl⟩

/-- A scalar never becomes a document or an array, so an equality is not taken for operators. -/
theorem canonical_scalar {value : Json} {b : Bson} (hs : value.isScalar = true)
    (hb : Bson.canonical value = .ok b) : b.document? = none ∧ b.array? = none := by
  cases value with
  | null | bool _ | string _ =>
    cases hb
    exact ⟨rfl, rfl⟩
  | number n =>
    cases n with
    | int i h =>
      rw [Bson.canonical, Bson.exact] at hb
      split at hb
      · cases hb
      · cases hb
        exact ofInt_scalar i
    | float x =>
      cases hb
      exact ⟨rfl, rfl⟩
  | array items => cases hs
  | object members =>
    rw [Json.isScalar, Json.isDateLike, Option.isSome_iff_exists] at hs
    obtain ⟨inner, hinner⟩ := hs
    simp only [Bson.canonical, hinner, bind_eq_ok_iff] at hb
    obtain ⟨t, -, hb⟩ := hb
    cases hb
    exact ⟨rfl, rfl⟩

theorem entryHolds_of_not_document {attr : String} {b : Bson} (hand : attr ≠ "$and")
    (hor : attr ≠ "$or") (hb : b.document? = none) :
    entryHolds J attr b = J attr "$eq" b := by
  cases b with
  | array items => simp [entryHolds, hand, hor]
  | document d => cases hb
  | _ => simp [entryHolds]

/-- Keys that begin with a dollar sign belong to the database. -/
def isReserved (key : String) : Bool := key.toList.head? == some '$'

/-- No leaf of the tree is about a reserved key. -/
def AvoidsReserved (p : Predicate) : Prop :=
  ∀ q ∈ p.leaves, ∀ attr ∈ q.attribute?, isReserved attr = false

instance (p : Predicate) : Decidable (AvoidsReserved p) :=
  inferInstanceAs (Decidable (∀ q ∈ p.leaves, ∀ attr ∈ q.attribute?, isReserved attr = false))

theorem ne_and_of_not_reserved {attr : String} (h : isReserved attr = false) : attr ≠ "$and" := by
  rintro rfl
  exact absurd h (by decide)

theorem ne_or_of_not_reserved {attr : String} (h : isReserved attr = false) : attr ≠ "$or" := by
  rintro rfl
  exact absurd h (by decide)

theorem truth_equal {attr : String} {value : Json} {d : Document}
    (hvalid : (Predicate.equal attr value).validate = .ok ()) (hattr : isReserved attr = false)
    (hd : ofPredicate (.equal attr value) = .ok d) :
    (Predicate.equal attr value).truth J = .ok (holds J d) := by
  obtain ⟨-, hscalar, -⟩ := Predicate.validate_equal_iff.1 hvalid
  rw [ofPredicate, bind_eq_ok_iff] at hd
  obtain ⟨b, hb, hd⟩ := hd
  cases hd
  have hentry : entryHolds J attr b = J attr "$eq" b :=
    entryHolds_of_not_document (ne_and_of_not_reserved hattr) (ne_or_of_not_reserved hattr)
      (canonical_scalar hscalar hb).1
  simp [Predicate.truth, hb, holds, hentry]

theorem truth_compare {attr : String} {ms : List Modifier} {d : Document}
    (hd : ofPredicate (.compare attr ms none) = .ok d) :
    (Predicate.compare attr ms none).truth J = .ok (holds J d) := by
  rw [ofPredicate, bind_eq_ok_iff] at hd
  obtain ⟨conditions, hc, hd⟩ := hd
  cases hd
  simp [Predicate.truth, operators_eq_ok hc, mountAll, holds, entryHolds]

/-- What a tree and its translation are compared under: no options, the rules obeyed and no
attribute that could be taken for an operator. -/
structure Comparable (p : Predicate) : Prop where
  optsFree : p.isOptsFree = true
  valid : p.validate = .ok ()
  avoidsReserved : AvoidsReserved p

theorem comparable_of_mem {ps : List Predicate} (hopts : Predicate.areOptsFree ps = true)
    (hvalid : ∀ p ∈ ps, p.validate = .ok ())
    (hattr : ∀ q ∈ Predicate.leavesOfAll ps, ∀ attr ∈ q.attribute?, isReserved attr = false) :
    ∀ p ∈ ps, Comparable p := by
  rw [Predicate.areOptsFree_eq_all, List.all_eq_true] at hopts
  rw [Predicate.leavesOfAll_eq_flatMap] at hattr
  intro p hp
  refine ⟨hopts p hp, hvalid p hp, fun q hq => hattr q ?_⟩
  exact List.mem_flatMap.2 ⟨p, hp, hq⟩

theorem truths_of_ofPredicates {ps : List Predicate} {ds : List Document}
    (hps : ∀ p ∈ ps, Comparable p)
    (ih : ∀ p ∈ ps, ∀ {d : Document}, Comparable p → ofPredicate p = .ok d →
      p.truth J = .ok (holds J d))
    (hds : ofPredicates ps = .ok ds) : Predicate.truths J ps = .ok (ds.map (holds J)) := by
  rw [ofPredicates_eq_mapM] at hds
  rw [Predicate.truths_eq_mapM]
  exact mapM_eq_ok_map hds fun p hp d hd => ih p hp (hps p hp) hd

theorem truth_of_ofPredicate {p : Predicate} {d : Document} (h : Comparable p)
    (hd : ofPredicate p = .ok d) : p.truth J = .ok (holds J d) := by
  induction p using Predicate.induction generalizing d with
  | conj ps ih =>
    rw [ofPredicate, map_eq_ok_iff] at hd
    obtain ⟨ds, hds, rfl⟩ := hd
    have hvalid := (Predicate.validate_conj_iff.1 h.valid).2
    have hps := comparable_of_mem h.optsFree hvalid h.avoidsReserved
    simp [Predicate.truth, truths_of_ofPredicates hps ih hds, holds_conjunction]
  | disj ps ih =>
    rw [ofPredicate, map_eq_ok_iff] at hd
    obtain ⟨ds, hds, rfl⟩ := hd
    have hvalid := (Predicate.validate_disj_iff.1 h.valid).2
    have hps := comparable_of_mem h.optsFree hvalid h.avoidsReserved
    simp [Predicate.truth, truths_of_ofPredicates hps ih hds, holds_disjunction]
  | all ps ih =>
    rw [ofPredicate, map_eq_ok_iff] at hd
    obtain ⟨ds, hds, rfl⟩ := hd
    have hvalid := (Predicate.validate_all_iff.1 h.valid).2
    have hps := comparable_of_mem h.optsFree hvalid h.avoidsReserved
    simp [Predicate.truth, truths_of_ofPredicates hps ih hds, holds_joinAll]
  | equal attr value =>
    have hattr := h.avoidsReserved (.equal attr value) (by simp [Predicate.leaves]) attr rfl
    exact truth_equal h.valid hattr hd
  | compare attr ms opts =>
    have hopts := h.optsFree
    rw [Predicate.isOptsFree, Option.isNone_iff_eq_none] at hopts
    subst hopts
    exact truth_compare hd
  | annotated inner opts => cases h.optsFree

/-- A tree without options whose attributes are not reserved means what its translation means,
whatever its atomic conditions are taken to say. -/
theorem ofPredicate_preserves_meaning (J : Interpretation) {p : Predicate} {d : Document}
    (hopts : p.isOptsFree = true) (hvalid : p.validate = .ok ()) (hattr : AvoidsReserved p)
    (hd : ofPredicate p = .ok d) : p.truth J = .ok (holds J d) :=
  truth_of_ofPredicate ⟨hopts, hvalid, hattr⟩ hd

/-- Two disjunctions and a range, which cannot share a document. -/
def collidingSiblings : Predicate :=
  .all [.disj [.equal "a" .null, .equal "a" (.string "x")], .disj [.equal "b" (.bool true)],
    .compare "n" [⟨.greaterThanOrEqual, .string "p"⟩, ⟨.lessThan, .string "q"⟩] none]

def collidingDocument : Document :=
  [("$and", .array [
    .document [("$or", .array [.document [("a", .null)], .document [("a", .string "x")]])],
    .document [("$or", .array [.document [("b", .bool true)]])],
    .document [("n", .document [("$gte", .string "p"), ("$lt", .string "q")])]])]

theorem collidingSiblings_meaning :
    (collidingSiblings.isOptsFree = true ∧ collidingSiblings.validate = .ok () ∧
      AvoidsReserved collidingSiblings ∧ ofPredicate collidingSiblings = .ok collidingDocument) ∧
    collidingSiblings.truth (fun attr native _ => attr == "a" || native == "$gte") =
      .ok (holds (fun attr native _ => attr == "a" || native == "$gte") collidingDocument) :=
  ⟨⟨rfl, rfl, by decide, rfl⟩, ofPredicate_preserves_meaning _ rfl rfl (by decide) rfl⟩

end Filter

end DocQuery
