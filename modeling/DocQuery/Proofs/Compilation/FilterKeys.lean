import DocQuery.Proofs.Compilation.Arguments
import DocQuery.Proofs.Compilation.Exits
import DocQuery.Proofs.Filter.Parts
import Mathlib

/-! Which keys a compiled filter has. Without options its operators are those of the translation;
any other key is an attribute that the statement names. -/
namespace DocQuery

namespace Predicate

/-- The attributes that a tree is about, in order. -/
def attributes (p : Predicate) : List String := p.leaves.filterMap attribute?

theorem mem_attributes_of_leaf {p q : Predicate} {attr : String} (hq : q ∈ p.leaves)
    (hattr : q.attribute? = some attr) : attr ∈ p.attributes :=
  List.mem_filterMap.2 ⟨q, hq, hattr⟩

end Predicate

namespace Filter

/-- The keys of operator documents. -/
def comparisons : List String := ["$lt", "$lte", "$gt", "$gte", "$ne", "$in", "$nin", "$regex"]

/-- Every key of the filter that stands where an operator could is a junction or one of the
attributes, and every operator document compares. -/
def KeysWithin (attributes : List String) (d : Document) : Prop :=
  ∀ e, Part e d → ∀ m ∈ e, m.1 ∈ junctions ++ attributes ∧
    ∀ operators, m.2 = .document operators → ∀ key ∈ Entries.keys operators, key ∈ comparisons

theorem native?_mem_comparisons {operator : Operator} {native : String}
    (h : operator.native? = some native) : native ∈ comparisons := by
  cases operator with
  | unrecognized token => cases h
  | _ =>
    cases h
    simp [comparisons]

theorem keys_operators {attr : String} {ms : List Modifier} {d : Document}
    (h : operators attr [] ms = .ok d) : ∀ key ∈ Entries.keys d, key ∈ comparisons := by
  intro key hkey
  obtain ⟨m, hm, rfl⟩ := List.mem_map.1 hkey
  have hall : ∀ b ∈ d, b.1 ∈ comparisons :=
    forall_of_mapM (operators_eq_ok h) fun m _ b hb =>
      native?_mem_comparisons (Modifier.native?_of_native hb)
  exact hall m hm

/-- The keys of a translated tree are junctions, comparisons and its own attributes. -/
theorem keysWithin_ofPredicate {p : Predicate} {d : Document} (hopts : p.isOptsFree = true)
    (hvalid : p.validate = .ok ()) (hd : ofPredicate p = .ok d) :
    KeysWithin p.attributes d := by
  refine everyEntry_ofPredicate ⟨?_, ?_, ?_⟩ hopts hvalid hd
  · intro key hkey ds _ _
    exact ⟨List.mem_append_left _ hkey, by simp⟩
  · intro attr value b hleaf hdocument _
    refine ⟨List.mem_append_right _ (Predicate.mem_attributes_of_leaf hleaf rfl), ?_⟩
    rintro operators rfl
    cases hdocument
  · intro attr ms conditions hleaf _ hconditions
    refine ⟨List.mem_append_right _ (Predicate.mem_attributes_of_leaf hleaf rfl), ?_⟩
    rintro operators hoperators
    cases hoperators
    exact keys_operators hconditions

end Filter

namespace NativeQuery

/-- A modifier that would need another operator is refused. Of the keys that stand where an operator
could, the others are attributes, which are copied as they are. -/
theorem filter_operators {v : Json} {s : Statement} (h : v.States s)
    (context : Option Dictionary) :
    let outcome := (compile v (context.map Dictionary.toJson)).outcome
    (s.HasUnknownOperator → outcome = .error .notSupported) ∧ (v.IsOptsFree → s.IsOptsFree) ∧
      (s.IsOptsFree → ∀ q d, outcome = .ok q → q.filter? = some d →
        ∃ p, s.filter? = some p ∧ Filter.KeysWithin p.attributes d) := by
  intro outcome
  refine ⟨fun hunknown => ?_, fun hv => Statement.isOptsFree_of_ofJson hv h.1, ?_⟩
  · exact (outcome_notSupported_iff v context).2 ⟨s, h, .inl hunknown⟩
  · intro hopts q d hq hd
    have houtcome : outcome = (translate s).mapError Error.kind := outcome_of_states h context
    rw [houtcome, mapError_eq_ok_iff] at hq
    obtain ⟨p, hp, hfree, hvalid, hpd⟩ := ofPredicate_of_translate hopts h.2 hq hd
    exact ⟨p, hp, Filter.keysWithin_ofPredicate hfree hvalid hpd⟩

/-- A find whose filter is the given node. -/
def selection (node : Json) : Json :=
  .object [("using", .string "people"), ("criteria", .object [("where", node)])]

/-- The find that a selection is read as. -/
def selecting (p : Predicate) : Statement := ⟨"people", .find, some { filter := some p }, none⟩

/-- A comparison next to an attribute that is named like an operator. -/
def adultOrCode : Json :=
  .object [("or", .array [.object [("age", .object [(">=", .string "18")])],
    .object [("$where", .string "1")]])]

def adultOrCodeTree : Predicate :=
  .disj [.compare "age" [⟨.greaterThanOrEqual, .string "18"⟩] none, .equal "$where" (.string "1")]

def adultOrCodeFilter : Document :=
  [("$or", .array [.document [("age", .document [("$gte", .string "18")])],
    .document [("$where", .string "1")]])]

/-- An operator that is not in the vocabulary. -/
def nearby : Json := .object [("place", .object [("near", .string "x")])]

def nearbyTree : Predicate := .compare "place" [⟨.unrecognized "near", .string "x"⟩] none

theorem adultOrCode_operators :
    ((selection adultOrCode).States (selecting adultOrCodeTree) ∧
      (selecting adultOrCodeTree).IsOptsFree ∧ (compile (selection adultOrCode) none).outcome =
        .ok ⟨"people", .find, [("filter", .document adultOrCodeFilter)]⟩ ∧
      Filter.KeysWithin adultOrCodeTree.attributes adultOrCodeFilter) ∧
    (selection nearby).States (selecting nearbyTree) ∧ (selecting nearbyTree).HasUnknownOperator ∧
      (compile (selection nearby) none).outcome = .error .notSupported := by
  have hadult : (selection adultOrCode).States (selecting adultOrCodeTree) := ⟨by cbv, rfl⟩
  have hadultKeys : (selection adultOrCode).IsOptsFree := by
    simp [selection, adultOrCode, Json.isOptsFree_object_iff, Json.isOptsFree_array_iff,
      Entries.keys, optsKey, Json.isOptsFree_of_not_container]
  have houtcome : (compile (selection adultOrCode) none).outcome =
      .ok ⟨"people", .find, [("filter", .document adultOrCodeFilter)]⟩ := by cbv
  have hadultOpts := (filter_operators hadult none).2.1 hadultKeys
  obtain ⟨p, hp, hkeys⟩ := (filter_operators hadult none).2.2 hadultOpts _ _ houtcome rfl
  cases hp
  have hnear : (selection nearby).States (selecting nearbyTree) := ⟨by cbv, rfl⟩
  have hunknown : (selecting nearbyTree).HasUnknownOperator :=
    ⟨nearbyTree, "place", _, none, _, rfl, List.mem_singleton.2 rfl, List.mem_singleton.2 rfl, rfl⟩
  exact ⟨⟨hadult, hadultOpts, houtcome, hkeys⟩, hnear, hunknown,
    (filter_operators hnear none).1 hunknown⟩

/-- An attribute is copied to the filter even where MongoDB takes it for an operator. -/
theorem operator_name_copied :
    (selection (.object [("$where", .string "1")])).IsOptsFree ∧
      (compile (selection (.object [("$where", .string "1")])) none).outcome =
        .ok ⟨"people", .find, [("filter", .document [("$where", .string "1")])]⟩ ∧
      "$where" ∉ Filter.junctions ++ Filter.comparisons := by
  refine ⟨?_, by cbv, by decide⟩
  simp [selection, Json.isOptsFree_object_iff, Entries.keys, optsKey,
    Json.isOptsFree_of_not_container]

end NativeQuery

end DocQuery
