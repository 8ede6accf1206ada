import DocQuery.Proofs.Predicate.Leaves
import DocQuery.Proofs.Predicate.Reading

/-! Changes to the leaves and the options of a predicate tree that leave its shape alone. What the
rules say of the leaves decides what they say of the tree, and a change to JSON that the reader makes
to the parts of a node it makes to the node. -/
namespace DocQuery.Predicate

/-- A change that goes down to the leaves, with another one for the options of nodes. -/
structure IsTreeMap (f : Predicate → Predicate) (g : Dictionary → Dictionary) : Prop where
  conj : ∀ ps, f (.conj ps) = .conj (ps.map f)
  disj : ∀ ps, f (.disj ps) = .disj (ps.map f)
  all : ∀ ps, f (.all ps) = .all (ps.map f)
  annotated : ∀ p opts, f (.annotated p opts) = .annotated (f p) (g opts)

namespace IsTreeMap

variable {f : Predicate → Predicate} {g : Dictionary → Dictionary} (h : IsTreeMap f g)

include h

/-- The rules hold of both trees if they hold of both versions of each leaf. -/
theorem validate_iff
    (hequal : ∀ attr value, (f (.equal attr value)).validate = .ok () ↔
      (equal attr value).validate = .ok ())
    (hcompare : ∀ attr ms opts, (f (.compare attr ms opts)).validate = .ok () ↔
      (compare attr ms opts).validate = .ok ()) (p : Predicate) :
    (f p).validate = .ok () ↔ p.validate = .ok () := by
  have hchildren : ∀ ps : List Predicate,
      (∀ p ∈ ps, ((f p).validate = .ok () ↔ p.validate = .ok ())) →
      ((ps.map f ≠ [] ∧ ∀ p ∈ ps.map f, p.validate = .ok ()) ↔
        ps ≠ [] ∧ ∀ p ∈ ps, p.validate = .ok ()) := by
    intro ps hps
    rw [List.forall_mem_map]
    simp only [ne_eq, List.map_eq_nil_iff]
    apply and_congr_right
    intro _
    exact ⟨fun hall p hp => (hps p hp).1 (hall p hp), fun hall p hp => (hps p hp).2 (hall p hp)⟩
  induction p using Predicate.induction with
  | conj ps ih => rw [h.conj, validate_conj_iff, validate_conj_iff, hchildren ps ih]
  | disj ps ih => rw [h.disj, validate_disj_iff, validate_disj_iff, hchildren ps ih]
  | all ps ih => rw [h.all, validate_all_iff, validate_all_iff, hchildren ps ih]
  | equal attr value => exact hequal attr value
  | compare attr ms opts => exact hcompare attr ms opts
  | annotated inner opts ih =>
    rw [h.annotated, validate_annotated_iff, validate_annotated_iff]
    exact ih

theorem join? (clauses : List Predicate) :
    Predicate.join? (clauses.map f) = (Predicate.join? clauses).map f := by
  match clauses with
  | [] => rfl
  | [p] => rfl
  | p :: q :: ps => simp [Predicate.join?, h.all]

theorem annotate (p : Predicate) (opts : Option Dictionary) :
    (f p).annotate (opts.map g) = f (p.annotate opts) := by
  cases opts with
  | none => rfl
  | some opts => exact (h.annotated p opts).symm

/-- A list of nodes is read with the change if each of the nodes is. -/
theorem readClause_nodes {key : String} (hkey : key = "and" ∨ key = "or") {c : Json → Json}
    {items : List Json}
    (hitems : ∀ item ∈ items, (ofJson (c item)).toOption = (ofJson item).toOption.map f) :
    (readClause key (.array (items.map c))).toOption =
      (readClause key (.array items)).toOption.map f := by
  have hrun : ((items.map c).mapM ofJson).toOption =
      (items.mapM ofJson).toOption.map (List.map f) :=
    toOption_mapM_map hitems
  rw [readClause_array, readClause_array]
  rcases hkey with rfl | rfl
  · rw [if_pos rfl, if_pos rfl, toOption_map, toOption_map, hrun]
    cases (items.mapM ofJson).toOption <;> simp [h.conj]
  · rw [if_neg (by decide), if_pos rfl, if_neg (by decide), if_pos rfl, toOption_map, toOption_map,
      hrun]
    cases (items.mapM ofJson).toOption <;> simp [h.disj]

/-- A node is read with the change if its clauses and its options are. -/
theorem ofJson_object {members members' : List (String × Json)} {c : String × Json → Json}
    (hmembers : Entries.sorted (clauseMembers members') =
      (Entries.sorted (clauseMembers members)).map fun m => (m.1, c m))
    (hclauses : ∀ m ∈ clauseMembers members,
      (readClause m.1 (c m)).toOption = (readClause m.1 m.2).toOption.map f)
    (hopts : (readOpts members').toOption = (readOpts members).toOption.map (Option.map g)) :
    (ofJson (.object members')).toOption = (ofJson (.object members)).toOption.map f := by
  have hsequence : (Entries.sorted (readClauses members')).sequence.toOption =
      (Entries.sorted (readClauses members)).sequence.toOption.map
        (List.map fun clause => (clause.1, f clause.2)) := by
    rw [sequence_readClauses, sequence_readClauses, hmembers]
    apply toOption_mapM_map
    intro m hm
    rw [toOption_map, toOption_map, hclauses m ((Entries.sorted_perm _).mem_iff.1 hm),
      Option.map_map, Option.map_map]
    rfl
  rw [ofJson, ofJson, toOption_bind, toOption_bind, hsequence]
  cases (Entries.sorted (readClauses members)).sequence.toOption with
  | none => rfl
  | some clauses =>
    rw [Option.map_some, Option.bind_some, Option.bind_some]
    have hvalues : Entries.values (clauses.map fun clause => (clause.1, f clause.2)) =
        (Entries.values clauses).map f := by
      simp [Entries.values]
    rw [hvalues, h.join?]
    cases Predicate.join? (Entries.values clauses) with
    | none => rfl
    | some p =>
      rw [Option.map_some]
      dsimp only
      rw [toOption_bind, toOption_bind, hopts]
      cases (readOpts members).toOption with
      | none => rfl
      | some opts => exact congrArg some (h.annotate p opts)

end IsTreeMap

end DocQuery.Predicate
