import DocQuery.Proofs.Compilation.Support
import DocQuery.Proofs.Predicate.Spelling
import DocQuery.Proofs.Statement.Reading

/-! Statements without options. JSON that has no `opts` key at any depth is read as one. -/
namespace DocQuery

/-- No object within the value has options among its members. -/
def Json.IsOptsFree (v : Json) : Prop :=
  ∀ members, Json.Within (.object members) v → optsKey ∉ Entries.keys members

namespace Json

theorem isOptsFree_of_not_container {v : Json} (hobject : ∀ members, v ≠ .object members)
    (harray : ∀ items, v ≠ .array items) : v.IsOptsFree :=
  forall_objects_of_not_container hobject harray

theorem isOptsFree_array_iff {items : List Json} :
    IsOptsFree (.array items) ↔ ∀ item ∈ items, item.IsOptsFree :=
  forall_objects_array_iff

theorem isOptsFree_object_iff {members : List (String × Json)} :
    IsOptsFree (.object members) ↔
      optsKey ∉ Entries.keys members ∧ ∀ m ∈ members, m.2.IsOptsFree :=
  forall_objects_object_iff

theorem IsOptsFree.readOpts {members : List (String × Json)} (h : IsOptsFree (.object members)) :
    DocQuery.readOpts members = .ok none := by
  have hget : Entries.get? members optsKey = none :=
    Entries.get?_eq_none_iff.2 (isOptsFree_object_iff.1 h).1
  rw [DocQuery.readOpts, hget]

theorem IsOptsFree.member {members : List (String × Json)} (h : IsOptsFree (.object members))
    {m : String × Json} (hm : m ∈ members) : m.2.IsOptsFree :=
  (isOptsFree_object_iff.1 h).2 m hm

end Json

namespace Predicate

theorem isOptsFree_of_ofAttribute {attr : String} {v : Json} {p : Predicate} (hv : v.IsOptsFree)
    (h : ofAttribute attr v = .ok p) : p.isOptsFree = true := by
  cases v with
  | null | bool _ | number _ | string _ | array _ =>
    cases h
    rfl
  | object members =>
    cases hdate : (Json.object members).isDateLike with
    | true =>
      rw [ofAttribute, if_pos hdate] at h
      cases h
      rfl
    | false =>
      rw [ofAttribute_modifiers hdate, hv.readOpts] at h
      cases h
      rfl

theorem isOptsFree_of_readClause {key : String} {v : Json} {p : Predicate} (hv : v.IsOptsFree)
    (ih : ∀ items, v = .array items → ∀ item ∈ items, ∀ q, ofJson item = .ok q →
      q.isOptsFree = true)
    (h : readClause key v = .ok p) : p.isOptsFree = true := by
  cases v with
  | array items =>
    have hall : ∀ ps, items.mapM ofJson = .ok ps → areOptsFree ps = true := by
      intro ps hps
      rw [areOptsFree_eq_all, List.all_eq_true]
      exact forall_of_mapM hps (ih items rfl)
    rw [readClause_array] at h
    split at h
    · obtain ⟨ps, hps, rfl⟩ := map_eq_ok_iff.1 h
      exact hall ps hps
    · split at h
      · obtain ⟨ps, hps, rfl⟩ := map_eq_ok_iff.1 h
        exact hall ps hps
      · exact isOptsFree_of_ofAttribute hv h
  | _ =>
    rw [readClause_of_not_array (by simp)] at h
    split at h
    · cases h
    · exact isOptsFree_of_ofAttribute hv h

theorem isOptsFree_of_join? {ps : List Predicate} {p : Predicate}
    (hps : ∀ q ∈ ps, q.isOptsFree = true) (h : join? ps = some p) : p.isOptsFree = true := by
  match ps with
  | [] => cases h
  | [q] =>
    obtain rfl : q = p := Option.some.inj h
    exact hps q (by simp)
  | q :: r :: ps =>
    cases h
    rw [isOptsFree, areOptsFree_eq_all, List.all_eq_true]
    exact hps

/-- A node without options is read as a tree without options. -/
theorem isOptsFree_of_ofJson (v : Json) : v.IsOptsFree → ∀ p, ofJson v = .ok p →
    p.isOptsFree = true := by
  induction v using Json.nodeInduction with
  | other v hv =>
    intro _ p hp
    rw [ofJson_of_not_object hv] at hp
    cases hp
  | object members ih =>
    intro h p hp
    rw [ofJson, sequence_readClauses] at hp
    obtain ⟨cs, hcs, hp⟩ := bind_eq_ok_iff.1 hp
    have hclauses : ∀ c ∈ cs, c.2.isOptsFree = true := by
      apply forall_of_mapM (P := fun c => c.2.isOptsFree = true) hcs
      intro m hm c hc
      obtain ⟨q, hq, rfl⟩ := map_eq_ok_iff.1 hc
      have hmember := (mem_clauseMembers_iff.1 ((Entries.sorted_perm _).mem_iff.1 hm)).1
      have hitems : ∀ items, m.2 = .array items → ∀ item ∈ items, ∀ q, ofJson item = .ok q →
          q.isOptsFree = true := by
        intro items heq item hitem
        have harray : (Json.array items).IsOptsFree := heq ▸ h.member hmember
        exact ih m hmember items heq item hitem (Json.isOptsFree_array_iff.1 harray item hitem)
      exact isOptsFree_of_readClause (h.member hmember) hitems hq
    cases hjoin : join? cs.values with
    | none =>
      rw [hjoin] at hp
      cases hp
    | some q =>
      rw [hjoin, h.readOpts] at hp
      cases hp
      exact isOptsFree_of_join? (List.forall_mem_map.2 hclauses) hjoin

end Predicate

namespace Criteria

/-- Neither criteria nor their filter carry options. -/
def IsOptsFree (c : Criteria) : Prop :=
  c.opts = none ∧ ∀ p, c.filter = some p → p.isOptsFree = true

theorem isOptsFree_of_ofJson {v : Json} {c : Criteria} (hv : v.IsOptsFree)
    (h : ofJson v = .ok c) : c.IsOptsFree := by
  cases v with
  | object members =>
    obtain ⟨-, hfilter, -, -, -, -, hopts⟩ := ofJson_eq_ok_iff.1 h
    rw [hv.readOpts] at hopts
    refine ⟨(Except.ok.inj hopts).symm, fun p hp => ?_⟩
    rw [hp] at hfilter
    obtain ⟨node, hnode, hread⟩ := node_of_readFilter hfilter
    have hwithin := hv.member (Entries.mem_of_get? hnode)
    exact Predicate.isOptsFree_of_ofJson node hwithin p hread
  | _ => cases h

end Criteria

namespace Statement

/-- Neither the statement nor its criteria carry options. -/
def IsOptsFree (s : Statement) : Prop :=
  s.opts = none ∧ ∀ c, s.criteria = some c → c.IsOptsFree

theorem IsOptsFree.criteriaOpts {s : Statement} (h : s.IsOptsFree) :
    s.criteria.bind Criteria.opts = none := by
  cases hc : s.criteria with
  | none => rfl
  | some c => exact (h.2 c hc).1

/-- JSON without options is read as a statement without options. -/
theorem isOptsFree_of_ofJson {v : Json} {s : Statement} (hv : v.IsOptsFree)
    (h : ofJson v = .ok s) : s.IsOptsFree := by
  cases v with
  | object members =>
    obtain ⟨-, -, -, hopts, criteria, read, hcriteria, hkind, hset⟩ := ofJson_eq_ok_iff.1 h
    rw [hv.readOpts] at hopts
    refine ⟨(Except.ok.inj hopts).symm, fun c hc => ?_⟩
    have hgiven : ∀ c, criteria = some c → c.IsOptsFree := by
      rintro c rfl
      rw [readCriteria] at hcriteria
      split at hcriteria
      · next w hw =>
        obtain ⟨c', hc', heq⟩ := map_eq_ok_iff.1 hcriteria
        cases heq
        exact Criteria.isOptsFree_of_ofJson (hv.member (Entries.mem_of_get? hw)) hc'
      · cases hcriteria
    rw [hset] at hc
    obtain ⟨hread, -⟩ := Option.filter_eq_some_iff.1 hc
    -- A projection at the top level may make criteria out of none, but adds no options to them.
    obtain heq | ⟨projection, heq⟩ := criteria_of_readKind hkind
    · exact hgiven c (heq ▸ hread)
    · rw [heq] at hread
      cases hread
      cases criteria with
      | none => exact ⟨rfl, by simp [Criteria.empty]⟩
      | some c => exact hgiven c rfl
  | _ => cases h

end Statement

end DocQuery
