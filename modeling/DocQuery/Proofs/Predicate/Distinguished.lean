import DocQuery.Proofs.Predicate.Spelling

/-! Reading JSON gives distinguished trees only: the clauses of a node come out under distinct keys
in increasing order, and its options stay apart from them. -/
namespace DocQuery.Predicate

theorem tokens_readModifiers {members : Entries Json} (h : (Entries.keys members).Nodup) :
    ((readModifiers members).map fun m => m.operator.token).Pairwise (· < ·) := by
  have htokens : ((readModifiers members).map fun m => m.operator.token) =
      Entries.keys (Entries.sorted (clauseMembers members)) := by
    rw [readModifiers_eq_map, List.map_map, Entries.keys]
    exact List.map_congr_left fun m _ => Operator.token_ofToken m.1
  have hnodup : (Entries.keys (clauseMembers members)).Nodup :=
    h.sublist (List.filter_sublist.map _)
  rw [htokens]
  exact Entries.keys_sorted_increasing hnodup

/-- What is read for an attribute is a distinguished clause of that name. -/
theorem distinguished_of_ofAttribute {attr : String} {v : Json} {p : Predicate}
    (hattr : attr ∉ reservedKeys) (hv : v.KeysDistinct) (h : ofAttribute attr v = .ok p) :
    p.key? = some attr ∧ p.Everywhere IsDistinguished := by
  cases v with
  | null | bool _ | number _ | string _ =>
    cases h
    exact ⟨rfl, everywhere_equal_iff.2 hattr⟩
  | array items =>
    cases h
    exact ⟨rfl, everywhere_compare_iff.2 ⟨hattr, List.pairwise_singleton _ _⟩⟩
  | object members =>
    cases hdate : (Json.object members).isDateLike with
    | true =>
      rw [ofAttribute, if_pos hdate] at h
      cases h
      exact ⟨rfl, everywhere_equal_iff.2 hattr⟩
    | false =>
      rw [ofAttribute_modifiers hdate] at h
      obtain ⟨opts, -, rfl⟩ := map_eq_ok_iff.1 h
      have htokens := tokens_readModifiers (Json.keysDistinct_object_iff.1 hv).1
      exact ⟨rfl, everywhere_compare_iff.2 ⟨hattr, htokens⟩⟩

/-- Reading gives distinguished trees only. -/
def ReadsDistinguished (v : Json) : Prop :=
  ∀ p, ofJson v = .ok p → p.Everywhere IsDistinguished

/-- What is read for a key is a distinguished clause under that key, given that this holds for the
nodes that it lists. -/
theorem distinguished_of_readClause {key : String} {v : Json} {p : Predicate}
    (hkey : key ≠ optsKey) (hv : v.KeysDistinct)
    (ih : ∀ items, v = .array items → ∀ item ∈ items, ReadsDistinguished item)
    (h : readClause key v = .ok p) : p.key? = some key ∧ p.Everywhere IsDistinguished := by
  by_cases hattr : key ∈ reservedKeys
  · have hnodes : key = "and" ∨ key = "or" := by
      simpa [reservedKeys, hkey] using hattr
    cases v with
    | array items =>
      rw [readClause_array] at h
      have hall : ∀ ps, items.mapM ofJson = .ok ps → ∀ q ∈ ps, q.Everywhere IsDistinguished :=
        fun ps hps => forall_of_mapM hps (ih items rfl)
      rcases hnodes with rfl | rfl
      · rw [if_pos rfl] at h
        obtain ⟨ps, hps, rfl⟩ := map_eq_ok_iff.1 h
        exact ⟨rfl, everywhere_conj_iff.2 ⟨trivial, hall ps hps⟩⟩
      · rw [if_neg (by decide), if_pos rfl] at h
        obtain ⟨ps, hps, rfl⟩ := map_eq_ok_iff.1 h
        exact ⟨rfl, everywhere_disj_iff.2 ⟨trivial, hall ps hps⟩⟩
    | _ =>
      rw [readClause_of_not_array (by simp), if_pos hnodes] at h
      cases h
  · rw [readClause_of_attribute hattr] at h
    exact distinguished_of_ofAttribute hattr hv h

theorem keys_of_mapM {members : Entries Json} {cs : Entries Predicate}
    (h : (members.mapM fun m => (fun p => (m.1, p)) <$> readClause m.1 m.2) = .ok cs) :
    Entries.keys cs = Entries.keys members := by
  have hkeys : members.mapM (fun m => (.ok m.1 : Except StatementFlaw String)) =
      .ok (Entries.keys cs) := by
    apply mapM_eq_ok_map h
    intro m _ c hc
    obtain ⟨p, -, rfl⟩ := map_eq_ok_iff.1 hc
    rfl
  have hpure : members.mapM (fun m => (.ok m.1 : Except StatementFlaw String)) =
      .ok (Entries.keys members) := List.mapM_pure
  exact Except.ok.inj (hkeys.symm.trans hpure)

theorem distinguished_of_join? {cs : Entries Predicate} {p : Predicate}
    (hincreasing : (Entries.keys cs).Pairwise (· < ·))
    (hclauses : ∀ c ∈ cs, c.2.key? = some c.1 ∧ c.2.Everywhere IsDistinguished)
    (h : join? cs.values = some p) : p.isAnnotated = false ∧ p.Everywhere IsDistinguished := by
  match cs with
  | [] => cases h
  | [c] =>
    cases h
    obtain ⟨hkey, hc⟩ := hclauses c (by simp)
    obtain ⟨v, -, -, hannotated⟩ := members_of_key? hkey
    exact ⟨hannotated, hc⟩
  | c :: d :: cs =>
    cases h
    have hkeys : (Entries.values (c :: d :: cs)).map key? =
        (Entries.keys (c :: d :: cs)).map some := by
      rw [Entries.values, Entries.keys, List.map_map, List.map_map]
      exact List.map_congr_left fun e he => (hclauses e he).1
    refine ⟨rfl, everywhere_all_iff.2 ⟨⟨by simp, _, hkeys, hincreasing⟩, ?_⟩⟩
    exact List.forall_mem_map.2 fun e he => (hclauses e he).2

theorem distinguished_of_members {members : List (String × Json)}
    (h : (Entries.keys members).Nodup)
    (hclause : ∀ m ∈ members, m.1 ≠ optsKey → ∀ p, readClause m.1 m.2 = .ok p →
      p.key? = some m.1 ∧ p.Everywhere IsDistinguished) :
    ReadsDistinguished (.object members) := by
  intro p hp
  rw [ofJson, sequence_readClauses] at hp
  obtain ⟨cs, hcs, hp⟩ := bind_eq_ok_iff.1 hp
  have hnodup : (Entries.keys (clauseMembers members)).Nodup :=
    h.sublist (List.filter_sublist.map _)
  have hincreasing : (Entries.keys cs).Pairwise (· < ·) := by
    rw [keys_of_mapM hcs]
    exact Entries.keys_sorted_increasing hnodup
  have hclauses : ∀ c ∈ cs, c.2.key? = some c.1 ∧ c.2.Everywhere IsDistinguished := by
    refine forall_of_mapM (P := fun c => c.2.key? = some c.1 ∧ c.2.Everywhere IsDistinguished) hcs ?_
    intro m hm c hc
    obtain ⟨q, hq, rfl⟩ := map_eq_ok_iff.1 hc
    obtain ⟨hmember, hkey⟩ := mem_clauseMembers_iff.1 ((Entries.sorted_perm _).mem_iff.1 hm)
    exact hclause m hmember hkey q hq
  cases hjoin : join? cs.values with
  | none =>
    rw [hjoin] at hp
    cases hp
  | some q =>
    rw [hjoin] at hp
    obtain ⟨opts, -, hp⟩ := bind_eq_ok_iff.1 hp
    obtain ⟨hannotated, hq⟩ := distinguished_of_join? hincreasing hclauses hjoin
    cases opts with
    | none =>
      cases hp
      exact hq
    | some opts =>
      cases hp
      exact everywhere_annotated_iff.2 ⟨hannotated, hq⟩

theorem readsDistinguished (v : Json) : v.KeysDistinct → ReadsDistinguished v := by
  induction v using Json.nodeInduction with
  | other v hv =>
    intro _ p hp
    rw [ofJson_of_not_object hv] at hp
    cases hp
  | object members ih =>
    intro h
    obtain ⟨hnodup, hmembers⟩ := Json.keysDistinct_object_iff.1 h
    apply distinguished_of_members hnodup
    intro m hm hkey p hp
    have hitems : ∀ items, m.2 = .array items → ∀ item ∈ items, ReadsDistinguished item := by
      intro items heq item hitem
      have hdistinct : (Json.array items).KeysDistinct := heq ▸ hmembers m hm
      exact ih m hm items heq item hitem (Json.keysDistinct_array_iff.1 hdistinct item hitem)
    exact distinguished_of_readClause hkey (hmembers m hm) hitems hp

end DocQuery.Predicate
