import DocQuery.Proofs.Filter.Meaning

/-! Siblings that share a document. They do so exactly if no key occurs in two of them; otherwise each
one keeps a document of its own. Neither a condition nor an option of one replaces what another one
says. -/
namespace DocQuery

namespace Filter

/-- No key occurs in both documents. -/
def Apart (d e : Document) : Prop := List.Disjoint (Entries.keys d) (Entries.keys e)

variable {merged d e f : Document} {ds : List Document}

theorem apart_append_iff : Apart (d ++ e) f ↔ Apart d f ∧ Apart e f := by
  rw [Apart, Entries.keys_append]
  exact List.disjoint_append_left

theorem any_hasKey_iff : d.keys.any merged.hasKey = true ↔ ¬ Apart merged d := by
  simp [List.any_eq_true, Entries.hasKey, Apart, List.Disjoint, and_comm]

/-- What was merged so far counts as one more document, apart from the rest as the others are from
each other. -/
theorem merge?_isSome_iff :
    (merge? merged ds).isSome = true ↔ (merged :: ds).Pairwise Apart := by
  induction ds generalizing merged with
  | nil => simp [merge?]
  | cons d ds ih =>
    rw [merge?]
    split
    · next hshared =>
      have hnot := any_hasKey_iff.1 hshared
      simp [hnot]
    · next hfree =>
      have hapart : Apart merged d := by
        rw [any_hasKey_iff, not_not] at hfree
        exact hfree
      rw [ih]
      simp only [List.pairwise_cons, List.forall_mem_cons, apart_append_iff, forall_and, hapart]
      tauto

/-- Documents are joined into one exactly if no key occurs in two of them. -/
theorem joinAll_of_apart (h : ds.Pairwise Apart) : joinAll ds = ds.flatten := by
  have hsome : (merge? [] ds).isSome = true :=
    merge?_isSome_iff.2 (List.pairwise_cons.2 ⟨fun d _ => List.disjoint_nil_left _, h⟩)
  obtain ⟨d, hd⟩ := Option.isSome_iff_exists.1 hsome
  rw [joinAll, hd, Option.getD_some, merge?_eq_some hd, List.nil_append]

theorem joinAll_of_shared (h : ¬ ds.Pairwise Apart) : joinAll ds = conjunction ds := by
  have hnone : merge? [] ds = none := by
    rw [← Option.not_isSome_iff_eq_none, merge?_isSome_iff]
    exact fun hpairwise => h (List.pairwise_cons.1 hpairwise).2
  rw [joinAll, hnone, Option.getD_none]

/-- In a shared document each of the documents finds its own entries. -/
theorem get?_flatten (h : ds.Pairwise Apart) (hd : d ∈ ds) {key : String}
    (hkey : key ∈ Entries.keys d) : Entries.get? ds.flatten key = d.get? key := by
  induction ds with
  | nil => cases hd
  | cons e ds ih =>
    rw [List.pairwise_cons] at h
    rw [List.flatten_cons, Entries.get?_append]
    rcases List.mem_cons.1 hd with rfl | hd
    · obtain ⟨value, hvalue⟩ := Entries.mem_keys_iff.1 hkey
      rw [hvalue, Option.some_or]
    · have hnone : Entries.get? e key = none :=
        Entries.get?_eq_none_iff.2 fun hold => h.1 d hd hold hkey
      rw [hnone, Option.none_or, ih h.2 hd]

/-- Siblings that are translated, with or without options, make up one document whose keys are
distinct. If no key occurs in two of them, it has the entries of all, in order, and each sibling finds
its own in it; otherwise it lists the siblings one by one. -/
theorem ofPredicate_all {ps : List Predicate}
    (h : List.Forall₂ (fun p d => ofPredicate p = .ok d) ps ds) :
    ∃ d, ofPredicate (.all ps) = .ok d ∧ (Entries.keys d).Nodup ∧
      (ds.Pairwise Apart → d = ds.flatten ∧
        ∀ e ∈ ds, ∀ key ∈ Entries.keys e, d.get? key = e.get? key) ∧
      (¬ ds.Pairwise Apart → d = [("$and", .array (ds.map .document))]) := by
  have hall : ofPredicate (.all ps) = .ok (joinAll ds) := by
    rw [ofPredicate, ofPredicates_eq_mapM, mapM_eq_ok_iff_forall₂.2 h, map_ok]
  refine ⟨joinAll ds, hall, ofPredicate_keys_nodup hall, fun hapart => ?_, joinAll_of_shared⟩
  rw [joinAll_of_apart hapart]
  exact ⟨rfl, fun e he key hkey => get?_flatten hapart he hkey⟩

/-- A condition on one attribute whose options have the name of another one. -/
def optioned : Predicate := .annotated (.equal "b" .null) (.ofList [("a", .bool true)])

def optionedDocument : Document := [("b", .null), ("a", .bool true)]

theorem optioned_siblings :
    (List.Forall₂ (fun p d => ofPredicate p = .ok d) [.equal "a" .null, optioned]
        [[("a", .null)], optionedDocument] ∧
      ofPredicate (.all [.equal "a" .null, optioned]) =
        .ok [("$and", .array [.document [("a", .null)], .document optionedDocument])]) ∧
    List.Forall₂ (fun p d => ofPredicate p = .ok d) [optioned, .equal "c" .null]
        [optionedDocument, [("c", .null)]] ∧
      ofPredicate (.all [optioned, .equal "c" .null]) =
        .ok [("b", .null), ("a", .bool true), ("c", .null)] := by
  have hoptioned : ofPredicate optioned = .ok optionedDocument := by
    have hsorted : Entries.sorted [("a", Bson.bool true)] = [("a", .bool true)] :=
      List.mergeSort_singleton _
    exact congrArg (fun opts => Except.ok (Entries.insertAll [("b", .null)] opts)) hsorted
  have hshared : List.Forall₂ (fun p d => ofPredicate p = .ok d) [.equal "a" .null, optioned]
      [[("a", .null)], optionedDocument] := .cons rfl (.cons hoptioned .nil)
  have hapart : List.Forall₂ (fun p d => ofPredicate p = .ok d) [optioned, .equal "c" .null]
      [optionedDocument, [("c", .null)]] := .cons hoptioned (.cons rfl .nil)
  obtain ⟨d, hd, -, -, hlisted⟩ := ofPredicate_all hshared
  obtain ⟨e, he, -, hjoined, -⟩ := ofPredicate_all hapart
  refine ⟨⟨hshared, ?_⟩, hapart, ?_⟩
  · rw [hd, hlisted (by simp [Apart, optionedDocument, Entries.keys])]
    rfl
  · rw [he, (hjoined (by simp [Apart, optionedDocument, Entries.keys])).1]
    rfl

end Filter

end DocQuery
