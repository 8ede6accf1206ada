import DocQuery.Error
import DocQuery.Proofs.Entries.Comparison
import DocQuery.Proofs.Json.Equality

/-! Dictionaries by the steps that they are written with. However they are written, their sorted
entries are a canonical form: each key once, in code-point order, with the value written last, and two
dictionaries are equal exactly if their sorted entries are the same position by position. -/
namespace DocQuery

namespace Dictionary

/-- A step that writes a dictionary: anew from a value or from pairs, or one key over what is there. -/
inductive Step where
  | read (value : Json)
  | collect (pairs : List (String × Json))
  | insert (key : String) (value : Json)
  | exchange (key : String) (value : Json)

namespace Step

def apply (d : Dictionary) : Step → Except Error Dictionary
  | .read value => ofJson value
  | .collect pairs => .ok (ofList pairs)
  | .insert key value => .ok (d.insert key value)
  | .exchange key value => .ok (d.exchange key value).2

/-- Only objects are read as dictionaries. -/
def Succeeds : Step → Prop
  | .read value => ∃ members, value = .object members
  | _ => True

/-- The pairs that count after a step: its own alone where it writes the dictionary anew. -/
def written (pairs : List (String × Json)) : Step → List (String × Json)
  | .read (.object members) => members
  | .read _ => pairs
  | .collect own => own
  | .insert key value | .exchange key value => pairs ++ [(key, value)]

/-- The step brings no object that holds a key twice. -/
def IsDistinct : Step → Prop
  | .read value => value.KeysDistinct
  | .collect pairs => ∀ m ∈ pairs, m.2.KeysDistinct
  | .insert _ value | .exchange _ value => value.KeysDistinct

variable {pairs : List (String × Json)} {d : Dictionary}

theorem apply_ofList_eq_ok_iff {step : Step} : apply (ofList pairs) step = .ok d ↔
    step.Succeeds ∧ d = ofList (step.written pairs) := by
  have hinsert : ∀ key value, (ofList pairs).insert key value = ofList (pairs ++ [(key, value)]) := by
    intro key value
    simp only [Dictionary.insert, ofList, Entries.insert_ofList]
  cases step with
  | read value => cases value <;> simp [apply, ofJson, ofJson?, Succeeds, written, eq_comm]
  | collect own => simp [apply, Succeeds, written, eq_comm]
  | insert key value => simp [apply, Succeeds, written, hinsert, eq_comm]
  | exchange key value => simp [apply, Succeeds, written, Dictionary.exchange, hinsert, eq_comm]

theorem IsDistinct.written {step : Step} (h : step.IsDistinct)
    (hpairs : ∀ m ∈ pairs, m.2.KeysDistinct) : ∀ m ∈ step.written pairs, m.2.KeysDistinct := by
  have hadded : ∀ key value, value.KeysDistinct →
      ∀ m ∈ pairs ++ [(key, value)], m.2.KeysDistinct := by
    intro key value hvalue
    rw [List.forall_mem_append, List.forall_mem_singleton]
    exact ⟨hpairs, hvalue⟩
  cases step with
  | read value =>
    cases value with
    | object members => exact (Json.keysDistinct_object_iff.1 h).2
    | _ => exact hpairs
  | collect own => exact h
  | insert key value => exact hadded key value h
  | exchange key value => exact hadded key value h

end Step

/-- Writes a dictionary step by step, over what is there. -/
def run (d : Dictionary) (steps : List Step) : Except Error Dictionary := steps.foldlM Step.apply d

/-- The pairs that were written since the dictionary was last written anew. -/
def written (steps : List Step) : List (String × Json) := steps.foldl Step.written []

section Run

variable {pairs : List (String × Json)} {steps : List Step} {d e : Dictionary}

/-- A run leaves the collection of what it has written. -/
theorem run_ofList_eq_ok_iff : run (ofList pairs) steps = .ok d ↔
    (∀ step ∈ steps, step.Succeeds) ∧ d = ofList (steps.foldl Step.written pairs) := by
  induction steps generalizing pairs with
  | nil => simp [run, eq_comm]
  | cons step steps ih =>
    rw [run, List.foldlM_cons, bind_eq_ok_iff, List.forall_mem_cons, List.foldl_cons, and_assoc,
      ← ih]
    simp only [Step.apply_ofList_eq_ok_iff]
    constructor
    · rintro ⟨_, ⟨hstep, rfl⟩, hrest⟩
      exact ⟨hstep, hrest⟩
    · rintro ⟨hstep, hrest⟩
      exact ⟨_, ⟨hstep, rfl⟩, hrest⟩

theorem run_empty_eq_ok_iff : run empty steps = .ok d ↔
    (∀ step ∈ steps, step.Succeeds) ∧ d = ofList (written steps) :=
  @run_ofList_eq_ok_iff [] steps d

theorem keysDistinct_foldl_written (hpairs : ∀ m ∈ pairs, m.2.KeysDistinct)
    (hsteps : ∀ step ∈ steps, step.IsDistinct) :
    ∀ m ∈ steps.foldl Step.written pairs, m.2.KeysDistinct := by
  induction steps generalizing pairs with
  | nil => exact hpairs
  | cons step steps ih =>
    rw [List.forall_mem_cons] at hsteps
    exact ih (hsteps.1.written hpairs) hsteps.2

theorem keysDistinct_of_run (hrun : run empty steps = .ok d)
    (hsteps : ∀ step ∈ steps, step.IsDistinct) : d.toJson.KeysDistinct := by
  obtain ⟨-, rfl⟩ := run_empty_eq_ok_iff.1 hrun
  refine Json.keysDistinct_object_iff.2 ⟨(ofList _).distinct, fun m hm => ?_⟩
  have hwritten : m ∈ written steps := (Entries.mem_insertAll hm).resolve_left (by simp)
  exact keysDistinct_foldl_written (by simp) hsteps m hwritten

/-- The sorted entries are the entries in strictly increasing order of their keys, each with the value
that was written last. -/
structure Lists (d : Dictionary) (pairs : List (String × Json)) : Prop where
  increasing : (Entries.keys d.sortedEntries).Pairwise (· < ·)
  perm : d.sortedEntries.Perm d.entries
  mem_iff : ∀ key value, (key, value) ∈ d.sortedEntries ↔ Entries.IsLast pairs key value

theorem lists_ofList (pairs : List (String × Json)) : (ofList pairs).Lists pairs where
  increasing := Entries.keys_sorted_increasing (ofList pairs).distinct
  perm := Entries.sorted_perm _
  mem_iff key value := by
    rw [sortedEntries, (Entries.sorted_perm _).mem_iff,
      ← Entries.get?_eq_some_iff (ofList pairs).distinct, ofList, Entries.get?_ofList_eq_some_iff]

theorem lists_of_run (hrun : run empty steps = .ok d) : d.Lists (written steps) := by
  obtain ⟨-, rfl⟩ := run_empty_eq_ok_iff.1 hrun
  exact lists_ofList _

theorem equals_iff_aligned (hd : d.toJson.KeysDistinct) (he : e.toJson.KeysDistinct) :
    d.equals e = true ↔ Entries.Aligned Json.Same d.sortedEntries e.sortedEntries := by
  rw [equals, Json.equals_iff_same hd he, toJson, toJson, Json.same_object_iff, sortedEntries,
    sortedEntries, Entries.aligned_sorted_iff d.distinct e.distinct]

end Run

/-- Whatever steps dictionaries are written with, their sorted entries list each key once, in
code-point order, with the value written last; and they are equal exactly if their sorted entries have
the same keys in the same positions, with values that are the same but for the order of keys. -/
theorem sortedEntries_canonical {steps steps' : List Step} {d e : Dictionary}
    (hd : run empty steps = .ok d) (he : run empty steps' = .ok e)
    (hsteps : ∀ step ∈ steps ++ steps', step.IsDistinct) :
    d.Lists (written steps) ∧ e.Lists (written steps') ∧
      (d.equals e = true ↔ Entries.Aligned Json.Same d.sortedEntries e.sortedEntries) := by
  rw [List.forall_mem_append] at hsteps
  have hd' : d.toJson.KeysDistinct := keysDistinct_of_run hd hsteps.1
  have he' : e.toJson.KeysDistinct := keysDistinct_of_run he hsteps.2
  exact ⟨lists_of_run hd, lists_of_run he, equals_iff_aligned hd' he'⟩

/-- Keys in another order than they sort in, one of them written twice. -/
def rewritten : List Step :=
  [.insert "b" (.bool true), .insert "a" (.object [("x", .null), ("y", .array [.string "s"])]),
    .exchange "b" (.number (.float (.zero false)))]

/-- The same entries in another order, over one that no longer counts. -/
def collected : List Step :=
  [.read (.object [("z", .null)]),
    .collect [("a", .null), ("b", .number (.float (.zero true))),
      ("a", .object [("y", .array [.string "s"]), ("x", .null)])]]

theorem rewritten_canonical :
    run empty rewritten = .ok (ofList (written rewritten)) ∧
      run empty collected = .ok (ofList (written collected)) ∧
      (∀ step ∈ rewritten ++ collected, step.IsDistinct) ∧
      Entries.IsLast (written rewritten) "b" (.number (.float (.zero false))) ∧
      ("b", .number (.float (.zero false))) ∈ (ofList (written rewritten)).sortedEntries ∧
      Entries.Aligned Json.Same (ofList (written rewritten)).sortedEntries
        (ofList (written collected)).sortedEntries := by
  have hrewritten : run empty rewritten = .ok (ofList (written rewritten)) := rfl
  have hcollected : run empty collected = .ok (ofList (written collected)) := rfl
  have hsteps : ∀ step ∈ rewritten ++ collected, step.IsDistinct := by
    simp [rewritten, collected, Step.IsDistinct, Json.keysDistinct_object_iff,
      Json.keysDistinct_array_iff, or_imp, forall_and]
  have hlast : Entries.IsLast (written rewritten) "b" (.number (.float (.zero false))) :=
    ⟨(written rewritten).dropLast, [], rfl, by simp⟩
  have hequal : (ofList (written rewritten)).equals (ofList (written collected)) = true := rfl
  obtain ⟨hlists, -, hiff⟩ := sortedEntries_canonical hrewritten hcollected hsteps
  exact ⟨hrewritten, hcollected, hsteps, hlast, (hlists.mem_iff _ _).2 hlast, hiff.1 hequal⟩

end Dictionary

end DocQuery
