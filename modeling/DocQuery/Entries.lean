/-! Key-value lists in insertion order. Writing a key keeps its place and replaces its value;
sorting orders the keys by code point. -/
namespace DocQuery

universe u v w

/-- The entries of a keyed collection, in the order in which their keys were first written. -/
abbrev Entries (α : Type u) := List (String × α)

namespace Entries

variable {α : Type u} {β : Type v}

def keys (es : Entries α) : List String := es.map Prod.fst

def values (es : Entries α) : List α := es.map Prod.snd

def get? (es : Entries α) (key : String) : Option α := es.lookup key

def hasKey (es : Entries α) (key : String) : Bool := es.keys.contains key

/-- A key that is present keeps its place; a new one comes last. -/
def insert : Entries α → String → α → Entries α
  | [], key, value => [(key, value)]
  | (k, v) :: es, key, value =>
      if k = key then (key, value) :: es else (k, v) :: insert es key value

/-- Writes the entries of the second list, in order, over the first. -/
def insertAll (es fs : Entries α) : Entries α :=
  fs.foldl (fun acc e => insert acc e.1 e.2) es

/-- A key given twice keeps its first place and its last value. -/
def ofList (es : List (String × α)) : Entries α := insertAll [] es

def mapValues (f : α → β) (es : Entries α) : Entries β := es.map fun e => (e.1, f e.2)

def keyLE (a b : String × α) : Bool := decide (a.1 ≤ b.1)

/-- The same entries in code-point order of their keys. -/
def sorted (es : Entries α) : Entries α := es.mergeSort keyLE

/-- Every value, or the first failure in order. -/
def sequence {ε : Type w} : Entries (Except ε β) → Except ε (Entries β)
  | [] => .ok []
  | (key, result) :: es => do
      let value ← result
      let rest ← sequence es
      return (key, value) :: rest

@[simp] theorem get?_nil (key : String) : get? ([] : Entries α) key = none := rfl

theorem get?_cons (k : String) (v : α) (es : Entries α) (key : String) :
    get? ((k, v) :: es) key = if k = key then some v else get? es key := by
  by_cases h : k = key
  · simp [get?, h]
  · simp [get?, List.lookup_cons, h, beq_eq_false_iff_ne.2 (Ne.symm h)]

@[simp] theorem keys_nil : keys ([] : Entries α) = [] := rfl

@[simp] theorem keys_cons (e : String × α) (es : Entries α) : keys (e :: es) = e.1 :: keys es := rfl

theorem keys_insert (es : Entries α) (key : String) (value : α) :
    keys (insert es key value) = if key ∈ keys es then keys es else keys es ++ [key] := by
  induction es with
  | nil => simp [insert]
  | cons e es ih =>
    obtain ⟨k, v⟩ := e
    by_cases h : k = key
    · simp [insert, h]
    · by_cases hm : key ∈ keys es <;> simp [insert, h, ih, hm, Ne.symm h]

theorem get?_insert (es : Entries α) (key : String) (value : α) (k : String) :
    get? (insert es key value) k = if key = k then some value else get? es k := by
  induction es with
  | nil => simp [insert, get?_cons]
  | cons e es ih =>
    obtain ⟨k', v⟩ := e
    by_cases h : k' = key
    · by_cases hk : key = k <;> simp [insert, get?_cons, h, hk]
    · by_cases hk : key = k
      · subst hk
        simp [insert, get?_cons, h, ih]
      · simp [insert, get?_cons, h, ih, hk]

theorem keys_nodup_insert {es : Entries α} (h : (keys es).Nodup) (key : String) (value : α) :
    (keys (insert es key value)).Nodup := by
  rw [keys_insert]
  split
  · exact h
  · next hm => exact List.nodup_append.2 ⟨h, by simp, by rintro a ha b hb rfl; simp_all⟩

theorem keys_nodup_insertAll {es : Entries α} (h : (keys es).Nodup) (fs : Entries α) :
    (keys (insertAll es fs)).Nodup := by
  induction fs generalizing es with
  | nil => exact h
  | cons f fs ih => exact ih (keys_nodup_insert h f.1 f.2)

theorem keys_nodup_ofList (es : List (String × α)) : (keys (ofList es)).Nodup :=
  keys_nodup_insertAll (by simp) es

theorem insert_of_not_mem {es : Entries α} {key : String} (h : key ∉ keys es) (value : α) :
    insert es key value = es ++ [(key, value)] := by
  induction es with
  | nil => rfl
  | cons e es ih =>
    rw [keys_cons, List.mem_cons, not_or] at h
    simp [insert, Ne.symm h.1, ih h.2]

theorem insertAll_of_disjoint {es fs : Entries α} (h : (keys (es ++ fs)).Nodup) :
    insertAll es fs = es ++ fs := by
  induction fs generalizing es with
  | nil => simp [insertAll]
  | cons f fs ih =>
    have hf : f.1 ∉ keys es := by
      have := h
      rw [keys, List.map_append, List.nodup_append] at this
      exact fun hm => this.2.2 _ hm f.1 (by simp) rfl
    have step : insertAll es (f :: fs) = insertAll (insert es f.1 f.2) fs := rfl
    rw [step, insert_of_not_mem hf, ih (by simpa using h)]
    simp

/-- A list whose keys are distinct is its own collection. -/
theorem ofList_of_nodup {es : Entries α} (h : (keys es).Nodup) : ofList es = es :=
  insertAll_of_disjoint (by simpa using h)

theorem sorted_perm (es : Entries α) : (sorted es).Perm es := List.mergeSort_perm ..

theorem sorted_pairwise (es : Entries α) : (sorted es).Pairwise fun a b => a.1 ≤ b.1 := by
  have h : (sorted es).Pairwise fun a b => keyLE a b = true :=
    List.pairwise_mergeSort
      (fun a b c hab hbc => by
        simp only [keyLE, decide_eq_true_eq] at *
        exact String.le_trans hab hbc)
      (fun a b => by simpa [keyLE] using String.le_total a.1 b.1) es
  exact h.imp fun hab => by simpa [keyLE] using hab

theorem sorted_mapValues (f : α → β) (es : Entries α) :
    sorted (mapValues f es) = mapValues f (sorted es) :=
  (List.map_mergeSort (f := fun e : String × α => (e.1, f e.2)) fun _ _ _ _ => rfl).symm

end Entries

end DocQuery
