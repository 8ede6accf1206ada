import DocQuery.Entries
import DocQuery.Proofs.Sequencing

/-! Keyed lists: looking up keys, and sorting them where they are distinct. -/
namespace DocQuery.Entries

universe u v w

variable {α : Type u} {β : Type v}

theorem sequence_eq_mapM {ε : Type v} (es : Entries (Except ε β)) :
    sequence es = es.mapM fun e => (fun b => (e.1, b)) <$> e.2 := by
  induction es with
  | nil => rfl
  | cons e es ih =>
    obtain ⟨key, result⟩ := e
    rw [sequence, ih, List.mapM_cons]
    cases result <;> rfl

theorem mem_insert {es : Entries α} {key : String} {value : α} {m : String × α}
    (h : m ∈ insert es key value) : m = (key, value) ∨ m ∈ es := by
  induction es with
  | nil => simpa [insert] using h
  | cons e es ih =>
    obtain ⟨k, v⟩ := e
    rw [insert] at h
    split at h
    · rcases List.mem_cons.1 h with rfl | hm
      · exact .inl rfl
      · exact .inr (List.mem_cons_of_mem _ hm)
    · rcases List.mem_cons.1 h with rfl | hm
      · exact .inr List.mem_cons_self
      · exact (ih hm).imp_right (List.mem_cons_of_mem _)

theorem mem_insertAll {es fs : Entries α} {m : String × α} (h : m ∈ insertAll es fs) :
    m ∈ es ∨ m ∈ fs := by
  induction fs generalizing es with
  | nil => exact .inl h
  | cons f fs ih =>
    have hrest : m ∈ insert es f.1 f.2 ∨ m ∈ fs := ih h
    rcases hrest with hm | hm
    · rcases mem_insert hm with rfl | hm
      · exact .inr List.mem_cons_self
      · exact .inl hm
    · exact .inr (List.mem_cons_of_mem _ hm)

theorem keys_append (es fs : Entries α) : keys (es ++ fs) = keys es ++ keys fs := List.map_append

/-- Of the keys that are written over a collection, the new ones come last, each where it is first
written. -/
theorem keys_insertAll (es fs : Entries α) :
    keys (insertAll es fs) = keys es ++ ((keys fs).filter (· ∉ keys es)).eraseDups := by
  induction fs generalizing es with
  | nil => simp [insertAll]
  | cons f fs ih =>
    obtain ⟨k, v⟩ := f
    have hstep : insertAll es ((k, v) :: fs) = insertAll (insert es k v) fs := rfl
    rw [hstep, ih, keys_insert, keys_cons]
    by_cases hk : k ∈ keys es
    · simp [hk]
    · simp [hk, List.eraseDups_cons, List.filter_filter, Bool.beq_eq_decide_eq, Bool.and_comm]

theorem insertAll_ne_nil {es : Entries α} (h : es ≠ []) (fs : Entries α) : insertAll es fs ≠ [] := by
  intro hnil
  have hkeys := keys_insertAll es fs
  rw [hnil, keys_nil, eq_comm, List.append_eq_nil_iff, keys, List.map_eq_nil_iff] at hkeys
  exact h hkeys.1

theorem keys_ofList (es : List (String × α)) : keys (ofList es) = (keys es).eraseDups := by
  rw [ofList, keys_insertAll]
  simp [List.filter_eq_self.2]

/-- Keys that are all written with one value are kept once each, where they come first. -/
theorem ofList_map_const (ks : List String) (v : α) :
    ofList (ks.map fun k => (k, v)) = ks.eraseDups.map fun k => (k, v) := by
  have hkeys : keys (ofList (ks.map fun k => (k, v))) = ks.eraseDups := by
    rw [keys_ofList, keys, List.map_map]
    simp [Function.comp_def]
  have hvalues : ∀ m ∈ ofList (ks.map fun k => (k, v)), (m.1, v) = m := by
    intro m hm
    rcases mem_insertAll hm with hm | hm
    · cases hm
    · obtain ⟨k, -, rfl⟩ := List.mem_map.1 hm
      rfl
  rw [← hkeys, keys, List.map_map]
  exact ((List.map_congr_left hvalues).trans (List.map_id' _)).symm

theorem eraseDups_of_nodup {ks : List String} (h : ks.Nodup) : ks.eraseDups = ks := by
  induction ks with
  | nil => rfl
  | cons k ks ih =>
    rw [List.nodup_cons] at h
    have hfresh : ks.filter (fun k' => !k' == k) = ks := by
      rw [List.filter_eq_self]
      intro k' hk'
      have hne : k' ≠ k := fun heq => h.1 (heq ▸ hk')
      simpa using hne
    rw [List.eraseDups_cons, hfresh, ih h.2]

theorem keys_insertAll_of_nodup {fs : Entries α} (h : (keys fs).Nodup) (es : Entries α) :
    keys (insertAll es fs) = keys es ++ (keys fs).filter (· ∉ keys es) := by
  rw [keys_insertAll, eraseDups_of_nodup (List.Pairwise.filter _ h)]

theorem sorted_sorted (es : Entries α) : sorted (sorted es) = sorted es :=
  List.mergeSort_of_pairwise ((sorted_pairwise es).imp fun h => by simpa [keyLE] using h)

/-- Entries whose keys increase are sorted already. -/
theorem sorted_of_increasing {es : Entries α} (h : (keys es).Pairwise (· < ·)) :
    sorted es = es := by
  have hle : es.Pairwise fun a b => keyLE a b = true :=
    (List.pairwise_map.1 h).imp fun hab => by simpa [keyLE] using Std.le_of_lt hab
  exact List.mergeSort_of_pairwise hle

@[simp] theorem keys_mapValues (f : α → β) (es : Entries α) : keys (mapValues f es) = keys es := by
  simp [keys, mapValues, Function.comp_def]

theorem mapValues_congr {f g : α → β} {es : Entries α} (h : ∀ m ∈ es, f m.2 = g m.2) :
    mapValues f es = mapValues g es := by
  apply List.map_congr_left
  intro m hm
  rw [h m hm]

theorem mapValues_mapValues {γ : Type u} (g : β → γ) (f : α → β) (es : Entries α) :
    mapValues g (mapValues f es) = mapValues (fun a => g (f a)) es := by
  simp [mapValues]

theorem sorted_eq_singleton_iff {es : Entries α} {e : String × α} : sorted es = [e] ↔ es = [e] := by
  constructor
  · intro h
    exact List.perm_singleton.1 (h ▸ (sorted_perm es).symm)
  · rintro rfl
    exact List.mergeSort_singleton e

theorem keys_perm {es fs : Entries α} (h : es.Perm fs) : (keys es).Perm (keys fs) := h.map _

theorem keys_nodup_sorted {es : Entries α} (h : (keys es).Nodup) : (keys (sorted es)).Nodup :=
  (keys_perm (sorted_perm es)).nodup_iff.2 h

theorem keys_sorted_increasing {es : Entries α} (h : (keys es).Nodup) :
    (keys (sorted es)).Pairwise (· < ·) := by
  have hle : (keys (sorted es)).Pairwise (· ≤ ·) := List.pairwise_map.2 (sorted_pairwise es)
  have hne : (keys (sorted es)).Pairwise (· ≠ ·) := keys_nodup_sorted h
  exact (hle.and hne).imp fun hab => Std.lt_of_le_of_ne hab.1 hab.2

theorem eq_of_keys_nodup {es : Entries α} (h : (keys es).Nodup) {m n : String × α} (hm : m ∈ es)
    (hn : n ∈ es) (hkey : m.1 = n.1) : m = n := by
  induction es with
  | nil => cases hm
  | cons e es ih =>
    rw [keys_cons, List.nodup_cons] at h
    rcases List.mem_cons.1 hm with rfl | hm' <;> rcases List.mem_cons.1 hn with rfl | hn'
    · rfl
    · exact (h.1 (List.mem_map.2 ⟨n, hn', hkey.symm⟩)).elim
    · exact (h.1 (List.mem_map.2 ⟨m, hm', hkey⟩)).elim
    · exact ih h.2 hm' hn'

/-- A conversion that keeps the keys does not care whether it is done before sorting them. -/
theorem sorted_map {f : String × α → String × β} (hf : ∀ e, (f e).1 = e.1) (es : Entries α) :
    sorted (es.map f) = (sorted es).map f :=
  (List.map_mergeSort fun a _ b _ => by simp [keyLE, hf]).symm

/-- What is left of a sequence in the order of the keys is decided by what is left of each result. -/
theorem toOption_sequence_sorted {ε : Type v} (es : Entries (Except ε β)) :
    (sorted es).sequence.toOption =
      (sorted (mapValues Except.toOption es)).mapM fun e => e.2.map fun b => (e.1, b) := by
  rw [sequence_eq_mapM, toOption_mapM, sorted_mapValues, mapValues, List.mapM_map]
  simp only [toOption_map]
  rfl

/-- Distinct keys have one sorted order. -/
theorem sorted_eq_of_perm {es fs : Entries α} (hes : (keys es).Nodup) (h : es.Perm fs) :
    sorted es = sorted fs := by
  have hperm : (sorted es).Perm (sorted fs) :=
    (sorted_perm es).trans (h.trans (sorted_perm fs).symm)
  refine List.Perm.eq_of_pairwise ?_ (sorted_pairwise es) (sorted_pairwise fs) hperm
  intro m n hm hn hmn hnm
  have hm' : m ∈ es := (sorted_perm es).mem_iff.1 hm
  have hn' : n ∈ es := h.mem_iff.2 ((sorted_perm fs).mem_iff.1 hn)
  exact eq_of_keys_nodup hes hm' hn' (String.le_antisymm hmn hnm)

theorem sorted_filter {es : Entries α} (h : (keys es).Nodup) (p : String × α → Bool) :
    sorted (es.filter p) = (sorted es).filter p := by
  have hnodup : (keys (es.filter p)).Nodup := h.sublist (List.filter_sublist.map _)
  have hperm : List.Perm (es.filter p) ((sorted es).filter p) := (sorted_perm es).symm.filter p
  rw [sorted_eq_of_perm hnodup hperm]
  refine List.mergeSort_of_pairwise (((sorted_pairwise es).filter p).imp fun hle => ?_)
  simpa [keyLE] using hle

theorem get?_eq_none_iff {es : Entries α} {key : String} :
    get? es key = none ↔ key ∉ keys es := by
  induction es with
  | nil => simp
  | cons e es ih =>
    obtain ⟨k, v⟩ := e
    rw [get?_cons, keys_cons, List.mem_cons, not_or, ← ih]
    by_cases h : k = key
    · simp [h]
    · simp [h, Ne.symm h]

theorem mem_keys_of_mem {es : Entries α} {key : String} {value : α} (h : (key, value) ∈ es) :
    key ∈ keys es :=
  List.mem_map_of_mem h

theorem mem_keys_iff {es : Entries α} {key : String} :
    key ∈ keys es ↔ ∃ value, get? es key = some value := by
  rw [← Option.isSome_iff_exists, ← Decidable.not_iff_not, ← get?_eq_none_iff,
    Option.not_isSome_iff_eq_none]

theorem hasKey_iff {es : Entries α} {key : String} :
    hasKey es key = true ↔ ∃ value, get? es key = some value := by
  rw [hasKey, List.contains_iff_mem, mem_keys_iff]

theorem mem_of_get? {es : Entries α} {key : String} {value : α} (h : get? es key = some value) :
    (key, value) ∈ es := by
  induction es with
  | nil => cases h
  | cons e es ih =>
    obtain ⟨k, v⟩ := e
    rw [get?_cons] at h
    split at h
    · next hkey =>
      cases h
      exact hkey ▸ List.mem_cons_self
    · exact List.mem_cons_of_mem _ (ih h)

theorem get?_append (es fs : Entries α) (key : String) :
    get? (es ++ fs) key = (get? es key).or (get? fs key) := List.lookup_append

theorem get?_eq_some_iff {es : Entries α} (h : (keys es).Nodup) {key : String} {value : α} :
    get? es key = some value ↔ (key, value) ∈ es := by
  induction es with
  | nil => simp
  | cons e es ih =>
    obtain ⟨k, v⟩ := e
    rw [keys_cons, List.nodup_cons] at h
    rw [get?_cons, List.mem_cons, Prod.mk.injEq, ← ih h.2]
    split
    · next hkey =>
      subst hkey
      have hnot : get? es k ≠ some value := fun hv => h.1 (mem_keys_of_mem ((ih h.2).1 hv))
      simp [hnot, eq_comm]
    · next hkey => simp [Ne.symm hkey]

theorem get?_eq_of_perm {es fs : Entries α} (hes : (keys es).Nodup) (h : es.Perm fs)
    (key : String) : get? es key = get? fs key := by
  have hfs : (keys fs).Nodup := (keys_perm h).nodup_iff.1 hes
  apply Option.ext
  intro value
  rw [get?_eq_some_iff hes, get?_eq_some_iff hfs, h.mem_iff]

theorem get?_mapValues (f : α → β) (es : Entries α) (key : String) :
    get? (mapValues f es) key = (get? es key).map f := by
  induction es with
  | nil => rfl
  | cons e es ih =>
    obtain ⟨k, v⟩ := e
    rw [mapValues, List.map_cons, get?_cons, get?_cons, ← mapValues, ih]
    split <;> rfl

/-- The entry of a key that may be left out. -/
def optional (key : String) (value : Option α) : Entries α := (value.map fun v => (key, v)).toList

@[simp] theorem get?_optional (key : String) (value : Option α) (k : String) :
    get? (optional key value) k = if key = k then value else none := by
  cases value with
  | none => simp [optional]
  | some v => simp [optional, get?_cons]

@[simp] theorem keys_optional (key : String) (value : Option α) :
    keys (optional key value) = if value.isSome then [key] else [] := by
  cases value <;> rfl

/-- Of the pairs that are written over a collection, the last one of its key counts. -/
theorem get?_insertAll_reverse (es fs : Entries α) (key : String) :
    get? (insertAll es fs) key = (get? fs.reverse key).or (get? es key) := by
  induction fs generalizing es with
  | nil => rfl
  | cons f fs ih =>
    obtain ⟨k, v⟩ := f
    have hstep : insertAll es ((k, v) :: fs) = insertAll (insert es k v) fs := rfl
    rw [hstep, ih, get?_insert, List.reverse_cons, get?_append, get?_cons, Option.or_assoc]
    split <;> rfl

/-- Of two collections written one over the other, the second one has its keys to itself. -/
theorem get?_insertAll {fs : Entries α} (h : (keys fs).Nodup) (es : Entries α) (key : String) :
    get? (insertAll es fs) key = (get? fs key).or (get? es key) := by
  rw [get?_insertAll_reverse, get?_eq_of_perm h (List.reverse_perm fs).symm]

/-- The last of the pairs with this key has this value. -/
def IsLast (pairs : List (String × α)) (key : String) (value : α) : Prop :=
  ∃ before after, pairs = before ++ (key, value) :: after ∧ key ∉ keys after

theorem not_mem_keys_reverse_iff {es : Entries α} {key : String} :
    key ∉ keys es.reverse ↔ ∀ m ∈ es, (key != m.1) = true := by
  rw [← List.lookup_eq_none_iff, ← get?, get?_eq_none_iff, keys, List.map_reverse, List.mem_reverse]
  rfl

theorem get?_reverse_eq_some_iff {pairs : List (String × α)} {key : String} {value : α} :
    get? pairs.reverse key = some value ↔ IsLast pairs key value := by
  rw [get?, List.lookup_eq_some_iff]
  constructor
  · rintro ⟨after, before, heq, hafter⟩
    refine ⟨before.reverse, after.reverse, ?_, not_mem_keys_reverse_iff.2 hafter⟩
    simpa using congrArg List.reverse heq
  · rintro ⟨before, after, rfl, hafter⟩
    refine ⟨after.reverse, before.reverse, by simp, not_mem_keys_reverse_iff.1 ?_⟩
    rwa [List.reverse_reverse]

theorem get?_ofList_eq_some_iff {pairs : List (String × α)} {key : String} {value : α} :
    get? (ofList pairs) key = some value ↔ IsLast pairs key value := by
  rw [ofList, get?_insertAll_reverse, get?_nil, Option.or_none, get?_reverse_eq_some_iff]

theorem insert_ofList (pairs : List (String × α)) (key : String) (value : α) :
    insert (ofList pairs) key value = ofList (pairs ++ [(key, value)]) := by
  rw [ofList, ofList, insertAll, insertAll, List.foldl_append]
  rfl

end DocQuery.Entries
