import DocQuery.Proofs.Entries
import Mathlib.Data.List.Perm.Subperm

/-! Keyed lists compared key by key and, once they are sorted, position by position. Where the keys are
distinct, the two comparisons come to the same. -/
namespace DocQuery.Entries

universe u v

variable {α : Type u} {β : Type v} {R : α → β → Prop} {es : Entries α} {fs : Entries β}

/-- The same keys on both sides, in whatever order, and related values under each. -/
structure Matches (R : α → β → Prop) (es : Entries α) (fs : Entries β) : Prop where
  keys_iff : ∀ key, key ∈ keys es ↔ key ∈ keys fs
  values : ∀ key v w, (key, v) ∈ es → (key, w) ∈ fs → R v w

theorem Matches.keys_perm (h : Matches R es fs) (hes : (keys es).Nodup) (hfs : (keys fs).Nodup) :
    (keys es).Perm (keys fs) :=
  (List.perm_ext_iff_of_nodup hes hfs).2 h.keys_iff

/-- Distinct keys that all occur among as many others are those others. -/
theorem keys_perm_of_subset (hes : (keys es).Nodup) (hsubset : keys es ⊆ keys fs)
    (hlength : es.length = fs.length) : (keys es).Perm (keys fs) := by
  apply (List.subperm_of_subset hes hsubset).perm_of_length_le
  simp [keys, hlength]

/-- Both have the same keys in the same positions, with related values. -/
def Aligned (R : α → β → Prop) (es : Entries α) (fs : Entries β) : Prop :=
  List.Forall₂ (fun m n => m.1 = n.1 ∧ R m.2 n.2) es fs

theorem Aligned.keys_eq (h : Aligned R es fs) : keys es = keys fs := by
  induction h with
  | nil => rfl
  | cons hm _ ih => rw [keys_cons, keys_cons, hm.1, ih]

/-- Where the keys are the same position by position, it is left to compare the values. -/
theorem aligned_iff_of_keys_eq (hes : (keys es).Nodup) (hkeys : keys es = keys fs) :
    Aligned R es fs ↔ ∀ key v w, (key, v) ∈ es → (key, w) ∈ fs → R v w := by
  induction es generalizing fs with
  | nil =>
    obtain rfl : fs = [] := List.map_eq_nil_iff.1 hkeys.symm
    exact iff_of_true .nil (by simp)
  | cons e es ih =>
    cases fs with
    | nil => simp at hkeys
    | cons f fs =>
      obtain ⟨k, v⟩ := e
      obtain ⟨l, w⟩ := f
      rw [keys_cons, keys_cons, List.cons.injEq] at hkeys
      obtain ⟨rfl, hkeys⟩ := hkeys
      rw [keys_cons, List.nodup_cons] at hes
      have hfs : k ∉ keys fs := hkeys ▸ hes.1
      rw [Aligned, List.forall₂_cons, ← Aligned, ih hes.2 hkeys]
      constructor
      · rintro ⟨⟨-, hhead⟩, hrest⟩ key v' w' hv hw
        rcases List.mem_cons.1 hv with hv | hv <;> rcases List.mem_cons.1 hw with hw | hw
        · cases hv
          cases hw
          exact hhead
        · cases hv
          exact absurd (mem_keys_of_mem hw) hfs
        · cases hw
          exact absurd (mem_keys_of_mem hv) hes.1
        · exact hrest key v' w' hv hw
      · intro h
        refine ⟨⟨rfl, h k v w List.mem_cons_self List.mem_cons_self⟩, fun key v' w' hv hw => ?_⟩
        exact h key v' w' (List.mem_cons_of_mem _ hv) (List.mem_cons_of_mem _ hw)

theorem keys_sorted_eq_of_perm (hes : (keys es).Nodup) (h : (keys es).Perm (keys fs)) :
    keys (sorted es) = keys (sorted fs) := by
  have hfs : (keys fs).Nodup := h.nodup_iff.1 hes
  have hperm : (keys (sorted es)).Perm (keys (sorted fs)) :=
    (keys_perm (sorted_perm es)).trans (h.trans (keys_perm (sorted_perm fs)).symm)
  refine hperm.eq_of_pairwise ?_ (keys_sorted_increasing hes) (keys_sorted_increasing hfs)
  intro a b _ _ hab hba
  exact absurd hba (String.lt_asymm hab)

/-- Sorting moves the comparison of two collections key by key to one position by position. -/
theorem aligned_sorted_iff (hes : (keys es).Nodup) (hfs : (keys fs).Nodup) :
    Aligned R (sorted es) (sorted fs) ↔ Matches R es fs := by
  have hvalues : (∀ key v w, (key, v) ∈ sorted es → (key, w) ∈ sorted fs → R v w) ↔
      ∀ key v w, (key, v) ∈ es → (key, w) ∈ fs → R v w := by
    simp only [(sorted_perm es).mem_iff, (sorted_perm fs).mem_iff]
  constructor
  · intro h
    refine ⟨fun key => ?_, ?_⟩
    · rw [← (keys_perm (sorted_perm es)).mem_iff, h.keys_eq, (keys_perm (sorted_perm fs)).mem_iff]
    · exact hvalues.1 ((aligned_iff_of_keys_eq (keys_nodup_sorted hes) h.keys_eq).1 h)
  · intro h
    have hkeys := keys_sorted_eq_of_perm hes (h.keys_perm hes hfs)
    exact (aligned_iff_of_keys_eq (keys_nodup_sorted hes) hkeys).2 (hvalues.2 h.values)

end DocQuery.Entries
