import DocQuery.Proofs.Entries.Comparison
import DocQuery.Proofs.Json.Order

/-! The comparison of JSON values decides whether they are the same up to the order of keys: objects
are the same if they have the same keys and, under each key, values that are the same again. -/
namespace DocQuery

namespace Json

/-- The same value, whatever the order of keys at any depth. -/
inductive Same : Json → Json → Prop
  | null : Same .null .null
  | bool (b : Bool) : Same (.bool b) (.bool b)
  | number {m n : Number} : m.equals n = true → Same (.number m) (.number n)
  | string (s : String) : Same (.string s) (.string s)
  | array {xs ys : List Json} : xs.length = ys.length → (∀ p ∈ xs.zip ys, Same p.1 p.2) →
      Same (.array xs) (.array ys)
  | object {ms ns : List (String × Json)} :
      (∀ key, key ∈ Entries.keys ms ↔ key ∈ Entries.keys ns) →
      (∀ key v w, (key, v) ∈ ms → (key, w) ∈ ns → Same v w) → Same (.object ms) (.object ns)

theorem same_object_iff {ms ns : List (String × Json)} :
    Same (.object ms) (.object ns) ↔ Entries.Matches Same ms ns := by
  constructor
  · intro h
    cases h with
    | object hkeys hvalues => exact ⟨hkeys, hvalues⟩
  · intro h
    exact .object h.keys_iff h.values

theorem itemsEqual_iff {xs ys : List Json} : itemsEqual xs ys = true ↔
    xs.length = ys.length ∧ ∀ p ∈ xs.zip ys, equals p.1 p.2 = true := by
  induction xs generalizing ys with
  | nil => cases ys <;> simp [itemsEqual]
  | cons x xs ih =>
    cases ys with
    | nil => simp [itemsEqual]
    | cons y ys =>
      rw [itemsEqual, Bool.and_eq_true, ih, List.zip_cons_cons, List.forall_mem_cons,
        List.length_cons, List.length_cons, Nat.add_right_cancel_iff]
      exact and_left_comm

theorem membersWithin_iff {ms : List (String × Json)} {ns : Entries Json} :
    membersWithin ms ns = true ↔
      ∀ m ∈ ms, ∃ w, ns.get? m.1 = some w ∧ equals m.2 w = true := by
  induction ms with
  | nil => simp [membersWithin]
  | cons m ms ih =>
    rw [membersWithin, Bool.and_eq_true, ih, List.forall_mem_cons]
    apply and_congr_left'
    cases ns.get? m.1 <;> simp

/-- Of objects whose keys are distinct, those that have as many members and hold each other's members
one way hold them both ways. -/
theorem equals_object_iff {ms ns : List (String × Json)} (hms : (Entries.keys ms).Nodup)
    (hns : (Entries.keys ns).Nodup) : equals (.object ms) (.object ns) = true ↔
      Entries.Matches (fun v w => equals v w = true) ms ns := by
  rw [equals, Bool.and_eq_true, beq_iff_eq, membersWithin_iff]
  constructor
  · rintro ⟨hlength, hwithin⟩
    have hsubset : Entries.keys ms ⊆ Entries.keys ns := by
      intro key hkey
      obtain ⟨m, hm, rfl⟩ := List.mem_map.1 hkey
      obtain ⟨w, hw, -⟩ := hwithin m hm
      exact Entries.mem_keys_iff.2 ⟨w, hw⟩
    have hperm := Entries.keys_perm_of_subset hms hsubset hlength
    refine ⟨fun key => hperm.mem_iff, fun key v w hv hw => ?_⟩
    obtain ⟨w', hw', hequal⟩ := hwithin (key, v) hv
    cases hw'.symm.trans ((Entries.get?_eq_some_iff hns).2 hw)
    exact hequal
  · intro h
    refine ⟨by simpa [Entries.keys] using (h.keys_perm hms hns).length_eq, ?_⟩
    rintro ⟨key, v⟩ hm
    obtain ⟨w, hw⟩ := Entries.mem_keys_iff.1 ((h.keys_iff key).1 (Entries.mem_keys_of_mem hm))
    exact ⟨w, hw, h.values key v w hm (Entries.mem_of_get? hw)⟩

theorem same_of_equals {v w : Json} (hv : v.KeysDistinct) (hw : w.KeysDistinct)
    (h : v.equals w = true) : v.Same w := by
  induction v using Json.induction generalizing w with
  | null =>
    cases w with
    | null => exact .null
    | _ => simp [equals] at h
  | bool b =>
    cases w with
    | bool c =>
      obtain rfl : b = c := by simpa [equals] using h
      exact .bool b
    | _ => simp [equals] at h
  | number m =>
    cases w with
    | number n =>
      rw [equals] at h
      exact .number h
    | _ => simp [equals] at h
  | string s =>
    cases w with
    | string t =>
      obtain rfl : s = t := by simpa [equals] using h
      exact .string s
    | _ => simp [equals] at h
  | array xs ih =>
    cases w with
    | array ys =>
      rw [equals, itemsEqual_iff] at h
      rw [keysDistinct_array_iff] at hv hw
      refine .array h.1 fun p hp => ?_
      have hitems := List.of_mem_zip hp
      exact ih p.1 hitems.1 (hv _ hitems.1) (hw _ hitems.2) (h.2 p hp)
    | _ => simp [equals] at h
  | object ms ih =>
    cases w with
    | object ns =>
      obtain ⟨hms, hvalues⟩ := keysDistinct_object_iff.1 hv
      obtain ⟨hns, hothers⟩ := keysDistinct_object_iff.1 hw
      have hmatch := (equals_object_iff hms hns).1 h
      refine .object hmatch.keys_iff fun key v w hm hn => ?_
      exact ih (key, v) hm (hvalues _ hm) (hothers _ hn) (hmatch.values key v w hm hn)
    | _ => simp [equals] at h

theorem equals_of_same {v w : Json} (hv : v.KeysDistinct) (hw : w.KeysDistinct)
    (h : v.Same w) : v.equals w = true := by
  induction h with
  | null => rfl
  | bool b => simp [equals]
  | number h => rwa [equals]
  | string s => simp [equals]
  | array hlength _ ih =>
    rw [keysDistinct_array_iff] at hv hw
    rw [equals, itemsEqual_iff]
    refine ⟨hlength, fun p hp => ?_⟩
    have hitems := List.of_mem_zip hp
    exact ih p hp (hv _ hitems.1) (hw _ hitems.2)
  | object hkeys _ ih =>
    obtain ⟨hms, hvalues⟩ := keysDistinct_object_iff.1 hv
    obtain ⟨hns, hothers⟩ := keysDistinct_object_iff.1 hw
    rw [equals_object_iff hms hns]
    exact ⟨hkeys, fun key v w hm hn => ih key v w hm hn (hvalues _ hm) (hothers _ hn)⟩

/-- Where the keys of each object are distinct, the comparison decides whether values are the same. -/
theorem equals_iff_same {v w : Json} (hv : v.KeysDistinct) (hw : w.KeysDistinct) :
    v.equals w = true ↔ v.Same w :=
  ⟨same_of_equals hv hw, equals_of_same hv hw⟩

end Json

end DocQuery
