import DocQuery.ClientConfig
import Mathlib.Data.List.Basic

/-! Which URI options the client options yield: for each URI key the value of the first source that
has one, in the order of the mappings. -/
namespace DocQuery

/-- The option of a mapping's source as text. -/
def UriMapping.value? (m : UriMapping) (g : ClientConfig) : Option String :=
  (g.get? m.source).bind m.form.write?

namespace ClientConfig

/-- The value of the first of the mappings that have this URI key and a source that can be written. -/
def firstOf? (g : ClientConfig) (mappings : List UriMapping) (key : String) : Option String :=
  mappings.findSome? fun m => if m.key = key then m.value? g else none

/-- The value that the client options have for a URI key. -/
def firstValue? (g : ClientConfig) (key : String) : Option String := g.firstOf? uriMappings key

/-- What has been mapped after some of the mappings: one option for each key that has a value. -/
structure Mapped (g : ClientConfig) (done : List UriMapping) (mapped : List UriOption) : Prop where
  inOrder : (mapped.map UriOption.key).Sublist (done.map UriMapping.key)
  distinct : (mapped.map UriOption.key).Nodup
  mem_iff : ∀ key value, (∃ o ∈ mapped, o.key = key ∧ o.value = value) ↔
    g.firstOf? done key = some value

theorem firstOf?_append (g : ClientConfig) (done : List UriMapping) (m : UriMapping)
    (key : String) : g.firstOf? (done ++ [m]) key =
      (g.firstOf? done key).or (if m.key = key then m.value? g else none) := by
  rw [firstOf?, List.findSome?_append]
  congr 1
  rw [List.findSome?_cons]
  split <;> simp_all

theorem uriOption?_eq (g : ClientConfig) (m : UriMapping) :
    g.uriOption? m = (m.value? g).map fun value => ⟨m.source, m.key, value⟩ := rfl

/-- A mapping adds nothing if its URI key is taken or its source cannot be written, and the value of its
source otherwise. -/
theorem addMapped_cases (g : ClientConfig) (mapped : List UriOption) (m : UriMapping) :
    (∃ o ∈ mapped, o.key = m.key) ∧ g.addMapped mapped m = mapped ∨
      (∀ o ∈ mapped, o.key ≠ m.key) ∧ m.value? g = none ∧ g.addMapped mapped m = mapped ∨
      (∀ o ∈ mapped, o.key ≠ m.key) ∧ ∃ text, m.value? g = some text ∧
        g.addMapped mapped m = mapped ++ [⟨m.source, m.key, text⟩] := by
  rw [addMapped]
  split
  · next htaken =>
    obtain ⟨o, ho, hkey⟩ := List.any_eq_true.1 htaken
    exact .inl ⟨⟨o, ho, by simpa using hkey⟩, rfl⟩
  · next hfree =>
    have hnew : ∀ o ∈ mapped, o.key ≠ m.key := by
      intro o ho hkey
      exact hfree (List.any_eq_true.2 ⟨o, ho, by simpa using hkey⟩)
    rw [uriOption?_eq]
    cases hvalue : m.value? g with
    | none => exact .inr (.inl ⟨hnew, rfl, by simp⟩)
    | some text => exact .inr (.inr ⟨hnew, text, rfl, by simp⟩)

section Step

variable {g : ClientConfig} {done : List UriMapping} {mapped : List UriOption}

/-- A mapping whose key is taken adds nothing. -/
theorem Mapped.skip (h : Mapped g done mapped) {m : UriMapping} {o : UriOption} (ho : o ∈ mapped)
    (hkey : o.key = m.key) : Mapped g (done ++ [m]) mapped := by
  have hfirst : g.firstOf? done m.key = some o.value := (h.mem_iff _ _).1 ⟨o, ho, hkey, rfl⟩
  refine ⟨?_, h.distinct, ?_⟩
  · rw [List.map_append]
    exact h.inOrder.trans (List.sublist_append_left _ _)
  · intro key value
    rw [h.mem_iff, firstOf?_append]
    by_cases hm : m.key = key
    · rw [← hm, hfirst, Option.some_or]
    · rw [if_neg hm, Option.or_none]

/-- A mapping whose source cannot be written adds nothing. -/
theorem Mapped.unwritten (h : Mapped g done mapped) {m : UriMapping} (hvalue : m.value? g = none) :
    Mapped g (done ++ [m]) mapped := by
  refine ⟨?_, h.distinct, ?_⟩
  · rw [List.map_append]
    exact h.inOrder.trans (List.sublist_append_left _ _)
  · intro key value
    rw [h.mem_iff, firstOf?_append, hvalue, ite_self, Option.or_none]

/-- A mapping with a new key adds the value of its source. -/
theorem Mapped.add (h : Mapped g done mapped) {m : UriMapping} {text : String}
    (hnew : ∀ o ∈ mapped, o.key ≠ m.key) (hvalue : m.value? g = some text) :
    Mapped g (done ++ [m]) (mapped ++ [⟨m.source, m.key, text⟩]) := by
  have hfirst : g.firstOf? done m.key = none := by
    cases hdone : g.firstOf? done m.key with
    | none => rfl
    | some value =>
      obtain ⟨o, ho, hkey, -⟩ := (h.mem_iff _ _).2 hdone
      exact absurd hkey (hnew o ho)
  refine ⟨?_, ?_, ?_⟩
  · rw [List.map_append, List.map_append]
    exact h.inOrder.append (List.Sublist.refl _)
  · rw [List.map_append, List.nodup_append]
    refine ⟨h.distinct, by simp, ?_⟩
    intro key hkey key' hkey' heq
    obtain ⟨o, ho, rfl⟩ := List.mem_map.1 hkey
    exact hnew o ho (heq.trans (by simpa using hkey'))
  · intro key value
    have hadded : (∃ o ∈ mapped ++ [⟨m.source, m.key, text⟩], o.key = key ∧ o.value = value) ↔
        (∃ o ∈ mapped, o.key = key ∧ o.value = value) ∨ m.key = key ∧ text = value := by
      simp [or_and_right, exists_or]
    rw [hadded, h.mem_iff, firstOf?_append]
    by_cases hm : m.key = key
    · subst hm
      simp [hfirst, hvalue]
    · simp [hm]

theorem Mapped.start (g : ClientConfig) : Mapped g [] [] :=
  ⟨List.Sublist.refl _, List.nodup_nil, by simp [firstOf?]⟩

theorem Mapped.step (h : Mapped g done mapped) (m : UriMapping) :
    Mapped g (done ++ [m]) (g.addMapped mapped m) := by
  rcases g.addMapped_cases mapped m with
    ⟨⟨o, ho, hkey⟩, heq⟩ | ⟨-, hvalue, heq⟩ | ⟨hnew, text, hvalue, heq⟩
  · rw [heq]
    exact h.skip ho hkey
  · rw [heq]
    exact h.unwritten hvalue
  · rw [heq]
    exact h.add hnew hvalue

theorem Mapped.run (h : Mapped g done mapped) (rest : List UriMapping) :
    Mapped g (done ++ rest) (rest.foldl g.addMapped mapped) := by
  induction rest generalizing done mapped with
  | nil => simpa using h
  | cons m rest ih => simpa using ih (h.step m)

end Step

/-- The options that are mapped are the first values of their keys, in the order of the mappings. -/
theorem mapped_spec (g : ClientConfig) : Mapped g uriMappings g.mapped :=
  (Mapped.start g).run uriMappings

section Lookups

variable {d e : Dictionary}

theorem given?_congr {key : String} (h : d.get? key = e.get? key) :
    given? d key = given? e key := by
  rw [given?, given?, h]

theorem credential_congr {key : String} (h : given? d key = given? e key) :
    credential d key = credential e key := by
  rw [credential, credential, h]

/-- What is kept does not depend on the credentials. -/
theorem kept_congr (h : ∀ key ∈ recognizedOptions, key ∉ credentialKeys →
    given? d key = given? e key) : kept d = kept e := by
  unfold kept
  apply List.filterMap_congr
  intro key hkey
  have hfilter := List.mem_filter.1 hkey
  have hnot : key ∉ credentialKeys := by
    simpa using hfilter.2
  rw [h key hfilter.1 hnot]

end Lookups

end ClientConfig

end DocQuery
