import DocQuery.Proofs.ClientConfig
import DocQuery.Proofs.Entries
import Mathlib.Data.List.Nodup

/-! How client options divide into those that a connection string expresses and the others. Of the
mappings that share a URI key, the first one whose source can be written takes its source; all other
keys stay unmapped. -/
namespace DocQuery

namespace UriMapping

/-- The source of the mapping is among the options, with a value that its form can write. -/
def IsWritten (m : UriMapping) (g : ClientConfig) : Prop :=
  ∃ value text, g.get? m.source = some value ∧ m.form.write? value = some text

/-- The mapping can be written, and none of the earlier ones with its URI key can. -/
def IsFirst (m : UriMapping) (g : ClientConfig) (earlier : List UriMapping) : Prop :=
  m.IsWritten g ∧ ∀ n ∈ earlier, n.key = m.key → ¬ n.IsWritten g

theorem isWritten_iff {m : UriMapping} {g : ClientConfig} :
    m.IsWritten g ↔ ∃ text, m.value? g = some text := by
  simp only [IsWritten, value?, Option.bind_eq_some_iff]
  exact exists_comm

end UriMapping

/-- No option is the source of two mappings. -/
theorem uriMappings_sources : (uriMappings.map UriMapping.source).Nodup := by
  decide +kernel

/-- A mapping and what stands before it are known from its source. -/
theorem uriMappings_split_unique {before before' after after' : List UriMapping} {m m' : UriMapping}
    (h : uriMappings = before ++ m :: after) (h' : uriMappings = before' ++ m' :: after')
    (hsource : m.source = m'.source) : before = before' ∧ m = m' := by
  have hnodup : ((before ++ m :: after).map UriMapping.source).Nodup := h ▸ uriMappings_sources
  rw [List.map_append, List.map_cons, List.nodup_append, List.nodup_cons] at hnodup
  obtain ⟨-, ⟨hafter, -⟩, hbefore⟩ := hnodup
  have hnotBefore : m' ∉ before := by
    intro hm
    exact hbefore _ (List.mem_map_of_mem hm) _ List.mem_cons_self hsource.symm
  have hnotAfter : m' ∉ after := by
    intro hm
    exact hafter (hsource ▸ List.mem_map_of_mem hm)
  have heq := (List.append_cons_inj_of_notMem hnotBefore hnotAfter).1 (h.symm.trans h')
  exact ⟨heq.1, heq.2.1⟩

namespace ClientConfig

/-- The sources after some of the mappings: those of the mappings that are the first ones written for
their URI key, in order. -/
structure Sourced (g : ClientConfig) (done : List UriMapping) (mapped : List UriOption) : Prop where
  inOrder : (mapped.map UriOption.source).Sublist (done.map UriMapping.source)
  mem_iff : ∀ source, source ∈ mapped.map UriOption.source ↔
    ∃ before m after, done = before ++ m :: after ∧ m.source = source ∧ m.IsFirst g before

section Step

variable {g : ClientConfig} {done : List UriMapping} {mapped : List UriOption}

/-- A URI key is taken as soon as some mapping with it can be written. -/
theorem Mapped.taken_iff (h : Mapped g done mapped) (key : String) :
    (∃ o ∈ mapped, o.key = key) ↔ ∃ n ∈ done, n.key = key ∧ n.IsWritten g := by
  have hfirst : (∃ o ∈ mapped, o.key = key) ↔ ∃ value, g.firstOf? done key = some value := by
    constructor
    · rintro ⟨o, ho, hkey⟩
      exact ⟨o.value, (h.mem_iff _ _).1 ⟨o, ho, hkey, rfl⟩⟩
    · rintro ⟨value, hvalue⟩
      obtain ⟨o, ho, hkey, -⟩ := (h.mem_iff _ _).2 hvalue
      exact ⟨o, ho, hkey⟩
  rw [hfirst, ← Option.isSome_iff_exists, firstOf?, List.isSome_findSome?, List.any_eq_true]
  simp only [UriMapping.isWritten_iff, ← Option.isSome_iff_exists]
  apply exists_congr
  intro n
  by_cases hkey : n.key = key <;> simp [hkey]

/-- A mapping adds its source exactly if it is the first one written for its URI key. -/
theorem Mapped.sources_addMapped (h : Mapped g done mapped) (m : UriMapping) :
    m.IsFirst g done ∧ (g.addMapped mapped m).map UriOption.source =
        mapped.map UriOption.source ++ [m.source] ∨
      ¬ m.IsFirst g done ∧ g.addMapped mapped m = mapped := by
  rcases g.addMapped_cases mapped m with
    ⟨htaken, heq⟩ | ⟨-, hvalue, heq⟩ | ⟨hnew, text, hvalue, heq⟩
  · obtain ⟨n, hn, hkey, hwritten⟩ := (h.taken_iff m.key).1 htaken
    exact .inr ⟨fun hfirst => hfirst.2 n hn hkey hwritten, heq⟩
  · refine .inr ⟨fun hfirst => ?_, heq⟩
    obtain ⟨text, htext⟩ := UriMapping.isWritten_iff.1 hfirst.1
    cases hvalue.symm.trans htext
  · refine .inl ⟨⟨UriMapping.isWritten_iff.2 ⟨text, hvalue⟩, ?_⟩, by simp [heq]⟩
    intro n hn hkey hwritten
    obtain ⟨o, ho, hkey'⟩ := (h.taken_iff m.key).2 ⟨n, hn, hkey, hwritten⟩
    exact hnew o ho hkey'

theorem exists_isFirst_append {m : UriMapping} {source : String} :
    (∃ before n after, done ++ [m] = before ++ n :: after ∧ n.source = source ∧ n.IsFirst g before) ↔
      (∃ before n after, done = before ++ n :: after ∧ n.source = source ∧ n.IsFirst g before) ∨
        m.source = source ∧ m.IsFirst g done := by
  constructor
  · rintro ⟨before, n, after, heq, hsource, hfirst⟩
    obtain rfl | ⟨after, last, rfl⟩ := List.eq_nil_or_concat after
    · obtain ⟨rfl, rfl⟩ := List.append_inj' heq rfl |>.imp_right List.singleton_inj.1
      exact .inr ⟨hsource, hfirst⟩
    · rw [List.concat_eq_append, ← List.cons_append, ← List.append_assoc] at heq
      exact .inl ⟨before, n, after, (List.append_inj' heq rfl).1, hsource, hfirst⟩
  · rintro (⟨before, n, after, rfl, hsource, hfirst⟩ | ⟨hsource, hfirst⟩)
    · exact ⟨before, n, after ++ [m], by simp, hsource, hfirst⟩
    · exact ⟨done, m, [], rfl, hsource, hfirst⟩

theorem Sourced.step (hs : Sourced g done mapped) (h : Mapped g done mapped) (m : UriMapping) :
    Sourced g (done ++ [m]) (g.addMapped mapped m) := by
  rcases h.sources_addMapped m with ⟨hfirst, hsources⟩ | ⟨hnot, hsame⟩
  · refine ⟨?_, fun source => ?_⟩
    · rw [hsources, List.map_append]
      exact hs.inOrder.append (List.Sublist.refl _)
    · rw [hsources, List.mem_append, hs.mem_iff, exists_isFirst_append, List.mem_singleton]
      simp [hfirst, eq_comm]
  · refine ⟨?_, fun source => ?_⟩
    · rw [hsame, List.map_append]
      exact hs.inOrder.trans (List.sublist_append_left _ _)
    · rw [hsame, hs.mem_iff, exists_isFirst_append]
      simp [hnot]

theorem Sourced.run (hs : Sourced g done mapped) (h : Mapped g done mapped)
    (rest : List UriMapping) : Sourced g (done ++ rest) (rest.foldl g.addMapped mapped) := by
  induction rest generalizing done mapped with
  | nil => simpa using hs
  | cons m rest ih => simpa using ih (hs.step h m) (h.step m)

end Step

theorem sourced_mapped (g : ClientConfig) : Sourced g uriMappings g.mapped := by
  have hstart : Sourced g [] [] := ⟨List.Sublist.refl _, by simp⟩
  exact hstart.run (Mapped.start g) uriMappings

section Division

variable {g : ClientConfig} {key : String}

theorem sources_nodup (g : ClientConfig) : (g.mapped.map UriOption.source).Nodup :=
  uriMappings_sources.sublist (sourced_mapped g).inOrder

theorem mem_keys_of_source (h : key ∈ g.mapped.map UriOption.source) : key ∈ g.options.keys := by
  obtain ⟨_, m, _, -, rfl, hfirst⟩ := ((sourced_mapped g).mem_iff key).1 h
  obtain ⟨value, -, hvalue, -⟩ := hfirst.1
  exact Entries.mem_keys_iff.2 ⟨value, hvalue⟩

theorem any_source_iff :
    (g.mapped.any fun o => o.source == key) = true ↔ key ∈ g.mapped.map UriOption.source := by
  simp

theorem mem_unmapped_iff :
    key ∈ g.unmapped ↔ key ∈ g.options.keys ∧ key ∉ g.mapped.map UriOption.source := by
  rw [unmapped, List.mem_filter, Bool.not_eq_true', ← Bool.not_eq_true, any_source_iff]

/-- Each key is either a source or unmapped, and it is that once. -/
theorem sources_append_unmapped_perm (g : ClientConfig) :
    (g.mapped.map UriOption.source ++ g.unmapped).Perm g.options.keys := by
  have hkeys : g.options.keys.Nodup := g.options.distinct
  have hsources : (g.mapped.map UriOption.source).Perm
      (g.options.keys.filter fun key => g.mapped.any fun o => o.source == key) := by
    rw [List.perm_ext_iff_of_nodup g.sources_nodup (hkeys.filter _)]
    intro key
    rw [List.mem_filter, any_source_iff]
    exact ⟨fun h => ⟨mem_keys_of_source h, h⟩, And.right⟩
  exact (hsources.append_right _).trans (List.filter_append_perm _ _)

/-- The source of a mapping is mapped exactly if the mapping is the first one written for its key. -/
theorem source_mem_iff {before after : List UriMapping} {m : UriMapping}
    (hsplit : uriMappings = before ++ m :: after) :
    m.source ∈ g.mapped.map UriOption.source ↔ m.IsFirst g before := by
  rw [(sourced_mapped g).mem_iff]
  constructor
  · rintro ⟨before', m', after', hsplit', hsource, hfirst⟩
    obtain ⟨rfl, rfl⟩ := uriMappings_split_unique hsplit hsplit' hsource.symm
    exact hfirst
  · intro hfirst
    exact ⟨before, m, after, hsplit, rfl, hfirst⟩

/-- An option is left out if it has no mapping, if its value cannot be written, or if an earlier mapping
has its URI key. -/
theorem not_source_iff (hkey : key ∈ g.options.keys) : key ∉ g.mapped.map UriOption.source ↔
    (∀ m ∈ uriMappings, m.source ≠ key) ∨
      (∃ m ∈ uriMappings, m.source = key ∧
        ∃ value, g.get? key = some value ∧ m.form.write? value = none) ∨
      ∃ before m after, uriMappings = before ++ m :: after ∧ m.source = key ∧
        ∃ n ∈ before, n.key = m.key ∧ n.IsWritten g := by
  constructor
  · intro hnot
    by_cases hrow : ∃ m ∈ uriMappings, m.source = key
    · obtain ⟨m, hm, rfl⟩ := hrow
      obtain ⟨before, after, hsplit⟩ := List.append_of_mem hm
      rw [source_mem_iff hsplit] at hnot
      obtain ⟨value, hvalue⟩ := Entries.mem_keys_iff.1 hkey
      cases htext : m.form.write? value with
      | none => exact .inr (.inl ⟨m, hm, rfl, value, hvalue, htext⟩)
      | some text =>
        have hearlier : ∃ n ∈ before, n.key = m.key ∧ n.IsWritten g := by
          by_contra hother
          exact hnot ⟨⟨value, text, hvalue, htext⟩, fun n hn hkeys hn' => hother ⟨n, hn, hkeys, hn'⟩⟩
        exact .inr (.inr ⟨before, m, after, hsplit, rfl, hearlier⟩)
    · exact .inl fun m hm hsource => hrow ⟨m, hm, hsource⟩
  · rintro (hnone | ⟨m, hm, rfl, value, hvalue, htext⟩ |
      ⟨before, m, after, hsplit, rfl, n, hn, hkeys, hwritten⟩)
    · intro hsource
      obtain ⟨before, m, after, hsplit, hm, -⟩ := ((sourced_mapped g).mem_iff key).1 hsource
      exact hnone m (hsplit ▸ List.mem_append_right _ List.mem_cons_self) hm
    · obtain ⟨before, after, hsplit⟩ := List.append_of_mem hm
      rw [source_mem_iff hsplit]
      rintro ⟨⟨value', text, hvalue', htext'⟩, -⟩
      cases hvalue.symm.trans hvalue'
      cases htext.symm.trans htext'
    · rw [source_mem_iff hsplit]
      exact fun hfirst => hfirst.2 n hn hkeys hwritten

end Division

/-- The keys of the options are divided between the sources of URI options and the unmapped keys, each
in one part and once. No two URI options have the same key. An option stays unmapped exactly if it has
no mapping, if its value cannot be written, or if an earlier mapping with its URI key can. -/
theorem options_divided (g : ClientConfig) :
    (g.mapped.map UriOption.source ++ g.unmapped).Perm g.options.keys ∧
      (g.mapped.map UriOption.source ++ g.unmapped).Nodup ∧
      (g.mapped.map UriOption.key).Nodup ∧
      ∀ key ∈ g.options.keys, (key ∈ g.unmapped ↔
        (∀ m ∈ uriMappings, m.source ≠ key) ∨
          (∃ m ∈ uriMappings, m.source = key ∧
            ∃ value, g.get? key = some value ∧ m.form.write? value = none) ∨
          ∃ before m after, uriMappings = before ++ m :: after ∧ m.source = key ∧
            ∃ n ∈ before, n.key = m.key ∧ n.IsWritten g) := by
  have hperm := sources_append_unmapped_perm g
  refine ⟨hperm, hperm.nodup_iff.2 g.options.distinct, (mapped_spec g).distinct, ?_⟩
  intro key hkey
  rw [mem_unmapped_iff, ← not_source_iff hkey]
  exact and_iff_right hkey

/-- Two pairs of options with a URI key in common. The first certificate cannot be written, and both
latencies can. -/
def sharing : Dictionary :=
  .ofList [("sslKey", .string "key.pem"), ("sslCert", .bool true), ("autoReconnect", .bool true),
    ("acceptableLatencyMS", .number (.int 15 (by decide))),
    ("secondaryAcceptableLatencyMS", .number (.int 30 (by decide))),
    ("poolSize", .number (.int (-5) (by decide)))]

example : (ofOptions sharing).toOption.map (fun g => (g.mapped.map UriOption.source, g.unmapped)) =
    some (["sslKey", "acceptableLatencyMS"],
      ["sslCert", "poolSize", "autoReconnect", "secondaryAcceptableLatencyMS"]) := by
  decide +kernel

end ClientConfig

end DocQuery
