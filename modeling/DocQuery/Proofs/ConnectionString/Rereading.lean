import DocQuery.Proofs.ConnectionString.Writing

/-! Connection strings that were read are read back from their text, provided that their first seed
stands on its own and that no password came without a user. -/
namespace DocQuery

namespace Url

theorem password_of_credentials (userinfo : List Char) : (credentials userinfo).2 ≠ some [] := by
  unfold credentials
  split
  · simp
  · simp
  · next user password hne hcut =>
    intro hempty
    exact hne (Option.some.inj hempty)

/-- What is read as a URL has no empty password, and its path was resolved. -/
theorem password_path_of_read {cs : List Char} {url : Url} (h : read cs = .ok url) :
    url.password ≠ some [] ∧ ∃ path, url.path = resolvePath path := by
  obtain ⟨-, -, -, rest, -, -, rfl⟩ := (read_eq_ok_iff rfl).1 h
  exact ⟨password_of_credentials _, _, rfl⟩

end Url

namespace ConnectionString

theorem decode_eq_ok_iff {cs : List Char} {text : String} :
    decode cs = .ok text ↔ Percent.decodeChars cs = .ok text.toList := by
  rw [decode, mapError_eq_ok_iff, Percent.decode, map_eq_ok_iff]
  constructor
  · intro h
    rcases h with ⟨chars, hchars, rfl⟩
    rw [hchars, String.toList_ofList]
  · intro h
    exact ⟨text.toList, h, String.ofList_toList⟩

theorem decode_ne_empty {cs : List Char} (hne : cs ≠ []) {text : String}
    (h : decode cs = .ok text) : text ≠ "" := by
  rintro rfl
  exact hne (Percent.decodeChars_eq_nil_iff.1 (decode_eq_ok_iff.1 h))

theorem decodeNonempty_eq_some {cs : List Char} {text : String}
    (h : decodeNonempty cs = .ok (some text)) : cs ≠ [] ∧ decode cs = .ok text := by
  rw [decodeNonempty] at h
  split at h
  · cases h
  · next hne =>
    obtain ⟨decoded, hdecoded, heq⟩ := map_eq_ok_iff.1 h
    cases heq
    exact ⟨by simpa using hne, hdecoded⟩

theorem mem_cutAuthority (authority : List Char) : '@' ∉ (cutAuthority authority).2 ∧
    ∀ ch ∈ (cutAuthority authority).2, ch ∈ authority := by
  unfold cutAuthority
  split
  · next userinfo seeds hcut =>
    obtain ⟨rfl, hat⟩ := Text.cutLast?_eq_some hcut
    exact ⟨hat, fun ch hch => by simp [hch]⟩
  · next hcut => exact ⟨Text.cutLast?_eq_none.1 hcut, fun ch hch => hch⟩

/-- A text that is read has parts, and its seeds are free of what separates them from the rest. -/
theorem exists_ofParts {text : String} {c : ConnectionString} (h : ofText text = .ok c) :
    ∃ credentials seeds tail, ofParts credentials seeds tail = .ok c ∧
      ∀ ch ∈ seeds, endsSeeds ch = false ∧ ch ≠ '@' := by
  have hrest := ofRest_of_ofText h
  rw [ofRest_eq_ofParts] at hrest
  refine ⟨_, _, _, hrest, fun ch hch => ?_⟩
  obtain ⟨hat, hmem⟩ := mem_cutAuthority (authorityOf text)
  have hends := List.mem_takeWhile_imp (hmem ch hch)
  refine ⟨by simpa using hends, ?_⟩
  rintro rfl
  exact hat hch

theorem database_of_decodes {url : Url} {c : ConnectionString} (h : Decodes url c)
    (hpath : ∃ path, url.path = Url.resolvePath path) :
    c.database ∉ [some "", some ".", some ".."] := by
  obtain ⟨path, hpath⟩ := hpath
  have hstays : Url.Stays (url.path.dropWhile (· == '/')) := by
    rw [hpath]
    exact Url.trimmed_resolvePath path
  have hread : ∀ text, c.database = some text →
      text ≠ "" ∧ Percent.decodeChars (url.path.dropWhile (· == '/')) = .ok text.toList := by
    intro text htext
    obtain ⟨hne, hdecode⟩ := decodeNonempty_eq_some (htext ▸ h.database)
    exact ⟨decode_ne_empty hne hdecode, decode_eq_ok_iff.1 hdecode⟩
  intro hmem
  simp only [List.mem_cons, List.not_mem_nil, or_false] at hmem
  rcases hmem with hempty | hone | htwo
  · exact (hread _ hempty).1 rfl
  · exact hstays.1 (Url.dots?_eq_some_iff.2 (hread _ hone).2)
  · exact hstays.2 (Url.dots?_eq_some_iff.2 (hread _ htwo).2)

theorem password_of_decodes {url : Url} {c : ConnectionString} (h : Decodes url c)
    (hpassword : url.password ≠ some []) : c.password ≠ some "" := by
  intro hempty
  cases hwritten : url.password with
  | none =>
    have hnone : (.ok none : Except Fault (Option String)) = .ok c.password := by
      have hdecode := h.password
      rwa [hwritten] at hdecode
    rw [hempty] at hnone
    cases hnone
  | some password =>
    have hne : password ≠ [] := fun hnil => hpassword (by rw [hwritten, hnil])
    have hsome : some <$> decode password = .ok c.password := by
      have hdecode := h.password
      rwa [hwritten] at hdecode
    obtain ⟨decoded, hdecoded, heq⟩ := map_eq_ok_iff.1 hsome
    rw [hempty, Option.some.injEq] at heq
    exact decode_ne_empty hne hdecoded heq

/-- The seeds that are read are told apart when they are written. -/
theorem seed_of_cutAll {seeds part : List Char} (hempty : [] ∉ Text.cutAll ',' seeds)
    (hseeds : ∀ ch ∈ seeds, endsSeeds ch = false ∧ ch ≠ '@')
    (hpart : part ∈ Text.cutAll ',' seeds) :
    part ≠ [] ∧ ∀ ch ∈ part, ch ∉ ['/', '?', '@', ','] := by
  obtain ⟨hcomma, hmem⟩ := Text.mem_cutAll_spec hpart
  refine ⟨fun hnil => hempty (hnil ▸ hpart), fun ch hch hstop => ?_⟩
  obtain ⟨hends, hat⟩ := hseeds ch (hmem ch hch)
  simp only [List.mem_cons, List.not_mem_nil, or_false] at hstop
  rcases hstop with rfl | rfl | rfl | rfl
  · cases hends
  · cases hends
  · exact hat rfl
  · exact hcomma hch

/-- What was read has a host, no empty credentials, and a database that is no dot segment. -/
theorem parts_of_read {text : String} {c : ConnectionString} (h : ofText text = .ok c) :
    c.hosts ≠ [] ∧ c.user ≠ some "" ∧ c.password ≠ some "" ∧
      c.database ∉ [some "", some ".", some ".."] := by
  obtain ⟨credentials, seeds, tail, hparts, -⟩ := exists_ofParts h
  obtain ⟨-, hhosts, -, url, hurl, hdecodes⟩ := ofParts_eq_ok_iff.1 hparts
  obtain ⟨hpassword, hpath⟩ := Url.password_path_of_read hurl
  refine ⟨?_, ?_, password_of_decodes hdecodes hpassword, database_of_decodes hdecodes hpath⟩
  · rw [hhosts, Ne, List.map_eq_nil_iff]
    exact Text.cutAll_ne_nil ',' seeds
  · intro huser
    obtain ⟨hne, hdecode⟩ := decodeNonempty_eq_some (huser ▸ hdecodes.user)
    exact decode_ne_empty hne hdecode rfl

/-- What was read can be written, apart from what the two conditions rule out. -/
theorem isWritable_of_read {text : String} {c : ConnectionString} (h : ofText text = .ok c)
    (honly : c.user = none → c.password = none)
    (hfirst : ∀ seed, c.hosts.head? = some seed → Url.Stands seed.toList) : c.IsWritable := by
  obtain ⟨hne, huser, hpassword, hdatabase⟩ := parts_of_read h
  obtain ⟨credentials, seeds, tail, hparts, hseeds⟩ := exists_ofParts h
  obtain ⟨hempty, hhosts, hothers, -⟩ := ofParts_eq_ok_iff.1 hparts
  have hseparated : ∀ seed ∈ c.hosts, seed ≠ "" ∧ ∀ ch ∈ seed.toList, ch ∉ ['/', '?', '@', ','] := by
    intro seed hseed
    rw [hhosts] at hseed
    obtain ⟨part, hpart, rfl⟩ := List.mem_map.1 hseed
    obtain ⟨hne, hchars⟩ := seed_of_cutAll hempty hseeds hpart
    rw [String.toList_ofList]
    refine ⟨fun heq => hne ?_, hchars⟩
    rw [← String.toList_ofList (l := part), heq, String.toList_empty]
  refine ⟨⟨hne, hseparated, ?_, ?_, honly, hdatabase⟩, huser, hpassword⟩
  · intro seed hseed
    have hchars := (hseparated seed (List.mem_of_mem_head? hseed)).2
    have hends : ∀ ch ∈ seed.toList, ch ≠ '/' ∧ ch ≠ '?' := by
      intro ch hch
      have hne := hchars ch hch
      simp only [List.mem_cons, List.not_mem_nil, or_false, not_or] at hne
      exact ⟨hne.1, hne.2.1⟩
    exact Url.isPlace_of_stands hends (fun hat => hchars '@' hat (by simp)) (hfirst seed hseed)
  · rw [hhosts, ← List.map_tail]
    refine List.forall_mem_map.2 fun seed hseed => ?_
    rw [String.toList_ofList]
    exact hothers seed hseed

/-- A connection string that was read is read back from its text, if its first seed is a host with a
port or without one and nothing else, and if its password belongs to a user. -/
theorem ofText_text_of_read {text : String} {c : ConnectionString} (h : ofText text = .ok c)
    (honly : c.user = none → c.password = none)
    (hfirst : ∀ seed, c.hosts.head? = some seed → Url.Stands seed.toList) :
    ofText c.text = .ok c :=
  ofText_text (isWritable_of_read h honly hfirst)

/-- Blanks in a second seed, escapes of either case, an empty key and a path of two segments. -/
def reread : ConnectionString where
  user := some "a:b"
  password := some "p w"
  hosts := ["[::1]:9", "h "]
  database := some "x/../y"
  options := [("", "v"), ("tls", "")]

theorem reread_text :
    ofText "mongodb://a%3ab:p w@[::1]:9,h /./x%2F..%2Fy?=v&&tls" = .ok reread ∧
      ofText reread.text = .ok reread := by
  have hread : ofText "mongodb://a%3ab:p w@[::1]:9,h /./x%2F..%2Fy?=v&&tls" = .ok reread := by
    decide +kernel
  have hstands : ∀ seed, reread.hosts.head? = some seed → Url.Stands seed.toList := by
    intro seed hseed
    cases hseed
    exact ⟨⟨[], none, "[::1]".toList, ['/'], []⟩, by decide +kernel, by decide, rfl⟩
  exact ⟨hread, ofText_text_of_read hread (by decide) hstands⟩

/-- A blank after the only seed does not matter when it is read, but it stays in the seed, and the
slash that is written after it makes it part of the host. -/
theorem blankSeed_not_reread :
    ofText "h " = .ok ⟨none, none, ["h "], none, []⟩ ∧
      ofText (text ⟨none, none, ["h "], none, []⟩) = .error (.url .domainCharacter) := by
  constructor
  · rfl
  · rfl

end ConnectionString

end DocQuery
