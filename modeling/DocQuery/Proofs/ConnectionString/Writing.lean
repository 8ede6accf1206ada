import DocQuery.Proofs.ConnectionString.Reading

/-! A connection string is read back from its text. Each part is coded, so that no separator occurs
within it; only the seeds are written as they are. -/
namespace DocQuery.ConnectionString

open Percent

/-- The user information of a connection string as it is written. -/
def userinfo? (c : ConnectionString) : Option (List Char) :=
  c.user.map fun user => encodeChars user.toList ++
    (c.password.map fun password => ':' :: encodeChars password.toList).getD []

def databaseChars (c : ConnectionString) : List Char :=
  (c.database.map fun database => encodeChars database.toList).getD []

def optionChars (o : String × String) : List Char :=
  encodeChars o.1.toList ++ '=' :: encodeChars o.2.toList

def queryChars (options : List (String × String)) : List Char :=
  if options.isEmpty then [] else '?' :: ['&'].intercalate (options.map optionChars)

theorem toList_queryText (options : List (String × String)) :
    (queryText options).toList = queryChars options := by
  have hoption : String.toList ∘ optionText = optionChars := by
    funext o
    simp [optionText, optionChars, encode]
  unfold queryText queryChars
  split
  · rfl
  · simp [String.toList_intercalate, List.map_map, hoption]

/-- The parts of the text, one after the other. -/
theorem toList_text (c : ConnectionString) :
    c.text.toList = "mongodb://".toList ++ (Url.prefixOf c.userinfo? ++
      [','].intercalate (c.hosts.map String.toList) ++
        '/' :: (c.databaseChars ++ queryChars c.options)) := by
  have hdatabase : ((c.database.map encode).getD "").toList = c.databaseChars := by
    unfold databaseChars
    cases c.database <;> simp [encode]
  have hcredentials : (credentialsText c.user (c.password.map encode)).toList =
      Url.prefixOf c.userinfo? := by
    unfold userinfo? credentialsText
    cases c.user <;> cases c.password <;> simp [encode, Url.prefixOf]
  simp [text, textWith, scheme, String.toList_intercalate, toList_queryText, hdatabase,
    hcredentials]

theorem cutScheme?_scheme (rest : List Char) :
    cutScheme? ("mongodb://".toList ++ rest) = some (scheme.toList, rest) := by
  rfl

theorem ofText_text_eq (c : ConnectionString) : ofText c.text =
    ofRest (Url.prefixOf c.userinfo? ++ [','].intercalate (c.hosts.map String.toList) ++
      '/' :: (c.databaseChars ++ queryChars c.options)) := by
  rw [ofText, toList_text, ofChars, cutScheme?_scheme]
  simp

/-- What can be written: a password only after a user, a database that is no dot segment, and seeds
that are told apart and read as they are written. -/
structure IsLegible (c : ConnectionString) : Prop where
  hosts : c.hosts ≠ []
  seeds : ∀ seed ∈ c.hosts, seed ≠ "" ∧ ∀ ch ∈ seed.toList, ch ∉ ['/', '?', '@', ',']
  first : ∀ seed, c.hosts.head? = some seed → Url.IsPlace (Url.visible seed.toList) ∧
    ∀ ch ∈ Url.visible seed.toList, Url.endsAuthority ch = false
  others : ∀ seed ∈ c.hosts.tail, checkSeed seed.toList = .ok ()
  only : c.user = none → c.password = none
  database : c.database ∉ [some "", some ".", some ".."]

/-- What a text can carry: parts that can be written and credentials that are not empty. -/
structure IsWritable (c : ConnectionString) : Prop extends IsLegible c where
  user : c.user ≠ some ""
  password : c.password ≠ some ""

/-- A part that is not empty. -/
def nonempty? (part : Option String) : Option String := part.filter fun text => text ≠ ""

/-- The connection string without an empty user or password. -/
def compact (c : ConnectionString) : ConnectionString :=
  c.withCredentials (nonempty? c.user) (nonempty? c.password)

theorem nonempty?_some {text : String} (h : text ≠ "") : nonempty? (some text) = some text :=
  Option.filter_some_pos (by simpa using h)

theorem nonempty?_of_ne {part : Option String} (h : part ≠ some "") : nonempty? part = part := by
  cases part with
  | none => rfl
  | some text => exact nonempty?_some fun hempty => h (by rw [hempty])

theorem IsWritable.compact_eq {c : ConnectionString} (h : c.IsWritable) : c.compact = c := by
  rw [compact, nonempty?_of_ne h.user, nonempty?_of_ne h.password]
  rfl

theorem toList_ne_nil {s : String} (h : s ≠ "") : s.toList ≠ [] := by
  simpa using h

theorem decode_encodeChars (text : String) :
    ConnectionString.decode (encodeChars text.toList) = .ok text := by
  have hcode := decode_encode text
  rw [encode, String.toList_ofList] at hcode
  rw [ConnectionString.decode, hcode, mapError_ok]

theorem encodeChars_ne_nil {text : String} (h : text ≠ "") : encodeChars text.toList ≠ [] := by
  rw [Ne, encodeChars_eq_nil_iff]
  exact toList_ne_nil h

/-- An empty part is not told from an absent one. -/
theorem decodeNonempty_encodeChars (part : Option String) :
    decodeNonempty ((part.map fun text => encodeChars text.toList).getD []) =
      .ok (nonempty? part) := by
  cases part with
  | none => rfl
  | some text =>
    by_cases hempty : text = ""
    · subst hempty
      rfl
    · have hne := encodeChars_ne_nil hempty
      rw [nonempty?_some hempty, Option.map_some, Option.getD_some, decodeNonempty,
        if_neg (by simpa using hne), decode_encodeChars, map_ok]

theorem readOption_optionChars (o : String × String) : readOption (optionChars o) = .ok o := by
  have hcut : Text.cutFirst? '=' (optionChars o) =
      some (encodeChars o.1.toList, encodeChars o.2.toList) :=
    Text.cutFirst?_append (not_mem_encodeChars (by decide) _) _
  simp [readOption, hcut, decode_encodeChars]

theorem not_mem_optionChars {ch : Char} (hcoded : isCoded ch = false) (heq : ch ≠ '=')
    (o : String × String) : ch ∉ optionChars o := by
  simp [optionChars, not_mem_encodeChars hcoded, heq]

theorem mapM_optionChars (options : List (String × String)) :
    (options.map optionChars).mapM readOption = .ok options := by
  induction options with
  | nil => rfl
  | cons o options ih =>
    rw [List.map_cons, List.mapM_cons, readOption_optionChars, ih]
    rfl

/-- The query of a text holds its options, each in a part of its own. -/
theorem readOptions_queryChars (options : List (String × String)) :
    readOptions (Url.queryOf (queryChars options)) = .ok options := by
  cases options with
  | nil => rfl
  | cons o options =>
    have hfragment : ∀ ch ∈ ['&'].intercalate ((o :: options).map optionChars),
        (ch != '#') = true := by
      intro ch hch
      rw [bne_iff_ne]
      rintro rfl
      rcases Text.mem_intercalate hch with hsep | ⟨part, hpart, hch⟩
      · cases hsep
      · obtain ⟨o', -, rfl⟩ := List.mem_map.1 hpart
        exact not_mem_optionChars (by decide) (by decide) o' hch
    have hquery : Url.queryOf (queryChars (o :: options)) =
        ['&'].intercalate ((o :: options).map optionChars) := List.takeWhile_eq_self_iff.2 hfragment
    have hparts : ∀ part ∈ (o :: options).map optionChars, '&' ∉ part :=
      List.forall_mem_map.2 fun o' _ => not_mem_optionChars (by decide) (by decide) o'
    have hkept : ((o :: options).map optionChars).filter (fun pair => !pair.isEmpty) =
        (o :: options).map optionChars := by
      rw [List.filter_eq_self]
      exact List.forall_mem_map.2 fun o' _ => by simp [optionChars]
    rw [readOptions, hquery, Text.cutAll_intercalate (by simp) hparts, hkept, mapM_optionChars]

/-- The first colon ends the user, and nothing after it is no password. -/
theorem credentials_append {user : List Char} (hcolon : ':' ∉ user) (password : List Char) :
    Url.credentials (user ++ ':' :: password) =
      (user, if password.isEmpty then none else some password) := by
  rw [Url.credentials, Text.cutFirst?_append hcolon]
  cases password <;> rfl

/-- User and password come out of the user information that they are written in, unless they are
empty. -/
theorem credentials_userinfo {c : ConnectionString} (only : c.user = none → c.password = none) :
    decodeNonempty (Url.credentials (c.userinfo?.getD [])).1 = .ok (nonempty? c.user) ∧
      (Url.credentials (c.userinfo?.getD [])).2.mapM ConnectionString.decode =
        .ok (nonempty? c.password) := by
  cases huser : c.user with
  | none =>
    rw [userinfo?, huser, only huser]
    exact ⟨rfl, rfl⟩
  | some user =>
    have hcolon : ':' ∉ encodeChars user.toList := not_mem_encodeChars (by decide) _
    have hdecode := decodeNonempty_encodeChars (some user)
    rw [Option.map_some, Option.getD_some] at hdecode
    cases hpassword : c.password with
    | none =>
      have hcut := Text.cutFirst?_eq_none.2 hcolon
      simp [userinfo?, huser, hpassword, Url.credentials, hcut, hdecode, nonempty?]
    | some password =>
      have hcut := credentials_append hcolon (encodeChars password.toList)
      rw [userinfo?, huser, hpassword]
      simp only [Option.map_some, Option.getD_some]
      rw [hcut]
      refine ⟨hdecode, ?_⟩
      by_cases hempty : password = ""
      · subst hempty
        rfl
      · have hne := encodeChars_ne_nil hempty
        rw [if_neg (by simpa using hne), nonempty?_some hempty, Option.mapM_some,
          decode_encodeChars, map_ok]

theorem coded_databaseChars (c : ConnectionString) : ∀ ch ∈ c.databaseChars, isCoded ch = true := by
  unfold databaseChars
  cases c.database with
  | none => simp
  | some database => exact fun ch hch => isCoded_of_mem_encodeChars hch

/-- A database that is no dot segment stays in its path. -/
theorem stays_databaseChars {c : ConnectionString} (h : c.IsLegible) :
    Url.Stays c.databaseChars := by
  have hdots : ∀ n, (n = 1 ∨ n = 2) → Url.dots? c.databaseChars ≠ some n := by
    intro n hn hdots
    unfold databaseChars at hdots
    cases hdatabase : c.database with
    | none =>
      rw [hdatabase] at hdots
      have hzero : 0 = n := Option.some.inj hdots
      omega
    | some database =>
      rw [hdatabase, Option.map_some, Option.getD_some, Url.dots?_eq_some_iff,
        decodeChars_encodeChars, Except.ok.injEq] at hdots
      have htext : database = String.ofList (List.replicate n '.') := by
        rw [← hdots, String.ofList_toList]
      apply h.database
      rcases hn with rfl | rfl
      · rw [hdatabase, htext]; decide
      · rw [hdatabase, htext]; decide
  exact ⟨hdots 1 (.inl rfl), hdots 2 (.inr rfl)⟩

theorem database_path {c : ConnectionString} (h : c.IsLegible) :
    (Url.resolvePath ('/' :: c.databaseChars)).dropWhile (· == '/') = c.databaseChars := by
  have hslash : '/' ∉ c.databaseChars := by
    intro hmem
    exact ne_of_isCoded (coded_databaseChars c _ hmem) (by decide) rfl
  rw [Url.resolvePath_segment hslash (stays_databaseChars h), ← List.singleton_append]
  apply Text.dropWhile_append_stop (by simp)
  intro ch hch
  have hmem : ch ∈ c.databaseChars := List.mem_of_mem_head? hch
  rw [beq_eq_false_iff_ne]
  rintro rfl
  exact hslash hmem

/-- What the URL of a text holds, in the form that it is written in. -/
def writtenUrl (c : ConnectionString) (host : List Char) : Url where
  user := (Url.credentials (c.userinfo?.getD [])).1
  password := (Url.credentials (c.userinfo?.getD [])).2
  host := host
  path := Url.resolvePath ('/' :: c.databaseChars)
  query := Url.queryOf (queryChars c.options)

theorem decodes_writtenUrl {c : ConnectionString} (h : c.IsLegible) (host : List Char) :
    Decodes (c.writtenUrl host) c.compact := by
  have hcredentials := credentials_userinfo h.only
  have hempty : c.database ≠ some "" := by
    intro heq
    exact h.database (by simp [heq])
  refine ⟨hcredentials.1, hcredentials.2, ?_, readOptions_queryChars c.options⟩
  have hdatabase := decodeNonempty_encodeChars c.database
  rwa [nonempty?_of_ne hempty, ← databaseChars, ← database_path h] at hdatabase

/-- User information is written with coded characters, a colon and the sign that ends it. -/
theorem mem_prefix_userinfo {c : ConnectionString} {ch : Char}
    (h : ch ∈ Url.prefixOf c.userinfo?) : isCoded ch = true ∨ ch = ':' ∨ ch = '@' := by
  cases huser : c.user with
  | none => simp [userinfo?, huser, Url.prefixOf] at h
  | some user =>
    simp only [userinfo?, huser, Option.map_some, Url.prefixOf, List.mem_append,
      List.mem_singleton] at h
    rcases h with (huser | hpassword) | hat
    · exact .inl (isCoded_of_mem_encodeChars huser)
    · cases hp : c.password with
      | none => simp [hp] at hpassword
      | some password =>
        rw [hp, Option.map_some, Option.getD_some, List.mem_cons] at hpassword
        exact hpassword.elim (fun heq => .inr (.inl heq))
          fun hmem => .inl (isCoded_of_mem_encodeChars hmem)
    · exact .inr (.inr hat)

theorem prefix_userinfo_spec (c : ConnectionString) : ∀ ch ∈ Url.prefixOf c.userinfo?,
    ' ' < ch ∧ Url.endsAuthority ch = false ∧ endsSeeds ch = false := by
  intro ch hch
  have hends : ∀ stop, isCoded stop = false → stop ≠ ':' → stop ≠ '@' → ch ≠ stop := by
    intro stop hcoded hcolon hat
    rcases mem_prefix_userinfo hch with hc | rfl | rfl
    · exact ne_of_isCoded hc hcoded
    · exact hcolon.symm
    · exact hat.symm
  refine ⟨?_, ?_, ?_⟩
  · rcases mem_prefix_userinfo hch with hc | rfl | rfl
    · exact lt_of_isCoded hc
    · decide
    · decide
  · rw [Url.not_endsAuthority_iff]
    exact ⟨hends _ (by decide) (by decide) (by decide), hends _ (by decide) (by decide) (by decide),
      hends _ (by decide) (by decide) (by decide)⟩
  · have hslash := hends '/' (by decide) (by decide) (by decide)
    have hquestion := hends '?' (by decide) (by decide) (by decide)
    simp [endsSeeds, hslash, hquestion]

/-- What follows the seeds of a text. -/
def tailChars (c : ConnectionString) : List Char :=
  '/' :: (c.databaseChars ++ queryChars c.options)

theorem lt_of_mem_queryChars {options : List (String × String)} {ch : Char}
    (h : ch ∈ queryChars options) : ' ' < ch := by
  unfold queryChars at h
  split at h
  · cases h
  · rcases List.mem_cons.1 h with rfl | h
    · decide
    · rcases Text.mem_intercalate h with rfl | ⟨part, hpart, hch⟩
      · decide
      · obtain ⟨o, -, rfl⟩ := List.mem_map.1 hpart
        rw [optionChars, List.mem_append, List.mem_cons] at hch
        rcases hch with hkey | rfl | hvalue
        · exact lt_of_isCoded (isCoded_of_mem_encodeChars hkey)
        · decide
        · exact lt_of_isCoded (isCoded_of_mem_encodeChars hvalue)

theorem lt_of_mem_tailChars {c : ConnectionString} {ch : Char} (h : ch ∈ c.tailChars) :
    ' ' < ch := by
  rw [tailChars, List.mem_cons, List.mem_append] at h
  rcases h with rfl | hdatabase | hquery
  · decide
  · exact lt_of_isCoded (coded_databaseChars c ch hdatabase)
  · exact lt_of_mem_queryChars hquery

theorem splits_text {c : ConnectionString} (h : c.IsLegible) {seed : String}
    (hseed : c.hosts.head? = some seed) :
    Url.Splits (Url.prefixOf c.userinfo? ++ seed.toList ++ c.tailChars) c.userinfo?
      (Url.visible seed.toList) c.tailChars := by
  have hmem : seed ∈ c.hosts := List.mem_of_mem_head? hseed
  have hprefix : Url.visible (Url.prefixOf c.userinfo?) = Url.prefixOf c.userinfo? :=
    Url.visible_of_lt fun ch hch => (prefix_userinfo_spec c ch hch).1
  refine ⟨?_, fun ch hch => (prefix_userinfo_spec c ch hch).2.1, (h.first seed hseed).2, ?_, ?_⟩
  · rw [Url.clean_append (by simp [tailChars]) fun ch hch => lt_of_mem_tailChars hch, Url.visible,
      List.filter_append, ← Url.visible, ← Url.visible, hprefix]
  · intro hat
    exact (h.seeds seed hmem).2 _ (List.mem_filter.1 hat).1 (by simp)
  · simp [tailChars, Url.endsAuthority]

theorem located_text {c : ConnectionString} (place : List Char) :
    Url.located (c.userinfo?.getD []) place c.tailChars =
      c.writtenUrl (Url.cutHost false place).1 := by
  have hpath : ∀ ch ∈ '/' :: c.databaseChars, Url.isPathChar ch = true := by
    intro ch hch
    rcases List.mem_cons.1 hch with rfl | hch
    · decide
    · have hcoded := coded_databaseChars c ch hch
      have hquestion : ch ≠ '?' := ne_of_isCoded hcoded (by decide)
      have hnumber : ch ≠ '#' := ne_of_isCoded hcoded (by decide)
      simp [Url.isPathChar, hquestion, hnumber]
  have hquery : ∀ ch, (queryChars c.options).head? = some ch → Url.isPathChar ch = false := by
    intro ch hch
    unfold queryChars at hch
    split at hch
    · cases hch
    · cases hch
      rfl
  exact Url.located_path hpath hquery

theorem mem_seeds {c : ConnectionString} (h : c.IsLegible) {ch : Char}
    (hch : ch ∈ [','].intercalate (c.hosts.map String.toList)) : endsSeeds ch = false ∧ ch ≠ '@' := by
  rcases Text.mem_intercalate hch with rfl | ⟨part, hpart, hch⟩
  · decide
  · obtain ⟨seed, hseed, rfl⟩ := List.mem_map.1 hpart
    have hne := (h.seeds seed hseed).2 ch hch
    simp only [List.mem_cons, List.not_mem_nil, or_false, not_or] at hne
    simp [endsSeeds, hne]

/-- A connection string is read back from its text, without credentials that are empty. -/
theorem ofText_text_compact {c : ConnectionString} (h : c.IsLegible) :
    ofText c.text = .ok c.compact := by
  obtain ⟨seed, seeds, hhosts⟩ := List.exists_cons_of_ne_nil h.hosts
  have hseed : c.hosts.head? = some seed := by rw [hhosts]; rfl
  have hauthority : ∀ ch ∈ Url.prefixOf c.userinfo? ++
      [','].intercalate (c.hosts.map String.toList), (!endsSeeds ch) = true := by
    intro ch hch
    rcases List.mem_append.1 hch with hch | hch
    · simp [(prefix_userinfo_spec c ch hch).2.2]
    · simp [(mem_seeds h hch).1]
  have htail : ∀ ch, c.tailChars.head? = some ch → (!endsSeeds ch) = false := by
    intro ch hch
    cases hch
    rfl
  have hat : '@' ∉ [','].intercalate (c.hosts.map String.toList) :=
    fun hmem => (mem_seeds h hmem).2 rfl
  have hcut : Text.cutAll ',' ([','].intercalate (c.hosts.map String.toList)) =
      c.hosts.map String.toList := by
    apply Text.cutAll_intercalate (by simpa using h.hosts)
    exact List.forall_mem_map.2 fun s hs hcomma => (h.seeds s hs).2 _ hcomma (by simp)
  have hfirst : (c.hosts.map String.toList).headD [] = seed.toList := by rw [hhosts]; rfl
  have hread := Url.read_of_splits (splits_text h hseed) (h.first seed hseed).1
  rw [located_text] at hread
  have hwritten : [] ∉ c.hosts.map String.toList := by
    rw [List.mem_map]
    rintro ⟨s, hs, hempty⟩
    exact toList_ne_nil (h.seeds s hs).1 hempty
  have hothers : ∀ s ∈ (c.hosts.map String.toList).tail, checkSeed s = .ok () := by
    rw [← List.map_tail]
    exact List.forall_mem_map.2 h.others
  rw [ofText_text_eq, ofRest_eq_ofParts, ← tailChars,
    Text.takeWhile_append_stop hauthority htail, Text.dropWhile_append_stop hauthority htail,
    cutAuthority_prefix hat, ofParts_eq_ok_iff, hcut, hfirst]
  have hkept : c.compact.hosts = (c.hosts.map String.toList).map String.ofList := by
    simp [compact, withCredentials, List.map_map, Function.comp_def]
  exact ⟨hwritten, hkept, hothers, _, hread, decodes_writtenUrl h _⟩

/-- A writable connection string is read back from its text. -/
theorem ofText_text {c : ConnectionString} (h : c.IsWritable) : ofText c.text = .ok c := by
  rw [ofText_text_compact h.toIsLegible, h.compact_eq]

end DocQuery.ConnectionString
