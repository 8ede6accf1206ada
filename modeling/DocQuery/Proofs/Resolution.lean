import DocQuery.Proofs.ClientConfig
import DocQuery.Proofs.Sequencing
import DocQuery.Resolution

/-! What a connection string and client options resolve to: the string comes first, credential by
credential and URI option by URI option, and the options fill in what it leaves open. -/
namespace DocQuery

/-- A URI option's name without its ASCII case. -/
def foldedKey (key : String) : List Char := key.toList.map Char.toLower

/-- URI options that complete a connection string: one for each URI key that the string does not set
and the client options have a value for, in the order of the mappings. -/
structure Completes (added : List (String × String)) (c : ConnectionString) (g : ClientConfig) :
    Prop where
  inOrder : (added.map Prod.fst).Sublist (uriMappings.map UriMapping.key)
  distinct : (added.map fun o => foldedKey o.1).Nodup
  mem_iff : ∀ key value, (key, value) ∈ added ↔
    c.hasOption key = false ∧ g.firstValue? key = some value

/-- What the client options add to a connection string and take from it. -/
structure ResolvedConnection.Joins (r : ResolvedConnection) (c : ConnectionString)
    (g : ClientConfig) : Prop where
  user : r.connection.user = (c.user <|> g.user)
  password : r.connection.password = (c.password <|> g.password)
  configUser : r.config.user = r.connection.user
  configPassword : r.config.password = r.connection.password
  hosts : r.connection.hosts = c.hosts
  database : r.connection.database = c.database
  configOptions : r.config.options = g.options
  options : ∃ added, r.connection.options = c.options ++ added ∧ Completes added c g

/-- The mappings have no URI keys that differ in ASCII case only. -/
theorem uriMappings_folded : ∀ m ∈ uriMappings, ∀ n ∈ uriMappings,
    foldedKey m.key = foldedKey n.key → m.key = n.key := by
  decide +kernel

namespace ConnectionString

theorem hasOption_iff {c : ConnectionString} {key : String} :
    c.hasOption key = true ↔ ∃ o ∈ c.options, foldedKey o.1 = foldedKey key := by
  simp [hasOption, foldedKey]

/-- Options with different names do not get in the way of each other. -/
theorem hasOption_addOption {c : ConnectionString} {key name value : String}
    (h : foldedKey name ≠ foldedKey key) : (c.addOption name value).hasOption key =
      c.hasOption key := by
  rw [Bool.eq_iff_iff, hasOption_iff, hasOption_iff, addOption]
  simp [or_and_right, exists_or, h]

/-- Options with names of their own are added where the string does not set them. -/
theorem foldl_addMissing {os : List UriOption} (h : (os.map fun o => foldedKey o.key).Nodup)
    (c : ConnectionString) :
    os.foldl addMissing c = { c with options := c.options ++
      (os.filter fun o => !c.hasOption o.key).map fun o => (o.key, o.value) } := by
  induction os generalizing c with
  | nil => simp
  | cons o os ih =>
    rw [List.map_cons, List.nodup_cons] at h
    rw [List.foldl_cons, ih h.2, addMissing]
    cases hset : c.hasOption o.key with
    | true => simp [hset]
    | false =>
      have hrest : ∀ p ∈ os, (c.addOption o.key o.value).hasOption p.key = c.hasOption p.key := by
        intro p hp
        apply hasOption_addOption
        intro heq
        exact h.1 (heq ▸ List.mem_map_of_mem hp)
      have hfilter : os.filter (fun p => !(c.addOption o.key o.value).hasOption p.key) =
          os.filter fun p => !c.hasOption p.key := by
        apply List.filter_congr
        intro p hp
        rw [hrest p hp]
      rw [if_neg Bool.false_ne_true, hfilter]
      simp [hset, addOption]

end ConnectionString

namespace ClientConfig

theorem mapped_folded (g : ClientConfig) : (g.mapped.map fun o => foldedKey o.key).Nodup := by
  have hspec := mapped_spec g
  have hfolded : (g.mapped.map UriOption.key).Pairwise fun a b => foldedKey a ≠ foldedKey b := by
    refine hspec.distinct.imp_of_mem ?_
    intro a b ha hb hne heq
    obtain ⟨m, hm, rfl⟩ := List.mem_map.1 (hspec.inOrder.subset ha)
    obtain ⟨n, hn, rfl⟩ := List.mem_map.1 (hspec.inOrder.subset hb)
    exact hne (uriMappings_folded m hm n hn heq)
  have h : (g.mapped.map UriOption.key |>.map foldedKey).Nodup := List.pairwise_map.2 hfolded
  rwa [List.map_map] at h

/-- What is added to a connection string completes it. -/
theorem completes_mapped (c : ConnectionString) (g : ClientConfig) :
    Completes ((g.mapped.filter fun o => !c.hasOption o.key).map fun o => (o.key, o.value)) c g := by
  have hspec := mapped_spec g
  refine ⟨?_, ?_, ?_⟩
  · rw [List.map_map]
    exact (List.filter_sublist.map _).trans hspec.inOrder
  · rw [List.map_map]
    exact (mapped_folded g).sublist (List.filter_sublist.map _)
  · intro key value
    rw [firstValue?, ← hspec.mem_iff]
    simp only [List.mem_map, List.mem_filter, Prod.mk.injEq, Bool.not_eq_true']
    constructor
    · intro h
      rcases h with ⟨o, ⟨ho, hset⟩, rfl, rfl⟩
      exact ⟨hset, o, ho, rfl, rfl⟩
    · intro h
      rcases h with ⟨hset, o, ho, rfl, rfl⟩
      exact ⟨o, ⟨ho, hset⟩, rfl, rfl⟩

end ClientConfig

namespace ResolvedConnection

variable {text : String} {options : Dictionary} {c : ConnectionString} {g : ClientConfig}

/-- What connection string and options resolve to once both are read. -/
def join (c : ConnectionString) (g : ClientConfig) : ResolvedConnection :=
  let user := c.user <|> g.user
  let password := c.password <|> g.password
  ⟨g.mapped.foldl .addMissing (c.withCredentials user password), { g with user, password }⟩

theorem resolve_eq_join (hg : ClientConfig.ofOptions options = .ok g)
    (hc : ConnectionString.ofString text = .ok c) : resolve text options = .ok (join c g) := by
  rw [resolve, hg, hc]
  rfl

theorem resolve_of_refused {e : Error} (text : String)
    (hg : ClientConfig.ofOptions options = .error e) : resolve text options = .error e := by
  rw [resolve, hg]
  rfl

theorem resolve_of_unreadable {e : Error} (hg : ClientConfig.ofOptions options = .ok g)
    (hc : ConnectionString.ofString text = .error e) : resolve text options = .error e := by
  rw [resolve, hg, hc]
  rfl

theorem connection_join (c : ConnectionString) (g : ClientConfig) :
    (join c g).connection = ({ c with options := c.options ++
      (g.mapped.filter fun o => !c.hasOption o.key).map fun o => (o.key, o.value) } :
        ConnectionString).withCredentials (c.user <|> g.user) (c.password <|> g.password) := by
  rw [join]
  dsimp only
  rw [ConnectionString.foldl_addMissing g.mapped_folded]
  rfl

theorem join_joins (c : ConnectionString) (g : ClientConfig) : (join c g).Joins c g := by
  have hconnection := connection_join c g
  have huser := congrArg ConnectionString.user hconnection
  have hpassword := congrArg ConnectionString.password hconnection
  have hhosts := congrArg ConnectionString.hosts hconnection
  have hdatabase := congrArg ConnectionString.database hconnection
  exact
    { user := huser
      password := hpassword
      configUser := huser.symm
      configPassword := hpassword.symm
      hosts := hhosts
      database := hdatabase
      configOptions := rfl
      options := ⟨_, congrArg ConnectionString.options hconnection,
        ClientConfig.completes_mapped c g⟩ }

/-- Resolution fails if the options or the connection string cannot be read, the options being read
first. What it yields otherwise is joined from the two: credentials and URI options of the string
stay, and the options add only what it leaves open. -/
theorem resolve_precedence (text : String) (options : Dictionary) :
    ((∃ e, resolve text options = .error e) ↔
      (∃ e, ClientConfig.ofOptions options = .error e) ∨
        ∃ e, ConnectionString.ofString text = .error e) ∧
    (∀ e, ClientConfig.ofOptions options = .error e → resolve text options = .error e) ∧
    ∀ g c, ClientConfig.ofOptions options = .ok g → ConnectionString.ofString text = .ok c →
      ∃ r, resolve text options = .ok r ∧ r.Joins c g := by
  have herror : ∀ e, ClientConfig.ofOptions options = .error e →
      resolve text options = .error e := by
    intro e he
    exact resolve_of_refused text he
  have hok : ∀ g c, ClientConfig.ofOptions options = .ok g →
      ConnectionString.ofString text = .ok c →
      ∃ r, resolve text options = .ok r ∧ r.Joins c g := by
    intro g c hg hc
    exact ⟨join c g, resolve_eq_join hg hc, join_joins c g⟩
  refine ⟨?_, herror, hok⟩
  cases hg : ClientConfig.ofOptions options with
  | error e => simp [herror e hg]
  | ok g =>
    cases hc : ConnectionString.ofString text with
    | error e => simp [resolve_of_unreadable hg hc]
    | ok c =>
      obtain ⟨r, hr, -⟩ := hok g c hg hc
      simp [hr]

/-- The string sets a user and one option in another case; of two sources for the latency, the first
cannot be written. -/
def overriding : String := "mongodb://ann@h/?TLS=false"

def overridden : Dictionary :=
  .ofList [("ssl", .bool true), ("acceptableLatencyMS", .string "x"),
    ("secondaryAcceptableLatencyMS", .number (.int 9 (by decide))), ("user", .string "bob"),
    ("password", .string "pw")]

theorem overriding_precedence :
    ConnectionString.ofString overriding =
        .ok ⟨some "ann", none, ["h"], none, [("TLS", "false")]⟩ ∧
      ∃ r, resolve overriding overridden = .ok r ∧ r.connection.user = some "ann" ∧
        r.config.password = some "pw" ∧ ∃ added,
          r.connection.options = ("TLS", "false") :: added ∧ ("localThresholdMS", "9") ∈ added ∧
            ∀ value, ("tls", value) ∉ added := by
  have hconnection : ConnectionString.ofString overriding =
      .ok ⟨some "ann", none, ["h"], none, [("TLS", "false")]⟩ := by
    rfl
  have hconfig : ClientConfig.ofOptions overridden =
      .ok ⟨.ofList [("ssl", .bool true),
        ("secondaryAcceptableLatencyMS", .number (.int 9 (by decide))),
        ("acceptableLatencyMS", .string "x")], some "bob", some "pw"⟩ := by
    rfl
  obtain ⟨r, hr, hjoins⟩ := (resolve_precedence overriding overridden).2.2 _ _ hconfig hconnection
  obtain ⟨added, hoptions, hadded⟩ := hjoins.options
  have hlatency : ("localThresholdMS", "9") ∈ added :=
    (hadded.mem_iff _ _).2 ⟨by decide, by decide +kernel⟩
  have htls : ∀ value, ("tls", value) ∉ added := by
    intro value hmem
    exact absurd ((hadded.mem_iff _ _).1 hmem).1 (by decide)
  exact ⟨hconnection, r, hr, hjoins.user, hjoins.configPassword.trans hjoins.password, added,
    hoptions, hlatency, htls⟩

end ResolvedConnection

/-- Two dictionaries with the same recognized options, null counting as absent. -/
def Dictionary.AgreeOnRecognized (d e : Dictionary) : Prop :=
  ∀ key ∈ recognizedOptions, ClientConfig.given? d key = ClientConfig.given? e key

theorem ClientConfig.ofOptions_of_agreeOnRecognized {d e : Dictionary}
    (h : d.AgreeOnRecognized e) : ofOptions d = ofOptions e := by
  have huser : credential d "user" = credential e "user" := credential_congr (h _ (by decide))
  have hpassword : credential d "password" = credential e "password" :=
    credential_congr (h _ (by decide))
  have hkept : kept d = kept e := kept_congr fun key hkey _ => h key hkey
  rw [ofOptions, ofOptions, huser, hpassword, hkept]

namespace ResolvedConnection

/-- Options that are not recognized change neither what a connection string resolves to nor how it
fails to, and neither does the order of the options. -/
theorem resolve_unrecognized {d e : Dictionary} (h : d.AgreeOnRecognized e) (text : String) :
    resolve text d = resolve text e := by
  rw [resolve, resolve, ClientConfig.ofOptions_of_agreeOnRecognized h]

def tuned : Dictionary :=
  .ofList [("appName", .string "x"), ("w", .string "majority"), ("ssl", .null),
    ("user", .string "ann")]

def retuned : Dictionary :=
  .ofList [("user", .string "ann"), ("Password", .string "pw"), ("w", .string "majority")]

theorem tuned_unrecognized : tuned.AgreeOnRecognized retuned ∧
    resolve "mongodb://h" tuned = resolve "mongodb://h" retuned ∧
    resolve "mongodb://h" retuned = .ok ⟨⟨some "ann", none, ["h"], none, [("w", "majority")]⟩,
      ⟨.ofList [("w", .string "majority")], some "ann", none⟩⟩ := by
  have hagree : tuned.AgreeOnRecognized retuned := by
    intro key hkey
    simp only [recognizedOptions, List.mem_cons, List.not_mem_nil, or_false] at hkey
    casesm* _ ∨ _ <;> subst key <;> rfl
  exact ⟨hagree, resolve_unrecognized hagree _, rfl⟩

end ResolvedConnection

end DocQuery
