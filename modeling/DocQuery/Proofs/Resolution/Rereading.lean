import DocQuery.Proofs.ConnectionString.Rereading
import DocQuery.Proofs.ConnectionString.RoundTrip
import DocQuery.Proofs.Resolution

/-! What a connection string and client options resolve to, written as text and resolved with the same
options once more. -/
namespace DocQuery

theorem ConnectionString.ofString_eq_ok_iff {text : String} {c : ConnectionString} :
    ofString text = .ok c ↔ ofText text = .ok c := by
  rw [ofString, mapError_eq_ok_iff]

theorem ConnectionString.hasOption_compact (c : ConnectionString) (key : String) :
    c.compact.hasOption key = c.hasOption key := rfl

attribute [ext] ResolvedConnection

namespace ResolvedConnection

open ConnectionString

variable {text : String} {options : Dictionary} {r : ResolvedConnection}

theorem resolve_eq_ok_iff : resolve text options = .ok r ↔
    ∃ g c, ClientConfig.ofOptions options = .ok g ∧ ofText text = .ok c ∧ join c g = r := by
  rw [resolve]
  simp only [bind_eq_ok_iff, pure_eq_ok, Except.ok.injEq, ofString_eq_ok_iff]
  constructor
  · intro h
    obtain ⟨g, hg, c, hc, hr⟩ := h
    exact ⟨g, c, hg, hc, hr⟩
  · intro h
    obtain ⟨g, c, hg, hc, hr⟩ := h
    exact ⟨g, hg, c, hc, hr⟩

/-- Every option that can be mapped is set in what was joined with it. -/
theorem hasOption_join (c : ConnectionString) {g : ClientConfig} {o : UriOption}
    (ho : o ∈ g.mapped) : (join c g).connection.hasOption o.key = true := by
  rw [connection_join, hasOption_iff]
  simp only [withCredentials, List.mem_append, List.mem_map, List.mem_filter]
  cases hset : c.hasOption o.key with
  | true =>
    obtain ⟨p, hp, hkey⟩ := hasOption_iff.1 hset
    exact ⟨p, .inl hp, hkey⟩
  | false => exact ⟨(o.key, o.value), .inr ⟨o, ⟨ho, by rw [hset]; rfl⟩, rfl⟩, rfl⟩

/-- Nothing is added to a connection string that sets every option that can be mapped. -/
theorem connection_join_of_set {c : ConnectionString} {g : ClientConfig}
    (h : ∀ o ∈ g.mapped, c.hasOption o.key = true) :
    (join c g).connection = c.withCredentials (c.user <|> g.user) (c.password <|> g.password) := by
  have hadded : g.mapped.filter (fun o => !c.hasOption o.key) = [] := by
    rw [List.filter_eq_nil_iff]
    intro o ho
    rw [h o ho]
    exact Bool.false_ne_true
  rw [connection_join, hadded, List.map_nil, List.append_nil]

theorem config_join (c : ConnectionString) (g : ClientConfig) : (join c g).config =
    { g with
      user := (join c g).connection.user
      password := (join c g).connection.password } := by
  rw [(join_joins c g).user, (join_joins c g).password]
  rfl

/-- A credential that is lost because it is empty comes from the options, and they restore it. -/
theorem nonempty?_orElse {written given : Option String} (h : written ≠ some "") :
    (nonempty? (written <|> given) <|> given) = (written <|> given) := by
  cases written with
  | some text =>
    have hkept : nonempty? (some text) = some text := nonempty?_of_ne h
    change (nonempty? (some text) <|> given) = some text
    rw [hkept]
    rfl
  | none =>
    change (nonempty? given <|> given) = given
    by_cases hempty : given = some ""
    · rw [hempty]
      rfl
    · rw [nonempty?_of_ne hempty]
      cases given <;> rfl

/-- Empty credentials are restored to a connection string that lacks nothing else. -/
theorem connection_join_compact {d : ConnectionString} {g : ClientConfig}
    (hset : ∀ o ∈ g.mapped, d.hasOption o.key = true)
    (huser : (nonempty? d.user <|> g.user) = d.user)
    (hpassword : (nonempty? d.password <|> g.password) = d.password) :
    (join d.compact g).connection = d := by
  have hkept : ∀ o ∈ g.mapped, d.compact.hasOption o.key = true := by
    intro o ho
    rw [hasOption_compact, hset o ho]
  rw [connection_join_of_set hkept]
  simp only [compact, withCredentials, huser, hpassword]

/-- What is left of a resolved connection string once it is written and read is completed by the same
options to what it was. -/
theorem join_compact {c : ConnectionString} {g : ClientConfig} (huser : c.user ≠ some "")
    (hpassword : c.password ≠ some "") : join (join c g).connection.compact g = join c g := by
  have hjoins := join_joins c g
  have huserKept : (nonempty? (join c g).connection.user <|> g.user) = (join c g).connection.user := by
    rw [hjoins.user, nonempty?_orElse huser]
  have hpasswordKept : (nonempty? (join c g).connection.password <|> g.password) =
      (join c g).connection.password := by
    rw [hjoins.password, nonempty?_orElse hpassword]
  have hconnection : (join (join c g).connection.compact g).connection = (join c g).connection :=
    connection_join_compact (fun o ho => hasOption_join c ho) huserKept hpasswordKept
  have hconfig : (join (join c g).connection.compact g).config = (join c g).config := by
    rw [config_join, hconnection, ← config_join]
  exact ResolvedConnection.ext hconnection hconfig

/-- Resolving is done once and for all: the text of a resolved connection string, whose seeds are plain
and whose password belongs to a user, resolves with the same options to the same again. -/
theorem resolve_text (h : resolve text options = .ok r)
    (hplain : ∀ seed ∈ r.connection.hosts, IsPlainSeed seed)
    (honly : r.connection.user = none → r.connection.password = none) :
    resolve r.connection.text options = .ok r := by
  obtain ⟨g, c, hg, hc, rfl⟩ := resolve_eq_ok_iff.1 h
  obtain ⟨hhosts, huser, hpassword, hdatabase⟩ := parts_of_read hc
  have hjoins := join_joins c g
  have hlegible : (join c g).connection.IsLegible := by
    apply isLegible_of_plain _ hplain honly
    · rwa [hjoins.database]
    · rwa [hjoins.hosts]
  exact resolve_eq_ok_iff.2 ⟨g, _, hg, ofText_text_compact hlegible, join_compact huser hpassword⟩

/-- Credentials that are empty, and two options of which the connection string sets one. -/
def emptied : Dictionary :=
  .ofList [("ssl", .bool true), ("poolSize", .number (.int 20 (by decide))), ("user", .string ""),
    ("password", .string "")]

def emptiedResolved : ResolvedConnection where
  connection := ⟨some "", some "", ["db-1:27018"], some "a/b",
    [("TLS", "false"), ("maxPoolSize", "20")]⟩
  config := ⟨.ofList [("ssl", .bool true), ("poolSize", .number (.int 20 (by decide)))], some "",
    some ""⟩

theorem emptied_resolve_text :
    resolve "db-1:27018/a%2fb?TLS=false" emptied = .ok emptiedResolved ∧
      emptiedResolved.connection.text =
        "mongodb://:@db-1:27018/a%2Fb?TLS=false&maxPoolSize=20" ∧
      resolve emptiedResolved.connection.text emptied = .ok emptiedResolved := by
  have hresolve : resolve "db-1:27018/a%2fb?TLS=false" emptied = .ok emptiedResolved := by
    rfl
  have hseed : IsPlainSeed "db-1:27018" :=
    ⟨"db-1".toList, ":27018".toList, by decide, by decide, List.all_eq_true.1 (by decide),
      .decimal (by decide) (List.all_eq_true.1 (by decide)) (by decide)⟩
  have hplain : ∀ seed ∈ emptiedResolved.connection.hosts, IsPlainSeed seed := by
    simp [emptiedResolved, hseed]
  exact ⟨hresolve, by decide +kernel, resolve_text hresolve hplain (by decide)⟩

end ResolvedConnection

end DocQuery
