import DocQuery.ConnectionString.Reading
import DocQuery.Proofs.Url.Reading

/-! What a connection string is read as: the parts of its text, and what holds of each of them. -/
namespace DocQuery.ConnectionString

/-- What the parts of a URL are decoded to, next to the hosts. -/
structure Decodes (url : Url) (c : ConnectionString) : Prop where
  user : decodeNonempty url.user = .ok c.user
  password : url.password.mapM decode = .ok c.password
  database : decodeNonempty (url.path.dropWhile (· == '/')) = .ok c.database
  options : readOptions url.query = .ok c.options

/-- The credentials of an authority, with the sign that ends them, and its seeds. -/
def cutAuthority (authority : List Char) : List Char × List Char :=
  match Text.cutLast? '@' authority with
  | some (userinfo, seeds) => (userinfo ++ ['@'], seeds)
  | none => ([], authority)

theorem cutAuthority_prefix {seeds : List Char} (h : '@' ∉ seeds) (userinfo : Option (List Char)) :
    cutAuthority (Url.prefixOf userinfo ++ seeds) = (Url.prefixOf userinfo, seeds) := by
  cases userinfo with
  | none => rw [Url.prefixOf, List.nil_append, cutAuthority, Text.cutLast?_eq_none.2 h]
  | some userinfo =>
    rw [Url.prefixOf, List.append_assoc, List.singleton_append, cutAuthority,
      Text.cutLast?_append h]

/-- The connection string of credentials, seeds and what follows them. -/
def ofParts (credentials seeds tail : List Char) : Except Fault ConnectionString := do
  let hosts := Text.cutAll ',' seeds
  if hosts.any List.isEmpty then throw .emptyHost
  let url ← (Url.read (credentials ++ hosts.headD [] ++ tail)).mapError .url
  hosts.tail.forM checkSeed
  let user ← decodeNonempty url.user
  let password ← url.password.mapM decode
  let database ← decodeNonempty (url.path.dropWhile (· == '/'))
  let options ← readOptions url.query
  return { user, password, hosts := hosts.map String.ofList, database, options }

theorem ofRest_eq_ofParts (rest : List Char) :
    ofRest rest = ofParts (cutAuthority (rest.takeWhile fun c => !endsSeeds c)).1
      (cutAuthority (rest.takeWhile fun c => !endsSeeds c)).2
      (rest.dropWhile fun c => !endsSeeds c) := rfl

/-- What follows the scheme of a connection string, which may be missing. -/
def restOf (text : String) : List Char := ((cutScheme? text.toList).map Prod.snd).getD text.toList

/-- What stands between the scheme and the first slash or question mark. -/
def authorityOf (text : String) : List Char := (restOf text).takeWhile fun c => !endsSeeds c

theorem ofRest_of_ofText {text : String} {c : ConnectionString} (h : ofText text = .ok c) :
    ofRest (restOf text) = .ok c := by
  unfold ofText ofChars at h
  unfold restOf
  split at h
  · next hnone => rwa [hnone]
  · next found rest hsome =>
    split at h
    · rwa [hsome]
    · cases h

theorem ofParts_eq_ok_iff {credentials seeds tail : List Char} {c : ConnectionString} :
    ofParts credentials seeds tail = .ok c ↔
      [] ∉ Text.cutAll ',' seeds ∧ c.hosts = (Text.cutAll ',' seeds).map String.ofList ∧
      (∀ seed ∈ (Text.cutAll ',' seeds).tail, checkSeed seed = .ok ()) ∧
      ∃ url, Url.read (credentials ++ (Text.cutAll ',' seeds).headD [] ++ tail) = .ok url ∧
        Decodes url c := by
  unfold ofParts
  rw [guard_eq_ok_iff, bind_eq_ok_iff]
  simp only [bind_eq_ok_iff, mapError_eq_ok_iff, pure_eq_ok, Except.ok.injEq]
  constructor
  · intro h
    rcases h with ⟨hempty, url, hurl, _, hseeds, user, huser, password, hpassword, database,
      hdatabase, options, hoptions, rfl⟩
    exact ⟨by simpa using hempty, rfl, forM_eq_ok_iff.1 hseeds, url, hurl, huser, hpassword,
      hdatabase, hoptions⟩
  · intro h
    rcases h with ⟨hempty, hhosts, hseeds, url, hurl, huser, hpassword, hdatabase, hoptions⟩
    refine ⟨by simpa using hempty, url, hurl, ⟨⟩, forM_eq_ok_iff.2 hseeds, _, huser, _, hpassword,
      _, hdatabase, _, hoptions, ?_⟩
    rw [← hhosts]

end DocQuery.ConnectionString
