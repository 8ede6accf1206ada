import DocQuery.Proofs.ConnectionString.Credentials
import DocQuery.Proofs.ConnectionString.Writing
import DocQuery.Proofs.Resolution

/-! What a password has influence on. Written into a connection string in coded form, or given among
the client options, it changes the password of the outcome and nothing that a message may show. -/
namespace DocQuery

namespace Url

/-- What follows the port of a place, which must have a host. -/
def afterPort (place : List Char) : Except Fault (List Char) := do
  checkHost (cutHost false place).1
  if (cutHost false place).1 = [] then throw .emptyHost
  skipPort (cutHost false place).2

/-- Behind a user, a text is read as a URL or refused whatever the user information says. -/
theorem read_of_user {cs userinfo place : List Char}
    (hcut : Text.cutLast? '@' (authority cs) = some (userinfo, place))
    (huser : (credentials userinfo).1 ≠ []) :
    read cs = (fun rest => located userinfo place (rest ++ afterAuthority cs)) <$>
      afterPort place := by
  have hguard : ¬ (authority cs = ['@'] ∧ afterAuthority cs ≠ []) := by
    rintro ⟨hauthority, -⟩
    rw [hauthority] at hcut
    cases hcut
    exact huser rfl
  rw [read_eq (by rw [hcut, Option.getD_some]), if_neg hguard, afterPort]
  cases checkHost (cutHost false place).1 with
  | error e => rfl
  | ok u =>
    by_cases hhost : (cutHost false place).1 = []
    · cases hport : (cutHost false place).2 with
      | nil => simp [hhost, huser, skipPort]
      | cons c port => simp [hhost]
    · cases skipPort (cutHost false place).2 with
      | error e => simp [hhost]
      | ok rest => simp [hhost]

theorem afterAuthority_user {userinfo : List Char}
    (huser : ∀ c ∈ userinfo, endsAuthority c = false) (rest : List Char) :
    afterAuthority (userinfo ++ '@' :: rest) = afterAuthority rest := by
  have hkept : ∀ c ∈ visible userinfo ++ ['@'], (!endsAuthority c) = true := by
    intro c hc
    rcases List.mem_append.1 hc with hc | hc
    · rw [huser c (List.mem_filter.1 hc).1]
      rfl
    · rw [List.mem_singleton.1 hc]
      rfl
  rw [afterAuthority, clean_append_cons (by decide), List.append_cons,
    List.dropWhile_append_of_pos hkept, ← afterAuthority]

end Url

namespace ConnectionString

open Percent

/-- A text with coded credentials in front of what follows them. -/
def securedText (user password rest : String) : String :=
  scheme ++ "://" ++ credentialsText (some user) (some (encode password)) ++ rest

/-- The user information of such a text. -/
def securedChars (user password : String) : List Char :=
  encodeChars user.toList ++ ':' :: encodeChars password.toList

theorem ofText_securedText (user password rest : String) :
    ofText (securedText user password rest) =
      ofRest (securedChars user password ++ '@' :: rest.toList) := by
  have htext : (securedText user password rest).toList =
      "mongodb://".toList ++ (securedChars user password ++ '@' :: rest.toList) := by
    simp [securedText, securedChars, scheme, credentialsText, encode]
  rw [ofText, htext, ofChars, cutScheme?_scheme]
  simp

theorem mem_securedChars {user password : String} {c : Char} (h : c ∈ securedChars user password) :
    isCoded c = true ∨ c = ':' := by
  rw [securedChars, List.mem_append, List.mem_cons] at h
  rcases h with huser | rfl | hpassword
  · exact .inl (isCoded_of_mem_encodeChars huser)
  · exact .inr rfl
  · exact .inl (isCoded_of_mem_encodeChars hpassword)

theorem securedChars_ne {user password : String} {c stop : Char}
    (h : c ∈ securedChars user password) (hstop : isCoded stop = false) (hcolon : stop ≠ ':') :
    c ≠ stop := by
  rcases mem_securedChars h with hcoded | rfl
  · exact ne_of_isCoded hcoded hstop
  · exact hcolon.symm

theorem visible_securedChars (user password : String) :
    Url.visible (securedChars user password) = securedChars user password := by
  apply Url.visible_of_lt
  intro c hc
  rcases mem_securedChars hc with hcoded | rfl
  · exact lt_of_isCoded hcoded
  · decide

theorem ends_securedChars {user password : String} :
    ∀ c ∈ securedChars user password, Url.endsAuthority c = false := by
  intro c hc
  rw [Url.not_endsAuthority_iff]
  exact ⟨securedChars_ne hc (by decide) (by decide), securedChars_ne hc (by decide) (by decide),
    securedChars_ne hc (by decide) (by decide)⟩

theorem credentials_securedChars {user password : String} (hpassword : password ≠ "") :
    Url.credentials (securedChars user password) =
      (encodeChars user.toList, some (encodeChars password.toList)) := by
  have hcolon : ':' ∉ encodeChars user.toList := not_mem_encodeChars (by decide) _
  have hne := encodeChars_ne_nil hpassword
  rw [securedChars, credentials_append hcolon, if_neg (by simpa using hne)]

theorem read_securedChars {user password : String} (huser : user ≠ "") (hpassword : password ≠ "")
    {seed tail : List Char} (hat : '@' ∉ seed ++ tail) :
    Url.read (securedChars user password ++ ['@'] ++ seed ++ tail) =
      (fun rest => Url.located (securedChars user password) (Url.authority (seed ++ tail))
        (rest ++ Url.afterAuthority (seed ++ tail))) <$>
          Url.afterPort (Url.authority (seed ++ tail)) := by
  have hcut := @Url.cut_authority (securedChars user password) _ [] ends_securedChars hat (by simp)
  rw [List.append_nil, visible_securedChars] at hcut
  have hne : (Url.credentials (securedChars user password)).1 ≠ [] := by
    rw [credentials_securedChars hpassword]
    exact encodeChars_ne_nil huser
  have hread := Url.read_of_user hcut hne
  rw [Url.afterAuthority_user ends_securedChars] at hread
  simpa using hread

/-- The connection string of seeds and what follows them, without any credentials. -/
def ofPlaces (seeds tail : List Char) : Except Fault ConnectionString := do
  let hosts := Text.cutAll ',' seeds
  if hosts.any List.isEmpty then throw .emptyHost
  let first := hosts.headD [] ++ tail
  let rest ← (Url.afterPort (Url.authority first)).mapError .url
  hosts.tail.forM checkSeed
  let url := Url.located [] (Url.authority first) (rest ++ Url.afterAuthority first)
  let database ← decodeNonempty (url.path.dropWhile (· == '/'))
  let options ← readOptions url.query
  return { user := none, password := none, hosts := hosts.map String.ofList, database, options }

/-- Coded credentials are read as they are, and have no influence on how the rest is read. -/
theorem ofParts_securedChars {user password : String} (huser : user ≠ "") (hpassword : password ≠ "")
    {seeds tail : List Char} (hseeds : '@' ∉ seeds) (htail : '@' ∉ tail) :
    ofParts (securedChars user password ++ ['@']) seeds tail =
      (fun c => c.withCredentials (some user) (some password)) <$> ofPlaces seeds tail := by
  have hat : '@' ∉ (Text.cutAll ',' seeds).headD [] ++ tail := by
    rw [List.mem_append, not_or]
    exact ⟨fun hmem => hseeds ((Text.mem_cutAll_spec (Text.headD_mem_cutAll ',' seeds)).2 _ hmem),
      htail⟩
  have hcredentials := @credentials_securedChars user password hpassword
  have huserRead : decodeNonempty (encodeChars user.toList) = .ok (some user) := by
    rw [← nonempty?_some huser]
    exact decodeNonempty_encodeChars (some user)
  have hpasswordRead : (some (encodeChars password.toList)).mapM decode = .ok (some password) := by
    simp [decode_encodeChars]
  unfold ofParts ofPlaces
  dsimp only
  rw [read_securedChars huser hpassword hat]
  by_cases hempty : (Text.cutAll ',' seeds).any List.isEmpty = true
  · rw [if_pos hempty, if_pos hempty]
    rfl
  · rw [if_neg hempty, if_neg hempty]
    cases Url.afterPort (Url.authority ((Text.cutAll ',' seeds).headD [] ++ tail)) with
    | error fault => rfl
    | ok rest =>
      cases (Text.cutAll ',' seeds).tail.forM checkSeed with
      | error fault => rfl
      | ok u =>
        simp only [map_ok, mapError_ok, ok_bind, Url.located, hcredentials, huserRead,
          hpasswordRead, map_bind]
        rfl

/-- What follows the credentials, without them. -/
def ofRemainder (rest : List Char) : Except Fault ConnectionString :=
  ofPlaces (rest.takeWhile fun c => !endsSeeds c) (rest.dropWhile fun c => !endsSeeds c)

theorem ofText_of_credentials {user password rest : String} (huser : user ≠ "")
    (hpassword : password ≠ "") (hat : '@' ∉ rest.toList) :
    ofText (securedText user password rest) =
      (fun c => c.withCredentials (some user) (some password)) <$> ofRemainder rest.toList := by
  have hkept : ∀ c ∈ securedChars user password ++ ['@'], (!endsSeeds c) = true := by
    intro c hc
    rcases List.mem_append.1 hc with hc | hc
    · have hslash := securedChars_ne hc (show isCoded '/' = false by decide) (by decide)
      have hquestion := securedChars_ne hc (show isCoded '?' = false by decide) (by decide)
      simp [endsSeeds, hslash, hquestion]
    · rw [List.mem_singleton.1 hc]
      rfl
  have hseeds : '@' ∉ rest.toList.takeWhile fun c => !endsSeeds c :=
    fun hmem => hat ((List.takeWhile_prefix _).subset hmem)
  have htail : '@' ∉ rest.toList.dropWhile fun c => !endsSeeds c :=
    fun hmem => hat ((List.dropWhile_suffix _).subset hmem)
  have hcut := cutAuthority_prefix hseeds (some (securedChars user password))
  rw [Url.prefixOf] at hcut
  rw [ofText_securedText, ofRest_eq_ofParts, List.append_cons,
    List.takeWhile_append_of_pos hkept, List.dropWhile_append_of_pos hkept, hcut]
  exact ofParts_securedChars huser hpassword hseeds htail

theorem ofString_of_credentials {user password rest : String} (huser : user ≠ "")
    (hpassword : password ≠ "") (hat : '@' ∉ rest.toList) :
    ofString (securedText user password rest) =
      match ofRemainder rest.toList with
      | .ok c => .ok (c.withCredentials (some user) (some password))
      | .error fault =>
          .error (.malformed (.connectionString (securedText user password rest) fault)) := by
  rw [ofString, ofText_of_credentials huser hpassword hat]
  cases ofRemainder rest.toList <;> rfl

/-- Equal in everything but the password, and equal when written with the password masked. -/
structure EqualButPassword (c d : ConnectionString) : Prop where
  user : c.user = d.user
  hosts : c.hosts = d.hosts
  database : c.database = d.database
  options : c.options = d.options
  redacted : c.redacted = d.redacted

theorem equalButPassword_withCredentials (c : ConnectionString) (user : Option String)
    (password password' : String) : EqualButPassword (c.withCredentials user (some password))
      (c.withCredentials user (some password')) :=
  ⟨rfl, rfl, rfl, rfl, rfl⟩

end ConnectionString

/-- Options that differ in the text of the password only. -/
structure Dictionary.DifferInPassword (d e : Dictionary) : Prop where
  left : ∃ password, d.get? "password" = some (.string password)
  right : ∃ password, e.get? "password" = some (.string password)
  others : ∀ key, key ≠ "password" → d.get? key = e.get? key

namespace ClientConfig

/-- The options that are kept, and whatever is said of the user. -/
theorem ofOptions_of_password {d : Dictionary} {password : String}
    (h : d.get? "password" = some (.string password)) :
    ofOptions d = (fun user => ⟨.ofList (kept d), user, some password⟩) <$>
      credential d "user" := by
  have hcredential : credential d "password" = .ok (some password) := by
    rw [credential, given?, h]
    rfl
  rw [ofOptions, hcredential]
  cases credential d "user" <;> rfl

theorem kept_of_differInPassword {d e : Dictionary} (h : d.DifferInPassword e) :
    kept d = kept e := by
  apply kept_congr
  intro key _ hnot
  have hne : key ≠ "password" := by
    rintro rfl
    exact hnot (by decide)
  exact given?_congr (h.others key hne)

theorem user_of_differInPassword {d e : Dictionary} (h : d.DifferInPassword e) :
    credential d "user" = credential e "user" :=
  credential_congr (given?_congr (h.others "user" (by decide)))

end ClientConfig

namespace ResolvedConnection

/-- Equal in everything that a client shows of what it was made from. -/
structure EqualButPassword (r s : ResolvedConnection) : Prop where
  connection : r.connection.EqualButPassword s.connection
  user : r.config.user = s.config.user
  options : r.config.options = s.config.options

/-- Joined with options that all have a password, a connection string is shown in one way only. -/
theorem equalButPassword_join (c : ConnectionString) (options : Dictionary) (user : Option String)
    (password password' : String) :
    EqualButPassword (join c ⟨options, user, some password⟩)
      (join c ⟨options, user, some password'⟩) := by
  have hmapped : (⟨options, user, some password⟩ : ClientConfig).mapped =
      (⟨options, user, some password'⟩ : ClientConfig).mapped := rfl
  refine ⟨?_, rfl, rfl⟩
  rw [connection_join, connection_join, hmapped]
  cases c.password with
  | none => exact ConnectionString.equalButPassword_withCredentials _ _ _ _
  | some written => exact ConnectionString.equalButPassword_withCredentials _ _ _ _

/-- Of two sets of options that differ in the password, a connection string resolves with either to
connections that differ in the password, or fails with either in the same way. -/
theorem resolve_of_password {d e : Dictionary} (h : d.DifferInPassword e) (text : String) :
    (∃ error, resolve text d = .error error ∧ resolve text e = .error error) ∨
      ∃ r s, resolve text d = .ok r ∧ resolve text e = .ok s ∧ r.EqualButPassword s := by
  obtain ⟨password, hleft⟩ := h.left
  obtain ⟨password', hright⟩ := h.right
  have hd := ClientConfig.ofOptions_of_password hleft
  have he := ClientConfig.ofOptions_of_password hright
  rw [← ClientConfig.kept_of_differInPassword h, ← ClientConfig.user_of_differInPassword h] at he
  cases huser : ClientConfig.credential d "user" with
  | error error =>
    rw [huser, map_error] at hd he
    exact .inl ⟨error, resolve_of_refused text hd, resolve_of_refused text he⟩
  | ok user =>
    rw [huser, map_ok] at hd he
    cases hc : ConnectionString.ofString text with
    | error error =>
      exact .inl ⟨error, resolve_of_unreadable hd hc, resolve_of_unreadable he hc⟩
    | ok c =>
      exact .inr ⟨_, _, resolve_eq_join hd hc, resolve_eq_join he hc,
        equalButPassword_join c _ user password password'⟩

/-- A password, whether it is an option or stands in coded form in the connection string, decides
nothing but the password: not whether the string is read and resolved, nor what else that yields, nor
how the result is displayed. -/
theorem password_decides_only_password :
    (∀ (text : String) (d e : Dictionary), d.DifferInPassword e →
      (∃ error, resolve text d = .error error ∧ resolve text e = .error error) ∨
        ∃ r s, resolve text d = .ok r ∧ resolve text e = .ok s ∧ r.EqualButPassword s) ∧
    ∀ user password password' rest : String, user ≠ "" → password ≠ "" → password' ≠ "" →
      '@' ∉ rest.toList →
      (∃ fault, ∀ p ∈ [password, password'],
        ConnectionString.ofString (ConnectionString.securedText user p rest) = .error
          (.malformed (.connectionString (ConnectionString.securedText user p rest) fault))) ∨
        ∃ c d, ConnectionString.ofString (ConnectionString.securedText user password rest) = .ok c ∧
          ConnectionString.ofString (ConnectionString.securedText user password' rest) = .ok d ∧
            c.EqualButPassword d := by
  refine ⟨fun text d e h => resolve_of_password h text, ?_⟩
  intro user password password' rest huser hpassword hpassword' hat
  have hleft := ConnectionString.ofString_of_credentials huser hpassword hat
  have hright := ConnectionString.ofString_of_credentials huser hpassword' hat
  cases hrest : ConnectionString.ofRemainder rest.toList with
  | error fault =>
    rw [hrest] at hleft hright
    refine .inl ⟨fault, ?_⟩
    simp only [List.mem_cons, List.not_mem_nil, or_false, forall_eq_or_imp, forall_eq]
    exact ⟨hleft, hright⟩
  | ok c =>
    rw [hrest] at hleft hright
    exact .inr ⟨_, _, hleft, hright, ConnectionString.equalButPassword_withCredentials c _ _ _⟩

/-- Options with a password. -/
def pooled (password : String) : Dictionary :=
  .ofList [("poolSize", .number (.int 5 (by decide))), ("password", .string password)]

theorem pooled_get? (password key : String) : (pooled password).get? key =
    if "poolSize" = key then some (.number (.int 5 (by decide)))
    else if "password" = key then some (.string password) else none := by
  have hentries : (pooled password).entries =
      [("poolSize", .number (.int 5 (by decide))), ("password", .string password)] := rfl
  rw [Dictionary.get?, hentries, Entries.get?_cons, Entries.get?_cons, Entries.get?_nil]

theorem pooled_differ (password password' : String) :
    (pooled password).DifferInPassword (pooled password') where
  left := ⟨password, pooled_get? password "password"⟩
  right := ⟨password', pooled_get? password' "password"⟩
  others := by
    intro key hkey
    rw [pooled_get?, pooled_get?, if_neg hkey.symm, if_neg hkey.symm]

/-- Passwords with delimiters of a URL in them. -/
theorem delimiters_decide_only_password :
    (∃ r s, resolve "mongodb://ann@h/db" (pooled "p@ss/") = .ok r ∧
      resolve "mongodb://ann@h/db" (pooled ":?#") = .ok s ∧ r.EqualButPassword s) ∧
    ∃ c d, ConnectionString.ofString (ConnectionString.securedText "ann" "p@ss/" "h,i/db?w=1") =
        .ok c ∧
      ConnectionString.ofString (ConnectionString.securedText "ann" ":?#" "h,i/db?w=1") = .ok d ∧
        c.EqualButPassword d := by
  have hdecides := password_decides_only_password
  constructor
  · rcases hdecides.1 "mongodb://ann@h/db" _ _ (pooled_differ "p@ss/" ":?#") with hfails | hok
    · obtain ⟨error, herror, -⟩ := hfails
      have hread : ConnectionString.ofString "mongodb://ann@h/db" =
          .ok ⟨some "ann", none, ["h"], some "db", []⟩ := by
        rfl
      have hoptions : ClientConfig.ofOptions (pooled "p@ss/") =
          .ok ⟨.ofList [("poolSize", .number (.int 5 (by decide)))], none, some "p@ss/"⟩ := by
        rfl
      rw [resolve_eq_join hoptions hread] at herror
      cases herror
    · exact hok
  · rcases hdecides.2 "ann" "p@ss/" ":?#" "h,i/db?w=1" (by decide) (by decide) (by decide)
      (by decide) with hfails | hok
    · obtain ⟨fault, hfault⟩ := hfails
      have hread : ConnectionString.ofString
          (ConnectionString.securedText "ann" "p@ss/" "h,i/db?w=1") =
            .ok ⟨some "ann", some "p@ss/", ["h", "i"], some "db", [("w", "1")]⟩ := by
        rfl
      have herror := hfault "p@ss/" (by simp)
      rw [hread] at herror
      cases herror
    · exact hok

end ResolvedConnection

end DocQuery
