import DocQuery.Client
import DocQuery.Proofs.ConnectionString.Masking

/-! What the failures of creating a client say about the password in its connection string. -/
namespace DocQuery

namespace ResolvedConnection

/-- A remainder with credentials in front of it is shown in one way, whatever options are joined. -/
theorem redacted_join_withCredentials (c : ConnectionString) (g : ClientConfig)
    (user password password' : String) :
    (join (c.withCredentials (some user) (some password)) g).connection.redacted =
      (join (c.withCredentials (some user) (some password')) g).connection.redacted := by
  rw [connection_join, connection_join]
  rfl

end ResolvedConnection

namespace Client

open ConnectionString ResolvedConnection

variable {Handle : Type} {reach : ResolvedConnection → Except String Handle} {text : String}
  {d : Dictionary}

theorem create_eq (reach : ResolvedConnection → Except String Handle) (text : String)
    {options context : Option Json} {d o : Option Dictionary}
    (hcontext : Dictionary.ofArgument context = .ok d)
    (hoptions : Dictionary.ofArgument options = .ok o) :
    create reach text options context = exit (connect reach text (o.getD .empty)) d := by
  rw [create, hcontext, hoptions]

theorem connect_of_unresolved {error : Error} (h : resolve text d = .error error) :
    connect reach text d = .error error := by
  rw [connect, h]
  rfl

/-- Without a server to reach, what is resolved is all that a failure speaks of. -/
theorem connect_of_unreachable (hreach : ∀ r, ∃ source, reach r = .error source)
    {r : ResolvedConnection} (h : resolve text d = .ok r) :
    ∃ source, connect reach text d =
      .error (.failed (.unreachable r.connection.redacted) source) := by
  obtain ⟨source, hsource⟩ := hreach r
  refine ⟨source, ?_⟩
  rw [connect, h, ok_bind, hsource]

/-- Two failures that tell two passwords in front of the same remainder apart: if at all, by showing
the connection strings themselves, because the remainder cannot be read. -/
structure AlikeButText (user password password' rest : String) (e f : Error) : Prop where
  kind : e.kind = f.kind
  message : e.message = f.message ∨ ∃ fault, ofRemainder rest.toList = .error fault ∧
    e = .malformed (.connectionString (securedText user password rest) fault) ∧
    f = .malformed (.connectionString (securedText user password' rest) fault)

theorem AlikeButText.refl (user password password' rest : String) (e : Error) :
    AlikeButText user password password' rest e e :=
  ⟨rfl, .inl rfl⟩

theorem AlikeButText.unreachable (user password password' rest redacted source source' : String) :
    AlikeButText user password password' rest (.failed (.unreachable redacted) source)
      (.failed (.unreachable redacted) source') :=
  ⟨rfl, .inl rfl⟩

theorem AlikeButText.unreadable {user password password' rest : String} {fault : Fault}
    (h : ofRemainder rest.toList = .error fault) :
    AlikeButText user password password' rest
      (.malformed (.connectionString (securedText user password rest) fault))
      (.malformed (.connectionString (securedText user password' rest) fault)) :=
  ⟨rfl, .inr ⟨fault, h, rfl, rfl⟩⟩

section Passwords

variable {user password password' rest : String} (huser : user ≠ "") (hpassword : password ≠ "")
  (hpassword' : password' ≠ "") (hat : '@' ∉ rest.toList)

include huser hpassword hpassword' hat

/-- One connection attempt after the other, with one password and with another one. -/
theorem connect_of_credentials (hreach : ∀ r, ∃ source, reach r = .error source) (d : Dictionary) :
    ∃ e f, connect reach (securedText user password rest) d = .error e ∧
      connect reach (securedText user password' rest) d = .error f ∧
      AlikeButText user password password' rest e f := by
  cases hg : ClientConfig.ofOptions d with
  | error error =>
    exact ⟨error, error, connect_of_unresolved (resolve_of_refused _ hg),
      connect_of_unresolved (resolve_of_refused _ hg), .refl ..⟩
  | ok g =>
    have hleft := ofString_of_credentials huser hpassword hat
    have hright := ofString_of_credentials huser hpassword' hat
    cases hrest : ofRemainder rest.toList with
    | error fault =>
      rw [hrest] at hleft hright
      exact ⟨_, _, connect_of_unresolved (resolve_of_unreadable hg hleft),
        connect_of_unresolved (resolve_of_unreadable hg hright), .unreadable hrest⟩
    | ok c =>
      rw [hrest] at hleft hright
      obtain ⟨source, hfails⟩ := connect_of_unreachable hreach (resolve_eq_join hg hleft)
      obtain ⟨source', hfails'⟩ := connect_of_unreachable hreach (resolve_eq_join hg hright)
      rw [redacted_join_withCredentials c g user password' password] at hfails'
      exact ⟨_, _, hfails, hfails', .unreachable ..⟩

/-- Without a server to reach, creating a client fails with the same kind, and with the same context,
whichever of two passwords its connection string has. The messages are the same too, except where
what follows the credentials cannot be read: there each shows the connection string as it was given. -/
theorem create_of_credentials (hreach : ∀ r, ∃ source, reach r = .error source)
    (options context : Option Json) :
    ∃ e f : Failure, create reach (securedText user password rest) options context = .error e ∧
      create reach (securedText user password' rest) options context = .error f ∧
      e.kind = f.kind ∧ e.context = f.context ∧
      (e.message = f.message ∨ ∃ fault, ofRemainder rest.toList = .error fault ∧
        e.error = .malformed (.connectionString (securedText user password rest) fault) ∧
        f.error = .malformed (.connectionString (securedText user password' rest) fault)) := by
  cases hcontext : Dictionary.ofArgument context with
  | error error =>
    have hfails : ∀ text, create reach text options context = .error ⟨error, none⟩ := by
      intro text
      rw [create, hcontext]
    exact ⟨_, _, hfails _, hfails _, rfl, rfl, .inl rfl⟩
  | ok d =>
    cases hoptions : Dictionary.ofArgument options with
    | error error =>
      have hfails : ∀ text, create reach text options context = .error ⟨error, d⟩ := by
        intro text
        rw [create, hcontext, hoptions]
      exact ⟨_, _, hfails _, hfails _, rfl, rfl, .inl rfl⟩
    | ok o =>
      obtain ⟨e, f, hleft, hright, halike⟩ :=
        connect_of_credentials huser hpassword hpassword' hat hreach (o.getD .empty)
      refine ⟨⟨e, d⟩, ⟨f, d⟩, ?_, ?_, halike.kind, rfl, halike.message⟩
      · rw [create_eq reach _ hcontext hoptions, hleft, exit]
      · rw [create_eq reach _ hcontext hoptions, hright, exit]

end Passwords

/-- An outside world without any server. -/
def deserted : ResolvedConnection → Except String Unit := fun _ => .error "no server"

theorem deserted_create_of_credentials :
    (∀ r, ∃ source, deserted r = .error source) ∧ ∃ e f : Failure,
      create deserted (securedText "ann" "p@ss/" "h,i/db?w=1") none (some (.object [])) = .error e ∧
      create deserted (securedText "ann" ":?#" "h,i/db?w=1") none (some (.object [])) = .error f ∧
      e.kind = f.kind ∧ e.context = f.context ∧ e.message = f.message := by
  have hdeserted : ∀ r, ∃ source, deserted r = .error source := fun r => ⟨"no server", rfl⟩
  obtain ⟨e, f, he, hf, hkind, hcontext, hmessage⟩ :=
    @create_of_credentials Unit deserted "ann" "p@ss/" ":?#" "h,i/db?w=1" (by decide) (by decide)
      (by decide) (by decide) hdeserted none (some (.object []))
  have hreadable : ofRemainder "h,i/db?w=1".toList =
      .ok ⟨none, none, ["h", "i"], some "db", [("w", "1")]⟩ := by
    rfl
  refine ⟨hdeserted, e, f, he, hf, hkind, hcontext, ?_⟩
  rcases hmessage with hmessage | ⟨fault, hfault, -⟩
  · exact hmessage
  · rw [hreadable] at hfault
    cases hfault

/-- A port that is no number makes the message show the password. -/
theorem password_shown_for_bad_port :
    ∃ e f : Failure, create deserted (securedText "u" "one" "h:x") none none = .error e ∧
      create deserted (securedText "u" "two" "h:x") none none = .error f ∧
      e.message = "Malformed: Provided value (`mongodb://u:one@h:x`) is not a valid MongoDB " ++
        "connection string. Error details: invalid port number" ∧
      e.message ≠ f.message := by
  refine ⟨⟨.malformed (.connectionString (securedText "u" "one" "h:x") (.url .portNumber)), none⟩,
    ⟨.malformed (.connectionString (securedText "u" "two" "h:x") (.url .portNumber)), none⟩,
    rfl, rfl, ?_, ?_⟩
  · decide +kernel
  · decide +kernel

end Client

end DocQuery
