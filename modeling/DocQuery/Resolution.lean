import DocQuery.ClientConfig

/-! Connection strings joined with client options. What the string says overrides the options. -/
namespace DocQuery

structure ResolvedConnection where
  connection : ConnectionString
  config : ClientConfig

namespace ConnectionString

def ofString (text : String) : Except Error ConnectionString :=
  (ofText text).mapError fun fault => .malformed (.connectionString text fault)

/-- Adds a URI option unless the connection string sets it. -/
def addMissing (c : ConnectionString) (o : UriOption) : ConnectionString :=
  if c.hasOption o.key then c else c.addOption o.key o.value

end ConnectionString

namespace ResolvedConnection

/-- User and password are taken from the connection string, each on its own, and from the options
where it has none. -/
def resolve (text : String) (options : Dictionary) : Except Error ResolvedConnection := do
  let config ← ClientConfig.ofOptions options
  let connection ← ConnectionString.ofString text
  let user := connection.user <|> config.user
  let password := connection.password <|> config.password
  let config := { config with user, password }
  let connection := config.mapped.foldl .addMissing (connection.withCredentials user password)
  return ⟨connection, config⟩

end ResolvedConnection

end DocQuery
