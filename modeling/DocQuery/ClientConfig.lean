import DocQuery.Error

/-! Client options: which of them are kept, and which of those a connection string can express. -/
namespace DocQuery

/-- The options that are kept, in the order in which they are listed. Any other one is dropped. -/
def recognizedOptions : List String :=
  ["ssl", "sslValidate", "sslCA", "sslCert", "sslKey", "sslPass", "poolSize", "autoReconnect",
    "noDelay", "keepAlive", "connectTimeoutMS", "socketTimeoutMS", "reconnectTries",
    "reconnectInterval", "ha", "haInterval", "replicaSet", "secondaryAcceptableLatencyMS",
    "acceptableLatencyMS", "connectWithNoPrimary", "authSource", "w", "wtimeout", "j",
    "forceServerObjectId", "serializeFunctions", "ignoreUndefined", "raw", "promoteLongs",
    "bufferMaxEntries", "readPreference", "pkFactory", "readConcern", "user", "password"]

/-- How the value of an option is written as a URI option. -/
inductive UriForm where
  | flag
  | invertedFlag
  | text
  | integer
  | writeConcern
  | readConcern
  deriving DecidableEq

structure UriMapping where
  source : String
  key : String
  form : UriForm
  deriving DecidableEq

/-- Of two options with the same URI key, the one that comes first here and can be written wins. -/
def uriMappings : List UriMapping :=
  [⟨"ssl", "tls", .flag⟩,
    ⟨"sslValidate", "tlsAllowInvalidCertificates", .invertedFlag⟩,
    ⟨"sslCA", "tlsCAFile", .text⟩,
    ⟨"sslCert", "tlsCertificateKeyFile", .text⟩,
    ⟨"sslKey", "tlsCertificateKeyFile", .text⟩,
    ⟨"poolSize", "maxPoolSize", .integer⟩,
    ⟨"connectTimeoutMS", "connectTimeoutMS", .integer⟩,
    ⟨"replicaSet", "replicaSet", .text⟩,
    ⟨"acceptableLatencyMS", "localThresholdMS", .integer⟩,
    ⟨"secondaryAcceptableLatencyMS", "localThresholdMS", .integer⟩,
    ⟨"haInterval", "heartbeatFrequencyMS", .integer⟩,
    ⟨"authSource", "authSource", .text⟩,
    ⟨"w", "w", .writeConcern⟩,
    ⟨"wtimeout", "wtimeoutMS", .integer⟩,
    ⟨"j", "journal", .flag⟩,
    ⟨"readPreference", "readPreference", .text⟩,
    ⟨"readConcern", "readConcernLevel", .readConcern⟩]

def boolText (b : Bool) : String := if b then "true" else "false"

/-- A count in decimal; only integers that are not negative have one. -/
def Json.countText? (value : Json) : Option String :=
  value.nat?.map fun n => String.ofList (Decimal.natText n)

/-- The text of a value in a form, unless it has none. -/
def UriForm.write? : UriForm → Json → Option String
  | .flag, .bool b => some (boolText b)
  | .invertedFlag, .bool b => some (boolText !b)
  | .text, .string s => some s
  | .integer, value => value.countText?
  | .writeConcern, .string s => some s
  | .writeConcern, value => value.countText?
  | .readConcern, .string s => some s
  | .readConcern, .object members => (Entries.get? members "level").bind Json.string?
  | _, _ => none

structure UriOption where
  source : String
  key : String
  value : String
  deriving DecidableEq

/-- The options that are kept, with the credentials apart. -/
structure ClientConfig where
  options : Dictionary
  user : Option String
  password : Option String

namespace ClientConfig

def credentialKeys : List String := ["user", "password"]

/-- Null counts as absent. -/
def given? (options : Dictionary) (key : String) : Option Json :=
  (options.get? key).filter fun value => !value.isNull

def credential (options : Dictionary) (key : String) : Except Error (Option String) :=
  match given? options key with
  | none => .ok none
  | some (.string s) => .ok (some s)
  | some other => .error (.malformed (.credential key other))

/-- The recognized options that are given, credentials excluded. -/
def kept (options : Dictionary) : Entries Json :=
  (recognizedOptions.filter fun key => !credentialKeys.contains key).filterMap fun key =>
    (given? options key).map fun value => (key, value)

def ofOptions (options : Dictionary) : Except Error ClientConfig := do
  let user ← credential options "user"
  let password ← credential options "password"
  return ⟨.ofList (kept options), user, password⟩

def get? (c : ClientConfig) (key : String) : Option Json := c.options.get? key

/-- The option of a mapping's source as a URI option. -/
def uriOption? (c : ClientConfig) (m : UriMapping) : Option UriOption :=
  ((c.get? m.source).bind m.form.write?).map fun value => ⟨m.source, m.key, value⟩

/-- Adds what a mapping yields unless its URI key is taken. -/
def addMapped (c : ClientConfig) (mapped : List UriOption) (m : UriMapping) : List UriOption :=
  if mapped.any fun o => o.key == m.key then mapped else mapped ++ (c.uriOption? m).toList

/-- The options that a connection string can express. -/
def mapped (c : ClientConfig) : List UriOption := uriMappings.foldl c.addMapped []

/-- The keys of all other options. -/
def unmapped (c : ClientConfig) : List String :=
  c.options.keys.filter fun key => !c.mapped.any fun o => o.source == key

end ClientConfig

end DocQuery
