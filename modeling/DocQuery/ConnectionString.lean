import DocQuery.Text.Percent

/-! Connection strings: `mongodb://[user[:password]@]host[:port][,...]/[database][?options]`. -/
namespace DocQuery

/-- Hosts keep the text they are written with; the other parts are decoded. -/
structure ConnectionString where
  user : Option String
  password : Option String
  hosts : List String
  database : Option String
  options : List (String × String)
  deriving DecidableEq

namespace ConnectionString

def scheme : String := "mongodb"

/-- Whether a URI option is set. Their names are compared without ASCII case. -/
def hasOption (c : ConnectionString) (key : String) : Bool :=
  c.options.any fun o => o.1.toList.map Char.toLower == key.toList.map Char.toLower

def addOption (c : ConnectionString) (key value : String) : ConnectionString :=
  { c with options := c.options ++ [(key, value)] }

def withCredentials (c : ConnectionString) (user password : Option String) : ConnectionString :=
  { c with user, password }

/-- User and password before the hosts. A password without a user is not written. -/
def credentialsText (user password : Option String) : String :=
  match user with
  | none => ""
  | some user =>
      Percent.encode user ++
        (match password with
          | some password => ":" ++ password
          | none => "") ++ "@"

def optionText (o : String × String) : String := Percent.encode o.1 ++ "=" ++ Percent.encode o.2

def queryText (options : List (String × String)) : String :=
  if options.isEmpty then "" else "?" ++ "&".intercalate (options.map optionText)

def textWith (c : ConnectionString) (password : Option String) : String :=
  scheme ++ "://" ++ credentialsText c.user password ++ ",".intercalate c.hosts ++ "/" ++
    (c.database.map Percent.encode).getD "" ++ queryText c.options

/-- The connection string with percent-coded parts. -/
def text (c : ConnectionString) : String := c.textWith (c.password.map Percent.encode)

def mask : String := "****"

/-- The connection string with its password masked, for messages. -/
def redacted (c : ConnectionString) : String := c.textWith (c.password.map fun _ => mask)

end ConnectionString

end DocQuery
