import DocQuery.Client
import DocQuery.Compilation
import DocQuery.Statement.Clause
import DocQuery.Proofs.Client
import DocQuery.Proofs.ClientConfig.Partition
import DocQuery.Proofs.Compilation.Arguments
import DocQuery.Proofs.Compilation.Building
import DocQuery.Proofs.Compilation.Clauses
import DocQuery.Proofs.Compilation.Exits
import DocQuery.Proofs.Compilation.FilterKeys
import DocQuery.Proofs.Compilation.KeyOrder
import DocQuery.Proofs.Compilation.Mounting
import DocQuery.Proofs.Compilation.Options
import DocQuery.Proofs.Compilation.Respelling
import DocQuery.Proofs.Compilation.WrittenData
import DocQuery.Proofs.ConnectionString.Credentials
import DocQuery.Proofs.ConnectionString.Rereading
import DocQuery.Proofs.ConnectionString.RoundTrip
import DocQuery.Proofs.DateLike
import DocQuery.Proofs.Dictionary
import DocQuery.Proofs.Filter.Meaning
import DocQuery.Proofs.Filter.Parts
import DocQuery.Proofs.Filter.Siblings
import DocQuery.Proofs.Json.Reading
import DocQuery.Proofs.Pattern
import DocQuery.Proofs.Resolution.Rereading
import DocQuery.Proofs.Statement.Exclusions
import DocQuery.Proofs.Statement.Spelling
import DocQuery.Proofs.Statement.Where
import DocQuery.Proofs.Statement.Writing
