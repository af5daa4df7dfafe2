import Relata.Main
import Relata.Schema.Document
import Relata.Script.Turns
import Relata.Script.World
import Relata.Proofs.Sql.Reader
import Relata.Proofs.Sql.Spelling
import Relata.Proofs.Sql.Reading
import Relata.Proofs.Query.Meaning
import Relata.Proofs.Sql.Kind
import Relata.Proofs.Store.Connection
import Relata.Proofs.Store.Sorting
import Relata.Proofs.Model.Alone
import Relata.Proofs.Script.Session
import Relata.Proofs.Model.Attach
import Relata.Proofs.Store.Access
import Relata.Proofs.Store.Batch
import Relata.Proofs.Script.Batch
import Relata.Proofs.Script.Call
import Relata.Proofs.Script.Transaction
import Relata.Proofs.Model.Calls
import Relata.Proofs.Transaction
import Relata.Proofs.Store.Alike
import Relata.Proofs.Script.Alike
import Relata.Proofs.Batch
import Relata.Proofs.Isolation
import Relata.Proofs.Serializable
import Relata.Proofs.Model.Faults
import Relata.Proofs.Model.SingleRow
import Relata.Proofs.Query.Glyphs
import Relata.Proofs.Query.Shape
import Relata.Proofs.Model.Drafts
import Relata.Proofs.Model.Cost
import Relata.Proofs.Model.Siblings
import Relata.Proofs.Query.Structural
import Relata.Proofs.Model.Columns
import Relata.Proofs.Model.FailedWrites
import Relata.Proofs.Model.Agreement
import Relata.Proofs.Model.Reread
import Relata.Proofs.Model.Upserted
import Relata.Proofs.Model.Aggregated
import Relata.Proofs.Created
import Relata.Proofs.Model.Reordered
import Relata.Proofs.Model.Readable
import Relata.Proofs.GivenUp
import Relata.Proofs.Waiting
import Relata.Proofs.Query.Selected
import Relata.Proofs.Query.Likeness
import Relata.Proofs.Model.Justified
import Relata.Proofs.Query.Narrowing
import Relata.Proofs.Query.Paging
import Relata.Proofs.Query.Sites
import Relata.Proofs.Value.Chronology
import Relata.Proofs.Text.Identity
import Relata.Proofs.Store.Messages
import Relata.Proofs.Query.Flaws
import Relata.Proofs.Query.Missing
import Relata.Proofs.Value.Texts
