import EntityStore.Connection
import EntityStore.Dictionary
import EntityStore.Direction
import EntityStore.Document.Copy
import EntityStore.Document.Expand
import EntityStore.Document.Flatten
import EntityStore.Document.Lookup
import EntityStore.Document.Normalize
import EntityStore.Document.Prepare
import EntityStore.Document.Sharing
import EntityStore.Engine.Program
import EntityStore.Engine.Request
import EntityStore.Engine.Run
import EntityStore.Engine.Scripted
import EntityStore.ErrorKind
import EntityStore.Failure
import EntityStore.Filter.Basic
import EntityStore.Filter.Test
import EntityStore.Log
import EntityStore.Mapping.Basic
import EntityStore.Mapping.Validation
import EntityStore.Number.Binary64
import EntityStore.Number.Decimal
import EntityStore.Number.IntegerText
import EntityStore.Number.Quantity
import EntityStore.ObjectId
import EntityStore.Paging.Page
import EntityStore.Paging.PageRequest
import EntityStore.Path
import EntityStore.Proofs.Connection
import EntityStore.Proofs.Dictionary
import EntityStore.Proofs.Document.Coherence
import EntityStore.Proofs.Document.Expansion
import EntityStore.Proofs.Document.Flattening
import EntityStore.Proofs.Document.LeafNames
import EntityStore.Proofs.Document.Leaves
import EntityStore.Proofs.Document.NativeField
import EntityStore.Proofs.Document.NestedDocuments
import EntityStore.Proofs.Document.Outline
import EntityStore.Proofs.Document.Overwriting
import EntityStore.Proofs.Document.Placing
import EntityStore.Proofs.Document.Reaching
import EntityStore.Proofs.Document.Ready
import EntityStore.Proofs.Document.RoundTrip
import EntityStore.Proofs.Document.Setting
import EntityStore.Proofs.Document.SharedPlaces
import EntityStore.Proofs.Document.Stored
import EntityStore.Proofs.Document.WritingBelow
import EntityStore.Proofs.Document.WritingThrough
import EntityStore.Proofs.Engine.Asking
import EntityStore.Proofs.Engine.Collection
import EntityStore.Proofs.Engine.Conversation
import EntityStore.Proofs.Engine.Dialogue
import EntityStore.Proofs.Engine.Identifiers
import EntityStore.Proofs.Engine.Refusing
import EntityStore.Proofs.Engine.Reporting
import EntityStore.Proofs.Engine.Run
import EntityStore.Proofs.Filter.Arrangement
import EntityStore.Proofs.Filter.Entries
import EntityStore.Proofs.Filter.History
import EntityStore.Proofs.Mapping.Acceptance
import EntityStore.Proofs.Number.IntegerText
import EntityStore.Proofs.Number.Quantity
import EntityStore.Proofs.Number.Quotient
import EntityStore.Proofs.Outcome
import EntityStore.Proofs.Paging.PageCount
import EntityStore.Proofs.Paging.Usability
import EntityStore.Proofs.Paging.Windows
import EntityStore.Proofs.Path
import EntityStore.Proofs.Query.DoubleNegation
import EntityStore.Proofs.Query.Failing
import EntityStore.Proofs.Query.Fields
import EntityStore.Proofs.Query.Group
import EntityStore.Proofs.Query.Joining
import EntityStore.Proofs.Query.Matching
import EntityStore.Proofs.Query.Meaning
import EntityStore.Proofs.Query.Naming
import EntityStore.Proofs.Query.Negation
import EntityStore.Proofs.Query.Operands
import EntityStore.Proofs.Query.Operators
import EntityStore.Proofs.Query.Pattern
import EntityStore.Proofs.Query.Precedence
import EntityStore.Proofs.Query.Predicate
import EntityStore.Proofs.Query.Reading
import EntityStore.Proofs.Query.Ready
import EntityStore.Proofs.Query.Reordering
import EntityStore.Proofs.Query.Searching
import EntityStore.Proofs.Refusal
import EntityStore.Proofs.Repository.Adding
import EntityStore.Proofs.Repository.Attaining
import EntityStore.Proofs.Repository.Batch
import EntityStore.Proofs.Repository.Distinct
import EntityStore.Proofs.Repository.EngineWrites
import EntityStore.Proofs.Repository.Finding
import EntityStore.Proofs.Repository.FiniteMap
import EntityStore.Proofs.Repository.GivenEntity
import EntityStore.Proofs.Repository.GivenIdentity
import EntityStore.Proofs.Repository.Guarding
import EntityStore.Proofs.Repository.Hydrating
import EntityStore.Proofs.Repository.IdentityKey
import EntityStore.Proofs.Repository.Inserting
import EntityStore.Proofs.Repository.Keeping
import EntityStore.Proofs.Repository.NamedEntity
import EntityStore.Proofs.Repository.NativeIdentity
import EntityStore.Proofs.Repository.Operation
import EntityStore.Proofs.Repository.Paging
import EntityStore.Proofs.Repository.Planning
import EntityStore.Proofs.Repository.ReadYourWrites
import EntityStore.Proofs.Repository.Refetching
import EntityStore.Proofs.Repository.Refusing
import EntityStore.Proofs.Repository.Removing
import EntityStore.Proofs.Repository.Reporting
import EntityStore.Proofs.Repository.ReturnedIdentity
import EntityStore.Proofs.Repository.Sending
import EntityStore.Proofs.Repository.SendingIdentity
import EntityStore.Proofs.Repository.Serving
import EntityStore.Proofs.Repository.StorageNames
import EntityStore.Proofs.Repository.StoredDocument
import EntityStore.Proofs.Repository.Updating
import EntityStore.Proofs.Repository.Writing
import EntityStore.Proofs.Repository.WrittenDocument
import EntityStore.Proofs.Sorting.Arranged
import EntityStore.Proofs.Sorting.Compatible
import EntityStore.Proofs.Sorting.Gallop
import EntityStore.Proofs.Sorting.Interleaving
import EntityStore.Proofs.Sorting.Merge
import EntityStore.Proofs.Sorting.MergeBack
import EntityStore.Proofs.Sorting.MergeFront
import EntityStore.Proofs.Sorting.Runs
import EntityStore.Proofs.Sorting.Stability
import EntityStore.Proofs.Value.Atom
import EntityStore.Proofs.Value.Coercion
import EntityStore.Proofs.Value.Equality
import EntityStore.Proofs.Value.Identity
import EntityStore.Proofs.Value.Key
import EntityStore.Proofs.Value.NormalForm
import EntityStore.Proofs.Value.Order
import EntityStore.Proofs.Value.Ready
import EntityStore.Proofs.Value.Sorted
import EntityStore.Proofs.Value.Standing
import EntityStore.Proofs.Value.Undefined
import EntityStore.Query.Basic
import EntityStore.Query.OfFilter
import EntityStore.Repository.Basic
import EntityStore.Repository.Reading
import EntityStore.Repository.Writing
import EntityStore.Selection
import EntityStore.SortOrder
import EntityStore.Sorting.Gallop
import EntityStore.Sorting.Merge
import EntityStore.Sorting.Runs
import EntityStore.Text.Expression.Basic
import EntityStore.Text.Expression.CharSet
import EntityStore.Text.Expression.Escape
import EntityStore.Text.Expression.Group
import EntityStore.Text.Expression.Matching
import EntityStore.Text.Expression.Options
import EntityStore.Text.Expression.Reader
import EntityStore.Text.Expression.Reading
import EntityStore.Text.Expression.Repetition
import EntityStore.Text.Hex
import EntityStore.Text.Numeral
import EntityStore.Text.Printable
import EntityStore.Text.Quoted
import EntityStore.Time.Timestamp
import EntityStore.Value.Access
import EntityStore.Value.Basic
import EntityStore.Value.Display
import EntityStore.Value.Equality
import EntityStore.Value.Item
import EntityStore.Value.Literal
import EntityStore.Value.Order
