import AssociationQuery.Alias.Allocation
import AssociationQuery.Alias.Basic
import AssociationQuery.Association.Basic
import AssociationQuery.Association.Keys
import AssociationQuery.Association.Kind
import AssociationQuery.Association.Route
import AssociationQuery.Association.Summary
import AssociationQuery.Chain.Node
import AssociationQuery.Chain.Request
import AssociationQuery.Config
import AssociationQuery.Connection
import AssociationQuery.Decoded
import AssociationQuery.Dialect
import AssociationQuery.Error
import AssociationQuery.Error.Association
import AssociationQuery.Error.Code
import AssociationQuery.Expr.Basic
import AssociationQuery.Expr.Columns
import AssociationQuery.Expr.Equality
import AssociationQuery.Expr.Operator
import AssociationQuery.Expr.Render
import AssociationQuery.Fetch
import AssociationQuery.Identifier
import AssociationQuery.Json.Basic
import AssociationQuery.Json.Document
import AssociationQuery.Json.Parser
import AssociationQuery.Json.Printer
import AssociationQuery.Json.Real
import AssociationQuery.Json.Record
import AssociationQuery.Layout
import AssociationQuery.Layout.Document
import AssociationQuery.Number.Binary
import AssociationQuery.Number.Decimal
import AssociationQuery.Number.Shortest
import AssociationQuery.Plan.Chain
import AssociationQuery.Plan.Compile
import AssociationQuery.Plan.Draft
import AssociationQuery.Plan.Existence
import AssociationQuery.Proofs.Fetching.Pairing
import AssociationQuery.Proofs.Meaning.Agreement
import AssociationQuery.Proofs.Meaning.Associations
import AssociationQuery.Proofs.Meaning.Combinations
import AssociationQuery.Proofs.Meaning.Existence
import AssociationQuery.Proofs.Meaning.Models
import AssociationQuery.Proofs.Meaning.Routes
import AssociationQuery.Proofs.Meaning.Semantics
import AssociationQuery.Proofs.Planning.Additions
import AssociationQuery.Proofs.Planning.Columns
import AssociationQuery.Proofs.Planning.Joins
import AssociationQuery.Proofs.Planning.Places
import AssociationQuery.Proofs.Planning.Routes
import AssociationQuery.Proofs.Planning.Statements
import AssociationQuery.Proofs.Planning.Walk
import AssociationQuery.Proofs.Reading.Grouping
import AssociationQuery.Proofs.Reading.Regrouping
import AssociationQuery.Proofs.Reading.Syntax
import AssociationQuery.Proofs.Result
import AssociationQuery.Query
import AssociationQuery.Row
import AssociationQuery.Row.Reading
import AssociationQuery.Schema.Basic
import AssociationQuery.Schema.Document
import AssociationQuery.Schema.Introspection
import AssociationQuery.Sql.Bound
import AssociationQuery.Sql.Token
import AssociationQuery.Statement.Basic
import AssociationQuery.Statement.Render
import AssociationQuery.Table
import AssociationQuery.Text.Casing
import AssociationQuery.Text.Casing.Table
import AssociationQuery.Text.Quoted
import AssociationQuery.Text.Quoted.Table
import AssociationQuery.Value.Basic
import AssociationQuery.Value.Document
import AssociationQuery.Value.Key
import AssociationQuery.Proofs.Naming.Allocation
import AssociationQuery.Proofs.Planning.Plans
import AssociationQuery.Proofs.Planning.Steps
import AssociationQuery.Proofs.Planning.Optionality
import AssociationQuery.Proofs.Visibility.Qualifiers
import AssociationQuery.Proofs.Visibility.Scopes
import AssociationQuery.Proofs.Visibility.Subqueries
import AssociationQuery.Proofs.Visibility.Drafts
import AssociationQuery.Proofs.Visibility.Statements
import AssociationQuery.Proofs.Placeholders.Reading
import AssociationQuery.Proofs.Placeholders.Values
import AssociationQuery.Proofs.Placeholders.Writing
import AssociationQuery.Proofs.Placeholders.Writer
import AssociationQuery.Proofs.Placeholders.Statements
import AssociationQuery.Proofs.Planning.Terms
import AssociationQuery.Proofs.Visibility.Aggregates
import AssociationQuery.Proofs.Visibility.LookingBack
import AssociationQuery.Proofs.Meaning.Handles
import AssociationQuery.Proofs.Meaning.FanOut
import AssociationQuery.Proofs.Nesting.Outline
import AssociationQuery.Proofs.Nesting.Layouts
import AssociationQuery.Proofs.Nesting.Mirrors
import AssociationQuery.Proofs.Building.Calls
import AssociationQuery.Proofs.Building.Order
import AssociationQuery.Proofs.Building.Equality
import AssociationQuery.Proofs.Building.Merging
import AssociationQuery.Proofs.Spelling.Runs
import AssociationQuery.Proofs.Spelling.Rendering
import AssociationQuery.Proofs.Planning.Faults
import AssociationQuery.Proofs.Spelling.Drafts
import AssociationQuery.Proofs.Spelling.Statements
import AssociationQuery.Proofs.Naming.Conflicts
import AssociationQuery.Proofs.Naming.Turns
import AssociationQuery.Proofs.Naming.Reports
import AssociationQuery.Proofs.Fetching.Course
import AssociationQuery.Proofs.Keys.Associations
import AssociationQuery.Proofs.Keys.Conditions
import AssociationQuery.Proofs.Keys.Statements
import AssociationQuery.Proofs.Naming.LeastNumbers
import AssociationQuery.Proofs.Naming.SelfJoins
import AssociationQuery.Proofs.Meaning.Counts
import AssociationQuery.Proofs.Placeholders.Positions
import AssociationQuery.Proofs.Reading.Lexing
import AssociationQuery.Proofs.Reading.Negations
import AssociationQuery.Proofs.Planning.Flattening
import AssociationQuery.Proofs.Planning.Pivots
import AssociationQuery.Proofs.Keys.Mappings
import AssociationQuery.Proofs.Reading.Splitting
import AssociationQuery.Proofs.Reading.Conjunctions
import AssociationQuery.Proofs.Reading.Identifiers
import AssociationQuery.Proofs.Spelling.Rerooting
import AssociationQuery.Proofs.Decoding.Paths
import AssociationQuery.Proofs.Fetching.Progress
import AssociationQuery.Proofs.Keys.Forms
import AssociationQuery.Proofs.Keys.Independence
import AssociationQuery.Proofs.Introspection.Constraints
import AssociationQuery.Proofs.Introspection.KeyParts
import AssociationQuery.Proofs.Introspection.Tables
import AssociationQuery.Proofs.Keys.Selection
import AssociationQuery.Proofs.Renaming.Handles
import AssociationQuery.Proofs.Renaming.Building
import AssociationQuery.Proofs.Renaming.Rendering
import AssociationQuery.Proofs.Renaming.Planning
import AssociationQuery.Proofs.Renaming.Walk
import AssociationQuery.Proofs.Renaming.Compiling
import AssociationQuery.Proofs.Values.Texts
import AssociationQuery.Proofs.Values.Ordered
import AssociationQuery.Proofs.Values.Keys
