import SparqlViews.CommandLine.Arguments
import SparqlViews.CommandLine.Outcome
import SparqlViews.Data.Basic
import SparqlViews.Data.Part
import SparqlViews.Data.Written
import SparqlViews.Decimal.Layout
import SparqlViews.Decimal.Reader
import SparqlViews.Decimal.Rounding
import SparqlViews.Decimal.Shortest
import SparqlViews.Document.Basic
import SparqlViews.Document.Build
import SparqlViews.Document.Load
import SparqlViews.Document.Printer
import SparqlViews.Document.Reader
import SparqlViews.Document.Record
import SparqlViews.Endpoint.Basic
import SparqlViews.Endpoint.Catalog
import SparqlViews.Endpoint.Request
import SparqlViews.Json.Number
import SparqlViews.Json.Printer
import SparqlViews.Json.Reader
import SparqlViews.Main
import SparqlViews.Naming
import SparqlViews.Pattern.Basic
import SparqlViews.Pattern.Compile
import SparqlViews.Proofs.Naming.Encoding
import SparqlViews.Proofs.Result.Coalescing
import SparqlViews.Proofs.Result.Grouping
import SparqlViews.Proofs.Result.Stream
import SparqlViews.Proofs.Result.Tree
import SparqlViews.Proofs.Store.Dependencies
import SparqlViews.Proofs.Store.Resolution
import SparqlViews.Proofs.Store.Soundness
import SparqlViews.Proofs.View.Paths
import SparqlViews.Query.Builder
import SparqlViews.Query.Clauses
import SparqlViews.Query.Error
import SparqlViews.Query.Flat
import SparqlViews.Query.Limits
import SparqlViews.Query.Nested
import SparqlViews.Query.Shape
import SparqlViews.Query.Substitution
import SparqlViews.Result.Document
import SparqlViews.Result.Row
import SparqlViews.Result.Stream
import SparqlViews.Result.Tree
import SparqlViews.Settings.Basic
import SparqlViews.Settings.Printer
import SparqlViews.Settings.Reader
import SparqlViews.Table
import SparqlViews.Term.Basic
import SparqlViews.Term.Prefixes
import SparqlViews.Term.Printer
import SparqlViews.Term.Reader
import SparqlViews.Term.Value
import SparqlViews.Text.Alphanumeric
import SparqlViews.Text.Basic
import SparqlViews.Text.Lowercase
import SparqlViews.Text.Shown
import SparqlViews.View.Basic
import SparqlViews.View.Error
import SparqlViews.View.Lookup
import SparqlViews.View.Path
import SparqlViews.View.Projection
import SparqlViews.View.Search
import SparqlViews.View.Store
import SparqlViews.View.Value
import SparqlViews.View.Variables
import SparqlViews.Yaml.Node
import SparqlViews.Yaml.Place
import SparqlViews.Yaml.Reader
import SparqlViews.Yaml.Scalar
import SparqlViews.Yaml.Tag
import SparqlViews.Yaml.Token
import SparqlViews.Yaml.Token.Lexer
import SparqlViews.Yaml.Token.Mark
import SparqlViews.Yaml.Token.Scalar
import SparqlViews.Proofs.Query.Splicing
import SparqlViews.Proofs.Steps
import SparqlViews.Proofs.Query.Rendering
import SparqlViews.Proofs.Query.Reachable
import SparqlViews.Proofs.Endpoint.RootVariable
import SparqlViews.Proofs.Term.RoundTrip
import SparqlViews.Proofs.Term.Token
import SparqlViews.Proofs.Endpoint.RequestTerms
import SparqlViews.Proofs.Store.Loading
import SparqlViews.Proofs.Endpoint.OwnViews
import SparqlViews.Proofs.Text.Lines
import SparqlViews.Proofs.Query.Filling
import SparqlViews.Proofs.Query.Scanning
import SparqlViews.Proofs.Query.ConditionLines
import SparqlViews.Proofs.Endpoint.LoadChecks
import SparqlViews.Proofs.Query.OrderLines
import SparqlViews.Proofs.Result.Ordered
import SparqlViews.Proofs.Result.Release
import SparqlViews.Proofs.Store.Acyclic
import SparqlViews.Proofs.Pattern.Groups
import SparqlViews.Proofs.Pattern.Compiled
import SparqlViews.Proofs.Query.Places
import SparqlViews.Proofs.Query.LimitLines
import SparqlViews.Proofs.Endpoint.HardLimit
import SparqlViews.Proofs.View.Names
import SparqlViews.Proofs.View.Projection
import SparqlViews.Proofs.View.Columns
import SparqlViews.Proofs.Query.Selected
import SparqlViews.Proofs.Result.Hidden
import SparqlViews.Proofs.Pattern.Outer
import SparqlViews.Proofs.Query.Joins
import SparqlViews.Proofs.Query.InnerPattern
import SparqlViews.Proofs.Query.Pieces
import SparqlViews.Proofs.Query.Constants
import SparqlViews.Proofs.Query.WhereGroup
import SparqlViews.Proofs.Endpoint.RequestMeaning
import SparqlViews.Proofs.Endpoint.RequestAnswer
import SparqlViews.Proofs.Endpoint.RequestFrame
import SparqlViews.Proofs.Query.Addresses
import SparqlViews.Proofs.Term.Grammar
import SparqlViews.Proofs.Term.Parsing
import SparqlViews.Proofs.Term.Denotation
import SparqlViews.Proofs.Term.Expansion
import SparqlViews.Proofs.Document.Building
import SparqlViews.Proofs.Result.Solutions
import SparqlViews.Proofs.Query.Unbound
import SparqlViews.Proofs.View.Construction
import SparqlViews.Proofs.View.ClauseOrder
import SparqlViews.Proofs.Result.KeyOrder
