import Formulary.Name
import Formulary.Id
import Formulary.Table
import Formulary.Decimal.Nearest
import Formulary.Decimal.Scaled
import Formulary.Decimal.Shortest
import Formulary.Decimal.Style
import Formulary.Json.Basic
import Formulary.Json.Quoted
import Formulary.Json.Reader
import Formulary.Json.Writer
import Formulary.Numeric
import Formulary.DerivedStat.Basic
import Formulary.DerivedStat.Value
import Formulary.Ability
import Formulary.Character
import Formulary.Sheet
import Formulary.Context.Basic
import Formulary.Expr.Kind
import Formulary.Expr.Basic
import Formulary.Expr.Text
import Formulary.Expr.Validation
import Formulary.Expr.Value
import Formulary.Error
import Formulary.Event
import Formulary.Traced
import Formulary.Document.Basic
import Formulary.Document.Record
import Formulary.Document.DerivedStat
import Formulary.Document.Expr
import Formulary.Document.Character
import Formulary.Formula
import Formulary.Library
import Formulary.Text.Printable
import Formulary.Context.Extras
import Formulary.Context.Summary
import Formulary.Proofs.Json.Basic
import Formulary.Proofs.Json.Quoted
import Formulary.Proofs.Json.Number
import Formulary.Proofs.Json.Layout
import Formulary.Proofs.Json.RoundTrip
import Formulary.Proofs.Json.Brackets
import Formulary.Proofs.Decimal.Finite
import Formulary.Proofs.Json.Reading
import Formulary.Proofs.Json.Depth
import Formulary.Proofs.Json.Levels
import Formulary.Proofs.Document.Basic
import Formulary.Proofs.Document.DerivedStat
import Formulary.Proofs.Document.Expr
import Formulary.Proofs.Document.Nodes
import Formulary.Proofs.Document.Senses
import Formulary.Proofs.Document.Edits
import Formulary.Proofs.Library.Built
import Formulary.Proofs.Document.Library
import Formulary.Proofs.Library.SaveLoad
import Formulary.Proofs.Document.Accepted
import Formulary.Proofs.Library.Reload
import Formulary.Proofs.Expr.Value
import Formulary.Proofs.Expr.Failures
import Formulary.Proofs.Expr.Strict
import Formulary.Proofs.Expr.Validation
import Formulary.Proofs.Expr.Trail
import Formulary.Proofs.Expr.Surroundings
import Formulary.Proofs.Expr.Lookups
import Formulary.Proofs.Document.Spelling
import Formulary.Proofs.Document.Misspelling
import Formulary.Proofs.Character.Mastery
import Formulary.Proofs.Table
import Formulary.Proofs.Json.Order
import Formulary.Proofs.Document.Order
import Formulary.Proofs.Document.Records
import Formulary.Proofs.Library.Loading
import Formulary.Proofs.Library.History
import Formulary.Proofs.Json.Skipping
import Formulary.Proofs.Document.Flaws
import Formulary.Proofs.Library.Refusal
import Formulary.Proofs.Character.Thresholds
import Formulary.Proofs.Expr.Gaps
import Formulary.Proofs.Decimal.Ranks
import Formulary.Proofs.Decimal.Shown
import Formulary.Proofs.Expr.Outline
import Formulary.Proofs.Expr.PostOrder
import Formulary.Proofs.Expr.Readable
import Formulary.Proofs.Formula.Breakdown
import Formulary.Proofs.Expr.Chain
import Formulary.Proofs.Character.DerivedStats
import Formulary.Proofs.Context.Arguments
import Formulary.Proofs.Character.Entries
import Formulary.Proofs.Context.Extras
import Formulary.Proofs.Context.Expressions
import Formulary.Proofs.Numeric.Values
import Formulary.Proofs.Numeric.Extremes
import Formulary.Proofs.Expr.Extremum
import Formulary.Proofs.Numeric.Clamp
import Formulary.Proofs.Expr.Clamp
import Formulary.Proofs.Numeric.Opposites
import Formulary.Proofs.Expr.Subtraction
import Formulary.Proofs.Numeric.Rounding
import Formulary.Proofs.Numeric.Magnitudes
import Formulary.Proofs.Numeric.Closeness
import Formulary.Proofs.Expr.ZeroDivisor
