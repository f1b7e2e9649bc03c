import Phrasebook.Text.Blank
import Phrasebook.Text.Split
import Phrasebook.Decimal.Numeral
import Phrasebook.Decimal.Shortest
import Phrasebook.Digest.Sha256
import Phrasebook.Seed
import Phrasebook.Stream.Draw
import Phrasebook.Book.Basic
import Phrasebook.Template.Reader
import Phrasebook.Source.Draft
import Phrasebook.Motion.Curve
import Phrasebook.Motion.Clock
import Phrasebook.Expansion.Basic
import Phrasebook.Imports.Resolve
import Phrasebook.Lint.Check
import Phrasebook.Text.Printable
import Phrasebook.Text.Lowercase
import Phrasebook.Ron.Book
import Phrasebook.Ron.Reader
import Phrasebook.Engine.Basic
import Phrasebook.Console.Linter
import Phrasebook.Console.Preview
import Phrasebook.Main
import Phrasebook.Proofs.Expansion.Parallel
import Phrasebook.Proofs.Expansion.Independence
import Phrasebook.Proofs.Choice.Positive
import Phrasebook.Proofs.Source.Layout
import Phrasebook.Proofs.Source.Lines
import Phrasebook.Proofs.Source.Completion
import Phrasebook.Proofs.Source.Reading
import Phrasebook.Proofs.Source.Naming
import Phrasebook.Proofs.Source.Parsing
import Phrasebook.Proofs.Imports.Obtained
import Phrasebook.Proofs.Imports.Transport
import Phrasebook.Proofs.Lint.Fixpoint
import Phrasebook.Proofs.Lint.Finishing
import Phrasebook.Proofs.Lint.Verdict
import Phrasebook.Proofs.Expansion.Routes
import Phrasebook.Proofs.Stream.Collision
import Phrasebook.Proofs.Imports.Account
import Phrasebook.Proofs.Imports.Resolution
import Phrasebook.Proofs.Imports.Cycles
import Phrasebook.Proofs.Imports.Questions
import Phrasebook.Proofs.Imports.History
import Phrasebook.Proofs.Source.WellFormed
import Phrasebook.Proofs.Expansion.Failures
import Phrasebook.Proofs.Imports.WellFormed
import Phrasebook.Proofs.Imports.Merging
import Phrasebook.Proofs.Imports.Copies
import Phrasebook.Proofs.Imports.Union
import Phrasebook.Proofs.Lint.Exactness
import Phrasebook.Proofs.Lint.Accounting
import Phrasebook.Proofs.Lint.Reachability
import Phrasebook.Proofs.Seed.Tokens
import Phrasebook.Proofs.Seed.Values
import Phrasebook.Proofs.Seed.Steps
import Phrasebook.Proofs.Expansion.Edits
import Phrasebook.Proofs.Imports.Loading
import Phrasebook.Proofs.Choice.Shares
import Phrasebook.Proofs.Expansion.Comparison
import Phrasebook.Proofs.Expansion.Limit
import Phrasebook.Proofs.Expansion.Constant
import Phrasebook.Proofs.Template.Quoting
import Phrasebook.Proofs.Template.Writing
import Phrasebook.Proofs.Template.Scanning
import Phrasebook.Proofs.Template.Expressible
import Phrasebook.Proofs.Template.Malformed
import Phrasebook.Proofs.Template.Stretches
import Phrasebook.Proofs.Source.Faults
import Phrasebook.Proofs.Source.Positions
import Phrasebook.Proofs.Source.Appending
import Phrasebook.Proofs.Motion.Clock
import Phrasebook.Proofs.Motion.Curve
import Phrasebook.Proofs.Console.Session
import Phrasebook.Proofs.Checked.Access
import Phrasebook.Proofs.Checked.Placeholder
import Phrasebook.Proofs.Checked.Alternative
import Phrasebook.Proofs.Checked.Line
import Phrasebook.Proofs.Checked.Stack
import Phrasebook.Proofs.Checked.Quotes
import Phrasebook.Proofs.Decimal.Rounding
import Phrasebook.Proofs.Decimal.Canonical
