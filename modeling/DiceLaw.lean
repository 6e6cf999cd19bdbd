import DiceLaw.Chart.Basic
import DiceLaw.Chart.Frame
import DiceLaw.Chart.Rendering
import DiceLaw.Except
import DiceLaw.Formula.Basic
import DiceLaw.Formula.BuildError
import DiceLaw.Formula.Draft
import DiceLaw.Formula.Law
import DiceLaw.Formula.NodeText
import DiceLaw.Formula.Notation
import DiceLaw.Formula.Reading
import DiceLaw.Grouping.Basic
import DiceLaw.Grouping.Level
import DiceLaw.Joint
import DiceLaw.Keyed
import DiceLaw.Number.Binary64
import DiceLaw.Number.DecimalText
import DiceLaw.Number.Numeral
import DiceLaw.Number.Power
import DiceLaw.Number.Scale
import DiceLaw.Number.Search
import DiceLaw.Proofs.Chart.Columns
import DiceLaw.Proofs.Grammar.Completeness
import DiceLaw.Proofs.Grammar.Cut
import DiceLaw.Proofs.Grammar.Derivation
import DiceLaw.Proofs.Grammar.Outline
import DiceLaw.Proofs.Grammar.Path
import DiceLaw.Proofs.Grammar.Recognition
import DiceLaw.Proofs.Grammar.Unmatched
import DiceLaw.Proofs.Law.Assignment
import DiceLaw.Proofs.Law.Bounds
import DiceLaw.Proofs.Law.Combination
import DiceLaw.Proofs.Law.Distribution
import DiceLaw.Proofs.Law.Expectation
import DiceLaw.Proofs.Law.Explosion
import DiceLaw.Proofs.Law.Failure
import DiceLaw.Proofs.Law.Game
import DiceLaw.Proofs.Law.Listing
import DiceLaw.Proofs.Law.Mean
import DiceLaw.Proofs.Law.Mirror
import DiceLaw.Proofs.Law.Moments
import DiceLaw.Proofs.Law.Probability
import DiceLaw.Proofs.Law.Quotient
import DiceLaw.Proofs.Law.Regrouping
import DiceLaw.Proofs.Law.Rerolls
import DiceLaw.Proofs.Law.Samples
import DiceLaw.Proofs.Law.Sampling
import DiceLaw.Proofs.Law.Shift
import DiceLaw.Proofs.Law.Signs
import DiceLaw.Proofs.Law.Support
import DiceLaw.Proofs.Law.Tuples
import DiceLaw.Proofs.Law.Variance
import DiceLaw.Proofs.Notation.Additions
import DiceLaw.Proofs.Notation.Brackets
import DiceLaw.Proofs.Notation.Closure
import DiceLaw.Proofs.Notation.Composition
import DiceLaw.Proofs.Notation.Context
import DiceLaw.Proofs.Notation.Counts
import DiceLaw.Proofs.Notation.Juxtaposition
import DiceLaw.Proofs.Notation.Letters
import DiceLaw.Proofs.Notation.Meaning
import DiceLaw.Proofs.Notation.Negation
import DiceLaw.Proofs.Notation.Normal
import DiceLaw.Proofs.Notation.Reading
import DiceLaw.Proofs.Notation.RoundTrip
import DiceLaw.Proofs.Notation.Scan
import DiceLaw.Proofs.Notation.SignPlacement
import DiceLaw.Proofs.Notation.SignedOperand
import DiceLaw.Proofs.Notation.Signs
import DiceLaw.Proofs.Notation.Spelling
import DiceLaw.Proofs.Notation.SymbolText
import DiceLaw.Proofs.Number.Nearest
import DiceLaw.Proofs.Number.Rounding
import DiceLaw.Proofs.Roll.Bounds
import DiceLaw.Proofs.Roll.Draw
import DiceLaw.Proofs.Roll.Extremes
import DiceLaw.Proofs.Roll.Mean
import DiceLaw.Proofs.Roll.OfFormula
import DiceLaw.Proofs.Roll.Probability
import DiceLaw.Proofs.Roll.Quantile
import DiceLaw.Proofs.Roll.RunningSums
import DiceLaw.Proofs.Roll.Scan
import DiceLaw.Proofs.Roll.Shift
import DiceLaw.Proofs.Roll.Statistics
import DiceLaw.Proofs.Roll.Variance
import DiceLaw.Proofs.Settings.Overlay
import DiceLaw.Proofs.Settings.Runs
import DiceLaw.Roll.Basic
import DiceLaw.Roll.Query
import DiceLaw.Roll.Sample
import DiceLaw.Roll.Statistics
import DiceLaw.Roll.Timing
import DiceLaw.Settings.LogLevel
import DiceLaw.Settings.Path
import DiceLaw.Settings.Store
import DiceLaw.Settings.Value
import DiceLaw.Symbol.Basic
import DiceLaw.Symbol.ReadError
import DiceLaw.Symbol.Reading
import DiceLaw.Symbol.Token
import DiceLaw.Table.Basic
import DiceLaw.Table.Convolution
import DiceLaw.Table.Cumulative
import DiceLaw.Table.Expectation
import DiceLaw.Table.Explosion
import DiceLaw.Table.Lemmas
import DiceLaw.Table.Operator
import DiceLaw.Table.Repetition
import DiceLaw.Text.Blank
import DiceLaw.Text.Casing
import DiceLaw.Text.Lowercase
import DiceLaw.Text.Printable
import DiceLaw.Text.Quoted
import DiceLaw.Text.Spans
import DiceLaw.Text.Uppercase
