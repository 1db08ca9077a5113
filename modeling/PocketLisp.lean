import PocketLisp.Text.UpperCase
import PocketLisp.Text.DecimalDigit
import PocketLisp.Text.Blank
import PocketLisp.Text.Lines
import PocketLisp.Value.Print
import PocketLisp.Env.Store
import PocketLisp.Eval.Basic
import PocketLisp.Terminal
import PocketLisp.Main
import PocketLisp.Proofs.Reader.Descent
import PocketLisp.Proofs.Reader.Refinement
import PocketLisp.Proofs.Reader.Grammar
import PocketLisp.Proofs.Eval.Limit
import PocketLisp.Proofs.Eval.Rules
import PocketLisp.Proofs.Eval.Soundness
import PocketLisp.Proofs.Eval.Completeness
import PocketLisp.Proofs.Eval.Known
import PocketLisp.Proofs.Session.Safety
import PocketLisp.Proofs.Eval.Coincidence
import PocketLisp.Proofs.Eval.Nesting
import PocketLisp.Proofs.Eval.ComesTo
import PocketLisp.Proofs.Reader.InStep
import PocketLisp.Proofs.Reader.Limit
import PocketLisp.Proofs.Session.Limit
import PocketLisp.Proofs.Reader.MoreInput
import PocketLisp.Proofs.Session.Composition
import PocketLisp.Proofs.Session.Batch
import PocketLisp.Proofs.Literal.Digits
import PocketLisp.Proofs.Reader.Lexing
import PocketLisp.Proofs.Value.Dotted
import PocketLisp.Proofs.Value.ReadBack
import PocketLisp.Proofs.Program.Presentation
import PocketLisp.Proofs.Eval.Provenance
import PocketLisp.Proofs.Eval.Context
import PocketLisp.Proofs.Eval.Call
import PocketLisp.Proofs.Interpreter.Workspace
import PocketLisp.Proofs.Reader.Moves
import PocketLisp.Proofs.Session.Prompting
import PocketLisp.Proofs.Interpreter.Addition
import PocketLisp.Proofs.Env.Operations
import PocketLisp.Proofs.Env.Scoping
import PocketLisp.Proofs.Value.Foreign
import PocketLisp.Proofs.Session.Printing
import PocketLisp.Proofs.Eval.FirstOrder
import PocketLisp.Proofs.Eval.Sums
import PocketLisp.Proofs.Text.Streams
import PocketLisp.Proofs.Terminal.History
import PocketLisp.Proofs.Eval.Lambda
