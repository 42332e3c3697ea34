import CalcScript.Floating.Bits
import CalcScript.Main
import CalcScript.Proofs.Evaluation.Atomicity
import CalcScript.Proofs.Evaluation.LinkedScopes
import CalcScript.Proofs.Evaluation.Representation
import CalcScript.Proofs.Grammar.ArithmeticDerivations
import CalcScript.Proofs.Grammar.ArithmeticPrograms
import CalcScript.Proofs.Packrat.LeftIteration
import CalcScript.Proofs.Packrat.Transparency
import CalcScript.Proofs.Session.Blocks
import CalcScript.Proofs.Source.Nesting
import CalcScript.Proofs.Packrat.Carrying
import CalcScript.Proofs.Packrat.Lasting
import CalcScript.Proofs.Packrat.RunCounts
import CalcScript.Proofs.Evaluation.Unread
import CalcScript.Proofs.Evaluation.Writes
import CalcScript.Proofs.Evaluation.Words
import CalcScript.Proofs.Evaluation.Calculations
import CalcScript.Proofs.Source.Caret
import CalcScript.Proofs.Evaluation.Negation
import CalcScript.Proofs.Evaluation.RoundedOnce
import CalcScript.Proofs.Decimal.Printing
import CalcScript.Proofs.Decimal.Shortest
