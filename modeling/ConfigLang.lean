import ConfigLang.Main
import ConfigLang.Proofs.Document.JsonTrees
import ConfigLang.Proofs.Document.QuotedPaths
import ConfigLang.Proofs.Document.SyntaxCheck
import ConfigLang.Proofs.Eval.Abstraction
import ConfigLang.Proofs.Eval.Aliases
import ConfigLang.Proofs.Eval.DeclarationOrder
import ConfigLang.Proofs.Eval.Fields
import ConfigLang.Proofs.Eval.IndependentPairs
import ConfigLang.Proofs.Eval.Overrides
import ConfigLang.Proofs.Eval.ReferenceErrors
import ConfigLang.Proofs.Eval.References
import ConfigLang.Proofs.Eval.Regrouping
import ConfigLang.Proofs.Eval.Resolutions
import ConfigLang.Proofs.Eval.Sessions
import ConfigLang.Proofs.Eval.Spreading
import ConfigLang.Proofs.Grammar.Display
import ConfigLang.Proofs.Grammar.Repetitions
import ConfigLang.Proofs.Grammar.Viability
import ConfigLang.Proofs.Text.LineEndings
import ConfigLang.Proofs.Token.Comments
import ConfigLang.Proofs.Token.IntegerRange
import ConfigLang.Proofs.Token.IntegerSpellings
import ConfigLang.Proofs.Token.Kinds
import ConfigLang.Proofs.Token.Layout
import ConfigLang.Proofs.Token.Rendering
import ConfigLang.Proofs.Token.SyntaxErrors
import ConfigLang.Proofs.Token.Unreadable
import ConfigLang.Proofs.Value.FailedWrites
import ConfigLang.Proofs.Value.RoundTrip
import ConfigLang.Proofs.Value.WriteLaws
