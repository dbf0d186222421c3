import VueScope.Main
import VueScope.Proofs.Analysis.Drift
import VueScope.Proofs.Analysis.HoverMarkers
import VueScope.Proofs.Analysis.Isolation
import VueScope.Proofs.Analysis.Translation
import VueScope.Proofs.Component.Blocks
import VueScope.Proofs.Component.Renesting
import VueScope.Proofs.Component.Spans
import VueScope.Proofs.Component.VoidElements
import VueScope.Proofs.Http.Refinement
import VueScope.Proofs.Markup.MaskedBytes
import VueScope.Proofs.Options.Reassigned
import VueScope.Proofs.Setup.Literals
import VueScope.Proofs.Setup.Parentheses
import VueScope.Proofs.Setup.PropsOrigin
import VueScope.Proofs.SyntaxFault
import VueScope.Proofs.Template.DirectiveNames
import VueScope.Proofs.Template.LoopPrinting
import VueScope.Proofs.Template.PatternNames
import VueScope.Proofs.Template.ScopeTest
import VueScope.Proofs.Template.Unreported
import VueScope.Proofs.Text.Positions
