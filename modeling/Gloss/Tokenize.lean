import Gloss.Candidate
import Gloss.Selection

namespace Gloss

/-- What no pattern matches, such as blanks, `;` or a quote without a partner, is left between the
tokens. -/
def tokenize (source : String) : List Token := select (candidates source)

end Gloss
