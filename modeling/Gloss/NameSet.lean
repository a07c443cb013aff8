import Std.Data.ExtTreeSet

namespace Gloss

/-- One flat set of declared names: a name stays declared to the end of the program, whatever block
declared it. The names are listed in the order of their characters' code points. -/
abbrev NameSet := Std.ExtTreeSet String

end Gloss
