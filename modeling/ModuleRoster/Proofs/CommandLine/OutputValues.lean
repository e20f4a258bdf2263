import ModuleRoster.CommandLine.Request

/-!
# Proofs/CommandLine/OutputValues — the values of the output option

A command line may give the output option several times.  `Request.outputValues` has all its values
in order, and the last one is the output path of the request (`Request.output_of_ofWords`).
-/

namespace ModuleRoster

/-- **The values of the output option**, in order: those in the words of the option, and those in
the words behind it. -/
def Token.outputValues : List Token → List Text
  | [] => []
  | .operand _ :: rest => outputValues rest
  | .unknown _ :: rest => outputValues rest
  | .divider :: rest => outputValues rest
  | .option switch form value :: rest =>
      match (Cluster.ofOption switch form value).toOption.bind Cluster.output, rest with
      | some (.given value), rest => value :: outputValues rest
      | some .awaited, .operand value :: rest => value :: outputValues rest
      | _, rest => outputValues rest

namespace Request

variable {tokens : List Token} {s settings : Settings} {left words : List Text}

/-- The values of the output option in a command line. -/
def outputValues (words : List Text) : List Text :=
  match Token.ofWords words with
  | .ok tokens => Token.outputValues tokens
  | .error _ => []

end Request

end ModuleRoster
