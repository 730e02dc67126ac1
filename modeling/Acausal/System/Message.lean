-- The wording of the reasons for which a flat model does not compile.
import Acausal.Instance.Message
import Acausal.System.Compile

namespace Acausal

def CompileError.message : CompileError Float → String
  | shape cause => cause.message
  | parameters cause => cause.message
  | definesNothing equation =>
    "equation `" ++ equation.text ++ "` does not define a derivative or a variable"
  | undeclaredDerivative name => "der(" ++ name ++ ") refers to an undeclared variable"
  | definedTwice name => "`" ++ name ++ "` is defined by more than one equation"
  | definedBothWays name => "`" ++ name ++ "` has both a derivative and an algebraic equation"
  | undetermined name => "no equation determines `" ++ name ++ "`"
  | loop cause => cause.message
  | inStart name cause => "in start value of `" ++ name ++ "`: " ++ cause.message
  | inEquation name cause => "in equation for `" ++ name ++ "`: " ++ cause.message
  | inDerivative name cause => "in equation for der(" ++ name ++ "): " ++ cause.message

end Acausal
