-- The wording of errors that show expressions or come with the place they happened at. A cause
-- stands behind the place it concerns, after a colon.
import Acausal.Flat.Text
import Acausal.Instance.Basic

namespace Acausal

def ShapeError.message : ShapeError Float → String
  | sizes first other equation =>
    "array sizes " ++ toString first ++ " and " ++ toString other ++ " do not match in `" ++
      equation.text ++ "`"
  | outOfRange index name =>
    "subscript " ++ toString index ++ " out of range for `" ++ name ++ "`"
  | notArray name => "`" ++ name ++ "` is not an array"

def InstanceError.message : InstanceError Float → String
  | classNotFound name => "class `" ++ name ++ "` not found"
  | partialModel name => "cannot instantiate partial class `" ++ name ++ "`"
  | packageModel name => "cannot instantiate package `" ++ name ++ "`"
  | recursive name => "class `" ++ name ++ "` contains or extends itself"
  | baseNotFound name => "base class `" ++ name ++ "` not found"
  | typeNotFound typeName name => "type `" ++ typeName ++ "` of `" ++ name ++ "` not found"
  | unsuitableType name typeName =>
    "component `" ++ name ++ "` cannot have type `" ++ typeName ++ "`"
  | duplicate name => "duplicate declaration of `" ++ name ++ "`"
  | arrayParameter name => "array parameter `" ++ name ++ "` is not supported"
  | parameterWithoutValue name => "parameter `" ++ name ++ "` has no value"
  | arrayOfComponents name => "array of components `" ++ name ++ "` is not supported"
  | unresolved cause => cause.message
  | inComponent name cause => "in component `" ++ name ++ "`: " ++ cause.message
  | inBinding name cause => "in binding of `" ++ name ++ "`: " ++ cause.message
  | inStart name cause => "in start value of `" ++ name ++ "`: " ++ cause.message
  | inEquation cause => cause.message
  | shape cause => cause.message

end Acausal
