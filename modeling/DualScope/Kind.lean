/-!
# Kinds of values
-/

namespace DualScope

/-- What a value is, leaving out its contents. -/
inductive Kind
  | number | symbol | boolean | string | pair | nil | okay | procedure
deriving DecidableEq

/-- The kind as messages name it. -/
def Kind.name : Kind → String
  | .number => "number"
  | .symbol => "symbol"
  | .boolean => "boolean"
  | .string => "string"
  | .pair => "pair"
  | .nil => "nil"
  | .okay => "okay"
  | .procedure => "procedure"

end DualScope
