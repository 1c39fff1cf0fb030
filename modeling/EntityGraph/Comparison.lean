/-!
The six comparisons of two values.
-/
namespace EntityGraph

inductive Comparison where
  | equal
  | notEqual
  | less
  | lessOrEqual
  | greater
  | greaterOrEqual
deriving DecidableEq

end EntityGraph
