/-!
# Limits on queries
-/
namespace SelectShape

/-- What a query may cost: levels of related resources, and bytes of text. -/
structure Limits where
  maxDepth : Nat
  maxLength : Nat
  deriving DecidableEq, Repr

/-- Thirty-two levels, and 64 KiB of text. -/
def Limits.standard : Limits := ⟨32, 65536⟩

end SelectShape
