/-!
Language levels by major release, and the two features that depend on them.
-/

namespace EnhancedFor.Java

structure Level where
  major : Nat
  deriving DecidableEq, Repr

instance : Inhabited Level := ⟨⟨17⟩⟩

inductive Feature where
  | generics
  | enhancedFor
  deriving DecidableEq, Repr

namespace Feature

def displayName : Feature → String
  | .generics => "generics"
  | .enhancedFor => "enhanced `for` statement"

/-- The first major release that has the feature. -/
def since : Feature → Nat
  | .generics => 5
  | .enhancedFor => 5

end Feature

def Level.supports (level : Level) (feature : Feature) : Bool :=
  decide (feature.since ≤ level.major)

end EnhancedFor.Java
