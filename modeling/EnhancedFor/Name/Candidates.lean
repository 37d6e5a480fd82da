import EnhancedFor.Name.Suggestion

/-!
An ordered list of proposed names without duplicates.
-/

namespace EnhancedFor.Name

structure Candidates where
  toList : List String
  deriving DecidableEq, Repr, Inhabited

namespace Candidates

/-- Keeps the first of equal names. -/
def ofList (names : List String) : Candidates := ⟨names.eraseDups⟩

/-- Puts a name first, whether it was there or not. -/
def forceFront (candidates : Candidates) (name : String) : Candidates :=
  ⟨name :: candidates.toList.filter (· ≠ name)⟩

def first? (candidates : Candidates) : Option String := candidates.toList.head?

def contains (candidates : Candidates) (name : String) : Bool := candidates.toList.contains name

def size (candidates : Candidates) : Nat := candidates.toList.length

def isEmpty (candidates : Candidates) : Bool := candidates.toList.isEmpty

@[simp] theorem first?_forceFront (candidates : Candidates) (name : String) :
    (candidates.forceFront name).first? = some name := rfl

end Candidates
end EnhancedFor.Name
