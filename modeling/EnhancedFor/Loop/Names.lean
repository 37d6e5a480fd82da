import EnhancedFor.Name.Candidates
import EnhancedFor.Syntax.Scope
import EnhancedFor.Loop.Classification

/-!
Names proposed for the variable of the converted loop.
-/

namespace EnhancedFor

/-- Proposes names from a base, a first number and the names to avoid. -/
abbrev NameSuggester := String → Nat → List String → List String

namespace Classification

/-- The simple name of the iterator's type argument, else the default. -/
def nameSeed (c : Classification) (store : TypeStore) (defaultName : String) :
    Except Fault String := do
  let some type := (← store.var c.iterator).type | return defaultName
  let some arg := (← store.type type).typeArguments.head? | return defaultName
  return Java.simpleName (← store.type arg).name

/-- The proposals for a base that are not excluded, else the suggestions for the default name. -/
def freeNames (suggest : NameSuggester) (base : String) (excluded : List String)
    (defaultName : String) : Name.Candidates :=
  let proposed := Name.Candidates.ofList
    ((suggest base 0 excluded).filter fun n => !excluded.contains n)
  if proposed.isEmpty then .ofList (Name.suggest defaultName 0 excluded) else proposed

/-- Names visible before the loop or declared after it are avoided. An element variable that is
there already keeps its name and comes first, whatever else holds. -/
def suggestNames (c : Classification) (store : TypeStore) (scopes : Scopes)
    (suggest : NameSuggester) (loopSpan : Span) (defaultName : String) :
    Except Fault Name.Candidates := do
  let excluded := scopes.before loopSpan.start ++ scopes.after loopSpan.stop
  let names := freeNames suggest (← c.nameSeed store defaultName) excluded defaultName
  match c.element with
  | some e => return names.forceFront (← store.var e.var).name
  | none => return names

end Classification
end EnhancedFor
