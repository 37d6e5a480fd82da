import EnhancedFor.Java.Identifier
import EnhancedFor.Loop.SourceChange

/-!
Conversion of a counted loop over an iterator into an enhanced `for` loop.
-/

namespace EnhancedFor

structure ConvertOptions where
  strict : Bool
  level : Java.Level
  defaultName : String
  deriving DecidableEq, Repr

/-- A conversion ready to be applied. -/
structure Proposal where
  classification : Classification
  names : Name.Candidates
  plan : Plan
  change : SourceChange
  deriving DecidableEq, Repr

/-- How the conversion is called. -/
def Proposal.label : String := "Convert to enhanced for loop"

inductive ConvertError where
  | invalidElementName (name : String)
  | plan (error : PlanError)
  deriving DecidableEq, Repr

def ConvertError.message? : ConvertError → Option String
  | .invalidElementName name => some ("`" ++ name ++ "` is not a valid Java identifier")
  | .plan error => error.message?

/-- What the surroundings answer during a conversion. -/
structure Services where
  scopes : Scopes
  suggest : NameSuggester

namespace CompilationUnit

def services (unit : CompilationUnit) : Services := ⟨unit.scopes, Name.suggest⟩

/-- No proposal where the loop cannot be converted. The default name is checked first. -/
def convertLoop (unit : CompilationUnit) (store : TypeStore) (options : ConvertOptions)
    (services : Services) (loop : StmtId) : Except ConvertError (Option Proposal) := do
  if !Java.isIdentifier options.defaultName then throw (.invalidElementName options.defaultName)
  let orFault {α : Type} (r : Except Fault α) : Except ConvertError α :=
    r.mapError fun fault => .plan (.fault fault)
  match ← orFault (unit.classify store ⟨options.strict, options.level⟩ loop) with
  | .error _ => return none
  | .ok classification =>
    let names ← orFault (classification.suggestNames store services.scopes services.suggest
      (unit.stmtSpan loop) options.defaultName)
    let plan ← orFault (classification.plan unit store names)
    let change ← (plan.toSourceChange unit).mapError .plan
    return some ⟨classification, names, plan, change⟩

end CompilationUnit
end EnhancedFor
