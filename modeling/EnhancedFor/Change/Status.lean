/-!
Statuses: entries with a severity each. A status is as severe as its worst entry.
-/

namespace EnhancedFor

inductive Severity where
  | ok
  | info
  | warning
  | error
  | fatal
  deriving DecidableEq, Repr

namespace Severity

def rank : Severity → Nat
  | .ok => 0
  | .info => 1
  | .warning => 2
  | .error => 3
  | .fatal => 4

/-- The worse of two severities. -/
def worse (s t : Severity) : Severity := if s.rank < t.rank then t else s

def describe : Severity → String
  | .ok => "Ok"
  | .info => "Info"
  | .warning => "Warning"
  | .error => "Error"
  | .fatal => "Fatal"

end Severity

structure StatusEntry where
  severity : Severity
  message : String
  deriving DecidableEq, Repr

structure Status where
  entries : List StatusEntry
  deriving DecidableEq, Repr

namespace Status

def clear : Status := ⟨[]⟩

instance : Inhabited Status := ⟨clear⟩

def add (s : Status) (severity : Severity) (message : String) : Status :=
  ⟨s.entries ++ [⟨severity, message⟩]⟩

def ofFatal (message : String) : Status := clear.add .fatal message

def severity (s : Status) : Severity := (s.entries.map (·.severity)).foldl .worse .ok

def isOk (s : Status) : Bool := s.severity == .ok

def isFatal (s : Status) : Bool := s.severity == .fatal

/-- The message of the latest entry. -/
def lastMessage (s : Status) : String := (s.entries.getLast?.map (·.message)).getD ""

@[simp] theorem isFatal_ofFatal (message : String) : (ofFatal message).isFatal = true := rfl

@[simp] theorem isFatal_clear : clear.isFatal = false := rfl

end Status
end EnhancedFor
