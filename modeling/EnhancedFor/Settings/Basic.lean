import EnhancedFor.Java.Level
import EnhancedFor.Loop.Convert

/-!
The settings of the program in three sections, with their defaults.
-/

namespace EnhancedFor

structure JavaSettings where
  source : Nat := 17
  deriving DecidableEq, Repr

structure ConvertLoopSettings where
  defaultElementName : String := "element"
  strict : Bool := true
  deriving DecidableEq, Repr

structure LoggingSettings where
  level : String := "info"
  json : Bool := false
  stderr : Bool := true
  file : Option String := none
  deriving DecidableEq, Repr

structure Settings where
  java : JavaSettings := {}
  convertLoop : ConvertLoopSettings := {}
  logging : LoggingSettings := {}
  deriving DecidableEq, Repr

namespace Settings

def level (s : Settings) : Java.Level := ⟨s.java.source⟩

/-- What a conversion takes from the settings. -/
def convertOptions (s : Settings) : ConvertOptions :=
  ⟨s.convertLoop.strict, s.level, s.convertLoop.defaultElementName⟩

end Settings
end EnhancedFor
