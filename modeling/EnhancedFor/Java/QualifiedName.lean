/-!
Dotted type names, possibly followed by type arguments in angle brackets.
-/

namespace EnhancedFor.Java

/-- The name without its type arguments. -/
def rawName (name : String) : String := String.ofList (name.toList.takeWhile (· ≠ '<'))

/-- The last segment of a dotted text, and the part before the last dot if there is one. -/
def splitLastDot (cs : List Char) : List Char × Option (List Char) :=
  let back := cs.reverse
  let rest := back.dropWhile (· ≠ '.')
  ((back.takeWhile (· ≠ '.')).reverse, if rest.isEmpty then none else some rest.tail.reverse)

def simpleName (name : String) : String :=
  String.ofList (splitLastDot (rawName name).toList).1

def packageName? (name : String) : Option String :=
  (splitLastDot (rawName name).toList).2.map String.ofList

end EnhancedFor.Java
