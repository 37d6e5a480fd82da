/-!
Which strings are Java keywords and which may name a variable. Identifiers are ASCII here: a letter,
`_` or `$`, then letters, digits, `_` and `$`.
-/

namespace EnhancedFor.Java

def keywords : List String :=
  ["abstract", "assert", "boolean", "break", "byte", "case", "catch", "char", "class", "const",
    "continue", "default", "do", "double", "else", "enum", "extends", "false", "final", "finally",
    "float", "for", "goto", "if", "implements", "import", "instanceof", "int", "interface", "long",
    "native", "new", "null", "package", "private", "protected", "public", "return", "short",
    "static", "strictfp", "super", "switch", "synchronized", "this", "throw", "throws",
    "transient", "true", "try", "void", "volatile", "while"]

def isKeyword (s : String) : Bool := keywords.contains s

def isIdentifierStart (c : Char) : Bool := c.isAlpha || c == '_' || c == '$'

def isIdentifierPart (c : Char) : Bool := c.isAlphanum || c == '_' || c == '$'

/-- A lone `_` and the keywords are not identifiers. -/
def isIdentifier (s : String) : Bool :=
  match s.toList with
  | [] => false
  | c :: cs => isIdentifierStart c && s != "_" && cs.all isIdentifierPart && !isKeyword s

end EnhancedFor.Java
