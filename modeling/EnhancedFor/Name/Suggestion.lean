import EnhancedFor.Java.Identifier

/-!
Names for a local variable, made from a base such as a type name. `ArrayList` gives `arrayList` and
`list`; when every plain name is taken the shortest one is numbered.
-/

namespace EnhancedFor.Name

def fallbackBase : String := "element"

def isSeparator (c : Char) : Bool := c == '_' || c == '-' || c == ' ' || c == '$'

/-- Adds a finished word unless it is empty. -/
def flush (word : List Char) (words : List (List Char)) : List (List Char) :=
  if word.isEmpty then words else word :: words

/-- Words of the rest of a name, given the character before it and the word begun so far. An upper
case letter begins a word after anything but an upper case letter, and before a lower case one. -/
def wordsFrom (previousUpper : Bool) (word : List Char) : List Char → List (List Char)
  | [] => flush word []
  | c :: cs =>
    if isSeparator c then flush word (wordsFrom false [] cs)
    else
      let next := if c.isAlphanum then [c] else []
      let begins := c.isUpper && !word.isEmpty && (!previousUpper || (cs.head?.any Char.isLower))
      if begins then word :: wordsFrom c.isUpper next cs
      else wordsFrom c.isUpper (word ++ next) cs

def words (name : String) : List (List Char) := wordsFrom false [] name.toList

def capitalize : List Char → List Char
  | [] => []
  | c :: cs => c.toUpper :: cs.map Char.toLower

def lowerCamel : List (List Char) → List Char
  | [] => []
  | w :: ws => w.map Char.toLower ++ (ws.map capitalize).flatten

/-- Makes a keyword or a name that starts with a digit usable. -/
def sanitize (name : String) : String :=
  let name := if Java.isKeyword name then name ++ "_" else name
  if name.toList.head?.any Char.isDigit then "_" ++ name else name

/-- Removes repetitions of neighbours. -/
def dropRepeats : List String → List String
  | x :: y :: rest => if x == y then dropRepeats (y :: rest) else x :: dropRepeats (y :: rest)
  | xs => xs

/-- The non-empty suffixes of a list, longest first. -/
def suffixes : List α → List (List α)
  | [] => []
  | x :: xs => (x :: xs) :: suffixes xs

/-- Base names from longest to shortest; never empty. -/
def bases (base : String) : List String :=
  let candidates := (suffixes (words base)).map fun ws => sanitize (String.ofList (lowerCamel ws))
  let candidates := candidates.filter (· ≠ "")
  if candidates.isEmpty then [fallbackBase] else dropRepeats candidates

/-- Numbers have 64 bits; zero follows the largest one. -/
def numberBound : Nat := 0x10000000000000000

/-- The first free name `base` followed by a number, counted up from `first`; one more number than
there are excluded names is enough. -/
def firstNumbered? (base : String) (first : Nat) (excluded : List String) : Option String :=
  let numbered (i : Nat) : String := base ++ toString ((first + i) % numberBound)
  ((List.range (excluded.length + 1)).map numbered).find? fun name => !excluded.contains name

/-- Names from `base` outside `excluded`. A positive `start` numbers every one of them. -/
def suggest (base : String) (start : Nat) (excluded : List String) : List String :=
  let bases := bases base
  let candidates := bases.map fun b => if start == 0 then b else b ++ toString start
  let free := (candidates.filter fun name => !excluded.contains name).eraseDups
  if free.isEmpty then
    (firstNumbered? (bases.getLast?.getD fallbackBase) (max start 1) excluded).toList
  else free

end EnhancedFor.Name
