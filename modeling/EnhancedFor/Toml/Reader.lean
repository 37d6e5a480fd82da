import EnhancedFor.Toml.Number

/-!
Reading TOML text. Nesting of values and the length of dotted keys are limited, as the recursion
below them is.
-/

namespace EnhancedFor.Toml

/-- Takes characters from the front of a text, or fails. -/
abbrev Reader := StateT (List Char) Option

/-- Arrays and inline tables may be nested this deep, and a dotted key may have this many parts. -/
def maxDepth : Nat := 79

/-- What has been read: all tables, and the path to the one that keys go into. -/
structure Document where
  root : Table
  current : List String

def Document.initial : Document := ⟨⟨.header, []⟩, []⟩

namespace Reader

def takeWhile (p : Char → Bool) : Reader (List Char) :=
  fun cs => some (cs.takeWhile p, cs.dropWhile p)

def expect (c : Char) : Reader Unit := fun
  | d :: cs => if c == d then some ((), cs) else none
  | [] => none

def isBlank (c : Char) : Bool := c == ' ' || c == '\t'

def blanks : Reader Unit := do
  let _ ← takeWhile isBlank

/-- Tabs and whatever is no control character. -/
def isText (c : Char) : Bool := c == '\t' || (' ' ≤ c && c != '\x7f')

def comment : Reader Unit := do
  expect '#'
  let _ ← takeWhile isText

def lineBreak : Reader Unit := fun
  | '\n' :: cs => some ((), cs)
  | '\r' :: '\n' :: cs => some ((), cs)
  | _ => none

def lineEnd : Reader Unit := fun
  | [] => some ((), [])
  | cs => lineBreak cs

/-- Blanks, perhaps a comment, and the end of the line. -/
def lineRest : Reader Unit := do
  blanks
  if (← get).head? == some '#' then comment
  lineEnd

/-- A code point of so many hexadecimal digits. -/
def codePoint (count : Nat) : Reader Char := fun cs =>
  let ds := cs.take count
  let isHex (c : Char) : Bool := c.isDigit || ('a' ≤ c && c ≤ 'f') || ('A' ≤ c && c ≤ 'F')
  let n := digitsValue 16 ds
  if ds.length == count && ds.all isHex && decide n.isValidChar then
    some (Char.ofNat n, cs.drop count)
  else none

/-- What follows a backslash. -/
def escaped : Reader Char := fun
  | 'b' :: cs => some ('\x08', cs)
  | 't' :: cs => some ('\t', cs)
  | 'n' :: cs => some ('\n', cs)
  | 'f' :: cs => some ('\x0c', cs)
  | 'r' :: cs => some ('\r', cs)
  | '"' :: cs => some ('"', cs)
  | '\\' :: cs => some ('\\', cs)
  | 'u' :: cs => codePoint 4 cs
  | 'U' :: cs => codePoint 8 cs
  | _ => none

/-- The rest of a string on one line, after its quote. -/
def basicRest : Nat → List Char → Reader (List Char)
  | 0, _ => failure
  | n + 1, read => do
    match ← get with
    | '"' :: cs => set cs; return read.reverse
    | '\\' :: cs => set cs; basicRest n ((← escaped) :: read)
    | c :: cs => if isText c then set cs; basicRest n (c :: read) else failure
    | [] => failure

def literalRest : Reader (List Char) := do
  let text ← takeWhile fun c => isText c && c != '\''
  expect '\''
  return text

/-- Up to two quotes may stand before the three that close a long string. -/
def closing (quote : Char) : Reader (List Char) := fun
  | a :: b :: c :: cs =>
    if a == quote && b == quote && c == quote then
      let extra := (cs.take 2).takeWhile (· == quote)
      some (extra, cs.drop extra.length)
    else none
  | _ => none

def blankLines : Nat → Reader Unit
  | 0 => return
  | n + 1 => do
    blanks
    match lineBreak (← get) with
    | some (_, cs) => set cs; blankLines n
    | none => return

/-- The rest of a string over several lines. A backslash at the end of a line joins it with the next
line that has text. -/
def longRest (quote : Char) : Nat → List Char → Reader (List Char)
  | 0, _ => failure
  | n + 1, read => do
    let cs ← get
    match closing quote cs with
    | some (extra, rest) => set rest; return read.reverse ++ extra
    | none =>
      match lineBreak cs with
      | some (_, rest) => set rest; longRest quote n ('\n' :: read)
      | none =>
        match cs with
        | [] => failure
        | c :: rest =>
          if c == '\\' && quote == '"' then
            match lineBreak (rest.dropWhile isBlank) with
            | some (_, below) => set below; blankLines n; longRest quote n read
            | none => set rest; longRest quote n ((← escaped) :: read)
          else if isText c then set rest; longRest quote n (c :: read)
          else failure

/-- The line break directly after the opening quotes is no part of the text. -/
def longString (quote : Char) (rest : List Char) : Reader String := do
  set (match lineBreak rest with
    | some (_, below) => below
    | none => rest)
  return String.ofList (← longRest quote (rest.length + 1) [])

def shortString : Reader String := do
  match ← get with
  | '"' :: cs => set cs; return String.ofList (← basicRest (cs.length + 1) [])
  | '\'' :: cs => set cs; return String.ofList (← literalRest)
  | _ => failure

def anyString : Reader String := do
  match ← get with
  | '"' :: '"' :: '"' :: cs => longString '"' cs
  | '\'' :: '\'' :: '\'' :: cs => longString '\'' cs
  | _ => shortString

def isBareKey (c : Char) : Bool := c.isAlphanum || c == '_' || c == '-'

def keyPart : Reader String := do
  blanks
  let part ← match (← get).head? with
    | some '"' | some '\'' => shortString
    | _ =>
      let word ← takeWhile isBareKey
      if word.isEmpty then failure
      pure (String.ofList word)
  blanks
  return part

def keyParts : Nat → Reader (List String)
  | 0 => failure
  | n + 1 => do
    let part ← keyPart
    match ← get with
    | '.' :: cs => set cs; return part :: (← keyParts n)
    | _ => return [part]

/-- A key with the path of the tables before it. -/
def key : Reader (List String × String) := do
  let parts ← keyParts maxDepth
  match parts.getLast? with
  | some last => return (parts.dropLast, last)
  | none => failure

/-- Blanks, line breaks and comments, as they may stand between the items of an array. -/
def gap : Nat → Reader Unit
  | 0 => return
  | n + 1 => do
    blanks
    let cs ← get
    match lineBreak cs with
    | some (_, rest) => set rest; gap n
    | none => if cs.head? == some '#' then comment; gap n

def arrayItems (item : Reader Toml) : Nat → Reader (List Toml)
  | 0 => failure
  | n + 1 => do
    gap n
    match ← get with
    | ']' :: cs => set cs; return []
    | _ =>
      let first ← item
      gap n
      match ← get with
      | ',' :: cs => set cs; return first :: (← arrayItems item n)
      | ']' :: cs => set cs; return [first]
      | _ => failure

def keyValue (item : Reader Toml) (t : Table) : Reader Table := do
  let (path, last) ← key
  expect '='
  blanks
  let value ← item
  StateT.lift (t.addKey path last value)

def inlineEntries (item : Reader Toml) : Nat → Table → Reader Table
  | 0, _ => failure
  | n + 1, t => do
    let t ← keyValue item t
    blanks
    match ← get with
    | ',' :: cs => set cs; inlineEntries item n t
    | '}' :: cs => set cs; return t
    | _ => failure

def isWord (c : Char) : Bool :=
  c.isAlphanum || c == '+' || c == '-' || c == '_' || c == '.' || c == ':'

/-- A blank in a point in time belongs to it. -/
def word : Reader (List Char) := do
  let first ← takeWhile isWord
  match ← get with
  | ' ' :: a :: b :: ':' :: cs =>
    if skipDate? first == some [] && a.isDigit && b.isDigit then
      set (cs.dropWhile isWord)
      return first ++ ' ' :: a :: b :: ':' :: cs.takeWhile isWord
    else return first
  | _ => return first

def simpleValue : Reader Toml := do
  match (← get).head? with
  | some '"' | some '\'' => return .string (← anyString)
  | _ => StateT.lift (word? (← word))

/-- A value with at most `depth` arrays and inline tables around one another. -/
def value : Nat → Reader Toml
  | 0 => simpleValue
  | depth + 1 => do
    match ← get with
    | '[' :: cs => set cs; return .array (← arrayItems (value depth) (cs.length + 1))
    | '\x7b' :: cs =>
      set (cs.dropWhile isBlank)
      match cs.dropWhile isBlank with
      | '\x7d' :: rest => set rest; return .table .closed []
      | _ =>
        let t ← inlineEntries (value depth) (cs.length + 1) ⟨.header, []⟩
        return .table .closed t.entries
    | _ => simpleValue

def header (doc : Document) : Reader Document := do
  match ← get with
  | '[' :: '[' :: cs =>
    set cs
    let (path, last) ← key
    expect ']'
    expect ']'
    lineRest
    return ⟨← StateT.lift (doc.root.openNextTable path last), path ++ [last]⟩
  | '[' :: cs =>
    set cs
    let (path, last) ← key
    expect ']'
    lineRest
    return ⟨← StateT.lift (doc.root.openTable path last), path ++ [last]⟩
  | _ => failure

def entry (doc : Document) : Reader Document := do
  let (path, last) ← key
  expect '='
  blanks
  let item ← value maxDepth
  lineRest
  let root ← StateT.lift
    (Table.updateAt false (fun t => t.addKey path last item) doc.current doc.root)
  return { doc with root }

def lines : Nat → Document → Reader Document
  | 0, _ => failure
  | n + 1, doc => do
    blanks
    match ← get with
    | [] => return doc
    | '#' :: _ => lineRest; lines n doc
    | '[' :: _ => lines n (← header doc)
    | '\n' :: _ => lineEnd; lines n doc
    | '\r' :: _ => lineEnd; lines n doc
    | _ => lines n (← entry doc)

end Reader

/-- The tables of a text. A byte order mark at its start is skipped. -/
def read? (text : String) : Option Table :=
  let cs := match text.toList with
    | '\ufeff' :: rest => rest
    | all => all
  ((Reader.lines (cs.length + 1) .initial).run cs).map fun (doc, _) => doc.root

end EnhancedFor.Toml
