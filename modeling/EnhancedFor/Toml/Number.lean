import EnhancedFor.Toml.Value

/-!
TOML words that are no strings: booleans, numbers, dates and times. Each reader takes a whole word.
-/

namespace EnhancedFor.Toml

def isHexDigit (c : Char) : Bool :=
  c.isDigit || ('a' ≤ c && c ≤ 'f') || ('A' ≤ c && c ≤ 'F')

def digitValue (c : Char) : Nat :=
  if c.isDigit then c.toNat - '0'.toNat
  else if 'a' ≤ c then c.toNat - 'a'.toNat + 10
  else c.toNat - 'A'.toNat + 10

def digitsValue (base : Nat) (ds : List Char) : Nat :=
  ds.foldl (fun n d => n * base + digitValue d) 0

/-- Digits, between which single underscores may stand. -/
def groupedDigits? (isDigit : Char → Bool) : List Char → Option (List Char)
  | [] => none
  | [c] => if isDigit c then some [c] else none
  | c :: '_' :: rest => if isDigit c then (groupedDigits? isDigit rest).map (c :: ·) else none
  | c :: rest => if isDigit c then (groupedDigits? isDigit rest).map (c :: ·) else none

/-- Decimal digits without a leading zero. -/
def wholeDigits? (cs : List Char) : Option (List Char) := do
  let ds ← groupedDigits? Char.isDigit cs
  if ds.head? == some '0' && cs.length > 1 then none else some ds

/-- An optional sign, and the rest. -/
def splitSign : List Char → Bool × List Char
  | '-' :: cs => (true, cs)
  | '+' :: cs => (false, cs)
  | cs => (false, cs)

/-- Integers of 64 bits with sign. -/
def inRange (n : Int) : Bool := decide (-0x8000000000000000 ≤ n) && decide (n < 0x8000000000000000)

def based? (base : Nat) (isDigit : Char → Bool) (cs : List Char) : Option Int := do
  return digitsValue base (← groupedDigits? isDigit cs)

def integer? (word : List Char) : Option Toml := do
  let n ← match word with
    | '0' :: 'x' :: cs => based? 16 isHexDigit cs
    | '0' :: 'o' :: cs => based? 8 (fun c => '0' ≤ c && c ≤ '7') cs
    | '0' :: 'b' :: cs => based? 2 (fun c => c == '0' || c == '1') cs
    | _ =>
      let (negative, cs) := splitSign word
      (wholeDigits? cs).map fun ds =>
        if negative then -(digitsValue 10 ds : Int) else digitsValue 10 ds
  if inRange n then some (.integer n) else none

/-- Whether `mantissa * 10 ^ exponent` is too large for a 64-bit float: it rounds to a power of two
that has no room. -/
def overflows (mantissa : Nat) (exponent : Int) : Bool :=
  let limit := Nat.pow 2 1024 - Nat.pow 2 970
  if mantissa == 0 || exponent < -(400 + (Nat.toDigits 10 mantissa).length : Int) then false
  else if exponent > 400 then true
  else if 0 ≤ exponent then decide (limit ≤ mantissa * Nat.pow 10 exponent.toNat)
  else decide (limit * Nat.pow 10 (-exponent).toNat ≤ mantissa)

def exponentOf? (cs : List Char) : Option Int := do
  let (negative, cs) := splitSign cs
  let n := digitsValue 10 (← groupedDigits? Char.isDigit cs)
  return if negative then -n else n

/-- A number with a fraction, an exponent or both. Only negative ones may be too large. -/
def decimal? (word : List Char) : Option Toml := do
  let (negative, cs) := splitSign word
  let isMark (c : Char) : Bool := c == 'e' || c == 'E'
  let digits := cs.takeWhile (! isMark ·)
  let whole ← wholeDigits? (digits.takeWhile (· != '.'))
  let fraction ← match digits.dropWhile (· != '.') with
    | [] => some []
    | _ :: ds => groupedDigits? Char.isDigit ds
  let exponent ← match cs.dropWhile (! isMark ·) with
    | [] => some 0
    | _ :: es => exponentOf? es
  if !digits.contains '.' && digits.length == cs.length then none
  else if !negative &&
      overflows (digitsValue 10 (whole ++ fraction)) (exponent - (fraction.length : Int)) then none
  else some .float

def float? (word : List Char) : Option Toml :=
  let (_, cs) := splitSign word
  if cs == "inf".toList || cs == "nan".toList then some .float else decimal? word

def twoDigits? (low high : Nat) : List Char → Option (Nat × List Char)
  | a :: b :: rest =>
    let n := digitsValue 10 [a, b]
    if a.isDigit && b.isDigit && low ≤ n && n ≤ high then some (n, rest) else none
  | _ => none

def skip? (c : Char) : List Char → Option (List Char)
  | d :: rest => if c == d then some rest else none
  | [] => none

def monthLength (year month : Nat) : Nat :=
  let leap := year % 4 == 0 && (year % 100 != 0 || year % 400 == 0)
  if month == 2 then (if leap then 29 else 28)
  else if month == 4 || month == 6 || month == 9 || month == 11 then 30
  else 31

/-- Year, month and day. -/
def skipDate? (cs : List Char) : Option (List Char) := do
  let year := cs.take 4
  if year.length != 4 || !year.all Char.isDigit then none
  else
    let (month, cs) ← twoDigits? 1 12 (← skip? '-' (cs.drop 4))
    let (_, cs) ← twoDigits? 1 (monthLength (digitsValue 10 year) month) (← skip? '-' cs)
    return cs

/-- Hour, minute, second and perhaps a fraction; a leap second is allowed. -/
def skipTime? (cs : List Char) : Option (List Char) := do
  let (_, cs) ← twoDigits? 0 23 cs
  let (_, cs) ← twoDigits? 0 59 (← skip? ':' cs)
  let (_, cs) ← twoDigits? 0 60 (← skip? ':' cs)
  match cs with
  | '.' :: c :: rest => if c.isDigit then some (rest.dropWhile Char.isDigit) else none
  | '.' :: _ => none
  | _ => some cs

def skipOffset? (cs : List Char) : Option (List Char) :=
  let hoursMinutes (rest : List Char) : Option (List Char) := do
    let (_, cs) ← twoDigits? 0 23 rest
    let (_, cs) ← twoDigits? 0 59 (← skip? ':' cs)
    return cs
  match cs with
  | 'Z' :: rest => some rest
  | 'z' :: rest => some rest
  | '+' :: rest => hoursMinutes rest
  | '-' :: rest => hoursMinutes rest
  | _ => some cs

/-- A date, a time, or a date with a time after `T` or a blank and perhaps an offset. -/
def datetime? (word : List Char) : Option Toml :=
  let rest := match skipDate? word with
    | some [] => some []
    | some (c :: cs) =>
      if c == 'T' || c == 't' || c == ' ' then (skipTime? cs).bind skipOffset? else none
    | none => skipTime? word
  if rest == some [] then some .datetime else none

/-- Any word that is a value. -/
def word? (word : List Char) : Option Toml :=
  if word == "true".toList then some (.boolean true)
  else if word == "false".toList then some (.boolean false)
  else (integer? word).orElse fun _ => (float? word).orElse fun _ => datetime? word

end EnhancedFor.Toml
