/-!
TOML values and tables. A table remembers how it came to be, because that decides what may still be
added to it.
-/

namespace EnhancedFor

namespace Toml

/-- A table is opened by its own header, on the way to a header below it, or by a dotted key; one in
braces is closed as soon as it is read. -/
inductive Origin where
  | header
  | passage
  | dotted
  | closed
  deriving DecidableEq, Repr

end Toml

/-- Numbers other than integers and points in time are kept without their value. -/
inductive Toml where
  | string (text : String)
  | integer (value : Int)
  | float
  | boolean (value : Bool)
  | datetime
  | array (items : List Toml)
  | table (origin : Toml.Origin) (entries : List (String × Toml))
  | tables (items : List Toml)

namespace Toml

/-- A table outside a value of its own. -/
structure Table where
  origin : Origin
  entries : List (String × Toml)

namespace Table

def toToml (t : Table) : Toml := .table t.origin t.entries

def get? (t : Table) (key : String) : Option Toml := t.entries.lookup key

def setEntry (key : String) (value : Toml) :
    List (String × Toml) → List (String × Toml)
  | [] => [(key, value)]
  | (k, v) :: rest => if k == key then (key, value) :: rest else (k, v) :: setEntry key value rest

/-- Puts a value in place of the one of its key, or after all others. -/
def set (t : Table) (key : String) (value : Toml) : Table :=
  { t with entries := setEntry key value t.entries }

/-- Changes the table that a path leads to, making tables where there are none. Of several tables of
one name the last is meant. Dotted keys do not enter tables that have a header; nothing enters other
values. -/
def updateAt (dotted : Bool) (f : Table → Option Table) : List String → Table → Option Table
  | [], t => f t
  | key :: path, t => do
    match t.get? key with
    | none =>
      let below ← updateAt dotted f path ⟨if dotted then .dotted else .passage, []⟩
      return t.set key below.toToml
    | some (.table origin entries) =>
      if origin == .closed || (dotted && origin == .header) then none
      else return t.set key (← updateAt dotted f path ⟨origin, entries⟩).toToml
    | some (.tables items) =>
      match items.getLast? with
      | some (.table origin entries) =>
        let last ← updateAt dotted f path ⟨origin, entries⟩
        return t.set key (.tables (items.dropLast ++ [last.toToml]))
      | _ => none
    | some _ => none

/-- Enters a value under a dotted key; the table it comes into must be of the same making, and the
key free. -/
def addKey (t : Table) (path : List String) (key : String) (value : Toml) : Option Table :=
  updateAt true (fun inner =>
    if (inner.origin == .dotted) == path.isEmpty then none
    else if (inner.get? key).isSome then none
    else some (inner.set key value)) path t

/-- Opens the table of a header. One that was only passed through before may get its header now. -/
def openTable (root : Table) (path : List String) (key : String) : Option Table :=
  updateAt false (fun parent =>
    match parent.get? key with
    | none => some (parent.set key (.table .header []))
    | some (.table .passage entries) => some (parent.set key (.table .header entries))
    | some _ => none) path root

/-- Opens one more table of a repeated header. -/
def openNextTable (root : Table) (path : List String) (key : String) : Option Table :=
  updateAt false (fun parent =>
    match parent.get? key with
    | none => some (parent.set key (.tables [.table .header []]))
    | some (.tables items) => some (parent.set key (.tables (items ++ [.table .header []])))
    | some _ => none) path root

end Table
end Toml
end EnhancedFor
