import FactScore.Data

/-!
# Tables of a TOML document

A TOML document builds its tables bit by bit: pairs go into the table whose header came last, and
headers and dotted keys make the tables on their way.  `Table.update` goes down a path and
`Table.assign`, `Table.openTable` and `Table.openTables` are what a pair, a header and a header in
double brackets do.  Each of them is `none` where the document defines something twice or goes
through something that is no table.
-/

namespace FactScore.Toml

/-- How a table came about. -/
inductive Origin where
  /-- It has a header, or braces around it. -/
  | header
  /-- A header of a table inside it went through it. -/
  | implied
  /-- A dotted key went through it. -/
  | dotted
  deriving DecidableEq, Repr

/-- What is under a key. -/
inductive Item where
  | value (data : Data)
  | table (origin : Origin) (entries : Entries Item none)
  /-- A list of tables, the last of which can still grow. -/
  | tables (earlier : List (Entries Item none)) (last : Entries Item none)

/-- The entries of a table. -/
abbrev Table := Dict Item

/-- A dotted key: the tables that it goes through, and the name in the innermost one. -/
structure Key where
  path : List String := []
  name : String
  deriving DecidableEq, Repr

/-- The key below one more part. -/
def Key.below (key : Key) (part : String) : Key :=
  ⟨part :: key.path, key.name⟩

mutual

/-- The data that an item is. -/
def Item.toData : Item → Data
  | .value data => data
  | .table _ entries => .map (toDataEntries entries)
  | .tables earlier last =>
    .list (toDataTables earlier ++ [.map (toDataEntries last)])

/-- The data of some tables. -/
def toDataTables : List (Entries Item none) → List Data
  | [] => []
  | entries :: rest => .map (toDataEntries entries) :: toDataTables rest

/-- The data of the entries of a table. -/
def toDataEntries : {bound : Option String} → Entries Item bound → Entries Data bound
  | _, .nil => .nil
  | _, .cons key above item rest => .cons key above item.toData (toDataEntries rest)

end

namespace Table

/-- The data that a table is. -/
def toData (table : Table) : Data :=
  .map (toDataEntries table)

/-- Change the table at the end of a path.  A table that is missing on the way is made, and its
    origin is `made`.  A dotted key does not go through a table with a header; a header goes
    through every table. -/
def update (made : Origin) (change : Origin → Table → Option Table) :
    Origin → Table → List String → Option Table
  | origin, table, [] => change origin table
  | _, table, key :: path =>
    match table.find? key with
    | none => do
      return table.insert key (.table made (← update made change made .nil path))
    | some (.value _) => none
    | some (.tables earlier last) => do
      return table.insert key (.tables earlier (← update made change .header last path))
    | some (.table origin inner) =>
      if made = .dotted ∧ origin = .header then none
      else do return table.insert key (.table origin (← update made change origin inner path))

/-- Put a value under a dotted key.  The innermost table has to be one of dotted keys exactly if
    the key goes through tables, and nothing may be under the name. -/
def assign (table : Table) (key : Key) (value : Data) : Option Table :=
  let put (origin : Origin) (inner : Table) : Option Table :=
    if decide (origin = .dotted) = key.path.isEmpty then none
    else if inner.contains key.name then none
    else some (inner.insert key.name (.value value))
  update .dotted put .header table key.path

/-- Define a table by its header; it may only be there as one that other headers went
    through. -/
def openTable (root : Table) (key : Key) : Option Table :=
  let define (_ : Origin) (parent : Table) : Option Table :=
    match parent.find? key.name with
    | none => some (parent.insert key.name (.table .header .nil))
    | some (.table .implied inner) => some (parent.insert key.name (.table .header inner))
    | some _ => none
  update .implied define .implied root key.path

/-- Define one more table of a list of tables by its header. -/
def openTables (root : Table) (key : Key) : Option Table :=
  let define (_ : Origin) (parent : Table) : Option Table :=
    match parent.find? key.name with
    | none => some (parent.insert key.name (.tables [] .nil))
    | some (.tables earlier last) =>
      some (parent.insert key.name (.tables (earlier ++ [last]) .nil))
    | some _ => none
  update .implied define .implied root key.path

/-- Put a value under a dotted key of the table at the end of a path that headers have made. -/
def assignAt (root : Table) (path : List String) (key : Key) (value : Data) : Option Table :=
  update .implied (fun _ table => table.assign key value) .implied root path

end Table

end FactScore.Toml
