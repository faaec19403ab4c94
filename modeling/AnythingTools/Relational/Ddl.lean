import AnythingTools.Relational.Schema

namespace Relational
set_option autoImplicit true

/-- `CREATE INDEX` on the table of the same script. -/
structure IndexDdl where
  ifNotExists : Bool
  name : String
  terms : List IndexTerm
deriving DecidableEq, Repr

/-- A script of one `CREATE TABLE` and the `CREATE INDEX` statements after it. -/
structure TableDdl where
  ifNotExists : Bool
  schema : Schema
  indexes : List IndexDdl := []
deriving DecidableEq, Repr

/-- A nullable column without default. -/
def col (name type : String) : Column := { name, type }

def Column.notNull (c : Column) : Column := { c with notnull := true }

def Column.keyed (c : Column) (n : Nat) : Column := { c with pk := n }

def Column.stamped (c : Column) : Column := { c with dfltValue := some .currentTimestamp }

def Column.defaultInt (c : Column) (n : Int) : Column := { c with dfltValue := some (.int n) }

def Column.defaultText (c : Column) (s : String) : Column :=
  { c with dfltValue := some (.text s) }

end Relational
