/-
  Shardlite.Storage.Statement

  SQL statements with their bound parameters.  SQLite itself is outside this
  repository: what a statement does to a database is a parameter of every model
  that runs one.
-/
import Shardlite.Base

namespace Shardlite.Storage

/-- A SQLite value; a real is its bit pattern. -/
inductive Value where
  | null
  | integer (i : Int)
  | real (bits : UInt64)
  | text (t : String)
  | blob (b : List UInt8)
  deriving DecidableEq, Repr

structure Statement where
  sql : String
  params : List Value := []
  deriving DecidableEq, Repr

def Statement.new (sql : String) : Statement := { sql }

/-- How SQLite answers on a database `D`: `run` prepares and executes one
    statement, `batch` executes every statement of a text, and `none` is a
    rejection.  The two agree on a text that is a single statement. -/
structure Sqlite (D : Type) where
  run : D → Statement → Option D
  batch : D → String → Option D
  single : String → Bool
  batch_eq : ∀ db sql, single sql → batch db sql = run db (.new sql)

/-- Statements in order; the first rejection rejects them all. -/
def Sqlite.runAll {D : Type} (sq : Sqlite D) (db : D) (statements : List Statement) : Option D :=
  statements.foldlM sq.run db

end Shardlite.Storage
