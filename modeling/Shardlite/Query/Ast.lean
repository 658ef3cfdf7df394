/-
  Shardlite.Query.Ast

  The part of the parsed statement the planner looks at, and what an expression is worth.
  Parsing is not modelled: a statement comes as its tree.  Forms that no rule of the
  planner tells apart are one constructor, with their subexpressions.

  What SQLite makes of operators, functions and literals is a parameter, an `Engine`.
  Only `AND`, `OR` and parentheses are given a meaning here.
-/
import Shardlite.Base

namespace Shardlite.Query

abbrev Text := List Char

/-- `to_ascii_lowercase`. -/
def Text.lower (t : Text) : Text := t.map Char.toLower

/-! ## Expressions -/

/-- A literal.  A number without a fraction or an exponent is given by its value. -/
inductive SqlValue where
  | number (n : Nat)
  | decimal (t : Text)
  | string (t : Text)
  | boolean (b : Bool)
  | null
  | other (t : Text)
  deriving DecidableEq, Repr

inductive UnaryOperator where
  | not
  | minus
  | other (t : Text)
  deriving DecidableEq, Repr

inductive BinaryOperator where
  | and | or
  | eq | notEq | lt | ltEq | gt | gtEq
  | other (t : Text)
  deriving DecidableEq, Repr

structure Callee where
  name : Text
  /-- The argument is `*`. -/
  wildcard : Bool := false
  distinct : Bool := false
  /-- There is an `OVER` clause. -/
  windowed : Bool := false
  deriving DecidableEq, Repr

mutual

inductive Expr where
  | identifier (name : Text)
  | compoundIdentifier (parts : List Text)
  | value (v : SqlValue)
  | unaryOp (op : UnaryOperator) (e : Expr)
  | binaryOp (left : Expr) (op : BinaryOperator) (right : Expr)
  | nested (e : Expr)
  | isNull (e : Expr)
  | isNotNull (e : Expr)
  /-- A call; `filter` is empty or the one condition of its `FILTER` clause. -/
  | function (f : Callee) (args : Exprs) (filter : Exprs)
  /-- `CASE`, `LIKE`, `IN`, `BETWEEN` and the like. -/
  | other (form : Text) (args : Exprs)
  deriving DecidableEq

inductive Exprs where
  | nil
  | cons (e : Expr) (es : Exprs)
  deriving DecidableEq

end

def Exprs.toList : Exprs → List Expr
  | .nil => []
  | .cons e es => e :: es.toList

/-! ## Tables and joins -/

inductive TableFactor where
  | table (name : Text) (as : Option Text)
  /-- A derived table or a table function. -/
  | derived
  deriving DecidableEq

inductive JoinConstraint where
  | on (e : Expr)
  /-- `USING`, `NATURAL` or none. -/
  | other
  deriving DecidableEq

inductive JoinOperator where
  | join (c : JoinConstraint)
  | inner (c : JoinConstraint)
  | left (c : JoinConstraint)
  | leftOuter (c : JoinConstraint)
  | right (c : JoinConstraint)
  | rightOuter (c : JoinConstraint)
  | fullOuter (c : JoinConstraint)
  /-- `CROSS JOIN` and the forms SQLite does not have. -/
  | other
  deriving DecidableEq

structure Join where
  relation : TableFactor
  joinOperator : JoinOperator
  deriving DecidableEq

structure TableWithJoins where
  relation : TableFactor
  joins : List Join := []
  deriving DecidableEq

/-! ## Selects -/

inductive SelectItem where
  | unnamedExpr (e : Expr)
  | exprWithAlias (e : Expr) (as : Text)
  /-- `*` or `t.*`. -/
  | wildcard
  /-- An expression with a list of aliases. -/
  | exprWithAliases
  deriving DecidableEq

/-- A SELECT, as far as the planner reads it. -/
structure Select where
  distinct : Bool := false
  projection : List SelectItem := []
  froms : List TableWithJoins := []
  selection : Option Expr := none
  groupBy : List Expr := []
  having : Option Expr := none
  deriving DecidableEq

/-- Why a query cannot be answered across shards. -/
structure Unsupported where
  what : String
  why : String
  deriving DecidableEq, Repr

/-- The declared routing: table name to shard-key column, both in lower case. -/
abbrev ShardKeys := List (Text × Text)

/-! ## What an expression is worth -/

/-- What SQLite does with values.  A comparison depends on the affinities and collations
    of its operands, which it takes from the expressions. -/
structure Engine (V : Type) where
  null : V
  /-- Whether a value counts as true; `none` for NULL. -/
  truth : V → Option Bool
  ofTruth : Option Bool → V
  truth_ofTruth : ∀ t, truth (ofTruth t) = t
  literal : SqlValue → V
  unary : UnaryOperator → V → V
  binary : Expr → BinaryOperator → Expr → V → V → V
  /-- Nothing equals NULL. -/
  eq_null : ∀ l r v, truth (binary l .eq r null v) ≠ some true ∧
    truth (binary l .eq r v null) ≠ some true
  isNull : V → Bool
  call : Callee → List V → V
  other : Text → List V → V

/-- `AND` in three-valued logic. -/
def and3 : Option Bool → Option Bool → Option Bool
  | some false, _ | _, some false => some false
  | some true, some true => some true
  | _, _ => none

def or3 : Option Bool → Option Bool → Option Bool
  | some true, _ | _, some true => some true
  | some false, some false => some false
  | _, _ => none

theorem and3_eq_true {a b : Option Bool} :
    and3 a b = some true ↔ a = some true ∧ b = some true := by
  rcases a with _ | _ | _ <;> rcases b with _ | _ | _ <;> simp [and3]

namespace Engine

variable {V : Type} (E : Engine V)

mutual

/-- The value of an expression where `scope` gives that of a name. -/
def eval (scope : List Text → V) : Expr → V
  | .identifier name => scope [name]
  | .compoundIdentifier parts => scope parts
  | .value v => E.literal v
  | .unaryOp op e => E.unary op (eval scope e)
  | .binaryOp left .and right =>
    E.ofTruth (and3 (E.truth (eval scope left)) (E.truth (eval scope right)))
  | .binaryOp left .or right =>
    E.ofTruth (or3 (E.truth (eval scope left)) (E.truth (eval scope right)))
  | .binaryOp left op right => E.binary left op right (eval scope left) (eval scope right)
  | .nested e => eval scope e
  | .isNull e => E.ofTruth (some (E.isNull (eval scope e)))
  | .isNotNull e => E.ofTruth (some (!E.isNull (eval scope e)))
  | .function f args _ => E.call f (evals scope args)
  | .other form args => E.other form (evals scope args)

def evals (scope : List Text → V) : Exprs → List V
  | .nil => []
  | .cons e es => eval scope e :: evals scope es

end

/-- A condition holds when it is true, not when it is NULL. -/
def holds (scope : List Text → V) (e : Expr) : Bool := E.truth (E.eval scope e) == some true

end Engine

end Shardlite.Query
