/-
  Shardlite.Query.CheckJoin

  Which joins are pushed to the shards, and what a join returns.  A join is accepted if
  each `ON` condition has a conjunct that equates the shard keys of two different tables
  joined so far.

  A join is evaluated from left to right.  What it has put together is a list of parts,
  one for each table joined so far, the newest first; the part of an outer join's missing
  side has no row.
-/
import Shardlite.Query.Ast
import Shardlite.Lib.Join

namespace Shardlite.Query

/-! ## The check -/

/-- Each alias with the shard-key column of its table, the newest first. -/
abbrev AliasKeys := List (Text × Text)

/-- A two-part qualified reference, in lower case. -/
def compoundPair : Expr → Option (Text × Text)
  | .compoundIdentifier [a, c] => some (a.lower, c.lower)
  | _ => none

/-- The top-level `AND` conjuncts, looking through parentheses. -/
def andConjuncts : Expr → List Expr
  | .binaryOp left .and right => andConjuncts left ++ andConjuncts right
  | .nested e => andConjuncts e
  | e => [e]

/-- `X.a = Y.b` with different `X` and `Y`, of which `a` and `b` are the shard keys. -/
def equatesShardKeys (aliasKey : AliasKeys) : Expr → Bool
  | .binaryOp left .eq right =>
    match compoundPair left, compoundPair right with
    | some (xa, xc), some (ya, yc) =>
      xa != ya && aliasKey.lookup xa == some xc && aliasKey.lookup ya == some yc
    | _, _ => false
  | _ => false

theorem equatesShardKeys_spec {aliasKey : AliasKeys} {e : Expr}
    (h : equatesShardKeys aliasKey e = true) :
    ∃ left right x c y d, e = .binaryOp left .eq right ∧ compoundPair left = some (x, c) ∧
      compoundPair right = some (y, d) ∧ x ≠ y ∧ aliasKey.lookup x = some c ∧
      aliasKey.lookup y = some d := by
  unfold equatesShardKeys at h
  split at h
  · split at h
    next x c y d hl hr =>
      simp only [Bool.and_eq_true, bne_iff_ne, beq_iff_eq] at h
      exact ⟨_, _, x, c, y, d, rfl, hl, hr, h.1.1, h.1.2, h.2⟩
    · cases h
  · cases h

def onEquatesShardKeys (on : Expr) (aliasKey : AliasKeys) : Bool :=
  (andConjuncts on).any (equatesShardKeys aliasKey)

def joinOnCondition (op : JoinOperator) : Except Unsupported Expr :=
  match op with
  | .join c | .inner c | .left c | .leftOuter c | .right c | .rightOuter c | .fullOuter c =>
    match c with
    | .on e => .ok e
    | .other => .error ⟨"a USING or NATURAL join",
        "the join must have an explicit ON equality on the shard keys"⟩
  | .other => .error ⟨"this join type",
      "only INNER, LEFT, RIGHT and FULL joins on shard keys are supported"⟩

/-- A joined table must have a declared shard key. -/
def addJoinRelation (relation : TableFactor) (keys : ShardKeys) (aliasKey : AliasKeys) :
    Except Unsupported AliasKeys :=
  match relation with
  | .derived => .error ⟨"a subquery or derived table in a join",
      "only named, co-partitioned tables can be joined across shards"⟩
  | .table name as =>
    match keys.lookup name.lower with
    | none => .error ⟨"a join on a table with no declared shard key",
        "declare the table's shard key (co-partitioning) before joining it across shards"⟩
    | some shardKey => .ok (((as.map Text.lower).getD name.lower, shardKey.lower) :: aliasKey)

/-- The joins in order, with the aliases of the tables before them. -/
def checkJoins (keys : ShardKeys) : AliasKeys → List Join → Except Unsupported Unit
  | _, [] => .ok ()
  | aliasKey, join :: joins => do
    let aliasKey ← addJoinRelation join.relation keys aliasKey
    let on ← joinOnCondition join.joinOperator
    if onEquatesShardKeys on aliasKey then checkJoins keys aliasKey joins
    else .error ⟨"a join that is not on the tables' shard keys",
      "matching rows may live on different shards; join co-partitioned tables on " ++
        "their declared shard keys"⟩

/-- The check that a join may run shard by shard. -/
def checkJoin (select : Select) (keys : ShardKeys) : Except Unsupported Unit :=
  match select.froms with
  | [] => .ok ()
  | _ :: _ :: _ => .error ⟨"a cross join (comma-separated tables)",
      "it pairs rows regardless of key, so matching rows may live on different shards"⟩
  | [table] =>
    match table.relation with
    | .derived => .error ⟨"a subquery or table-valued function in FROM",
        "a derived table needs coordinator-side materialisation, not built yet; run it " ++
          "as a separate query"⟩
    | .table .. =>
      if table.joins.isEmpty then .ok ()
      else do
        let aliasKey ← addJoinRelation table.relation keys []
        checkJoins keys aliasKey table.joins

/-! ## What a join reads -/

/-- A table under the name the query gives it, both in lower case. -/
structure Source where
  as : Text
  table : Text
  deriving DecidableEq

structure JoinStep where
  kind : JoinKind
  source : Source
  on : Expr
  deriving DecidableEq

/-- A chain of joins from the left. -/
structure JoinTree where
  base : Source
  steps : List JoinStep
  deriving DecidableEq

def TableFactor.source? : TableFactor → Option Source
  | .table name as => some ⟨(as.map Text.lower).getD name.lower, name.lower⟩
  | .derived => none

def JoinConstraint.on? : JoinConstraint → Option Expr
  | .on e => some e
  | .other => none

def JoinOperator.kind? : JoinOperator → Option (JoinKind × Expr)
  | .join c | .inner c => c.on?.map (.inner, ·)
  | .left c | .leftOuter c => c.on?.map (.left, ·)
  | .right c | .rightOuter c => c.on?.map (.right, ·)
  | .fullOuter c => c.on?.map (.full, ·)
  | .other => none

def Join.step? (j : Join) : Option JoinStep := do
  let source ← j.relation.source?
  let (kind, on) ← j.joinOperator.kind?
  return ⟨kind, source, on⟩

/-- The chain that a FROM clause stands for, if the model covers it. -/
def TableWithJoins.tree? (t : TableWithJoins) : Option JoinTree := do
  let base ← t.relation.source?
  let steps ← t.joins.mapM Join.step?
  return ⟨base, steps⟩

/-- The joined tables and conditions of a query's `FROM`. -/
def Select.tree? (s : Select) : Option JoinTree :=
  match s.froms with
  | [table] => table.tree?
  | _ => none

/-! ## What a join returns -/

structure Table (V : Type) where
  columns : List Text
  rows : List (List V)

abbrev Database (V : Type) := Text → Table V

/-- One table's part in what a join has put together. -/
structure Part (V : Type) where
  source : Source
  columns : List Text
  row : Option (List V)
  deriving DecidableEq

section Evaluation

variable {V : Type} (E : Engine V) (db : Database V)

/-- The value of a column; that of a missing row is NULL. -/
def Part.value (p : Part V) (column : Text) : V :=
  match p.row with
  | none => E.null
  | some row => row.getD (p.columns.idxOf column) E.null

/-- A name refers to the part with this alias that has the column. -/
def partScope (parts : List (Part V)) : List Text → V
  | [c] => ((parts.find? fun p => c.lower ∈ p.columns).map fun p => p.value E c.lower).getD E.null
  | [a, c] | [_, a, c] =>
    ((parts.find? fun p => p.source.as = a.lower ∧ c.lower ∈ p.columns).map
      fun p => p.value E c.lower).getD E.null
  | _ => E.null

/-- A table's part of a joined row; `none` is the NULL row. -/
def Source.part (s : Source) (row : Option (List V)) : Part V := ⟨s, (db s.table).columns, row⟩

/-- What a join has put together, with the tables it is of. -/
structure Joined (V : Type) where
  sources : List Source
  rows : List (List (Part V))

def JoinStep.run (j : Joined V) (step : JoinStep) : Joined V where
  sources := step.source :: j.sources
  rows := joinOn step.kind
    (fun parts row => E.holds (partScope E (step.source.part db (some row) :: parts)) step.on)
    (fun parts row => step.source.part db (some row) :: parts)
    (fun parts => step.source.part db none :: parts)
    (fun row => step.source.part db (some row) :: j.sources.map (·.part db none))
    j.rows (db step.source.table).rows

/-- The rows after the first `n` joins. -/
def JoinTree.joined (t : JoinTree) (n : Nat) : Joined V :=
  (t.steps.take n).foldl (JoinStep.run E db)
    ⟨[t.base], (db t.base.table).rows.map fun row => [t.base.part db (some row)]⟩

end Evaluation

end Shardlite.Query
