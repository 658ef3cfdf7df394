/-
  Shardlite.Shard.AtomicLog

  The node of `Shard.Atomic` with an account of what it does: the statements every
  transaction over several shards was given, what each shard's file had executed
  for which transaction, which records were written and removed, and which
  transactions were reported as committed.  The account is written alongside; the
  node's own steps are as they were.
-/
import Shardlite.Shard.AtomicSafety

namespace Shardlite.Shard

open Storage

/-- Statements that a shard's file took in one commit, for transaction `tag`. -/
structure Execution where
  tag : Nat
  statements : List Statement
  deriving DecidableEq

/-- A record that was removed, and whether each of its participants had at that time
    executed the transaction once, as it was prepared. -/
structure Removal where
  record : Logged
  once : Bool

/-- The node, with the history of what was run and reported. -/
structure AtomicLog (D : Type) where
  node : AtomicNode D
  /-- The statements a transaction over several shards gave a shard. -/
  plans : Nat → ShardId → Option (List Statement) := fun _ _ => none
  executed : ShardId → List Execution := fun _ => []
  /-- Every record ever written. -/
  decided : List Logged := []
  removed : List Removal := []
  /-- Transactions for which `run_atomic` returned success. -/
  confirmed : List Txn := []

namespace AtomicNode

variable {D : Type} (sq : Sqlite D) (w : AtomicNode D) (a : AtomicAct)

/-- A schema change on its own runs its first statement only. -/
def ranAlone (statements : List Statement) (ddl : Bool) : List Statement :=
  if ddl then statements.take 1 else statements

/-- What `run_atomic` has an only participant's file execute. -/
def executesAlone (ps : Participants) (ddl admitted : Bool) : Option (ShardId × Execution) :=
  match normalized ps with
  | [(s, statements)] =>
    if admitted ∧ w.parked s = none ∧ ((w.images s).applyAlone sq statements ddl).isSome then
      some (s, ⟨w.history.length, ranAlone statements ddl⟩)
    else none
  | _ => none

/-- What a commit decision that is carried out has the next participant execute. -/
def executesCommit (f : InFlight) : Option (ShardId × Execution) :=
  match f.stage with
  | .committing (s :: _) _ =>
    if (w.parked s).isSome then
      (f.participants.find? (·.1 = s)).map fun p => (s, ⟨f.tag, p.2⟩)
    else none
  | _ => none

/-- What recovery has a participant execute again. -/
def executesAgain (r : Logged) (s : ShardId) (readable admitted : Bool) :
    Option (ShardId × Execution) :=
  if (readable ∧ (w.images s).hasApplied r.record.id) ∨ ¬ admitted then none
  else
    match r.record.statementsFor s with
    | some statements =>
      if statements ≠ [] ∧ ((w.images s).applyAlone sq statements r.record.ddl).isSome then
        some (s, ⟨r.tag, ranAlone statements r.record.ddl⟩)
      else none
    | none => none

def executes : Option (ShardId × Execution) :=
  match a, w.phase with
  | .start ps ddl admitted, .serving none => w.executesAlone sq ps ddl admitted
  | .commitNext (.decided true _), .serving (some f) => w.executesCommit f
  | .recoverShard readable admitted, .recovering r (s :: _) _ =>
    w.executesAgain sq r s readable admitted
  | _, _ => none

/-- The record in hand, at the moment it is written. -/
def recording (f : InFlight) : Option Logged :=
  match f.stage with
  | .recording => some f.logged
  | _ => none

/-- The record in hand, at the moment it is removed. -/
def removing (f : InFlight) : Option Logged :=
  match f.stage with
  | .removing => some f.logged
  | _ => none

def decides : Option Logged :=
  match a, w.phase with
  | .putRecord true, .serving (some f) => recording f
  | _, _ => none

def removes : Option Logged :=
  match a, w.phase with
  | .removeRecord true, .serving (some f) => removing f
  | .recoverRemove true, .recovering r [] _ => some r
  | _, _ => none

/-- The transaction a step reports as committed. -/
def confirms : Option Txn :=
  match a, w.phase with
  | .start ps ddl admitted, .serving none =>
    (w.executesAlone sq ps ddl admitted).map fun e => ⟨e.2.tag, [e.1]⟩
  | .removeRecord true, .serving (some f) => (removing f).map fun r => ⟨r.tag, f.shards⟩
  | _, _ => none

/-- What `run_atomic` plans for its shards when there are several. -/
def planned (ps : Participants) : Option (ShardId → Option (List Statement)) :=
  match normalized ps with
  | p :: q :: rest => some fun s => ((p :: q :: rest).find? (·.1 = s)).map Prod.snd
  | _ => none

def plansFor : Option (ShardId → Option (List Statement)) :=
  match a, w.phase with
  | .start ps _ _, .serving none => planned ps
  | _, _ => none

/-! ## What the acts are in their phases -/

/-- The acts a phase has something to do for. -/
inductive Enabled : AtomicAct → Phase → Prop
  | write {s statements admitted txn} : Enabled (.write s statements admitted) (.serving txn)
  | start {ps ddl admitted} : Enabled (.start ps ddl admitted) (.serving none)
  | prepareNext {admitted f} : Enabled (.prepareNext admitted) (.serving (some f))
  | putRecord {ok f} : Enabled (.putRecord ok) (.serving (some f))
  | commitNext {answer f} : Enabled (.commitNext answer) (.serving (some f))
  | removeRecord {ok f} : Enabled (.removeRecord ok) (.serving (some f))
  | abortNext {admitted f} : Enabled (.abortNext admitted) (.serving (some f))
  | crash {phase} : Enabled .crash phase
  | restart : Enabled .restart .down
  | recoverShard {readable admitted r s todo rest} :
      Enabled (.recoverShard readable admitted) (.recovering r (s :: todo) rest)
  | recoverMark {admitted r s todo rest} :
      Enabled (.recoverMark admitted) (.marking r s todo rest)
  | recoverRemove {ok r rest} : Enabled (.recoverRemove ok) (.recovering r [] rest)

/-- The act does nothing, and there is nothing to account for. -/
def Idle : Prop :=
  w.step sq a = w ∧ w.plansFor a = none ∧ w.executes sq a = none ∧ w.decides a = none ∧
    w.removes a = none ∧ w.confirms sq a = none

theorem enabled_or_idle : Enabled a w.phase ∨ w.Idle sq a := by
  by_cases hen : Enabled a w.phase
  · exact .inl hen
  · refine .inr ⟨?_, ?_, ?_, ?_, ?_, ?_⟩
    · unfold step
      split <;> first
        | rfl
        | exact (hen Enabled.crash).elim
        | exact absurd (by simp only [*]; constructor) hen
    · unfold plansFor
      split <;> first | rfl | exact absurd (by simp only [*]; constructor) hen
    · unfold executes
      split <;> first | rfl | exact absurd (by simp only [*]; constructor) hen
    · unfold decides
      split <;> first | rfl | exact absurd (by simp only [*]; constructor) hen
    · unfold removes
      split <;> first | rfl | exact absurd (by simp only [*]; constructor) hen
    · unfold confirms
      split <;> first | rfl | exact absurd (by simp only [*]; constructor) hen

theorem step_restart (hphase : w.phase = .down) : w.step sq .restart = w.restart := by
  simp only [step, hphase]

end AtomicNode

namespace AtomicLog

variable {D : Type} (sq : Sqlite D) (l : AtomicLog D)

/-- The shard executed the transaction once, with the statements it was given. -/
def ExecutedOnce (tag : Nat) (s : ShardId) : Prop :=
  match l.plans tag s with
  | some statements => (l.executed s).filter (·.tag = tag) = [⟨tag, statements⟩]
  | none => False

instance (tag : Nat) (s : ShardId) : Decidable (l.ExecutedOnce tag s) := by
  unfold ExecutedOnce
  split <;> infer_instance

/-- The transaction is in the shard's file. -/
def Committed (tag : Nat) (s : ShardId) : Prop := tag ∈ l.node.applied s

instance (tag : Nat) (s : ShardId) : Decidable (l.Committed tag s) :=
  inferInstanceAs (Decidable (_ ∈ _))

/-- One act, and what it adds to the history. -/
def step (a : AtomicAct) : AtomicLog D where
  node := l.node.step sq a
  plans :=
    match l.node.plansFor a with
    | some plan => Function.update l.plans l.node.history.length plan
    | none => l.plans
  executed :=
    match l.node.executes sq a with
    | some (s, e) => Function.update l.executed s (e :: l.executed s)
    | none => l.executed
  decided := (l.node.decides a).toList ++ l.decided
  removed := ((l.node.removes a).map fun r =>
    ⟨r, decide (∀ s ∈ r.record.shards, l.ExecutedOnce r.tag s)⟩).toList ++ l.removed
  confirmed := (l.node.confirms sq a).toList ++ l.confirmed

def runs (db : D) (acts : List AtomicAct) : AtomicLog D :=
  Machine.run (step sq) { node := .init db } acts

end AtomicLog

end Shardlite.Shard
