/-
  Shardlite.Cluster.Fence

  A node's write gate.  `led` says which shards the node may write and in which
  term it was granted each; `highest` is the highest term seen, and nothing older
  opens the gate again.
-/
import Shardlite.Cluster.Placement
import Shardlite.Lib.Machine

namespace Shardlite.Cluster

/-- The right to write, in one term. -/
structure FenceToken where
  term : Nat
  node : NodeId
  deriving DecidableEq, Repr

def FenceToken.display (t : FenceToken) : String := s!"term {t.term} from node {t.node}"

/-- A node's write gate, with its counters. -/
structure Fence where
  node : NodeId
  highest : Nat
  rejected : Nat := 0
  gated : Nat := 0
  staleOpens : Nat := 0
  /-- Shards this node may write, and the term of each grant; absent is closed. -/
  led : OrdMap ShardId Nat := .empty
  deriving DecidableEq

namespace Fence

def new (node : NodeId) (term : Nat) : Fence := { node, highest := term }

variable (f : Fence)

/-- Accept a message of the highest term seen or a later one. -/
def validate (token : FenceToken) : Fence × Except Error Unit :=
  let raised := { f with highest := max f.highest token.term }
  if token.term < f.highest then
    ({ raised with rejected := wrappingSucc f.rejected }, .error (.fenced token.display f.highest))
  else (raised, .ok ())

/-- Permit this node to write `shards` in `term`, and only those. -/
def openFor (shards : List ShardId) (term : Nat) : Fence :=
  let raised := { f with highest := max f.highest term }
  if term < f.highest then { raised with staleOpens := wrappingSucc f.staleOpens }
  else { raised with led := shards.foldl (fun led s => led.insert s term) .empty }

/-- Raise the bar to `term` and close every gate, as one step. -/
def stepDown (term : Nat) : Fence :=
  { f with highest := max f.highest term, led := .empty }

/-- No shard may be written. -/
def close : Fence := { f with led := .empty }

/-- Close one shard; the answer says whether it was open. -/
def closeShard (shard : ShardId) : Fence × Bool :=
  ({ f with led := f.led.erase shard }, f.led.contains shard)

def isOpen (shard : ShardId) : Bool := f.led.contains shard

def ledShards : List ShardId := f.led.keys

/-- The term this node may write `shard` in, if any. -/
def openTerm (shard : ShardId) : Option Nat := f.led.get? shard

/-- The gate that each write passes. -/
def checkMayWrite (shard : ShardId) : Fence × Except Error FenceToken :=
  match f.openTerm shard with
  | some term => (f, .ok ⟨term, f.node⟩)
  | none => ({ f with gated := wrappingSucc f.gated }, .error (.notLeader f.highest))

/-! ## Gates after an operation -/

section Gates

variable {f : Fence} {shards : List ShardId} {term : Nat} {s : ShardId}
variable {t : Nat}

theorem get?_foldl_insert (led : OrdMap ShardId Nat) :
    (shards.foldl (fun led s => led.insert s term) led).get? s =
      if s ∈ shards then some term else led.get? s := by
  induction shards generalizing led with
  | nil => rfl
  | cons s₀ rest ih =>
    rw [List.foldl_cons, ih, OrdMap.get?_insert]
    by_cases hrest : s ∈ rest
    · rw [if_pos hrest, if_pos (List.mem_cons_of_mem _ hrest)]
    · rw [if_neg hrest]
      by_cases hs : s = s₀
      · rw [if_pos hs, if_pos (hs ▸ List.mem_cons_self)]
      · rw [if_neg hs, if_neg (by simp [hs, hrest])]

/-- A stale open changes no gate; any other replaces them all. -/
theorem openTerm_openFor :
    (f.openFor shards term).openTerm s =
      if term < f.highest then f.openTerm s else if s ∈ shards then some term else none := by
  unfold openFor openTerm
  split_ifs with hstale hmem
  · rfl
  · rw [get?_foldl_insert, if_pos hmem]
  · rw [get?_foldl_insert, if_neg hmem]
    rfl

/-- A gate found open after `openFor` was opened by it, or was open before. -/
theorem openTerm_openFor_eq_some (h : (f.openFor shards term).openTerm s = some t) :
    f.openTerm s = some t ∨ t = term ∧ s ∈ shards := by
  rw [openTerm_openFor] at h
  split_ifs at h with hstale hmem
  · exact .inl h
  · exact .inr ⟨(Option.some.inj h).symm, hmem⟩

@[simp] theorem openTerm_stepDown : (f.stepDown term).openTerm s = none := rfl

theorem openTerm_closeShard {closed : ShardId}
    (h : (f.closeShard closed).1.openTerm s = some t) : s ≠ closed ∧ f.openTerm s = some t := by
  simp only [closeShard, openTerm, OrdMap.get?_erase] at h
  split_ifs at h with hs
  exact ⟨hs, h⟩

end Gates

/-! ## Runs -/

/-- What the threads of a node do to its fence, each in one step. -/
inductive Op where
  | validate (token : FenceToken)
  | openFor (shards : List ShardId) (term : Nat)
  | stepDown (term : Nat)
  | close
  | closeShard (shard : ShardId)
  | checkMayWrite (shard : ShardId)

def perform : Op → Fence
  | .validate token => (f.validate token).1
  | .openFor shards term => f.openFor shards term
  | .stepDown term => f.stepDown term
  | .close => f.close
  | .closeShard shard => (f.closeShard shard).1
  | .checkMayWrite shard => (f.checkMayWrite shard).1

/-- The highest term never falls, and a gate is opened in the highest. -/
theorem perform_spec (f : Fence) (op : Op) : f.highest ≤ (f.perform op).highest ∧
    ∀ s t, (f.perform op).openTerm s = some t →
      f.openTerm s = some t ∨ t = (f.perform op).highest := by
  cases op with
  | validate token =>
    simp only [perform, validate]
    split_ifs <;> exact ⟨le_max_left _ _, fun _ _ => .inl⟩
  | openFor shards term =>
    have hhigh : (f.openFor shards term).highest = max f.highest term := by
      unfold openFor
      dsimp only
      split_ifs <;> rfl
    refine ⟨hhigh ▸ le_max_left _ _, fun s t h => ?_⟩
    rw [perform, openTerm_openFor] at h
    split_ifs at h with hstale
    · exact .inl h
    · rw [perform, hhigh, max_eq_right (not_lt.1 hstale)]
      exact .inr (Option.some.inj h).symm
  | stepDown term => exact ⟨le_max_left _ _, fun _ _ h => by cases h⟩
  | close => exact ⟨le_rfl, fun _ _ h => by cases h⟩
  | closeShard shard => exact ⟨le_rfl, fun _ _ h => .inl (openTerm_closeShard h).2⟩
  | checkMayWrite shard =>
    simp only [perform, checkMayWrite]
    split <;> exact ⟨le_rfl, fun _ _ => .inl⟩

/-- **A deposed leadership stays closed.**  After a step-down, whatever the node's threads do and
    in whatever order, a write is let through only with a token of the term that was the highest
    then or a later one; nor does the highest term ever fall. -/
theorem tokens_after_stepDown (f : Fence) (term : Nat) (ops : List Op) :
    max f.highest term ≤ (Machine.run perform (f.stepDown term) ops).highest ∧
      ∀ s token, ((Machine.run perform (f.stepDown term) ops).checkMayWrite s).2 = .ok token →
        max f.highest term ≤ token.term := by
  have hrun : max f.highest term ≤ (Machine.run perform (f.stepDown term) ops).highest ∧
      ∀ s t, (Machine.run perform (f.stepDown term) ops).openTerm s = some t →
        max f.highest term ≤ t := by
    refine Machine.invariant_run_of_forall perform (I := fun g => max f.highest term ≤ g.highest ∧
      ∀ s t, g.openTerm s = some t → max f.highest term ≤ t) ?_ ⟨le_rfl, fun _ _ h => by cases h⟩ ops
    rintro g op ⟨hbar, hopen⟩
    obtain ⟨hle, hgates⟩ := g.perform_spec op
    refine ⟨hbar.trans hle, fun s t h => ?_⟩
    rcases hgates s t h with hold | rfl
    · exact hopen s t hold
    · exact hbar.trans hle
  refine ⟨hrun.1, fun s token h => ?_⟩
  unfold checkMayWrite at h
  split at h
  · next t ht =>
    obtain rfl := Except.ok.inj h
    exact hrun.2 s t ht
  · cases h

end Fence

end Shardlite.Cluster
