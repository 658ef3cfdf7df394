/-
  Shardlite.Cluster.Placement

  Which node leads which shard, and how the coordinator spreads shards over the
  members it can reach.
-/
import Shardlite.Base
import Shardlite.Lib.OrdMap

namespace Shardlite.Cluster

/-- The shard map one coordinator produced.  A node ignores a map from an older
    term: that coordinator has been deposed. -/
structure Placement where
  term : Nat := 0
  assignments : OrdMap ShardId NodeId := OrdMap.empty
  deriving DecidableEq, Inhabited

namespace Placement

def sortedMembers (members : List NodeId) : List NodeId :=
  (members.insertionSort (· ≤ ·)).dedup

/-- Spread `shardCount` shards over `members` as evenly as possible. -/
def balanced (shardCount : Nat) (members : List NodeId) (term : Nat) : Placement :=
  let members := sortedMembers members
  if members = [] then { term }
  else
    { term
      assignments := OrdMap.ofList <| (List.range shardCount).map fun s =>
        (s, members.getD (s % members.length) 0) }

/-- Like `balanced`, but a shard whose preferred host is a member is placed
    there; `rr` counts the shards that were dealt out in turn. -/
def withPreferences (shardCount : Nat) (members : List NodeId)
    (preferences : OrdMap ShardId NodeId) (term : Nat) : Placement :=
  let members := sortedMembers members
  if members = [] then { term }
  else
    let deal := fun (acc : OrdMap ShardId NodeId × Nat) (s : ShardId) =>
      let (assignments, rr) := acc
      match preferences.get? s with
      | some pref =>
        if pref ∈ members then (assignments.insert s pref, rr)
        else (assignments.insert s (members.getD (rr % members.length) 0), rr + 1)
      | none => (assignments.insert s (members.getD (rr % members.length) 0), rr + 1)
    { term, assignments := ((List.range shardCount).foldl deal (OrdMap.empty, 0)).1 }

def owner (p : Placement) (shard : ShardId) : Option NodeId := p.assignments.get? shard

/-- Shards assigned to `node`, in shard order. -/
def shardsFor (p : Placement) (node : NodeId) : List ShardId :=
  (p.assignments.entries.filter fun e => e.2 = node).map Prod.fst

theorem mem_shardsFor {p : Placement} {node : NodeId} {shard : ShardId} :
    shard ∈ p.shardsFor node ↔ p.owner shard = some node := by
  simp only [shardsFor, owner, List.mem_map, List.mem_filter, OrdMap.get?_eq_some_iff,
    decide_eq_true_eq]
  constructor
  · rintro ⟨⟨s, n⟩, ⟨hmem, rfl⟩, rfl⟩
    exact hmem
  · intro h
    exact ⟨(shard, node), ⟨h, rfl⟩, rfl⟩

end Placement

end Shardlite.Cluster
