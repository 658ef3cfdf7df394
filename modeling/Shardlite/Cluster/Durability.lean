/-
  Shardlite.Cluster.Durability

  How up to date a node is, and the comparison that decides who may lead.
-/
import Shardlite.Base
import Shardlite.Lib.OrdMap

namespace Shardlite.Cluster

/-- Durable catalog prefix a candidate can prove it holds. -/
structure CatalogPosition where
  version : Nat := 0
  /-- The 32-byte content hash, read as a number. -/
  digest : Nat := 0
  deriving DecidableEq, Repr, Inhabited

/-- How far a node has durably progressed through each shard's stream.  A shard
    absent from the map is at position 0. -/
structure Durability where
  catalog : CatalogPosition := {}
  epoch : Nat := 0
  shards : OrdMap ShardId Nat := OrdMap.empty
  deriving DecidableEq, Inhabited

/-- The result of comparing a candidate with a voter. -/
inductive Comparison where
  | atLeast
  | behind (shard : ShardId) (theirs ours : Nat)
  | incomparable (theirs ours : Nat)
  | catalogBehind (theirs ours : Nat)
  | catalogConflict (version : Nat)
  deriving DecidableEq, Repr

namespace Durability

/-- A shard that is not reported counts as position 0. -/
def lsn (d : Durability) (shard : ShardId) : Nat := (d.shards.get? shard).getD 0

/-- Whether `self`, a candidate, is at least as up to date as `voter`: first the
    catalog prefix, then the stream identity, then every shard the voter knows. -/
def compareTo (self voter : Durability) : Comparison :=
  if self.catalog.version < voter.catalog.version then
    .catalogBehind self.catalog.version voter.catalog.version
  else if self.catalog.version = voter.catalog.version ∧ self.catalog.version ≠ 0 ∧
      self.catalog.digest ≠ voter.catalog.digest then
    .catalogConflict self.catalog.version
  else if self.epoch ≠ voter.epoch ∧ voter.shards.values.any (· > 0) then
    .incomparable self.epoch voter.epoch
  else
    match voter.shards.entries.find? fun e => self.lsn e.1 < e.2 with
    | some (shard, ours) => .behind shard (self.lsn shard) ours
    | none => .atLeast

variable {candidate voter : Durability}

theorem catalog_le_of_atLeast (h : candidate.compareTo voter = .atLeast) :
    voter.catalog.version ≤ candidate.catalog.version := by
  unfold compareTo at h
  by_contra hlt
  rw [if_pos (not_le.1 hlt)] at h
  cases h

theorem digest_eq_of_atLeast (h : candidate.compareTo voter = .atLeast)
    (hv : candidate.catalog.version = voter.catalog.version)
    (h0 : candidate.catalog.version ≠ 0) :
    candidate.catalog.digest = voter.catalog.digest := by
  by_contra hd
  unfold compareTo at h
  rw [if_neg (by omega), if_pos ⟨hv, h0, hd⟩] at h
  cases h

end Durability

def Comparison.why : Comparison → String
  | .atLeast => "at least as up to date on every shard"
  | .behind shard theirs ours =>
    s!"behind on {shardName shard}: candidate is at LSN {theirs}, this node at {ours}; " ++
      "electing it would lose writes this node holds"
  | .incomparable theirs ours =>
    s!"candidate is on epoch {theirs} and this node on {ours}; positions from different " ++
      "streams cannot be ordered, so the candidate cannot be shown to hold this node's writes"
  | .catalogBehind theirs ours =>
    s!"behind on cluster catalog: candidate has version {theirs}, this voter has " ++
      s!"version {ours}; electing it could lose committed membership or ownership"
  | .catalogConflict version =>
    s!"catalog version {version} has a different digest on the candidate and voter; " ++
      "refusing inconsistent metadata histories"

end Shardlite.Cluster
