/-
  Shardlite.Cluster.LeaderCompleteness

  An elected leader holds what a majority of the voters held.  Every node has a
  durable position in each shard's stream and reports it, collapsed to one epoch,
  when it asks for votes and when it is asked for one.

  A holder and a vote meet in one voter.  Its report covers what it holds only
  when that is in the highest epoch of its positions, and then the candidate's
  report covers it too.  A position of an older epoch is reported as nothing, and
  the voter does not insist on it.

  A report speaks of the moment the candidate asked.  So besides the holders the
  candidate has to keep what it reported until it leads.
-/
import Shardlite.Cluster.ElectionSafety
import Shardlite.Replication.Follower

namespace Shardlite.Cluster

open Function

open Replication (Position)

/-! ## Positions and reports -/

/-- A node's durable position of each shard. -/
abbrev ShardPositions := OrdMap ShardId Position

namespace ShardPositions

variable (p : ShardPositions)

/-- The highest epoch of any position, 0 without one. -/
def epoch : Nat := (p.values.map (·.epoch)).foldr max 0

/-- `Follower::durability`, with the catalog position the node adds to it.  A
    position from an older epoch cannot be counted toward this one. -/
def durability (catalog : CatalogPosition) : Durability where
  catalog
  epoch := epoch p
  shards := p.mapValues fun pos => if pos.epoch = epoch p then pos.appliedLsn else 0

/-- The node durably holds shard `s` through `n` in epoch `e`. -/
def Holds (s : ShardId) (e n : Nat) : Prop :=
  n = 0 ∨ ∃ pos ∈ p.get? s, pos.epoch = e ∧ n ≤ pos.appliedLsn

instance (s : ShardId) (e n : Nat) : Decidable (Holds p s e n) :=
  inferInstanceAs (Decidable (_ ∨ ∃ pos ∈ p.get? s, _))

/-- Every position past the start of a stream is in the highest epoch. -/
def OneEpoch : Prop :=
  ∀ pos ∈ p.values, 0 < pos.appliedLsn → pos.epoch = epoch p

instance : Decidable (OneEpoch p) :=
  inferInstanceAs (Decidable (∀ pos ∈ p.values, _))

variable {p : ShardPositions} {s : ShardId} {e n : Nat}

theorem lsn_durability (catalog : CatalogPosition) :
    (durability p catalog).lsn s =
      ((p.get? s).map fun pos => if pos.epoch = epoch p then pos.appliedLsn else 0).getD 0 := by
  rw [Durability.lsn, durability, OrdMap.get?_mapValues]

end ShardPositions

/-- A report that covers shard `s` through `n` in epoch `e`. -/
def Durability.Covers (d : Durability) (s : ShardId) (e n : Nat) : Prop :=
  d.epoch = e ∧ n ≤ d.lsn s

section Reports

variable {p : ShardPositions} {s : ShardId} {e n : Nat}

theorem ShardPositions.holds_of_covers {catalog : CatalogPosition}
    (h : (durability p catalog).Covers s e n) : Holds p s e n := by
  obtain ⟨hepoch, hlsn⟩ := h
  have hepoch : epoch p = e := hepoch
  rw [lsn_durability] at hlsn
  rcases Nat.eq_zero_or_pos n with hzero | hpos
  · exact .inl hzero
  cases hget : p.get? s with
  | none =>
    rw [hget] at hlsn
    exact absurd hlsn (Nat.not_le.2 hpos)
  | some pos =>
    rw [hget, Option.map_some, Option.getD_some] at hlsn
    split_ifs at hlsn with hcur
    · exact .inr ⟨pos, hget, hcur.trans hepoch, hlsn⟩
    · exact absurd hlsn (Nat.not_le.2 hpos)

/-- What a node holds, its report covers, if all it holds is in one epoch. -/
theorem ShardPositions.covers_of_holds (catalog : CatalogPosition) (hone : OneEpoch p)
    (hpos : 0 < n) (h : Holds p s e n) : (durability p catalog).Covers s e n := by
  obtain ⟨pos, hget, rfl, hle⟩ := h.resolve_left hpos.ne'
  have hget : p.get? s = some pos := hget
  have hcur := hone pos (OrdMap.mem_values_of_get? hget) (hpos.trans_le hle)
  refine ⟨hcur.symm, ?_⟩
  rw [lsn_durability, hget, Option.map_some, Option.getD_some, if_pos hcur]
  exact hle

/-- A candidate that is not behind a voter covers what the voter's report covers. -/
theorem Durability.covers_of_atLeast {candidate voter : Durability}
    (h : candidate.compareTo voter = .atLeast) (hpos : 0 < n) (hv : voter.Covers s e n) :
    candidate.Covers s e n := by
  obtain ⟨rfl, hle⟩ := hv
  have hdata : voter.shards.get? s = some (voter.lsn s) := by
    unfold Durability.lsn at hle ⊢
    cases hget : voter.shards.get? s with
    | none =>
      rw [hget, Option.getD_none] at hle
      omega
    | some l => rfl
  have hmem := OrdMap.get?_eq_some_iff.1 hdata
  unfold Durability.compareTo at h
  split_ifs at h with hbehind hconflict hepoch
  -- The voter has something to protect, so the streams are the same.
  have hany : (voter.shards.values.any (· > 0)) = true :=
    List.any_eq_true.2 ⟨voter.lsn s, List.mem_map.2 ⟨_, hmem, rfl⟩,
      decide_eq_true (hpos.trans_le hle)⟩
  have hsame : candidate.epoch = voter.epoch := by
    by_contra hne
    exact hepoch ⟨hne, hany⟩
  refine ⟨hsame, hle.trans ?_⟩
  cases hfind : voter.shards.entries.find? fun e => candidate.lsn e.1 < e.2 with
  | some found =>
    rw [hfind] at h
    cases h
  | none =>
    have hnot := List.find?_eq_none.1 hfind _ hmem
    exact Nat.not_lt.1 fun hlt => hnot (decide_eq_true hlt)

end Reports

/-! ## Elections over durable positions -/

/-- The election, with what each node durably holds. -/
structure HoldWorld where
  net : Net
  positions : NodeId → ShardPositions

/-- The election and the files move independently. -/
inductive HoldAct where
  /-- A step of the election; the durability in it is replaced by the node's report,
      except for the catalog position. -/
  | election (a : Act)
  /-- A node's durable positions change. -/
  | move (i : NodeId) (positions : ShardPositions)

/-- The step as the node takes it with its positions. -/
def Act.reporting (positions : NodeId → ShardPositions) : Act → Act
  | .tick i now mine io => .tick i now (ShardPositions.durability (positions i) mine.catalog) io
  | .recvVoteRequest i req now mine io =>
    .recvVoteRequest i req now (ShardPositions.durability (positions i) mine.catalog) io
  | a => a

namespace VoterConfiguration

variable (c : VoterConfiguration)

def initHolding (positions : NodeId → ShardPositions) : HoldWorld := ⟨c.init, positions⟩

/-- One step; a report is what the node holds at that moment. -/
def holdStep (w : HoldWorld) : HoldAct → HoldWorld
  | .election a => { w with net := c.step w.net (a.reporting w.positions) }
  | .move i p => { w with positions := update w.positions i p }

end VoterConfiguration

namespace HoldWorld

/-- A voter that is asked for its vote has all its positions in one epoch. -/
def Careful (w : HoldWorld) : HoldAct → Prop
  | .election (.recvVoteRequest i ..) => ShardPositions.OneEpoch (w.positions i)
  | _ => True

instance (w : HoldWorld) (a : HoldAct) : Decidable (w.Careful a) := by
  unfold Careful; split <;> infer_instance

/-- A node of `K` that holds shard `s` through `n` in epoch `e` holds it after the step. -/
def Keeps (K : Finset NodeId) (s : ShardId) (e n : Nat) (w : HoldWorld) : HoldAct → Prop
  | .election _ => True
  | .move i p => i ∈ K → ShardPositions.Holds (w.positions i) s e n → ShardPositions.Holds p s e n

instance (K : Finset NodeId) (s : ShardId) (e n : Nat) (w : HoldWorld) (a : HoldAct) :
    Decidable (w.Keeps K s e n a) := by
  unfold Keeps; split <;> infer_instance

end HoldWorld

/-! ## Votes -/

variable {a : Act}

section Votes

variable {c : VoterConfiguration} {w : Net}

/-- What a candidate reports is no part of the vote it casts for itself. -/
theorem tick_ballots (i : NodeId) (now : Instant) (d d' : Durability) (io : DiskAnswers) :
    (c.step w (.tick i now d io)).ballots = (c.step w (.tick i now d' io)).ballots := by
  simp only [VoterConfiguration.step]
  split_ifs
  · unfold Net.perform
    split <;> rfl
  · rfl

/-- A ballot that is new without a vote request is a node's vote for itself.  The
    step looks at no report, so any `d` may be put in the place of one. -/
theorem step_ballot_of_no_request (hi : ElectionInv c w)
    (hnot : ∀ i req now mine io, a ≠ .recvVoteRequest i req now mine io) (d : Durability)
    {b : Ballot} (h : b ∈ (c.step w a).ballots) :
    b ∈ w.ballots ∨ b.voter = b.candidate ∨
      ∃ req, .voteRequest req ∈ w.sent ∧ b = ⟨a.actor, req.term, req.candidate⟩ ∧
        req.durability.compareTo d = .atLeast := by
  have hany : a.Reports d → b ∈ w.ballots ∨ b.voter = b.candidate ∨
      ∃ req, .voteRequest req ∈ w.sent ∧ b = ⟨a.actor, req.term, req.candidate⟩ ∧
        req.durability.compareTo d = .atLeast :=
    fun hd => (step_effect hi.wf a hd).new_ballot hi.ballots h
  cases a with
  | tick i now mine io =>
    rw [tick_ballots i now mine d io] at h
    exact (step_effect hi.wf (.tick i now d io) rfl).new_ballot hi.ballots h
  | recvVoteRequest i req now mine io => exact absurd rfl (hnot i req now mine io)
  | _ => exact hany trivial

theorem step_request_reports (hi : ElectionInv c w) (positions : NodeId → ShardPositions) (a : Act)
    {req : VoteRequest} (h : .voteRequest req ∈ (c.step w (a.reporting positions)).sent) :
    .voteRequest req ∈ w.sent ∨
      ∃ catalog, req.durability = ShardPositions.durability (positions req.candidate) catalog := by
  have hnew : ∀ {a' : Act} {catalog : CatalogPosition}, c.step w (a.reporting positions) =
      c.step w a' → a'.Reports (ShardPositions.durability (positions a'.actor) catalog) →
      .voteRequest req ∈ w.sent ∨
        ∃ catalog, req.durability = ShardPositions.durability (positions req.candidate) catalog := by
    intro a' catalog heq hrep
    rw [heq] at h
    rcases (step_effect hi.wf a' hrep).new_request_reports h with hold | ⟨hcand, hd, -⟩
    · exact .inl hold
    · exact .inr ⟨catalog, by rw [hcand, hd]⟩
  cases a with
  | tick i now mine io | recvVoteRequest i req now mine io => exact hnew rfl rfl
  | _ => exact @hnew _ {} rfl trivial

end Votes

/-! ## Every run -/

/-- The holders hold, and so does the candidate as soon as it has asked with a
    report that covers it, or has the vote of a holder. -/
structure HoldInv (c : VoterConfiguration) (H : Finset NodeId) (s : ShardId) (e n : Nat)
    (candidate : NodeId) (t : Nat) (w : HoldWorld) : Prop where
  election : ElectionInv c w.net
  holders : ∀ v ∈ H, ShardPositions.Holds (w.positions v) s e n
  asked : ∀ req, .voteRequest req ∈ w.net.sent → req.candidate = candidate → req.term = t →
    req.durability.Covers s e n → ShardPositions.Holds (w.positions candidate) s e n
  voted : ∀ v ∈ H, (⟨v, t, candidate⟩ : Ballot) ∈ w.net.ballots →
    v = candidate ∨ ShardPositions.Holds (w.positions candidate) s e n

namespace HoldInv

variable {c : VoterConfiguration} {H : Finset NodeId} {s : ShardId} {e n : Nat}
  {candidate : NodeId} {t : Nat} {w : HoldWorld}

section

variable (hi : HoldInv c H s e n candidate t w)

include hi

theorem election_step (hpos : 0 < n) (hc : w.Careful (.election a)) :
    HoldInv c H s e n candidate t (c.holdStep w (.election a)) := by
  refine ⟨step_inv c _ hi.election, hi.holders, ?_, ?_⟩
  · intro req hreq hcand hterm hcov
    rcases step_request_reports hi.election w.positions a hreq with hold | ⟨catalog, hd⟩
    · exact hi.asked req hold hcand hterm hcov
    · rw [hd, hcand] at hcov
      exact ShardPositions.holds_of_covers hcov
  · intro v hv hb
    -- A granted vote compares the request with a report that covers what `v` holds.
    have hgrant : ∀ {req : VoteRequest} {d : Durability} {k : NodeId},
        .voteRequest req ∈ w.net.sent → (⟨v, t, candidate⟩ : Ballot) = ⟨k, req.term, req.candidate⟩ →
        req.durability.compareTo d = .atLeast → d.Covers s e n →
        v = candidate ∨ ShardPositions.Holds (w.positions candidate) s e n := by
      intro req d k hreq heq hcmp hcov
      obtain ⟨-, hterm, hcand⟩ := Ballot.mk.inj heq
      exact .inr (hi.asked req hreq hcand.symm hterm.symm
        (Durability.covers_of_atLeast hcmp hpos hcov))
    by_cases hvote : ∃ i req now mine io, a = .recvVoteRequest i req now mine io
    · obtain ⟨i, req, now, mine, io, rfl⟩ := hvote
      have hone : ShardPositions.OneEpoch (w.positions i) := hc
      rcases (step_effect hi.election.wf (.recvVoteRequest i req now
        (ShardPositions.durability (w.positions i) mine.catalog) io) rfl).new_ballot
          hi.election.ballots hb with hold | hself | ⟨req', hreq', heq, hcmp⟩
      · exact hi.voted v hv hold
      · exact .inl hself
      · obtain ⟨rfl, -, -⟩ := Ballot.mk.inj heq
        exact hgrant hreq' heq hcmp
          (ShardPositions.covers_of_holds mine.catalog hone hpos (hi.holders v hv))
    · have hnot : ∀ i req now mine io, a.reporting w.positions ≠
          .recvVoteRequest i req now mine io := by
        intro i req now mine io heq
        cases a with
        | recvVoteRequest i' req' now' mine' io' => exact hvote ⟨i', req', now', mine', io', rfl⟩
        | _ => cases heq
      let covering : Durability := { epoch := e, shards := OrdMap.empty.insert s n }
      have hcovers : covering.Covers s e n := by
        refine ⟨rfl, ?_⟩
        rw [Durability.lsn, OrdMap.get?_insert, if_pos rfl]
        exact le_refl n
      rcases step_ballot_of_no_request hi.election hnot covering hb with
        hold | hself | ⟨req', hreq', heq, hcmp⟩
      · exact hi.voted v hv hold
      · exact .inl hself
      · exact hgrant hreq' heq hcmp hcovers

theorem move_step {i : NodeId} {p : ShardPositions}
    (hk : w.Keeps (insert candidate H) s e n (.move i p)) :
    HoldInv c H s e n candidate t (c.holdStep w (.move i p)) := by
  have hkeep : ∀ {v}, v ∈ insert candidate H → ShardPositions.Holds (w.positions v) s e n →
      ShardPositions.Holds (update w.positions i p v) s e n := by
    intro v hmem hv
    by_cases hvi : v = i
    · subst hvi
      rw [update_self]
      exact hk hmem hv
    · rw [update_of_ne hvi]
      exact hv
  have hself := Finset.mem_insert_self candidate H
  exact ⟨hi.election, fun v hv => hkeep (Finset.mem_insert_of_mem hv) (hi.holders v hv),
    fun req hreq hcand hterm hcov => hkeep hself (hi.asked req hreq hcand hterm hcov),
    fun v hv hb => (hi.voted v hv hb).imp_right (hkeep hself)⟩

theorem step (hpos : 0 < n) {a : HoldAct}
    (hc : w.Careful a ∧ w.Keeps (insert candidate H) s e n a) :
    HoldInv c H s e n candidate t (c.holdStep w a) := by
  cases a with
  | election a => exact hi.election_step hpos hc.1
  | move i p => exact hi.move_step hc.2

theorem holds_of_elected (hH : Quorum.Majority H c.current)
    (hel : (candidate, t) ∈ w.net.elected) :
    ShardPositions.Holds (w.positions candidate) s e n := by
  obtain ⟨Q, hQ, hback⟩ := hi.election.exists_backers hel
  obtain ⟨v, hv, hvH, hvQ⟩ := hH.exists_common hQ
  rcases (hback v hvQ hv).2 with rfl | hballot
  · exact hi.holders v hvH
  · rcases hi.voted v hvH hballot with rfl | hholds
    · exact hi.holders v hvH
    · exact hholds

end

end HoldInv

theorem elections_inv (c : VoterConfiguration) {w : HoldWorld} (h : ElectionInv c w.net)
    (acts : List HoldAct) : ElectionInv c (Machine.run c.holdStep w acts).net := by
  refine Machine.invariant_run_of_forall c.holdStep (I := fun w => ElectionInv c w.net) ?_ h acts
  intro w a hw
  cases a with
  | election a => exact step_inv c _ hw
  | move i p => exact hw

/-- Shard 0 at LSN 5 and shard 1 at LSN 9, each in its epoch. -/
def twoShards (epoch₀ epoch₁ : Nat) : ShardPositions :=
  OrdMap.ofList [(0, ⟨epoch₀, 5⟩), (1, ⟨epoch₁, 9⟩)]

/-- Node 3 stands with the positions `p`, node 1 votes for it, and it leads term 1. -/
def thirdElected (p : ShardPositions) : List HoldAct :=
  [.election (.tick 3 9000000000 {} {}),
   .election (.recvVoteRequest 1 ⟨1, 3, ShardPositions.durability p {}⟩ 9000000000 {} {}),
   .election (.recvVoteReply 3 1 ⟨1, true, ""⟩ 9000000000 {})]

/-- Nodes 1 and 2 hold shard 1 in an epoch older than shard 0's; node 3 has never
    heard of it. -/
def mixedEpochs (i : NodeId) : ShardPositions :=
  if i = 3 then OrdMap.ofList [(0, ⟨2, 5⟩)] else twoShards 2 1

end Shardlite.Cluster
