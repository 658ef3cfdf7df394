/-
  Shardlite.Cluster.ElectionNet

  A cluster of election state machines over a network that loses, delays,
  reorders and duplicates.  `sent` is every message ever sent: delivering one
  does not remove it, so it may arrive again at any later point or never.  A
  restart reopens the node from its term file.

  `ballots` and `elected` are history, read by no step: every vote that was ever
  on some disk, and every leadership that ever began.
-/
import Shardlite.Cluster.Election
import Shardlite.Lib.Machine

namespace Shardlite.Cluster

/-- The voter sets every node of a run is configured with, and each node's own
    timing.  `next` is present while a voter transition is open. -/
structure VoterConfiguration where
  current : Finset NodeId
  next : Option (Finset NodeId)
  config : NodeId → ElectionConfig
  current_nonempty : current.Nonempty
  next_ne_empty : next ≠ some ∅
  config_node : ∀ i, (config i).node = i
  config_valid : ∀ i, (config i).validate = .ok ()

def VoterConfiguration.configured (c : VoterConfiguration) : Finset NodeId :=
  c.current ∪ c.next.getD ∅

/-- A message on its way; it may be late, repeated or lost. -/
inductive Msg where
  | voteRequest (req : VoteRequest)
  | voteReply (voter candidate : NodeId) (reply : VoteReply)
  | heartbeat (hb : Heartbeat)
  | heartbeatReply (peer leader : NodeId) (reply : HeartbeatReply)
  deriving DecidableEq

/-- History: a vote that was granted. -/
structure Ballot where
  voter : NodeId
  term : Nat
  candidate : NodeId
  deriving DecidableEq, Repr

instance : LawfulBEq (NodeId × Nat) := inferInstance

/-- All nodes, what was ever sent, and the history of votes and leaders. -/
structure Net where
  nodes : NodeId → Election
  sent : List Msg
  ballots : List Ballot
  elected : List (NodeId × Nat)

/-- One step of the environment or of a node. -/
inductive Act where
  | tick (i : NodeId) (now : Instant) (durability : Durability) (io : DiskAnswers)
  | requestStepDown (i : NodeId) (now : Instant)
  /-- `refresh_catalog_voters` with the configuration of this run. -/
  | refreshVoters (i : NodeId)
  | recvVoteRequest (i : NodeId) (req : VoteRequest) (now : Instant) (mine : Durability)
      (io : DiskAnswers)
  | recvVoteReply (i voter : NodeId) (reply : VoteReply) (now : Instant) (io : DiskAnswers)
  /-- A node that became leader in `term` sends its heartbeat, however late. -/
  | beat (i : NodeId) (term : Nat) (placement : Placement)
  | recvHeartbeat (i : NodeId) (hb : Heartbeat) (now : Instant) (cordoned : Bool)
      (prefers : List ShardId) (io : DiskAnswers)
  | recvHeartbeatReply (i peer : NodeId) (reply : HeartbeatReply) (now : Instant)
      (io : DiskAnswers)
  | restart (i : NodeId) (now : Instant)

def Act.actor : Act → NodeId
  | .tick i .. | .requestStepDown i _ | .refreshVoters i | .recvVoteRequest i .. => i
  | .recvVoteReply i .. | .beat i .. | .recvHeartbeat i .. | .recvHeartbeatReply i .. => i
  | .restart i _ => i

/-- `d` is the durability the node reports or compares with in this step; most
    steps look at none. -/
def Act.Reports (a : Act) (d : Durability) : Prop :=
  match a with
  | .tick _ _ mine _ | .recvVoteRequest _ _ _ mine _ => d = mine
  | _ => True

theorem Act.exists_reports (a : Act) : ∃ d, a.Reports d := by
  cases a with
  | tick i now mine io | recvVoteRequest i req now mine io => exact ⟨mine, rfl⟩
  | _ => exact ⟨{}, trivial⟩

namespace VoterConfiguration

variable (c : VoterConfiguration)

/-- A node that starts from `file` and has read the voter configuration. -/
def boot (i : NodeId) (file : Option TermState) (now : Instant) : Election :=
  ((Election.start (c.config i) (TermStore.openFile file) now).setVoterConfiguration
    c.current c.next).1

/-- Every node's first start, without a term file. -/
def init : Net where
  nodes i := c.boot i none 0
  sent := []
  ballots := []
  elected := []

end VoterConfiguration

namespace Net

def ballotOf (i : NodeId) (e : Election) : List Ballot :=
  match e.terms.file with
  | some ⟨t, some candidate⟩ => [⟨i, t, candidate⟩]
  | _ => []

/-- Replace a node's state, recording the vote now on its disk. -/
def put (w : Net) (i : NodeId) (e : Election) : Net :=
  { w with nodes := Function.update w.nodes i e, ballots := ballotOf i e ++ w.ballots }

def send (w : Net) (m : Msg) : Net := { w with sent := m :: w.sent }

def elect (w : Net) (i : NodeId) (t : Nat) : Net := { w with elected := (i, t) :: w.elected }

/-- What the caller of a handler does with the action it returns.  Heartbeats
    are sent by `Act.beat`. -/
def perform (w : Net) (i : NodeId) (durability : Durability) :
    Except Error (Option Action) → Net
  | .ok (some (.requestVotes t)) => w.send (.voteRequest ⟨t, i, durability⟩)
  | .ok (some (.becameLeader t)) => w.elect i t
  | _ => w

end Net

/-- The cluster's transition function.  An action whose message was never sent,
    or that its node would not take, changes nothing. -/
def VoterConfiguration.step (c : VoterConfiguration) (w : Net) : Act → Net
  | .tick i now durability io =>
    if i ∈ c.configured then
      let (e, res) := (w.nodes i).tick now io
      (w.put i e).perform i durability res
    else w
  | .requestStepDown i now => w.put i ((w.nodes i).requestStepDown now).1
  | .refreshVoters i => w.put i ((w.nodes i).setVoterConfiguration c.current c.next).1
  | .recvVoteRequest i req now mine io =>
    if .voteRequest req ∈ w.sent ∧ i ≠ req.candidate then
      if i ∈ c.configured then
        match (w.nodes i).onVoteRequest req now mine io with
        | (e, .ok reply) => (w.put i e).send (.voteReply i req.candidate reply)
        | (e, .error _) => w.put i e
      else
        w.send (.voteReply i req.candidate ⟨(w.nodes i).term, false,
          "this node is a storage member, not a catalog voter"⟩)
    else w
  | .recvVoteReply i voter reply now io =>
    if .voteReply voter i reply ∈ w.sent then
      let (e, res) := (w.nodes i).onVoteReply voter reply now io
      (w.put i e).perform i {} res
    else w
  | .beat i term placement =>
    if (i, term) ∈ w.elected then w.send (.heartbeat ⟨term, i, placement⟩) else w
  | .recvHeartbeat i hb now cordoned prefers io =>
    if .heartbeat hb ∈ w.sent ∧ i ≠ hb.leader then
      match (w.nodes i).onHeartbeat hb now io with
      | (e, .ok reply) =>
        (w.put i e).send (.heartbeatReply i hb.leader { reply with cordoned, prefers })
      | (e, .error _) => w.put i e
    else w
  | .recvHeartbeatReply i peer reply now io =>
    if .heartbeatReply peer i reply ∈ w.sent then
      w.put i ((w.nodes i).onHeartbeatReply peer reply now io).1
    else w
  | .restart i now => w.put i (c.boot i (w.nodes i).terms.file now)

/-- The state after a sequence of steps from a cluster with no term files. -/
def VoterConfiguration.runs (c : VoterConfiguration) (acts : List Act) : Net :=
  Machine.run c.step c.init acts

end Shardlite.Cluster
