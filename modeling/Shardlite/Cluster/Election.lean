/-
  Shardlite.Cluster.Election

  The election state machine of one node.  Time, the answers of the disk and the
  node's durability are inputs, so every handler is a function of the state it
  starts from.  A handler that fails returns the state it had reached.
-/
import Shardlite.Cluster.Term
import Shardlite.Cluster.Durability
import Shardlite.Cluster.Placement
import Shardlite.Lib.Quorum

namespace Shardlite.Cluster

/-! ## Configuration and messages -/

structure ElectionConfig where
  node : NodeId
  /-- Every other voting member. -/
  peers : List NodeId
  electionTimeout : Duration
  heartbeatInterval : Duration
  deriving DecidableEq, Repr

/-- The heartbeat interval must be at most a third of the timeout. -/
def ElectionConfig.validate (cfg : ElectionConfig) : Except Error Unit :=
  if cfg.heartbeatInterval * 3 > cfg.electionTimeout then
    .error (.clusterConfig (s!"heartbeat_interval {debugDuration cfg.heartbeatInterval} is too " ++
      s!"close to election_timeout {debugDuration cfg.electionTimeout}; a follower would time " ++
      "out a healthy leader after one or two lost packets. Keep the heartbeat at most a third " ++
      "of the timeout."))
  else .ok ()

inductive Role where
  | follower
  | candidate
  | leader
  deriving DecidableEq, Repr

/-- A candidate asks for a vote and reports what it holds. -/
structure VoteRequest where
  term : Nat
  candidate : NodeId
  durability : Durability
  deriving DecidableEq

structure VoteReply where
  term : Nat
  granted : Bool
  /-- Why, when refused. -/
  reason : String
  deriving DecidableEq, Repr

/-- The leader's claim to its term, with the map it hands out. -/
structure Heartbeat where
  term : Nat
  leader : NodeId
  placement : Placement
  deriving DecidableEq

structure HeartbeatReply where
  term : Nat
  /-- False when the sender is stale. -/
  ok : Bool
  cordoned : Bool := false
  prefers : List ShardId := []
  deriving DecidableEq, Repr

/-- What the caller must do as a result of a state change. -/
inductive Action where
  | requestVotes (term : Nat)
  | heartbeat (term : Nat)
  | becameLeader (term : Nat)
  | steppedDown (term : Nat) (why : String)
  deriving DecidableEq, Repr

/-- The answers of the disk during one handler: to advancing the term, and to
    recording a vote. -/
structure DiskAnswers where
  advance : IoResult := .ok ()
  grant : IoResult := .ok ()

/-! ## State -/

/-- A node's election state; the term file is in `terms`. -/
structure Election where
  cfg : ElectionConfig
  terms : TermStore
  role : Role
  leader : Option NodeId
  lastContact : Instant
  lastHeartbeat : Instant
  /-- Votes received this term, including this node's own. -/
  votes : Finset NodeId
  /-- Peers that acknowledged this leader since `leaseStart`. -/
  acks : Finset NodeId
  leaseStart : Instant
  /-- After a voluntary step-down, do not campaign before this instant. -/
  stepdownBackoff : Option Instant
  currentVoters : Finset NodeId
  nextVoters : Option (Finset NodeId)
  deriving DecidableEq

namespace Election

/-- The state `new` builds once the configuration has passed validation. -/
def start (cfg : ElectionConfig) (terms : TermStore) (now : Instant) : Election :=
  { cfg, terms
    role := .follower
    leader := none
    lastContact := now
    lastHeartbeat := now
    votes := ∅
    acks := ∅
    leaseStart := now
    stepdownBackoff := none
    currentVoters := insert cfg.node cfg.peers.toFinset
    nextVoters := none }

def new (cfg : ElectionConfig) (terms : TermStore) (now : Instant) : Except Error Election := do
  cfg.validate
  return start cfg terms now

variable (e : Election)

def setVoterConfiguration (current : Finset NodeId)
    (next : Option (Finset NodeId)) : Election × Except Error Unit :=
  if current = ∅ ∨ next = some ∅ then
    (e, .error (.clusterConfig "election voter configurations cannot be empty"))
  else
    let configured := current ∪ next.getD ∅
    ({ e with
        currentVoters := current
        nextVoters := next
        votes := e.votes.filter (· ∈ configured)
        acks := e.acks.filter (· ∈ configured) }, .ok ())

def isConfiguredVoter (node : NodeId) : Bool :=
  node ∈ e.currentVoters || e.nextVoters.any (node ∈ ·)

def term : Nat := e.terms.term

def isLeader : Bool := e.role = .leader

/-- A majority of the current voters, and of the next ones during a transition. -/
def hasQuorum (acknowledgements : Finset NodeId) : Bool :=
  Quorum.Majority acknowledgements e.currentVoters &&
    e.nextVoters.all (Quorum.Majority acknowledgements ·)

/-- The election timeout, spread over `[base, 2 * base)` by node and term. -/
def timeout : Duration :=
  let base := e.cfg.electionTimeout
  let h := UInt64.ofNat e.cfg.node * 0x9E3779B97F4A7C15
  let h := h ^^^ (UInt64.ofNat e.terms.term * 0xBF58476D1CE4E5B9)
  let h := h ^^^ (h >>> 31)
  base + h.toNat % (max base 1 % u64Size)

/-! ## Transitions shared by the handlers -/

def becomeLeader (now : Instant) : Election × Action :=
  ({ e with
      role := .leader
      leader := some e.cfg.node
      leaseStart := now
      lastContact := now
      lastHeartbeat := now - e.cfg.heartbeatInterval
      acks := ∅ }, .becameLeader e.terms.term)

def stepDown (why : String) (now : Instant) : Election × Action :=
  ({ e with
      role := .follower
      leader := none
      lastContact := now
      votes := ∅
      acks := ∅ }, .steppedDown e.terms.term why)

/-- Adopt a higher term, stepping down if this node was leading.  The election
    timer is not deferred: a campaign is not evidence that a leader exists. -/
def observeTerm (term : Nat) (now : Instant) (why : String) (io : IoResult) :
    Election × Except Error Action :=
  match e.terms.advanceTo term io with
  | (terms, .error err) => ({ e with terms }, .error err)
  | (terms, .ok _) =>
    let e := { e with terms, votes := ∅ }
    if e.role = .leader then
      let (e, action) := e.stepDown why now
      (e, .ok action)
    else
      ({ e with role := .follower, leader := none }, .ok (.steppedDown terms.term why))

def standForElection (now : Instant) (io : DiskAnswers) : Election × Except Error (Option Action) :=
  let next := wrappingSucc e.terms.term
  match e.terms.advanceTo next io.advance with
  | (terms, .error err) => ({ e with terms }, .error err)
  | (terms, .ok _) =>
    -- The answer of `grantVote` is dropped; only a failed write stops the campaign.
    match terms.grantVote next e.cfg.node io.grant with
    | (terms, .error err) => ({ e with terms }, .error err)
    | (terms, .ok _) =>
      let e := { e with
        terms
        role := .candidate
        leader := none
        lastContact := now
        votes := {e.cfg.node} }
      if e.hasQuorum e.votes then
        let (e, action) := e.becomeLeader now
        (e, .ok (some action))
      else (e, .ok (some (.requestVotes next)))

/-! ## Handlers -/

def leaseExpired : String :=
  let members := e.currentVoters ∪ e.nextVoters.getD e.currentVoters
  s!"lease expired: only {e.acks.card + 1} of {members.card} members acknowledged this leader " ++
    s!"within {debugDuration e.cfg.electionTimeout}; stepping down rather than writing without " ++
    "a quorum"

def tick (now : Instant) (io : DiskAnswers) : Election × Except Error (Option Action) :=
  match e.role with
  | .follower | .candidate =>
    if e.stepdownBackoff.any (now < ·) then (e, .ok none)
    else
      let e := { e with stepdownBackoff := none }
      if durationSince now e.lastContact ≥ e.timeout then e.standForElection now io
      else (e, .ok none)
  | .leader =>
    if durationSince now e.leaseStart ≥ e.cfg.electionTimeout ∧
        ¬ e.hasQuorum (insert e.cfg.node e.acks) then
      let (e, action) := e.stepDown e.leaseExpired now
      (e, .ok (some action))
    else if durationSince now e.lastHeartbeat ≥ e.cfg.heartbeatInterval then
      ({ e with lastHeartbeat := now }, .ok (some (.heartbeat e.terms.term)))
    else (e, .ok none)

/-- Operator-requested step-down, with a back-off of two election timeouts. -/
def requestStepDown (now : Instant) : Election × Option Action :=
  if e.role ≠ .leader then (e, none)
  else
    let e := { e with stepdownBackoff := some (now + ((e.cfg.electionTimeout * 2 : Nat) : Int)) }
    let (e, action) := e.stepDown "operator requested step-down" now
    (e, some action)

/-- The part of `onVoteRequest` after a higher term has been observed. -/
def answerVote (req : VoteRequest) (now : Instant) (mine : Durability)
    (io : IoResult) : Election × Except Error VoteReply :=
  let current := e.terms.term
  if ¬ e.isConfiguredVoter req.candidate then
    (e, .ok ⟨current, false, s!"candidate {req.candidate} is not in the voter configuration"⟩)
  else if req.term < current then
    (e, .ok ⟨current, false, s!"stale term {req.term}; this node is on {current}"⟩)
  else if req.durability.compareTo mine ≠ .atLeast then
    (e, .ok ⟨current, false, (req.durability.compareTo mine).why⟩)
  else
    match e.terms.grantVote req.term req.candidate io with
    | (terms, .error err) => ({ e with terms }, .error err)
    | (terms, .ok true) => ({ e with terms, lastContact := now }, .ok ⟨terms.term, true, ""⟩)
    | (terms, .ok false) =>
      ({ e with terms }, .ok ⟨terms.term, false,
        s!"already voted for {debugOption terms.votedFor} in term {req.term}"⟩)

def onVoteRequest (req : VoteRequest) (now : Instant) (mine : Durability)
    (io : DiskAnswers) : Election × Except Error VoteReply :=
  if req.term > e.terms.term then
    match e.observeTerm req.term now s!"candidate {req.candidate} has a higher term" io.advance with
    | (e, .error err) => (e, .error err)
    | (e, .ok _) => e.answerVote req now mine io.grant
  else e.answerVote req now mine io.grant

/-- Count a vote, if it comes from a configured voter. -/
def countVote (fromNode : NodeId) : Election :=
  if e.isConfiguredVoter fromNode then { e with votes := insert fromNode e.votes } else e

/-- Handle a reply to this node's own vote request. -/
def onVoteReply (fromNode : NodeId) (reply : VoteReply) (now : Instant)
    (io : DiskAnswers) : Election × Except Error (Option Action) :=
  if reply.term > e.terms.term then
    match e.observeTerm reply.term now s!"voter {fromNode} is on a higher term" io.advance with
    | (e, .error err) => (e, .error err)
    | (e, .ok action) => (e, .ok (some action))
  else if e.role ≠ .candidate ∨ reply.term ≠ e.terms.term then (e, .ok none)
  else if ¬ reply.granted then (e, .ok none)
  else
    let e := e.countVote fromNode
    if e.hasQuorum e.votes then
      let (e, action) := e.becomeLeader now
      (e, .ok (some action))
    else (e, .ok none)

/-- Handle a heartbeat from a node claiming leadership. -/
def onHeartbeat (hb : Heartbeat) (now : Instant) (io : DiskAnswers) :
    Election × Except Error HeartbeatReply :=
  let settle := fun (e : Election) =>
    ({ e with role := .follower, leader := some hb.leader, lastContact := now },
      Except.ok { term := e.terms.term, ok := true })
  if hb.term < e.terms.term then (e, .ok { term := e.terms.term, ok := false })
  else if hb.term > e.terms.term then
    match e.observeTerm hb.term now s!"leader {hb.leader} has a higher term" io.advance with
    | (e, .error err) => (e, .error err)
    | (e, .ok _) => settle e
  else settle e

/-- Handle a peer's answer to this node's heartbeat; a quorum renews the lease. -/
def onHeartbeatReply (fromNode : NodeId) (reply : HeartbeatReply) (now : Instant)
    (io : DiskAnswers) : Election × Except Error (Option Action) :=
  if reply.term > e.terms.term then
    match e.observeTerm reply.term now s!"peer {fromNode} is on a higher term" io.advance with
    | (e, .error err) => (e, .error err)
    | (e, .ok action) => (e, .ok (some action))
  else if e.role ≠ .leader ∨ ¬ reply.ok then (e, .ok none)
  else
    let e := if e.isConfiguredVoter fromNode then { e with acks := insert fromNode e.acks } else e
    if e.hasQuorum (insert e.cfg.node e.acks) then
      ({ e with leaseStart := now, lastContact := now, acks := ∅ }, .ok none)
    else (e, .ok none)

end Election

end Shardlite.Cluster
