/-
  Shardlite.Cluster.CatalogQuorum

  Quorum replication of catalog values over a cluster of elections.  A round of
  `commit_proposal` is a sequence of steps: the leader checks that it leads,
  prepares the value in its own store, asks every voter to prepare it, counts,
  commits locally and broadcasts.  A node that is asked checks whom it recognises
  as leader under the election lock and turns to its store after it has released
  it; and a node reads the position of its store before it takes that lock to
  stand or to vote.  Other rounds, elections and crashes come in between any two
  of these.  Catalog messages, like election messages, are never taken out of
  `mail`.

  `accepted`, `derived` and `acknowledged` are history: every successful
  `prepare`, every value built by `propose` with the value it was built from,
  and every proposal whose `commit_proposal` returned `Ok`.
-/
import Shardlite.Cluster.CatalogStore
import Shardlite.Cluster.ElectionSafety

namespace Shardlite.Cluster

open Function

/-- `commit_proposal` in flight. -/
structure Round where
  proposal : CatalogProposal
  voterSets : Finset NodeId × Option (Finset NodeId)
  /-- Who prepared the value; `none` until this node has. -/
  prepared : Option (Finset NodeId)
  deriving DecidableEq

/-- The requests of the catalog protocol, and the answer to a prepare. -/
inductive CatalogMsg where
  | prepare (leader : NodeId) (proposal : CatalogProposal)
  | prepared (voter leader : NodeId) (term version : Nat)
  | commit (leader : NodeId) (term version : Nat)
  | install (leader : NodeId) (term : Nat) (catalog : Catalog)
  deriving DecidableEq

/-- A successful `prepare` of `catalog` in `term`. -/
structure Acceptance where
  voter : NodeId
  term : Nat
  catalog : Catalog
  deriving DecidableEq

/-- Every node's election, catalog store and rounds, and the messages between them. -/
structure CatalogNet where
  net : Net
  stores : NodeId → CatalogStore
  /-- Proposals a node has built and may pass to `commit_proposal`. -/
  proposals : NodeId → List CatalogProposal
  rounds : NodeId → List Round
  mail : List CatalogMsg
  /-- Commands whose sender a node has checked, and may carry out until it restarts. -/
  authorized : NodeId → List CatalogMsg
  /-- Catalog positions that handlers of a node have read since it started. -/
  read : NodeId → List CatalogPosition
  accepted : List Acceptance
  derived : List (Catalog × Catalog)
  acknowledged : List CatalogProposal

/-- A cluster with a fixed voter configuration whose stores were created from
    one catalog.  `digest` is the hash of a catalog's encoding. -/
structure CatalogSystem where
  voters : VoterConfiguration
  digest : Catalog → Nat
  initial : Catalog
  initial_valid : initial.validate = .ok ()
  initial_voterSets : initial.voterSets = (voters.current, voters.next)
  initial_version : 1 ≤ initial.version

/-! ## The functions of the quorum layer -/

/-- Accept a catalog message only from the leader this node recognises now. -/
def authorizeCatalogLeader (e : Election) (leader : NodeId) (term : Nat) : Except Error Unit :=
  refuseIf (e.term ≠ term ∨ e.leader ≠ some leader)
    (.clusterConfig (s!"catalog command claims node {leader} in term {term}, but this node " ++
      s!"recognises leader {debugOption e.leader} in term {e.term}; refusing stale or " ++
      "unauthorised metadata"))

/-- Only the elected coordinator changes the catalog. -/
def requireLeader (e : Election) : Except Error Unit :=
  refuseIf (¬ e.isLeader)
    (.clusterConfig (s!"node {e.cfg.node} is not the catalog leader; current leader is " ++
      s!"{debugOption e.leader}"))

/-- The sets that must accept a proposal: a value that enters joint consensus
    already needs both. -/
def proposalVoterSets (current : Catalog) (proposal : CatalogProposal) :
    Finset NodeId × Option (Finset NodeId) :=
  match current.voterTransition, proposal.catalog.voterTransition with
  | none, some transition => (transition.old, some transition.new)
  | _, _ => current.voterSets

/-- A majority of the voters and, during a change, of the new ones too. -/
def hasJointQuorum (acknowledgements current : Finset NodeId) (next : Option (Finset NodeId)) :
    Bool :=
  Quorum.Majority acknowledgements current && next.all (Quorum.Majority acknowledgements ·)

/-- Whom a proposal is sent to. -/
def allVoters (sets : Finset NodeId × Option (Finset NodeId)) : Finset NodeId :=
  sets.1 ∪ sets.2.getD ∅

/-! ## Steps -/

/-- What the catalog's control loop, its handlers and the network do. -/
inductive CatalogAct where
  /-- `current_durability`: a handler reads the catalog position of its store. -/
  | readPosition (i : NodeId)
  /-- A step of the election layer; the durability it reports carries a catalog
      position that was read before. -/
  | election (a : Act)
  | propose (i : NodeId) (expectedVersion : Nat) (change : Catalog → Except Error Catalog)
  | recoverPrepared (i : NodeId)
  | republishCommitted (i : NodeId)
  | beginRound (i : NodeId) (proposal : CatalogProposal)
  | prepareLocal (i : NodeId) (round : Round)
  /-- `authorize_catalog_leader` for a command that has arrived. -/
  | authorize (i : NodeId) (command : CatalogMsg)
  | recvPrepare (i leader : NodeId) (proposal : CatalogProposal)
  | recvPrepared (i voter : NodeId) (round : Round)
  | commitRound (i : NodeId) (round : Round)
  | recvCommit (i leader : NodeId) (term version : Nat)
  | repairMembers (i : NodeId)
  | recvInstall (i leader : NodeId) (term : Nat) (catalog : Catalog)

/-- The catalog position that a node stands or votes with. -/
def Act.catalogPosition : Act → Option CatalogPosition
  | .tick _ _ d _ | .recvVoteRequest _ _ _ d _ => some d.catalog
  | _ => none

variable (w : CatalogNet)

/-- What node `i` stands or votes with was read from its store. -/
def CatalogNet.MayTake (a : Act) : Prop :=
  ∀ p ∈ a.catalogPosition, p ∈ w.read a.actor

instance (a : Act) : Decidable (w.MayTake a) :=
  inferInstanceAs (Decidable (∀ p ∈ a.catalogPosition, p ∈ w.read a.actor))

/-- Who sent a command, and in which term. -/
def CatalogMsg.command : CatalogMsg → Option (NodeId × Nat)
  | .prepare leader proposal => some (leader, proposal.term)
  | .commit leader term _ | .install leader term _ => some (leader, term)
  | .prepared .. => none

/-- A command of another node's has arrived at `i`, which has authorized it. -/
def CatalogNet.Admits (i leader : NodeId) (m : CatalogMsg) : Prop :=
  m ∈ w.mail ∧ i ≠ leader ∧ m ∈ w.authorized i

instance (i leader : NodeId) (m : CatalogMsg) : Decidable (w.Admits i leader m) :=
  inferInstanceAs (Decidable (_ ∧ _ ∧ _))

def CatalogNet.setRound (i : NodeId) (round : Round) (next : List Round) : CatalogNet :=
  { w with rounds := update w.rounds i (next ++ (w.rounds i).erase round) }

def CatalogNet.setStore (i : NodeId) (store : CatalogStore) : CatalogNet :=
  { w with stores := update w.stores i store }

/-- A restart drops what was in memory and reopens the two catalog files. -/
def CatalogNet.restarted : Act → CatalogNet
  | .restart i _ =>
    match CatalogStore.openFiles (w.stores i).file (w.stores i).preparedFile with
    | .ok store =>
      { w with
        stores := update w.stores i store
        proposals := update w.proposals i []
        rounds := update w.rounds i []
        authorized := update w.authorized i []
        read := update w.read i [] }
    | .error _ => w
  | _ => w

namespace CatalogSystem

variable (sys : CatalogSystem)

def init : CatalogNet where
  net := sys.voters.init
  stores _ := ⟨sys.initial, none, sys.initial, none⟩
  proposals _ := []
  rounds _ := []
  mail := []
  authorized _ := []
  read _ := []
  accepted := []
  derived := []
  acknowledged := []

def position (w : CatalogNet) (i : NodeId) : CatalogPosition :=
  (w.stores i).durabilityPosition sys.digest

/-- Catalog changes go through the catalog's own operations: none of them sets
    the version, and in a run over a fixed voter set none changes the voters. -/
def keepsVoters (current next : Catalog) : Bool :=
  next.version = current.version ∧ next.voterSets = current.voterSets

/-- One step of the cluster. -/
def step (w : CatalogNet) : CatalogAct → CatalogNet
  | .readPosition i => { w with read := update w.read i (sys.position w i :: w.read i) }
  | .election a =>
    if w.MayTake a then
      ({ w with net := sys.voters.step w.net a } : CatalogNet).restarted a
    else w
  | .propose i expectedVersion change =>
    match requireLeader (w.net.nodes i), change (w.stores i).inner,
        (w.stores i).propose (w.net.nodes i).term expectedVersion change with
    | .ok (), .ok changed, .ok proposal =>
      if keepsVoters (w.stores i).inner changed then
        { w with
          proposals := update w.proposals i (proposal :: w.proposals i)
          derived := ((w.stores i).inner, proposal.catalog) :: w.derived }
      else w
    | _, _, _ => w
  | .recoverPrepared i =>
    match requireLeader (w.net.nodes i), (w.stores i).prepared with
    | .ok (), some previous =>
      let proposal : CatalogProposal :=
        ⟨(w.net.nodes i).term, previous.expectedVersion, previous.catalog⟩
      { w with proposals := update w.proposals i (proposal :: w.proposals i) }
    | _, _ => w
  | .republishCommitted i =>
    match requireLeader (w.net.nodes i) with
    | .ok () =>
      let catalog := (w.stores i).snapshot
      let proposal : CatalogProposal :=
        ⟨(w.net.nodes i).term, catalog.version - 1, catalog⟩
      { w with proposals := update w.proposals i (proposal :: w.proposals i) }
    | .error _ => w
  | .beginRound i proposal =>
    match requireLeader (w.net.nodes i) with
    | .ok () =>
      if proposal ∈ w.proposals i ∧ proposal.term = (w.net.nodes i).term then
        let round : Round := ⟨proposal, proposalVoterSets (w.stores i).snapshot proposal, none⟩
        { w with rounds := update w.rounds i (round :: w.rounds i) }
      else w
    | .error _ => w
  | .prepareLocal i round =>
    if round ∈ w.rounds i ∧ round.prepared = none then
      match (w.stores i).prepare round.proposal with
      | .ok store =>
        let prepared := ({i} : Finset NodeId) ∩ allVoters round.voterSets
        { (w.setStore i store).setRound i round [{ round with prepared := some prepared }] with
          mail := .prepare i round.proposal :: w.mail
          accepted := ⟨i, round.proposal.term, round.proposal.catalog⟩ :: w.accepted }
      | .error _ => w.setRound i round []
    else w
  | .authorize i m =>
    match m.command with
    | some (leader, term) =>
      if m ∈ w.mail ∧ authorizeCatalogLeader (w.net.nodes i) leader term = .ok () then
        { w with authorized := update w.authorized i (m :: w.authorized i) }
      else w
    | none => w
  | .recvPrepare i leader proposal =>
    if w.Admits i leader (.prepare leader proposal) then
      match (w.stores i).prepare proposal with
      | .ok store =>
        { w.setStore i store with
          mail := .prepared i leader proposal.term proposal.catalog.version :: w.mail
          accepted := ⟨i, proposal.term, proposal.catalog⟩ :: w.accepted }
      | .error _ => w
    else w
  | .recvPrepared i voter round =>
    match round.prepared with
    | some prepared =>
      if round ∈ w.rounds i ∧ voter ∈ allVoters round.voterSets ∧
          .prepared voter i round.proposal.term round.proposal.catalog.version ∈ w.mail then
        w.setRound i round [{ round with prepared := some (insert voter prepared) }]
      else w
    | none => w
  | .commitRound i round =>
    match round.prepared with
    | some prepared =>
      if round ∈ w.rounds i ∧ hasJointQuorum prepared round.voterSets.1 round.voterSets.2 then
        let p := round.proposal
        match (w.stores i).commitPrepared p.term p.catalog.version with
        | .ok store =>
          { (w.setStore i store).setRound i round [] with
            -- the commit goes to the voters, the whole value to everyone else
            mail := .commit i p.term p.catalog.version :: .install i p.term p.catalog :: w.mail
            acknowledged := p :: w.acknowledged }
        | .error _ => w.setRound i round []
      else w
    | none => w
  | .recvCommit i leader term version =>
    if w.Admits i leader (.commit leader term version) then
      match (w.stores i).commitPrepared term version with
      | .ok store => w.setStore i store
      | .error _ => w
    else w
  | .repairMembers i =>
    match requireLeader (w.net.nodes i) with
    | .ok () =>
      { w with mail := .install i (w.net.nodes i).term (w.stores i).snapshot :: w.mail }
    | .error _ => w
  | .recvInstall i leader term catalog =>
    if w.Admits i leader (.install leader term catalog) then
      match (w.stores i).installCommitted catalog with
      | .ok store => w.setStore i store
      | .error _ => w
    else w

def runs (acts : List CatalogAct) : CatalogNet := Machine.run sys.step sys.init acts

end CatalogSystem

end Shardlite.Cluster
