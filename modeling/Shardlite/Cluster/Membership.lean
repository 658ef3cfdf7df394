/-
  Shardlite.Cluster.Membership

  Elections and catalog rounds while the voters change.  A voter change is a
  catalog change in two steps, into joint consensus and out of it, and a node
  counts votes by the voter sets of its own committed catalog, so at any moment
  different nodes may count by different sets.

  Catalog rounds are the steps of `CatalogSystem`; here a proposal may also change
  the voters, and a node's election takes its sets from its store: before every
  tick and every vote, at a restart, and once more after a commit of its own.
  Before a tick or a vote it does so without the lock that the tick or the vote
  then takes, so another step may come in between.

  `refreshed` and `committed` are history: the catalog each election last took
  its sets from, and every catalog that was some node's committed one.
-/
import Shardlite.Cluster.CatalogSteps

namespace Shardlite.Cluster

/-- The sets a node's own catalog gives it.  `set_voter_configuration` refuses an
    empty set, and the node keeps what it had. -/
def VoterConfiguration.withSets (c : VoterConfiguration)
    (sets : Finset NodeId × Option (Finset NodeId)) : VoterConfiguration :=
  if h : sets.1.Nonempty ∧ sets.2 ≠ some ∅ then
    { c with
      current := sets.1
      next := sets.2
      current_nonempty := h.1
      next_ne_empty := h.2 }
  else c

/-- The catalog cluster, with the history of its voters. -/
structure MemberNet where
  cat : CatalogNet
  refreshed : NodeId → Catalog
  committed : List Catalog

/-- A step of the catalog, or a node takes the voters from its catalog. -/
inductive MemberAct where
  /-- `refresh_catalog_voters`, before a tick or a vote and after a commit. -/
  | refresh (i : NodeId) (now : Instant)
  | catalog (a : CatalogAct)

def CatalogAct.actor : CatalogAct → NodeId
  | .election a => a.actor
  | .readPosition i | .propose i .. | .recoverPrepared i | .republishCommitted i | .beginRound i _ => i
  | .prepareLocal i _ | .authorize i _ | .recvPrepare i .. | .recvPrepared i .. | .commitRound i _ => i
  | .recvCommit i .. | .repairMembers i | .recvInstall i .. => i

def MemberAct.actor : MemberAct → NodeId
  | .refresh i _ => i
  | .catalog a => a.actor

namespace CatalogSystem

variable (sys : CatalogSystem)

/-- The election layer as a node with this catalog is configured. -/
def configuration (catalog : Catalog) : VoterConfiguration :=
  sys.voters.withSets catalog.voterSets

variable (w : MemberNet)

/-- Take the voter sets from the committed catalog.  A leader that is no longer a
    voter steps down at once. -/
def refreshVoters (i : NodeId) (now : Instant) : MemberNet :=
  let catalog := (w.cat.stores i).snapshot
  match (w.cat.net.nodes i).setVoterConfiguration catalog.voterSets.1 catalog.voterSets.2 with
  | (_, .error _) => w
  | (e, .ok ()) =>
    let net := w.cat.net.put i e
    let net :=
      if ¬ catalog.isVoter i ∧ e.isLeader then
        (sys.configuration catalog).step net (.requestStepDown i now)
      else net
    { w with
      cat := { w.cat with net }
      refreshed := Function.update w.refreshed i catalog }

/-- A node that starts takes its voter sets from the catalog it opens. -/
def startVoters : Act → MemberNet
  | .restart i now => sys.refreshVoters w i now
  | _ => w

/-- A step of the election layer by the voter sets the node read last. -/
def electionStep (a : Act) : MemberNet :=
  let w := sys.startVoters w a
  let c := sys.configuration (w.refreshed a.actor)
  if w.cat.MayTake a then
    { w with cat := ({ w.cat with net := c.step w.cat.net a } : CatalogNet).restarted a }
  else w

/-- Catalog changes go through the catalog's own operations: none of them sets
    the version, and the voters change one step at a time. -/
def stepsVoters (current next : Catalog) : Bool :=
  next.version = current.version ∧ Quorum.Step current.voterSets next.voterSets

/-- `propose`, with changes of the voters. -/
def proposeStep (w : CatalogNet) (i : NodeId) (expectedVersion : Nat)
    (change : Catalog → Except Error Catalog) : CatalogNet :=
  match requireLeader (w.net.nodes i), change (w.stores i).inner,
      (w.stores i).propose (w.net.nodes i).term expectedVersion change with
  | .ok (), .ok changed, .ok proposal =>
    if stepsVoters (w.stores i).inner changed then
      { w with
        proposals := Function.update w.proposals i (proposal :: w.proposals i)
        derived := ((w.stores i).inner, proposal.catalog) :: w.derived }
    else w
  | _, _, _ => w

/-- What the step does, before it is entered in the history. -/
def memberStepRaw : MemberAct → MemberNet
  | .refresh i now => sys.refreshVoters w i now
  -- a node refreshes only through `refresh` and the handlers that begin with it
  | .catalog (.election (.refreshVoters _)) => w
  | .catalog (.election a) => sys.electionStep w a
  | .catalog (.propose i expectedVersion change) =>
    { w with cat := proposeStep w.cat i expectedVersion change }
  | .catalog a => { w with cat := sys.step w.cat a }

/-- One act; the actor's committed catalog is recorded. -/
def memberStep (a : MemberAct) : MemberNet :=
  let w := sys.memberStepRaw w a
  { w with committed := (w.cat.stores a.actor).inner :: w.committed }

/-- Every node starts from the initial catalog and its voters. -/
def memberInit : MemberNet where
  cat := sys.init
  refreshed _ := sys.initial
  committed := [sys.initial]

def memberRuns (acts : List MemberAct) : MemberNet :=
  Machine.run sys.memberStep sys.memberInit acts

end CatalogSystem

/-! ## Voter changes of the catalog -/

namespace Catalog

variable {c c' : Catalog}

theorem voterSets_snd (c : Catalog) : c.voterSets.2 = c.voterTransition.map (·.new) := by
  unfold voterSets
  cases c.voterTransition <;> rfl

theorem settle_node {new : Finset NodeId} (m : Member) : (m.settle new).node = m.node := by
  unfold Member.settle
  split_ifs <;> rfl

end Catalog

end Shardlite.Cluster
