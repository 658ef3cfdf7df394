/-
  Shardlite.Cluster.SingleWriter

  Which nodes may write a shard.  An elected coordinator plans the shard map,
  applies it to itself and sends it out with its heartbeats; every node applies
  the maps it receives, in its own time.  `plans` and `granted` are history:
  every map a coordinator planned, and every assignment that left its planner,
  to itself by planning or to others by a heartbeat.

  The gates are guarded by terms, so two maps of different terms never open the
  same gate in the same term.  Two maps of one term can: nothing closes the gate
  of a node that has not heard of the second map yet.
-/
import Shardlite.Cluster.ElectionSafety
import Shardlite.Cluster.Coordinator

namespace Shardlite.Cluster

open Function

/-- In `term`, `shard` was given to `node`. -/
structure Grant where
  term : Nat
  shard : ShardId
  node : NodeId
  deriving DecidableEq, Repr

/-- Election and gates, with the history of plans and grants. -/
structure GateNet where
  net : Net
  hosts : NodeId → Host
  plans : List (NodeId × Placement)
  granted : List Grant

structure GateSystem where
  voters : VoterConfiguration
  shards : Nat
  ownership : NodeId → Bool
  catalog : NodeId → Option Catalog

/-- What the election, the coordinators and the nodes' supervisors do. -/
inductive GateAct where
  /-- A step of the election layer.  A coordinator's heartbeat carries a map it
      planned. -/
  | election (a : Act)
  /-- A node that became leader in `term` plans and begins to apply its map. -/
  | plan (i : NodeId) (term : Nat)
  | resume (i : NodeId) (ok : Bool)
  /-- The map of a heartbeat, applied before the election sees the heartbeat. -/
  | applyHeartbeat (i : NodeId) (hb : Heartbeat)
  /-- The gate closes after the election deposed this node in `term`. -/
  | stepDown (i : NodeId) (term : Nat)
  | closeShard (i : NodeId) (shard : ShardId)
  | splitTick (i : NodeId)
  /-- What a round of heartbeats told the coordinator about its peers. -/
  | survey (i : NodeId) (live : List NodeId) (cordoned : Finset NodeId)
      (preferences : OrdMap ShardId NodeId)
  | cordon (i : NodeId) (cordoned : Bool)
  | changeCatalog (i : NodeId) (catalog : Catalog)

def GateNet.setHost (w : GateNet) (i : NodeId) (h : Host) : GateNet :=
  { w with hosts := update w.hosts i h }

def Placement.grants (p : Placement) : List Grant :=
  p.assignments.entries.map fun e => ⟨p.term, e.1, e.2⟩

def Placement.ownGrants (p : Placement) (i : NodeId) : List Grant :=
  (p.shardsFor i).map fun s => ⟨p.term, s, i⟩

namespace GateSystem

variable (sys : GateSystem)

/-- All gates are closed. -/
def init : GateNet where
  net := sys.voters.init
  hosts i :=
    { node := i, shards := sys.shards, ownership := sys.ownership i, catalog := sys.catalog i
      fence := .new i 0 }
  plans := []
  granted := []

/-- One act; a heartbeat carries only a map that its leader planned in that term. -/
def step (w : GateNet) : GateAct → GateNet
  | .election (.beat i term placement) =>
    if (i, placement) ∈ w.plans ∧ placement.term = term then
      { w with
        net := sys.voters.step w.net (.beat i term placement)
        granted := placement.grants ++ w.granted }
    else w
  | .election (.restart i now) =>
    { w.setHost i (w.hosts i).restart with net := sys.voters.step w.net (.restart i now) }
  | .election a => { w with net := sys.voters.step w.net a }
  | .plan i term =>
    if (i, term) ∈ w.net.elected then
      let plan := (w.hosts i).plan term
      { w.setHost i ((w.hosts i).applyPlacement plan) with
        plans := (i, plan) :: w.plans
        granted := plan.ownGrants i ++ w.granted }
    else w
  | .resume i ok => w.setHost i ((w.hosts i).resume ok)
  | .applyHeartbeat i hb =>
    if .heartbeat hb ∈ w.net.sent ∧ i ≠ hb.leader ∧ hb.term ≥ (w.net.nodes i).term ∧
        hb.placement.term ≥ (w.hosts i).placement.term then
      w.setHost i ((w.hosts i).applyPlacement hb.placement)
    else w
  | .stepDown i term =>
    if term ≤ (w.net.nodes i).term then
      w.setHost i { w.hosts i with fence := (w.hosts i).fence.stepDown term }
    else w
  | .closeShard i shard =>
    w.setHost i { w.hosts i with fence := ((w.hosts i).fence.closeShard shard).1 }
  | .splitTick i => w.setHost i ((w.hosts i).splitTick (w.net.nodes i).term)
  | .survey i live cordonedMembers preferences =>
    w.setHost i { w.hosts i with live, cordonedMembers, preferences }
  | .cordon i cordoned => w.setHost i { w.hosts i with cordoned }
  | .changeCatalog i catalog =>
    if (w.hosts i).catalog.isSome then w.setHost i { w.hosts i with catalog := some catalog }
    else w

def runs (acts : List GateAct) : GateNet := Machine.run sys.step sys.init acts

/-! ## What must hold of a step -/

/-- Within a term a coordinator does not take back what it granted to others, and
    moves a shard only away from itself, after it gave up its own claim; and a
    split reopens only gates of shards that the node's current term granted to
    this node and to no other. -/
def StaysPut (w : GateNet) : GateAct → Prop
  | .plan i term =>
    ∀ s ∈ ((w.hosts i).plan term).shardsFor i, ∀ g ∈ w.granted,
      g.term = term → g.shard = s → g.node = i
  | .election (.beat i term p) =>
    ∀ e ∈ p.assignments.entries,
      (∀ g ∈ w.granted, g.term = term → g.shard = e.1 → g.node = e.2 ∨ g.node = i) ∧
        (e.2 ≠ i → ¬ (w.hosts i).Claims term e.1)
  | .splitTick i =>
    ∀ s ∈ (w.hosts i).splitReopens.getD [], ⟨(w.net.nodes i).term, s, i⟩ ∈ w.granted ∧
      ∀ g ∈ w.granted, g.term = (w.net.nodes i).term → g.shard = s → g.node = i
  | _ => True

instance (w : GateNet) (a : GateAct) : Decidable (StaysPut w a) := by
  unfold StaysPut
  split <;> infer_instance

/-! ## The invariant -/

structure Inv (w : GateNet) : Prop where
  election : ElectionInv sys.voters w.net
  node : ∀ i, (w.hosts i).node = i
  plans : ∀ i p, (i, p) ∈ w.plans → (i, p.term) ∈ w.net.elected
  granted : ∀ g ∈ w.granted, ∃ l p, (l, p) ∈ w.plans ∧ p.term = g.term ∧
    p.owner g.shard = some g.node
  beats : ∀ hb, .heartbeat hb ∈ w.net.sent → hb.placement.term = hb.term ∧
    ∀ s n, hb.placement.owner s = some n → ⟨hb.term, s, n⟩ ∈ w.granted
  claims : ∀ n t s, (w.hosts n).Claims t s → ⟨t, s, n⟩ ∈ w.granted
  /-- Of two nodes granted a shard in one term, one is the coordinator. -/
  moved : ∀ t s n n', ⟨t, s, n⟩ ∈ w.granted → ⟨t, s, n'⟩ ∈ w.granted →
    n = n' ∨ (n, t) ∈ w.net.elected ∨ (n', t) ∈ w.net.elected
  /-- The coordinator has no claim on what it granted to another node. -/
  released : ∀ t s n l, ⟨t, s, n⟩ ∈ w.granted → (l, t) ∈ w.net.elected →
    (w.hosts l).Claims t s → n = l

section Steps

variable {sys} {w : GateNet}
variable {i : NodeId} {h : Host} {term : Nat}

section

variable (hi : sys.Inv w)

include hi

theorem Inv.setHost (hnode : h.node = i)
    (hclaims : ∀ t s, h.Claims t s → (w.hosts i).Claims t s ∨ ⟨t, s, i⟩ ∈ w.granted ∧
      ((i, t) ∈ w.net.elected → ∀ n, ⟨t, s, n⟩ ∈ w.granted → n = i)) :
    sys.Inv (w.setHost i h) := by
  refine ⟨hi.election, ?_, hi.plans, hi.granted, hi.beats, ?_, hi.moved, ?_⟩
  · intro j
    simp only [GateNet.setHost, update_apply]
    split_ifs with hj
    · exact hnode.trans hj.symm
    · exact hi.node j
  · intro n t s hc
    simp only [GateNet.setHost, update_apply] at hc
    split_ifs at hc with hn
    · subst hn
      rcases hclaims t s hc with hc | ⟨hg, -⟩
      · exact hi.claims n t s hc
      · exact hg
    · exact hi.claims n t s hc
  · intro t s n l hg hel hc
    simp only [GateNet.setHost, update_apply] at hc
    split_ifs at hc with hl
    · subst hl
      rcases hclaims t s hc with hc | ⟨-, honly⟩
      · exact hi.released t s n l hg hel hc
      · exact honly hel n hg
    · exact hi.released t s n l hg hel hc

theorem Inv.setHost_of_claims (hnode : h.node = i)
    (hclaims : ∀ t s, h.Claims t s → (w.hosts i).Claims t s) : sys.Inv (w.setHost i h) :=
  hi.setHost hnode fun t s hc => .inl (hclaims t s hc)

theorem Inv.setNet {a : Act} (hbeat : ∀ i t p, a ≠ .beat i t p) :
    sys.Inv { w with net := sys.voters.step w.net a } := by
  have helect := step_inv sys.voters a hi.election
  obtain ⟨d, hd⟩ := a.exists_reports
  have hgrow := (step_effect hi.election.wf a hd).grows
  refine ⟨helect, hi.node, ?_, hi.granted, ?_, hi.claims, ?_, ?_⟩
  · intro i p hp
    exact hgrow.elected (hi.plans i p hp)
  · intro hb hsent
    rcases step_heartbeat hsent with hsent | ⟨heq, -⟩
    · exact hi.beats hb hsent
    · exact absurd heq (hbeat _ _ _)
  · intro t s n n' hg hg'
    exact (hi.moved t s n n' hg hg').imp_right
      (Or.imp (fun h => hgrow.elected h) fun h => hgrow.elected h)
  · intro t s n l hg hel hc
    -- the term's coordinator was elected before the grant was made
    obtain ⟨l', p, hp, hpt, -⟩ := hi.granted _ hg
    have hpt : p.term = t := hpt
    have hel' : (l', t) ∈ w.net.elected := hpt ▸ hi.plans l' p hp
    obtain rfl := helect.elected_unique hel (hgrow.elected hel')
    exact hi.released t s n l hg hel' hc

theorem Inv.plan (hok : StaysPut w (.plan i term)) :
    sys.Inv (sys.step w (.plan i term)) := by
  simp only [step]
  split_ifs with hel
  · let p := (w.hosts i).plan term
    have hterm : p.term = term := by
      show ((w.hosts i).plan term).term = term
      unfold Host.plan
      split
      · rfl
      · simp only [Placement.withPreferences]
        split_ifs <;> rfl
    have hown : ∀ {t s n}, ⟨t, s, n⟩ ∈ p.ownGrants i → t = term ∧ s ∈ p.shardsFor i ∧ n = i := by
      intro t s n hg
      obtain ⟨s', hs, heq⟩ := List.mem_map.1 hg
      obtain ⟨rfl, rfl, rfl⟩ := Grant.mk.inj heq
      exact ⟨hterm, hs, rfl⟩
    have hplanned : sys.Inv { w with
        plans := (i, p) :: w.plans
        granted := p.ownGrants i ++ w.granted } := by
      refine ⟨hi.election, hi.node, ?_, ?_, ?_, ?_, ?_, ?_⟩
      · intro j q hq
        rcases List.mem_cons.1 hq with heq | hq
        · obtain ⟨rfl, rfl⟩ := Prod.mk.inj heq
          exact hterm ▸ hel
        · exact hi.plans j q hq
      · intro g hg
        rcases List.mem_append.1 hg with hg | hg
        · obtain ⟨s, hs, rfl⟩ := List.mem_map.1 hg
          exact ⟨i, p, List.mem_cons_self, rfl, Placement.mem_shardsFor.1 hs⟩
        · obtain ⟨l, q, hq, hrest⟩ := hi.granted g hg
          exact ⟨l, q, List.mem_cons_of_mem _ hq, hrest⟩
      · intro hb hsent
        obtain ⟨hpt, hall⟩ := hi.beats hb hsent
        exact ⟨hpt, fun s n h => List.mem_append_right _ (hall s n h)⟩
      · intro n t s hc
        exact List.mem_append_right _ (hi.claims n t s hc)
      · intro t s n n' hg hg'
        rcases List.mem_append.1 hg with hg | hg
        · obtain ⟨rfl, -, rfl⟩ := hown hg
          exact .inr (.inl hel)
        · rcases List.mem_append.1 hg' with hg' | hg'
          · obtain ⟨rfl, -, rfl⟩ := hown hg'
            exact .inr (.inr hel)
          · exact hi.moved t s n n' hg hg'
      · intro t s n l hg hl hc
        rcases List.mem_append.1 hg with hg | hg
        · obtain ⟨rfl, -, rfl⟩ := hown hg
          exact hi.election.elected_unique hel hl
        · exact hi.released t s n l hg hl hc
    refine hplanned.setHost ((Host.applyPlacement_node p).trans (hi.node i)) ?_
    intro t s hc
    rcases hc.of_applyPlacement with hc | ⟨rfl, hs⟩
    · exact .inl hc
    · rw [hi.node] at hs
      refine .inr ⟨List.mem_append_left _ (List.mem_map.2 ⟨s, hs, rfl⟩), fun _ n hg => ?_⟩
      rcases List.mem_append.1 hg with hg | hg
      · exact (hown hg).2.2
      · exact hok s hs _ hg hterm rfl
  · exact hi

theorem Inv.beat {p : Placement} (hok : StaysPut w (.election (.beat i term p))) :
    sys.Inv (sys.step w (.election (.beat i term p))) := by
  simp only [step]
  split_ifs with hplan
  · obtain ⟨hp, rfl⟩ := hplan
    have hel := hi.plans i p hp
    have helect := step_inv sys.voters (.beat i p.term p) hi.election
    have hnet : sys.voters.step w.net (.beat i p.term p) =
        w.net.send (.heartbeat ⟨p.term, i, p⟩) := if_pos hel
    have hgrant : ∀ {t s n}, ⟨t, s, n⟩ ∈ p.grants → t = p.term ∧ (s, n) ∈ p.assignments.entries := by
      intro t s n hg
      obtain ⟨e, he, heq⟩ := List.mem_map.1 hg
      obtain ⟨rfl, rfl, rfl⟩ := Grant.mk.inj heq
      exact ⟨rfl, he⟩
    rw [hnet] at helect ⊢
    refine ⟨helect, hi.node, hi.plans, ?_, ?_, ?_, ?_, ?_⟩
    · intro g hg
      rcases List.mem_append.1 hg with hg | hg
      · obtain ⟨e, he, rfl⟩ := List.mem_map.1 hg
        exact ⟨i, p, hp, rfl, OrdMap.get?_eq_some_iff.2 he⟩
      · exact hi.granted g hg
    · intro hb hsent
      rcases List.mem_cons.1 hsent with heq | hsent
      · obtain rfl := Msg.heartbeat.inj heq
        refine ⟨rfl, fun s n hs => List.mem_append_left _ ?_⟩
        exact List.mem_map.2 ⟨(s, n), OrdMap.get?_eq_some_iff.1 hs, rfl⟩
      · obtain ⟨hpt, hall⟩ := hi.beats hb hsent
        exact ⟨hpt, fun s n h => List.mem_append_right _ (hall s n h)⟩
    · intro n t s hc
      exact List.mem_append_right _ (hi.claims n t s hc)
    · intro t s n n' hg hg'
      rcases List.mem_append.1 hg with hg | hg <;> rcases List.mem_append.1 hg' with hg' | hg'
      · obtain ⟨rfl, he⟩ := hgrant hg
        have hs := OrdMap.get?_eq_some_iff.2 he
        have hs' := OrdMap.get?_eq_some_iff.2 (hgrant hg').2
        exact .inl (Option.mem_unique hs hs')
      · obtain ⟨rfl, he⟩ := hgrant hg
        rcases (hok _ he).1 _ hg' rfl rfl with heq | heq
        · exact .inl heq.symm
        · exact .inr (.inr (heq ▸ hel))
      · obtain ⟨rfl, he⟩ := hgrant hg'
        rcases (hok _ he).1 _ hg rfl rfl with heq | heq
        · exact .inl heq
        · exact .inr (.inl (heq ▸ hel))
      · exact hi.moved t s n n' hg hg'
    · intro t s n l hg hl hc
      rcases List.mem_append.1 hg with hg | hg
      · obtain ⟨rfl, he⟩ := hgrant hg
        obtain rfl := hi.election.elected_unique hel hl
        by_contra hne
        exact (hok _ he).2 hne hc
      · exact hi.released t s n l hg hl hc
  · exact hi

theorem Inv.applyHeartbeat (i : NodeId) (hb : Heartbeat) :
    sys.Inv (sys.step w (.applyHeartbeat i hb)) := by
  simp only [step]
  split_ifs with hgot
  · obtain ⟨hsent, hne, -⟩ := hgot
    obtain ⟨hpt, hall⟩ := hi.beats hb hsent
    refine hi.setHost ((Host.applyPlacement_node _).trans (hi.node i)) fun t s hc => ?_
    rcases hc.of_applyPlacement with hc | ⟨rfl, hs⟩
    · exact .inl hc
    · rw [hi.node, Placement.mem_shardsFor] at hs
      rw [hpt]
      refine .inr ⟨hall s i hs, fun hel => ?_⟩
      -- the coordinator of a term receives no heartbeat of it
      exact absurd (hi.election.elected_unique hel (hi.election.beats hb hsent)) hne
  · exact hi

theorem Inv.splitTick (hok : StaysPut w (.splitTick i)) :
    sys.Inv (sys.step w (.splitTick i)) := by
  refine hi.setHost ((Host.splitTick_node _).trans (hi.node i)) fun t s hc => ?_
  rcases hc.of_splitTick with hc | ⟨rfl, mine, hmine, hs⟩
  · exact .inl hc
  · obtain ⟨hg, honly⟩ := hok s (by rw [hmine]; exact hs)
    exact .inr ⟨hg, fun _ n hn => honly _ hn rfl rfl⟩

theorem Inv.step {a : GateAct} (hok : StaysPut w a) : sys.Inv (sys.step w a) := by
  cases a with
  | election a =>
    cases a with
    | beat i t p => exact hi.beat hok
    | restart i now =>
      have hhost := hi.setHost_of_claims (h := (w.hosts i).restart) (hi.node i)
        fun t s hc => absurd hc Host.not_claims_restart
      exact hhost.setNet (a := .restart i now) nofun
    | tick | requestStepDown | refreshVoters | recvVoteRequest | recvVoteReply
    | recvHeartbeat | recvHeartbeatReply => exact hi.setNet nofun
  | plan i t => exact hi.plan hok
  | resume i ok =>
    refine hi.setHost_of_claims ?_ fun t s hc => hc.of_resume
    rw [Host.resume_node, hi.node]
  | applyHeartbeat i hb => exact hi.applyHeartbeat i hb
  | stepDown i t =>
    simp only [GateSystem.step]
    split_ifs
    · refine hi.setHost_of_claims (hi.node i) fun t s hc => ?_
      rcases hc with hopen | hflight
      · rw [Fence.openTerm_stepDown] at hopen
        cases hopen
      · exact .inr hflight
    · exact hi
  | closeShard i shard =>
    refine hi.setHost_of_claims (hi.node i) fun t s hc => ?_
    rcases hc with hopen | hflight
    · exact .inl (Fence.openTerm_closeShard hopen).2
    · exact .inr hflight
  | splitTick i => exact hi.splitTick hok
  | survey i live cordoned preferences
  | cordon i cordoned => exact hi.setHost_of_claims (hi.node i) fun _ _ hc => hc
  | changeCatalog i catalog =>
    simp only [GateSystem.step]
    split_ifs
    · exact hi.setHost_of_claims (hi.node i) fun _ _ hc => hc
    · exact hi

end

theorem inv_init (sys : GateSystem) : sys.Inv sys.init where
  election := init_inv sys.voters
  node _ := rfl
  plans := nofun
  granted := nofun
  beats := nofun
  claims n t s hc := by
    rcases hc with hopen | ⟨a, ha, -⟩
    · cases hopen
    · cases ha
  moved := nofun
  released := nofun

end Steps

/-! ## One writer a term -/

/-- **Single writer.**  In every run in which maps stay put within their term,
    two nodes with the gate of one shard open have it open in different terms,
    and each has it open in a term whose elected coordinator assigned it the
    shard. -/
theorem one_writer_per_shard_and_term (acts : List GateAct)
    (hok : Machine.Meets sys.step StaysPut sys.init acts) :
    (∀ i j s t t', i ≠ j → ((sys.runs acts).hosts i).fence.openTerm s = some t →
        ((sys.runs acts).hosts j).fence.openTerm s = some t' → t ≠ t') ∧
      ∀ i s t, ((sys.runs acts).hosts i).fence.openTerm s = some t →
        ∃ l p, (l, t) ∈ (sys.runs acts).net.elected ∧ (l, p) ∈ (sys.runs acts).plans ∧
          p.term = t ∧ p.owner s = some i := by
  have hi : sys.Inv (sys.runs acts) :=
    Machine.invariant_run sys.step (fun w a hok hi => hi.step hok) (inv_init sys) hok
  constructor
  · rintro i j s t t' hne hti htj rfl
    have hgi := hi.claims i t s (.inl hti)
    have hgj := hi.claims j t s (.inl htj)
    rcases hi.moved t s i j hgi hgj with heq | hel | hel
    · exact hne heq
    · exact hne (hi.released t s j i hgj hel (.inl hti)).symm
    · exact hne (hi.released t s i j hgi hel (.inl htj))
  · intro i s t hopen
    obtain ⟨l, p, hp, hpt, hown⟩ := hi.granted _ (hi.claims i t s (.inl hopen))
    have hpt : p.term = t := hpt
    exact ⟨l, p, hpt ▸ hi.plans l p hp, hp, hpt, hown⟩

/-! ## Three nodes and two shards -/

def threeHosts : GateSystem where
  voters := threeVoters
  shards := 2
  ownership _ := false
  catalog _ := none

/-- The map of term 1 over the given members. -/
def mapOver (members : List NodeId) : Placement :=
  Placement.withPreferences 2 members .empty 1

/-- Coordinator 1 hears from `peers` and sends `receiver` the map over itself and
    them. -/
def publish (peers members : List NodeId) (receiver : NodeId) : List GateAct :=
  [.survey 1 peers ∅ .empty, .plan 1 1, .election (.beat 1 1 (mapOver members)),
   .applyHeartbeat receiver ⟨1, 1, mapOver members⟩]

/-- Node 1 wins term 1, takes both shards, and gives shard 1 to node 2 once it
    has heard from it. -/
def handedOut : List GateAct :=
  firstElection.map .election ++ publish [] [1] 2 ++ publish [2] [1, 2] 2

/-- Only node 2 may write shard 1 in term 1 at the end of that run. -/
theorem handedOut_one_writer :
    ((threeHosts.runs handedOut).hosts 2).fence.openTerm 1 = some 1 ∧
      ∀ j, 2 ≠ j → ((threeHosts.runs handedOut).hosts j).fence.openTerm 1 ≠ some 1 := by
  have hok : Machine.Meets threeHosts.step StaysPut threeHosts.init handedOut := by decide +kernel
  have hopen : ((threeHosts.runs handedOut).hosts 2).fence.openTerm 1 = some 1 := by
    decide +kernel
  refine ⟨hopen, fun j hne hj => ?_⟩
  exact (one_writer_per_shard_and_term threeHosts handedOut hok).1 2 j 1 1 1 hne hopen hj rfl

/-- In the next round only node 3 answers, and shard 1 moves to it. -/
def movedOn : List GateAct := handedOut ++ publish [3] [1, 3] 3

/-- Nodes 2 and 3 may then both write shard 1 in term 1. -/
theorem movedOn_two_writers :
    ((threeHosts.runs movedOn).hosts 2).fence.openTerm 1 = some 1 ∧
      ((threeHosts.runs movedOn).hosts 3).fence.openTerm 1 = some 1 := by
  decide +kernel

end GateSystem

end Shardlite.Cluster
