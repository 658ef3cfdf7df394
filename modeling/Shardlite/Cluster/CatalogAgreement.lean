/-
  Shardlite.Cluster.CatalogAgreement

  Catalog rounds agree in every run whose leaders recover what they had prepared
  before they propose.  A leader that proposes a fresh change over a value it
  prepared in an earlier term can replace a committed one: `propose` does not
  look at the prepared value, and `prepare` lets a higher term replace it.
-/
import Shardlite.Cluster.CatalogSteps

namespace Shardlite.Cluster

namespace CatalogSystem

variable {sys : CatalogSystem} {w : CatalogNet}

/-! ## Along a run -/

section Restart

variable (w : CatalogNet) (a : Act)

theorem restarted_eq : (w.restarted a).net = w.net ∧ (w.restarted a).accepted = w.accepted ∧
    (w.restarted a).derived = w.derived ∧ (w.restarted a).acknowledged = w.acknowledged := by
  unfold CatalogNet.restarted
  split
  · split <;> exact ⟨rfl, rfl, rfl, rfl⟩
  · exact ⟨rfl, rfl, rfl, rfl⟩

end Restart

theorem derived_subset_step (sys : CatalogSystem) (w : CatalogNet) (a : CatalogAct) :
    w.derived ⊆ (sys.step w a).derived := by
  cases a with
  | election a =>
    simp only [step]
    split_ifs
    · rw [(restarted_eq _ a).2.2.1]
      exact List.Subset.refl _
    · exact List.Subset.refl _
  | propose i n change =>
    simp only [step]
    split
    · split_ifs
      · exact List.subset_cons_self _ _
      · exact List.Subset.refl _
    · exact List.Subset.refl _
  | _ =>
    simp only [step]
    repeat' split
    all_goals exact List.Subset.refl _

theorem DigestsDiffer.of_step {a : CatalogAct} (h : sys.DigestsDiffer (sys.step w a).derived) :
    sys.DigestsDiffer w.derived :=
  fun v v' hv hv' => h v v' (hv.mono (derived_subset_step sys w a))
    (hv'.mono (derived_subset_step sys w a))

/-- Terms only grow, and a node prepares only in the term it is in. -/
theorem Inv.advances (hi : sys.Inv w) {a : CatalogAct} (hok : sys.RecoversFirst w a) :
    (sys.box w.net w.accepted).Advances
      (sys.box (sys.step w a).net (sys.step w a).accepted) := by
  cases a with
  | election a =>
    obtain ⟨d, hrep⟩ := a.exists_reports
    simp only [CatalogSystem.step]
    split_ifs
    · rw [(restarted_eq _ a).1, (restarted_eq _ a).2.1]
      exact advances_of_grows (step_effect hi.election.wf a hrep).grows
    · exact .refl _
  | prepareLocal i round =>
    simp only [CatalogSystem.step]
    split_ifs
    · split
      · exact advances_of_prepare hok.2.1
      · exact .refl _
    · exact .refl _
  | recvPrepare i leader p =>
    simp only [CatalogSystem.step]
    split_ifs
    · split
      · exact advances_of_prepare (authorizeCatalogLeader_eq_ok hok).1
      · exact .refl _
    · exact .refl _
  | _ =>
    simp only [CatalogSystem.step]
    repeat' split
    all_goals exact .refl _

/-- From a state of the invariant, a run keeps it and keeps what is settled. -/
theorem Inv.run (hi : sys.Inv w) {acts : List CatalogAct}
    (hok : Machine.Meets sys.step sys.RecoversFirst w acts)
    (hdig : sys.DigestsDiffer (Machine.run sys.step w acts).derived) :
    sys.Inv (Machine.run sys.step w acts) ∧ ∀ v, sys.Settled w.net w.accepted v →
      sys.Settled (Machine.run sys.step w acts).net (Machine.run sys.step w acts).accepted v := by
  have hback : ∀ w a, sys.DigestsDiffer (sys.step w a).derived → sys.DigestsDiffer w.derived :=
    fun _ _ h => h.of_step
  refine Machine.invariant_run sys.step
    (I := fun w' => sys.Inv w' ∧ ∀ v, sys.Settled w.net w.accepted v →
      sys.Settled w'.net w'.accepted v) ?_ ⟨hi, fun _ h => h⟩
    (Machine.Meets.and_of_final sys.step (R := fun w => sys.DigestsDiffer w.derived) hback hok hdig)
  rintro w' a ⟨hok, hdig⟩ ⟨hi, hset⟩
  exact ⟨hi.step hdig.of_step hok, fun v hv => (hset v hv).mono (hi.advances hok)⟩

/-! ## Agreement -/

section Agreement

variable (sys : CatalogSystem) (acts : List CatalogAct)

/-- `v` is the committed catalog of `i` at some point of the run. -/
def HeldIn (i : NodeId) (v : Catalog) : Prop :=
  ∃ p, p <+: acts ∧ ((sys.runs p).stores i).inner = v

/-- `v` was built from `u`, change by change. -/
def Descends (u v : Catalog) : Prop :=
  Relation.ReflTransGen (fun b c => (b, c) ∈ (sys.runs acts).derived) u v

variable {sys acts}

theorem HeldIn.settled (hok : Machine.Meets sys.step sys.RecoversFirst sys.init acts)
    (hdig : sys.DigestsDiffer (sys.runs acts).derived) {i : NodeId} {v : Catalog}
    (h : sys.HeldIn acts i v) :
    sys.Settled (sys.runs acts).net (sys.runs acts).accepted v := by
  obtain ⟨p, ⟨rest, rfl⟩, rfl⟩ := h
  rw [runs, Machine.run_append] at hdig ⊢
  have hback : ∀ w acts, sys.DigestsDiffer (Machine.run sys.step w acts).derived →
      sys.DigestsDiffer w.derived := by
    intro w acts
    induction acts generalizing w with
    | nil => exact id
    | cons a acts ih => exact fun h => (ih _ h).of_step
  have hmid := ((inv_init sys).run (Machine.Meets.of_append _ hok) (hback _ _ hdig)).1
  exact (hmid.run (Machine.Meets.drop _ hok) hdig).2 _ (hmid.deciding.inner i)

theorem Settled.descends (hi : sys.Inv (sys.runs acts)) {u v : Catalog}
    (hu : sys.Settled (sys.runs acts).net (sys.runs acts).accepted u)
    (hv : sys.Settled (sys.runs acts).net (sys.runs acts).accepted v)
    (hle : u.version ≤ v.version) : sys.Descends acts u v := by
  -- by induction on the versions between them, from the later one down
  obtain ⟨n, hn⟩ := Nat.exists_eq_add_of_le hle
  induction n generalizing v with
  | zero => rw [hu.unique hi.records hi.accepting hv (by omega)]; exact .refl
  | succ n ih =>
    rcases hv.known hi.records hi.accepting with rfl | ⟨b, hb⟩
    · have := hi.records.version_of_known (hu.known hi.records hi.accepting)
      omega
    · obtain ⟨hver, -⟩ := hi.records.derived b v hb
      exact (ih (hi.deciding.derived b v hb) (by omega) (by omega)).tail hb

/-- **Catalog agreement.**  In every run whose leaders recover before they
    propose, and whose catalogs have distinct digests, catalogs held with one
    version are one catalog, and every catalog held lies on one line of descent
    with every acknowledged change: later versions were built on it, earlier ones
    it was built on. -/
theorem catalogs_agree (hok : Machine.Meets sys.step sys.RecoversFirst sys.init acts)
    (hdig : sys.DigestsDiffer (sys.runs acts).derived) :
    (∀ i j u v, sys.HeldIn acts i u → sys.HeldIn acts j v → u.version = v.version → u = v) ∧
      ∀ p ∈ (sys.runs acts).acknowledged, ∀ i v, sys.HeldIn acts i v →
        (p.catalog.version ≤ v.version → sys.Descends acts p.catalog v) ∧
          (v.version ≤ p.catalog.version → sys.Descends acts v p.catalog) := by
  have hi := ((inv_init sys).run hok hdig).1
  constructor
  · intro i j u v hu hv hver
    exact (hu.settled hok hdig).unique hi.records hi.accepting (hv.settled hok hdig) hver
  · intro p hp i v hv
    have hset := hi.deciding.acknowledged p hp
    exact ⟨hset.descends hi (hv.settled hok hdig), (hv.settled hok hdig).descends hi hset⟩

/-- **Committed catalogs are on a majority.**  In such a run, what a node has committed at any time
    was there from the start, or a majority of the voters prepared it in one term; and what a node
    has prepared is the version after its own. -/
theorem committed_by_majority (hok : Machine.Meets sys.step sys.RecoversFirst sys.init acts)
    (hdig : sys.DigestsDiffer (sys.runs acts).derived) :
    (∀ i v, sys.HeldIn acts i v → v = sys.initial ∨ ∃ t Q, Quorum.Majority Q sys.voters.current ∧
      ∀ u ∈ Q, u ∈ sys.voters.current → ⟨u, t, v⟩ ∈ (sys.runs acts).accepted) ∧
    ∀ i q, ((sys.runs acts).stores i).prepared = some q →
      q.catalog.version = ((sys.runs acts).stores i).inner.version + 1 := by
  refine ⟨fun i v hv => ?_, fun i q => ((inv_init sys).run hok hdig).1.records.next_version⟩
  rcases hv.settled hok hdig with rfl | ⟨t, Q, hQ, hacc⟩
  · exact .inl rfl
  · exact .inr ⟨t, Q, hQ, hacc⟩

end Agreement

/-! ## A small cluster -/

def threeVoterCatalog : Catalog :=
  { Catalog.ofMembers .one [(1, ⟨1, 1, "a", .voter, .active, 1, none⟩),
      (2, ⟨2, 1, "b", .voter, .active, 1, none⟩), (3, ⟨3, 1, "c", .voter, .active, 1, none⟩)] [] with
    routingEpoch := 0
    compatibility := ⟨1, "3.50.0", 4096, "modulo-v1", "fnv1a-64"⟩
    routing := .moduloV1 ⟨1, by decide, by decide⟩ }

/-- The split limit stands in for the digest: it tells these catalogs apart. -/
def threeVoterSystem : CatalogSystem where
  voters := threeVoters
  digest c := c.scalingPolicy.splitLogMaxRows
  initial := threeVoterCatalog
  initial_valid := by decide +kernel
  initial_voterSets := by decide +kernel
  initial_version := by decide

/-- The second catalog version, with a new split limit. -/
def withSplitLimit (rows : Nat) : Catalog :=
  { threeVoterCatalog with version := 2, scalingPolicy := { splitLogMaxRows := rows } }

/-- `leader` takes `term` with the vote of `follower`, which then recognises it;
    their catalogs are at `ahead` and `behind`. -/
def takeOver (leader follower : NodeId) (term : Nat) (now : Instant)
    (ahead behind : CatalogPosition) : List CatalogAct :=
  [.readPosition leader, .readPosition follower,
   .election (.tick leader now { catalog := ahead } {}),
   .election (.recvVoteRequest follower ⟨term, leader, { catalog := ahead }⟩ now
     { catalog := behind } {}),
   .election (.recvVoteReply leader follower ⟨term, true, ""⟩ now {}),
   .election (.beat leader term ⟨term, .empty⟩),
   .election (.recvHeartbeat follower ⟨term, leader, ⟨term, .empty⟩⟩ now false [] {})]

/-- `leader` sets the split limit, and commits it with the help of `follower`. -/
def commitLimit (leader follower : NodeId) (term rows : Nat) : List CatalogAct :=
  let p : CatalogProposal := ⟨term, 1, withSplitLimit rows⟩
  let round : Option (Finset NodeId) → Round := (⟨p, ({1, 2, 3}, none), ·⟩)
  [.propose leader 1 (·.setScalingPolicy { splitLogMaxRows := rows }),
   .beginRound leader p,
   .prepareLocal leader (round none),
   .authorize follower (.prepare leader p),
   .recvPrepare follower leader p,
   .recvPrepared leader follower (round (some {leader})),
   .commitRound leader (round (some {follower, leader}))]

/-- Node 1 sets the split limit and commits it; node 2, which prepared it, hears
    of the commit. -/
def firstChange : List CatalogAct :=
  takeOver 1 2 1 3000000000 ⟨1, 100000⟩ ⟨1, 100000⟩ ++ commitLimit 1 2 1 1 ++
    [.authorize 2 (.commit 1 1 2), .recvCommit 2 1 1 2]

theorem digestsDiffer_of_values {derived : List (Catalog × Catalog)}
    (h : ∀ v ∈ sys.initial :: derived.map (·.2), ∀ v' ∈ sys.initial :: derived.map (·.2),
      sys.digest v = sys.digest v' → v = v') : sys.DigestsDiffer derived := by
  have hmem : ∀ v, sys.Known derived v → v ∈ sys.initial :: derived.map (·.2) := by
    rintro v (rfl | ⟨b, hb⟩)
    · exact List.mem_cons_self
    · exact List.mem_cons_of_mem _ (List.mem_map_of_mem hb)
  exact fun v v' hv hv' => h v (hmem v hv) v' (hmem v' hv')

/-- Every catalog of version 2 in that run is the one node 1 committed, and it
    was built from the first. -/
theorem firstChange_agrees :
    threeVoterSystem.HeldIn firstChange 2 (withSplitLimit 1) ∧
      (∀ i v, threeVoterSystem.HeldIn firstChange i v → v.version = 2 → v = withSplitLimit 1) ∧
      threeVoterSystem.Descends firstChange threeVoterCatalog (withSplitLimit 1) := by
  have hderived : (threeVoterSystem.runs firstChange).derived =
      [(threeVoterCatalog, withSplitLimit 1)] := by decide +kernel
  have hok : Machine.Meets threeVoterSystem.step threeVoterSystem.RecoversFirst
      threeVoterSystem.init firstChange := by
    decide +kernel
  have hdig : threeVoterSystem.DigestsDiffer (threeVoterSystem.runs firstChange).derived := by
    rw [hderived]
    exact digestsDiffer_of_values (by decide +kernel)
  have hheld : threeVoterSystem.HeldIn firstChange 2 (withSplitLimit 1) :=
    ⟨firstChange, List.prefix_refl _, by decide +kernel⟩
  have hstart : threeVoterSystem.HeldIn firstChange 3 threeVoterCatalog :=
    ⟨[], List.nil_prefix, rfl⟩
  obtain ⟨hone, hline⟩ := catalogs_agree hok hdig
  refine ⟨hheld, fun i v hv hver => hone i 2 v _ hv hheld hver, ?_⟩
  exact (hline ⟨1, 1, withSplitLimit 1⟩ (by decide +kernel) 3 _ hstart).2 (by decide)

theorem firstChange_by_majority : ∃ t Q, Quorum.Majority Q threeVoters.current ∧
    ∀ u ∈ Q, u ∈ threeVoters.current →
      ⟨u, t, withSplitLimit 1⟩ ∈ (threeVoterSystem.runs firstChange).accepted := by
  have hdig : threeVoterSystem.DigestsDiffer (threeVoterSystem.runs firstChange).derived :=
    digestsDiffer_of_values (by decide +kernel)
  exact ((committed_by_majority (by decide +kernel) hdig).1 2 _
    ⟨firstChange, List.prefix_refl _, by decide +kernel⟩).resolve_left (by decide)

/-- Node 1 commits a limit of 1 with node 2's help.  Node 2, with that value
    still prepared, takes the next term with node 3's vote and sets the limit to 2
    without recovering it first. -/
def replacedChange : List CatalogAct :=
  takeOver 1 2 1 3000000000 ⟨1, 100000⟩ ⟨1, 100000⟩ ++ commitLimit 1 2 1 1 ++
    takeOver 2 3 2 9000000000 ⟨2, 1⟩ ⟨1, 100000⟩ ++ commitLimit 2 3 2 2

/-- Nodes 1 and 2 then hold different catalogs of version 2, and the acknowledged
    change of node 1 is not in the history of node 2's catalog; no digests collide. -/
theorem replacedChange_disagrees :
    threeVoterSystem.DigestsDiffer (threeVoterSystem.runs replacedChange).derived ∧
      threeVoterSystem.HeldIn replacedChange 1 (withSplitLimit 1) ∧
      threeVoterSystem.HeldIn replacedChange 2 (withSplitLimit 2) ∧
      (withSplitLimit 1).version = (withSplitLimit 2).version ∧
      withSplitLimit 1 ≠ withSplitLimit 2 ∧
      ⟨1, 1, withSplitLimit 1⟩ ∈ (threeVoterSystem.runs replacedChange).acknowledged ∧
      ¬ threeVoterSystem.Descends replacedChange (withSplitLimit 1) (withSplitLimit 2) := by
  have hderived : (threeVoterSystem.runs replacedChange).derived =
      [(threeVoterCatalog, withSplitLimit 2), (threeVoterCatalog, withSplitLimit 1)] := by
    decide +kernel
  refine ⟨?_, ⟨_, List.prefix_refl _, by decide +kernel⟩, ⟨_, List.prefix_refl _, by decide +kernel⟩,
    rfl, by decide, by decide +kernel, fun hdesc => ?_⟩
  · rw [hderived]
    exact digestsDiffer_of_values (by decide +kernel)
  -- nothing was built from node 1's catalog
  rcases hdesc.cases_head with heq | ⟨v, hv, -⟩
  · exact absurd heq (by decide)
  · rw [hderived] at hv
    rcases List.mem_cons.1 hv with heq | hv
    · exact absurd (Prod.mk.inj heq).1 (by decide)
    · exact absurd (Prod.mk.inj (List.mem_singleton.1 hv)).1 (by decide)

end CatalogSystem

end Shardlite.Cluster
