/-
  Shardlite.Cluster.MembershipSafety

  At most one node becomes leader in a term while the voters change, as long as
  committed catalogs of one version agree and a node prepares a proposal of its
  own only while it still leads the proposal's term.  `commit_proposal` checks
  the leadership once, before it prepares: a leader deposed in between has voted
  in the next term, prepares the end of a voter change in the old one, and the new
  voters elect a second leader of the term it voted in.
-/
import Shardlite.Cluster.MembershipSteps
import Shardlite.Cluster.CatalogAgreement

namespace Shardlite.Cluster

open Function

namespace CatalogSystem

variable {sys : CatalogSystem} {w : MemberNet}

/-! ## Steps of a round -/
variable {i : NodeId} {round : Round} {t : Nat}

section

variable (hi : sys.MemberInv w)

include hi

theorem MemberInv.propose (i : NodeId) (expectedVersion : Nat)
    (change : Catalog → Except Error Catalog) :
    sys.MemberInv { w with cat := proposeStep w.cat i expectedVersion change } := by
  unfold proposeStep
  split
  · rename_i changed p _ hchange hprop
    split_ifs with hsteps
    · obtain ⟨next, version, hnext, hsucc, hexp, rfl⟩ := CatalogStore.propose_eq_ok hprop
      obtain rfl : changed = next := Except.ok.inj (hchange.symm.trans hnext)
      obtain ⟨hver, hstep⟩ := of_decide_eq_true hsteps
      have hversion : version = (w.cat.stores i).inner.version + 1 := by
        rw [checkedSucc_eq_some hsucc, hver]
      refine hi.addProposal ⟨?_, .inr ⟨_, hi.lineage.inner i, hversion, hstep⟩⟩ hversion.le _
      rw [← hexp]
      exact hversion
    · exact hi
  · exact hi

theorem MemberInv.recoverPrepared (i : NodeId) :
    sys.MemberInv { w with cat := sys.step w.cat (.recoverPrepared i) } := by
  simp only [step]
  split
  · rename_i q _ hq
    have hstep := hi.lineage.prepared i q hq
    exact hi.addProposal (p := ⟨(w.cat.net.nodes i).term, q.expectedVersion, q.catalog⟩)
      ⟨hstep.version, hstep.descended⟩ (hi.lineage.next_version hq).le w.cat.derived
  · exact hi

theorem MemberInv.republishCommitted (i : NodeId) :
    sys.MemberInv { w with cat := sys.step w.cat (.republishCommitted i) } := by
  simp only [step]
  split
  · obtain ⟨hdesc, hle⟩ := hi.lineage.descended _ (hi.lineage.inner i)
    have hpos := sys.initial_version
    refine hi.addProposal ⟨?_, hdesc⟩ (Nat.le_succ _) _
    show (w.cat.stores i).inner.version = (w.cat.stores i).inner.version - 1 + 1
    omega
  · exact hi

theorem MemberInv.beginRound (i : NodeId) (p : CatalogProposal) :
    sys.MemberInv { w with cat := sys.step w.cat (.beginRound i p) } := by
  simp only [step]
  split
  · split_ifs with hp
    · obtain ⟨hmem, hterm⟩ := hp
      obtain ⟨hstep, hver⟩ := hi.lineage.proposals i p hmem
      obtain ⟨t, hbehind, hto⟩ := hi.certificates.inner i
      refine hi.setRounds fun r hr => ?_
      rcases List.mem_cons.1 hr with rfl | hr
      · refine ⟨hstep, ⟨_, hi.lineage.inner i, rfl, hver, ?_⟩, fun S hS => (by cases hS)⟩
        exact hto.mono (List.Subset.refl _) (List.Subset.refl _) (hterm ▸ hbehind.1)
      · exact hi.certificates.rounds i r hr
    · exact hi
  · exact hi

theorem MemberInv.prepareLocal (hlead : (w.cat.net.nodes i).isLeader = true)
    (hterm : (w.cat.net.nodes i).term = round.proposal.term) :
    sys.MemberInv { w with cat := sys.step w.cat (.prepareLocal i round) } := by
  have hrole : (w.cat.net.nodes i).role ≠ .candidate := by
    rw [show (w.cat.net.nodes i).role = .leader from of_decide_eq_true hlead]
    simp
  simp only [step]
  split_ifs with hround
  · have hr := hi.certificates.rounds i round hround.1
    split
    · rename_i s' hprep
      have hprepared := hi.prepare hr.stepped hterm hrole hprep
      have hsaid := hprepared.say (m := .prepare i round.proposal) hr.stepped
      have hongoing := hsaid.certificates.rounds i round hround.1
      refine hsaid.setRound round fun r hmem => ?_
      obtain rfl := List.mem_singleton.1 hmem
      refine ⟨hongoing.stepped, hongoing.counted, ?_⟩
      rintro S hS
      cases hS
      refine ⟨⟨hterm.ge, fun hcand => absurd hcand hrole⟩, fun u hu => ?_⟩
      rw [Finset.mem_singleton.1 (Finset.mem_inter.1 hu).1]
      exact ⟨_, List.mem_cons_self, rfl⟩
    · exact hi.dropRound i round
  · exact hi

/-- Whoever takes catalog commands from another node is not campaigning, and is
    in the command's term. -/
theorem MemberInv.behind_of_authorized {leader : NodeId}
    (h : authorizeCatalogLeader (w.cat.net.nodes i) leader t = .ok ()) :
    (w.cat.net.nodes i).term = t ∧ (w.cat.net.nodes i).role ≠ .candidate ∧ Behind w i t := by
  obtain ⟨hterm, hleader⟩ := authorizeCatalogLeader_eq_ok h
  have hrole : (w.cat.net.nodes i).role ≠ .candidate := fun hcand => by
    cases ((hi.office.recognises i).1 hcand).symm.trans hleader
  exact ⟨hterm, hrole, hterm.ge, fun hcand => absurd hcand hrole⟩

theorem MemberInv.authorize (i : NodeId) (m : CatalogMsg) :
    sys.MemberInv { w with cat := sys.step w.cat (.authorize i m) } := by
  simp only [step]
  split
  · split_ifs
    · exact hi.forget _ _ (fun _ => List.Subset.refl _) fun _ => List.Subset.refl _
    · exact hi
  · exact hi

theorem MemberInv.recvPrepare {i leader : NodeId} {p : CatalogProposal}
    (hauth : authorizeCatalogLeader (w.cat.net.nodes i) leader p.term = .ok ()) :
    sys.MemberInv { w with cat := sys.step w.cat (.recvPrepare i leader p) } := by
  simp only [step]
  split_ifs with hmail
  · split
    · rename_i s' hprep
      obtain ⟨hterm, hrole, -⟩ := hi.behind_of_authorized hauth
      have hprepared := hi.prepare (hi.lineage.mailed leader p hmail.1) hterm hrole hprep
      exact hprepared.say (m := .prepared i leader p.term p.catalog.version)
        ⟨p.catalog, List.mem_cons_self, rfl⟩
    · exact hi
  · exact hi

theorem MemberInv.recvPrepared (i voter : NodeId) (round : Round) :
    sys.MemberInv { w with cat := sys.step w.cat (.recvPrepared i voter round) } := by
  simp only [step]
  split
  · rename_i S hS
    split_ifs with hgot
    · have hr := hi.certificates.rounds i round hgot.1
      obtain ⟨hbehind, hcounted⟩ := hr.tallied S hS
      refine hi.setRound round fun r hmem => ?_
      obtain rfl := List.mem_singleton.1 hmem
      refine ⟨hr.stepped, hr.counted, ?_⟩
      rintro S' hS'
      cases hS'
      refine ⟨hbehind, fun u hu => ?_⟩
      rcases Finset.mem_insert.1 hu with rfl | hu
      · exact hi.certificates.acks u i _ _ hgot.2.2
      · exact hcounted u hu
    · exact hi
  · exact hi

end

/-! ## Commits -/

section

variable (hi : sys.MemberInv w)

include hi

theorem MemberInv.certified_of_quorum (hagree : CatalogsAgree w.committed)
    (hround : round ∈ w.cat.rounds i) {S : Finset NodeId}
    (hS : round.prepared = some S)
    (hquorum : hasJointQuorum S round.voterSets.1 round.voterSets.2 = true) :
    sys.CertifiedTo w.committed w.cat.accepted round.proposal.term
      round.proposal.catalog.version := by
  obtain ⟨hstep, ⟨b, hb, hsets, hle, hto⟩, htally⟩ := hi.certificates.rounds i round hround
  rcases Nat.lt_or_ge b.version round.proposal.catalog.version with hlt | hge
  · have hver : round.proposal.catalog.version = b.version + 1 := by omega
    have hvoters := hi.lineage.step_of_succ hagree hb hstep.descended hver
    have hjoint := joint_of_hasJointQuorum hquorum
    rw [Prod.mk.eta, hsets] at hjoint
    rw [hver]
    exact hto.succ ⟨_, le_rfl, b, hb, rfl, S, joint_of_proposalVoterSets hvoters hjoint,
      hver ▸ (htally S hS).2⟩
  · exact fun m hm hmle => hto m hm (hmle.trans hge)

theorem MemberInv.commitPrepared {n : Nat}
    {s' : CatalogStore} (hbehind : Behind w i t)
    (hto : sys.CertifiedTo w.committed w.cat.accepted t n)
    (hc : (w.cat.stores i).commitPrepared t n = .ok s') :
    sys.MemberInv
      { w with cat := w.cat.setStore i s', committed := s'.inner :: w.committed } := by
  rcases CatalogStore.commitPrepared_leaves (fun q hq => hi.lineage.next_version hq) hc with
    rfl | ⟨hs, q, hq, rfl, rfl, hinner⟩
  · rw [CatalogNet.setStore, update_eq_self]
    exact hi.remember i
  · have hdesc : sys.Descended w.committed s'.inner :=
      hinner ▸ (hi.lineage.prepared i q hq).descended
    refine (hi.learn hdesc).commits ((hi.lineage.sound i).commitPrepared hc) hs
      List.mem_cons_self hbehind ?_
    rw [hinner]
    exact hto.mono (List.subset_cons_self _ _) (List.Subset.refl _) le_rfl

theorem MemberInv.commitRound (hagree : CatalogsAgree w.committed)
    (i : NodeId) (round : Round) :
    sys.MemberInv (sys.memberStep w (.catalog (.commitRound i round))) := by
  simp only [memberStep, memberStepRaw, step, MemberAct.actor, CatalogAct.actor]
  split
  · rename_i S hS
    split_ifs with hquorum
    · have hr := hi.certificates.rounds i round hquorum.1
      have hto := hi.certified_of_quorum hagree hquorum.1 hS hquorum.2
      split
      · rename_i s' hcommit
        have hstored := hi.commitPrepared (hr.tallied S hS).1 hto hcommit
        have hsub : w.committed ⊆ s'.inner :: w.committed := List.subset_cons_self _ _
        have hto' : sys.CertifiedTo (s'.inner :: w.committed) w.cat.accepted round.proposal.term
            round.proposal.catalog.version := hto.mono hsub (List.Subset.refl _) le_rfl
        have hinstall := hstored.say (m := .install i round.proposal.term round.proposal.catalog)
          ⟨hr.stepped.descended.mono hsub, hto'⟩
        have hbroadcast := hinstall.say
          (m := .commit i round.proposal.term round.proposal.catalog.version) hto'
        have hround := hbroadcast.dropRound i round
        simp only [CatalogNet.setRound, CatalogNet.setStore, update_self]
        exact { hround with
          lineage := { hround.lineage with }
          certificates :=
            { hround.certificates with
              rounds := fun j r h => { hround.certificates.rounds j r h with } }
          campaigns := { hround.campaigns with } }
      · exact (hi.dropRound i round).remember i
    · exact hi.remember i
  · exact hi.remember i

theorem MemberInv.recvCommit {i leader : NodeId} {t n : Nat}
    (hauth : authorizeCatalogLeader (w.cat.net.nodes i) leader t = .ok ()) :
    sys.MemberInv (sys.memberStep w (.catalog (.recvCommit i leader t n))) := by
  simp only [memberStep, memberStepRaw, step, MemberAct.actor, CatalogAct.actor]
  split_ifs with hmail
  · split
    · rename_i s' hcommit
      have hbehind := (hi.behind_of_authorized hauth).2.2
      have hstored := hi.commitPrepared hbehind (hi.certificates.commits leader t n hmail.1) hcommit
      simp only [CatalogNet.setStore, update_self]
      exact hstored
    · exact hi.remember i
  · exact hi.remember i

theorem MemberInv.repairMembers (i : NodeId) :
    sys.MemberInv { w with cat := sys.step w.cat (.repairMembers i) } := by
  simp only [step]
  split
  · obtain ⟨t, hbehind, hto⟩ := hi.certificates.inner i
    refine hi.say (m := .install i (w.cat.net.nodes i).term (w.cat.stores i).snapshot) ⟨?_, ?_⟩
    · exact (hi.lineage.descended _ (hi.lineage.inner i)).1
    · exact hto.mono (List.Subset.refl _) (List.Subset.refl _) hbehind.1
  · exact hi

theorem MemberInv.recvInstall {i leader : NodeId} {t : Nat} {v : Catalog}
    (hauth : authorizeCatalogLeader (w.cat.net.nodes i) leader t = .ok ()) :
    sys.MemberInv (sys.memberStep w (.catalog (.recvInstall i leader t v))) := by
  simp only [memberStep, memberStepRaw, step, MemberAct.actor, CatalogAct.actor]
  split_ifs with hmail
  · split
    · rename_i s' hinstall
      simp only [CatalogNet.setStore, update_self]
      rcases CatalogStore.installCommitted_leaves hinstall with rfl | ⟨hs, rfl⟩
      · rw [update_eq_self]
        exact hi.remember i
      · obtain ⟨hdesc, hto⟩ := hi.certificates.installs leader t _ hmail.1
        exact (hi.learn hdesc).commits ((hi.lineage.sound i).installCommitted hinstall) hs
          List.mem_cons_self (hi.behind_of_authorized hauth).2.2
          (hto.mono (List.subset_cons_self _ _) (List.Subset.refl _) le_rfl)
    · exact hi.remember i
  · exact hi.remember i

end

/-! ## Every run -/

/-- What this layer needs of a step: the node's term stays clear of the end of its
    range, it stands or votes with the voters and the position of its present
    catalog, prepares a proposal of its own only while it still leads the proposal's
    term, and carries out another's command only while it would still authorize it. -/
def StillLeads (sys : CatalogSystem) (w : MemberNet) (a : MemberAct) : Prop :=
  (w.cat.net.nodes a.actor).term + 1 < u64Size ∧
    match a with
    | .catalog (.election a) =>
      ∀ p ∈ a.catalogPosition,
        p = sys.position w.cat a.actor ∧ w.refreshed a.actor = (w.cat.stores a.actor).inner
    | .catalog (.prepareLocal i round) =>
      (w.cat.net.nodes i).isLeader ∧ (w.cat.net.nodes i).term = round.proposal.term
    | .catalog (.recvPrepare i leader p) =>
      authorizeCatalogLeader (w.cat.net.nodes i) leader p.term = .ok ()
    | .catalog (.recvCommit i leader term _) | .catalog (.recvInstall i leader term _) =>
      authorizeCatalogLeader (w.cat.net.nodes i) leader term = .ok ()
    | _ => True

instance (sys : CatalogSystem) (w : MemberNet) (a : MemberAct) :
    Decidable (sys.StillLeads w a) := by
  unfold StillLeads
  split <;> infer_instance

variable {a : MemberAct} {acts : List MemberAct}

theorem MemberInv.step (hi : sys.MemberInv w) (hagree : CatalogsAgree w.committed)
    (hok : sys.StillLeads w a) : sys.MemberInv (sys.memberStep w a) := by
  obtain ⟨hfits, hleads⟩ := hok
  cases a with
  | refresh i now => exact (hi.refreshVoters hfits now).1.remember i
  | catalog a =>
    cases a with
    | election a =>
      by_cases hrefresh : ∃ i, a = .refreshVoters i
      · obtain ⟨i, rfl⟩ := hrefresh
        exact hi.remember i
      · have hstep := hi.electionStep (a := a) hfits (fun i h => hrefresh ⟨i, h⟩) hleads
        cases a with
        | refreshVoters i => exact absurd ⟨i, rfl⟩ hrefresh
        | _ => exact hstep.remember _
    | readPosition i =>
      exact (hi.forget _ _ (fun _ => List.Subset.refl _) fun _ => List.Subset.refl _).remember i
    | propose i n change => exact (hi.propose i n change).remember i
    | recoverPrepared i => exact (hi.recoverPrepared i).remember i
    | republishCommitted i => exact (hi.republishCommitted i).remember i
    | beginRound i p => exact (hi.beginRound i p).remember i
    | prepareLocal i round => exact (hi.prepareLocal hleads.1 hleads.2).remember i
    | authorize i m => exact (hi.authorize i m).remember i
    | recvPrepare i leader p => exact (hi.recvPrepare hleads).remember i
    | recvPrepared i voter round => exact (hi.recvPrepared i voter round).remember i
    | commitRound i round => exact hi.commitRound hagree i round
    | recvCommit i leader t n => exact hi.recvCommit hleads
    | repairMembers i => exact (hi.repairMembers i).remember i
    | recvInstall i leader t v => exact hi.recvInstall hleads

theorem memberInv_init (sys : CatalogSystem) : sys.MemberInv sys.memberInit := by
  have helection := init_inv sys.voters
  have hvoid : ∀ t, sys.CertifiedTo [sys.initial] [] t sys.initial.version :=
    fun t m hm hle => absurd hle (not_le.2 hm)
  have hrole : ∀ i, (sys.voters.init.nodes i).role ≠ .candidate := by
    intro i
    simp [VoterConfiguration.init, VoterConfiguration.boot, Election.setVoterConfiguration,
      if_neg sys.voters.not_refused, Election.start]
  exact
    { synced := helection.wf.synced
      cfg := helection.wf.cfg
      office := helection.office
      lineage :=
        { sound := fun _ => ⟨rfl, rfl, sys.initial_valid, fun _ hq => (by cases hq)⟩
          inner := fun _ => List.mem_cons_self
          descended := fun v hv => by
            obtain rfl := List.mem_singleton.1 hv
            exact ⟨.inl rfl, le_rfl⟩
          prepared := fun _ _ hq => (by cases hq)
          mailed := fun _ _ hm => (List.not_mem_nil hm).elim
          proposals := fun _ _ hp => (List.not_mem_nil hp).elim }
      certificates :=
        { clock := fun _ ha => (List.not_mem_nil ha).elim
          latest := fun _ ha => (List.not_mem_nil ha).elim
          acks := fun _ _ _ _ hm => (List.not_mem_nil hm).elim
          commits := fun _ _ _ hm => (List.not_mem_nil hm).elim
          installs := fun _ _ _ hm => (List.not_mem_nil hm).elim
          rounds := fun _ _ hr => (List.not_mem_nil hr).elim
          inner := fun i => ⟨0, ⟨Nat.zero_le _, fun hcand => absurd hcand (hrole i)⟩, hvoid 0⟩ }
      campaigns :=
        { refreshed := fun i => ⟨List.mem_cons_self,
            sys.initial_voterSets.trans
              (congrArg₂ Prod.mk (helection.wf.current i) (helection.wf.next i)).symm, le_rfl⟩
          asked := fun _ _ _ hsent => (List.not_mem_nil hsent).elim
          carried := fun _ _ _ ha => (List.not_mem_nil ha).elim
          vouched := fun _ _ _ hb => (List.not_mem_nil hb).elim
          elected := fun _ _ he => (List.not_mem_nil he).elim } }

/-! ## History -/

theorem elected_subset_refreshVoters (sys : CatalogSystem) (w : MemberNet) (i : NodeId)
    (now : Instant) : w.cat.net.elected ⊆ (sys.refreshVoters w i now).cat.net.elected ∧
      (sys.refreshVoters w i now).committed = w.committed := by
  simp only [refreshVoters]
  cases (w.cat.net.nodes i).setVoterConfiguration (w.cat.stores i).snapshot.voterSets.1
      (w.cat.stores i).snapshot.voterSets.2 with
  | mk e res =>
    cases res with
    | error err => exact ⟨List.Subset.refl _, rfl⟩
    | ok u =>
      refine ⟨?_, rfl⟩
      simp only
      split_ifs <;> exact List.Subset.refl _

theorem elected_subset_step (c : VoterConfiguration) (net : Net) (a : Act) :
    net.elected ⊆ (c.step net a).elected := by
  have hperform : ∀ {u : Net} {i : NodeId} {d : Durability} {res : Except Error (Option Action)},
      u.elected ⊆ (u.perform i d res).elected := by
    intro u i d res
    unfold Net.perform
    split
    · exact List.Subset.refl _
    · exact List.subset_cons_self _ _
    · exact List.Subset.refl _
  cases a with
  | tick i now d io | recvVoteReply i voter reply now io =>
    simp only [VoterConfiguration.step]
    split_ifs
    · exact fun x hx => hperform hx
    · exact List.Subset.refl _
  | _ =>
    simp only [VoterConfiguration.step]
    repeat' split
    all_goals exact List.Subset.refl _

theorem history_subset (sys : CatalogSystem) (w : MemberNet) (a : MemberAct) :
    w.cat.net.elected ⊆ (sys.memberStep w a).cat.net.elected ∧
      w.committed ⊆ (sys.memberStep w a).committed := by
  have hraw : w.cat.net.elected ⊆ (sys.memberStepRaw w a).cat.net.elected ∧
      (sys.memberStepRaw w a).committed = w.committed := by
    have helection : ∀ b : Act, w.cat.net.elected ⊆ (sys.electionStep w b).cat.net.elected ∧
        (sys.electionStep w b).committed = w.committed := by
      intro b
      have hread : w.cat.net.elected ⊆ (sys.startVoters w b).cat.net.elected ∧
          (sys.startVoters w b).committed = w.committed := by
        cases b with
        | restart i now => exact elected_subset_refreshVoters sys w i now
        | _ => exact ⟨List.Subset.refl _, rfl⟩
      simp only [electionStep]
      split_ifs
      · refine ⟨?_, hread.2⟩
        rw [(restarted_eq _ b).1]
        exact fun x hx => elected_subset_step _ _ _ (hread.1 hx)
      · exact hread
    cases a with
    | refresh i now => exact elected_subset_refreshVoters sys w i now
    | catalog a =>
      cases a with
      | election b =>
        cases b with
        | refreshVoters i => exact ⟨List.Subset.refl _, rfl⟩
        | _ => exact helection _
      | propose i n change =>
        refine ⟨?_, rfl⟩
        simp only [memberStepRaw, proposeStep]
        repeat' split
        all_goals exact List.Subset.refl _
      | _ =>
        refine ⟨?_, rfl⟩
        simp only [memberStepRaw, step]
        repeat' split
        all_goals exact List.Subset.refl _
  refine ⟨hraw.1, fun v hv => List.mem_cons_of_mem _ ?_⟩
  rw [hraw.2]
  exact hv

theorem CatalogsAgree.of_step (h : CatalogsAgree (sys.memberStep w a).committed) :
    CatalogsAgree w.committed :=
  fun u hu v hv => h u ((history_subset sys w a).2 hu) v ((history_subset sys w a).2 hv)

/-- From a state of the invariant, a run keeps it, and forgets no leader. -/
theorem MemberInv.run (hi : sys.MemberInv w) (hok : Machine.Meets sys.memberStep sys.StillLeads w acts)
    (hagree : CatalogsAgree (Machine.run sys.memberStep w acts).committed) :
    sys.MemberInv (Machine.run sys.memberStep w acts) ∧
      w.cat.net.elected ⊆ (Machine.run sys.memberStep w acts).cat.net.elected := by
  have hback : ∀ w a, CatalogsAgree (sys.memberStep w a).committed → CatalogsAgree w.committed :=
    fun _ _ h => h.of_step
  refine Machine.invariant_run sys.memberStep
    (I := fun w' => sys.MemberInv w' ∧ w.cat.net.elected ⊆ w'.cat.net.elected) ?_
    ⟨hi, List.Subset.refl _⟩
    (Machine.Meets.and_of_final sys.memberStep (R := fun w => CatalogsAgree w.committed) hback hok
      hagree)
  rintro w' a ⟨hok, hagree⟩ ⟨hi, hsub⟩
  exact ⟨hi.step hagree.of_step hok, fun x hx => (history_subset sys w' a).1 (hsub hx)⟩

/-! ## One leader a term -/

/-- At some point of the run, `i` is leader in `t`. -/
def MemberLedIn (sys : CatalogSystem) (acts : List MemberAct) (i : NodeId) (t : Nat) : Prop :=
  ∃ p, p <+: acts ∧ ((sys.memberRuns p).cat.net.nodes i).isLeader = true ∧
    ((sys.memberRuns p).cat.net.nodes i).term = t

theorem MemberLedIn.elected (hok : Machine.Meets sys.memberStep sys.StillLeads sys.memberInit acts)
    (hagree : CatalogsAgree (sys.memberRuns acts).committed) (h : sys.MemberLedIn acts i t) :
    (i, t) ∈ (sys.memberRuns acts).cat.net.elected := by
  obtain ⟨p, ⟨rest, rfl⟩, hlead, rfl⟩ := h
  rw [memberRuns, Machine.run_append] at hagree ⊢
  have hback : ∀ w acts, CatalogsAgree (Machine.run sys.memberStep w acts).committed →
      CatalogsAgree w.committed := by
    intro w acts
    induction acts generalizing w with
    | nil => exact id
    | cons a acts ih => exact fun h => (ih _ h).of_step
  have hmid := ((memberInv_init sys).run (Machine.Meets.of_append _ hok) (hback _ _ hagree)).1
  have hel := hmid.office.leads i (of_decide_eq_true hlead)
  exact (hmid.run (Machine.Meets.drop _ hok) hagree).2 hel

/-- **Election safety across voter changes.**  However elections, voter changes
    and the arrival of their commits interleave, if committed catalogs of one
    version agree, nodes stand and vote by their present catalog, every proposal is
    prepared by its proposer while it still leads, and every other node carries out
    its commands while it still recognises it, at most one node ever becomes leader
    in a term. -/
theorem one_leader_per_term (acts : List MemberAct)
    (hok : Machine.Meets sys.memberStep sys.StillLeads sys.memberInit acts)
    (hagree : CatalogsAgree (sys.memberRuns acts).committed) (i j : NodeId) (t : Nat)
    (hi : sys.MemberLedIn acts i t) (hj : sys.MemberLedIn acts j t) : i = j :=
  ((memberInv_init sys).run hok hagree).1.elected_unique hagree (hi.elected hok hagree)
    (hj.elected hok hagree)

/-! ## Moving the voters -/

/-- Nodes 1, 2 and 3 vote; 4 and 5 hold data. -/
def fiveMemberCatalog : Catalog :=
  { threeVoterCatalog with
    members := .ofList [(1, ⟨1, 1, "a", .voter, .active, 1, none⟩),
      (2, ⟨2, 1, "b", .voter, .active, 1, none⟩), (3, ⟨3, 1, "c", .voter, .active, 1, none⟩),
      (4, ⟨4, 1, "d", .storage, .active, 1, none⟩), (5, ⟨5, 1, "e", .storage, .active, 1, none⟩)] }

/-- The version stands in for the digest: these runs have one catalog a version. -/
def fiveMemberSystem : CatalogSystem where
  voters := threeVoters
  digest c := c.version
  initial := fiveMemberCatalog
  initial_valid := by decide +kernel
  initial_voterSets := by decide +kernel
  initial_version := by decide

def jointCatalog : Catalog :=
  { fiveMemberCatalog with version := 2, voterTransition := some ⟨{1, 2, 3}, {1, 4, 5}⟩ }

def movedCatalog : Catalog :=
  { fiveMemberCatalog with
    version := 3
    members := .ofList [(1, ⟨1, 1, "a", .voter, .active, 1, none⟩),
      (2, ⟨2, 1, "b", .storage, .active, 1, none⟩), (3, ⟨3, 1, "c", .storage, .active, 1, none⟩),
      (4, ⟨4, 1, "d", .voter, .active, 1, none⟩), (5, ⟨5, 1, "e", .voter, .active, 1, none⟩)] }

/-- `leader` takes `term` with the vote of `follower`; their catalogs are at
    `ahead` and `behind`. -/
def winTerm (leader follower : NodeId) (term : Nat) (now : Instant)
    (ahead behind : CatalogPosition) : List MemberAct :=
  .refresh leader now :: .refresh follower now ::
    [.readPosition leader, .readPosition follower,
      .election (.tick leader now { catalog := ahead } {}),
      .election (.recvVoteRequest follower ⟨term, leader, { catalog := ahead }⟩ now
        { catalog := behind } {}),
      .election (.recvVoteReply leader follower ⟨term, true, ""⟩ now {})].map .catalog

/-- Everybody else hears of node 1's leadership of term 1. -/
def heardByAll : List MemberAct :=
  (.beat 1 1 ⟨1, .empty⟩ :: [2, 3, 4, 5].map fun i =>
    .recvHeartbeat i ⟨1, 1, ⟨1, .empty⟩⟩ 3000000000 false [] {}).map (.catalog ∘ .election)

/-- A round of node 1 in term 1, counted by both voter sets. -/
def moveRound (p : CatalogProposal) (prepared : Option (Finset NodeId)) : Round :=
  ⟨p, ({1, 2, 3}, some {1, 4, 5}), prepared⟩

/-- Node 1 prepares `p`, as do the nodes of `peers`; with the answers of nodes 3
    and 4 it commits it, and the nodes of `told` hear of that. -/
def finishRound (p : CatalogProposal) (peers told : List NodeId) : List CatalogAct :=
  List.flatten
    [[.prepareLocal 1 (moveRound p none)],
     peers.flatMap fun i => [.authorize i (.prepare 1 p), .recvPrepare i 1 p],
     [.recvPrepared 1 3 (moveRound p (some {1})), .recvPrepared 1 4 (moveRound p (some {3, 1})),
      .commitRound 1 (moveRound p (some {4, 3, 1}))],
     told.flatMap fun i => [.authorize i (.commit 1 p.term p.catalog.version),
       .recvCommit i 1 p.term p.catalog.version]]

def jointProposal : CatalogProposal := ⟨1, 1, jointCatalog⟩

def movedProposal : CatalogProposal := ⟨1, 2, movedCatalog⟩

/-- Node 1 enters joint consensus; node 2 prepares that and misses the commit. -/
def enterJoint : List MemberAct :=
  (.propose 1 1 (·.beginVoterChange {1, 4, 5}) :: .beginRound 1 jointProposal ::
    finishRound jointProposal [2, 3, 4, 5] [3, 4, 5]).map .catalog

/-- Node 1 sets out to leave joint consensus. -/
def startLeaving : List MemberAct :=
  [.propose 1 2 (·.finalizeVoterChange), .beginRound 1 movedProposal].map .catalog

def finishLeaving : List MemberAct :=
  (finishRound movedProposal [3, 4, 5] [4, 5]).map .catalog

/-- The voters move from 1, 2, 3 to 1, 4, 5, and node 4 takes the next term with
    the vote of node 5. -/
def votersMove : List MemberAct :=
  List.flatten [winTerm 1 2 1 3000000000 ⟨1, 1⟩ ⟨1, 1⟩, heardByAll, enterJoint, startLeaving,
    finishLeaving, winTerm 4 5 2 9000000000 ⟨3, 3⟩ ⟨3, 3⟩]

/-- Nobody but node 4 leads term 2 of that run. -/
theorem votersMove_led_by_one :
    fiveMemberSystem.MemberLedIn votersMove 4 2 ∧
      ∀ j, fiveMemberSystem.MemberLedIn votersMove j 2 → 4 = j := by
  have hled : fiveMemberSystem.MemberLedIn votersMove 4 2 :=
    ⟨votersMove, List.prefix_refl _, by decide +kernel, by decide +kernel⟩
  exact ⟨hled, fun j hj =>
    one_leader_per_term votersMove (by decide +kernel) (by decide +kernel) 4 j 2 hled hj⟩

/-- Between node 1's check that it leads and its own prepare of the last step,
    node 2, which still counts by the old voters, takes term 2 with node 1's vote.
    Node 1 then prepares and commits the end of the voter change in term 1, and
    node 4 takes term 2 with the vote of node 5. -/
def deposedMove : List MemberAct :=
  List.flatten [winTerm 1 2 1 3000000000 ⟨1, 1⟩ ⟨1, 1⟩, heardByAll, enterJoint, startLeaving,
    winTerm 2 1 2 9000000000 ⟨2, 2⟩ ⟨2, 2⟩, finishLeaving, winTerm 4 5 2 9000000000 ⟨3, 3⟩ ⟨3, 3⟩]

/-- Nodes 2 and 4 both lead term 2, though committed catalogs agree. -/
theorem deposedMove_two_leaders :
    CatalogsAgree (fiveMemberSystem.memberRuns deposedMove).committed ∧
      fiveMemberSystem.MemberLedIn deposedMove 2 2 ∧
      fiveMemberSystem.MemberLedIn deposedMove 4 2 :=
  ⟨by decide +kernel, ⟨deposedMove, List.prefix_refl _, by decide +kernel, by decide +kernel⟩,
    ⟨deposedMove, List.prefix_refl _, by decide +kernel, by decide +kernel⟩⟩

end CatalogSystem

end Shardlite.Cluster
