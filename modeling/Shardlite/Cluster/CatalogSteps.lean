/-
  Shardlite.Cluster.CatalogSteps

  Every step of a cluster of catalog rounds keeps the invariant, as long as a
  leader recovers what it had prepared before it prepares a proposal of its own.
-/
import Shardlite.Cluster.CatalogRounds

namespace Shardlite.Cluster

open Function

/-! ## One step -/

/-- Whatever a node reports in an election carries the position of its store, if
    that is what it stands or votes with. -/
theorem Act.reports_of_current {a : Act} {position : CatalogPosition}
    (h : ∀ p ∈ a.catalogPosition, p = position) : ∃ d, a.Reports d ∧ d.catalog = position := by
  cases a with
  | tick i now d io | recvVoteRequest i req now d io => exact ⟨d, rfl, h _ rfl⟩
  | _ => exact ⟨{ catalog := position }, trivial, rfl⟩

namespace CatalogSystem

/-- What this layer needs of a step.  Terms stay clear of the end of their range,
    and a node stands or votes with the present position of its store; it prepares a
    proposal of its own only while it leads the proposal's term, and only if whatever
    it still has prepared from an earlier term is the very value proposed; and it
    prepares another's only while it would still authorize it. -/
def RecoversFirst (sys : CatalogSystem) (w : CatalogNet) : CatalogAct → Prop
  | .election a => (w.net.nodes a.actor).term + 1 < u64Size ∧
    ∀ p ∈ a.catalogPosition, p = sys.position w a.actor
  | .prepareLocal i round =>
    (w.net.nodes i).isLeader ∧ (w.net.nodes i).term = round.proposal.term ∧
      ∀ q ∈ (w.stores i).prepared, q.term < round.proposal.term →
        q.catalog = round.proposal.catalog
  | .recvPrepare i leader p => authorizeCatalogLeader (w.net.nodes i) leader p.term = .ok ()
  | _ => True

instance (sys : CatalogSystem) (w : CatalogNet) (a : CatalogAct) :
    Decidable (sys.RecoversFirst w a) := by
  unfold RecoversFirst
  split <;> infer_instance

variable {sys : CatalogSystem} {w : CatalogNet}

/-! ### Stores -/
variable {stores : NodeId → CatalogStore} {mail : List CatalogMsg}
    {derived : List (Catalog × Catalog)} {proposals : NodeId → List CatalogProposal}
    {rounds : NodeId → List Round} {i : NodeId} {s : CatalogStore} {p : CatalogProposal}

theorem Records.setStore (hr : sys.Records stores mail derived proposals rounds)
    (hs : s.Sound) (hinner : sys.Known derived s.inner)
    (hprep : ∀ q, s.prepared = some q → sys.WellBuilt derived q) :
    sys.Records (update stores i s) mail derived proposals rounds :=
  { hr with
    sound := by
      intro j
      rw [update_apply]
      split_ifs
      · exact hs
      · exact hr.sound j
    inner := by
      intro j
      rw [update_apply]
      split_ifs
      · exact hinner
      · exact hr.inner j
    prepared := by
      intro j q hq
      rw [update_apply] at hq
      split_ifs at hq
      · exact hprep q hq
      · exact hr.prepared j q hq }

theorem Inv.commits (hi : sys.Inv w) (hsound : s.Sound)
    (hs : (w.stores i).Commits s) (hset : sys.Settled w.net w.accepted s.inner) :
    sys.Inv (w.setStore i s) where
  election := hi.election
  records := hi.records.setStore hsound (hset.known hi.records hi.accepting) (by
    rw [hs.cleared]
    nofun)
  accepting := hi.accepting.commits hs
  leading := hi.leading.commits hs
  deciding :=
    { hi.deciding with
      inner := by
        intro j
        show sys.Settled w.net w.accepted ((update w.stores i s) j).inner
        rw [update_apply]
        split_ifs
        · exact hset
        · exact hi.deciding.inner j }

/-! ### Elections -/

theorem Inv.elect (hi : sys.Inv w) {a : Act} (hok : sys.RecoversFirst w (.election a)) :
    sys.Inv { w with net := sys.voters.step w.net a } := by
  obtain ⟨hfits, hcurrent⟩ := hok
  obtain ⟨d, hrep, hd⟩ := Act.reports_of_current hcurrent
  have heff := step_effect hi.election.wf a hrep
  have hadv : (sys.box w.net w.accepted).Advances _ := advances_of_grows heff.grows
  exact
    { election := heff.inv hi.election
      records := hi.records
      accepting := hi.accepting.elect heff.grows
      leading := hi.leading.elect hi.accepting hi.records hi.election heff hfits hd
      deciding := hi.deciding.advance hadv (List.Subset.refl _) }

/-- Nothing rests on what a node has in memory. -/
theorem Inv.forget (hi : sys.Inv w) (authorized : NodeId → List CatalogMsg)
    (read : NodeId → List CatalogPosition) (hp : ∀ i, proposals i ⊆ w.proposals i)
    (hr : ∀ i, rounds i ⊆ w.rounds i) :
    sys.Inv { w with proposals, rounds, authorized, read } :=
  { hi with
    records :=
      { hi.records with
        proposals := fun i p h => hi.records.proposals i p (hp i h)
        rounds := fun i r h => hi.records.rounds i r (hr i h) }
    deciding := { hi.deciding with rounds := fun i r h => hi.deciding.rounds i r (hr i h) } }

/-- A restart drops what the node was at. -/
theorem update_nil_subset {α : Type} (f : NodeId → List α) (i j : NodeId) :
    update f i [] j ⊆ f j := by
  rw [update_apply]
  split_ifs
  · exact List.nil_subset _
  · exact List.Subset.refl _

theorem Inv.restarted (hi : sys.Inv w) (a : Act) : sys.Inv (w.restarted a) := by
  cases a with
  | restart i now =>
    simp only [CatalogNet.restarted, (hi.records.sound i).openFiles_eq, update_eq_self]
    exact hi.forget _ _ (update_nil_subset w.proposals i) (update_nil_subset w.rounds i)
  | _ => exact hi

/-! ### Rounds -/

section

variable (hi : sys.Inv w)

include hi

theorem Inv.addProposal (hp : sys.WellBuilt w.derived p) :
    sys.Inv { w with proposals := update w.proposals i (p :: w.proposals i) } :=
  { hi with
    records :=
      { hi.records with
        proposals := by
          intro j q hq
          simp only [update_apply] at hq
          split_ifs at hq with hj
          · rcases List.mem_cons.1 hq with rfl | hq
            · exact hp
            · exact hi.records.proposals i q hq
          · exact hi.records.proposals j q hq } }

/-- A value built from a settled one joins the run's values. -/
theorem Inv.derive {b v : Catalog} (hb : sys.Settled w.net w.accepted b)
    (hver : v.version = b.version + 1)
    (hsets : v.voterSets = (sys.voters.current, sys.voters.next)) :
    sys.Inv { w with derived := (b, v) :: w.derived } := by
  have hsub : w.derived ⊆ (b, v) :: w.derived := List.subset_cons_self _ _
  have hle := hi.records.version_of_known (hb.known hi.records hi.accepting)
  exact
    { hi with
      records :=
        { sound := hi.records.sound
          inner := fun i => (hi.records.inner i).mono hsub
          prepared := fun i q hq => (hi.records.prepared i q hq).mono hsub
          proposals := fun i p hp => (hi.records.proposals i p hp).mono hsub
          rounds := fun i r hr =>
            ⟨(hi.records.rounds i r hr).1.mono hsub, (hi.records.rounds i r hr).2⟩
          mailed := fun l p hp => (hi.records.mailed l p hp).mono hsub
          derived := by
            intro b' v' h
            rcases List.mem_cons.1 h with heq | h
            · obtain ⟨rfl, rfl⟩ := Prod.mk.inj heq
              exact ⟨hver, hle, hsets⟩
            · exact hi.records.derived b' v' h }
      deciding :=
        { hi.deciding with
          derived := by
            intro b' v' h
            rcases List.mem_cons.1 h with heq | h
            · obtain ⟨rfl, rfl⟩ := Prod.mk.inj heq
              exact hb
            · exact hi.deciding.derived b' v' h } }

theorem Inv.propose (i : NodeId) (expectedVersion : Nat)
    (change : Catalog → Except Error Catalog) :
    sys.Inv (sys.step w (.propose i expectedVersion change)) := by
  simp only [step]
  split
  · rename_i changed p _ hchange hprop
    split_ifs with hkeep
    · obtain ⟨next, version, hnext, hsucc, hexp, rfl⟩ := CatalogStore.propose_eq_ok hprop
      obtain rfl : changed = next := Except.ok.inj (hchange.symm.trans hnext)
      obtain ⟨hver, hsets⟩ := of_decide_eq_true hkeep
      have hversion : version = (w.stores i).inner.version + 1 := by
        rw [checkedSucc_eq_some hsucc, hver]
      have hvoters : changed.voterSets = (sys.voters.current, sys.voters.next) :=
        hsets.trans (hi.records.voterSets_of_known (hi.records.inner i))
      refine (hi.derive (hi.deciding.inner i) (v := { changed with version }) hversion
        hvoters).addProposal ⟨?_, .inr ⟨_, List.mem_cons_self⟩⟩
      show version = expectedVersion + 1
      rw [hversion, hexp]
    · exact hi
  · exact hi

theorem Inv.recoverPrepared (i : NodeId) :
    sys.Inv (sys.step w (.recoverPrepared i)) := by
  simp only [step]
  split
  · rename_i q _ hq
    have hwell := hi.records.prepared i q hq
    exact hi.addProposal ⟨hwell.version, hwell.known⟩
  · exact hi

theorem Inv.republishCommitted (i : NodeId) :
    sys.Inv (sys.step w (.republishCommitted i)) := by
  simp only [step]
  split
  · have hknown := hi.records.inner i
    have hpos := le_trans sys.initial_version (hi.records.version_of_known hknown)
    refine hi.addProposal ⟨?_, hknown⟩
    show (w.stores i).inner.version = (w.stores i).inner.version - 1 + 1
    omega
  · exact hi

end

theorem Records.proposalVoterSets_eq (hr : sys.Records stores mail derived proposals rounds)
    {current : Catalog} (hcur : sys.Known derived current)
    (hp : sys.Known derived p.catalog) :
    proposalVoterSets current p = (sys.voters.current, sys.voters.next) := by
  have hsets := hr.voterSets_of_known hcur
  have hsets' := hr.voterSets_of_known hp
  unfold proposalVoterSets
  split
  · -- entering a transition would show in the value's voter sets
    rename_i transition hnone hsome
    rw [← hsets']
    simp only [Catalog.voterSets, hsome]
  · exact hsets

structure RoundOk (sys : CatalogSystem) (w : CatalogNet) (i : NodeId) (r : Round) : Prop where
  built : sys.WellBuilt w.derived r.proposal
  voterSets : r.voterSets = (sys.voters.current, sys.voters.next)
  counted : ∀ S, r.prepared = some S → .prepare i r.proposal ∈ w.mail ∧
    ∀ u ∈ S, ⟨u, r.proposal.term, r.proposal.catalog⟩ ∈ w.accepted

section

variable (hi : sys.Inv w)

include hi

theorem Inv.roundOk {r : Round} (hr : r ∈ w.rounds i) :
    sys.RoundOk w i r :=
  ⟨(hi.records.rounds i r hr).1, (hi.records.rounds i r hr).2, hi.deciding.rounds i r hr⟩

theorem Inv.setRounds {rs : List Round} (hrs : ∀ r ∈ rs, sys.RoundOk w i r) :
    sys.Inv { w with rounds := update w.rounds i rs } := by
  have hall : ∀ j, ∀ r ∈ update w.rounds i rs j, sys.RoundOk w j r := by
    intro j r hr
    rw [update_apply] at hr
    split_ifs at hr with hj
    · exact hj ▸ hrs r hr
    · exact hi.roundOk hr
  exact
    { hi with
      records :=
        { hi.records with rounds := fun j r hr => ⟨(hall j r hr).built, (hall j r hr).voterSets⟩ }
      deciding := { hi.deciding with rounds := fun j r hr => (hall j r hr).counted } }

theorem Inv.setRound (round : Round) {next : List Round}
    (hnext : ∀ r ∈ next, sys.RoundOk w i r) : sys.Inv (w.setRound i round next) := by
  refine hi.setRounds fun r hr => ?_
  rcases List.mem_append.1 hr with hr | hr
  · exact hnext r hr
  · exact hi.roundOk (List.mem_of_mem_erase hr)

theorem Inv.dropRound (i : NodeId) (round : Round) :
    sys.Inv (w.setRound i round []) :=
  hi.setRound round nofun

theorem Inv.beginRound (i : NodeId) (p : CatalogProposal) :
    sys.Inv (sys.step w (.beginRound i p)) := by
  simp only [step]
  split
  · split_ifs with hp
    · have hwell := hi.records.proposals i p hp.1
      refine hi.setRounds fun r hr => ?_
      rcases List.mem_cons.1 hr with rfl | hr
      · exact ⟨hwell, hi.records.proposalVoterSets_eq (hi.records.inner i) hwell.known, nofun⟩
      · exact hi.roundOk hr
    · exact hi
  · exact hi

end

/-! ### Messages -/

/-- What a message that is not a proposal must be backed by. -/
def Backed (sys : CatalogSystem) (w : CatalogNet) : CatalogMsg → Prop
  | .prepare .. => False
  | .prepared u _ t n => ∃ v, ⟨u, t, v⟩ ∈ w.accepted ∧ v.version = n
  | .commit _ t n => ∃ v, (sys.box w.net w.accepted).Chosen t v ∧ v.version = n
  | .install _ _ v => sys.Settled w.net w.accepted v

variable {s' : CatalogStore} {leader : NodeId} {term : Nat}

theorem Inv.say (hi : sys.Inv w) {m : CatalogMsg} (hm : sys.Backed w m) :
    sys.Inv { w with mail := m :: w.mail } := by
  have hprep : ∀ {l p}, .prepare l p ∈ m :: w.mail → .prepare l p ∈ w.mail := by
    intro l p h
    rcases List.mem_cons.1 h with rfl | h
    · exact hm.elim
    · exact h
  have hprop : ∀ {t v}, Proposed (m :: w.mail) t v → Proposed w.mail t v := by
    rintro t v ⟨l, p, hp, hpt, hpv⟩
    exact ⟨l, p, hprep hp, hpt, hpv⟩
  have hd := hi.accepting.disciplined
  refine
    { election := hi.election
      records := { hi.records with mailed := fun l p h => hi.records.mailed l p (hprep h) }
      accepting :=
        { hi.accepting with
          disciplined := ⟨fun ha => ?_, fun hp => hd.safe (hprop hp),
            fun hp hp' => hd.one (hprop hp) (hprop hp')⟩ }
      leading :=
        { hi.leading with
          sender := fun l p h => hi.leading.sender l p (hprep h)
          led := fun i p hr h => hi.leading.led i p hr (hprep h)
          fresh := fun i p hr h => hi.leading.fresh i p hr (hprep h) }
      deciding :=
        { hi.deciding with
          rounds := fun i r hr S hS =>
            ⟨List.mem_cons_of_mem _ (hi.deciding.rounds i r hr S hS).1,
              (hi.deciding.rounds i r hr S hS).2⟩
          acks := ?_, commits := ?_, installs := ?_ } }
  · obtain ⟨l, p, hp, hpt, hpv⟩ := hd.origin ha
    exact ⟨l, p, List.mem_cons_of_mem _ hp, hpt, hpv⟩
  · intro u l t n h
    rcases List.mem_cons.1 h with rfl | h
    · exact hm
    · exact hi.deciding.acks u l t n h
  · intro l t n h
    rcases List.mem_cons.1 h with rfl | h
    · exact hm
    · exact hi.deciding.commits l t n h
  · intro l t v h
    rcases List.mem_cons.1 h with rfl | h
    · exact hm
    · exact hi.deciding.installs l t v h

/-! ### Preparing -/

/-- A node prepares a value in its own term; the value is out already, or goes
    out with this step. -/
theorem Inv.prepare (hi : sys.Inv w) {u : NodeId} (sent : List CatalogMsg)
    (hp : sys.WellBuilt w.derived p)
    (hterm : (w.net.nodes u).term = p.term) (hprep : (w.stores u).prepare p = .ok s')
    (hdisc : (sys.box w.net w.accepted).Disciplined Catalog.version (Proposed (sent ++ w.mail)))
    (hprop : Proposed (sent ++ w.mail) p.term p.catalog)
    (hsent : ∀ m ∈ sent, m = .prepare u p ∧ (w.net.nodes u).role = .leader)
    (hrole : (w.net.nodes u).role = .follower ∨ (w.net.nodes u).role = .leader ∧
      ∀ q, (w.stores u).prepared = some q → q.term < p.term → q.catalog = p.catalog) :
    sys.Inv { w.setStore u s' with
      mail := sent ++ w.mail
      accepted := ⟨u, p.term, p.catalog⟩ :: w.accepted } := by
  have hmail : ∀ l q, .prepare l q ∈ sent ++ w.mail →
      .prepare l q ∈ w.mail ∨ l = u ∧ q = p ∧ (w.net.nodes u).role = .leader := by
    intro l q h
    rcases List.mem_append.1 h with h | h
    · obtain ⟨heq, hlead⟩ := hsent _ h
      obtain ⟨rfl, rfl⟩ := CatalogMsg.prepare.inj heq
      exact .inr ⟨rfl, rfl, hlead⟩
    · exact .inl h
  have hother : ∀ m ∈ sent ++ w.mail, (∀ l q, m ≠ .prepare l q) → m ∈ w.mail := by
    intro m h hm
    rcases List.mem_append.1 h with h | h
    · exact absurd (hsent m h).1 (hm u p)
    · exact h
  have hadv : (sys.box w.net w.accepted).Advances _ := advances_of_prepare hterm
  have hinner : s'.inner = (w.stores u).inner := by
    rcases CatalogStore.prepare_leaves hprep with ⟨rfl, -⟩ | ⟨hinner, -⟩
    · rfl
    · exact hinner
  have hpend : ∀ q, s'.prepared = some q → sys.WellBuilt w.derived q := by
    intro q hq
    rcases CatalogStore.prepare_leaves hprep with ⟨rfl, -⟩ | ⟨-, hpend, -⟩
    · exact hi.records.prepared u q hq
    · cases hq.symm.trans hpend
      exact hp
  have hrec := hi.records.setStore (i := u) ((hi.records.sound u).prepare hprep)
    (hinner ▸ hi.records.inner u) hpend
  have hdec := hi.deciding.advance hadv (List.subset_cons_self _ _)
  refine
    { election := hi.election
      records := { hrec with mailed := ?_ }
      accepting := hi.accepting.prepare hi.records hdisc hp.version hprop hterm hprep
      leading := hi.leading.prepare hi.election hterm hprep hmail hrole
      deciding :=
        { inner := ?_
          derived := hdec.derived
          rounds := fun i r hr S hS =>
            ⟨List.mem_append_right _ (hdec.rounds i r hr S hS).1, (hdec.rounds i r hr S hS).2⟩
          acks := fun v l t n h => hdec.acks v l t n (hother _ h nofun)
          commits := fun l t n h => hdec.commits l t n (hother _ h nofun)
          installs := fun l t v h => hdec.installs l t v (hother _ h nofun)
          acknowledged := hdec.acknowledged } }
  · intro l q h
    rcases hmail l q h with h | ⟨-, rfl, -⟩
    · exact hi.records.mailed l q h
    · exact hp
  · intro j
    have hj := hdec.inner j
    simp only [CatalogNet.setStore, update_apply]
    split_ifs with hju
    · subst hju
      rw [hinner]
      exact hj
    · exact hj

theorem Inv.prepareLocal (hi : sys.Inv w) (hdig : sys.DigestsDiffer w.derived) (i : NodeId)
    (round : Round) (hok : sys.RecoversFirst w (.prepareLocal i round)) :
    sys.Inv (sys.step w (.prepareLocal i round)) := by
  obtain ⟨hlead, hterm, hrecover⟩ := hok
  have hrole : (w.net.nodes i).role = .leader := of_decide_eq_true hlead
  simp only [step]
  split_ifs with hround
  · have hr := hi.roundOk hround.1
    split
    · rename_i s' hprep
      let p := round.proposal
      have hsafe := hi.leading.safe hi.accepting hi.records hi.election hdig (hi.deciding.inner i)
        hrole hterm hr.built hprep hrecover
      have halone : ∀ {v}, Proposed w.mail p.term v → p.catalog.version = v.version →
          p.catalog = v :=
        hi.leading.alone hi.records hi.election hrole hterm hr.built hprep
      have hdisc : (sys.box w.net w.accepted).Disciplined Catalog.version
          (Proposed ([.prepare i p] ++ w.mail)) := by
        refine hi.accepting.disciplined.propose ?_ ?_ hsafe halone
        · rintro t v ⟨l, q, hq, hqt, hqv⟩
          exact ⟨l, q, List.mem_cons_of_mem _ hq, hqt, hqv⟩
        · rintro t v ⟨l, q, hq, hqt, hqv⟩
          rcases List.mem_cons.1 hq with heq | hq
          · obtain ⟨rfl, rfl⟩ := CatalogMsg.prepare.inj heq
            exact .inr ⟨hqt.symm, hqv.symm⟩
          · exact .inl ⟨l, q, hq, hqt, hqv⟩
      have hprepared := hi.prepare [.prepare i p] hr.built hterm hprep hdisc
        ⟨i, p, List.mem_cons_self, rfl, rfl⟩
        (fun m hm => ⟨List.mem_singleton.1 hm, hrole⟩) (.inr ⟨hrole, hrecover⟩)
      refine hprepared.setRound round fun r hmem => ?_
      obtain rfl := List.mem_singleton.1 hmem
      refine ⟨hr.built, hr.voterSets, ?_⟩
      rintro S hS
      cases hS
      refine ⟨List.mem_cons_self, fun u hu => ?_⟩
      rw [Finset.mem_singleton.1 (Finset.mem_inter.1 hu).1]
      exact List.mem_cons_self
    · exact hi.dropRound i round
  · exact hi

theorem authorizeCatalogLeader_eq_ok {e : Election}
    (h : authorizeCatalogLeader e leader term = .ok ()) : e.term = term ∧ e.leader = some leader := by
  rw [authorizeCatalogLeader, refuseIf_eq_ok] at h
  push Not at h
  exact h

theorem Inv.follower_of_authorized (hi : sys.Inv w)
    (h : authorizeCatalogLeader (w.net.nodes i) leader term = .ok ()) (hne : i ≠ leader) :
    (w.net.nodes i).role = .follower := by
  have hl := (authorizeCatalogLeader_eq_ok h).2
  obtain ⟨hcand, hlead⟩ := hi.election.recognises i
  cases hrole : (w.net.nodes i).role with
  | follower => rfl
  | candidate => cases (hcand hrole).symm.trans hl
  | leader => exact absurd (Option.some.inj ((hlead hrole).symm.trans hl)) hne

theorem Inv.authorize (hi : sys.Inv w) (i : NodeId) (m : CatalogMsg) :
    sys.Inv (sys.step w (.authorize i m)) := by
  simp only [step]
  split
  · split_ifs
    · exact hi.forget _ _ (fun _ => List.Subset.refl _) fun _ => List.Subset.refl _
    · exact hi
  · exact hi

theorem Inv.recvPrepare (hi : sys.Inv w) {i leader : NodeId} {p : CatalogProposal}
    (hauth : sys.RecoversFirst w (.recvPrepare i leader p)) :
    sys.Inv (sys.step w (.recvPrepare i leader p)) := by
  simp only [step]
  split_ifs with hmail
  · split
    · rename_i s' hprep
      have hterm := (authorizeCatalogLeader_eq_ok hauth).1
      have hprepared := hi.prepare [] (hi.records.mailed leader p hmail.1) hterm hprep
        hi.accepting.disciplined ⟨leader, p, hmail.1, rfl, rfl⟩ nofun
        (.inl (hi.follower_of_authorized hauth hmail.2.1))
      exact hprepared.say (m := .prepared i leader p.term p.catalog.version)
        ⟨p.catalog, List.mem_cons_self, rfl⟩
    · exact hi
  · exact hi

theorem Inv.recvPrepared (hi : sys.Inv w) (i voter : NodeId) (round : Round) :
    sys.Inv (sys.step w (.recvPrepared i voter round)) := by
  simp only [step]
  split
  · rename_i S hS
    split_ifs with hgot
    · have hr := hi.roundOk hgot.1
      obtain ⟨hout, hcounted⟩ := hr.counted S hS
      refine hi.setRound round fun r hmem => ?_
      obtain rfl := List.mem_singleton.1 hmem
      refine ⟨hr.built, hr.voterSets, ?_⟩
      rintro S' hS'
      cases hS'
      refine ⟨hout, fun u hu => ?_⟩
      rcases Finset.mem_insert.1 hu with rfl | hu
      · -- the term proposed one value of this version, so this is what was prepared
        obtain ⟨v, hv, hver⟩ := hi.deciding.acks u i _ _ hgot.2.2
        have hd := hi.accepting.disciplined
        obtain rfl := hd.one (hd.origin hv) ⟨i, round.proposal, hout, rfl, rfl⟩ hver
        exact hv
      · exact hcounted u hu
    · exact hi
  · exact hi

/-! ### Committing -/

section

variable (hi : sys.Inv w)

include hi

/-- Committing a prepared proposal whose term chose that version commits the
    chosen value. -/
theorem Inv.commitPrepared {t n : Nat} {v : Catalog}
    (hv : (sys.box w.net w.accepted).Chosen t v) (hver : v.version = n)
    (hc : (w.stores i).commitPrepared t n = .ok s') : sys.Inv (w.setStore i s') := by
  rcases CatalogStore.commitPrepared_leaves (fun q hq => hi.records.next_version hq) hc with
    rfl | ⟨hs, q, hq, rfl, hqn, hinner⟩
  · rw [CatalogNet.setStore, update_eq_self]
    exact hi
  · refine hi.commits ((hi.records.sound i).commitPrepared hc) hs (.inr ⟨q.term, ?_⟩)
    have hd := hi.accepting.disciplined
    obtain ⟨u, hu⟩ := hv.exists_accepted
    have heq : q.catalog = v :=
      hd.one (hd.origin (hi.accepting.prepared i q hq)) (hd.origin hu) (hqn.trans hver.symm)
    rw [hinner, heq]
    exact hv

theorem Inv.commitRound (i : NodeId) (round : Round) :
    sys.Inv (sys.step w (.commitRound i round)) := by
  simp only [step]
  split
  · rename_i S hS
    split_ifs with hquorum
    · have hr := hi.roundOk hquorum.1
      have hchosen : (sys.box w.net w.accepted).Chosen round.proposal.term round.proposal.catalog := by
        refine ⟨S, ?_, fun u hu _ => (hr.counted S hS).2 u hu⟩
        have hjoint := hquorum.2
        rw [hasJointQuorum, Bool.and_eq_true, hr.voterSets] at hjoint
        exact of_decide_eq_true hjoint.1
      split
      · rename_i s' hcommit
        have hset : sys.Settled w.net w.accepted round.proposal.catalog := .inr ⟨_, hchosen⟩
        have hstored := hi.commitPrepared hchosen rfl hcommit
        have hinstall := hstored.say (m := .install i round.proposal.term round.proposal.catalog) hset
        have hbroadcast := hinstall.say
          (m := .commit i round.proposal.term round.proposal.catalog.version) ⟨_, hchosen, rfl⟩
        have hround := hbroadcast.dropRound i round
        exact
          { hround with
            deciding :=
              { hround.deciding with
                acknowledged := by
                  intro p hp
                  rcases List.mem_cons.1 hp with rfl | hp
                  · exact hset
                  · exact hi.deciding.acknowledged p hp } }
      · exact hi.dropRound i round
    · exact hi
  · exact hi

theorem Inv.recvCommit (i leader : NodeId) (t n : Nat) :
    sys.Inv (sys.step w (.recvCommit i leader t n)) := by
  simp only [step]
  split_ifs with hmail
  · split
    · rename_i s' hcommit
      obtain ⟨v, hv, hver⟩ := hi.deciding.commits leader t n hmail.1
      exact hi.commitPrepared hv hver hcommit
    · exact hi
  · exact hi

theorem Inv.repairMembers (i : NodeId) :
    sys.Inv (sys.step w (.repairMembers i)) := by
  simp only [step]
  split
  · exact hi.say (m := .install i (w.net.nodes i).term (w.stores i).snapshot) (hi.deciding.inner i)
  · exact hi

theorem Inv.recvInstall (i leader : NodeId) (t : Nat) (v : Catalog) :
    sys.Inv (sys.step w (.recvInstall i leader t v)) := by
  simp only [step]
  split_ifs with hmail
  · split
    · rename_i s' hinstall
      rcases CatalogStore.installCommitted_leaves hinstall with rfl | ⟨hs, hinner⟩
      · rw [CatalogNet.setStore, update_eq_self]
        exact hi
      · refine hi.commits ((hi.records.sound i).installCommitted hinstall) hs ?_
        rw [hinner]
        exact hi.deciding.installs leader t v hmail.1
    · exact hi
  · exact hi

end

/-! ## Every run -/

theorem Inv.step (hi : sys.Inv w) (hdig : sys.DigestsDiffer w.derived) {a : CatalogAct}
    (hok : sys.RecoversFirst w a) : sys.Inv (sys.step w a) := by
  cases a with
  | readPosition i => exact hi.forget _ _ (fun _ => List.Subset.refl _) fun _ => List.Subset.refl _
  | election a =>
    show sys.Inv (if w.MayTake a then _ else _)
    split_ifs
    · exact (hi.elect hok).restarted a
    · exact hi
  | propose i n change => exact hi.propose i n change
  | recoverPrepared i => exact hi.recoverPrepared i
  | republishCommitted i => exact hi.republishCommitted i
  | beginRound i p => exact hi.beginRound i p
  | prepareLocal i round => exact hi.prepareLocal hdig i round hok
  | authorize i m => exact hi.authorize i m
  | recvPrepare i leader p => exact hi.recvPrepare hok
  | recvPrepared i voter round => exact hi.recvPrepared i voter round
  | commitRound i round => exact hi.commitRound i round
  | recvCommit i leader t n => exact hi.recvCommit i leader t n
  | repairMembers i => exact hi.repairMembers i
  | recvInstall i leader t v => exact hi.recvInstall i leader t v

theorem inv_init (sys : CatalogSystem) : sys.Inv sys.init where
  election := init_inv sys.voters
  records :=
    { sound := fun _ => ⟨rfl, rfl, sys.initial_valid, nofun⟩
      inner := fun _ => .inl rfl
      prepared := nofun
      proposals := nofun
      rounds := nofun
      mailed := nofun
      derived := nofun }
  accepting :=
    { disciplined := ⟨nofun, nofun, nofun⟩
      clock := nofun
      prepared := nofun
      holds := nofun }
  leading :=
    { sender := nofun
      vouched := nofun
      carried := nofun
      led := nofun
      fresh := nofun }
  deciding :=
    { inner := fun _ => .inl rfl
      derived := nofun
      rounds := nofun
      acks := nofun
      commits := nofun
      installs := nofun
      acknowledged := nofun }

end CatalogSystem

end Shardlite.Cluster
