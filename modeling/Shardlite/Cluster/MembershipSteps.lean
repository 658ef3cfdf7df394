/-
  Shardlite.Cluster.MembershipSteps

  Every step of a cluster whose voters change keeps the invariant, as long as a
  node prepares a proposal of its own only while it still leads the proposal's
  term.  First the moves the steps are made of: a step of the election layer, new
  voter sets, a prepare, a store that moves on, a message, a round.
-/
import Shardlite.Cluster.MembershipInvariant

namespace Shardlite.Cluster

open Function

namespace CatalogSystem

variable {sys : CatalogSystem} {w : MemberNet}

/-! ## Elections -/
variable {i : NodeId} {t : Nat}

section Elections

variable {c : VoterConfiguration} {k : NodeId} {d : Durability} {net' : Net}

theorem Behind.elect (heff : Effect c w.cat.net k d net')
    (hfits : (w.cat.net.nodes k).term + 1 < u64Size) (h : Behind w i t) :
    Behind { w with cat := { w.cat with net := net' } } i t := by
  refine ⟨h.1.trans (heff.grows.term i), fun (hcand : (net'.nodes i).role = .candidate) => ?_⟩
  show t < (net'.nodes i).term
  rcases heff.office hfits (by rw [hcand]; simp) with hlt | ⟨hterm, hsame | ⟨-, hlead⟩⟩
  · exact lt_of_le_of_lt h.1 hlt
  · rw [hterm]
    exact h.2 (hsame.trans hcand)
  · rw [hcand] at hlead
    cases hlead

theorem Certificates.elect (h : sys.Certificates w) (heff : Effect c w.cat.net k d net')
    (hfits : (w.cat.net.nodes k).term + 1 < u64Size) :
    sys.Certificates { w with cat := { w.cat with net := net' } } where
  clock a ha := (h.clock a ha).trans (heff.grows.term _)
  latest := h.latest
  acks := h.acks
  commits := h.commits
  installs := h.installs
  rounds i r hr := { h.rounds i r hr with
    tallied := fun S hS => ((h.rounds i r hr).tallied S hS).imp_left (·.elect heff hfits) }
  inner i := by
    obtain ⟨t, hb, hcert⟩ := h.inner i
    exact ⟨t, hb.elect heff hfits, hcert⟩

theorem Campaigns.elect (hi : sys.MemberInv w) (heff : Effect c w.cat.net k d net')
    (hfits : (w.cat.net.nodes k).term + 1 < u64Size)
    (hd : d.catalog.version = (w.cat.stores k).latest.version)
    (hfresh : k ∈ c.configured → w.refreshed k = (w.cat.stores k).inner) :
    sys.Campaigns { w with cat := { w.cat with net := net' } } := by
  have hgrow := heff.grows
  have hc := hi.campaigns
  have hcert := hi.certificates
  -- a voter that has just read its sets prepared nothing far past them
  have hlatest : k ∈ c.configured →
      (w.cat.stores k).latest.version ≤ (w.refreshed k).version + 1 := by
    intro hconf
    rw [hfresh hconf]
    exact hi.lineage.latest_le k
  refine ⟨?_, ?_, ?_, ?_, ?_⟩
  · intro i
    obtain ⟨hmem, hsets, hle⟩ := hc.refreshed i
    have hf := heff.frame hi.synced i
    refine ⟨hmem, ?_, hle⟩
    rw [hsets]
    exact (congrArg₂ Prod.mk hf.current hf.next).symm
  · intro i d' (hcand : (net'.nodes i).role = .candidate) hreq
    rcases heff.new_request_reports hreq with hold | ⟨rfl, rfl, hconf⟩
    · rcases heff.office hfits (by rw [hcand]; simp) with hlt | ⟨hterm, hsame | ⟨-, hlead⟩⟩
      · exact absurd (hi.office.request_term_le hold) (not_le.2 hlt)
      · have hsent : .voteRequest ⟨(w.cat.net.nodes i).term, i, d'⟩ ∈ w.cat.net.sent := by
          rw [← hterm]
          exact hold
        exact hc.asked i d' (hsame.trans hcand) hsent
      · rw [hcand] at hlead
        cases hlead
    · exact hd.le.trans (hlatest hconf)
  · intro i hcand a ha hvoter
    rcases heff.new_candidate hcand with hold | ⟨rfl, hconf⟩
    · exact hc.carried i hold a ha hvoter
    · exact le_trans (hvoter ▸ hcert.latest a ha) (hlatest hconf)
  · intro u t i hb hne
    rcases heff.new_ballot hi.office.ballots hb with hb | hself | ⟨req, hreq, heq, hcmp⟩
    · obtain ⟨d', hsent, hcover⟩ := hc.vouched u t i hb hne
      exact ⟨d', hgrow.sent hsent, hcover⟩
    · exact absurd hself hne
    · -- the vote just granted compared the request with this voter's own position
      obtain ⟨rfl, rfl, rfl⟩ := Ballot.mk.inj heq
      refine ⟨req.durability, hgrow.sent hreq, fun a ha hvoter _ => ?_⟩
      have hle := Durability.catalog_le_of_atLeast hcmp
      rw [hd] at hle
      exact le_trans (hvoter ▸ hcert.latest a ha) hle
  · intro i t hel
    rcases heff.new_elected hi.office hfits hel with hold | ⟨rfl, hnew⟩
    · obtain ⟨v, hv, Q, hQ, hback, hbefore⟩ := hc.elected i t hold
      exact ⟨v, hv, Q, hQ, fun u hu => (hback u hu).imp_left (hgrow.ballots ·), hbefore⟩
    · obtain ⟨hmem, hsets, hle⟩ := hc.refreshed i
      obtain ⟨t₀, hbehind, hto⟩ := hcert.inner i
      have hto' : sys.CertifiedTo w.committed w.cat.accepted t₀ (w.refreshed i).version :=
        fun m hm hmle => hto m hm (hmle.trans hle)
      rcases hnew with ⟨hcand, rfl, Q, hquorum, hballots⟩ | ⟨hconf, hlt, hquorum, hballot⟩
      · refine ⟨w.refreshed i, hmem, Q, ?_, fun u hu => ⟨hgrow.ballots (hballots u hu), ?_⟩,
          t₀, hbehind.2 hcand, hto'⟩
        · rw [hsets]
          exact Election.joint_of_hasQuorum hquorum
        · intro a ha hvoter hterm
          by_cases hself : u = i
          · exact hc.carried i hcand a ha (hvoter.trans hself)
          · obtain ⟨d', hsent, hcover⟩ := hc.vouched u _ i (hballots u hu) hself
            exact (hcover a ha hvoter hterm).trans (hc.asked i d' hcand hsent)
      · refine ⟨w.refreshed i, hmem, {i}, ?_, fun u hu => ?_, t₀, lt_of_le_of_lt hbehind.1 hlt, hto'⟩
        · rw [hsets]
          exact Election.joint_of_hasQuorum hquorum
        · obtain rfl := Finset.mem_singleton.1 hu
          refine ⟨hballot, fun a ha hvoter _ => ?_⟩
          exact le_trans (hvoter ▸ hcert.latest a ha) (hlatest hconf)

/-- A step of the election layer.  Only a node that has just read its voter sets
    may stand. -/
theorem MemberInv.elect (hi : sys.MemberInv w) (heff : Effect c w.cat.net k d net')
    (hfits : (w.cat.net.nodes k).term + 1 < u64Size)
    (hd : d.catalog.version = (w.cat.stores k).latest.version)
    (hfresh : k ∈ c.configured → w.refreshed k = (w.cat.stores k).inner) :
    sys.MemberInv { w with cat := { w.cat with net := net' } } where
  synced j := (heff.frame hi.synced j).terms.synced
  cfg j := (heff.frame hi.synced j).cfg.trans (hi.cfg j)
  office := heff.officeInv hi.office
  lineage := { hi.lineage with }
  certificates := hi.certificates.elect heff hfits
  campaigns := .elect hi heff hfits hd hfresh

end Elections

/-! ## New voter sets -/

variable {v : Catalog} {p : CatalogProposal}

theorem voterSets_usable (h : v.validate = .ok ()) :
    v.voterSets.1 ≠ ∅ ∧ v.voterSets.2 ≠ some ∅ := by
  unfold Catalog.validate at h
  simp only [bind_eq_ok] at h
  obtain ⟨_, -, _, -, _, -, _, -, _, hvoter, h⟩ := h
  unfold Catalog.voterSets
  cases hopen : v.voterTransition with
  | none =>
    rw [refuseIf_eq_ok, not_not, List.any_eq_true] at hvoter
    obtain ⟨m, hm, hrole⟩ := hvoter
    have hmem : m.node ∈ ((v.members.values.filter (·.role = .voter)).map (·.node)).toFinset :=
      List.mem_toFinset.2 (List.mem_map_of_mem (List.mem_filter.2 ⟨hm, hrole⟩))
    exact ⟨Finset.ne_empty_of_mem hmem, by simp⟩
  | some transition =>
    simp only [hopen] at h
    obtain ⟨_, htrans, -⟩ := bind_eq_ok.1 h
    obtain ⟨_, hsets, -⟩ := bind_eq_ok.1 htrans
    rw [refuseIf_eq_ok, not_or] at hsets
    exact ⟨hsets.1, fun heq => hsets.2 (Option.some.inj heq)⟩

theorem configuration_sets (sys : CatalogSystem) (h : v.validate = .ok ()) :
    ((sys.configuration v).current, (sys.configuration v).next) = v.voterSets := by
  obtain ⟨hcur, hnext⟩ := voterSets_usable h
  unfold configuration VoterConfiguration.withSets
  rw [dif_pos ⟨Finset.nonempty_iff_ne_empty.2 hcur, hnext⟩]

theorem configuration_config (sys : CatalogSystem) (v : Catalog) :
    (sys.configuration v).config = sys.voters.config := by
  unfold configuration VoterConfiguration.withSets
  split_ifs <;> rfl

theorem MemberInv.reconfigure (hi : sys.MemberInv w) {e : Election}
    (hset : (w.cat.net.nodes i).setVoterConfiguration (w.cat.stores i).inner.voterSets.1
      (w.cat.stores i).inner.voterSets.2 = (e, .ok ())) :
    sys.MemberInv
      { w with
        cat := { w.cat with net := w.cat.net.put i e }
        refreshed := update w.refreshed i (w.cat.stores i).inner } := by
  obtain ⟨hcfg, hterms, hs, hcur, hnext⟩ := Election.setVoterConfiguration_eq_ok hset
  have hrem : (w.cat.net.nodes i).terms.Remembers e.terms := by
    rw [hterms]
    exact .refl (hi.synced i)
  have hnode : ∀ j, ((w.cat.net.put i e).nodes j).cfg = (w.cat.net.nodes j).cfg ∧
      ((w.cat.net.put i e).nodes j).terms = (w.cat.net.nodes j).terms ∧
      ((w.cat.net.put i e).nodes j).role = (w.cat.net.nodes j).role := by
    intro j
    rw [Net.put_nodes]
    split_ifs with hj
    · rw [hj]
      exact ⟨hcfg, hterms, hs.role⟩
    · exact ⟨rfl, rfl, rfl⟩
  have hterm : ∀ j, ((w.cat.net.put i e).nodes j).term = (w.cat.net.nodes j).term :=
    fun j => congrArg TermStore.term (hnode j).2.1
  -- no vote was cast
  have hballots : ∀ b ∈ (w.cat.net.put i e).ballots, b ∈ w.cat.net.ballots := by
    intro b hb
    rw [Net.put_ballots, List.mem_append] at hb
    rcases hb with hb | hb
    · obtain ⟨hv, hst⟩ := (Net.mem_ballotOf hrem.synced).1 hb
      exact hi.office.ballots.recorded b (by rw [hv, ← hterms]; exact hst)
    · exact hb
  have hbehind : ∀ {j t}, Behind w j t → Behind
      { w with
        cat := { w.cat with net := w.cat.net.put i e }
        refreshed := update w.refreshed i (w.cat.stores i).inner } j t := by
    intro j t hb
    refine ⟨hb.1.trans (hterm j).ge, fun hcand => ?_⟩
    exact lt_of_lt_of_eq (hb.2 ((hnode j).2.2.symm.trans hcand)) (hterm j).symm
  -- the sets a node reads are never older than the ones it had
  have hnewer : ∀ j, (w.refreshed j).version ≤
      (update w.refreshed i (w.cat.stores i).inner j).version := by
    intro j
    rw [update_apply]
    split_ifs with hj
    · rw [hj]
      exact (hi.campaigns.refreshed i).2.2
    · exact le_rfl
  have hc := hi.campaigns
  refine
    { synced := fun j => by rw [(hnode j).2.1]; exact hi.synced j
      cfg := fun j => (hnode j).1.trans (hi.cfg j)
      office := hi.office.put hrem hs
      lineage := { hi.lineage with }
      certificates :=
        { clock := fun a ha => (hi.certificates.clock a ha).trans (hterm a.voter).ge
          latest := hi.certificates.latest
          acks := hi.certificates.acks
          commits := hi.certificates.commits
          installs := hi.certificates.installs
          rounds := fun j r hr => { hi.certificates.rounds j r hr with
            tallied := fun S hS =>
              ((hi.certificates.rounds j r hr).tallied S hS).imp_left hbehind }
          inner := fun j => (hi.certificates.inner j).imp fun t h => h.imp_left hbehind }
      campaigns := ⟨?_, ?_, ?_, ?_, ?_⟩ }
  · intro j
    show update w.refreshed i (w.cat.stores i).inner j ∈ w.committed ∧
      (update w.refreshed i (w.cat.stores i).inner j).voterSets =
        (((w.cat.net.put i e).nodes j).currentVoters, ((w.cat.net.put i e).nodes j).nextVoters) ∧
      (update w.refreshed i (w.cat.stores i).inner j).version ≤
        (w.cat.stores j).inner.version
    rw [update_apply, Net.put_nodes]
    split_ifs with hj
    · rw [hcur, hnext, hj]
      exact ⟨hi.lineage.inner i, rfl, le_rfl⟩
    · exact hc.refreshed j
  · intro j d hcand hreq
    have hold : .voteRequest ⟨(w.cat.net.nodes j).term, j, d⟩ ∈ w.cat.net.sent := by
      rw [← hterm j]
      exact hreq
    have hle := hc.asked j d ((hnode j).2.2.symm.trans hcand) hold
    exact hle.trans (Nat.succ_le_succ (hnewer j))
  · intro j hcand a ha hvoter
    have hle := hc.carried j ((hnode j).2.2.symm.trans hcand) a ha hvoter
    exact hle.trans (Nat.succ_le_succ (hnewer j))
  · intro u t j hb hne
    exact hc.vouched u t j (hballots _ hb) hne
  · intro j t hel
    obtain ⟨v, hv, Q, hQ, hback, hbefore⟩ := hc.elected j t hel
    exact ⟨v, hv, Q, hQ, fun u hu => (hback u hu).imp_left (List.mem_append_right _ ·), hbefore⟩

theorem MemberInv.refreshVoters (hi : sys.MemberInv w)
    (hfits : (w.cat.net.nodes i).term + 1 < u64Size) (now : Instant) :
    sys.MemberInv (sys.refreshVoters w i now) ∧
      (sys.refreshVoters w i now).refreshed i = ((sys.refreshVoters w i now).cat.stores i).inner ∧
      ((sys.refreshVoters w i now).cat.net.nodes i).term + 1 < u64Size := by
  have hvalid := (hi.lineage.sound i).valid
  obtain ⟨hcur, hnext⟩ := voterSets_usable hvalid
  obtain ⟨e, he⟩ := (w.cat.net.nodes i).setVoterConfiguration_ok hcur hnext
  have hrec := hi.reconfigure he
  have hself : ((w.cat.net.put i e).nodes i) = e := by rw [Net.put_nodes, if_pos rfl]
  have hterm : e.term = (w.cat.net.nodes i).term :=
    congrArg TermStore.term (Election.setVoterConfiguration_eq_ok he).2.1
  have hfits' : ((w.cat.net.put i e).nodes i).term + 1 < u64Size := by
    rw [hself, hterm]
    exact hfits
  have hfresh : update w.refreshed i (w.cat.stores i).inner i =
      (w.cat.stores i).inner := update_self ..
  -- a leader that is no voter any more steps down
  have hdown : ∀ net, (net = w.cat.net.put i e ∨ net =
      (sys.configuration (w.cat.stores i).inner).step (w.cat.net.put i e) (.requestStepDown i now)) →
      sys.MemberInv
        { w with
          cat := { w.cat with net }
          refreshed := update w.refreshed i (w.cat.stores i).inner } ∧
        (net.nodes i).term + 1 < u64Size := by
    rintro net (rfl | rfl)
    · exact ⟨hrec, hfits'⟩
    · have hcfg : ((w.cat.net.put i e).nodes i).cfg =
          (sys.configuration (w.cat.stores i).inner).config i :=
        (hrec.cfg i).trans (congrFun (configuration_config sys _) i).symm
      have heff : Effect (sys.configuration (w.cat.stores i).inner) (w.cat.net.put i e) i
          { catalog := sys.position w.cat i } ((sys.configuration (w.cat.stores i).inner).step
            (w.cat.net.put i e) (.requestStepDown i now)) :=
        step_effect_of (a := .requestStepDown i now) (hrec.synced i) hcfg (fun h => h.elim)
          (fun _ => rfl) trivial
      refine ⟨hrec.elect heff hfits' rfl fun _ => hfresh, ?_⟩
      have hsame : (((sys.configuration (w.cat.stores i).inner).step (w.cat.net.put i e)
          (.requestStepDown i now)).nodes i).terms = e.terms := by
        simp only [VoterConfiguration.step, Net.put_nodes, if_pos, Election.requestStepDown_terms]
      have hstay := congrArg TermStore.term hsame
      show TermStore.term _ + 1 < u64Size
      rw [hstay]
      exact lt_of_eq_of_lt (congrArg (· + 1) hterm) hfits
  simp only [CatalogSystem.refreshVoters, CatalogStore.snapshot, he]
  obtain ⟨hinv, hstill⟩ := hdown
    (if ¬ (w.cat.stores i).inner.isVoter i ∧ e.isLeader then
      (sys.configuration (w.cat.stores i).inner).step (w.cat.net.put i e) (.requestStepDown i now)
      else w.cat.net.put i e) (by
        split_ifs
        · exact .inr rfl
        · exact .inl rfl)
  exact ⟨hinv, hfresh, hstill⟩

/-! ## Steps of the election layer -/

theorem MemberInv.forget (hi : sys.MemberInv w) {proposals : NodeId → List CatalogProposal}
    {rounds : NodeId → List Round} (authorized : NodeId → List CatalogMsg)
    (read : NodeId → List CatalogPosition) (hp : ∀ i, proposals i ⊆ w.cat.proposals i)
    (hr : ∀ i, rounds i ⊆ w.cat.rounds i) :
    sys.MemberInv { w with cat := { w.cat with proposals, rounds, authorized, read } } :=
  { hi with
    lineage :=
      { hi.lineage with proposals := fun i p h => hi.lineage.proposals i p (hp i h) }
    certificates :=
      { hi.certificates with
        rounds := fun i r h => { hi.certificates.rounds i r (hr i h) with } }
    campaigns := { hi.campaigns with } }

theorem MemberInv.restarted (hi : sys.MemberInv w) (a : Act) :
    sys.MemberInv { w with cat := w.cat.restarted a } := by
  cases a with
  | restart i now =>
    simp only [CatalogNet.restarted, (hi.lineage.sound i).openFiles_eq, update_eq_self]
    exact hi.forget _ _ (update_nil_subset w.cat.proposals i) (update_nil_subset w.cat.rounds i)
  | _ => exact hi

theorem MemberInv.electionStep (hi : sys.MemberInv w) {a : Act}
    (hfits : (w.cat.net.nodes a.actor).term + 1 < u64Size) (hnot : ∀ i, a ≠ .refreshVoters i)
    (hcurrent : ∀ p ∈ a.catalogPosition,
      p = sys.position w.cat a.actor ∧ w.refreshed a.actor = (w.cat.stores a.actor).inner) :
    sys.MemberInv (sys.electionStep w a) := by
  -- the state the handler acts on
  obtain ⟨w₁, hw₁, hi₁, hcurrent, hstart, hfits₁⟩ : ∃ w₁, sys.startVoters w a = w₁ ∧
      sys.MemberInv w₁ ∧
      (∀ p ∈ a.catalogPosition, p = sys.position w₁.cat a.actor ∧
        w₁.refreshed a.actor = (w₁.cat.stores a.actor).inner) ∧
      (a.RereadsVoters → w₁.refreshed a.actor = (w₁.cat.stores a.actor).inner) ∧
      (w₁.cat.net.nodes a.actor).term + 1 < u64Size := by
    cases a with
    | restart i now =>
      obtain ⟨hi₁, hfresh, hfits₁⟩ := hi.refreshVoters hfits now
      exact ⟨_, rfl, hi₁, fun _ h => absurd h (by simp [Act.catalogPosition]), fun _ => hfresh, hfits₁⟩
    | refreshVoters i => exact absurd rfl (hnot i)
    | _ => exact ⟨w, rfl, hi, hcurrent, fun h => h.elim, hfits⟩
  unfold CatalogSystem.electionStep
  rw [hw₁]
  simp only
  split_ifs
  · let i := a.actor
    let conf := sys.configuration (w₁.refreshed i)
    obtain ⟨d, hrep, hd⟩ := Act.reports_of_current fun p hp => (hcurrent p hp).1
    -- a step other than a tick is a step of a cluster in which this node is no voter
    let alone := sys.voters.withSets ({i + 1}, none)
    have halone : i ∉ alone.configured := by
      have hsome : ({i + 1} : Finset NodeId).Nonempty ∧ (none : Option (Finset NodeId)) ≠ some ∅ :=
        ⟨Finset.singleton_nonempty _, by simp⟩
      simp only [alone, VoterConfiguration.withSets, dif_pos hsome, VoterConfiguration.configured]
      simp
    obtain ⟨c', hc', hread⟩ : ∃ c' : VoterConfiguration,
        ((∃ now d io, a = .tick a.actor now d io) → c' = conf) ∧
        (i ∈ c'.configured → w₁.refreshed i = (w₁.cat.stores i).inner) := by
      by_cases htick : ∃ now d io, a = .tick a.actor now d io
      · obtain ⟨now, d, io, heq⟩ := htick
        refine ⟨conf, fun _ => rfl, fun _ => (hcurrent d.catalog ?_).2⟩
        rw [heq]
        rfl
      · exact ⟨alone, fun h => absurd h htick, fun h => absurd h halone⟩
    have heff : Effect c' w₁.cat.net i d (conf.step w₁.cat.net a) := by
      refine step_effect_of (w := w₁.cat.net) (c := conf) (a := a) (hi₁.synced _)
        ((hi₁.cfg _).trans (congrFun (configuration_config sys _) _).symm) (fun hre => ?_) hc' hrep
      have hvalid : (w₁.refreshed i).validate = .ok () := by
        rw [hstart hre]
        exact (hi₁.lineage.sound i).valid
      have hown := (hi₁.campaigns.refreshed i).2.1
      rw [← configuration_sets sys hvalid] at hown
      obtain ⟨hcur, hnext⟩ := Prod.mk.inj hown
      exact ⟨hcur.symm, hnext.symm⟩
    exact (hi₁.elect heff hfits₁ (by rw [hd]; rfl) hread).restarted a
  · exact hi₁

/-! ## Stores -/

section

variable (hi : sys.MemberInv w)

include hi

theorem MemberInv.learn (hdesc : sys.Descended w.committed v) :
    sys.MemberInv { w with committed := v :: w.committed } := by
  have hsub : w.committed ⊆ v :: w.committed := List.subset_cons_self _ _
  have hcert : ∀ {t n}, sys.CertifiedTo w.committed w.cat.accepted t n →
      sys.CertifiedTo (v :: w.committed) w.cat.accepted t n :=
    fun h => h.mono hsub (List.Subset.refl _) le_rfl
  refine
    { hi with
      lineage :=
        { sound := hi.lineage.sound
          inner := fun i => hsub (hi.lineage.inner i)
          descended := ?_
          prepared := fun i q hq => (hi.lineage.prepared i q hq).mono hsub
          mailed := fun l p hp => (hi.lineage.mailed l p hp).mono hsub
          proposals := fun i p hp => (hi.lineage.proposals i p hp).imp_left (·.mono hsub) }
      certificates :=
        { clock := hi.certificates.clock
          latest := hi.certificates.latest
          acks := hi.certificates.acks
          commits := fun l t n h => hcert (hi.certificates.commits l t n h)
          installs := fun l t u h => (hi.certificates.installs l t u h).imp (·.mono hsub) hcert
          rounds := ?_
          inner := fun i => (hi.certificates.inner i).imp fun t h => h.imp_right hcert }
      campaigns :=
        { hi.campaigns with
          refreshed := fun i => (hi.campaigns.refreshed i).imp_left (hsub ·)
          elected := ?_ } }
  · intro u hu
    rcases List.mem_cons.1 hu with rfl | hu
    · exact ⟨hdesc.mono hsub, hi.lineage.first_le hdesc⟩
    · exact (hi.lineage.descended u hu).imp_left (·.mono hsub)
  · intro i r hr
    obtain ⟨hstep, ⟨b, hb, hsets, hle, hto⟩, htally⟩ := hi.certificates.rounds i r hr
    exact ⟨hstep.mono hsub, ⟨b, hsub hb, hsets, hle, hcert hto⟩, htally⟩
  · intro i t hel
    obtain ⟨c, hc, Q, hQ, hback, t₀, ht₀, hto⟩ := hi.campaigns.elected i t hel
    exact ⟨c, hsub hc, Q, hQ, hback, t₀, ht₀, hcert hto⟩

theorem MemberInv.remember (i : NodeId) :
    sys.MemberInv { w with committed := (w.cat.stores i).inner :: w.committed } :=
  hi.learn (hi.lineage.descended _ (hi.lineage.inner i)).1

/-- A store moves on to a catalog certified in a term behind its node. -/
theorem MemberInv.commits {s : CatalogStore} (hsound : s.Sound)
    (hs : (w.cat.stores i).Commits s) (hmem : s.inner ∈ w.committed)
    (hbehind : Behind w i t)
    (hcert : sys.CertifiedTo w.committed w.cat.accepted t s.inner.version) :
    sys.MemberInv { w with cat := w.cat.setStore i s } := by
  have hstore : ∀ j, (update w.cat.stores i s j).Sound ∧
      (w.cat.stores j).inner.version ≤ (update w.cat.stores i s j).inner.version ∧
      (w.cat.stores j).latest.version ≤ (update w.cat.stores i s j).latest.version ∧
      (update w.cat.stores i s j).inner ∈ w.committed := by
    intro j
    rw [update_apply]
    split_ifs with hj
    · rw [hj]
      exact ⟨hsound, hs.version.le, hs.latest_le, hmem⟩
    · exact ⟨hi.lineage.sound j, le_rfl, le_rfl, hi.lineage.inner j⟩
  refine
    { hi with
      lineage :=
        { hi.lineage with
          sound := fun j => (hstore j).1
          inner := fun j => (hstore j).2.2.2
          prepared := ?_
          proposals := fun j p hp => (hi.lineage.proposals j p hp).imp_right fun hle =>
            hle.trans (Nat.succ_le_succ (hstore j).2.1) }
      certificates :=
        { hi.certificates with
          latest := fun a ha => (hi.certificates.latest a ha).trans (hstore a.voter).2.2.1
          rounds := fun j r hr => { hi.certificates.rounds j r hr with }
          inner := ?_ }
      campaigns :=
        { hi.campaigns with
          refreshed := fun j => (hi.campaigns.refreshed j).imp_right fun h =>
            h.imp_right fun hle => hle.trans (hstore j).2.1 } }
  · intro j q hq
    simp only [CatalogNet.setStore, update_apply] at hq
    split_ifs at hq with hj
    · cases hs.cleared.symm.trans hq
    · exact hi.lineage.prepared j q hq
  · intro j
    by_cases hj : j = i
    · subst hj
      refine ⟨t, hbehind, ?_⟩
      simp only [CatalogNet.setStore, update_self]
      exact hcert
    · simp only [CatalogNet.setStore, update_of_ne hj]
      exact hi.certificates.inner j

/-- A node that is not campaigning prepares a value in its own term. -/
theorem MemberInv.prepare {u : NodeId} {s' : CatalogStore}
    (hp : sys.Stepped w.committed p)
    (hterm : (w.cat.net.nodes u).term = p.term)
    (hrole : (w.cat.net.nodes u).role ≠ .candidate)
    (hprep : (w.cat.stores u).prepare p = .ok s') :
    sys.MemberInv
      { w with
        cat := { w.cat.setStore u s' with
          accepted := ⟨u, p.term, p.catalog⟩ :: w.cat.accepted } } := by
  have hsub : w.cat.accepted ⊆ ⟨u, p.term, p.catalog⟩ :: w.cat.accepted :=
    List.subset_cons_self _ _
  have hcert : ∀ {t n}, sys.CertifiedTo w.committed w.cat.accepted t n →
      sys.CertifiedTo w.committed (⟨u, p.term, p.catalog⟩ :: w.cat.accepted) t n :=
    fun h => h.mono (List.Subset.refl _) hsub le_rfl
  obtain ⟨hlat, hnew⟩ :=
    CatalogStore.latest_le_of_prepare (fun q hq => hi.lineage.next_version hq) hp.version hprep
  have hinner : s'.inner = (w.cat.stores u).inner := by
    rcases CatalogStore.prepare_leaves hprep with ⟨rfl, -⟩ | ⟨hinner, -⟩
    · rfl
    · exact hinner
  have hstore : ∀ j, (update w.cat.stores u s' j).Sound ∧
      (update w.cat.stores u s' j).inner = (w.cat.stores j).inner ∧
      (w.cat.stores j).latest.version ≤ (update w.cat.stores u s' j).latest.version := by
    intro j
    rw [update_apply]
    split_ifs with hj
    · rw [hj]
      exact ⟨(hi.lineage.sound u).prepare hprep, hinner, hlat⟩
    · exact ⟨hi.lineage.sound j, rfl, le_rfl⟩
  have hcount : ∀ {x t n}, (∃ v, ⟨x, t, v⟩ ∈ w.cat.accepted ∧ v.version = n) →
      ∃ v, (⟨x, t, v⟩ : Acceptance) ∈ ⟨u, p.term, p.catalog⟩ :: w.cat.accepted ∧ v.version = n :=
    fun ⟨v, hv, hver⟩ => ⟨v, hsub hv, hver⟩
  -- a voter prepares nothing any more in a term before the one it voted in
  have hlate : ∀ {i t n}, (⟨u, t, i⟩ : Ballot) ∈ w.cat.net.ballots → p.term < t →
      p.catalog.version ≤ n := by
    intro i t n hb hlt
    have hle : t ≤ (w.cat.net.nodes u).term := hi.office.ballots.term_le _ hb
    omega
  refine
    { synced := hi.synced
      cfg := hi.cfg
      office := hi.office
      lineage :=
        { hi.lineage with
          sound := fun j => (hstore j).1
          inner := fun j => by
            simp only [CatalogNet.setStore, (hstore j).2.1]
            exact hi.lineage.inner j
          prepared := ?_
          proposals := fun j q hq => by
            simp only [CatalogNet.setStore, (hstore j).2.1]
            exact hi.lineage.proposals j q hq }
      certificates :=
        { clock := ?_, latest := ?_
          acks := fun x l t n h => hcount (hi.certificates.acks x l t n h)
          commits := fun l t n h => hcert (hi.certificates.commits l t n h)
          installs := fun l t v h => (hi.certificates.installs l t v h).imp_right hcert
          rounds := ?_
          inner := fun j => by
            simp only [CatalogNet.setStore, (hstore j).2.1]
            exact (hi.certificates.inner j).imp fun t h => h.imp_right hcert }
      campaigns :=
        { refreshed := fun j => by
            simp only [CatalogNet.setStore, (hstore j).2.1]
            exact hi.campaigns.refreshed j
          asked := hi.campaigns.asked
          carried := ?_, vouched := ?_, elected := ?_ } }
  · intro j q hq
    simp only [CatalogNet.setStore, update_apply] at hq
    split_ifs at hq with hj
    · rcases CatalogStore.prepare_leaves hprep with ⟨rfl, -⟩ | ⟨-, hpend, -⟩
      · exact hi.lineage.prepared u q hq
      · cases hq.symm.trans hpend
        exact hp
    · exact hi.lineage.prepared j q hq
  · intro a ha
    rcases List.mem_cons.1 ha with rfl | ha
    · exact hterm.ge
    · exact hi.certificates.clock a ha
  · intro a ha
    rcases List.mem_cons.1 ha with rfl | ha
    · simp only [CatalogNet.setStore, update_self]
      exact hnew
    · exact (hi.certificates.latest a ha).trans (hstore a.voter).2.2
  · intro j r hr
    obtain ⟨hstep, ⟨b, hb, hsets, hle, hto⟩, htally⟩ := hi.certificates.rounds j r hr
    exact ⟨hstep, ⟨b, hb, hsets, hle, hcert hto⟩,
      fun S hS => (htally S hS).imp_right fun h x hx => hcount (h x hx)⟩
  · intro i hcand a ha hvoter
    rcases List.mem_cons.1 ha with rfl | ha
    · obtain rfl : u = i := hvoter
      exact absurd hcand hrole
    · exact hi.campaigns.carried i hcand a ha hvoter
  · intro x t i hb hne
    obtain ⟨d, hsent, hcover⟩ := hi.campaigns.vouched x t i hb hne
    refine ⟨d, hsent, fun a ha hvoter hlt => ?_⟩
    rcases List.mem_cons.1 ha with rfl | ha
    · exact hlate (hvoter ▸ hb) hlt
    · exact hcover a ha hvoter hlt
  · intro i t hel
    obtain ⟨c, hc, Q, hQ, hback, t₀, ht₀, hto⟩ := hi.campaigns.elected i t hel
    refine ⟨c, hc, Q, hQ, fun x hx => ⟨(hback x hx).1, fun a ha hvoter hlt => ?_⟩,
      t₀, ht₀, hcert hto⟩
    rcases List.mem_cons.1 ha with rfl | ha
    · exact hlate (hvoter ▸ (hback x hx).1) hlt
    · exact (hback x hx).2 a ha hvoter hlt

end

/-! ## Messages, proposals and rounds -/

/-- What must be true of a message when it is sent. -/
def Sent (sys : CatalogSystem) (w : MemberNet) : CatalogMsg → Prop
  | .prepare _ p => sys.Stepped w.committed p
  | .prepared u _ t n => ∃ v, ⟨u, t, v⟩ ∈ w.cat.accepted ∧ v.version = n
  | .commit _ t n => sys.CertifiedTo w.committed w.cat.accepted t n
  | .install _ t v => sys.Descended w.committed v ∧
      sys.CertifiedTo w.committed w.cat.accepted t v.version

section

variable (hi : sys.MemberInv w)

include hi

theorem MemberInv.say {m : CatalogMsg} (hm : sys.Sent w m) :
    sys.MemberInv { w with cat := { w.cat with mail := m :: w.cat.mail } } := by
  refine
    { hi with
      lineage := { hi.lineage with mailed := ?_ }
      certificates :=
        { hi.certificates with
          acks := ?_, commits := ?_, installs := ?_
          rounds := fun i r hr => { hi.certificates.rounds i r hr with } }
      campaigns := { hi.campaigns with } }
  · intro l p h
    rcases List.mem_cons.1 h with rfl | h
    · exact hm
    · exact hi.lineage.mailed l p h
  · intro u l t n h
    rcases List.mem_cons.1 h with rfl | h
    · exact hm
    · exact hi.certificates.acks u l t n h
  · intro l t n h
    rcases List.mem_cons.1 h with rfl | h
    · exact hm
    · exact hi.certificates.commits l t n h
  · intro l t v h
    rcases List.mem_cons.1 h with rfl | h
    · exact hm
    · exact hi.certificates.installs l t v h

theorem MemberInv.addProposal (hp : sys.Stepped w.committed p)
    (hver : p.catalog.version ≤ (w.cat.stores i).inner.version + 1)
    (derived : List (Catalog × Catalog)) :
    sys.MemberInv { w with
      cat := { w.cat with
        proposals := update w.cat.proposals i (p :: w.cat.proposals i), derived } } := by
  refine
    { hi with
      lineage := { hi.lineage with proposals := fun j q hq => ?_ }
      certificates :=
        { hi.certificates with rounds := fun j r hr => { hi.certificates.rounds j r hr with } }
      campaigns := { hi.campaigns with } }
  simp only [update_apply] at hq
  split_ifs at hq with hj
  · subst hj
    rcases List.mem_cons.1 hq with rfl | hq
    · exact ⟨hp, hver⟩
    · exact hi.lineage.proposals j q hq
  · exact hi.lineage.proposals j q hq

theorem MemberInv.setRounds {rs : List Round}
    (hrs : ∀ r ∈ rs, sys.Ongoing w i r) :
    sys.MemberInv
      { w with cat := { w.cat with rounds := update w.cat.rounds i rs } } := by
  have hall : ∀ j, ∀ r ∈ update w.cat.rounds i rs j, sys.Ongoing w j r := by
    intro j r hr
    rw [update_apply] at hr
    split_ifs at hr with hj
    · exact hj ▸ hrs r hr
    · exact hi.certificates.rounds j r hr
  exact
    { hi with
      lineage := { hi.lineage with }
      certificates := { hi.certificates with rounds := fun j r hr => { hall j r hr with } }
      campaigns := { hi.campaigns with } }

theorem MemberInv.setRound (round : Round) {next : List Round}
    (hnext : ∀ r ∈ next, sys.Ongoing w i r) :
    sys.MemberInv { w with cat := w.cat.setRound i round next } := by
  refine hi.setRounds fun r hr => ?_
  rcases List.mem_append.1 hr with hr | hr
  · exact hnext r hr
  · exact hi.certificates.rounds i r (List.mem_of_mem_erase hr)

theorem MemberInv.dropRound (i : NodeId) (round : Round) :
    sys.MemberInv { w with cat := w.cat.setRound i round [] } :=
  hi.setRound round nofun

end

end CatalogSystem

end Shardlite.Cluster
