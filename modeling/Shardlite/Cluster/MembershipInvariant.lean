/-
  Shardlite.Cluster.MembershipInvariant

  Why two leaders of one term cannot count by voter sets that share nobody.  A
  catalog version exists only because a joint quorum of the version before it
  prepared it, in some term; and a candidate's voters had, when they voted,
  prepared nothing that is two versions past the sets the candidate counts by.
  So if a node that counts by version `n` and one that counts by version `n + 2`
  or later won the same term, the quorum behind `n + 2` shares a voter with the
  first one's, and that voter must have prepared `n + 2` in the term of its vote or
  later.  But everything the second one holds when it wins was certified before.

  The invariant says where catalogs come from, who prepared them in which term,
  and what a candidate's voters had prepared.
-/
import Shardlite.Cluster.Membership

namespace Shardlite.Cluster

variable {b : Catalog} {p : CatalogProposal} {P : Finset NodeId}

/-- The voters a proposal is counted by are the present ones, or the joint sets
    it enters. -/
theorem proposalVoterSets_cases (b : Catalog) (p : CatalogProposal) :
    proposalVoterSets b p = b.voterSets ∨
      b.voterSets.2 = none ∧ p.catalog.voterSets.2 ≠ none ∧
        proposalVoterSets b p = p.catalog.voterSets := by
  unfold proposalVoterSets
  split
  · rename_i transition hnone hsome
    refine .inr ⟨?_, ?_, ?_⟩
    · rw [Catalog.voterSets_snd, hnone]
      rfl
    · rw [Catalog.voterSets_snd, hsome]
      simp
    · simp only [Catalog.voterSets, hsome]
  · exact .inl rfl

/-- Whoever accepts a step of the voters is a quorum of the voters before it. -/
theorem joint_of_proposalVoterSets (hstep : Quorum.Step b.voterSets p.catalog.voterSets)
    (h : Quorum.Joint P (proposalVoterSets b p)) : Quorum.Joint P b.voterSets := by
  rcases proposalVoterSets_cases b p with heq | ⟨hnone, hsome, heq⟩
  · exact heq ▸ h
  · rw [heq] at h
    rcases hstep with hsame | ⟨-, hsame, -⟩ | ⟨hnext, -⟩
    · exact hsame ▸ h
    · exact h.of_entering hnone hsame
    · rw [hnone] at hnext
      cases hnext

theorem joint_of_hasJointQuorum {current : Finset NodeId} {next : Option (Finset NodeId)}
    (h : hasJointQuorum P current next = true) : Quorum.Joint P (current, next) := by
  unfold hasJointQuorum at h
  rw [Bool.and_eq_true, decide_eq_true_eq] at h
  refine ⟨h.1, fun n hn => ?_⟩
  obtain rfl : next = some n := hn
  exact of_decide_eq_true h.2

theorem Election.joint_of_hasQuorum {e : Election} (h : e.hasQuorum P = true) :
    Quorum.Joint P (e.currentVoters, e.nextVoters) :=
  joint_of_hasJointQuorum h

namespace CatalogStore

variable {s s' : CatalogStore}

section

variable (hnext : ∀ q, s.prepared = some q → q.catalog.version = s.inner.version + 1)

include hnext

theorem inner_le_latest :
    s.inner.version ≤ s.latest.version ∧ s.latest.version ≤ s.inner.version + 1 := by
  unfold latest
  cases hq : s.prepared with
  | none => exact ⟨le_rfl, Nat.le_succ _⟩
  | some q =>
    have hver := hnext q hq
    exact ⟨hver.symm ▸ Nat.le_succ _, hver.le⟩

theorem latest_le_of_prepare
    (hp : p.catalog.version = p.expectedVersion + 1) (h : s.prepare p = .ok s') :
    s.latest.version ≤ s'.latest.version ∧ p.catalog.version ≤ s'.latest.version := by
  have hle := inner_le_latest hnext
  rcases prepare_leaves h with ⟨rfl, hin⟩ | ⟨-, hpend, hexp, -⟩
  · exact ⟨le_rfl, hin ▸ hle.1⟩
  · have hlat : s'.latest = p.catalog := by
      unfold latest
      rw [hpend]
      rfl
    rw [hlat, hp, hexp]
    exact ⟨hle.2, le_rfl⟩

end

theorem Commits.latest_le (h : s.Commits s') : s.latest.version ≤ s'.latest.version := by
  have hlat : s'.latest = s'.inner := by
    unfold latest
    rw [h.cleared]
    rfl
  rw [hlat]
  rcases s.latest_cases with hle | ⟨q, hq, heq⟩
  · exact hle.trans h.version.le
  · rw [h.taken q hq, heq]

end CatalogStore

namespace CatalogSystem

/-! ## What the invariant speaks of -/

variable {v : Catalog}

section Terms

variable (sys : CatalogSystem) (committed : List Catalog) (accepted : List Acceptance)

/-- The first catalog, or one that follows a committed one by one version and one
    step of the voters. -/
def Descended (v : Catalog) : Prop :=
  v = sys.initial ∨ ∃ b ∈ committed, v.version = b.version + 1 ∧
    Quorum.Step b.voterSets v.voterSets

structure Stepped (p : CatalogProposal) : Prop where
  version : p.catalog.version = p.expectedVersion + 1
  descended : sys.Descended committed p.catalog

/-- In one term up to `t`, a quorum of the version before `n` prepared version
    `n`. -/
def Certified (t n : Nat) : Prop :=
  ∃ t' ≤ t, ∃ b ∈ committed, n = b.version + 1 ∧ ∃ P, Quorum.Joint P b.voterSets ∧
    ∀ u ∈ P, ∃ v, ⟨u, t', v⟩ ∈ accepted ∧ v.version = n

/-- Every version up to `n` but the first was certified in a term up to `t`. -/
def CertifiedTo (t n : Nat) : Prop :=
  ∀ m, sys.initial.version < m → m ≤ n → Certified committed accepted t m

/-- Committed catalogs of one version are one catalog. -/
def CatalogsAgree : Prop :=
  ∀ u ∈ committed, ∀ v ∈ committed, u.version = v.version → u = v

instance : Decidable (CatalogsAgree committed) :=
  inferInstanceAs (Decidable (∀ u ∈ committed, ∀ v ∈ committed, _))

variable {sys committed accepted} {committed' : List Catalog} {accepted' : List Acceptance}
  {t t' n : Nat}

theorem Descended.mono (hsub : committed ⊆ committed')
    (h : sys.Descended committed v) : sys.Descended committed' v :=
  h.imp_right fun ⟨b, hb, hv⟩ => ⟨b, hsub hb, hv⟩

theorem Stepped.mono (hsub : committed ⊆ committed')
    (h : sys.Stepped committed p) : sys.Stepped committed' p :=
  ⟨h.version, h.descended.mono hsub⟩

theorem Certified.mono (hc : committed ⊆ committed') (ha : accepted ⊆ accepted') (ht : t ≤ t')
    (h : Certified committed accepted t n) : Certified committed' accepted' t' n := by
  obtain ⟨t₀, hle, b, hb, hn, P, hP, hacc⟩ := h
  refine ⟨t₀, hle.trans ht, b, hc hb, hn, P, hP, fun u hu => ?_⟩
  obtain ⟨v, hv, hver⟩ := hacc u hu
  exact ⟨v, ha hv, hver⟩

theorem CertifiedTo.mono (hc : committed ⊆ committed') (ha : accepted ⊆ accepted') (ht : t ≤ t')
    (h : sys.CertifiedTo committed accepted t n) : sys.CertifiedTo committed' accepted' t' n :=
  fun m hm hle => (h m hm hle).mono hc ha ht

theorem CertifiedTo.succ (h : sys.CertifiedTo committed accepted t n)
    (hnew : Certified committed accepted t (n + 1)) :
    sys.CertifiedTo committed accepted t (n + 1) := by
  intro m hm hle
  rcases Nat.lt_or_ge n m with hlt | hge
  · obtain rfl : m = n + 1 := by omega
    exact hnew
  · exact h m hm hge

end Terms

/-! ## The invariant -/

section Parts

variable (sys : CatalogSystem) (w : MemberNet)

structure Lineage : Prop where
  sound : ∀ i, (w.cat.stores i).Sound
  inner : ∀ i, (w.cat.stores i).inner ∈ w.committed
  descended : ∀ v ∈ w.committed, sys.Descended w.committed v ∧ sys.initial.version ≤ v.version
  prepared : ∀ i q, (w.cat.stores i).prepared = some q → sys.Stepped w.committed q
  mailed : ∀ l p, .prepare l p ∈ w.cat.mail → sys.Stepped w.committed p
  proposals : ∀ i, ∀ p ∈ w.cat.proposals i, sys.Stepped w.committed p ∧
    p.catalog.version ≤ (w.cat.stores i).inner.version + 1

/-- `t` is a term of `i`, and an earlier one if `i` is campaigning. -/
def Behind (i : NodeId) (t : Nat) : Prop :=
  t ≤ (w.cat.net.nodes i).term ∧
    ((w.cat.net.nodes i).role = .candidate → t < (w.cat.net.nodes i).term)

/-- A round in flight: it is counted by the voters of a catalog that was certified
    by its term, and the prepares counted for it really happened. -/
structure Ongoing (i : NodeId) (r : Round) : Prop where
  stepped : sys.Stepped w.committed r.proposal
  counted : ∃ b ∈ w.committed, r.voterSets = proposalVoterSets b r.proposal ∧
    r.proposal.catalog.version ≤ b.version + 1 ∧
    sys.CertifiedTo w.committed w.cat.accepted r.proposal.term b.version
  tallied : ∀ S, r.prepared = some S → Behind w i r.proposal.term ∧
    ∀ u ∈ S, ∃ v, ⟨u, r.proposal.term, v⟩ ∈ w.cat.accepted ∧
      v.version = r.proposal.catalog.version

structure Certificates : Prop where
  clock : ∀ a ∈ w.cat.accepted, a.term ≤ (w.cat.net.nodes a.voter).term
  latest : ∀ a ∈ w.cat.accepted, a.catalog.version ≤ (w.cat.stores a.voter).latest.version
  acks : ∀ u l t n, .prepared u l t n ∈ w.cat.mail →
    ∃ v, ⟨u, t, v⟩ ∈ w.cat.accepted ∧ v.version = n
  commits : ∀ l t n, .commit l t n ∈ w.cat.mail →
    sys.CertifiedTo w.committed w.cat.accepted t n
  installs : ∀ l t v, .install l t v ∈ w.cat.mail → sys.Descended w.committed v ∧
    sys.CertifiedTo w.committed w.cat.accepted t v.version
  rounds : ∀ i, ∀ r ∈ w.cat.rounds i, sys.Ongoing w i r
  inner : ∀ i, ∃ t, Behind w i t ∧
    sys.CertifiedTo w.committed w.cat.accepted t (w.cat.stores i).inner.version

/-- Before term `t`, `u` prepared nothing past version `n + 1`. -/
def Abreast (u : NodeId) (t n : Nat) : Prop :=
  ∀ a ∈ w.cat.accepted, a.voter = u → a.term < t → a.catalog.version ≤ n + 1

/-- A leadership was counted by the voters of a committed catalog, which was
    certified before; and its voters were abreast of it. -/
def Won (i : NodeId) (t : Nat) : Prop :=
  ∃ c ∈ w.committed, ∃ Q, Quorum.Joint Q c.voterSets ∧
    (∀ u ∈ Q, (⟨u, t, i⟩ : Ballot) ∈ w.cat.net.ballots ∧ Abreast w u t c.version) ∧
    ∃ t₀ < t, sys.CertifiedTo w.committed w.cat.accepted t₀ c.version

/-- What candidates count by, and what their voters had prepared. -/
structure Campaigns : Prop where
  refreshed : ∀ i, w.refreshed i ∈ w.committed ∧
    (w.refreshed i).voterSets =
      ((w.cat.net.nodes i).currentVoters, (w.cat.net.nodes i).nextVoters) ∧
    (w.refreshed i).version ≤ (w.cat.stores i).inner.version
  asked : ∀ i d, (w.cat.net.nodes i).role = .candidate →
    .voteRequest ⟨(w.cat.net.nodes i).term, i, d⟩ ∈ w.cat.net.sent →
    d.catalog.version ≤ (w.refreshed i).version + 1
  carried : ∀ i, (w.cat.net.nodes i).role = .candidate → ∀ a ∈ w.cat.accepted, a.voter = i →
    a.catalog.version ≤ (w.refreshed i).version + 1
  vouched : ∀ u t i, (⟨u, t, i⟩ : Ballot) ∈ w.cat.net.ballots → u ≠ i →
    ∃ d, .voteRequest ⟨t, i, d⟩ ∈ w.cat.net.sent ∧ ∀ a ∈ w.cat.accepted, a.voter = u →
      a.term < t → a.catalog.version ≤ d.catalog.version
  elected : ∀ i t, (i, t) ∈ w.cat.net.elected → sys.Won w i t

end Parts

/-- The invariant of elections and rounds while the voters change. -/
structure MemberInv (sys : CatalogSystem) (w : MemberNet) : Prop where
  synced : ∀ i, (w.cat.net.nodes i).terms.Synced
  cfg : ∀ i, (w.cat.net.nodes i).cfg = sys.voters.config i
  office : OfficeInv w.cat.net
  lineage : sys.Lineage w
  certificates : sys.Certificates w
  campaigns : sys.Campaigns w

section Reading

variable {sys : CatalogSystem} {w : MemberNet}

theorem Lineage.next_version (h : sys.Lineage w) {i : NodeId} {q : CatalogProposal}
    (hq : (w.cat.stores i).prepared = some q) :
    q.catalog.version = (w.cat.stores i).inner.version + 1 := by
  have hexp := (CatalogStore.validateProposal_eq_ok ((h.sound i).prepared q hq).1).1
  rw [(h.prepared i q hq).version, hexp]

theorem Lineage.first_le (h : sys.Lineage w) (hv : sys.Descended w.committed v) :
    sys.initial.version ≤ v.version := by
  rcases hv with rfl | ⟨b, hb, hver, -⟩
  · exact le_rfl
  · have := (h.descended b hb).2
    omega

theorem Lineage.latest_le (h : sys.Lineage w) (i : NodeId) :
    (w.cat.stores i).latest.version ≤ (w.cat.stores i).inner.version + 1 :=
  (CatalogStore.inner_le_latest fun _ hq => h.next_version hq).2

/-- A catalog of the version after `b`'s follows `b` by one step of the voters. -/
theorem Lineage.step_of_succ (h : sys.Lineage w) (hagree : CatalogsAgree w.committed)
    (hb : b ∈ w.committed) (hv : sys.Descended w.committed v)
    (hver : v.version = b.version + 1) : Quorum.Step b.voterSets v.voterSets := by
  rcases hv with rfl | ⟨b', hb', hver', hstep⟩
  · have := (h.descended b hb).2
    omega
  · obtain rfl := hagree b hb b' hb' (by omega)
    exact hstep

/-- **Leaders of one term are one node**, whatever sets they were counted by. -/
theorem MemberInv.elected_unique (hi : sys.MemberInv w) (hagree : CatalogsAgree w.committed)
    {i j : NodeId} {t : Nat} (hI : (i, t) ∈ w.cat.net.elected)
    (hJ : (j, t) ∈ w.cat.net.elected) : i = j := by
  -- the one counted by the older catalog first
  have hkey : ∀ {i j : NodeId} {c c' : Catalog} {Q Q' : Finset NodeId} {t₀ : Nat},
      c ∈ w.committed → c' ∈ w.committed → c.version ≤ c'.version →
      Quorum.Joint Q c.voterSets → Quorum.Joint Q' c'.voterSets →
      (∀ u ∈ Q, (⟨u, t, i⟩ : Ballot) ∈ w.cat.net.ballots ∧ Abreast w u t c.version) →
      (∀ u ∈ Q', (⟨u, t, j⟩ : Ballot) ∈ w.cat.net.ballots) → t₀ < t →
      sys.CertifiedTo w.committed w.cat.accepted t₀ c'.version → i = j := by
    intro i j c c' Q Q' t₀ hc hc' hle hQ hQ' hback hback' ht hcert
    have hone : ∀ u ∈ Q, u ∈ Q' → i = j := fun u hu hu' =>
      hi.office.ballots.unique _ (hback u hu).1 _ (hback' u hu') rfl rfl
    have hcases : c.version = c'.version ∨ c'.version = c.version + 1 ∨
        c.version + 2 ≤ c'.version := by omega
    rcases hcases with hsame | hsucc | hfar
    · obtain rfl := hagree c hc c' hc' hsame
      obtain ⟨u, hu, hu'⟩ := hQ.exists_common hQ'
      exact hone u hu hu'
    · obtain ⟨u, hu, hu'⟩ := hQ.exists_common_of_step
        (hi.lineage.step_of_succ hagree hc (hi.lineage.descended c' hc').1 hsucc) hQ'
      exact hone u hu hu'
    · -- somebody who voted for the older one had prepared two versions past it
      have hfirst := (hi.lineage.descended c hc).2
      obtain ⟨t', ht', b, hb, hn, P, hP, hacc⟩ := hcert (c.version + 2) (by omega) hfar
      obtain ⟨u, hu, huP⟩ := hQ.exists_common_of_step
        (hi.lineage.step_of_succ hagree hc (hi.lineage.descended b hb).1 (by omega)) hP
      obtain ⟨v, hv, hver⟩ := hacc u huP
      have hle : v.version ≤ c.version + 1 :=
        (hback u hu).2 ⟨u, t', v⟩ hv rfl (lt_of_le_of_lt ht' ht)
      omega
  obtain ⟨c, hc, Q, hQ, hback, t₀, ht₀, hcert⟩ := hi.campaigns.elected i t hI
  obtain ⟨c', hc', Q', hQ', hback', t₀', ht₀', hcert'⟩ := hi.campaigns.elected j t hJ
  rcases Nat.le_total c.version c'.version with hle | hle
  · exact hkey hc hc' hle hQ hQ' hback (fun u hu => (hback' u hu).1) ht₀' hcert'
  · exact (hkey hc' hc hle hQ' hQ hback' (fun u hu => (hback u hu).1) ht₀ hcert).symm

end Reading

end CatalogSystem

end Shardlite.Cluster
