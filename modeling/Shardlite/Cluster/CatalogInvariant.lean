/-
  Shardlite.Cluster.CatalogInvariant

  Why catalog rounds agree.  Prepares are ballots: a voter's clock is its term,
  and it prepares only in its current term, for the leader it recognises.  A
  leader proposes safely when what its voters could have helped to choose in an
  earlier term is what it carries itself, which is what the vote restriction on
  catalog positions and the recovery of its own prepared value are for.

  The invariant comes in four parts, each over the components of the state it
  reads, so that a step which leaves them alone keeps it as it stands.
-/
import Shardlite.Cluster.CatalogQuorum
import Shardlite.Lib.Ballots

namespace Shardlite.Cluster

/-! ## What the rounds decide -/

/-- The value was sent out to be prepared in `t`. -/
def Proposed (mail : List CatalogMsg) (t : Nat) (v : Catalog) : Prop :=
  ∃ l p, .prepare l p ∈ mail ∧ p.term = t ∧ p.catalog = v

/-- What the store still shows of a value it accepted in `t`: it is behind, it is
    the committed or the prepared value, or it can no longer be chosen. -/
def Holds (b : Ballots NodeId Catalog) (s : CatalogStore) (t : Nat) (v : Catalog) : Prop :=
  v.version < s.inner.version ∨
    v.version = s.inner.version ∧ (v = s.inner ∨ ¬ b.Choosable t v) ∨
    ∃ q, s.prepared = some q ∧ q.catalog.version = v.version ∧ t ≤ q.term ∧
      (q.catalog = v ∨ ¬ b.Choosable t v)

namespace Holds

variable {b b' : Ballots NodeId Catalog} {s s' : CatalogStore} {t : Nat} {v : Catalog}
  {p : CatalogProposal}

theorem advance (hadv : b.Advances b') (h : Holds b s t v) : Holds b' s t v := by
  have hgone : ¬ b.Choosable t v → ¬ b'.Choosable t v := fun hno hc => hno (hadv.choosable hc)
  rcases h with hlt | ⟨hver, h⟩ | ⟨q, hq, hver, hle, h⟩
  · exact .inl hlt
  · exact .inr (.inl ⟨hver, h.imp_right hgone⟩)
  · exact .inr (.inr ⟨q, hq, hver, hle, h.imp_right hgone⟩)

theorem commits (hs : s.Commits s') (h : Holds b s t v) : Holds b s' t v := by
  have hlt := hs.version
  rcases h with hver | ⟨hver, -⟩ | ⟨q, hq, hver, -, h⟩
  · exact .inl (by omega)
  · exact .inl (by omega)
  · have hinner := hs.taken q hq
    refine .inr (.inl ⟨by rw [hinner, hver], ?_⟩)
    rw [hinner]
    exact h.imp_left Eq.symm

/-- A proposal that replaces the prepared one is safe, so the value it replaces
    is its own or can no longer be chosen. -/
theorem prepare (hprep : s.prepare p = .ok s')
    (hnext : ∀ q, s.prepared = some q → q.catalog.version = s.inner.version + 1)
    (hp : p.catalog.version = p.expectedVersion + 1)
    (hsafe : b.Safe Catalog.version p.term p.catalog) (h : Holds b s t v) : Holds b s' t v := by
  rcases CatalogStore.prepare_leaves hprep with ⟨rfl, -⟩ | ⟨hinner, hpend, hexp, hold⟩
  · exact h
  · rcases h with hlt | h | ⟨q, hq, hver, hle, h⟩
    · exact .inl (hinner.symm ▸ hlt)
    · exact .inr (.inl (hinner.symm ▸ h))
    · refine .inr (.inr ⟨p, hpend, ?_, ?_, ?_⟩)
      · rw [hp, hexp, ← hnext q hq, hver]
      · rcases hold q hq with rfl | hlt
        · exact hle
        · omega
      · rcases hold q hq with rfl | hlt
        · exact h
        · by_cases heq : p.catalog = v
          · exact .inl heq
          · refine .inr (hsafe t (by omega) v ?_ (Ne.symm heq))
            rw [hp, hexp, ← hnext q hq, hver]

theorem of_prepare (hprep : s.prepare p = .ok s') : Holds b s' p.term p.catalog := by
  rcases CatalogStore.prepare_leaves hprep with ⟨rfl, heq⟩ | ⟨-, hpend, -⟩
  · exact .inr (.inl ⟨by rw [heq], .inl heq.symm⟩)
  · exact .inr (.inr ⟨p, hpend, rfl, le_rfl, .inl rfl⟩)

/-- An accepted value is not ahead of the position the voter reports, and it is
    the value reported when it has its version and can still be chosen. -/
theorem le_latest (hnext : ∀ q, s.prepared = some q → q.catalog.version = s.inner.version + 1)
    (h : Holds b s t v) :
    v.version ≤ s.latest.version ∧
      (v.version = s.latest.version → v = s.latest ∨ ¬ b.Choosable t v) := by
  cases hq : s.prepared with
  | none =>
    have hlat : s.latest = s.inner := by rw [CatalogStore.latest, hq]; rfl
    rw [hlat]
    rcases h with hlt | ⟨hver, h⟩ | ⟨q, hq', -⟩
    · exact ⟨hlt.le, fun heq => absurd heq hlt.ne⟩
    · exact ⟨hver.le, fun _ => h⟩
    · cases hq.symm.trans hq'
  | some q =>
    have hlat : s.latest = q.catalog := by rw [CatalogStore.latest, hq]; rfl
    have hver := hnext q hq
    rw [hlat]
    rcases h with hlt | ⟨heq, -⟩ | ⟨q', hq', hver', -, h⟩
    · exact ⟨by omega, fun heq => by omega⟩
    · exact ⟨by omega, fun heq' => by omega⟩
    · cases hq.symm.trans hq'
      exact ⟨hver'.ge, fun _ => h.imp_left Eq.symm⟩

end Holds

namespace CatalogSystem

section Parts

variable (sys : CatalogSystem) (net : Net) (stores : NodeId → CatalogStore)
  (mail : List CatalogMsg) (accepted : List Acceptance) (derived : List (Catalog × Catalog))

/-- The prepares of a run as ballots over the current voter set. -/
def box : Ballots NodeId Catalog where
  voters := sys.voters.current
  accepted u t v := ⟨u, t, v⟩ ∈ accepted
  clock u := (net.nodes u).term

/-- The value every store started from, or one that a majority prepared. -/
def Settled (v : Catalog) : Prop :=
  v = sys.initial ∨ ∃ t, (sys.box net accepted).Chosen t v

/-- A catalog that is initial or was made by a change. -/
def Known (v : Catalog) : Prop :=
  v = sys.initial ∨ ∃ b, (b, v) ∈ derived

structure WellBuilt (p : CatalogProposal) : Prop where
  version : p.catalog.version = p.expectedVersion + 1
  known : sys.Known derived p.catalog

/-- Every value in a store, a proposal, a round or a message was built from an
    earlier one and follows it by one version. -/
structure Records (proposals : NodeId → List CatalogProposal) (rounds : NodeId → List Round) :
    Prop where
  sound : ∀ i, (stores i).Sound
  inner : ∀ i, sys.Known derived (stores i).inner
  prepared : ∀ i q, (stores i).prepared = some q → sys.WellBuilt derived q
  proposals : ∀ i, ∀ p ∈ proposals i, sys.WellBuilt derived p
  rounds : ∀ i, ∀ r ∈ rounds i,
    sys.WellBuilt derived r.proposal ∧ r.voterSets = (sys.voters.current, sys.voters.next)
  mailed : ∀ l p, .prepare l p ∈ mail → sys.WellBuilt derived p
  derived : ∀ b v, (b, v) ∈ derived → v.version = b.version + 1 ∧
    sys.initial.version ≤ b.version ∧ v.voterSets = (sys.voters.current, sys.voters.next)

/-- The ballots are disciplined, and each store remembers what it accepted. -/
structure Accepting : Prop where
  disciplined : (sys.box net accepted).Disciplined Catalog.version (Proposed mail)
  clock : ∀ u t v, ⟨u, t, v⟩ ∈ accepted → t ≤ (net.nodes u).term
  prepared : ∀ i q, (stores i).prepared = some q → ⟨i, q.term, q.catalog⟩ ∈ accepted
  holds : ∀ u t v, ⟨u, t, v⟩ ∈ accepted → Holds (sys.box net accepted) (stores u) t v

/-- What a vote says about the candidate, and what a leader carries. -/
structure Leading : Prop where
  sender : ∀ l p, .prepare l p ∈ mail → (l, p.term) ∈ net.elected
  /-- A vote for another node vouches that its request covers everything the
      voter accepted in earlier terms. -/
  vouched : ∀ u t i, (⟨u, t, i⟩ : Ballot) ∈ net.ballots → u ≠ i →
    ∃ d, .voteRequest ⟨t, i, d⟩ ∈ net.sent ∧ ∀ t' v, t' < t → ⟨u, t', v⟩ ∈ accepted →
      v.version ≤ d.catalog.version ∧ (v.version = d.catalog.version →
        sys.digest v = d.catalog.digest ∨ ¬ (sys.box net accepted).Choosable t' v)
  /-- A candidate or leader still holds the position it asked for votes with. -/
  carried : ∀ i d, (net.nodes i).role ≠ .follower →
    .voteRequest ⟨(net.nodes i).term, i, d⟩ ∈ net.sent →
    d.catalog.version ≤ (stores i).inner.version ∨
      ∃ q, (stores i).prepared = some q ∧ q.catalog.version = d.catalog.version ∧
        sys.digest q.catalog = d.catalog.digest
  /-- A leader still holds what it proposed in its term. -/
  led : ∀ i p, (net.nodes i).role = .leader → .prepare i p ∈ mail →
    p.term = (net.nodes i).term →
    p.catalog.version < (stores i).inner.version ∨ (stores i).inner = p.catalog ∨
      ∃ q, (stores i).prepared = some q ∧ q.term = p.term ∧ q.catalog = p.catalog
  fresh : ∀ i p, (net.nodes i).role = .candidate → .prepare i p ∈ mail →
    p.term ≠ (net.nodes i).term

/-- Whatever is committed, broadcast or acknowledged is settled. -/
structure Deciding (rounds : NodeId → List Round) (acknowledged : List CatalogProposal) :
    Prop where
  inner : ∀ i, sys.Settled net accepted (stores i).inner
  derived : ∀ b v, (b, v) ∈ derived → sys.Settled net accepted b
  rounds : ∀ i, ∀ r ∈ rounds i, ∀ S, r.prepared = some S → .prepare i r.proposal ∈ mail ∧
    ∀ u ∈ S, ⟨u, r.proposal.term, r.proposal.catalog⟩ ∈ accepted
  acks : ∀ u l t n, .prepared u l t n ∈ mail → ∃ v, ⟨u, t, v⟩ ∈ accepted ∧ v.version = n
  commits : ∀ l t n, .commit l t n ∈ mail →
    ∃ v, (sys.box net accepted).Chosen t v ∧ v.version = n
  installs : ∀ l t v, .install l t v ∈ mail → sys.Settled net accepted v
  acknowledged : ∀ p ∈ acknowledged, sys.Settled net accepted p.catalog

end Parts

structure Inv (sys : CatalogSystem) (w : CatalogNet) : Prop where
  election : ElectionInv sys.voters w.net
  records : sys.Records w.stores w.mail w.derived w.proposals w.rounds
  accepting : sys.Accepting w.net w.stores w.mail w.accepted
  leading : sys.Leading w.net w.stores w.mail w.accepted
  deciding : sys.Deciding w.net w.stores w.mail w.accepted w.derived w.rounds w.acknowledged

/-! ## Values of the run -/

section Values

variable {sys : CatalogSystem} {net net' : Net} {stores : NodeId → CatalogStore}
  {mail : List CatalogMsg} {accepted accepted' : List Acceptance}
  {derived : List (Catalog × Catalog)} {proposals : NodeId → List CatalogProposal}
  {rounds : NodeId → List Round} {v v' : Catalog}
variable {t : Nat} {derived' : List (Catalog × Catalog)}

section

variable (hr : sys.Records stores mail derived proposals rounds)

include hr

theorem Records.version_of_known (hv : sys.Known derived v) : sys.initial.version ≤ v.version := by
  rcases hv with rfl | ⟨b, hb⟩
  · exact le_rfl
  · obtain ⟨hver, hle, -⟩ := hr.derived b v hb
    omega

theorem Records.eq_initial_of_known
    (hv : sys.Known derived v) (hver : v.version = sys.initial.version) : v = sys.initial := by
  rcases hv with rfl | ⟨b, hb⟩
  · rfl
  · obtain ⟨hver', hle, -⟩ := hr.derived b v hb
    omega

theorem Records.voterSets_of_known
    (hv : sys.Known derived v) : v.voterSets = (sys.voters.current, sys.voters.next) := by
  rcases hv with rfl | ⟨b, hb⟩
  · exact sys.initial_voterSets
  · exact (hr.derived b v hb).2.2

theorem Records.next_version {i : NodeId}
    {q : CatalogProposal} (hq : (stores i).prepared = some q) :
    q.catalog.version = (stores i).inner.version + 1 := by
  have hexp := (CatalogStore.validateProposal_eq_ok ((hr.sound i).prepared q hq).1).1
  rw [(hr.prepared i q hq).version, hexp]

theorem Records.known_of_proposed (h : Proposed mail t v) : sys.Known derived v := by
  obtain ⟨l, p, hp, -, rfl⟩ := h
  exact (hr.mailed l p hp).known

section

variable (ha : sys.Accepting net stores mail accepted)

include ha

section

variable (hv : sys.Settled net accepted v)

include hv

theorem Settled.known :
    sys.Known derived v := by
  rcases hv with rfl | ⟨t, hchosen⟩
  · exact .inl rfl
  · obtain ⟨u, hu⟩ := hchosen.exists_accepted
    exact hr.known_of_proposed (ha.disciplined.origin hu)

/-- A rival of a settled value is choosable in no term that proposed it. -/
theorem Settled.not_choosable_rival
    (hp : Proposed mail t v') (hver : v'.version = v.version) (hne : v' ≠ v) :
    ¬ (sys.box net accepted).Choosable t v' := by
  rcases hv with rfl | ⟨t', hchosen⟩
  · exact absurd (hr.eq_initial_of_known (hr.known_of_proposed hp) hver) hne
  · exact hchosen.not_choosable_rival ha.disciplined hp hver hne

theorem Settled.unique
    (hv' : sys.Settled net accepted v') (hver : v.version = v'.version) : v = v' := by
  rcases hv' with rfl | ⟨t, hchosen⟩
  · exact hr.eq_initial_of_known (hv.known hr ha) hver
  · obtain ⟨u, hu⟩ := hchosen.exists_accepted
    by_contra hne
    exact hv.not_choosable_rival hr ha (ha.disciplined.origin hu) hver.symm (Ne.symm hne)
      hchosen.choosable

end

end

end

theorem Settled.mono (hadv : (sys.box net accepted).Advances (sys.box net' accepted'))
    (hv : sys.Settled net accepted v) : sys.Settled net' accepted' v :=
  hv.imp_right fun ⟨t, hchosen⟩ => ⟨t, hadv.chosen hchosen⟩

theorem Known.mono (hsub : derived ⊆ derived') (hv : sys.Known derived v) : sys.Known derived' v :=
  hv.imp_right fun ⟨b, hb⟩ => ⟨b, hsub hb⟩

theorem WellBuilt.mono {p : CatalogProposal}
    (hsub : derived ⊆ derived') (hp : sys.WellBuilt derived p) : sys.WellBuilt derived' p :=
  ⟨hp.version, hp.known.mono hsub⟩

end Values

end CatalogSystem

end Shardlite.Cluster
