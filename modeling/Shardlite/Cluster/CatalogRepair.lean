/-
  Shardlite.Cluster.CatalogRepair

  How a leader brings a voter's catalog up to its own: it prepares and commits its current value
  there once more, and installs it as a snapshot.  A snapshot is not installed over a proposal
  that is prepared, and a proposal only extends the committed version by one; so a voter that
  kept a proposal and missed more than one version since is out of reach of both.
-/
import Shardlite.Cluster.CatalogStore
import Shardlite.Lib.Machine

namespace Shardlite.Cluster

namespace CatalogStore

/-! ## Every state of a store -/

/-- What is asked of a store, and its reopening. -/
inductive StoreAct where
  | apply (expectedVersion : Nat) (change : Catalog → Except Error Catalog)
  | prepare (proposal : CatalogProposal)
  | commit (term version : Nat)
  | install (catalog : Catalog)
  | reopen

/-- One call of the store; one that fails changes nothing. -/
def perform (s : CatalogStore) : StoreAct → CatalogStore
  | .apply expectedVersion change => (s.apply expectedVersion change).toOption.getD s
  | .prepare proposal => (s.prepare proposal).toOption.getD s
  | .commit term version => (s.commitPrepared term version).toOption.getD s
  | .install catalog => (s.installCommitted catalog).toOption.getD s
  | .reopen => (openFiles s.file s.preparedFile).toOption.getD s

/-- The store that `create` leaves behind, after these calls. -/
def history (c : Catalog) (acts : List StoreAct) : CatalogStore :=
  Machine.run perform ⟨c, none, c, none⟩ acts

variable {s : CatalogStore}

/-- A call that keeps a store in order does so if it is refused too. -/
theorem Sound.getD (h : s.Sound) {result : Except Error CatalogStore}
    (hok : ∀ s', result = .ok s' → s'.Sound) : (result.toOption.getD s).Sound := by
  cases result with
  | error e => exact h
  | ok s' => exact hok s' rfl

theorem Sound.perform (h : s.Sound) (a : StoreAct) : (s.perform a).Sound := by
  cases a with
  | apply expectedVersion change => exact h.getD fun _ hok => h.apply hok
  | prepare proposal => exact h.getD fun _ hok => h.prepare hok
  | commit term version => exact h.getD fun _ hok => h.commitPrepared hok
  | install catalog => exact h.getD fun _ hok => h.installCommitted hok
  | reopen =>
    refine h.getD fun s' hok => ?_
    rw [h.openFiles_eq] at hok
    exact Except.ok.inj hok ▸ h

theorem sound_history {c : Catalog} (hvalid : c.validate = .ok ()) (acts : List StoreAct) :
    (history c acts).Sound :=
  Machine.invariant_run_of_forall perform (fun _ a h => h.perform a)
    ⟨rfl, rfl, hvalid, nofun⟩ acts

/-! ## Repairing -/

/-- The messages that the leader of a term repairs a voter with. -/
inductive RepairStep where
  | prepare
  | commit
  | install
  deriving DecidableEq

/-- The proposal in which the leader publishes its committed value once more. -/
def republished (term : Nat) (c : Catalog) : CatalogProposal := ⟨term, c.version - 1, c⟩

/-- The voter's store after a repair message of the leader of `term`, whose catalog is `c`. -/
def repair (term : Nat) (c : Catalog) (s : CatalogStore) : RepairStep → CatalogStore
  | .prepare => (s.prepare (republished term c)).toOption.getD s
  | .commit => (s.commitPrepared term c.version).toOption.getD s
  | .install => (s.installCommitted c).toOption.getD s

/-- Some messages bring the voter to the leader's catalog. -/
def CanRepair (s : CatalogStore) (term : Nat) (c : Catalog) : Prop :=
  ∃ steps, (Machine.run (repair term c) s steps).inner = c

/-- `c` is a later value of the same catalog. -/
structure Newer (old c : Catalog) : Prop where
  valid : c.validate = .ok ()
  cluster : c.clusterId = old.clusterId
  version : old.version < c.version
  fits : c.version < u64Size
  routingEpoch : old.routingEpoch ≤ c.routingEpoch
  compatible : old.compatibility.check c.compatibility = .ok ()

/-- Nothing is prepared; or the voter is one version behind, and what it has prepared is the
    leader's proposal or one of an earlier term. -/
def Repairable (s : CatalogStore) (term : Nat) (c : Catalog) : Prop :=
  ∀ q ∈ s.prepared, c.version = s.inner.version + 1 ∧ (q = republished term c ∨ q.term < term)

section Repair

variable {s : CatalogStore} {term : Nat} {c : Catalog}
variable {p : CatalogProposal}

theorem installCommitted_of_newer (hnew : Newer s.inner c) (hnone : s.prepared = none) :
    s.installCommitted c = .ok { s with file := c, inner := c } := by
  unfold installCommitted
  refine bind_eq_ok.2 ⟨(), hnew.valid, bind_eq_ok.2 ⟨(), refuseIf_eq_ok.2 (not_not.2 hnew.cluster), ?_⟩⟩
  refine bind_eq_ok.2 ⟨(), refuseIf_eq_ok.2 (not_lt.2 hnew.version.le), ?_⟩
  rw [if_neg hnew.version.ne']
  exact bind_eq_ok.2 ⟨(), refuseIf_eq_ok.2 (by simp [hnone]), rfl⟩

theorem validateProposal_republished (term : Nat) (hnew : Newer s.inner c)
    (hnext : c.version = s.inner.version + 1) :
    validateProposal s.inner (republished term c) = .ok () := by
  have hfits := hnew.fits
  have hsucc : c.version = saturatingSucc s.inner.version := by
    rw [saturatingSucc, hnext]
    omega
  have hexpected : c.version - 1 = s.inner.version := by omega
  unfold validateProposal republished
  refine bind_eq_ok.2 ⟨(), refuseIf_eq_ok.2 ?_, ?_⟩
  · rw [not_or, not_not, not_not]
    exact ⟨hexpected, hsucc⟩
  refine bind_eq_ok.2 ⟨(), refuseIf_eq_ok.2 (not_not.2 hnew.cluster), ?_⟩
  refine bind_eq_ok.2 ⟨(), refuseIf_eq_ok.2 (not_lt.2 hnew.routingEpoch), ?_⟩
  exact bind_eq_ok.2 ⟨(), hnew.compatible, hnew.valid⟩

theorem prepare_newer (hne : s.inner ≠ p.catalog)
    (hvalid : validateProposal s.inner p = .ok ()) (hlt : ∀ q ∈ s.prepared, q.term < p.term) :
    s.prepare p = .ok { s with preparedFile := some p, prepared := some p } := by
  unfold prepare
  split_ifs with hsame
  · exact absurd hsame.2 hne
  · refine bind_eq_ok.2 ⟨(), hvalid, ?_⟩
    cases hq : s.prepared with
    | none => rfl
    | some q =>
      have hterm := hlt q hq
      have hdiff : q ≠ p := fun heq => absurd hterm (heq ▸ lt_irrefl _)
      simp only [if_neg hdiff, if_neg (not_lt.2 hterm.le), if_neg hterm.ne]
      rfl

theorem prepare_again (hne : s.inner ≠ p.catalog)
    (hvalid : validateProposal s.inner p = .ok ()) (hp : s.prepared = some p) :
    s.prepare p = .ok s := by
  unfold prepare
  split_ifs with hsame
  · exact absurd hsame.2 hne
  · refine bind_eq_ok.2 ⟨(), hvalid, ?_⟩
    rw [hp]
    simp only [if_true]
    rfl

/-- The leader's proposal is accepted, over one of an earlier term or over itself. -/
theorem prepare_republished (hnew : Newer s.inner c) (hnext : c.version = s.inner.version + 1)
    (hold : ∀ q ∈ s.prepared, q = republished term c ∨ q.term < term) :
    ∃ s', s.prepare (republished term c) = .ok s' ∧ s'.inner = s.inner ∧
      s'.prepared = some (republished term c) := by
  have hne : s.inner ≠ (republished term c).catalog := fun h =>
    hnew.version.ne (congrArg Catalog.version h)
  have hvalid := validateProposal_republished term hnew hnext
  by_cases hsame : s.prepared = some (republished term c)
  · exact ⟨s, prepare_again hne hvalid hsame, rfl, hsame⟩
  · refine ⟨_, prepare_newer hne hvalid fun q hq => ?_, rfl, rfl⟩
    rcases hold q hq with rfl | hlt
    · exact absurd hq hsame
    · exact hlt

theorem commit_republished (hnew : Newer s.inner c)
    (hprepared : s.prepared = some (republished term c)) :
    ∃ s', s.commitPrepared term c.version = .ok s' ∧ s'.inner = c := by
  unfold commitPrepared
  have hsame : ¬ ((republished term c).term ≠ term ∨
      (republished term c).catalog.version ≠ c.version) := by
    rintro (h | h) <;> exact h rfl
  rw [if_neg hnew.version.ne, hprepared]
  simp only [if_neg hsame]
  exact ⟨_, rfl, rfl⟩

theorem canRepair_of_repairable (hnew : Newer s.inner c) (h : s.Repairable term c) :
    s.CanRepair term c := by
  cases hq : s.prepared with
  | none =>
    refine ⟨[.install], ?_⟩
    show ((s.installCommitted c).toOption.getD s).inner = c
    rw [installCommitted_of_newer hnew hq]
    rfl
  | some q =>
    obtain ⟨hnext, -⟩ := h q hq
    obtain ⟨s₁, hprepare, hinner, hprepared⟩ :=
      prepare_republished hnew hnext fun q' hq' => (h q' hq').2
    obtain ⟨s₂, hcommit, hdone⟩ := commit_republished (hinner ▸ hnew) hprepared
    refine ⟨[.prepare, .commit], ?_⟩
    have h₁ : repair term c s .prepare = s₁ := by rw [repair, hprepare]; rfl
    have h₂ : repair term c s₁ .commit = s₂ := by rw [repair, hcommit]; rfl
    show (repair term c (repair term c s .prepare) .commit).inner = c
    rw [h₁, h₂, hdone]

/-! ## Out of reach -/

/-- The voter is as it was, or has taken another value of the version that it is to be given. -/
def Astray (s₀ : CatalogStore) (c : Catalog) (s : CatalogStore) : Prop :=
  s = s₀ ∨ s.inner.version = c.version ∧ s.inner ≠ c

theorem repair_conflict (term : Nat) (hpos : 0 < c.version) (hversion : s.inner.version = c.version)
    (hne : s.inner ≠ c) (step : RepairStep) : (repair term c s step).inner = s.inner := by
  cases step with
  | prepare =>
    have hrefused : ∀ s', s.prepare (republished term c) ≠ .ok s' := by
      intro s' hok
      have hexpected : (republished term c).expectedVersion = c.version - 1 := rfl
      rcases prepare_cases hok with ⟨-, heq⟩ | ⟨-, -, hvalid⟩ | ⟨-, -, hvalid, -⟩
      · exact hne heq
      · have := (validateProposal_eq_ok hvalid).1
        omega
      · have := (validateProposal_eq_ok hvalid).1
        omega
    cases hresult : s.prepare (republished term c) with
    | error e => rw [repair, hresult]; rfl
    | ok s' => exact absurd hresult (hrefused s')
  | commit =>
    show ((s.commitPrepared term c.version).toOption.getD s).inner = s.inner
    rw [commitPrepared, if_pos hversion]
    split_ifs <;> rfl
  | install =>
    cases hresult : s.installCommitted c with
    | error e => rw [repair, hresult]; rfl
    | ok s' =>
      rw [repair, hresult]
      rcases installCommitted_cases hresult with rfl | ⟨-, -, hlt, -⟩
      · rfl
      · omega

theorem repair_astray (hsound : s.Sound) (hnew : Newer s.inner c) (hnot : ¬ s.Repairable term c)
    (step : RepairStep) : Astray s c (repair term c s step) := by
  obtain ⟨q, hq, hbad⟩ : ∃ q, s.prepared = some q ∧
      ¬ (c.version = s.inner.version + 1 ∧ (q = republished term c ∨ q.term < term)) := by
    by_contra hall
    push Not at hall
    exact hnot fun q hq => hall q hq
  have hqversion := (validateProposal_eq_ok (hsound.prepared q hq).1).2.1
  have hfits := hnew.fits
  have hversion := hnew.version
  rw [saturatingSucc] at hqversion
  cases step with
  | prepare =>
    cases hresult : s.prepare (republished term c) with
    | error e => exact .inl (by rw [repair, hresult]; rfl)
    | ok s' =>
      rcases prepare_cases hresult with ⟨rfl, -⟩ | ⟨rfl, -⟩ | ⟨-, -, hvalid, hlt⟩
      · exact .inl (by rw [repair, hresult]; rfl)
      · exact .inl (by rw [repair, hresult]; rfl)
      · have hnext : c.version = saturatingSucc s.inner.version := (validateProposal_eq_ok hvalid).2.1
        rw [saturatingSucc] at hnext
        exact absurd ⟨by omega, .inr (hlt q hq)⟩ hbad
  | commit =>
    cases hresult : s.commitPrepared term c.version with
    | error e => exact .inl (by rw [repair, hresult]; rfl)
    | ok s' =>
      rcases commitPrepared_cases hresult with ⟨heq, -⟩ | ⟨q', hq', hterm, hver, rfl⟩
      · exact absurd heq hversion.ne
      · cases hq.symm.trans hq'
        -- it was prepared in this term, but is not the leader's value
        refine .inr ?_
        have hinner : (repair term c s .commit).inner = q.catalog := by rw [repair, hresult]; rfl
        rw [hinner]
        refine ⟨hver, fun hcat => hbad ⟨by omega, .inl ?_⟩⟩
        have hexpected := (validateProposal_eq_ok (hsound.prepared q hq).1).1
        obtain ⟨qterm, qexpected, qcatalog⟩ := q
        simp only at hterm hcat hexpected hver hqversion
        rw [republished, hterm, hcat, hexpected]
        congr 1
        omega
  | install =>
    cases hresult : s.installCommitted c with
    | error e => exact .inl (by rw [repair, hresult]; rfl)
    | ok s' =>
      rcases installCommitted_cases hresult with rfl | ⟨-, hnone, -⟩
      · exact .inl (by rw [repair, hresult]; rfl)
      · exact absurd (hnone.symm.trans hq) (by simp)

theorem repairable_of_canRepair (hsound : s.Sound) (hnew : Newer s.inner c)
    (h : s.CanRepair term c) : s.Repairable term c := by
  by_contra hnot
  obtain ⟨steps, hsteps⟩ := h
  have hastray : Astray s c (Machine.run (repair term c) s steps) := by
    refine Machine.invariant_run_of_forall (repair term c) ?_ (.inl rfl) steps
    rintro s' step (rfl | ⟨hversion, hne⟩)
    · exact repair_astray hsound hnew hnot step
    · have hsame := repair_conflict term (Nat.zero_lt_of_lt hnew.version) hversion hne step
      exact .inr (by rw [hsame]; exact ⟨hversion, hne⟩)
  rcases hastray with heq | ⟨-, hne⟩
  · rw [heq] at hsteps
    exact hnew.version.ne (congrArg Catalog.version hsteps)
  · exact hne hsteps

end Repair

/-- **Repairing a lagging voter.**  In every state of its store, for every later catalog that the
    leader of a term has committed, the leader's repair messages can bring the voter there exactly
    if nothing is prepared, or the voter is one version behind and what it has prepared is that very
    proposal or of an earlier term. -/
theorem canRepair_iff_repairable (c₀ : Catalog) (hvalid : c₀.validate = .ok ())
    (acts : List StoreAct)
    (term : Nat) (c : Catalog) (hnew : Newer (history c₀ acts).inner c) :
    (history c₀ acts).CanRepair term c ↔ (history c₀ acts).Repairable term c :=
  ⟨repairable_of_canRepair (sound_history hvalid acts) hnew, canRepair_of_repairable hnew⟩

/-- A catalog of three voters, at this version and with this limit on the split log. -/
def threeVoterCatalog (version rows : Nat) : Catalog :=
  { Catalog.ofMembers .one [(1, ⟨1, 1, "a", .voter, .active, 1, none⟩),
      (2, ⟨2, 1, "b", .voter, .active, 1, none⟩), (3, ⟨3, 1, "c", .voter, .active, 1, none⟩)]
      [(0, ⟨1, 1, []⟩)] with
    version, scalingPolicy := { splitLogMaxRows := rows } }

/-- The voter prepared version 2 in term 1, and heard no more of it. -/
def missedCommit : CatalogStore :=
  history (threeVoterCatalog 1 1000) [.prepare ⟨1, 1, threeVoterCatalog 2 2000⟩]

/-- The leader of term 2 has another version 2. -/
theorem missedCommit_repairs : missedCommit.CanRepair 2 (threeVoterCatalog 2 3000) := by
  refine (canRepair_iff_repairable (threeVoterCatalog 1 1000) (by decide +kernel)
    [.prepare ⟨1, 1, threeVoterCatalog 2 2000⟩] 2 (threeVoterCatalog 2 3000) ?_).2 ?_
  · exact ⟨by decide +kernel, by decide +kernel, by decide +kernel, by decide +kernel,
      by decide +kernel, by decide +kernel⟩
  · show ∀ q ∈ missedCommit.prepared, _
    decide +kernel

/-- The cluster went on to version 3, with the value that the voter has prepared as version 2. -/
theorem missedCommit_out_of_reach :
    Newer missedCommit.inner (threeVoterCatalog 3 2000) ∧
      missedCommit.prepared = some ⟨1, 1, threeVoterCatalog 2 2000⟩ ∧
      ¬ missedCommit.CanRepair 1 (threeVoterCatalog 3 2000) ∧
      ¬ missedCommit.CanRepair 2 (threeVoterCatalog 3 2000) := by
  have hsound : missedCommit.Sound := sound_history (by decide +kernel) _
  have hnew : Newer missedCommit.inner (threeVoterCatalog 3 2000) :=
    ⟨by decide +kernel, by decide +kernel, by decide +kernel, by decide +kernel, by decide +kernel,
      by decide +kernel⟩
  have hprepared : missedCommit.prepared = some ⟨1, 1, threeVoterCatalog 2 2000⟩ := by decide +kernel
  have hstuck : ∀ term, ¬ missedCommit.CanRepair term (threeVoterCatalog 3 2000) := by
    intro term h
    have hnext := (repairable_of_canRepair hsound hnew h _ hprepared).1
    exact absurd hnext (by decide +kernel)
  exact ⟨hnew, hprepared, hstuck 1, hstuck 2⟩

end CatalogStore

end Shardlite.Cluster
