/-
  Shardlite.Cluster.CatalogStore

  One node's crash-safe catalog copy: the committed value and at most one
  prepared proposal, each in its own file and in memory.  Every operation either
  completes or leaves the store as it was.
-/
import Shardlite.Cluster.Catalog
import Shardlite.Cluster.Durability

namespace Shardlite.Cluster

/-- The two files, and their copies in memory. -/
structure CatalogStore where
  file : Catalog
  preparedFile : Option CatalogProposal
  inner : Catalog
  prepared : Option CatalogProposal
  deriving DecidableEq

/-- A proposal must extend the committed value of this very cluster by one. -/
def validateProposal (current : Catalog) (proposal : CatalogProposal) : Except Error Unit := do
  refuseIf (proposal.expectedVersion ≠ current.version ∨
      proposal.catalog.version ≠ saturatingSucc current.version)
    (.clusterConfig (s!"catalog proposal expected/next versions are " ++
      s!"{proposal.expectedVersion}/{proposal.catalog.version}, current committed version is " ++
      s!"{current.version}"))
  refuseIf (proposal.catalog.clusterId ≠ current.clusterId)
    (.clusterConfig (s!"catalog proposal belongs to cluster " ++
      s!"{clusterIdName proposal.catalog.clusterId}, local voter belongs to " ++
      s!"{clusterIdName current.clusterId}"))
  refuseIf (proposal.catalog.routingEpoch < current.routingEpoch)
    (.clusterConfig (s!"catalog proposal routing epoch {proposal.catalog.routingEpoch} " ++
      s!"regresses from {current.routingEpoch}"))
  current.compatibility.check proposal.catalog.compatibility
  proposal.catalog.validate

namespace CatalogStore

/-- The store `create` leaves behind. -/
def create (catalog : Catalog) : Except Error CatalogStore := do
  catalog.validate
  return ⟨catalog, none, catalog, none⟩

/-- Reopen from the two files.  A prepared file that repeats the committed value
    is left over from an interrupted commit and is removed. -/
def openFiles (file : Catalog) (preparedFile : Option CatalogProposal) :
    Except Error CatalogStore := do
  file.validate
  match preparedFile with
  | some proposal =>
    if file = proposal.catalog then return ⟨file, none, file, none⟩
    else
      validateProposal file proposal
      return ⟨file, some proposal, file, some proposal⟩
  | none => return ⟨file, none, file, none⟩

variable (s : CatalogStore)

def snapshot : Catalog := s.inner

/-- Install a leader's committed value on a lagging member. -/
def installCommitted (catalog : Catalog) : Except Error CatalogStore := do
  catalog.validate
  refuseIf (catalog.clusterId ≠ s.inner.clusterId)
    (.clusterConfig (s!"cannot install catalog for cluster {clusterIdName catalog.clusterId} " ++
      s!"over local cluster {clusterIdName s.inner.clusterId}"))
  refuseIf (catalog.version < s.inner.version)
    (.clusterConfig (s!"catalog snapshot regresses from version {s.inner.version} to " ++
      s!"{catalog.version}"))
  if catalog.version = s.inner.version then
    if catalog = s.inner then return s
    else throw (.clusterConfig s!"catalog version {catalog.version} has conflicting contents")
  else
    refuseIf (s.prepared.isSome)
      (.clusterConfig "cannot install a catalog snapshot while a proposal is prepared")
    return { s with file := catalog, inner := catalog }

/-- The value a voter must carry into an election: the prepared one if any,
    since it may already be chosen. -/
def latest : Catalog := (s.prepared.map (·.catalog)).getD s.inner

/-- `digest` is the hash of the catalog's encoding. -/
def durabilityPosition (digest : Catalog → Nat) (s : CatalogStore) : CatalogPosition :=
  ⟨s.latest.version, digest s.latest⟩

/-- Change the committed value without a quorum. -/
def apply (expectedVersion : Nat) (change : Catalog → Except Error Catalog) :
    Except Error CatalogStore := do
  refuseIf (s.inner.version ≠ expectedVersion)
    (.clusterConfig (s!"stale catalog update expected version {expectedVersion}, current version " ++
      s!"is {s.inner.version}"))
  refuseIf (s.prepared.isSome)
    (.clusterConfig "a catalog proposal is prepared; commit or supersede it before a local update")
  let next ← change s.inner
  let version ← okOr (checkedSucc next.version)
    (.clusterConfig "catalog version space exhausted")
  let next := { next with version }
  next.validate
  return { s with file := next, inner := next }

/-- Build the next value without publishing it.  The prepared proposal is not
    looked at. -/
def propose (term expectedVersion : Nat)
    (change : Catalog → Except Error Catalog) : Except Error CatalogProposal := do
  refuseIf (s.inner.version ≠ expectedVersion)
    (.clusterConfig (s!"stale catalog proposal expected version {expectedVersion}, current " ++
      s!"version is {s.inner.version}"))
  let next ← change s.inner
  let version ← okOr (checkedSucc next.version)
    (.clusterConfig "catalog version space exhausted")
  let next := { next with version }
  next.validate
  return ⟨term, expectedVersion, next⟩

/-- Fsync a proposal before acknowledging it to the leader. -/
def prepare (proposal : CatalogProposal) : Except Error CatalogStore :=
  let accept : CatalogStore := { s with preparedFile := some proposal, prepared := some proposal }
  if s.inner.version = proposal.catalog.version ∧ s.inner = proposal.catalog then
    -- the commit reached this voter and its acknowledgement was lost
    .ok s
  else do
    validateProposal s.inner proposal
    match s.prepared with
    | some existing =>
      if existing = proposal then return s
      else if existing.term > proposal.term then
        throw (.clusterConfig (s!"catalog proposal term {proposal.term} is stale; this voter " ++
          s!"prepared term {existing.term}"))
      else if existing.term = proposal.term then
        throw (.clusterConfig (s!"catalog term {proposal.term} already prepared a different " ++
          s!"value for version {proposal.catalog.version}; refusing equivocation"))
      else return accept
    | none => return accept

/-- Commit only the exact value this voter previously fsynced. -/
def commitPrepared (term version : Nat) : Except Error CatalogStore :=
  if s.inner.version = version then
    if s.prepared.any fun p => p.term = term ∧ p.catalog.version = version then
      .ok { s with preparedFile := none, prepared := none }
    else .ok s
  else
    match s.prepared with
    | none => .error (.clusterConfig
        s!"catalog version {version} term {term} was not prepared on this voter")
    | some proposal =>
      if proposal.term ≠ term ∨ proposal.catalog.version ≠ version then
        .error (.clusterConfig (s!"commit requests term {term} version {version}, but this " ++
          s!"voter prepared term {proposal.term} version {proposal.catalog.version}"))
      else
        .ok ⟨proposal.catalog, none, proposal.catalog, none⟩

variable {p : CatalogProposal} {term expected version : Nat}
    {change : Catalog → Except Error Catalog} {catalog : Catalog}

theorem latest_cases (s : CatalogStore) :
    s.latest.version ≤ s.inner.version ∨ ∃ q, s.prepared = some q ∧ q.catalog = s.latest := by
  cases hq : s.prepared with
  | none => exact .inl (by rw [latest, hq]; exact le_rfl)
  | some q => exact .inr ⟨q, rfl, by rw [latest, hq]; rfl⟩

/-! ## What the operations do -/

section Operations

variable {s s' : CatalogStore}

theorem validateProposal_eq_ok {current : Catalog} (h : validateProposal current p = .ok ()) :
    p.expectedVersion = current.version ∧ p.catalog.version = saturatingSucc current.version ∧
      p.catalog.validate = .ok () := by
  unfold validateProposal at h
  simp only [bind_eq_ok] at h
  obtain ⟨_, hver, _, -, _, -, _, -, h⟩ := h
  rw [refuseIf_eq_ok, not_or, not_not, not_not] at hver
  exact ⟨hver.1, hver.2, h⟩

/-- A successful `propose` builds the next value of the committed catalog. -/
theorem propose_eq_ok (h : s.propose term expected change = .ok p) :
    ∃ next version, change s.inner = .ok next ∧ checkedSucc next.version = some version ∧
      s.inner.version = expected ∧ p = ⟨term, expected, { next with version }⟩ := by
  unfold propose at h
  simp only [bind_eq_ok] at h
  obtain ⟨_, hver, next, hnext, version, hsucc, _, -, h⟩ := h
  rw [refuseIf_eq_ok, not_not] at hver
  rw [okOr_eq_ok] at hsucc
  cases h
  exact ⟨next, version, hnext, hsucc, hver, rfl⟩

/-- A successful `apply` replaces the committed value by a valid one, with nothing prepared. -/
theorem apply_cases (h : s.apply expected change = .ok s') :
    ∃ next, s' = { s with file := next, inner := next } ∧ s.prepared = none ∧
      next.validate = .ok () := by
  unfold apply at h
  simp only [bind_eq_ok] at h
  obtain ⟨_, -, _, hnone, next, -, version, -, _, hvalid, h⟩ := h
  rw [refuseIf_eq_ok, Option.not_isSome_iff_eq_none] at hnone
  exact ⟨_, (Except.ok.inj h).symm, hnone, hvalid⟩

theorem apply_version (hkeeps : ∀ c next, change c = .ok next → next.version = c.version)
    (h : s.apply expected change = .ok s') :
    s.inner.version ≤ s'.inner.version ∧ s'.inner.version < u64Size := by
  unfold apply at h
  simp only [bind_eq_ok] at h
  obtain ⟨_, -, _, -, next, hnext, version, hsucc, _, -, h⟩ := h
  rw [okOr_eq_ok, checkedSucc_eq_some_iff, hkeeps _ _ hnext] at hsucc
  cases h
  refine ⟨?_, ?_⟩
  · show s.inner.version ≤ version
    omega
  · show version < u64Size
    omega

/-- A successful `prepare` finds the value committed, finds it prepared, or
    replaces a proposal of a lower term. -/
theorem prepare_cases (h : s.prepare p = .ok s') :
    s' = s ∧ s.inner = p.catalog ∨
      s' = s ∧ s.prepared = some p ∧ validateProposal s.inner p = .ok () ∨
      s' = { s with preparedFile := some p, prepared := some p } ∧ s.inner ≠ p.catalog ∧
        validateProposal s.inner p = .ok () ∧ ∀ q, s.prepared = some q → q.term < p.term := by
  unfold prepare at h
  simp only at h
  split_ifs at h with heq
  · cases h
    exact .inl ⟨rfl, heq.2⟩
  · obtain ⟨_, hval, h⟩ := bind_eq_ok.1 h
    have hne : s.inner ≠ p.catalog := fun hc => heq ⟨by rw [hc], hc⟩
    refine .inr ?_
    cases hp : s.prepared with
    | none =>
      rw [hp] at h
      cases h
      exact .inr ⟨rfl, hne, hval, nofun⟩
    | some q =>
      rw [hp] at h
      simp only at h
      split_ifs at h with hsame hgt heqt
      · cases h
        exact .inl ⟨rfl, by rw [hsame], hval⟩
      · cases h
        refine .inr ⟨rfl, hne, hval, ?_⟩
        rintro q' hq'
        cases hq'
        omega

/-- A successful commit finds the version committed, or commits the prepared
    proposal of exactly that term and version. -/
theorem commitPrepared_cases (h : s.commitPrepared term version = .ok s') :
    s.inner.version = version ∧ s'.file = s.file ∧ s'.inner = s.inner ∧
        (s' = s ∨ s'.prepared = none ∧ s'.preparedFile = none ∧
          ∃ q, s.prepared = some q ∧ q.term = term ∧ q.catalog.version = version) ∨
      ∃ q, s.prepared = some q ∧ q.term = term ∧ q.catalog.version = version ∧
        s' = ⟨q.catalog, none, q.catalog, none⟩ := by
  unfold commitPrepared at h
  split_ifs at h with hver hany
  · cases h
    obtain ⟨q, hq, hmatch⟩ := (Option.any_eq_true _ _).1 hany
    exact .inl ⟨hver, rfl, rfl, .inr ⟨rfl, rfl, q, hq, of_decide_eq_true hmatch⟩⟩
  · cases h
    exact .inl ⟨hver, rfl, rfl, .inl rfl⟩
  · cases hp : s.prepared with
    | none =>
      rw [hp] at h
      cases h
    | some q =>
      rw [hp] at h
      simp only at h
      split_ifs at h with hbad
      cases h
      push Not at hbad
      exact .inr ⟨q, rfl, hbad.1, hbad.2, rfl⟩

/-- A commit of the committed version that does something removes a proposal for it. -/
theorem commitPrepared_committed (hver : s.inner.version = version)
    (hne : s' ≠ s) (h : s.commitPrepared term version = .ok s') :
    s' = { s with preparedFile := none, prepared := none } ∧
      ∃ q, s.prepared = some q ∧ q.catalog.version = version := by
  unfold commitPrepared at h
  rw [if_pos hver] at h
  split_ifs at h with hany
  · obtain ⟨q, hq, hmatch⟩ := (Option.any_eq_true _ _).1 hany
    exact ⟨(Except.ok.inj h).symm, q, hq, (of_decide_eq_true hmatch).2⟩
  · exact absurd (Except.ok.inj h).symm hne

theorem commitPrepared_pending (hver : s.inner.version ≠ version)
    (h : s.commitPrepared term version = .ok s') :
    ∃ q, s.prepared = some q ∧ q.catalog.version = version ∧
      s' = ⟨q.catalog, none, q.catalog, none⟩ := by
  rcases commitPrepared_cases h with ⟨hsame, -⟩ | ⟨q, hq, -, hqver, hs⟩
  · exact absurd hsame hver
  · exact ⟨q, hq, hqver, hs⟩

/-- A successful install keeps the value or moves to a higher version, with
    nothing prepared. -/
theorem installCommitted_cases (h : s.installCommitted catalog = .ok s') :
    s' = s ∨ s' = { s with file := catalog, inner := catalog } ∧ s.prepared = none ∧
      s.inner.version < catalog.version ∧ catalog.validate = .ok () := by
  unfold installCommitted at h
  obtain ⟨_, hval, h⟩ := bind_eq_ok.1 h
  obtain ⟨_, -, h⟩ := bind_eq_ok.1 h
  obtain ⟨_, hreg, h⟩ := bind_eq_ok.1 h
  rw [refuseIf_eq_ok] at hreg
  split_ifs at h with hver heq
  · cases h
    exact .inl rfl
  · obtain ⟨_, hprep, h⟩ := bind_eq_ok.1 h
    rw [refuseIf_eq_ok, Option.not_isSome_iff_eq_none] at hprep
    cases h
    exact .inr ⟨rfl, hprep, by omega, hval⟩

theorem installCommitted_same (h : s.installCommitted catalog = .ok s) :
    s.inner = catalog := by
  unfold installCommitted at h
  obtain ⟨_, -, h⟩ := bind_eq_ok.1 h
  obtain ⟨_, -, h⟩ := bind_eq_ok.1 h
  obtain ⟨_, -, h⟩ := bind_eq_ok.1 h
  split_ifs at h with hver heq
  · exact heq.symm
  · obtain ⟨_, -, h⟩ := bind_eq_ok.1 h
    exact (congrArg CatalogStore.inner (Except.ok.inj h)).symm

end Operations

/-! ## Files and memory -/

/-- The files agree with memory and pass the checks of `openFiles`. -/
structure Sound : Prop where
  file : s.file = s.inner
  preparedFile : s.preparedFile = s.prepared
  valid : s.inner.validate = .ok ()
  prepared : ∀ q, s.prepared = some q →
    validateProposal s.inner q = .ok () ∧ s.inner ≠ q.catalog

namespace Sound

variable {s s' : CatalogStore}

theorem openFiles_eq (h : s.Sound) : openFiles s.file s.preparedFile = .ok s := by
  obtain ⟨file, preparedFile, inner, pending⟩ := s
  obtain ⟨hfile, hprep, hval, hok⟩ := h
  cases hfile
  cases hprep
  simp only at hval hok ⊢
  cases preparedFile with
  | none => simp only [openFiles, hval, bind, Except.bind, pure, Except.pure]
  | some q =>
    obtain ⟨hq, hne⟩ := hok q rfl
    simp only [openFiles, hval, hq, if_neg hne, bind, Except.bind, pure, Except.pure]

theorem prepare (h : s.Sound) (hp : s.prepare p = .ok s') : s'.Sound := by
  rcases prepare_cases hp with ⟨rfl, -⟩ | ⟨rfl, -⟩ | ⟨rfl, hne, hval, -⟩
  · exact h
  · exact h
  · refine ⟨h.file, rfl, h.valid, ?_⟩
    rintro q hq
    cases hq
    exact ⟨hval, hne⟩

theorem commitPrepared (h : s.Sound) (hc : s.commitPrepared term version = .ok s') : s'.Sound := by
  rcases commitPrepared_cases hc with ⟨-, hfile, hinner, rfl | ⟨hnone, hfnone, -⟩⟩ |
    ⟨q, hq, -, -, rfl⟩
  · exact h
  · refine ⟨by rw [hfile, hinner, h.file], by rw [hnone, hfnone], hinner ▸ h.valid, ?_⟩
    rw [hnone]
    nofun
  · exact ⟨rfl, rfl, (validateProposal_eq_ok (h.prepared q hq).1).2.2, nofun⟩

theorem apply (h : s.Sound) (ha : s.apply expected change = .ok s') : s'.Sound := by
  obtain ⟨next, rfl, hnone, hvalid⟩ := apply_cases ha
  refine ⟨rfl, h.preparedFile, hvalid, fun q hq => ?_⟩
  exact absurd (hnone.symm.trans hq) (by simp)

theorem installCommitted (h : s.Sound) (hi : s.installCommitted catalog = .ok s') : s'.Sound := by
  rcases installCommitted_cases hi with rfl | ⟨rfl, hnone, -, hval⟩
  · exact h
  · refine ⟨rfl, h.preparedFile, hval, ?_⟩
    rw [hnone]
    nofun

end Sound

/-! ## How a store moves -/

/-- The store moved on to a later value; a value that was prepared is the one it
    moved to. -/
structure Commits (s s' : CatalogStore) : Prop where
  version : s.inner.version < s'.inner.version
  cleared : s'.prepared = none
  taken : ∀ q, s.prepared = some q → s'.inner = q.catalog

section Moves

variable {s s' : CatalogStore}

/-- Preparing finds the value committed, or leaves it prepared in place of
    nothing, of itself, or of a proposal of a lower term. -/
theorem prepare_leaves (h : s.prepare p = .ok s') :
    s' = s ∧ s.inner = p.catalog ∨
      s'.inner = s.inner ∧ s'.prepared = some p ∧ p.expectedVersion = s.inner.version ∧
        ∀ q, s.prepared = some q → q = p ∨ q.term < p.term := by
  rcases prepare_cases h with hsame | ⟨rfl, hq, hval⟩ | ⟨rfl, -, hval, hlt⟩
  · exact .inl hsame
  · refine .inr ⟨rfl, hq, (validateProposal_eq_ok hval).1, ?_⟩
    intro q hq'
    exact .inl (Option.mem_unique hq' hq)
  · exact .inr ⟨rfl, rfl, (validateProposal_eq_ok hval).1, fun q hq => .inr (hlt q hq)⟩

/-- When the prepared value is the next version, committing does nothing or
    moves to that value. -/
theorem commitPrepared_leaves
    (hnext : ∀ q, s.prepared = some q → q.catalog.version = s.inner.version + 1)
    (h : s.commitPrepared term version = .ok s') :
    s' = s ∨ s.Commits s' ∧ ∃ q, s.prepared = some q ∧ q.term = term ∧
      q.catalog.version = version ∧ s'.inner = q.catalog := by
  rcases commitPrepared_cases h with ⟨hver, -, -, rfl | ⟨-, -, q, hq, -, hqver⟩⟩ |
    ⟨q, hq, hterm, hver, rfl⟩
  · exact .inl rfl
  · have := hnext q hq
    omega
  · refine .inr ⟨⟨?_, rfl, ?_⟩, q, hq, hterm, hver, rfl⟩
    · show s.inner.version < q.catalog.version
      rw [hnext q hq]
      omega
    · intro q' hq'
      rw [Option.mem_unique hq' hq]

/-- Installing does nothing or moves to the installed value. -/
theorem installCommitted_leaves (h : s.installCommitted catalog = .ok s') :
    s' = s ∨ s.Commits s' ∧ s'.inner = catalog := by
  rcases installCommitted_cases h with rfl | ⟨rfl, hnone, hlt, -⟩
  · exact .inl rfl
  · refine .inr ⟨⟨hlt, hnone, ?_⟩, rfl⟩
    intro q hq
    cases hnone.symm.trans hq

end Moves

end CatalogStore

end Shardlite.Cluster
