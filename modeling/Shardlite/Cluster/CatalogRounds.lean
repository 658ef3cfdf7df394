/-
  Shardlite.Cluster.CatalogRounds

  Each part of the catalog invariant, step by step: an election step, a prepare,
  a proposal by a leader, and a store that moves on.
-/
import Shardlite.Cluster.CatalogInvariant

namespace Shardlite.Cluster

open Function

namespace CatalogSystem

variable {sys : CatalogSystem} {net net' : Net} {stores : NodeId → CatalogStore}
  {mail mail' : List CatalogMsg} {accepted : List Acceptance}
  {derived : List (Catalog × Catalog)} {proposals : NodeId → List CatalogProposal}
  {rounds : NodeId → List Round}

/-! ## Ballots -/
variable {u i : NodeId} {p : CatalogProposal} {s' : CatalogStore}

theorem advances_of_grows (h : net.Grows net') :
    (sys.box net accepted).Advances (sys.box net' accepted) :=
  ⟨rfl, h.term, id, .inl⟩

theorem advances_of_prepare (hterm : (net.nodes u).term = p.term) :
    (sys.box net accepted).Advances
      (sys.box net (⟨u, p.term, p.catalog⟩ :: accepted)) := by
  refine ⟨rfl, fun _ => le_rfl, List.mem_cons_of_mem _, ?_⟩
  intro u' t v hmem
  rcases List.mem_cons.1 hmem with heq | hmem
  · obtain ⟨rfl, rfl, rfl⟩ := Acceptance.mk.inj heq
    exact .inr hterm.le
  · exact .inl hmem

/-! ## Accepting -/

section

variable (ha : sys.Accepting net stores mail accepted)

include ha

theorem Accepting.elect (h : net.Grows net') :
    sys.Accepting net' stores mail accepted where
  disciplined := ha.disciplined.advance (advances_of_grows h) ha.disciplined.origin
  clock u t v hmem := le_trans (ha.clock u t v hmem) (h.term u)
  prepared := ha.prepared
  holds u t v hmem := (ha.holds u t v hmem).advance (advances_of_grows h)

theorem Accepting.commits (hs : (stores i).Commits s') :
    sys.Accepting net (update stores i s') mail accepted where
  disciplined := ha.disciplined
  clock := ha.clock
  prepared j q hq := by
    rw [update_apply] at hq
    split_ifs at hq with hj
    · cases hs.cleared.symm.trans hq
    · exact ha.prepared j q hq
  holds u t v hmem := by
    have hold := ha.holds u t v hmem
    rw [update_apply]
    split_ifs with hu
    · subst hu
      exact hold.commits hs
    · exact hold

/-- A voter prepares, in its own term, a value that was proposed in it. -/
theorem Accepting.prepare (hr : sys.Records stores mail derived proposals rounds)
    (hdisc : (sys.box net accepted).Disciplined Catalog.version (Proposed mail'))
    (hp : p.catalog.version = p.expectedVersion + 1)
    (hprop : Proposed mail' p.term p.catalog) (hterm : (net.nodes u).term = p.term)
    (hprep : (stores u).prepare p = .ok s') :
    sys.Accepting net (update stores u s') mail'
      (⟨u, p.term, p.catalog⟩ :: accepted) := by
  have hadv : (sys.box net accepted).Advances _ := advances_of_prepare hterm
  refine ⟨hdisc.advance hadv ?_, ?_, ?_, ?_⟩
  · intro u' t v hmem
    rcases List.mem_cons.1 hmem with heq | hmem
    · obtain ⟨rfl, rfl, rfl⟩ := Acceptance.mk.inj heq
      exact hprop
    · exact hdisc.origin hmem
  · intro u' t v hmem
    rcases List.mem_cons.1 hmem with heq | hmem
    · obtain ⟨rfl, rfl, rfl⟩ := Acceptance.mk.inj heq
      exact hterm.ge
    · exact ha.clock u' t v hmem
  · intro j q hq
    rw [update_apply] at hq
    split_ifs at hq with hj
    · subst hj
      rcases CatalogStore.prepare_leaves hprep with ⟨rfl, -⟩ | ⟨-, hpend, -⟩
      · exact List.mem_cons_of_mem _ (ha.prepared j q hq)
      · cases hq.symm.trans hpend
        exact List.mem_cons_self
    · exact List.mem_cons_of_mem _ (ha.prepared j q hq)
  · intro u' t v hmem
    rw [update_apply]
    rcases List.mem_cons.1 hmem with heq | hmem
    · obtain ⟨rfl, rfl, rfl⟩ := Acceptance.mk.inj heq
      rw [if_pos rfl]
      exact Holds.of_prepare hprep
    · have hold := (ha.holds u' t v hmem).advance hadv
      split_ifs with hu
      · subst hu
        exact hold.prepare hprep (fun q hq => hr.next_version hq) hp (hadv.safe (hdisc.safe hprop))
      · exact hold

end

/-! ## Leading -/

section

variable (hl : sys.Leading net stores mail accepted)

include hl

theorem Leading.term_le
    (he : ElectionInv sys.voters net) (hp : .prepare i p ∈ mail) : p.term ≤ (net.nodes i).term :=
  (he.elected i p.term (hl.sender i p hp)).2.1

theorem Leading.elect (ha : sys.Accepting net stores mail accepted)
    (hr : sys.Records stores mail derived proposals rounds) (he : ElectionInv sys.voters net)
    {k : NodeId} {d : Durability} (heff : Effect sys.voters net k d net')
    (hfits : (net.nodes k).term + 1 < u64Size)
    (hd : d.catalog = (stores k).durabilityPosition sys.digest) :
    sys.Leading net' stores mail accepted := by
  have hgrow := heff.grows
  have hadv : (sys.box net accepted).Advances (sys.box net' accepted) := advances_of_grows hgrow
  refine ⟨?_, ?_, ?_, ?_, ?_⟩
  · intro l p hp
    exact hgrow.elected (hl.sender l p hp)
  · intro u t i hb hne
    rcases heff.new_ballot he.ballots hb with hb | hself | ⟨req, hreq, heq, hcmp⟩
    · obtain ⟨d', hsent, hcover⟩ := hl.vouched u t i hb hne
      refine ⟨d', hgrow.sent hsent, fun t' v hlt hmem => ?_⟩
      obtain ⟨hle, hsame⟩ := hcover t' v hlt hmem
      exact ⟨hle, fun hver => (hsame hver).imp_right fun hno hc => hno (hadv.choosable hc)⟩
    · exact absurd hself hne
    · -- the vote just granted compared the request with this voter's own position
      obtain ⟨rfl, rfl, rfl⟩ := Ballot.mk.inj heq
      refine ⟨req.durability, hgrow.sent hreq, fun t' v _ hmem => ?_⟩
      have hle := Durability.catalog_le_of_atLeast hcmp
      obtain ⟨hlatest, hsame⟩ := (ha.holds u t' v hmem).le_latest fun q hq => hr.next_version hq
      rw [hd] at hle
      refine ⟨le_trans hlatest hle, fun hver => ?_⟩
      have hmine : v.version = (stores u).latest.version :=
        le_antisymm hlatest (hver.symm ▸ hle)
      have hpos : 1 ≤ v.version :=
        le_trans sys.initial_version (hr.version_of_known
          (hr.known_of_proposed (ha.disciplined.origin hmem)))
      have hdig : req.durability.catalog.digest = d.catalog.digest := by
        refine Durability.digest_eq_of_atLeast hcmp ?_ (by omega)
        rw [hd, ← hver, hmine]
        rfl
      rw [hdig, hd]
      refine (hsame hmine).imp (fun heq => ?_) fun hno hc => hno (hadv.choosable hc)
      rw [heq]
      rfl
  · intro i d' hrole hreq
    rcases heff.new_request_reports hreq with hold | ⟨hik, hdd, -⟩
    · rcases heff.office hfits hrole with hlt | ⟨hterm, hoffice⟩
      · have hle : (net'.nodes i).term ≤ (net.nodes i).term := he.office.request_term_le hold
        omega
      · rw [hterm] at hold
        refine hl.carried i d' (fun hfol => ?_) hold
        rcases hoffice with hsame | ⟨hcand, -⟩
        · exact hrole (hsame ▸ hfol)
        · rw [hcand] at hfol
          cases hfol
    · obtain rfl : i = k := hik
      obtain rfl : d' = d := hdd
      rw [hd]
      rcases (stores i).latest_cases with hle | ⟨q, hq, hlat⟩
      · exact .inl hle
      · refine .inr ⟨q, hq, ?_, ?_⟩ <;> rw [hlat] <;> rfl
  · intro i p hrole hp hpt
    rcases heff.office hfits (by rw [hrole]; simp) with hlt | ⟨hterm, hoffice⟩
    · have := hl.term_le he hp
      omega
    · rw [hterm] at hpt
      rcases hoffice with hsame | ⟨hcand, -⟩
      · exact hl.led i p (hsame.trans hrole) hp hpt
      · exact absurd hpt (hl.fresh i p hcand hp)
  · intro i p hrole hp
    rcases heff.office hfits (by rw [hrole]; simp) with hlt | ⟨hterm, hoffice⟩
    · have := hl.term_le he hp
      omega
    · rw [hterm]
      rcases hoffice with hsame | ⟨-, hlead⟩
      · exact hl.fresh i p (hsame.trans hrole) hp
      · rw [hrole] at hlead
        cases hlead

theorem Leading.commits (hs : (stores i).Commits s') :
    sys.Leading net (update stores i s') mail accepted where
  sender := hl.sender
  vouched := hl.vouched
  carried j d hrole hreq := by
    have hold := hl.carried j d hrole hreq
    rw [update_apply]
    split_ifs with hj
    · subst hj
      have hlt := hs.version
      rcases hold with hle | ⟨q, hq, hver, -⟩
      · exact .inl (by omega)
      · exact .inl (by rw [hs.taken q hq, hver])
    · exact hold
  led j p hrole hp hterm := by
    have hold := hl.led j p hrole hp hterm
    rw [update_apply]
    split_ifs with hj
    · subst hj
      have hlt := hs.version
      rcases hold with hver | heq | ⟨q, hq, -, heq⟩
      · exact .inl (by omega)
      · exact .inl (heq ▸ hlt)
      · exact .inr (.inl (by rw [hs.taken q hq, heq]))
    · exact hold
  fresh := hl.fresh

/-- A node prepares in its own term: a follower what its leader sent, or a leader
    its own proposal, which then repeats whatever older value it had prepared. -/
theorem Leading.prepare (he : ElectionInv sys.voters net) (hterm : (net.nodes u).term = p.term)
    (hprep : (stores u).prepare p = .ok s')
    (hmail : ∀ l q, .prepare l q ∈ mail' →
      .prepare l q ∈ mail ∨ l = u ∧ q = p ∧ (net.nodes u).role = .leader)
    (hrole : (net.nodes u).role = .follower ∨ (net.nodes u).role = .leader ∧
      ∀ q, (stores u).prepared = some q → q.term < p.term → q.catalog = p.catalog) :
    sys.Leading net (update stores u s') mail'
      (⟨u, p.term, p.catalog⟩ :: accepted) := by
  have hadv : (sys.box net accepted).Advances _ := advances_of_prepare hterm
  have hleaves := CatalogStore.prepare_leaves hprep
  refine ⟨?_, ?_, ?_, ?_, ?_⟩
  · intro l q hq
    rcases hmail l q hq with hq | ⟨rfl, rfl, hlead⟩
    · exact hl.sender l q hq
    · exact hterm ▸ he.leads l hlead
  · intro u' t i hb hne
    obtain ⟨d, hsent, hcover⟩ := hl.vouched u' t i hb hne
    refine ⟨d, hsent, fun t' v hlt hmem => ?_⟩
    rcases List.mem_cons.1 hmem with heq | hmem
    · -- a vote cast in a term leaves nothing to accept in an earlier one
      obtain ⟨rfl, rfl, rfl⟩ := Acceptance.mk.inj heq
      have hle : t ≤ (net.nodes u').term := he.ballots.term_le _ hb
      omega
    · obtain ⟨hle, hsame⟩ := hcover t' v hlt hmem
      exact ⟨hle, fun hver => (hsame hver).imp_right fun hno hc => hno (hadv.choosable hc)⟩
  · intro j d hoff hreq
    have hold := hl.carried j d hoff hreq
    rw [update_apply]
    split_ifs with hj
    · subst hj
      obtain hfol | ⟨-, hrecover⟩ := hrole
      · exact absurd hfol hoff
      rcases hleaves with ⟨rfl, -⟩ | ⟨hinner, hpend, -, hreplaced⟩
      · exact hold
      rcases hold with hle | ⟨q, hq, hver, hdig⟩
      · exact .inl (hinner.symm ▸ hle)
      · have heq : q.catalog = p.catalog := by
          rcases hreplaced q hq with rfl | hlt
          · rfl
          · exact hrecover q hq hlt
        exact .inr ⟨p, hpend, heq ▸ hver, heq ▸ hdig⟩
    · exact hold
  · intro j p' hlead hp' hpt
    rw [update_apply]
    rcases hmail j p' hp' with hp' | ⟨rfl, rfl, -⟩
    · have hold := hl.led j p' hlead hp' hpt
      split_ifs with hj
      · subst hj
        rcases hleaves with ⟨rfl, -⟩ | ⟨hinner, hpend, -, hreplaced⟩
        · exact hold
        rw [hinner]
        refine hold.imp_right (Or.imp_right ?_)
        rintro ⟨q, hq, hqt, hqc⟩
        rcases hreplaced q hq with rfl | hlt
        · exact ⟨q, hpend, hqt, hqc⟩
        · omega
      · exact hold
    · rw [if_pos rfl]
      rcases hleaves with ⟨rfl, heq⟩ | ⟨-, hpend, -⟩
      · exact .inr (.inl heq)
      · exact .inr (.inr ⟨p', hpend, rfl, rfl⟩)
  · intro j p' hcand hp'
    rcases hmail j p' hp' with hp' | ⟨rfl, rfl, hlead⟩
    · exact hl.fresh j p' hcand hp'
    · rw [hcand] at hlead
      cases hlead

end

/-! ## Proposing -/

section Proposing

variable {i : NodeId} {p : CatalogProposal} {s' : CatalogStore}

/-- Digests of the run's values do not collide. -/
def DigestsDiffer (sys : CatalogSystem) (derived : List (Catalog × Catalog)) : Prop :=
  ∀ v v', sys.Known derived v → sys.Known derived v' → sys.digest v = sys.digest v' → v = v'

variable {v : Catalog}

section

variable (hl : sys.Leading net stores mail accepted)

include hl

/-- Whatever could still be chosen in an earlier term, a leader has committed
    that version or has the value prepared. -/
theorem Leading.carries (ha : sys.Accepting net stores mail accepted)
    (hr : sys.Records stores mail derived proposals rounds) (he : ElectionInv sys.voters net)
    (hdig : sys.DigestsDiffer derived) (hlead : (net.nodes i).role = .leader) {t : Nat}
    (ht : t < (net.nodes i).term) (hc : (sys.box net accepted).Choosable t v) :
    v.version ≤ (stores i).inner.version ∨
      ∃ q, (stores i).prepared = some q ∧ q.catalog = v := by
  obtain ⟨Q, hQ, hback⟩ := he.exists_backers (he.leads i hlead)
  -- the voters behind the leader are all past `t`, so one of them accepted `v`
  obtain ⟨u, huQ, hu, hacc⟩ := hc.exists_accepted hQ fun u hu hv =>
    lt_of_lt_of_le ht (hback u hu hv).1
  by_cases hui : u = i
  · subst hui
    rcases ha.holds u t v hacc with hlt | ⟨hver, -⟩ | ⟨q, hq, -, -, heq⟩
    · exact .inl hlt.le
    · exact .inl hver.le
    · exact .inr ⟨q, hq, heq.resolve_right (not_not.2 hc)⟩
  · have hb := (hback u huQ hu).2.resolve_left hui
    obtain ⟨d, hsent, hcover⟩ := hl.vouched u _ i hb hui
    obtain ⟨hle, hsame⟩ := hcover t v ht hacc
    rcases hl.carried i d (by rw [hlead]; simp) hsent with hinner | ⟨q, hq, hver, hqd⟩
    · exact .inl (le_trans hle hinner)
    · have hnext := hr.next_version hq
      by_cases heq : v.version = d.catalog.version
      · have hvd := (hsame heq).resolve_right (not_not.2 hc)
        have hkv := hr.known_of_proposed (ha.disciplined.origin hacc)
        exact .inr ⟨q, hq, hdig _ _ (hr.prepared i q hq).known hkv (hqd.trans hvd.symm)⟩
      · exact .inl (by omega)

/-- **A leader proposes safely** when it first recovers what it had prepared in
    an earlier term. -/
theorem Leading.safe (ha : sys.Accepting net stores mail accepted)
    (hr : sys.Records stores mail derived proposals rounds) (he : ElectionInv sys.voters net)
    (hdig : sys.DigestsDiffer derived) (hset : sys.Settled net accepted (stores i).inner)
    (hlead : (net.nodes i).role = .leader) (hterm : (net.nodes i).term = p.term)
    (hp : sys.WellBuilt derived p) (hprep : (stores i).prepare p = .ok s')
    (hrecover : ∀ q, (stores i).prepared = some q → q.term < p.term → q.catalog = p.catalog) :
    (sys.box net accepted).Safe Catalog.version p.term p.catalog := by
  intro t ht v hver hne hc
  rw [← hterm] at ht
  have hcarries := hl.carries ha hr he hdig hlead ht hc
  have hpv := hp.version
  rcases CatalogStore.prepare_leaves hprep with ⟨-, heq⟩ | ⟨-, -, hexp, hreplaced⟩
  · -- the value is committed here already
    rcases hcarries with hle | ⟨q, hq, rfl⟩
    · obtain ⟨Q, hQ, hback⟩ := he.exists_backers (he.leads i hlead)
      obtain ⟨u, -, -, hacc⟩ := hc.exists_accepted hQ fun u hu hv =>
        lt_of_lt_of_le ht (hback u hu hv).1
      refine hset.not_choosable_rival hr ha (ha.disciplined.origin hacc) ?_ ?_ hc
      · rw [heq]
        exact hver
      · rw [heq]
        exact hne
    · have hnext := hr.next_version hq
      rw [hver, heq] at hnext
      omega
  · rcases hcarries with hle | ⟨q, hq, rfl⟩
    · omega
    · rcases hreplaced q hq with rfl | hlt
      · exact hne rfl
      · exact hne (hrecover q hq hlt)

theorem Leading.alone
    (hr : sys.Records stores mail derived proposals rounds) (he : ElectionInv sys.voters net)
    (hlead : (net.nodes i).role = .leader) (hterm : (net.nodes i).term = p.term)
    (hp : sys.WellBuilt derived p) (hprep : (stores i).prepare p = .ok s')
    (hprop : Proposed mail p.term v) (hver : p.catalog.version = v.version) : p.catalog = v := by
  obtain ⟨l, p', hp', hpt, rfl⟩ := hprop
  -- whoever proposed in this term won it, and so is this node
  obtain rfl : l = i := by
    refine he.elected_unique (hl.sender l p' hp') ?_
    rw [hpt, ← hterm]
    exact he.leads i hlead
  have hpv := hp.version
  have hold := hl.led l p' hlead hp' (hpt.trans hterm.symm)
  rcases CatalogStore.prepare_leaves hprep with ⟨-, heq⟩ | ⟨-, -, hexp, hreplaced⟩
  · rcases hold with hlt | hin | ⟨q, hq, -, hqc⟩
    · rw [heq] at hlt
      omega
    · rw [← heq, hin]
    · have hnext := hr.next_version hq
      rw [hqc, heq] at hnext
      omega
  · rcases hold with hlt | hin | ⟨q, hq, hqt, hqc⟩
    · omega
    · rw [hin] at hexp
      omega
    · rcases hreplaced q hq with rfl | hlt
      · exact hqc
      · omega

end

end Proposing

/-! ## Deciding -/

theorem Deciding.advance {acknowledged : List CatalogProposal} {accepted' : List Acceptance}
    (hd : sys.Deciding net stores mail accepted derived rounds acknowledged)
    (hadv : (sys.box net accepted).Advances (sys.box net' accepted'))
    (hsub : accepted ⊆ accepted') :
    sys.Deciding net' stores mail accepted' derived rounds acknowledged where
  inner i := (hd.inner i).mono hadv
  derived b v h := (hd.derived b v h).mono hadv
  rounds i r hr S hS := ⟨(hd.rounds i r hr S hS).1, fun u hu => hsub ((hd.rounds i r hr S hS).2 u hu)⟩
  acks u l t n h := by
    obtain ⟨v, hv, hver⟩ := hd.acks u l t n h
    exact ⟨v, hsub hv, hver⟩
  commits l t n h := by
    obtain ⟨v, hv, hver⟩ := hd.commits l t n h
    exact ⟨v, hadv.chosen hv, hver⟩
  installs l t v h := (hd.installs l t v h).mono hadv
  acknowledged p h := (hd.acknowledged p h).mono hadv

end CatalogSystem

end Shardlite.Cluster
