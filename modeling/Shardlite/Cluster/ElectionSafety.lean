/-
  Shardlite.Cluster.ElectionSafety

  At most one node ever becomes leader in a term.

  A ballot is never contradicted by the disk of its voter, a granted reply has
  its ballot, and a leadership has a majority of ballots.  Two majorities share a
  voter, and a voter has one ballot a term.
-/
import Shardlite.Cluster.ElectionEffect

namespace Shardlite.Cluster

open Net (put_ballots mem_ballotOf put_nodes)

/-! ## Ballots -/

/-- The disk of its voter never contradicts a ballot, so a voter has one ballot
    a term. -/
structure Net.BallotInv (w : Net) : Prop where
  term_le : ∀ b ∈ w.ballots, b.term ≤ (w.nodes b.voter).term
  vote : ∀ b ∈ w.ballots, b.term = (w.nodes b.voter).term →
    (w.nodes b.voter).terms.votedFor = some b.candidate
  unique : ∀ b ∈ w.ballots, ∀ b' ∈ w.ballots, b.voter = b'.voter → b.term = b'.term →
    b.candidate = b'.candidate
  recorded : ∀ b : Ballot, (w.nodes b.voter).terms.state = ⟨b.term, some b.candidate⟩ →
    b ∈ w.ballots

variable {w : Net} {i : NodeId} {e' : Election}

theorem Net.BallotInv.put (hb : w.BallotInv) (hrem : (w.nodes i).terms.Remembers e'.terms) :
    (w.put i e').BallotInv := by
  have hmem : ∀ b ∈ (w.put i e').ballots,
      b ∈ w.ballots ∨ b.voter = i ∧ e'.terms.state = ⟨b.term, some b.candidate⟩ := by
    intro b h
    rw [put_ballots, List.mem_append] at h
    exact h.symm.imp_right (mem_ballotOf hrem.synced).1
  have hle : ∀ b ∈ (w.put i e').ballots, b.term ≤ ((w.put i e').nodes b.voter).term := by
    intro b h
    rw [put_nodes]
    rcases hmem b h with h | ⟨rfl, hst⟩
    · have hold := hb.term_le b h
      split_ifs with hi
      · rw [hi] at hold
        exact le_trans hold hrem.term_le
      · exact hold
    · rw [if_pos rfl]
      exact (congrArg TermState.term hst).ge
  have hvote : ∀ b ∈ (w.put i e').ballots, b.term = ((w.put i e').nodes b.voter).term →
      ((w.put i e').nodes b.voter).terms.votedFor = some b.candidate := by
    intro b h heq
    rw [put_nodes] at heq ⊢
    rcases hmem b h with h | ⟨rfl, hst⟩
    · have hold := hb.term_le b h
      have hcast := hb.vote b h
      split_ifs at heq ⊢ with hi
      · -- the term stayed, so the vote did
        rw [hi] at hold hcast
        have hstay : (w.nodes i).terms.term = e'.terms.term :=
          le_antisymm hrem.term_le (le_trans heq.ge hold)
        have hv := hcast (heq.trans hstay.symm)
        rw [hrem.vote_kept hstay (by rw [hv]; rfl), hv]
      · exact hcast heq
    · rw [if_pos rfl]
      exact congrArg TermState.votedFor hst
  refine ⟨hle, hvote, fun b h b' h' hv ht => ?_, fun b hst => ?_⟩
  swap
  · rw [put_nodes] at hst
    rw [put_ballots, List.mem_append]
    split_ifs at hst with hbi
    · exact .inl ((mem_ballotOf hrem.synced).2 ⟨hbi, hst⟩)
    · exact .inr (hb.recorded b hst)
  by_cases hcur : b.term = ((w.put i e').nodes b.voter).term
  · have hcast := hvote b' h' (by rw [← hv, ← ht]; exact hcur)
    rw [← hv, hvote b h hcur] at hcast
    exact Option.some.inj hcast
  · -- a ballot for another term than the voter's own is not the one just recorded
    have hold : ∀ x ∈ (w.put i e').ballots, x.term ≠ ((w.put i e').nodes x.voter).term →
        x ∈ w.ballots := by
      intro x hx hne
      refine (hmem x hx).resolve_right fun ⟨hxi, hst⟩ => hne ?_
      rw [put_nodes, if_pos hxi]
      exact (congrArg TermState.term hst).symm
    exact hb.unique b (hold b h hcur) b' (hold b' h' (by rw [← hv, ← ht]; exact hcur)) hv ht

/-! ## The invariant -/

structure Net.Grows (w w' : Net) : Prop where
  ballots : w.ballots ⊆ w'.ballots
  sent : w.sent ⊆ w'.sent
  elected : w.elected ⊆ w'.elected
  term : ∀ i, (w.nodes i).term ≤ (w'.nodes i).term

variable {w' : Net}

theorem Net.Grows.refl (w : Net) : w.Grows w :=
  ⟨List.Subset.refl _, List.Subset.refl _, List.Subset.refl _, fun _ => le_refl _⟩

theorem Net.Grows.trans {a b d : Net} (hab : a.Grows b) (hbd : b.Grows d) : a.Grows d :=
  ⟨fun _ h => hbd.ballots (hab.ballots h), fun _ h => hbd.sent (hab.sent h),
    fun _ h => hbd.elected (hab.elected h), fun i => le_trans (hab.term i) (hbd.term i)⟩

theorem grows_put (hf : (w.nodes i).Frame e') :
    w.Grows (w.put i e') := by
  refine ⟨List.subset_append_right _ _, List.Subset.refl _, List.Subset.refl _, fun j => ?_⟩
  rw [put_nodes]
  split_ifs with h
  · rw [h]; exact hf.terms.term_le
  · exact le_refl _

theorem Net.Grows.send (h : w.Grows w') (m : Msg) : w.Grows (w'.send m) :=
  ⟨h.ballots, fun _ hx => List.mem_cons_of_mem _ (h.sent hx), h.elected, h.term⟩

theorem Net.Grows.elect (h : w.Grows w') (i : NodeId) (t : Nat) :
    w.Grows (w'.elect i t) :=
  ⟨h.ballots, h.sent, fun _ hx => List.mem_cons_of_mem _ (h.elected hx), h.term⟩

theorem Effect.grows {c : VoterConfiguration} {k : NodeId} {d : Durability}
    (h : Effect c w k d w') : w.Grows w' := by
  induction h with
  | idle => exact .refl w
  | keep hf | follow hf => exact grows_put hf.toFrame
  | grant _ _ hf | campaign _ hf => exact (grows_put hf).send _
  | ascend _ hf | win _ hf => exact (grows_put hf).elect _ _
  | tally _ hf => exact grows_put hf
  | beat => exact (Net.Grows.refl w).send _
  | andSend _ _ ih => exact ih.send _

/-- The voters with a ballot for `i` in `t`. -/
def VoterConfiguration.votersFor (c : VoterConfiguration) (w : Net) (t : Nat) (i : NodeId) :
    Finset NodeId :=
  c.current.filter fun v => (⟨v, t, i⟩ : Ballot) ∈ w.ballots

/-- A candidate's votes are ballots, unless it never asked for one in its term
    (its campaign failed half-way, or its term wrapped) and so can get none. -/
def VotesBacked (w : Net) (i : NodeId) : Prop :=
  (∀ v ∈ (w.nodes i).votes, (⟨v, (w.nodes i).term, i⟩ : Ballot) ∈ w.ballots) ∨
    ∀ d, .voteRequest ⟨(w.nodes i).term, i, d⟩ ∉ w.sent

/-- The part of the invariant that does not ask who is configured. -/
structure OfficeInv (w : Net) : Prop where
  ballots : w.BallotInv
  granted : ∀ v i reply, .voteReply v i reply ∈ w.sent → reply.granted = true →
    (⟨v, reply.term, i⟩ : Ballot) ∈ w.ballots ∧ ∃ d, .voteRequest ⟨reply.term, i, d⟩ ∈ w.sent
  requested : ∀ req, .voteRequest req ∈ w.sent →
    (⟨req.candidate, req.term, req.candidate⟩ : Ballot) ∈ w.ballots ∨
      req.term < (w.nodes req.candidate).term
  votes : ∀ i, (w.nodes i).role = .candidate → VotesBacked w i
  recognises : ∀ i, ((w.nodes i).role = .candidate → (w.nodes i).leader = none) ∧
    ((w.nodes i).role = .leader → (w.nodes i).leader = some i)
  leads : ∀ i, (w.nodes i).role = .leader → (i, (w.nodes i).term) ∈ w.elected
  beats : ∀ hb, .heartbeat hb ∈ w.sent → (hb.leader, hb.term) ∈ w.elected

structure ElectionInv (c : VoterConfiguration) (w : Net) : Prop where
  wf : w.WellFormed c
  ballots : w.BallotInv
  /-- A promised vote is on disk, and was asked for. -/
  granted : ∀ v i reply, .voteReply v i reply ∈ w.sent → reply.granted = true →
    (⟨v, reply.term, i⟩ : Ballot) ∈ w.ballots ∧ ∃ d, .voteRequest ⟨reply.term, i, d⟩ ∈ w.sent
  /-- A candidate votes for itself before it asks, unless its term wrapped. -/
  requested : ∀ req, .voteRequest req ∈ w.sent →
    (⟨req.candidate, req.term, req.candidate⟩ : Ballot) ∈ w.ballots ∨
      req.term < (w.nodes req.candidate).term
  votes : ∀ i, (w.nodes i).role = .candidate → VotesBacked w i
  standing : ∀ i, (w.nodes i).role ≠ .follower → i ∈ c.configured
  /-- A candidate recognises nobody, a leader itself. -/
  recognises : ∀ i, ((w.nodes i).role = .candidate → (w.nodes i).leader = none) ∧
    ((w.nodes i).role = .leader → (w.nodes i).leader = some i)
  elected : ∀ i t, (i, t) ∈ w.elected → i ∈ c.configured ∧ t ≤ (w.nodes i).term ∧
    (Quorum.Majority (c.votersFor w t i) c.current ∨ c.configured = {i})
  leads : ∀ i, (w.nodes i).role = .leader → (i, (w.nodes i).term) ∈ w.elected
  beats : ∀ hb, .heartbeat hb ∈ w.sent → (hb.leader, hb.term) ∈ w.elected

variable {j : NodeId} {t : Nat}

theorem ElectionInv.office {c : VoterConfiguration} (hi : ElectionInv c w) :
    OfficeInv w :=
  ⟨hi.ballots, hi.granted, hi.requested, hi.votes, hi.recognises, hi.leads, hi.beats⟩

section Preservation

variable {c : VoterConfiguration} {w w' : Net} {k : NodeId} {d : Durability}
variable {reply : VoteReply} {req : VoteRequest} {hb : Heartbeat}

theorem Effect.frame (h : Effect c w k d w') (hs : ∀ i, (w.nodes i).terms.Synced) (j : NodeId) :
    (w.nodes j).Frame (w'.nodes j) := by
  have hput : ∀ {e' : Election}, (w.nodes k).Frame e' → (w.nodes j).Frame ((w.put k e').nodes j) := by
    intro e' hf
    rw [put_nodes]
    split_ifs with hj
    · exact hj ▸ hf
    · exact .refl (hs j)
  induction h with
  | idle | beat => exact .refl (hs j)
  | keep hf | follow hf => exact hput hf.toFrame
  | grant _ _ hf | campaign _ hf | ascend _ hf | tally _ hf | win _ hf => exact hput hf
  | andSend _ _ ih => exact ih

theorem Effect.wellFormed (h : Effect c w k d w') (hw : w.WellFormed c) : w'.WellFormed c where
  synced j := (h.frame hw.synced j).terms.synced
  cfg j := (h.frame hw.synced j).cfg.trans (hw.cfg j)
  current j := (h.frame hw.synced j).current.trans (hw.current j)
  next j := (h.frame hw.synced j).next.trans (hw.next j)

theorem Net.BallotInv.send (hb : w.BallotInv) (m : Msg) : (w.send m).BallotInv :=
  ⟨hb.1, hb.2, hb.3, hb.4⟩

theorem Net.BallotInv.elect (hb : w.BallotInv) (i : NodeId) (t : Nat) :
    (w.elect i t).BallotInv :=
  ⟨hb.1, hb.2, hb.3, hb.4⟩

theorem Effect.ballotInv (h : Effect c w k d w') (hb : w.BallotInv) : w'.BallotInv := by
  induction h with
  | idle => exact hb
  | keep hf | follow hf | tally _ hf => exact hb.put hf.terms
  | grant _ _ hf | campaign _ hf => exact (hb.put hf.terms).send _
  | ascend _ hf | win _ hf => exact (hb.put hf.terms).elect _ _
  | beat => exact hb.send _
  | andSend _ _ ih => exact ih.send _

/-! ### What is new after a step -/

section

variable (h : Effect c w k d w')

include h

/-- A granted reply that is new has its ballot and answers a request. -/
theorem Effect.new_reply {v : NodeId} (hm : .voteReply v i reply ∈ w'.sent)
    (hg : reply.granted = true) :
    .voteReply v i reply ∈ w.sent ∨
      (⟨v, reply.term, i⟩ : Ballot) ∈ w'.ballots ∧ ∃ d, .voteRequest ⟨reply.term, i, d⟩ ∈ w.sent := by
  induction h with
  | idle | keep | follow | ascend | tally | win => exact .inl hm
  | @grant e' req reply' hreq _ hf _ _ hterm hst =>
    rcases List.mem_cons.1 hm with heq | hm
    · obtain ⟨rfl, rfl, rfl⟩ := Msg.voteReply.inj heq
      refine .inr ⟨?_, req.durability, hterm ▸ hreq⟩
      rw [Net.send_ballots, put_ballots, List.mem_append]
      exact .inl ((mem_ballotOf hf.terms.synced).2 ⟨rfl, hterm ▸ hst⟩)
    · exact .inl hm
  | campaign | beat =>
    rcases List.mem_cons.1 hm with heq | hm
    · cases heq
    · exact .inl hm
  | andSend _ hinert ih =>
    rcases List.mem_cons.1 hm with rfl | hm
    · exact absurd hg (by simp [show reply.granted = false from hinert])
    · exact ih hm

/-- A request that is new comes from a candidate that voted for itself, or from
    one whose term wrapped. -/
theorem Effect.new_request (hm : .voteRequest req ∈ w'.sent) :
    .voteRequest req ∈ w.sent ∨
      (⟨req.candidate, req.term, req.candidate⟩ : Ballot) ∈ w'.ballots ∨
        req.term < (w'.nodes req.candidate).term := by
  induction h with
  | idle | keep | follow | ascend | tally | win => exact .inl hm
  | @campaign e' _ hf _ _ _ ht =>
    rcases List.mem_cons.1 hm with heq | hm
    · obtain rfl := Msg.voteRequest.inj heq
      refine .inr ?_
      rcases ht with ⟨hst, -⟩ | ⟨hlt, hterms⟩
      · left
        rw [Net.send_ballots, put_ballots, List.mem_append]
        exact .inl ((mem_ballotOf hf.terms.synced).2 ⟨rfl, hst⟩)
      · right
        have hself : ((w.put k e').nodes k).terms = (w.nodes k).terms := by
          rw [put_nodes, if_pos rfl, hterms]
        rw [Net.send_nodes]
        exact lt_of_lt_of_eq hlt (congrArg TermStore.term hself).symm
    · exact .inl hm
  | grant | beat =>
    rcases List.mem_cons.1 hm with heq | hm
    · cases heq
    · exact .inl hm
  | andSend _ hinert ih =>
    rcases List.mem_cons.1 hm with rfl | hm
    · exact hinert.elim
    · exact ih hm

/-- A request that is new comes from a voter and carries the durability it
    reported. -/
theorem Effect.new_request_reports (hm : .voteRequest req ∈ w'.sent) :
    .voteRequest req ∈ w.sent ∨ req.candidate = k ∧ req.durability = d ∧ k ∈ c.configured := by
  induction h with
  | idle | keep | follow | ascend | tally | win => exact .inl hm
  | campaign hconf =>
    rcases List.mem_cons.1 hm with heq | hm
    · obtain rfl := Msg.voteRequest.inj heq
      exact .inr ⟨rfl, rfl, hconf⟩
    · exact .inl hm
  | grant | beat =>
    rcases List.mem_cons.1 hm with heq | hm
    · cases heq
    · exact .inl hm
  | andSend _ hinert ih =>
    rcases List.mem_cons.1 hm with rfl | hm
    · exact hinert.elim
    · exact ih hm

/-- A ballot that is new is a node's vote for itself, or a vote granted to a
    candidate that is not behind the voter. -/
theorem Effect.new_ballot (hb : w.BallotInv) {b : Ballot}
    (hm : b ∈ w'.ballots) :
    b ∈ w.ballots ∨ b.voter = b.candidate ∨
      ∃ req, .voteRequest req ∈ w.sent ∧ b = ⟨k, req.term, req.candidate⟩ ∧
        req.durability.compareTo d = .atLeast := by
  have hput : ∀ {e' : Election}, e'.terms.Synced → b ∈ Net.ballotOf k e' ++ w.ballots →
      b ∈ w.ballots ∨ b.voter = k ∧ e'.terms.state = ⟨b.term, some b.candidate⟩ := by
    intro e' hs hmem
    exact (List.mem_append.1 hmem).symm.imp_right (mem_ballotOf hs).1
  -- a vote that was on disk before the step is a ballot already
  have hknown : b.voter = k → (w.nodes k).terms.state = ⟨b.term, some b.candidate⟩ →
      b ∈ w.ballots := fun hv hst => hb.recorded b (hv ▸ hst)
  have hsilent : ∀ {e' : Election}, (w.nodes k).Silent e' → b ∈ Net.ballotOf k e' ++ w.ballots →
      b ∈ w.ballots := by
    intro e' hf hmem
    rcases hput hf.terms.synced hmem with hold | ⟨hv, hst⟩
    · exact hold
    · have hsame := hf.noNewVote (by rw [TermStore.votedFor, hst]; rfl)
      exact hknown hv (hsame ▸ hst)
  have hstands : ∀ {e' : Election}, (w.nodes k).Frame e' → (w.nodes k).Stands k e' →
      b ∈ Net.ballotOf k e' ++ w.ballots → b ∈ w.ballots ∨ b.voter = b.candidate := by
    intro e' hf ht hmem
    rcases hput hf.terms.synced hmem with hold | ⟨hv, hst⟩
    · exact .inl hold
    · rcases ht with ⟨hself, -⟩ | ⟨-, hterms⟩
      · rw [hself] at hst
        have := congrArg TermState.votedFor hst
        exact .inr (hv.trans (Option.some.inj this))
      · exact .inl (hknown hv (hterms ▸ hst))
  induction h with
  | idle | beat => exact .inl hm
  | keep hf | follow hf => exact .inl (hsilent hf hm)
  | @grant e' req reply hreq _ hf _ _ _ hst hcmp =>
    rcases hput hf.terms.synced hm with hold | ⟨hv, hst'⟩
    · exact .inl hold
    · refine .inr (.inr ⟨req, hreq, ?_, hcmp⟩)
      rw [hst] at hst'
      obtain ⟨v, t, candidate⟩ := b
      obtain ⟨ht, hc⟩ := TermState.mk.inj hst'
      cases hv
      cases ht
      cases hc
      rfl
  | campaign _ hf _ _ _ ht | ascend _ hf _ _ _ ht => exact (hstands hf ht hm).imp_right .inl
  | tally _ hf hterms | win _ hf hterms =>
    rcases hput hf.terms.synced hm with hold | ⟨hv, hst⟩
    · exact .inl hold
    · exact .inl (hknown hv (hterms ▸ hst))
  | andSend _ _ ih => exact ih hm

theorem Effect.new_heartbeat (hm : .heartbeat hb ∈ w'.sent) :
    .heartbeat hb ∈ w.sent ∨ (hb.leader, hb.term) ∈ w.elected := by
  induction h with
  | idle | keep | follow | ascend | tally | win => exact .inl hm
  | beat hel =>
    rcases List.mem_cons.1 hm with heq | hm
    · obtain rfl := Msg.heartbeat.inj heq
      exact .inr hel
    · exact .inl hm
  | grant | campaign =>
    rcases List.mem_cons.1 hm with heq | hm
    · cases heq
    · exact .inl hm
  | andSend _ hinert ih =>
    rcases List.mem_cons.1 hm with rfl | hm
    · exact hinert.elim
    · exact ih hm

end

theorem Net.mem_sent_perform {res : Except Error (Option Action)}
    (h : .heartbeat hb ∈ (w.perform i d res).sent) : .heartbeat hb ∈ w.sent := by
  unfold Net.perform at h
  split at h
  · rcases List.mem_cons.1 h with heq | h
    · cases heq
    · exact h
  · exact h
  · exact h

theorem step_heartbeat {a : Act} (h : .heartbeat hb ∈ (c.step w a).sent) :
    .heartbeat hb ∈ w.sent ∨
      a = .beat hb.leader hb.term hb.placement ∧ (hb.leader, hb.term) ∈ w.elected := by
  have hsend : ∀ {w' : Net} {m : Msg}, .heartbeat hb ∈ (w'.send m).sent →
      (∀ hb', m ≠ .heartbeat hb') → w'.sent = w.sent → .heartbeat hb ∈ w.sent := by
    intro w' m hmem hm hsent
    rcases List.mem_cons.1 hmem with heq | hmem
    · exact absurd heq.symm (hm hb)
    · exact hsent ▸ hmem
  have hvote : ∀ v i reply hb', Msg.voteReply v i reply ≠ .heartbeat hb' := by
    intro v i reply hb' heq
    cases heq
  have hreply : ∀ j i reply hb', Msg.heartbeatReply j i reply ≠ .heartbeat hb' := by
    intro j i reply hb' heq
    cases heq
  cases a with
  | tick i now mine io | recvVoteReply i voter reply now io =>
    simp only [VoterConfiguration.step] at h
    split_ifs at h
    · have hold := Net.mem_sent_perform h
      exact .inl hold
    · exact .inl h
  | recvVoteRequest i req now mine io =>
    simp only [VoterConfiguration.step] at h
    split_ifs at h
    · split at h
      · exact .inl (hsend h (hvote _ _ _) rfl)
      · exact .inl h
    · exact .inl (hsend h (hvote _ _ _) rfl)
    · exact .inl h
  | recvHeartbeat i hb' now cordoned prefers io =>
    simp only [VoterConfiguration.step] at h
    split_ifs at h
    · split at h
      · exact .inl (hsend h (hreply _ _ _) rfl)
      · exact .inl h
    · exact .inl h
  | recvHeartbeatReply i peer reply now io =>
    simp only [VoterConfiguration.step] at h
    split_ifs at h <;> exact .inl h
  | beat i t p =>
    simp only [VoterConfiguration.step] at h
    split_ifs at h with hel
    · rcases List.mem_cons.1 h with heq | h
      · obtain rfl := Msg.heartbeat.inj heq
        exact .inr ⟨rfl, hel⟩
      · exact .inl h
    · exact .inl h
  | requestStepDown i now | refreshVoters i | restart i now => exact .inl h

/-! ### Candidates and leaders -/

theorem OfficeInv.request_term_le (hi : OfficeInv w) (h : .voteRequest req ∈ w.sent) :
    req.term ≤ (w.nodes req.candidate).term := by
  rcases hi.requested req h with hb | hlt
  · exact hi.ballots.term_le _ hb
  · exact hlt.le

/-- A candidate that receives a granted vote in its term has only real votes. -/
theorem OfficeInv.votes_of_reply (hi : OfficeInv w) {voter : NodeId}
    (hrole : (w.nodes i).role = .candidate) (hm : .voteReply voter i reply ∈ w.sent)
    (hg : reply.granted = true) (ht : reply.term = (w.nodes i).term) :
    ∀ v ∈ insert voter (w.nodes i).votes, (⟨v, (w.nodes i).term, i⟩ : Ballot) ∈ w.ballots := by
  obtain ⟨hballot, d, hreq⟩ := hi.granted voter i reply hm hg
  rw [ht] at hballot hreq
  intro v hv
  rcases Finset.mem_insert.1 hv with rfl | hv
  · exact hballot
  · exact (hi.votes i hrole).elim (fun h => h v hv) fun h => absurd hreq (h d)

theorem VotesBacked.keep (hi : OfficeInv w) (hrem : (w.nodes i).terms.Remembers e'.terms)
    (hs : (w.nodes i).SameStanding e')
    (hv : VotesBacked w i) : VotesBacked (w.put i e') i := by
  have hself : (w.put i e').nodes i = e' := by rw [put_nodes, if_pos rfl]
  unfold VotesBacked
  rw [hself]
  rcases lt_or_eq_of_le hrem.term_le with hlt | heq
  · -- a campaign that failed half-way: nothing was asked for in the new term
    exact .inr fun d hm => absurd (hi.request_term_le hm) (not_le.2 hlt)
  · have heq : e'.term = (w.nodes i).term := heq.symm
    rw [heq]
    exact hv.imp
      (fun h v hmem => List.mem_append_right _ (h v (hs.votes hmem))) fun h => h

theorem VotesBacked.of_ne (hv : VotesBacked w j) (hne : j ≠ i) :
    VotesBacked (w.put i e') j := by
  have hother : (w.put i e').nodes j = w.nodes j := by rw [put_nodes, if_neg hne]
  unfold VotesBacked
  rw [hother]
  exact hv.imp (fun h v hmem => List.mem_append_right _ (h v hmem)) fun h => h

theorem Effect.votes (h : Effect c w k d w') (hi : OfficeInv w) :
    ∀ j, (w'.nodes j).role = .candidate → VotesBacked w' j := by
  -- a message other than a request for the candidate's own term changes nothing
  have hsend : ∀ {u : Net} {m : Msg} {j : NodeId}, VotesBacked u j →
      (∀ d, m ≠ .voteRequest ⟨(u.nodes j).term, j, d⟩) → VotesBacked (u.send m) j := by
    intro u m j hv hm
    refine hv.imp (fun h => h) fun h d hmem => ?_
    rcases List.mem_cons.1 hmem with heq | hmem
    · exact hm d heq.symm
    · exact h d hmem
  have hput : ∀ {i j : NodeId} {e' : Election}, (w.nodes i).Frame e' →
      ((w.nodes i).SameStanding e' ∨ e'.role = .follower) →
      ((w.put i e').nodes j).role = .candidate → VotesBacked (w.put i e') j := by
    intro i j e' hf hst hrole
    rw [put_nodes] at hrole
    split_ifs at hrole with hj
    · subst hj
      rcases hst with hs | hfol
      · exact .keep hi hf.terms hs (hi.votes j (hs.role ▸ hrole))
      · rw [hfol] at hrole; cases hrole
    · exact (hi.votes j hrole).of_ne hj
  induction h with
  | idle => exact hi.votes
  | keep hf hs => exact fun j => hput hf.toFrame (.inl hs)
  | follow hf hfol => exact fun j => hput hf.toFrame (.inr hfol)
  | grant _ _ hf hst =>
    intro j hrole
    exact hsend (hput hf (hst.imp And.left And.left) hrole) fun d => by simp
  | @campaign e' _ hf hcand _ hvotes ht =>
    intro j hrole
    by_cases hj : j = k
    · subst hj
      have hself : (w.put j e').nodes j = e' := by rw [put_nodes, if_pos rfl]
      unfold VotesBacked
      rw [Net.send_nodes, hself, hvotes]
      rcases ht with ⟨hst, -⟩ | ⟨hlt, hterms⟩
      · left
        intro v hv
        obtain rfl := Finset.mem_singleton.1 hv
        rw [Net.send_ballots, put_ballots, List.mem_append]
        refine .inl ((mem_ballotOf hf.terms.synced).2 ⟨rfl, ?_⟩)
        rw [Election.term, TermStore.term, hst]
      · -- wrapped: either this node asked in this very term before, with its
        -- own vote on disk, or nobody can answer it
        have hterm : e'.term = (w.nodes j).term := congrArg TermStore.term hterms
        rw [hterm]
        by_cases hasked : ∃ d, Msg.voteRequest ⟨(w.nodes j).term, j, d⟩ ∈ w.sent
        · obtain ⟨d', hd'⟩ := hasked
          left
          intro v hv
          obtain rfl := Finset.mem_singleton.1 hv
          exact List.mem_append_right _
            ((hi.requested _ hd').resolve_right (lt_irrefl _))
        · right
          intro d' hm
          rcases List.mem_cons.1 hm with heq | hm
          · have := congrArg VoteRequest.term (Msg.voteRequest.inj heq)
            exact absurd this hlt.ne'
          · exact hasked ⟨d', hm⟩
    · rw [Net.send_nodes, put_nodes, if_neg hj] at hrole
      refine hsend ((hi.votes j hrole).of_ne hj) fun d' heq => hj ?_
      exact (congrArg VoteRequest.candidate (Msg.voteRequest.inj heq)).symm
  | @ascend e' _ hf hlead | @win e' voter reply _ hf _ _ _ _ hlead =>
    intro j hrole
    by_cases hj : j = k
    · rw [Net.elect_nodes, put_nodes, if_pos hj, hlead] at hrole; cases hrole
    · rw [Net.elect_nodes, put_nodes, if_neg hj] at hrole
      exact (hi.votes j hrole).of_ne hj
  | @tally e' voter reply hm hf hterms hcand hg ht hrole' _ hsub =>
    intro j hrole
    by_cases hj : j = k
    · subst hj
      have hself : (w.put j e').nodes j = e' := by rw [put_nodes, if_pos rfl]
      have hterm : e'.term = (w.nodes j).term := congrArg TermStore.term hterms
      unfold VotesBacked
      rw [hself, hterm]
      exact .inl fun v hv => List.mem_append_right _
        (hi.votes_of_reply hcand hm hg ht v (hsub hv))
    · rw [put_nodes, if_neg hj] at hrole
      exact (hi.votes j hrole).of_ne hj
  | beat => exact fun j hrole => hsend (hi.votes j hrole) fun d => by simp
  | andSend _ hinert ih =>
    exact fun j hrole => hsend (ih j hrole) fun d heq => by rw [heq] at hinert; exact hinert

/-- What a step makes of the office of the node that takes it, and what it wins. -/
inductive Moved (c : VoterConfiguration) (k : NodeId) (e e' : Election) :
    List (NodeId × Nat) → Prop
  | same : e.term ≤ e'.term → e.SameStanding e' → Moved c k e e' []
  | follow : e'.role = .follower → Moved c k e e' []
  | campaign : k ∈ c.configured → e.Stands k e' → e'.role = .candidate → e'.leader = none →
      Moved c k e e' []
  | ascend : k ∈ c.configured → e.Stands k e' → e'.role = .leader → e'.leader = some k →
      Moved c k e e' [(k, e'.term)]
  | tally : e'.terms = e.terms → e.role = .candidate → e'.role = .candidate →
      e'.leader = e.leader → Moved c k e e' []
  | win : e'.terms = e.terms → e.role = .candidate → e'.role = .leader → e'.leader = some k →
      Moved c k e e' [(k, e'.term)]

section

variable (h : Effect c w k d w')

include h

theorem Effect.moved : ∃ e' won,
    (∀ j, w'.nodes j = if j = k then e' else w.nodes j) ∧ w'.elected = won ++ w.elected ∧
      Moved c k (w.nodes k) e' won := by
  have hstill : ∀ j, w.nodes j = if j = k then w.nodes k else w.nodes j := by
    intro j
    split_ifs with hj
    · rw [hj]
    · rfl
  induction h with
  | idle | beat => exact ⟨_, [], hstill, rfl, .same le_rfl (.refl _)⟩
  | keep hf hs => exact ⟨_, [], fun _ => put_nodes .., rfl, .same hf.terms.term_le hs⟩
  | follow _ hfol => exact ⟨_, [], fun _ => put_nodes .., rfl, .follow hfol⟩
  | grant _ _ hf hst =>
    refine ⟨_, [], fun _ => put_nodes .., rfl, ?_⟩
    rcases hst with ⟨hs, -⟩ | ⟨hfol, -⟩
    · exact .same hf.terms.term_le hs
    · exact .follow hfol
  | campaign hconf _ hcand hl _ ht =>
    exact ⟨_, [], fun _ => put_nodes .., rfl, .campaign hconf ht hcand hl⟩
  | ascend hconf _ hlead hl _ ht =>
    exact ⟨_, [_], fun _ => put_nodes .., rfl, .ascend hconf ht hlead hl⟩
  | tally _ _ hterms hcand _ _ hcand' hl =>
    exact ⟨_, [], fun _ => put_nodes .., rfl, .tally hterms hcand hcand' hl⟩
  | win _ _ hterms hcand _ _ hlead hl =>
    exact ⟨_, [_], fun _ => put_nodes .., rfl, .win hterms hcand hlead hl⟩
  | andSend _ _ ih => exact ih

theorem Effect.standing (hi : ElectionInv c w) (j : NodeId)
    (hrole : (w'.nodes j).role ≠ .follower) : j ∈ c.configured := by
  obtain ⟨e', won, hnodes, -, hm⟩ := h.moved
  rw [hnodes] at hrole
  split_ifs at hrole with hj
  · subst hj
    cases hm with
    | same _ hs => exact hi.standing _ (hs.role ▸ hrole)
    | follow hfol => exact absurd hfol hrole
    | campaign hconf | ascend hconf => exact hconf
    | tally _ hcand | win _ hcand => exact hi.standing _ (by rw [hcand]; simp)
  · exact hi.standing j hrole

theorem Effect.recognises (hi : OfficeInv w) (j : NodeId) :
    ((w'.nodes j).role = .candidate → (w'.nodes j).leader = none) ∧
      ((w'.nodes j).role = .leader → (w'.nodes j).leader = some j) := by
  obtain ⟨e', won, hnodes, -, hm⟩ := h.moved
  rw [hnodes]
  split_ifs with hj
  · subst hj
    cases hm with
    | same _ hs =>
      rw [hs.role, hs.leader]
      exact hi.recognises j
    | follow hfol => simp [hfol]
    | campaign _ _ hcand hl => simp [hcand, hl]
    | ascend _ _ hlead hl | win _ _ hlead hl => simp [hlead, hl]
    | tally _ hcand hcand' hl => simp [hcand', hl, (hi.recognises j).1 hcand]
  · exact hi.recognises j

theorem Effect.leads (hi : OfficeInv w) (j : NodeId)
    (hrole : (w'.nodes j).role = .leader) : (j, (w'.nodes j).term) ∈ w'.elected := by
  obtain ⟨e', won, hnodes, helected, hm⟩ := h.moved
  rw [hnodes] at hrole ⊢
  rw [helected]
  split_ifs at hrole ⊢ with hj
  · subst hj
    cases hm with
    | same _ hs =>
      have hlead := hs.role ▸ hrole
      rw [hs.leads hlead]
      exact hi.leads j hlead
    | follow hother | campaign _ _ hother | tally _ _ hother => cases hother.symm.trans hrole
    | ascend | win => exact List.mem_cons_self
  · exact List.mem_append_right _ (hi.leads j hrole)

end

theorem VoterConfiguration.majority_of_hasQuorum (hw : w.WellFormed c) {acks : Finset NodeId}
    (h : (w.nodes i).hasQuorum acks = true) :
    Quorum.Majority acks c.current := by
  unfold Election.hasQuorum at h
  rw [hw.current, Bool.and_eq_true, decide_eq_true_eq] at h
  exact h.1

theorem VoterConfiguration.configured_of_lone_quorum (hw : w.WellFormed c)
    (h : (w.nodes i).hasQuorum {i} = true) : c.configured = {i} := by
  have hcur := Quorum.eq_singleton_of_majority (majority_of_hasQuorum hw h)
  unfold Election.hasQuorum at h
  rw [hw.current, hw.next, Bool.and_eq_true] at h
  unfold VoterConfiguration.configured
  rw [hcur]
  cases hnext : c.next with
  | none => simp
  | some next =>
    rw [hnext] at h
    have := Quorum.eq_singleton_of_majority (of_decide_eq_true h.2)
    simp [this]

section

variable (h : Effect c w k d w')

include h

theorem Effect.elected (hi : ElectionInv c w) :
    ∀ i t, (i, t) ∈ w'.elected → i ∈ c.configured ∧ t ≤ (w'.nodes i).term ∧
      (Quorum.Majority (c.votersFor w' t i) c.current ∨ c.configured = {i}) := by
  have hgrow := h.grows
  have hold : ∀ {i t}, (i, t) ∈ w.elected → i ∈ c.configured ∧ t ≤ (w'.nodes i).term ∧
      (Quorum.Majority (c.votersFor w' t i) c.current ∨ c.configured = {i}) := by
    intro i t hmem
    obtain ⟨hconf, hle, hq⟩ := hi.elected i t hmem
    refine ⟨hconf, le_trans hle (hgrow.term i),
      hq.imp_left fun hq => hq.mono fun v hv => ?_⟩
    obtain ⟨hv, hcur⟩ := Finset.mem_inter.1 hv
    exact Finset.mem_filter.2 ⟨hcur, hgrow.ballots (Finset.mem_filter.1 hv).2⟩
  clear hgrow
  induction h with
  | idle | beat | keep | follow | grant | campaign | tally => exact fun i t => hold
  | @ascend e' hconf _ _ _ hq =>
    intro j t hmem
    rcases List.mem_cons.1 hmem with heq | hmem
    · obtain ⟨rfl, rfl⟩ := Prod.mk.inj heq
      have hself : ((w.put j e').nodes j).term = e'.term := by rw [put_nodes, if_pos rfl]
      exact ⟨hconf, hself.ge, .inr (VoterConfiguration.configured_of_lone_quorum hi.wf hq)⟩
    · exact hold hmem
  | @win e' voter reply hm _ hterms hcand hg ht _ _ hsub hq =>
    intro j t hmem
    rcases List.mem_cons.1 hmem with heq | hmem
    · obtain ⟨rfl, rfl⟩ := Prod.mk.inj heq
      have hself : ((w.put j e').nodes j).term = e'.term := by rw [put_nodes, if_pos rfl]
      refine ⟨hi.standing j (by rw [hcand]; simp), hself.ge, .inl ?_⟩
      refine (VoterConfiguration.majority_of_hasQuorum hi.wf hq).mono fun v hv => ?_
      obtain ⟨hv, hcur⟩ := Finset.mem_inter.1 hv
      have hterm : e'.term = (w.nodes j).term := congrArg TermStore.term hterms
      rw [hterm]
      exact Finset.mem_filter.2 ⟨hcur, List.mem_append_right _
        (hi.office.votes_of_reply hcand hm hg ht v (hsub hv))⟩
    · exact hold hmem
  | andSend _ _ ih => exact ih hold

/-- While terms do not wrap, a candidate or leader held that office in the same
    term before the step, was a candidate and won, or is in a new term. -/
theorem Effect.office (hfits : (w.nodes k).term + 1 < u64Size)
    (hrole : (w'.nodes j).role ≠ .follower) :
    (w.nodes j).term < (w'.nodes j).term ∨
      (w'.nodes j).term = (w.nodes j).term ∧
        ((w.nodes j).role = (w'.nodes j).role ∨
          (w.nodes j).role = .candidate ∧ (w'.nodes j).role = .leader) := by
  -- a successor that fits is a later term
  have hstands : ∀ {e' : Election}, (w.nodes k).Stands k e' → (w.nodes k).term < e'.term := by
    rintro e' (⟨hst, hlt⟩ | ⟨hlt, -⟩)
    · exact lt_of_lt_of_eq hlt (congrArg TermState.term hst).symm
    · rw [wrappingSucc, Nat.mod_eq_of_lt hfits] at hlt
      omega
  obtain ⟨e', won, hnodes, -, hm⟩ := h.moved
  rw [hnodes] at hrole ⊢
  split_ifs at hrole ⊢ with hj
  · subst hj
    cases hm with
    | same hle hs => exact hle.lt_or_eq.imp_right fun heq => ⟨heq.symm, .inl hs.role.symm⟩
    | follow hfol => exact absurd hfol hrole
    | campaign _ ht | ascend _ ht => exact .inl (hstands ht)
    | tally hterms hcand hcand' =>
      exact .inr ⟨congrArg TermStore.term hterms, .inl (hcand.trans hcand'.symm)⟩
    | win hterms hcand hlead =>
      exact .inr ⟨congrArg TermStore.term hterms, .inr ⟨hcand, hlead⟩⟩
  · exact .inr ⟨rfl, .inl rfl⟩

/-- A candidate was one before, or is a voter that has just stood. -/
theorem Effect.new_candidate (hrole : (w'.nodes j).role = .candidate) :
    (w.nodes j).role = .candidate ∨ j = k ∧ k ∈ c.configured := by
  obtain ⟨e', won, hnodes, -, hm⟩ := h.moved
  rw [hnodes] at hrole
  split_ifs at hrole with hj
  · subst hj
    cases hm with
    | same _ hs => exact .inl (hs.role ▸ hrole)
    | follow hother => cases hother.symm.trans hrole
    | campaign hconf | ascend hconf => exact .inr ⟨rfl, hconf⟩
    | tally _ hcand | win _ hcand => exact .inl hcand
  · exact .inl hrole

/-- A leadership that is new belongs to a candidate with a quorum of ballots, or
    to a voter that is a quorum by itself and has just stood. -/
theorem Effect.new_elected (hi : OfficeInv w)
    (hfits : (w.nodes k).term + 1 < u64Size) (hel : (i, t) ∈ w'.elected) :
    (i, t) ∈ w.elected ∨ i = k ∧
      ((w.nodes k).role = .candidate ∧ t = (w.nodes k).term ∧
          (∃ Q, (w.nodes k).hasQuorum Q ∧ ∀ u ∈ Q, (⟨u, t, k⟩ : Ballot) ∈ w.ballots) ∨
        k ∈ c.configured ∧ (w.nodes k).term < t ∧ (w.nodes k).hasQuorum {k} ∧
          (⟨k, t, k⟩ : Ballot) ∈ w'.ballots) := by
  induction h with
  | idle | beat | keep | follow | grant | campaign | tally => exact .inl hel
  | @ascend e' hconf hf _ _ hq ht =>
    rcases List.mem_cons.1 hel with heq | hel
    · obtain ⟨rfl, rfl⟩ := Prod.mk.inj heq
      rcases ht with ⟨hst, hlt⟩ | ⟨hlt, -⟩
      · have hterm : e'.term = wrappingSucc (w.nodes i).term := congrArg TermState.term hst
        refine .inr ⟨rfl, .inr ⟨hconf, hterm ▸ hlt, hq, ?_⟩⟩
        rw [Net.elect_ballots, put_ballots, List.mem_append]
        exact .inl ((mem_ballotOf hf.terms.synced).2 ⟨rfl, hterm ▸ hst⟩)
      · rw [wrappingSucc, Nat.mod_eq_of_lt hfits] at hlt
        omega
    · exact .inl hel
  | @win e' voter reply hm _ hterms hcand hg ht _ _ hsub hq =>
    rcases List.mem_cons.1 hel with heq | hel
    · obtain ⟨rfl, rfl⟩ := Prod.mk.inj heq
      have hterm : e'.term = (w.nodes i).term := congrArg TermStore.term hterms
      rw [hterm]
      exact .inr ⟨rfl, .inl ⟨hcand, rfl, e'.votes, hq,
        fun u hu => hi.votes_of_reply hcand hm hg ht u (hsub hu)⟩⟩
    · exact .inl hel
  | andSend _ _ ih => exact ih hel

end

/-- A node that stands where it stood, whatever its voter sets are now. -/
theorem OfficeInv.put (hi : OfficeInv w) (hrem : (w.nodes i).terms.Remembers e'.terms)
    (hs : (w.nodes i).SameStanding e') :
    OfficeInv (w.put i e') := by
  have hgrow : w.ballots ⊆ (w.put i e').ballots := List.subset_append_right _ _
  refine ⟨hi.ballots.put hrem, ?_, ?_, ?_, ?_, ?_, hi.beats⟩
  · intro v j reply hm hg
    exact (hi.granted v j reply hm hg).imp_left (hgrow ·)
  · intro req hm
    refine (hi.requested req hm).imp (hgrow ·) fun hlt => ?_
    rw [put_nodes]
    split_ifs with hj
    · exact lt_of_lt_of_le (hj ▸ hlt) hrem.term_le
    · exact hlt
  · intro j hrole
    by_cases hj : j = i
    · subst hj
      rw [put_nodes, if_pos rfl] at hrole
      exact .keep hi hrem hs (hi.votes j (hs.role ▸ hrole))
    · rw [put_nodes, if_neg hj] at hrole
      exact (hi.votes j hrole).of_ne hj
  · intro j
    rw [put_nodes]
    split_ifs with hj
    · rw [hs.role, hs.leader, hj]
      exact hi.recognises i
    · exact hi.recognises j
  · intro j hrole
    rw [put_nodes] at hrole ⊢
    split_ifs at hrole ⊢ with hj
    · rw [hs.role] at hrole
      rw [hs.leads hrole, hj]
      exact hi.leads i hrole
    · exact hi.leads j hrole

theorem Effect.officeInv (h : Effect c w k d w') (hi : OfficeInv w) : OfficeInv w' where
  ballots := h.ballotInv hi.ballots
  granted v i reply hm hg := by
    have hgrow := h.grows
    rcases h.new_reply hm hg with hm | ⟨hb, d, hd⟩
    · obtain ⟨hb, d, hd⟩ := hi.granted v i reply hm hg
      exact ⟨hgrow.ballots hb, d, hgrow.sent hd⟩
    · exact ⟨hb, d, hgrow.sent hd⟩
  requested req hm := by
    rcases h.new_request hm with hm | hnew
    · exact (hi.requested req hm).imp (fun hb => h.grows.ballots hb)
        fun hlt => lt_of_lt_of_le hlt (h.grows.term _)
    · exact hnew
  votes := h.votes hi
  recognises := h.recognises hi
  leads := h.leads hi
  beats hb hm := (h.new_heartbeat hm).elim
    (fun hm => h.grows.elected (hi.beats hb hm)) fun hel => h.grows.elected hel

theorem Effect.inv (h : Effect c w k d w') (hi : ElectionInv c w) : ElectionInv c w' :=
  { h.officeInv hi.office with
    wf := h.wellFormed hi.wf
    standing := h.standing hi
    elected := h.elected hi }

end Preservation

/-! ## Every run -/

section Runs

variable (c : VoterConfiguration)

theorem init_inv : ElectionInv c c.init := by
  have hnode : ∀ i, c.init.nodes i =
      { Election.start (c.config i) (TermStore.openFile none) 0 with
        currentVoters := c.current, nextVoters := c.next } := by
    intro i
    simp only [VoterConfiguration.init, VoterConfiguration.boot, Election.setVoterConfiguration,
      if_neg c.not_refused, Election.start, Finset.filter_empty]
  constructor
  · exact ⟨fun i => by rw [hnode]; rfl, fun i => by rw [hnode]; rfl, fun i => by rw [hnode],
      fun i => by rw [hnode]⟩
  · refine ⟨fun b h => absurd h List.not_mem_nil, fun b h => absurd h List.not_mem_nil,
      fun b h => absurd h List.not_mem_nil, fun b hst => ?_⟩
    rw [hnode] at hst
    exact absurd (congrArg TermState.votedFor hst) (by simp [Election.start, TermStore.openFile])
  · exact fun v i reply h => absurd h List.not_mem_nil
  · exact fun req h => absurd h List.not_mem_nil
  · intro i hrole; rw [hnode] at hrole; cases hrole
  · intro i hrole; rw [hnode] at hrole; exact absurd rfl hrole
  · intro i
    rw [hnode]
    constructor
    · intro hrole
      cases hrole
    · intro hrole
      cases hrole
  · exact fun i t h => absurd h List.not_mem_nil
  · intro i hrole; rw [hnode] at hrole; cases hrole
  · exact fun hb h => absurd h List.not_mem_nil

theorem step_inv (a : Act) (hi : ElectionInv c w) : ElectionInv c (c.step w a) := by
  obtain ⟨d, hd⟩ := a.exists_reports
  exact (step_effect hi.wf a hd).inv hi

theorem runs_inv (acts : List Act) : ElectionInv c (c.runs acts) :=
  Machine.invariant_run_of_forall c.step (fun _ a hi => step_inv c a hi) (init_inv c) acts

variable {c}

theorem ElectionInv.elected_unique (hi : ElectionInv c w) (hI : (i, t) ∈ w.elected)
    (hJ : (j, t) ∈ w.elected) : i = j := by
  obtain ⟨hci, -, hqi⟩ := hi.elected i t hI
  obtain ⟨hcj, -, hqj⟩ := hi.elected j t hJ
  rcases hqi with hqi | hlone
  · rcases hqj with hqj | hlone
    · obtain ⟨v, -, hvi, hvj⟩ := hqi.exists_common hqj
      exact hi.ballots.unique _ (Finset.mem_filter.1 hvi).2 _ (Finset.mem_filter.1 hvj).2 rfl rfl
    · rw [hlone] at hci
      exact Finset.mem_singleton.1 hci
  · rw [hlone] at hcj
    exact (Finset.mem_singleton.1 hcj).symm

/-- Behind every leadership stands a majority of voters that reached its term,
    each the leader itself or with a ballot for it. -/
theorem ElectionInv.exists_backers (hi : ElectionInv c w) (hel : (i, t) ∈ w.elected) :
    ∃ Q, Quorum.Majority Q c.current ∧ ∀ u ∈ Q, u ∈ c.current →
      t ≤ (w.nodes u).term ∧ (u = i ∨ (⟨u, t, i⟩ : Ballot) ∈ w.ballots) := by
  obtain ⟨-, hle, hq | hlone⟩ := hi.elected i t hel
  · refine ⟨c.votersFor w t i, hq, fun u hu _ => ?_⟩
    have hb := (Finset.mem_filter.1 hu).2
    exact ⟨hi.ballots.term_le _ hb, .inr hb⟩
  · have hall : ∀ u ∈ c.current, u = i := by
      intro u hu
      have : u ∈ c.configured := Finset.mem_union_left _ hu
      rw [hlone] at this
      exact Finset.mem_singleton.1 this
    refine ⟨c.current, Quorum.majority_self c.current_nonempty, fun u hu _ => ?_⟩
    obtain rfl := hall u hu
    exact ⟨hle, .inl rfl⟩

theorem grows_run (hi : ElectionInv c w) (acts : List Act) :
    w.Grows (Machine.run c.step w acts) := by
  induction acts generalizing w with
  | nil => exact .refl w
  | cons a acts ih =>
    obtain ⟨d, hd⟩ := a.exists_reports
    exact (step_effect hi.wf a hd).grows.trans (ih (step_inv c a hi))

/-- At some point of the run, `i` is leader in `t`. -/
def VoterConfiguration.LedIn (c : VoterConfiguration) (acts : List Act) (i : NodeId) (t : Nat) :
    Prop :=
  ∃ p, p <+: acts ∧ ((c.runs p).nodes i).isLeader = true ∧ ((c.runs p).nodes i).term = t

theorem VoterConfiguration.LedIn.elected {acts : List Act} (h : c.LedIn acts i t) :
    (i, t) ∈ (c.runs acts).elected := by
  obtain ⟨p, ⟨q, rfl⟩, hlead, rfl⟩ := h
  have hrole : ((c.runs p).nodes i).role = .leader := of_decide_eq_true hlead
  have hmem := (runs_inv c p).leads i hrole
  rw [VoterConfiguration.runs, Machine.run_append]
  exact (grows_run (runs_inv c p) q).elected hmem

/-- **Election safety.**  However messages are lost, delayed and repeated, and
    however often nodes crash, restart from their term files or fail to write
    them, at most one node ever becomes leader in a term. -/
theorem at_most_one_leader_per_term (acts : List Act) (i j : NodeId) (t : Nat)
    (hi : c.LedIn acts i t) (hj : c.LedIn acts j t) : i = j :=
  (runs_inv c acts).elected_unique hi.elected hj.elected

/-- **Votes outlast crashes.**  Whoever was leader in a term has the ballots of a majority for it,
    or is a majority alone; terms never go back, no node ever votes for two in one term, and the
    heartbeats of a term name one leader. -/
theorem leaders_have_ballots (acts later : List Act) :
    (∀ i t, c.LedIn acts i t → ∃ Q, Quorum.Majority Q c.current ∧ ∀ u ∈ Q, u ∈ c.current →
      t ≤ ((c.runs acts).nodes u).term ∧ (u = i ∨ (⟨u, t, i⟩ : Ballot) ∈ (c.runs acts).ballots)) ∧
    (∀ i, ((c.runs acts).nodes i).term ≤ ((c.runs (acts ++ later)).nodes i).term) ∧
    (∀ b ∈ (c.runs acts).ballots, ∀ b' ∈ (c.runs (acts ++ later)).ballots,
      b.voter = b'.voter → b.term = b'.term → b.candidate = b'.candidate) ∧
    ∀ t i j p q, .heartbeat ⟨t, i, p⟩ ∈ (c.runs acts).sent →
      .heartbeat ⟨t, j, q⟩ ∈ (c.runs acts).sent → i = j := by
  have hgrow := grows_run (runs_inv c acts) later
  rw [VoterConfiguration.runs, ← Machine.run_append] at hgrow
  have hi := runs_inv c acts
  refine ⟨fun i t h => hi.exists_backers h.elected, hgrow.term, fun b hb b' hb' => ?_, ?_⟩
  · exact (runs_inv c (acts ++ later)).ballots.unique b (hgrow.ballots hb) b' hb'
  · intro t i j p q hp hq
    exact hi.elected_unique (hi.beats _ hp) (hi.beats _ hq)

/-- Three voters with the floor profile's timing. -/
def threeVoters : VoterConfiguration where
  current := {1, 2, 3}
  next := none
  config i := ⟨i, [1, 2, 3].filter (· ≠ i), 1500000000, 300000000⟩
  current_nonempty := ⟨1, by simp⟩
  next_ne_empty := by simp
  config_node _ := rfl
  config_valid _ := if_neg (show ¬ 300000000 * 3 > 1500000000 by decide)

/-- Node 1 times out, node 2 votes for it, and it leads term 1. -/
def firstElection : List Act :=
  [.tick 1 3000000000 {} {},
   .recvVoteRequest 2 ⟨1, 1, {}⟩ 3000000000 {} {},
   .recvVoteReply 1 2 ⟨1, true, ""⟩ 3000000000 {}]

/-- Only node 1 ever leads term 1 of that run. -/
theorem firstElection_led_by_one :
    threeVoters.LedIn firstElection 1 1 ∧
      ∀ j, threeVoters.LedIn firstElection j 1 → 1 = j := by
  have h : threeVoters.LedIn firstElection 1 1 :=
    ⟨firstElection, List.prefix_refl _, by decide +kernel, by decide +kernel⟩
  exact ⟨h, fun j hj => at_most_one_leader_per_term firstElection 1 j 1 h hj⟩

end Runs

end Shardlite.Cluster
