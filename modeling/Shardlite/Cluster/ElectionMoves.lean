/-
  Shardlite.Cluster.ElectionMoves

  What each handler of the election state machine can do to a node, said once:
  the parts no handler touches, what the term store remembers, and how role,
  votes and recognised leader may move.
-/
import Shardlite.Cluster.Election

namespace Shardlite.Cluster

namespace Election

/-- What every handler keeps: identity, voter sets, and the memory of terms and
    votes. -/
structure Frame (e e' : Election) : Prop where
  cfg : e'.cfg = e.cfg
  current : e'.currentVoters = e.currentVoters
  next : e'.nextVoters = e.nextVoters
  terms : e.terms.Remembers e'.terms

structure Silent (e e' : Election) : Prop extends Frame e e' where
  noNewVote : e.terms.NoNewVote e'.terms

/-- The node stands where it stood: same role and leader, no new vote, and a
    leader stays in its term. -/
structure SameStanding (e e' : Election) : Prop where
  role : e'.role = e.role
  leader : e'.leader = e.leader
  votes : e'.votes ⊆ e.votes
  leads : e.role = .leader → e'.term = e.term

variable {e : Election}

theorem Frame.refl (h : e.terms.Synced) : e.Frame e := ⟨rfl, rfl, rfl, .refl h⟩

theorem Frame.trans {e₁ e₂ e₃ : Election} (h : e₁.Frame e₂) (h' : e₂.Frame e₃) :
    e₁.Frame e₃ :=
  ⟨h'.cfg.trans h.cfg, h'.current.trans h.current, h'.next.trans h.next, h.terms.trans h'.terms⟩

theorem Silent.refl (h : e.terms.Synced) : e.Silent e := ⟨.refl h, .refl _⟩

theorem Silent.trans {e₁ e₂ e₃ : Election} (h : e₁.Silent e₂) (h' : e₂.Silent e₃) :
    e₁.Silent e₃ :=
  ⟨h.toFrame.trans h'.toFrame, h.noNewVote.trans h'.noNewVote⟩

theorem SameStanding.refl (e : Election) : e.SameStanding e :=
  ⟨rfl, rfl, Finset.Subset.refl _, fun _ => rfl⟩

/-! ## Observing a term -/

/-- Observing a term either fails and changes nothing, or leaves a follower that
    recognises no leader and has reached the term. -/
theorem observeTerm_spec (h : e.terms.Synced) (t : Nat) (now : Instant) (why : String)
    (io : IoResult) :
    (∃ err, e.observeTerm t now why io = (e, .error err)) ∨
    ∃ e' why', e.observeTerm t now why io = (e', .ok (.steppedDown e'.term why')) ∧
      e.Silent e' ∧ e'.role = .follower ∧ e'.leader = none ∧ t ≤ e'.term := by
  unfold observeTerm
  cases hadv : e.terms.advanceTo t io with
  | mk terms res =>
    have hrem := TermStore.remembers_advanceTo h hadv
    have hvote := TermStore.noNewVote_advanceTo hadv
    cases res with
    | error err =>
      obtain rfl := TermStore.advanceTo_error hadv
      exact .inl ⟨err, rfl⟩
    | ok b =>
      have hle := TermStore.le_term_advanceTo hadv
      refine .inr ?_
      by_cases hrole : e.role = .leader
      · let adopted : Election := { e with terms, votes := ∅ }
        exact ⟨(adopted.stepDown why now).1, why, if_pos hrole,
          ⟨⟨rfl, rfl, rfl, hrem⟩, hvote⟩, rfl, rfl, hle⟩
      · exact ⟨{ e with terms, votes := ∅, role := .follower, leader := none }, why,
          if_neg hrole, ⟨⟨rfl, rfl, rfl, hrem⟩, hvote⟩, rfl, rfl, hle⟩

/-! ## Ticking -/

/-- Standing for the term after `e`'s: the new term with `node`'s own vote on
    disk, or the old store when the successor wrapped. -/
def Stands (e : Election) (node : NodeId) (e' : Election) : Prop :=
  e'.terms.state = ⟨wrappingSucc e.term, some node⟩ ∧ e.term < wrappingSucc e.term ∨
    wrappingSucc e.term < e.term ∧ e'.terms = e.terms

inductive TickMove (e : Election) : Election × Except Error (Option Action) → Prop
  /-- Nothing to ask of the caller, or only a heartbeat. -/
  | quiet {e'} {res} : e.Silent e' → e.SameStanding e' →
      (∀ t, res ≠ .ok (some (.requestVotes t))) → (∀ t, res ≠ .ok (some (.becameLeader t))) →
      TickMove e (e', res)
  /-- The lease ran out. -/
  | lapse {e'} {why} : e.Silent e' → e'.role = .follower → e'.leader = none →
      TickMove e (e', .ok (some (.steppedDown e'.term why)))
  /-- A campaign. -/
  | stand {e'} : e.Frame e' → e'.role = .candidate → e'.leader = none →
      e'.votes = {e.cfg.node} → e.Stands e.cfg.node e' →
      TickMove e (e', .ok (some (.requestVotes (wrappingSucc e.term))))
  /-- A lone voter wins at once. -/
  | ascend {e'} : e.Frame e' → e'.role = .leader → e'.leader = some e.cfg.node →
      e.hasQuorum {e.cfg.node} → e.Stands e.cfg.node e' →
      TickMove e (e', .ok (some (.becameLeader e'.term)))

/-- The successor of a term is a later term unless it wrapped, and then it is an
    earlier one. -/
theorem lt_wrappingSucc_or_lt (t : Nat) : t < wrappingSucc t ∨ wrappingSucc t < t := by
  unfold wrappingSucc u64Size
  omega

theorem stands_of_grant {e : Election} {terms terms' : TermStore} {io : DiskAnswers} {b g : Bool}
    (hadv : e.terms.advanceTo (wrappingSucc e.terms.term) io.advance = (terms, .ok b))
    (hgr : terms.grantVote (wrappingSucc e.terms.term) e.cfg.node io.grant = (terms', .ok g))
    {e' : Election} (he' : e'.terms = terms') : e.Stands e.cfg.node e' := by
  subst he'
  rcases lt_wrappingSucc_or_lt e.terms.term with hnew | hwrap
  · -- a fresh term, in which nobody has this node's vote yet
    rcases TermStore.advanceTo_cases hadv with ⟨-, hle | ⟨err, herr⟩⟩ | ⟨rfl, -⟩
    · exact absurd hnew (not_lt.2 hle)
    · cases herr
    · exact .inl ⟨TermStore.grantVote_of_unvoted rfl hgr, hnew⟩
  · rw [TermStore.advanceTo_of_le hwrap.le] at hadv
    obtain ⟨rfl, -⟩ := Prod.mk.inj hadv
    rw [TermStore.grantVote_of_lt hwrap] at hgr
    exact .inr ⟨hwrap, (Prod.mk.inj hgr).1.symm⟩

theorem standForElection_move (h : e.terms.Synced) (now : Instant) (io : DiskAnswers)
    (hrole : e.role ≠ .leader) : e.TickMove (e.standForElection now io) := by
  have hfail : ∀ {terms : TermStore} {err : Error}, e.terms.Remembers terms →
      e.terms.NoNewVote terms → e.TickMove ({ e with terms }, .error err) := fun hrem hvote =>
    .quiet ⟨⟨rfl, rfl, rfl, hrem⟩, hvote⟩
      ⟨rfl, rfl, Finset.Subset.refl _, fun hl => absurd hl hrole⟩
      (fun t => by simp) (fun t => by simp)
  cases hadv : e.terms.advanceTo (wrappingSucc e.terms.term) io.advance with
  | mk terms res =>
    have hrem := TermStore.remembers_advanceTo h hadv
    have hvote := TermStore.noNewVote_advanceTo hadv
    cases res with
    | error err =>
      simp only [standForElection, hadv]
      exact hfail hrem hvote
    | ok b =>
      cases hgr : terms.grantVote (wrappingSucc e.terms.term) e.cfg.node io.grant with
      | mk terms' res' =>
        have hrem' := hrem.trans (TermStore.remembers_grantVote hrem.synced hgr)
        cases res' with
        | error err =>
          obtain rfl := TermStore.grantVote_not_granted hgr (by simp)
          simp only [standForElection, hadv, hgr]
          exact hfail hrem hvote
        | ok g =>
          simp only [standForElection, hadv, hgr]
          split_ifs with hq
          · exact .ascend ⟨rfl, rfl, rfl, hrem'⟩ rfl rfl hq (stands_of_grant hadv hgr rfl)
          · exact .stand ⟨rfl, rfl, rfl, hrem'⟩ rfl rfl rfl (stands_of_grant hadv hgr rfl)

theorem TickMove.of_backoff {b : Option Instant} {r : Election × Except Error (Option Action)}
    (h : TickMove { e with stepdownBackoff := b } r) : e.TickMove r := by
  cases h with
  | quiet hf hs h1 h2 =>
    exact .quiet ⟨⟨hf.cfg, hf.current, hf.next, hf.terms⟩, hf.noNewVote⟩
      ⟨hs.1, hs.2, hs.3, hs.4⟩ h1 h2
  | lapse hf hr hl =>
    exact .lapse ⟨⟨hf.cfg, hf.current, hf.next, hf.terms⟩, hf.noNewVote⟩ hr hl
  | stand hf hr hl hv ht => exact .stand ⟨hf.1, hf.2, hf.3, hf.4⟩ hr hl hv ht
  | ascend hf hr hl hq ht => exact .ascend ⟨hf.1, hf.2, hf.3, hf.4⟩ hr hl hq ht

theorem tick_of_not_leader (hrole : e.role ≠ .leader) (now : Instant) (io : DiskAnswers) :
    e.tick now io =
      if e.stepdownBackoff.any (now < ·) then (e, .ok none)
      else
        let e := { e with stepdownBackoff := none }
        if durationSince now e.lastContact ≥ e.timeout then e.standForElection now io
        else (e, .ok none) := by
  unfold tick
  split
  · rfl
  · rfl
  · exact absurd ‹e.role = .leader› hrole

theorem tick_move (h : e.terms.Synced) (now : Instant) (io : DiskAnswers) :
    e.TickMove (e.tick now io) := by
  have hquiet : e.TickMove (e, .ok none) :=
    .quiet (.refl h) (.refl e) (fun t => by simp) (fun t => by simp)
  by_cases hrole : e.role = .leader
  · unfold tick
    rw [hrole]
    simp only
    split_ifs
    · exact .lapse ⟨⟨rfl, rfl, rfl, .refl h⟩, .refl _⟩ rfl rfl
    · exact .quiet ⟨⟨rfl, rfl, rfl, .refl h⟩, .refl _⟩
        ⟨hrole.symm, rfl, Finset.Subset.refl _, fun _ => rfl⟩ (fun t => by simp) (fun t => by simp)
    · exact hquiet
  · rw [tick_of_not_leader hrole]
    simp only
    split_ifs
    · exact hquiet
    · exact .of_backoff
        (standForElection_move (e := { e with stepdownBackoff := none }) h now io hrole)
    · exact .quiet ⟨⟨rfl, rfl, rfl, .refl h⟩, .refl _⟩
        ⟨rfl, rfl, Finset.Subset.refl _, fun _ => rfl⟩ (fun t => by simp) (fun t => by simp)

/-! ## Votes -/

inductive VoteMove (e : Election) (req : VoteRequest) (mine : Durability) :
    Election × Except Error VoteReply → Prop
  /-- The node stands where it stood, and promises nothing. -/
  | refuse {e'} {res} : e.Silent e' → e.SameStanding e' →
      (∀ reply, res = .ok reply → reply.granted = false) → VoteMove e req mine (e', res)
  /-- A higher term deposed the node, and it promises nothing. -/
  | depose {e'} {res} : e.Silent e' → e'.role = .follower → e'.leader = none →
      (∀ reply, res = .ok reply → reply.granted = false) → VoteMove e req mine (e', res)
  /-- The vote is on disk in the term of the request, from a voter that is not
      ahead of the candidate. -/
  | grant {e'} {reply} : e.Frame e' →
      (e.SameStanding e' ∧ e'.term = e.term ∨ e'.role = .follower ∧ e'.leader = none) →
      reply.granted = true → reply.term = req.term →
      e'.terms.state = ⟨req.term, some req.candidate⟩ →
      req.durability.compareTo mine = .atLeast → VoteMove e req mine (e', .ok reply)

theorem answerVote_move (h : e.terms.Synced) (req : VoteRequest) (now : Instant)
    (mine : Durability) (io : IoResult) (hle : req.term ≤ e.term) :
    e.VoteMove req mine (e.answerVote req now mine io) := by
  have hrefuse : ∀ {reply : VoteReply}, reply.granted = false →
      e.VoteMove req mine (e, .ok reply) := by
    intro reply hg
    refine .refuse (.refl h) (.refl e) fun r hr => ?_
    cases hr
    exact hg
  unfold answerVote
  simp only
  split_ifs with hconf hstale hcmp
  · exact hrefuse rfl
  · exact hrefuse rfl
  · -- only now may the vote be recorded
    have hcmp : req.durability.compareTo mine = .atLeast := not_not.1 hcmp
    have hterm : req.term = e.term := le_antisymm hle (not_lt.1 hstale)
    cases hgr : e.terms.grantVote req.term req.candidate io with
    | mk terms res =>
      have hrem := TermStore.remembers_grantVote h hgr
      have hsame : terms.term = e.terms.term := by
        rcases TermStore.grantVote_cases hgr with ⟨rfl, -⟩ | ⟨rfl, -⟩
        · rfl
        · exact hterm
      have hstand : ∀ t : Instant,
          e.SameStanding { e with terms, lastContact := t } := fun t =>
        ⟨rfl, rfl, Finset.Subset.refl _, fun _ => hsame⟩
      cases res with
      | error err =>
        obtain rfl := TermStore.grantVote_not_granted hgr (by simp)
        exact .refuse ⟨⟨rfl, rfl, rfl, hrem⟩, .refl _⟩ (hstand e.lastContact)
          nofun
      | ok b =>
        cases b with
        | false =>
          obtain rfl := TermStore.grantVote_not_granted hgr (by simp)
          refine .refuse ⟨⟨rfl, rfl, rfl, hrem⟩, .refl _⟩ (hstand e.lastContact)
            fun r hr => ?_
          cases hr
          rfl
        | true =>
          have hst := TermStore.grantVote_granted hgr
          exact .grant ⟨rfl, rfl, rfl, hrem⟩ (.inl ⟨hstand now, hsame⟩) rfl
            (congrArg TermState.term hst) hst hcmp
  · exact hrefuse rfl

/-- A node deposed by a higher term is a follower of nobody when it answers. -/
theorem VoteMove.after_depose {e' : Election} {req : VoteRequest} {mine : Durability}
    {r : Election × Except Error VoteReply} (h : e'.VoteMove req mine r) (hf : e.Silent e')
    (hrole : e'.role = .follower) (hlead : e'.leader = none) : e.VoteMove req mine r := by
  cases h with
  | refuse hf' hs hg =>
    exact .depose (hf.trans hf') (hs.role.trans hrole) (hs.leader.trans hlead) hg
  | depose hf' hr hl hg => exact .depose (hf.trans hf') hr hl hg
  | grant hf' hst hg ht hv hc =>
    refine .grant (hf.toFrame.trans hf') (.inr ?_) hg ht hv hc
    rcases hst with ⟨hs, -⟩ | hfol
    · exact ⟨hs.role.trans hrole, hs.leader.trans hlead⟩
    · exact hfol

theorem onVoteRequest_move (h : e.terms.Synced) (req : VoteRequest) (now : Instant)
    (mine : Durability) (io : DiskAnswers) :
    e.VoteMove req mine (e.onVoteRequest req now mine io) := by
  unfold onVoteRequest
  split_ifs with hgt
  · rcases observeTerm_spec h req.term now s!"candidate {req.candidate} has a higher term"
      io.advance with ⟨err, herr⟩ | ⟨e', why, hok, hf, hrole, hlead, hle⟩
    · rw [herr]
      exact .refuse (.refl h) (.refl e) nofun
    · rw [hok]
      exact (answerVote_move hf.terms.synced req now mine io.grant hle).after_depose hf hrole hlead
  · exact answerVote_move h req now mine io.grant (not_lt.1 hgt)

/-- The outcomes of a vote reply from `voter`. -/
inductive ReplyMove (e : Election) (voter : NodeId) (reply : VoteReply) :
    Election × Except Error (Option Action) → Prop
  | ignore {res} : (∀ t, res ≠ .ok (some (.requestVotes t))) →
      (∀ t, res ≠ .ok (some (.becameLeader t))) → ReplyMove e voter reply (e, res)
  | depose {e'} {why} : e.Silent e' → e'.role = .follower → e'.leader = none →
      ReplyMove e voter reply (e', .ok (some (.steppedDown e'.term why)))
  /-- One more vote for a candidate, short of a quorum. -/
  | tally {e'} : e.Frame e' → e'.terms = e.terms → e.role = .candidate →
      reply.granted = true → reply.term = e.term → e'.role = .candidate →
      e'.leader = e.leader → e'.votes ⊆ insert voter e.votes → ReplyMove e voter reply (e', .ok none)
  /-- The vote that completes a quorum. -/
  | win {e'} : e.Frame e' → e'.terms = e.terms → e.role = .candidate →
      reply.granted = true → reply.term = e.term → e'.role = .leader →
      e'.leader = some e.cfg.node → e'.votes ⊆ insert voter e.votes → e.hasQuorum e'.votes →
      ReplyMove e voter reply (e', .ok (some (.becameLeader e.term)))

/-- Whether or not the sender is a configured voter, at most its vote is added. -/
theorem countVote_spec (h : e.terms.Synced) (voter : NodeId) :
    e.Frame (e.countVote voter) ∧ (e.countVote voter).terms = e.terms ∧
      (e.countVote voter).role = e.role ∧ (e.countVote voter).leader = e.leader ∧
      (e.countVote voter).votes ⊆ insert voter e.votes := by
  unfold countVote
  split_ifs
  · exact ⟨⟨rfl, rfl, rfl, .refl h⟩, rfl, rfl, rfl, Finset.Subset.refl _⟩
  · exact ⟨.refl h, rfl, rfl, rfl, Finset.subset_insert _ _⟩

theorem Frame.hasQuorum_eq {e' : Election} (hf : e.Frame e') (acks : Finset NodeId) :
    e'.hasQuorum acks = e.hasQuorum acks := by
  simp only [hasQuorum, hf.current, hf.next]

theorem onVoteReply_move (h : e.terms.Synced) (voter : NodeId) (reply : VoteReply)
    (now : Instant) (io : DiskAnswers) :
    e.ReplyMove voter reply (e.onVoteReply voter reply now io) := by
  have hnone : e.ReplyMove voter reply (e, .ok none) :=
    .ignore (fun t => by simp) (fun t => by simp)
  unfold onVoteReply
  by_cases hgt : reply.term > e.terms.term
  · rw [if_pos hgt]
    rcases observeTerm_spec h reply.term now s!"voter {voter} is on a higher term" io.advance with
      ⟨err, herr⟩ | ⟨e', why, hok, hf, hrole, hlead, -⟩
    · rw [herr]
      exact .ignore (fun t => by simp) (fun t => by simp)
    · rw [hok]
      exact .depose hf hrole hlead
  rw [if_neg hgt]
  by_cases hskip : e.role ≠ .candidate ∨ reply.term ≠ e.terms.term
  · rw [if_pos hskip]; exact hnone
  rw [if_neg hskip]
  by_cases hrefused : ¬ reply.granted
  · rw [if_pos hrefused]; exact hnone
  rw [if_neg hrefused]
  push Not at hskip
  obtain ⟨hrole, hterm⟩ := hskip
  have hg : reply.granted = true := not_not.1 hrefused
  obtain ⟨hf, hterms, hrole', hlead, hsub⟩ := countVote_spec h voter
  simp only
  split_ifs with hq
  · rw [hf.hasQuorum_eq] at hq
    have hact : ((e.countVote voter).becomeLeader now).2 = .becameLeader e.term :=
      congrArg Action.becameLeader (congrArg TermStore.term hterms)
    rw [hact]
    exact .win ⟨hf.cfg, hf.current, hf.next, hf.terms⟩ hterms hrole hg hterm rfl
      (congrArg (fun cfg : ElectionConfig => some cfg.node) hf.cfg) hsub hq
  · exact .tally hf hterms hrole hg hterm (hrole'.trans hrole) hlead hsub

/-! ## Heartbeats and the rest -/

inductive HeartbeatMove (e : Election) (hb : Heartbeat) :
    Election × Except Error HeartbeatReply → Prop
  | ignore {res} : HeartbeatMove e hb (e, res)
  /-- The node recognises the sender, in the sender's own term. -/
  | follow {e'} {res} : e.Silent e' → e'.role = .follower → e'.leader = some hb.leader →
      e'.term = hb.term → HeartbeatMove e hb (e', res)

theorem observeTerm_term {e' : Election} {t : Nat} {now : Instant} {why : String}
    {io : IoResult} {a : Action} (ht : e.term < t)
    (h : e.observeTerm t now why io = (e', .ok a)) : e'.term = t := by
  unfold observeTerm at h
  cases hadv : e.terms.advanceTo t io with
  | mk terms res =>
    cases res with
    | error err =>
      rw [hadv] at h
      cases h
    | ok b =>
      have hterms : terms.term = t := by
        rcases TermStore.advanceTo_cases hadv with ⟨-, hle | ⟨err, herr⟩⟩ | ⟨rfl, -⟩
        · exact absurd ht (not_lt.2 hle)
        · cases herr
        · rfl
      rw [hadv] at h
      simp only at h
      split_ifs at h <;> (obtain ⟨rfl, -⟩ := Prod.mk.inj h; exact hterms)

theorem onHeartbeat_move (h : e.terms.Synced) (hb : Heartbeat) (now : Instant)
    (io : DiskAnswers) : e.HeartbeatMove hb (e.onHeartbeat hb now io) := by
  unfold onHeartbeat
  split_ifs with hlt hgt
  · exact .ignore
  · rcases observeTerm_spec h hb.term now s!"leader {hb.leader} has a higher term" io.advance with
      ⟨err, herr⟩ | ⟨e', why, hok, hf, -, -, -⟩
    · rw [herr]
      exact .ignore
    · have hterm := observeTerm_term hgt hok
      rw [hok]
      exact .follow ⟨⟨hf.cfg, hf.current, hf.next, hf.terms⟩, hf.noNewVote⟩ rfl rfl hterm
  · exact .follow ⟨⟨rfl, rfl, rfl, .refl h⟩, .refl _⟩ rfl rfl
      (le_antisymm (not_lt.1 hlt) (not_lt.1 hgt))

theorem onHeartbeatReply_move (h : e.terms.Synced) (peer : NodeId) (reply : HeartbeatReply)
    (now : Instant) (io : DiskAnswers) :
    let e' := (e.onHeartbeatReply peer reply now io).1
    e.Silent e' ∧ (e.SameStanding e' ∨ e'.role = .follower ∧ e'.leader = none) := by
  have hself : e.Silent e ∧ (e.SameStanding e ∨ e.role = .follower ∧ e.leader = none) :=
    ⟨.refl h, .inl (.refl e)⟩
  unfold onHeartbeatReply
  simp only
  split_ifs with hgt hskip hconf hq hq'
  · rcases observeTerm_spec h reply.term now s!"peer {peer} is on a higher term" io.advance with
      ⟨err, herr⟩ | ⟨e', why, hok, hf, hrole, hlead, -⟩
    · rw [herr]
      exact hself
    · rw [hok]
      exact ⟨hf, .inr ⟨hrole, hlead⟩⟩
  · exact hself
  all_goals
    exact ⟨⟨⟨rfl, rfl, rfl, .refl h⟩, .refl _⟩,
      .inl ⟨rfl, rfl, Finset.Subset.refl _, fun _ => rfl⟩⟩

theorem requestStepDown_move (h : e.terms.Synced) (now : Instant) :
    let e' := (e.requestStepDown now).1
    e.Silent e' ∧ (e.SameStanding e' ∨ e'.role = .follower ∧ e'.leader = none) := by
  unfold requestStepDown
  split_ifs
  · exact ⟨.refl h, .inl (.refl e)⟩
  · exact ⟨⟨⟨rfl, rfl, rfl, .refl h⟩, .refl _⟩, .inr ⟨rfl, rfl⟩⟩

theorem requestStepDown_terms (e : Election) (now : Instant) :
    (e.requestStepDown now).1.terms = e.terms := by
  unfold requestStepDown
  split_ifs <;> rfl

theorem setVoterConfiguration_move (h : e.terms.Synced) (current : Finset NodeId)
    (next : Option (Finset NodeId)) (hcur : e.currentVoters = current)
    (hnext : e.nextVoters = next) :
    let e' := (e.setVoterConfiguration current next).1
    e.Silent e' ∧ e.SameStanding e' := by
  unfold setVoterConfiguration
  split_ifs
  · exact ⟨.refl h, .refl e⟩
  · exact ⟨⟨⟨rfl, hcur.symm, hnext.symm, .refl h⟩, .refl _⟩,
      ⟨rfl, rfl, Finset.filter_subset _ _, fun _ => rfl⟩⟩

/-- New voter sets change nothing but the sets and drop the votes of others. -/
theorem setVoterConfiguration_eq_ok {e' : Election} {current : Finset NodeId}
    {next : Option (Finset NodeId)} (h : e.setVoterConfiguration current next = (e', .ok ())) :
    e'.cfg = e.cfg ∧ e'.terms = e.terms ∧ e.SameStanding e' ∧ e'.currentVoters = current ∧
      e'.nextVoters = next := by
  unfold setVoterConfiguration at h
  split_ifs at h
  · cases (Prod.mk.inj h).2
  · obtain ⟨rfl, -⟩ := Prod.mk.inj h
    exact ⟨rfl, rfl, ⟨rfl, rfl, Finset.filter_subset _ _, fun _ => rfl⟩, rfl, rfl⟩

theorem setVoterConfiguration_ok (e : Election) {current : Finset NodeId}
    {next : Option (Finset NodeId)} (hcur : current ≠ ∅) (hnext : next ≠ some ∅) :
    ∃ e', e.setVoterConfiguration current next = (e', .ok ()) := by
  unfold setVoterConfiguration
  rw [if_neg (by simp [hcur, hnext])]
  exact ⟨_, rfl⟩

end Election

end Shardlite.Cluster
