/-
  Shardlite.Cluster.ElectionEffect

  What one step of a cluster of elections can do.  Every invariant of the
  cluster is proved against this list of effects, not against the handlers.
-/
import Shardlite.Cluster.ElectionNet
import Shardlite.Cluster.ElectionMoves

namespace Shardlite.Cluster

namespace Net

/-! ## Reading an updated cluster -/

section Reading

variable (w : Net) (i j : NodeId) (e : Election) (m : Msg) (t : Nat)

@[simp] theorem put_nodes : (w.put i e).nodes j = if j = i then e else w.nodes j := by
  simp only [put, Function.update_apply]

@[simp] theorem put_ballots : (w.put i e).ballots = ballotOf i e ++ w.ballots := rfl

@[simp] theorem send_nodes : (w.send m).nodes = w.nodes := rfl

@[simp] theorem send_ballots : (w.send m).ballots = w.ballots := rfl

@[simp] theorem elect_nodes : (w.elect i t).nodes = w.nodes := rfl

@[simp] theorem elect_ballots : (w.elect i t).ballots = w.ballots := rfl

end Reading

theorem mem_ballotOf {i : NodeId} {e : Election} (h : e.terms.Synced) {b : Ballot} :
    b ∈ ballotOf i e ↔ b.voter = i ∧ e.terms.state = ⟨b.term, some b.candidate⟩ := by
  obtain ⟨v, t, c⟩ := b
  unfold ballotOf
  rw [TermStore.Synced] at h
  rw [h]
  cases e.terms.file with
  | none => simp
  | some st =>
    obtain ⟨t', vote⟩ := st
    cases vote with
    | none => simp
    | some c' =>
      simp only [List.mem_singleton, Ballot.mk.injEq, Option.getD_some, TermState.mk.injEq,
        Option.some.injEq, eq_comm]

end Net

/-- Messages that carry no authority: refusals and heartbeat replies. -/
def Msg.Inert : Msg → Prop
  | .voteReply _ _ reply => reply.granted = false
  | .heartbeatReply .. => True
  | _ => False

/-- The step takes the voter sets of the configuration anew. -/
def Act.RereadsVoters : Act → Prop
  | .refreshVoters _ | .restart .. => True
  | _ => False

/-! ## What one step can do -/

/-- Every node has the run's configuration and a term store in step with its file. -/
structure Net.WellFormed (c : VoterConfiguration) (w : Net) : Prop where
  synced : ∀ i, (w.nodes i).terms.Synced
  cfg : ∀ i, (w.nodes i).cfg = c.config i
  current : ∀ i, (w.nodes i).currentVoters = c.current
  next : ∀ i, (w.nodes i).nextVoters = c.next

/-- The effects of one step of the cluster, taken by node `i` with durability `d`. -/
inductive Effect (c : VoterConfiguration) (w : Net) (i : NodeId) (d : Durability) : Net → Prop
  | idle : Effect c w i d w
  | keep {e'} : (w.nodes i).Silent e' → (w.nodes i).SameStanding e' → Effect c w i d (w.put i e')
  | follow {e'} : (w.nodes i).Silent e' → e'.role = .follower →
      (e'.leader = none ∨
        ∃ hb, .heartbeat hb ∈ w.sent ∧ e'.leader = some hb.leader ∧ e'.term = hb.term) →
      Effect c w i d (w.put i e')
  | grant {e' req reply} : .voteRequest req ∈ w.sent → i ≠ req.candidate →
      (w.nodes i).Frame e' →
      ((w.nodes i).SameStanding e' ∧ e'.term = (w.nodes i).term ∨
        e'.role = .follower ∧ e'.leader = none) →
      reply.granted = true → reply.term = req.term →
      e'.terms.state = ⟨req.term, some req.candidate⟩ →
      req.durability.compareTo d = .atLeast →
      Effect c w i d ((w.put i e').send (.voteReply i req.candidate reply))
  | campaign {e'} : i ∈ c.configured → (w.nodes i).Frame e' → e'.role = .candidate →
      e'.leader = none → e'.votes = {i} → (w.nodes i).Stands i e' →
      Effect c w i d ((w.put i e').send (.voteRequest ⟨wrappingSucc (w.nodes i).term, i, d⟩))
  | ascend {e'} : i ∈ c.configured → (w.nodes i).Frame e' → e'.role = .leader →
      e'.leader = some i → (w.nodes i).hasQuorum {i} → (w.nodes i).Stands i e' →
      Effect c w i d ((w.put i e').elect i e'.term)
  | tally {e' voter reply} : .voteReply voter i reply ∈ w.sent → (w.nodes i).Frame e' →
      e'.terms = (w.nodes i).terms → (w.nodes i).role = .candidate → reply.granted = true →
      reply.term = (w.nodes i).term → e'.role = .candidate → e'.leader = (w.nodes i).leader →
      e'.votes ⊆ insert voter (w.nodes i).votes → Effect c w i d (w.put i e')
  | win {e' voter reply} : .voteReply voter i reply ∈ w.sent → (w.nodes i).Frame e' →
      e'.terms = (w.nodes i).terms → (w.nodes i).role = .candidate → reply.granted = true →
      reply.term = (w.nodes i).term → e'.role = .leader → e'.leader = some i →
      e'.votes ⊆ insert voter (w.nodes i).votes → (w.nodes i).hasQuorum e'.votes →
      Effect c w i d ((w.put i e').elect i e'.term)
  | beat {t p} : (i, t) ∈ w.elected → Effect c w i d (w.send (.heartbeat ⟨t, i, p⟩))
  /-- A step followed by a message without authority. -/
  | andSend {w' m} : Effect c w i d w' → m.Inert → Effect c w i d (w'.send m)

section StepEffect

variable {c : VoterConfiguration} {w : Net}
variable {d : Durability}

theorem Net.perform_of_quiet {i : NodeId} {res : Except Error (Option Action)}
    (hreq : ∀ t, res ≠ .ok (some (.requestVotes t)))
    (hlead : ∀ t, res ≠ .ok (some (.becameLeader t))) : w.perform i d res = w := by
  unfold Net.perform
  split
  · exact absurd rfl (hreq _)
  · exact absurd rfl (hlead _)
  · rfl

theorem VoterConfiguration.not_refused (c : VoterConfiguration) :
    ¬ (c.current = ∅ ∨ c.next = some ∅) := by
  rintro (h | h)
  · exact c.current_nonempty.ne_empty h
  · exact c.next_ne_empty h

section Handlers

variable {i : NodeId} (hs : (w.nodes i).terms.Synced)

include hs

theorem tick_effect (hnode : (w.nodes i).cfg.node = i) (hi : i ∈ c.configured) (now : Instant)
    (d : Durability) (io : DiskAnswers) :
    Effect c w i d
      ((w.put i ((w.nodes i).tick now io).1).perform i d ((w.nodes i).tick now io).2) := by
  have hmove := Election.tick_move hs now io
  generalize (w.nodes i).tick now io = r at hmove
  cases hmove with
  | quiet hf hs hreq hlead =>
    rw [Net.perform_of_quiet hreq hlead]
    exact .keep hf hs
  | lapse hf hrole hl => exact .follow hf hrole (.inl hl)
  | stand hf hrole hl hv ht =>
    rw [hnode] at hv ht
    exact .campaign hi hf hrole hl hv ht
  | ascend hf hrole hl hq ht =>
    rw [hnode] at hl hq ht
    exact .ascend hi hf hrole hl hq ht

theorem recvVoteRequest_effect {req : VoteRequest} (hreq : .voteRequest req ∈ w.sent)
    (hne : i ≠ req.candidate) (now : Instant) (mine : Durability) (io : DiskAnswers) :
    Effect c w i mine (match (w.nodes i).onVoteRequest req now mine io with
      | (e, .ok reply) => (w.put i e).send (.voteReply i req.candidate reply)
      | (e, .error _) => w.put i e) := by
  have hmove := Election.onVoteRequest_move hs req now mine io
  generalize (w.nodes i).onVoteRequest req now mine io = r at hmove
  cases hmove with
  | @refuse e' res hf hs hg =>
    cases res with
    | error err => exact .keep hf hs
    | ok reply => exact .andSend (.keep hf hs) (hg reply rfl)
  | @depose e' res hf hrole hl hg =>
    cases res with
    | error err => exact .follow hf hrole (.inl hl)
    | ok reply => exact .andSend (.follow hf hrole (.inl hl)) (hg reply rfl)
  | grant hf hst hg ht hv hcmp => exact .grant hreq hne hf hst hg ht hv hcmp

theorem recvVoteReply_effect (hnode : (w.nodes i).cfg.node = i) {voter : NodeId}
    {reply : VoteReply} (hrep : .voteReply voter i reply ∈ w.sent) (now : Instant)
    (d : Durability) (io : DiskAnswers) :
    Effect c w i d ((w.put i ((w.nodes i).onVoteReply voter reply now io).1).perform i {}
      ((w.nodes i).onVoteReply voter reply now io).2) := by
  have hmove := Election.onVoteReply_move hs voter reply now io
  generalize (w.nodes i).onVoteReply voter reply now io = r at hmove
  cases hmove with
  | ignore hreq hlead =>
    rw [Net.perform_of_quiet hreq hlead]
    exact .keep (.refl hs) (.refl _)
  | depose hf hrole hl => exact .follow hf hrole (.inl hl)
  | tally hf hterms hcand hg ht hrole hl hv =>
    exact .tally hrep hf hterms hcand hg ht hrole hl hv
  | win hf hterms hcand hg ht hrole hl hv hq =>
    rw [hnode] at hl
    have hterm : (w.nodes i).term = _ := congrArg TermStore.term hterms.symm
    simp only [Net.perform, hterm]
    exact .win hrep hf hterms hcand hg ht hrole hl hv hq

theorem recvHeartbeat_effect {hb : Heartbeat} (hsent : .heartbeat hb ∈ w.sent) (now : Instant)
    (cordoned : Bool) (prefers : List ShardId) (d : Durability) (io : DiskAnswers) :
    Effect c w i d (match (w.nodes i).onHeartbeat hb now io with
      | (e, .ok reply) =>
        (w.put i e).send (.heartbeatReply i hb.leader { reply with cordoned, prefers })
      | (e, .error _) => w.put i e) := by
  have hmove := Election.onHeartbeat_move hs hb now io
  generalize (w.nodes i).onHeartbeat hb now io = r at hmove
  cases hmove with
  | @ignore res =>
    have hkeep : Effect c w i d (w.put i (w.nodes i)) := .keep (.refl hs) (.refl _)
    cases res with
    | error err => exact hkeep
    | ok reply => exact .andSend hkeep trivial
  | @follow e' res hf hrole hl ht =>
    have hfollow : Effect c w i d (w.put i e') := .follow hf hrole (.inr ⟨hb, hsent, hl, ht⟩)
    cases res with
    | error err => exact hfollow
    | ok reply => exact .andSend hfollow trivial

theorem restart_effect (c' : VoterConfiguration) (hcfg : (w.nodes i).cfg = c'.config i)
    (hcurrent : (w.nodes i).currentVoters = c'.current) (hnext : (w.nodes i).nextVoters = c'.next)
    (now : Instant) (d : Durability) :
    Effect c w i d (w.put i (c'.boot i (w.nodes i).terms.file now)) := by
  have hopen := TermStore.openFile_file_eq hs
  refine .follow ⟨⟨?_, ?_, ?_, ?_⟩, ?_⟩ ?_ (.inl ?_) <;>
    simp only [VoterConfiguration.boot, Election.setVoterConfiguration, if_neg c'.not_refused,
      Election.start, hopen]
  · exact hcfg.symm
  · exact hcurrent.symm
  · exact hnext.symm
  · exact .refl hs
  · exact .refl _

end Handlers

/-- Every step of an election has one of the listed effects.  Only a tick looks
    at who is configured, so any other has them for every configuration. -/
theorem step_effect_of {a : Act} (hs : (w.nodes a.actor).terms.Synced)
    (hcfg : (w.nodes a.actor).cfg = c.config a.actor)
    (hsets : a.RereadsVoters → (w.nodes a.actor).currentVoters = c.current ∧
      (w.nodes a.actor).nextVoters = c.next) {c' : VoterConfiguration}
    (hc : (∃ now d io, a = .tick a.actor now d io) → c' = c) (hd : a.Reports d) :
    Effect c' w a.actor d (c.step w a) := by
  have hnode : (w.nodes a.actor).cfg.node = a.actor := by rw [hcfg, c.config_node]
  have hdepose : ∀ {i : NodeId} {d : Durability} {e' : Election}, (w.nodes i).Silent e' ∧
      ((w.nodes i).SameStanding e' ∨ e'.role = .follower ∧ e'.leader = none) →
      Effect c' w i d (w.put i e') := by
    rintro i d e' ⟨hf, hs | ⟨hrole, hl⟩⟩
    · exact .keep hf hs
    · exact .follow hf hrole (.inl hl)
  cases a with
  | tick i now mine io =>
    obtain rfl : d = mine := hd
    obtain rfl := hc ⟨now, d, io, rfl⟩
    simp only [VoterConfiguration.step]
    split_ifs with hi
    · exact tick_effect hs hnode hi now d io
    · exact .idle
  | requestStepDown i now => exact hdepose (Election.requestStepDown_move hs now)
  | refreshVoters i =>
    obtain ⟨hcurrent, hnext⟩ := hsets trivial
    obtain ⟨hf, hsame⟩ := Election.setVoterConfiguration_move hs c.current c.next hcurrent hnext
    exact .keep hf hsame
  | recvVoteRequest i req now mine io =>
    obtain rfl : d = mine := hd
    simp only [VoterConfiguration.step]
    split_ifs with hsent hi
    · exact recvVoteRequest_effect hs hsent.1 hsent.2 now d io
    · exact .andSend .idle rfl
    · exact .idle
  | recvVoteReply i voter reply now io =>
    simp only [VoterConfiguration.step]
    split_ifs with hsent
    · exact recvVoteReply_effect hs hnode hsent now _ io
    · exact .idle
  | beat i t p =>
    simp only [VoterConfiguration.step]
    split_ifs with hel
    · exact .beat hel
    · exact .idle
  | recvHeartbeat i hb now cordoned prefers io =>
    simp only [VoterConfiguration.step]
    split_ifs with hsent
    · exact recvHeartbeat_effect hs hsent.1 now cordoned prefers _ io
    · exact .idle
  | recvHeartbeatReply i peer reply now io =>
    simp only [VoterConfiguration.step]
    split_ifs with hsent
    · exact hdepose (Election.onHeartbeatReply_move hs peer reply now io)
    · exact .idle
  | restart i now => exact restart_effect hs c hcfg (hsets trivial).1 (hsets trivial).2 now _

theorem step_effect (hw : w.WellFormed c) (a : Act) (hd : a.Reports d) :
    Effect c w a.actor d (c.step w a) :=
  step_effect_of (hw.synced _) (hw.cfg _) (fun _ => ⟨hw.current _, hw.next _⟩) (fun _ => rfl) hd

end StepEffect

end Shardlite.Cluster
