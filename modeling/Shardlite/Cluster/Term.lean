/-
  Shardlite.Cluster.Term

  Terms and votes: the durable state election safety rests on.  A vote is on
  disk before it is promised, so a node that restarts from its term file cannot
  vote for a second candidate in a term it has already voted in.
-/
import Shardlite.Base

namespace Shardlite.Cluster

/-- What the term file records.  A new term is a new election, so the vote is
    reset when the term advances. -/
structure TermState where
  term : Nat := 0
  votedFor : Option NodeId := none
  deriving DecidableEq, Repr, Inhabited

/-- Durable term and vote for one node: the file, and the copy in memory. -/
structure TermStore where
  file : Option TermState
  state : TermState
  deriving DecidableEq, Repr, Inhabited

namespace TermStore

/-- Open the store on the file a previous run left, if any. -/
def openFile (file : Option TermState) : TermStore := ⟨file, file.getD {}⟩

variable (s : TermStore)

def term : Nat := s.state.term

def votedFor : Option NodeId := s.state.votedFor

/-- Write, fsync, rename: the file changes only when every call succeeds, and
    the copy in memory only after the file. -/
def persist (next : TermState) (io : IoResult) : TermStore × IoResult :=
  match io with
  | .ok () => (⟨some next, next⟩, .ok ())
  | .error e => (s, .error e)

/-- Advance to `term`, clearing the vote.  Refuses to go backwards. -/
def advanceTo (term : Nat) (io : IoResult) : TermStore × Except Error Bool :=
  if term ≤ s.state.term then (s, .ok false)
  else
    match s.persist ⟨term, none⟩ io with
    | (s', .ok ()) => (s', .ok true)
    | (s', .error e) => (s', .error e)

/-- Record a vote for `candidate` in `term`, unless this node already voted for
    another.  Asking again for the same candidate writes nothing. -/
def grantVote (term : Nat) (candidate : NodeId) (io : IoResult) : TermStore × Except Error Bool :=
  if term < s.state.term then (s, .ok false)
  else
    let next : TermState := if term > s.state.term then ⟨term, none⟩ else s.state
    match next.votedFor with
    | some already =>
      if already ≠ candidate then
        if next.term > s.state.term then
          match s.persist next io with
          | (s', .ok ()) => (s', .ok false)
          | (s', .error e) => (s', .error e)
        else (s, .ok false)
      else (s, .ok true)
    | none =>
      match s.persist { next with votedFor := some candidate } io with
      | (s', .ok ()) => (s', .ok true)
      | (s', .error e) => (s', .error e)

/-! ## What a store keeps -/

/-- Memory agrees with the file, so a crash forgets nothing. -/
def Synced : Prop := s.state = s.file.getD {}

/-- `s'` remembers `s`: the term does not go back, and inside one term a vote
    that was cast stays cast. -/
structure Remembers (s s' : TermStore) : Prop where
  synced : s'.Synced
  term_le : s.term ≤ s'.term
  vote_kept : s.term = s'.term → s.votedFor.isSome → s'.votedFor = s.votedFor

/-- Going from `s` to `s'` casts no vote that was not cast already. -/
def NoNewVote (s s' : TermStore) : Prop := s'.votedFor.isSome → s'.state = s.state

variable {s : TermStore}

theorem NoNewVote.refl (s : TermStore) : s.NoNewVote s := fun _ => rfl

theorem NoNewVote.trans {a b c : TermStore} (hab : a.NoNewVote b) (hbc : b.NoNewVote c) :
    a.NoNewVote c := by
  intro h
  have hcb := hbc h
  rw [hcb]
  apply hab
  rw [votedFor, ← hcb]
  exact h

theorem Remembers.refl (h : s.Synced) : s.Remembers s :=
  ⟨h, le_refl _, fun _ _ => rfl⟩

theorem Remembers.trans {a b c : TermStore} (hab : a.Remembers b) (hbc : b.Remembers c) :
    a.Remembers c := by
  refine ⟨hbc.synced, le_trans hab.term_le hbc.term_le, fun heq hsome => ?_⟩
  have hle := hab.term_le
  have hle' := hbc.term_le
  have hb : b.votedFor = a.votedFor := hab.vote_kept (by omega) hsome
  rw [hbc.vote_kept (by omega) (hb ▸ hsome), hb]

/-- Reopening from the file gives back the very store that crashed. -/
theorem openFile_file_eq (h : s.Synced) : TermStore.openFile s.file = s := by
  cases s
  simp only [TermStore.openFile, Synced] at h ⊢
  rw [h]

/-! ## What the two operations do -/

section Operations

variable {s s' : TermStore} {t : Nat} {c : NodeId} {io : IoResult}
variable {r : Except Error Bool} {b : Bool}

theorem advanceTo_of_le (ht : t ≤ s.term) (io : IoResult) :
    s.advanceTo t io = (s, .ok false) :=
  if_pos ht

theorem advanceTo_cases (h : s.advanceTo t io = (s', r)) :
    (s' = s ∧ (t ≤ s.term ∨ ∃ err, r = .error err)) ∨
      (s' = ⟨some ⟨t, none⟩, ⟨t, none⟩⟩ ∧ s.term < t) := by
  unfold advanceTo at h
  split_ifs at h with ht
  · obtain ⟨rfl, -⟩ := Prod.mk.inj h
    exact .inl ⟨rfl, .inl ht⟩
  · cases io with
    | ok u =>
      obtain ⟨rfl, -⟩ := Prod.mk.inj h
      exact .inr ⟨rfl, not_le.1 ht⟩
    | error e =>
      obtain ⟨rfl, rfl⟩ := Prod.mk.inj h
      exact .inl ⟨rfl, .inr ⟨e, rfl⟩⟩

theorem remembers_advanceTo (hs : s.Synced) (h : s.advanceTo t io = (s', r)) : s.Remembers s' := by
  rcases advanceTo_cases h with ⟨rfl, -⟩ | ⟨rfl, ht⟩
  · exact .refl hs
  · exact ⟨rfl, ht.le, fun heq => absurd heq ht.ne⟩

theorem noNewVote_advanceTo (h : s.advanceTo t io = (s', r)) :
    s.NoNewVote s' := by
  rcases advanceTo_cases h with ⟨rfl, -⟩ | ⟨rfl, -⟩
  · exact .refl _
  · intro hv; cases hv

theorem advanceTo_error {err : Error} (h : s.advanceTo t io = (s', .error err)) : s' = s := by
  unfold advanceTo at h
  split_ifs at h
  · cases h
  · cases io with
    | ok u => cases h
    | error e => exact (Prod.mk.inj h).1.symm

theorem le_term_advanceTo (h : s.advanceTo t io = (s', .ok b)) : t ≤ s'.term := by
  rcases advanceTo_cases h with ⟨rfl, ht | ⟨err, herr⟩⟩ | ⟨rfl, -⟩
  · exact ht
  · cases herr
  · exact le_refl t

theorem grantVote_of_lt (ht : t < s.term) (c : NodeId) (io : IoResult) :
    s.grantVote t c io = (s, .ok false) :=
  if_pos ht

/-- A call to `grantVote` changes nothing, or puts the vote for `c` in `t` on
    record in an election this node had not voted in. -/
theorem grantVote_cases (h : s.grantVote t c io = (s', r)) :
    (s' = s ∧ (r = .ok true → s.state = ⟨t, some c⟩)) ∨
      (s' = ⟨some ⟨t, some c⟩, ⟨t, some c⟩⟩ ∧ r = .ok true ∧
        (s.term < t ∨ s.term = t ∧ s.votedFor = none)) := by
  unfold grantVote at h
  by_cases hlt : t < s.state.term
  · rw [if_pos hlt] at h
    obtain ⟨rfl, rfl⟩ := Prod.mk.inj h
    exact .inl ⟨rfl, by simp⟩
  rw [if_neg hlt] at h
  by_cases hgt : s.state.term < t
  · -- a new election: the vote is free
    simp only [gt_iff_lt, if_pos hgt] at h
    cases io with
    | ok u =>
      obtain ⟨rfl, rfl⟩ := Prod.mk.inj h
      exact .inr ⟨rfl, rfl, .inl hgt⟩
    | error e =>
      obtain ⟨rfl, rfl⟩ := Prod.mk.inj h
      exact .inl ⟨rfl, by simp⟩
  · obtain rfl : s.state.term = t := by omega
    simp only [gt_iff_lt, lt_irrefl, if_false] at h
    cases hv : s.state.votedFor with
    | some a =>
      simp only [hv] at h
      split_ifs at h with hac
      · obtain ⟨rfl, rfl⟩ := Prod.mk.inj h
        exact .inl ⟨rfl, by simp⟩
      · obtain ⟨rfl, rfl⟩ := Prod.mk.inj h
        obtain rfl : a = c := not_not.1 hac
        exact .inl ⟨rfl, fun _ => by rw [← hv]⟩
    | none =>
      simp only [hv] at h
      cases io with
      | ok u =>
        obtain ⟨rfl, rfl⟩ := Prod.mk.inj h
        exact .inr ⟨rfl, rfl, .inr ⟨rfl, hv⟩⟩
      | error e =>
        obtain ⟨rfl, rfl⟩ := Prod.mk.inj h
        exact .inl ⟨rfl, by simp⟩

theorem remembers_grantVote (hs : s.Synced)
    (h : s.grantVote t c io = (s', r)) : s.Remembers s' := by
  rcases grantVote_cases h with ⟨rfl, -⟩ | ⟨rfl, -, hlt | ⟨heq, hv⟩⟩
  · exact .refl hs
  · exact ⟨rfl, hlt.le, fun heq => absurd heq hlt.ne⟩
  · exact ⟨rfl, heq.le, fun _ hsome => by simp [hv] at hsome⟩

theorem grantVote_not_granted (h : s.grantVote t c io = (s', r)) (hr : r ≠ .ok true) : s' = s := by
  rcases grantVote_cases h with ⟨hs, -⟩ | ⟨-, hok, -⟩
  · exact hs
  · exact absurd hok hr

/-- A granted vote is the vote on record, in the term it was asked for. -/
theorem grantVote_granted (h : s.grantVote t c io = (s', .ok true)) :
    s'.state = ⟨t, some c⟩ := by
  rcases grantVote_cases h with ⟨rfl, hst⟩ | ⟨rfl, -⟩
  · exact hst rfl
  · rfl

/-- In an election it has not voted in, a node refuses nobody: the call fails or
    the vote is on record. -/
theorem grantVote_of_unvoted (hst : s.state = ⟨t, none⟩)
    (h : s.grantVote t c io = (s', .ok b)) : s'.state = ⟨t, some c⟩ := by
  simp only [grantVote, hst, lt_irrefl, if_false] at h
  cases io with
  | ok u =>
    obtain ⟨rfl, -⟩ := Prod.mk.inj h
    rfl
  | error e => cases h

end Operations

end TermStore

end Shardlite.Cluster
