/-
  Shardlite.Shard.AtomicOnce

  A decided transaction is executed exactly once on every participant, whatever
  number of recoveries it takes, as long as no recovery is cut short between
  applying a shard's statements again and having its marker in the file.  The two
  are separate commits, and a shard without a marker table never gets one from
  recovery, so the code does not ensure it.

  The account of `Shard.AtomicLog` is related to the disk by `Exact`; what the disk
  itself says is the invariant of `Shard.AtomicSafety`.
-/
import Shardlite.Shard.AtomicLog

namespace Shardlite.Shard

open Storage Function

namespace AtomicNode

variable {D : Type}

/-- Recovery has done with `s` for the record it is resolving. -/
def Behind : Phase → Logged → ShardId → Prop
  | .recovering current todo _, r, s => r = current ∧ s ∉ todo
  | .marking current _ todo _, r, s => r = current ∧ s ∉ todo
  | _, _, _ => False

/-- Whatever recovery has applied again has its marker in the file. -/
def MarkedBehind (w : AtomicNode D) : Prop :=
  match w.phase with
  | .recovering r todo _ =>
    ∀ s ∈ r.record.shards, s ∉ todo → (w.images s).hasApplied r.record.id = true
  | .marking _ _ _ _ => False
  | _ => True

instance (w : AtomicNode D) : Decidable w.MarkedBehind := by
  unfold MarkedBehind
  split <;> infer_instance

/-- The process does not die, and no step of recovery fails, while something applied
    again is not marked. -/
def Uncut (w : AtomicNode D) : AtomicAct → Prop
  | .crash => w.MarkedBehind
  | .recoverShard _ admitted => admitted = false → w.MarkedBehind
  | .recoverMark admitted => admitted = true
  | .recoverRemove ok => ok = false → w.MarkedBehind
  | _ => True

instance (w : AtomicNode D) : ∀ a, Decidable (w.Uncut a)
  | .crash => inferInstanceAs (Decidable w.MarkedBehind)
  | .recoverShard .. | .recoverRemove _ => inferInstanceAs (Decidable (_ → _))
  | .recoverMark _ => inferInstanceAs (Decidable (_ = _))
  | .write .. | .start .. | .prepareNext _ | .putRecord _ | .commitNext _ | .removeRecord _
  | .abortNext _ | .restart => isTrue trivial

end AtomicNode

namespace AtomicLog

open AtomicNode (Behind plansFor planned executes executesAlone executesCommit executesAgain ranAlone
  decides recording removes removing find?_participants)

variable {D : Type} {sq : Sqlite D} {l : AtomicLog D}

/-! ## The account and the disk -/

/-- The statements a record gives a participant are the planned ones. -/
def Recorded (l : AtomicLog D) (r : Logged) : Prop :=
  ⟨r.tag, r.record.shards⟩ ∈ l.node.history ∧ r.record.shards.Nodup ∧
    ∀ s ∈ r.record.shards, ∃ statements, l.plans r.tag s = some statements ∧
      r.record.statementsFor s = some statements ∧
      (r.record.ddl = true → statements.length = 1)

/-- What a phase says about the transaction or the record in hand. -/
def PhaseExact (l : AtomicLog D) : Phase → Prop
  | .serving (some f) =>
    (l.plans f.tag = fun s => (f.participants.find? (·.1 = s)).map Prod.snd) ∧
      match f.stage with
      | .preparing _ | .recording =>
        (∀ s, f.tag ∉ l.node.applied s) ∧ ∀ r ∈ l.decided, r.tag ≠ f.tag
      | .committing todo _ => ∀ s ∈ todo, f.tag ∉ l.node.applied s
      | _ => True
  | .recovering _ todo _ => todo.Nodup
  | .marking _ s todo _ => (s :: todo).Nodup
  | _ => True

structure Exact (l : AtomicLog D) : Prop where
  tags : ∀ s, (l.executed s).map (·.tag) = l.node.applied s
  nodup : ∀ s, (l.node.applied s).Nodup
  same : ∀ s, ∀ e ∈ l.executed s, ∀ statements,
    l.plans e.tag s = some statements → e.statements = statements
  unplanned : ∀ t, l.node.history.length ≤ t → ∀ s, l.plans t s = none
  recorded : ∀ r ∈ l.decided, l.Recorded r
  unique : ∀ r ∈ l.decided, ∀ r' ∈ l.decided, r.tag = r'.tag → r = r'
  kept : ∀ k r, l.node.records.get? k = some r → r ∈ l.decided
  reached : ∀ r ∈ l.decided, l.node.records.get? r.record.id = some r ∨
    ∀ s ∈ r.record.shards, r.tag ∈ l.node.applied s
  marked : ∀ k r, l.node.records.get? k = some r → ∀ s ∈ r.record.shards,
    r.tag ∈ l.node.applied s → (l.node.images s).hasApplied r.record.id = true ∨
      Behind l.node.phase r s
  phase : l.PhaseExact l.node.phase
  once : ∀ x ∈ l.removed, x.once = true

variable {e : Execution} {statements : List Statement}

theorem filter_eq_singleton {es : List Execution} (hnodup : (es.map (·.tag)).Nodup) (he : e ∈ es) :
    es.filter (·.tag = e.tag) = [e] := by
  induction es with
  | nil => cases he
  | cons x es ih =>
    rw [List.map_cons, List.nodup_cons] at hnodup
    rcases List.mem_cons.1 he with rfl | he
    · have hrest : es.filter (·.tag = e.tag) = [] := by
        rw [List.filter_eq_nil_iff]
        intro y hy htag
        exact hnodup.1 (of_decide_eq_true htag ▸ List.mem_map_of_mem hy)
      rw [List.filter_cons_of_pos (by simp), hrest]
    · have hne : x.tag ≠ e.tag := fun htag => hnodup.1 (htag ▸ List.mem_map_of_mem he)
      rw [List.filter_cons_of_neg (by simpa using hne), ih hnodup.2 he]

namespace Exact

variable (h : l.Exact)

include h

/-- What a participant has applied it has executed once, as planned. -/
theorem executedOnce {r : Logged} {s : ShardId} (hr : r ∈ l.decided) (hs : s ∈ r.record.shards)
    (happ : r.tag ∈ l.node.applied s) : l.ExecutedOnce r.tag s := by
  obtain ⟨statements, hplan, -, -⟩ := (h.recorded r hr).2.2 s hs
  rw [← h.tags s] at happ
  obtain ⟨e, he, htag⟩ := List.mem_map.1 happ
  have hsame : e = ⟨r.tag, statements⟩ := by
    have hst := h.same s e he statements (by rw [htag]; exact hplan)
    cases e
    cases htag
    cases hst
    rfl
  unfold ExecutedOnce
  rw [hplan]
  have hnodup : ((l.executed s).map (·.tag)).Nodup := (h.tags s).symm ▸ h.nodup s
  have hfilter := filter_eq_singleton hnodup he
  rw [hsame] at hfilter
  exact hfilter

/-- A step of the node that leaves records and what is applied alone, and takes no
    marker away. -/
theorem setNode {w : AtomicNode D} (happ : w.applied = l.node.applied)
    (hhist : l.node.history <:+ w.history) (hrec : w.records = l.node.records)
    (hmark : ∀ s k, (l.node.images s).hasApplied k = true → (w.images s).hasApplied k = true)
    (hbehind : ∀ k r, l.node.records.get? k = some r → ∀ s ∈ r.record.shards,
      Behind l.node.phase r s →
        (w.images s).hasApplied r.record.id = true ∨ Behind w.phase r s)
    (hphase : ({ l with node := w } : AtomicLog D).PhaseExact w.phase) :
    ({ l with node := w } : AtomicLog D).Exact := by
  refine ⟨?_, ?_, h.same, ?_, ?_, h.unique, ?_, ?_, ?_, hphase, h.once⟩
  · intro s
    rw [happ]
    exact h.tags s
  · intro s
    rw [happ]
    exact h.nodup s
  · exact fun t ht => h.unplanned t (hhist.length_le.trans ht)
  · exact fun r hr => ⟨hhist.subset (h.recorded r hr).1, (h.recorded r hr).2⟩
  · intro k r hr
    rw [hrec] at hr
    exact h.kept k r hr
  · intro r hr
    rw [hrec, happ]
    exact h.reached r hr
  · intro k r hr s hs htag
    rw [hrec] at hr
    rw [happ] at htag
    rcases h.marked k r hr s hs htag with hm | hb
    · exact .inl (hmark s _ hm)
    · exact hbehind k r hr s hs hb

/-- A step that has shard `s` execute transaction `t`, which it had not. -/
theorem execute {w : AtomicNode D} {s : ShardId} {t : Nat} (hnew : t ∉ l.node.applied s)
    (hplan : ∀ planned, l.plans t s = some planned → statements = planned)
    (happ : w.applied = update l.node.applied s (t :: l.node.applied s))
    (hhist : l.node.history <:+ w.history) (hrec : w.records = l.node.records)
    (hmark : ∀ s k, (l.node.images s).hasApplied k = true → (w.images s).hasApplied k = true)
    (hown : ∀ r ∈ l.decided, r.tag = t → (w.images s).hasApplied r.record.id = true ∨
      Behind w.phase r s)
    (hbehind : ∀ k r, l.node.records.get? k = some r → ∀ s ∈ r.record.shards,
      Behind l.node.phase r s →
        (w.images s).hasApplied r.record.id = true ∨ Behind w.phase r s)
    (hphase : ({ l with node := w } : AtomicLog D).PhaseExact w.phase) :
    ({ l with
        node := w
        executed := update l.executed s (⟨t, statements⟩ :: l.executed s) } :
      AtomicLog D).Exact := by
  have hmem : ∀ s' t', t' ∈ w.applied s' ↔ t' ∈ l.node.applied s' ∨ s' = s ∧ t' = t := by
    intro s' t'
    rw [happ, update_apply]
    split_ifs with hs
    · rw [hs, List.mem_cons, or_comm]
      simp
    · simp [hs]
  refine ⟨?_, ?_, ?_, ?_, ?_, h.unique, ?_, ?_, ?_, hphase, h.once⟩
  · intro s'
    rw [happ]
    simp only [update_apply]
    split_ifs
    · rw [List.map_cons, h.tags s]
    · exact h.tags s'
  · intro s'
    rw [happ, update_apply]
    split_ifs
    · exact List.nodup_cons.2 ⟨hnew, h.nodup s⟩
    · exact h.nodup s'
  · intro s' e he planned hp
    simp only [update_apply] at he
    split_ifs at he with hs
    · rcases List.mem_cons.1 he with rfl | he
      · exact hplan planned (hs ▸ hp)
      · exact h.same s e he planned (hs ▸ hp)
    · exact h.same s' e he planned hp
  · exact fun t ht => h.unplanned t (hhist.length_le.trans ht)
  · exact fun r hr => ⟨hhist.subset (h.recorded r hr).1, (h.recorded r hr).2⟩
  · intro k r hr
    rw [hrec] at hr
    exact h.kept k r hr
  · intro r hr
    rw [hrec]
    exact (h.reached r hr).imp_right fun hall s' hs' => (hmem s' _).2 (.inl (hall s' hs'))
  · intro k r hr s' hs' htag
    rw [hrec] at hr
    rcases (hmem s' _).1 htag with hbefore | ⟨rfl, heq⟩
    · rcases h.marked k r hr s' hs' hbefore with hm | hb
      · exact .inl (hmark s' _ hm)
      · exact hbehind k r hr s' hs' hb
    · exact hown r (h.kept k r hr) heq

end Exact

variable {a : AtomicAct} {admitted : Bool}

theorem Exact.held {phase : Phase} (h : l.Exact) (hphase : l.node.phase = phase) :
    l.PhaseExact phase := hphase ▸ h.phase

theorem Exact.confirm (h : l.Exact) (confirmed : List Txn) :
    ({ l with confirmed } : AtomicLog D).Exact := { h with }

/-- The account of a step, put together from what the step does. -/
theorem Exact.to_step {w : AtomicNode D} {plan : Option (ShardId → Option (List Statement))}
    {ran : Option (ShardId × Execution)} {wrote erased : Option Logged}
    (hstep : l.node.step sq a = w) (hplans : l.node.plansFor a = plan)
    (hexec : l.node.executes sq a = ran) (hdec : l.node.decides a = wrote)
    (hrem : l.node.removes a = erased)
    (hlog : ({ l with
        node := w
        plans := plan.elim l.plans (update l.plans l.node.history.length)
        executed := ran.elim l.executed fun x =>
          update l.executed x.1 (x.2 :: l.executed x.1)
        decided := wrote.toList ++ l.decided
        removed := (erased.map fun r =>
          ⟨r, decide (∀ s ∈ r.record.shards, l.ExecutedOnce r.tag s)⟩).toList ++ l.removed } :
      AtomicLog D).Exact) : (l.step sq a).Exact := by
  have hrun := hlog.confirm ((l.node.confirms sq a).toList ++ l.confirmed)
  simp only [AtomicLog.step, hstep, hplans, hexec, hdec, hrem]
  rcases ran with _ | ⟨s, e⟩ <;> cases plan <;> exact hrun

variable {w : AtomicNode D}

theorem Exact.quiet (hw : ({ l with node := w } : AtomicLog D).Exact)
    (hstep : l.node.step sq a = w) (hplans : l.node.plansFor a = none)
    (hexec : l.node.executes sq a = none) (hdec : l.node.decides a = none)
    (hrem : l.node.removes a = none) : (l.step sq a).Exact :=
  .to_step hstep hplans hexec hdec hrem hw

theorem hasApplied_update {images : ShardId → Image D} {s : ShardId} {img : Image D}
    (himg : ∀ k, (images s).hasApplied k = true → img.hasApplied k = true) (s' : ShardId) (k : Nat)
    (hk : (images s').hasApplied k = true) :
    ((update images s img) s').hasApplied k = true := by
  rw [update_apply]
  split_ifs with hs
  · exact himg k (hs ▸ hk)
  · exact hk

section Serving

variable {f : InFlight} {txn : Option InFlight}

theorem Exact.write {s : ShardId} (h : l.Exact) (hphase : l.node.phase = .serving txn) :
    (l.step sq (.write s statements admitted)).Exact := by
  refine Exact.quiet (w := l.node.write sq s statements admitted) ?_
    (by simp only [AtomicNode.step, hphase]) rfl rfl rfl rfl
  unfold AtomicNode.write
  split_ifs with hopen
  · cases himg : (l.node.images s).applyAtomicGroup sq statements with
    | none => exact h
    | some img =>
      exact h.setNode rfl (List.suffix_refl _) rfl
        (hasApplied_update fun _ => (Image.hasApplied_applyAtomicGroup himg).trans)
        (fun _ _ _ _ _ => .inr) h.phase
  · exact h

/-- Another stage of the same transaction, or none, on the same disk. -/
theorem Exact.stage (h : l.Exact) (hphase : l.node.phase = .serving txn)
    (happ : w.applied = l.node.applied) (hhist : l.node.history <:+ w.history)
    (hrec : w.records = l.node.records) (himages : w.images = l.node.images)
    (hstage : ({ l with node := w } : AtomicLog D).PhaseExact w.phase) :
    ({ l with node := w } : AtomicLog D).Exact := by
  refine h.setNode happ hhist hrec (fun s k hk => himages ▸ hk) ?_ hstage
  intro k r hr s hs hb
  rw [hphase] at hb
  exact hb.elim

theorem Exact.prepareNext (h : l.Exact)
    (hphase : l.node.phase = .serving (some f)) : (l.step sq (.prepareNext admitted)).Exact := by
  refine Exact.quiet (w := l.node.prepareNext sq f admitted) ?_
    (by simp only [AtomicNode.step, hphase]) rfl rfl rfl rfl
  have hf := h.held hphase
  unfold AtomicNode.prepareNext
  cases hstage : f.stage with
  | preparing todo =>
    obtain ⟨hplan, hfresh⟩ := hf
    rw [hstage] at hfresh
    have habort : ({ l with node := l.node.stage f (.aborting f.shards) } : AtomicLog D).Exact :=
      h.stage hphase rfl (List.suffix_refl _) rfl rfl ⟨hplan, trivial⟩
    cases todo with
    | nil => exact h.stage hphase rfl (List.suffix_refl _) rfl rfl ⟨hplan, hfresh⟩
    | cons p todo =>
      obtain ⟨s, statements⟩ := p
      dsimp only
      split_ifs with hopen
      · cases (l.node.images s).prepareGroup sq f.id statements f.ddl with
        | none => exact habort
        | some img =>
          exact h.stage hphase rfl (List.suffix_refl _) rfl rfl
            ⟨hplan, hfresh⟩
      · exact habort
  | recording | committing todo failed | removing | aborting todo => exact h

theorem Exact.abortNext (h : l.Exact)
    (hphase : l.node.phase = .serving (some f)) : (l.step sq (.abortNext admitted)).Exact := by
  refine Exact.quiet (w := l.node.abortNext f admitted) ?_
    (by simp only [AtomicNode.step, hphase]) rfl rfl rfl rfl
  have hf := h.held hphase
  unfold AtomicNode.abortNext
  cases hstage : f.stage with
  | aborting todo =>
    cases todo with
    | nil => exact h.stage hphase rfl (List.suffix_refl _) rfl rfl trivial
    | cons s todo =>
      cases admitted with
      | true =>
        exact h.stage hphase rfl (List.suffix_refl _) rfl rfl ⟨hf.1, trivial⟩
      | false => exact h.stage hphase rfl (List.suffix_refl _) rfl rfl ⟨hf.1, trivial⟩
  | preparing todo | recording | committing todo failed | removing => exact h

/-- A new transaction: nothing is applied for it, planned for it or recorded of it. -/
theorem Exact.startTxn {ps : Participants} {ddl : Bool} (h : l.Exact)
    (hinv : l.node.Settled sq none) (hphase : l.node.phase = .serving none) :
    (l.step sq (.start ps ddl admitted)).Exact := by
  have hnew : ∀ s, l.node.history.length ∉ l.node.applied s := fun s hmem =>
    absurd (hinv.used s _ hmem) (lt_irrefl _)
  have hold : ∀ r ∈ l.decided, r.tag ≠ l.node.history.length := fun r hr =>
    (hinv.tags _ (h.recorded r hr).1).ne
  have hstep : l.node.step sq (.start ps ddl admitted) = l.node.startTxn sq ps ddl admitted := by
    simp only [AtomicNode.step, hphase]
  rcases hps : normalized ps with _ | ⟨p, _ | ⟨q, rest⟩⟩
  · refine Exact.quiet h (hstep.trans ?_) ?_ ?_ rfl rfl
    · simp only [AtomicNode.startTxn, hps]
    · simp only [plansFor, hphase, planned, hps]
    · simp only [executes, hphase, executesAlone, hps]
  · -- SQLite's own transaction, which no record speaks of
    obtain ⟨s, statements⟩ := p
    have hplans : l.node.plansFor (.start ps ddl admitted) = none := by
      simp only [plansFor, hphase, planned, hps]
    have hserving : ∀ l' : AtomicLog D, l'.PhaseExact l.node.phase := by
      rw [hphase]
      exact fun _ => trivial
    by_cases hopen : admitted ∧ l.node.parked s = none
    · cases himg : (l.node.images s).applyAlone sq statements ddl with
      | none =>
        refine Exact.quiet (w := { l.node with
            history := ⟨l.node.history.length, [s]⟩ :: l.node.history }) ?_
          (hstep.trans ?_) hplans ?_ rfl rfl
        · exact h.setNode rfl (List.suffix_cons _ _) rfl (fun _ _ hk => hk)
            (fun _ _ _ _ _ => .inr) (hserving _)
        · simp only [AtomicNode.startTxn, hps, if_pos hopen, himg]
        · simp [executes, hphase, executesAlone, hps, himg]
      | some img =>
        have hexec : l.node.executes sq (.start ps ddl admitted) =
            some (s, ⟨l.node.history.length, ranAlone statements ddl⟩) := by
          simp [executes, hphase, executesAlone, hps, himg, hopen.1, hopen.2]
        have hnode : l.node.startTxn sq ps ddl admitted =
            ({ l.node with
                history := ⟨l.node.history.length, [s]⟩ :: l.node.history } :
              AtomicNode D).apply s l.node.history.length img := by
          simp only [AtomicNode.startTxn, hps, if_pos hopen, himg]
        refine .to_step (hstep.trans hnode) hplans hexec rfl rfl ?_
        refine h.execute (hnew s) ?_ rfl (List.suffix_cons _ _) rfl
          (hasApplied_update fun _ => (Image.hasApplied_applyAlone himg).trans)
          (fun r hr htag => absurd htag (hold r hr)) (fun _ _ _ _ _ => .inr) (hserving _)
        intro planned hplan
        rw [h.unplanned _ le_rfl] at hplan
        cases hplan
    · refine Exact.quiet (w := { l.node with
          history := ⟨l.node.history.length, [s]⟩ :: l.node.history }) ?_
        (hstep.trans ?_) hplans ?_ rfl rfl
      · exact h.setNode rfl (List.suffix_cons _ _) rfl (fun _ _ hk => hk)
          (fun _ _ _ _ _ => .inr) (hserving _)
      · simp only [AtomicNode.startTxn, hps, if_neg hopen]
      · simp only [executes, hphase, executesAlone, hps]
        rw [if_neg fun hall => hopen ⟨hall.1, hall.2.1⟩]
  · have hplans : l.node.plansFor (.start ps ddl admitted) =
        some fun s => ((p :: q :: rest).find? (·.1 = s)).map Prod.snd := by
      simp only [plansFor, hphase, planned, hps]
    have hexec : l.node.executes sq (.start ps ddl admitted) = none := by
      simp only [executes, hphase, executesAlone, hps]
    have hnode : l.node.startTxn sq ps ddl admitted =
        { l.node with
          history := ⟨l.node.history.length, (p :: q :: rest).map Prod.fst⟩ :: l.node.history
          nextTxn := l.node.nextTxn + 1
          phase := .serving (some ⟨l.node.history.length, l.node.nextTxn, p :: q :: rest, ddl,
            .preparing (p :: q :: rest)⟩) } := by
      simp only [AtomicNode.startTxn, hps]
    have hother : ∀ t, t ≠ l.node.history.length → ∀ plan,
        update l.plans l.node.history.length plan t = l.plans t :=
      fun t ht plan => update_of_ne ht plan l.plans
    refine .to_step (hstep.trans hnode) hplans hexec rfl rfl ?_
    refine ⟨h.tags, h.nodup, ?_, ?_, ?_, h.unique, h.kept, h.reached, ?_, ?_, h.once⟩
    · intro s e he planned hplan
      have htag : e.tag ≠ l.node.history.length := by
        rintro htag
        have hmem : e.tag ∈ l.node.applied s := h.tags s ▸ List.mem_map_of_mem he
        exact hnew s (htag ▸ hmem)
      refine h.same s e he planned ?_
      rw [← hother e.tag htag]
      exact hplan
    · intro t ht s
      rw [List.length_cons] at ht
      dsimp only [Option.elim]
      rw [hother t (by omega)]
      exact h.unplanned t (by omega) s
    · intro r hr
      obtain ⟨htxn, hnodup, hplan⟩ := h.recorded r hr
      refine ⟨List.mem_cons_of_mem _ htxn, hnodup, ?_⟩
      dsimp only [Option.elim]
      rw [hother r.tag (hold r hr)]
      exact hplan
    · intro k r hr s hs htag
      rcases h.marked k r hr s hs htag with hm | hb
      · exact .inl hm
      · rw [hphase] at hb
        exact hb.elim
    · exact ⟨update_self .., hnew, hold⟩

theorem Exact.recorded_logged
    (hplan : l.plans f.tag = fun s => (f.participants.find? (·.1 = s)).map Prod.snd)
    (hstart : l.node.Started sq f) (hnodup : f.shards.Nodup) : l.Recorded f.logged := by
  have hshards : f.logged.record.shards = f.shards := f.shards_record
  unfold Recorded
  rw [hshards]
  refine ⟨hstart.txn, hnodup, fun s hs => ?_⟩
  obtain ⟨p, hp, rfl⟩ := List.mem_map.1 hs
  have hreplay := (hstart.replay p hp).2
  refine ⟨p.2, ?_, AtomicNode.statementsFor_record hnodup hp hreplay, fun hddl => (hreplay.2 hddl).1⟩
  show l.plans f.tag p.1 = some p.2
  rw [hplan]
  dsimp only
  rw [find?_participants hnodup hp, Option.map_some]

/-- With nothing pending, every record that is still there is applied everywhere. -/
theorem applied_of_settled (hset : l.node.Settled sq none) {k : Nat} {r : Logged}
    (hr : l.node.records.get? k = some r) : ∀ s ∈ r.record.shards, r.tag ∈ l.node.applied s :=
  fun s hs => (hset.logged k r hr).2.marked s hs (hset.complete k r hr nofun s hs)

theorem Exact.putRecord {ok : Bool} (h : l.Exact) (hinv : l.node.Inv sq)
    (hphase : l.node.phase = .serving (some f)) : (l.step sq (.putRecord ok)).Exact := by
  have hstep : l.node.step sq (.putRecord ok) = l.node.putRecord f ok := by
    simp only [AtomicNode.step, hphase]
  obtain ⟨hplan, hfresh⟩ := h.held hphase
  rw [AtomicNode.Inv, hphase] at hinv
  obtain ⟨hstart, hstage⟩ := hinv
  by_cases hst : f.stage = .recording
  · rw [hst] at hstage hfresh
    obtain ⟨hset, -, hnodup, -⟩ := hstage
    cases ok with
    | false =>
      refine Exact.quiet (w := l.node.idle)
        (h.stage hphase rfl (List.suffix_refl _) rfl rfl trivial)
        (hstep.trans (by simp [AtomicNode.putRecord, hst])) rfl rfl rfl rfl
    | true =>
      have hdec : l.node.decides (.putRecord true) = some f.logged := by
        simp only [decides, hphase, recording, hst]
      have hnode : l.node.putRecord f true =
          { l.node.stage f (.committing f.shards false) with
            records := l.node.records.insert f.id f.logged } := by
        simp only [AtomicNode.putRecord, hst, if_true]
        rfl
      refine .to_step (hstep.trans hnode) rfl rfl hdec rfl ?_
      refine ⟨h.tags, h.nodup, h.same, h.unplanned, ?_, ?_, ?_, ?_, ?_,
        ⟨hplan, fun s _ => hfresh.1 s⟩, h.once⟩
      · intro r hr
        rcases List.mem_cons.1 hr with rfl | hr
        · exact Exact.recorded_logged (l := l) hplan hstart hnodup
        · exact h.recorded r hr
      · intro r hr r' hr' htag
        rcases List.mem_cons.1 hr with rfl | hr <;> rcases List.mem_cons.1 hr' with rfl | hr'
        · rfl
        · exact absurd htag.symm (hfresh.2 r' hr')
        · exact absurd htag (hfresh.2 r hr)
        · exact h.unique r hr r' hr' htag
      · intro k r hr
        rw [OrdMap.get?_insert] at hr
        split_ifs at hr
        · cases hr
          exact List.mem_cons_self
        · exact List.mem_cons_of_mem _ (h.kept k r hr)
      · intro r hr
        rw [OrdMap.get?_insert]
        rcases List.mem_cons.1 hr with rfl | hr
        · exact .inl (if_pos rfl)
        · rcases h.reached r hr with hget | hall
          · split_ifs
            · -- an older record of the same id is overwritten, and it was complete
              exact .inr (applied_of_settled hset hget)
            · exact .inl hget
          · exact .inr hall
      · intro k r hr s hs htag
        rw [OrdMap.get?_insert] at hr
        split_ifs at hr
        · cases hr
          exact absurd htag (hfresh.1 s)
        · rcases h.marked k r hr s hs htag with hm | hb
          · exact .inl hm
          · rw [hphase] at hb
            exact hb.elim
  · refine Exact.quiet h (hstep.trans ?_) rfl rfl ?_ rfl
    · cases hs : f.stage <;> simp only [AtomicNode.putRecord, hs]
      exact absurd hs hst
    · cases ok
      · rfl
      · simp only [decides, hphase, recording]

/-- A participant commits: it had not applied the transaction, and now it is marked. -/
theorem Exact.commitNext {shipped : Bool} (h : l.Exact) (hinv : l.node.Inv sq)
    (hphase : l.node.phase = .serving (some f)) :
    (l.step sq (.commitNext (.decided true shipped))).Exact := by
  have hstep : l.node.step sq (.commitNext (.decided true shipped)) =
      l.node.commitNext f (.decided true shipped) := by
    simp only [AtomicNode.step, hphase]
  obtain ⟨hplan, hfresh⟩ := h.held hphase
  rw [AtomicNode.Inv, hphase] at hinv
  obtain ⟨hstart, hstage⟩ := hinv
  cases hst : f.stage with
  | committing todo failed =>
    rw [hst] at hstage hfresh
    obtain ⟨hset, hnodup, committed, rest, hsplit, hrest, -, hready⟩ := hstage
    cases todo with
    | nil =>
      have hexec : l.node.executes sq (.commitNext (.decided true shipped)) = none := by
        simp only [executes, hphase, executesCommit, hst]
      cases failed with
      | true =>
        exact Exact.quiet (w := l.node.idle)
          (h.stage hphase rfl (List.suffix_refl _) rfl rfl trivial)
          (hstep.trans (by simp only [AtomicNode.commitNext, hst, if_true])) rfl hexec rfl rfl
      | false =>
        exact Exact.quiet (w := l.node.stage f .removing)
          (h.stage hphase rfl (List.suffix_refl _) rfl rfl ⟨hplan, trivial⟩)
          (hstep.trans (by simp [AtomicNode.commitNext, hst])) rfl hexec rfl rfl
    | cons s todo =>
      obtain ⟨p, rest, rfl, rfl, rfl⟩ := List.map_eq_cons_iff.1 hrest.symm
      obtain ⟨img, hpark, hprep⟩ := hready p List.mem_cons_self
      have himg := (Image.prepareGroup_eq_some hprep).2
      have hp : p ∈ f.participants := by rw [hsplit]; simp
      have hexec : l.node.executes sq (.commitNext (.decided true shipped)) =
          some (p.1, ⟨f.tag, p.2⟩) := by
        simp only [executes, hphase, executesCommit, hst, hpark, Option.isSome_some, if_true,
          find?_participants hnodup hp, Option.map_some]
      have hnode : l.node.commitNext f (.decided true shipped) =
          ((l.node.park p.1 none).apply p.1 f.tag img).stage f
            (.committing (rest.map Prod.fst) (failed || !shipped)) := by
        simp only [AtomicNode.commitNext, hst, hpark, if_true]
      -- the shards still to come are other ones
      have hdistinct : p.1 ∉ rest.map Prod.fst := by
        have := hnodup
        rw [InFlight.shards, hsplit, List.map_append, List.map_cons] at this
        exact (List.nodup_cons.1 (List.nodup_append.1 this).2.1).1
      have hmine : ∀ r ∈ l.decided, r.tag = f.tag → r = f.logged := fun r hr htag =>
        h.unique r hr _ (h.kept _ _ (hset.redo _ rfl).1) htag
      refine .to_step (hstep.trans hnode) rfl hexec rfl rfl ?_
      refine h.execute (hfresh p.1 List.mem_cons_self) ?_ rfl (List.suffix_refl _) rfl
        (hasApplied_update fun k hk => (himg k).2 (.inl hk)) ?_ ?_ ?_
      · intro planned hplanned
        rw [hplan] at hplanned
        dsimp only at hplanned
        rw [find?_participants hnodup hp, Option.map_some] at hplanned
        exact Option.some.inj hplanned
      · intro r hr htag
        obtain rfl := hmine r hr htag
        refine .inl ?_
        show ((update l.node.images p.1 img) p.1).hasApplied f.id = true
        rw [update_self]
        exact (himg _).2 (.inr rfl)
      · intro k r hr s' hs' hb
        rw [hphase] at hb
        exact hb.elim
      · refine ⟨hplan, fun s' hs' => ?_⟩
        have hne : s' ≠ p.1 := fun heq => hdistinct (heq ▸ hs')
        show f.tag ∉ update l.node.applied p.1 _ s'
        rw [update_of_ne hne]
        exact hfresh s' (List.mem_cons_of_mem _ hs')
  | preparing todo | recording | removing | aborting todo =>
    exact Exact.quiet h (hstep.trans (by simp only [AtomicNode.commitNext, hst])) rfl
      (by simp only [executes, hphase, executesCommit, hst]) rfl rfl

/-- A record is forgotten of which every participant is applied. -/
theorem Exact.removed {w : AtomicNode D} {r : Logged} (h : l.Exact)
    (hids : ∀ k r', l.node.records.get? k = some r' → r'.record.id = k)
    (hr : l.node.records.get? r.record.id = some r)
    (hall : ∀ s ∈ r.record.shards, r.tag ∈ l.node.applied s) (happ : w.applied = l.node.applied)
    (hhist : w.history = l.node.history) (himages : w.images = l.node.images)
    (hrec : w.records = l.node.records.erase r.record.id)
    (hbehind : ∀ k r', l.node.records.get? k = some r' → r' ≠ r → ∀ s ∈ r'.record.shards,
      ¬ Behind l.node.phase r' s)
    (hphase : ({ l with node := w } : AtomicLog D).PhaseExact w.phase)
    (hstep : l.node.step sq a = w) (hplans : l.node.plansFor a = none)
    (hexec : l.node.executes sq a = none) (hdec : l.node.decides a = none)
    (hrem : l.node.removes a = some r) : (l.step sq a).Exact := by
  have hmem : r ∈ l.decided := h.kept _ _ hr
  have hleft : ∀ {k r'}, w.records.get? k = some r' →
      k ≠ r.record.id ∧ l.node.records.get? k = some r' := by
    intro k r' hget
    rw [hrec, OrdMap.get?_erase] at hget
    split_ifs at hget with hk
    exact ⟨hk, hget⟩
  have honce : decide (∀ s ∈ r.record.shards, l.ExecutedOnce r.tag s) = true :=
    decide_eq_true fun s hs => h.executedOnce hmem hs (hall s hs)
  refine .to_step hstep hplans hexec hdec hrem ?_
  refine ⟨?_, ?_, h.same, ?_, ?_, h.unique, ?_, ?_, ?_, hphase, ?_⟩
  · rw [happ]
    exact h.tags
  · rw [happ]
    exact h.nodup
  · rw [hhist]
    exact h.unplanned
  · intro r' hr'
    refine ⟨?_, (h.recorded r' hr').2⟩
    rw [hhist]
    exact (h.recorded r' hr').1
  · exact fun k r' hget => h.kept k r' (hleft hget).2
  · intro r' hr'
    rw [happ]
    rcases h.reached r' hr' with hget | hdone
    · by_cases heq : r'.record.id = r.record.id
      · -- the record of that id is the one that goes
        cases (heq ▸ hget).symm.trans hr
        exact .inr hall
      · refine .inl ?_
        rw [hrec, OrdMap.get?_erase, if_neg heq]
        exact hget
    · exact .inr hdone
  · intro k r' hget s hs htag
    obtain ⟨hk, hget⟩ := hleft hget
    rw [happ] at htag
    refine (h.marked k r' hget s hs htag).imp ?_ fun hb => ?_
    · rw [himages]
      exact id
    · refine absurd hb (hbehind k r' hget (fun heq => hk ?_) s hs)
      rw [← heq]
      exact (hids k r' hget).symm
  · intro x hx
    rcases List.mem_cons.1 hx with rfl | hx
    · exact honce
    · exact h.once x hx

theorem Exact.removeRecord {ok : Bool} (h : l.Exact) (hinv : l.node.Inv sq)
    (hphase : l.node.phase = .serving (some f)) : (l.step sq (.removeRecord ok)).Exact := by
  have hstep : l.node.step sq (.removeRecord ok) = l.node.removeRecord f ok := by
    simp only [AtomicNode.step, hphase]
  rw [AtomicNode.Inv, hphase] at hinv
  by_cases hst : f.stage = .removing
  · have hstage := hinv.2
    rw [hst] at hstage
    obtain ⟨hset, hget⟩ := hstage
    cases ok with
    | false =>
      refine Exact.quiet (w := l.node.idle)
        (h.stage hphase rfl (List.suffix_refl _) rfl rfl trivial) (hstep.trans ?_) rfl rfl rfl rfl
      simp only [AtomicNode.removeRecord, hst]
      rfl
    | true =>
      refine h.removed (r := f.logged) (w := { l.node.idle with
          records := l.node.records.erase f.id }) (fun k r' hk => (hset.logged k r' hk).1) hget
        (applied_of_settled hset hget) rfl rfl rfl rfl ?_ trivial
        (hstep.trans (by simp [AtomicNode.removeRecord, hst])) rfl rfl rfl ?_
      · intro k r' _ _ s _ hb
        rw [hphase] at hb
        exact hb
      · simp only [removes, hphase, removing, hst]
  · refine Exact.quiet h (hstep.trans ?_) rfl rfl rfl ?_
    · cases hs : f.stage <;> simp only [AtomicNode.removeRecord, hs]
      exact absurd hs hst
    · cases ok
      · rfl
      · simp only [removes, hphase, removing]

end Serving

/-! ## Crash and recovery -/

theorem Exact.crashed (h : l.Exact) (hmarked : l.node.MarkedBehind)
    (hstep : l.node.step sq a = l.node.crashed) (hplans : l.node.plansFor a = none)
    (hexec : l.node.executes sq a = none) (hdec : l.node.decides a = none)
    (hrem : l.node.removes a = none) : (l.step sq a).Exact := by
  refine Exact.quiet (w := l.node.crashed) ?_ hstep hplans hexec hdec hrem
  refine h.setNode rfl (List.suffix_refl _) rfl (fun _ _ hk => hk) ?_ trivial
  intro k r hr s hs hb
  unfold AtomicNode.MarkedBehind at hmarked
  cases hphase : l.node.phase with
  | down | serving txn =>
    rw [hphase] at hb
    exact hb.elim
  | recovering current todo rest =>
    rw [hphase] at hb hmarked
    obtain ⟨rfl, hnot⟩ := hb
    exact .inl (hmarked s hs hnot)
  | marking current s' todo rest =>
    rw [hphase] at hmarked
    exact hmarked.elim

/-- A phase that resolves records has every shard of the first one to do. -/
theorem Exact.phase_resolve (h : l.Exact) {rs : List Logged} (hrs : ∀ r ∈ rs, r ∈ l.decided) :
    l.PhaseExact (.resolve rs) := by
  cases rs with
  | nil => trivial
  | cons r rest =>
    cases hdec : r.record.decision with
    | none =>
      simp only [Phase.resolve, hdec]
      exact List.nodup_nil
    | some d =>
      simp only [Phase.resolve, hdec]
      exact (h.recorded r (hrs r List.mem_cons_self)).2.1

theorem Exact.restart (h : l.Exact) (hphase : l.node.phase = .down) :
    (l.step sq .restart).Exact := by
  refine Exact.quiet ?_ (AtomicNode.step_restart sq _ hphase) rfl rfl rfl rfl
  refine h.setNode rfl (List.suffix_refl _) rfl (fun _ _ hk => hk) ?_ ?_
  · intro k r hr s hs hb
    rw [hphase] at hb
    exact hb.elim
  · refine Exact.phase_resolve (l := l) h fun r hr => ?_
    obtain ⟨k, hk⟩ := OrdMap.mem_values.1 hr
    exact h.kept k r hk

section Recovery

variable {r : Logged} {s : ShardId} {todo : List ShardId} {rest : List Logged}

theorem Exact.advance {w : AtomicNode D} (h : l.Exact)
    (hphase : l.node.phase = .recovering r (s :: todo) rest ∨
      l.node.phase = .marking r s todo rest)
    (happ : w.applied = l.node.applied) (hhist : w.history = l.node.history)
    (hrec : w.records = l.node.records)
    (hmark : ∀ s k, (l.node.images s).hasApplied k = true → (w.images s).hasApplied k = true)
    (hnext : w.phase = .recovering r todo rest) :
    ({ l with node := w } : AtomicLog D).Exact := by
  refine h.setNode happ (hhist ▸ List.suffix_refl _) hrec hmark ?_ ?_
  · intro k r' hr' s' hs' hb
    rw [hnext]
    rcases hphase with hphase | hphase
    · rw [hphase] at hb
      exact .inr ⟨hb.1, fun hmem => hb.2 (List.mem_cons_of_mem _ hmem)⟩
    · rw [hphase] at hb
      exact .inr hb
  · rw [hnext]
    rcases hphase with hphase | hphase
    · exact (List.nodup_cons.1 (h.held hphase)).2
    · exact (List.nodup_cons.1 (h.held hphase)).2

theorem Exact.recoverMark (h : l.Exact) (hphase : l.node.phase = .marking r s todo rest) :
    (l.step sq (.recoverMark true)).Exact := by
  refine Exact.quiet (w := l.node.recoverMark r s todo rest true) ?_
    (by simp only [AtomicNode.step, hphase]) rfl rfl rfl rfl
  exact h.advance (.inr hphase) rfl rfl rfl
    (hasApplied_update fun _ hk => Image.hasApplied_mark.2 (.inl hk)) rfl

/-- A shard without the record's marker has not applied it, takes it, and is left to
    be marked. -/
theorem Exact.reapply (h : l.Exact) (hinv : l.node.Resolves sq r (s :: todo) rest (some r))
    (hphase : l.node.phase = .recovering r (s :: todo) rest)
    (hm : (l.node.images s).hasApplied r.record.id ≠ true) :
    (l.step sq (.recoverShard true true)).Exact := by
  have hs : s ∈ r.record.shards := hinv.within List.mem_cons_self
  have hget := hinv.listed r List.mem_cons_self
  have hr := h.kept _ _ hget
  obtain ⟨statements, hplan, hst, hddl⟩ := (h.recorded r hr).2.2 s hs
  have hran : ranAlone statements r.record.ddl = statements := by
    unfold ranAlone
    split_ifs with hd
    · exact List.take_of_length_le (hddl hd).le
    · rfl
  -- no marker and not behind, so the record is not applied here
  have hnot : r.tag ∉ l.node.applied s := by
    intro happ
    rcases h.marked _ r hget s hs happ with hmark | hb
    · exact hm hmark
    · rw [hphase] at hb
      exact hb.2 List.mem_cons_self
  obtain ⟨statements', img, hst', hne, himg⟩ := ((hinv.settled.redo r rfl).2 s hs).resolve_left hnot
  cases hst.symm.trans hst'
  have hexec : l.node.executes sq (.recoverShard true true) = some (s, ⟨r.tag, statements⟩) := by
    simp only [executes, hphase, executesAgain, hst, himg, hran]
    simp [hm, hne]
  have hstep : l.node.step sq (.recoverShard true true) =
      { l.node.apply s r.tag img with phase := .marking r s todo rest } := by
    simp only [AtomicNode.step, hphase, AtomicNode.recoverShard, hst, AtomicNode.reapply, himg]
    simp [hm, hne]
  have hnodup : (s :: todo).Nodup := h.held hphase
  refine .to_step hstep rfl hexec rfl rfl ?_
  refine h.execute hnot (fun planned hp => Option.mem_unique hplan hp) rfl
    (List.suffix_refl _) rfl (hasApplied_update fun _ => (Image.hasApplied_applyAlone himg).trans)
    ?_ ?_ hnodup
  · intro r' hr' htag
    exact .inr ⟨h.unique r' hr' r hr htag, (List.nodup_cons.1 hnodup).1⟩
  · intro k r' _ s' _ hb
    rw [hphase] at hb
    exact .inr ⟨hb.1, fun hmem => hb.2 (List.mem_cons_of_mem _ hmem)⟩

theorem Exact.recoverShard (h : l.Exact) (hinv : l.node.Inv sq)
    (hphase : l.node.phase = .recovering r (s :: todo) rest)
    (hok : l.node.Uncut (.recoverShard true admitted)) :
    (l.step sq (.recoverShard true admitted)).Exact := by
  rw [AtomicNode.Inv, hphase] at hinv
  obtain ⟨pending, hinv⟩ := hinv
  have hget := hinv.listed r List.mem_cons_self
  have hs : s ∈ r.record.shards := hinv.within List.mem_cons_self
  by_cases hm : (l.node.images s).hasApplied r.record.id = true
  · refine Exact.quiet (w := { l.node with phase := .recovering r todo rest }) ?_ ?_ rfl ?_ rfl rfl
    · exact h.advance (.inl hphase) rfl rfl rfl (fun _ _ hk => hk) rfl
    · simp only [AtomicNode.step, hphase, AtomicNode.recoverShard, hm, and_self, if_true]
    · simp [executes, hphase, executesAgain, hm]
  · obtain rfl : pending = some r := by
      by_contra hne
      exact hm (hinv.settled.complete _ _ hget hne s hs)
    cases admitted with
    | true => exact h.reapply hinv hphase hm
    | false =>
      obtain ⟨statements, -, hst, -⟩ := (h.recorded r (h.kept _ _ hget)).2.2 s hs
      refine h.crashed (hok rfl) ?_ rfl ?_ rfl rfl
      · simp [AtomicNode.step, hphase, AtomicNode.recoverShard, hm, hst]
      · simp [executes, hphase, executesAgain]

theorem Exact.recoverRemove {ok : Bool} (h : l.Exact) (hinv : l.node.Inv sq)
    (hphase : l.node.phase = .recovering r [] rest) (hok : l.node.Uncut (.recoverRemove ok)) :
    (l.step sq (.recoverRemove ok)).Exact := by
  rw [AtomicNode.Inv, hphase] at hinv
  obtain ⟨pending, hinv⟩ := hinv
  cases ok with
  | false =>
    refine h.crashed (hok rfl) ?_ rfl rfl rfl rfl
    simp [AtomicNode.step, hphase, AtomicNode.recoverRemove]
  | true =>
    refine h.removed (w := { l.node with
        records := l.node.records.erase r.record.id, phase := .resolve rest })
      (fun k r' hk => (hinv.settled.logged k r' hk).1) (hinv.listed r List.mem_cons_self)
      (fun s hs => hinv.done s hs List.not_mem_nil) rfl rfl rfl rfl ?_ ?_ ?_ rfl rfl rfl ?_
    · intro k r' _ hne s _ hb
      rw [hphase] at hb
      exact hne hb.1
    · exact Exact.phase_resolve (l := l) h fun r' hr' =>
        h.kept _ _ (hinv.listed r' (List.mem_cons_of_mem _ hr'))
    · simp [AtomicNode.step, hphase, AtomicNode.recoverRemove]
    · simp only [removes, hphase]

end Recovery

/-! ## Whole runs -/

/-- What `Shard.AtomicSafety` asks of a step, and that no recovery is cut short. -/
def Complete (sq : Sqlite D) (l : AtomicLog D) (a : AtomicAct) : Prop :=
  l.node.Careful sq a ∧ l.node.Uncut a

instance (sq : Sqlite D) (l : AtomicLog D) (a : AtomicAct) : Decidable (l.Complete sq a) :=
  inferInstanceAs (Decidable (_ ∧ _))

theorem Exact.step (h : l.Exact) (hinv : l.node.Inv sq)
    (hok : l.Complete sq a) : (l.step sq a).Exact := by
  rcases l.node.enabled_or_idle sq a with hen | ⟨hstep, hplans, hexec, hdec, hrem, -⟩
  · obtain ⟨phase, hphase⟩ : ∃ phase, l.node.phase = phase := ⟨_, rfl⟩
    rw [hphase] at hen
    cases hen with
    | write => exact h.write hphase
    | start =>
      rw [AtomicNode.Inv, hphase] at hinv
      exact h.startTxn hinv hphase
    | prepareNext => exact h.prepareNext hphase
    | putRecord => exact h.putRecord hinv hphase
    | commitNext => rcases hok.1 with rfl | rfl <;> exact h.commitNext hinv hphase
    | removeRecord => exact h.removeRecord hinv hphase
    | abortNext => exact h.abortNext hphase
    | crash => exact h.crashed hok.2 rfl rfl rfl rfl rfl
    | restart => exact h.restart hphase
    | recoverShard =>
      obtain rfl := hok.1
      exact h.recoverShard hinv hphase hok.2
    | recoverMark =>
      obtain rfl := hok.2
      exact h.recoverMark hphase
    | recoverRemove => exact h.recoverRemove hinv hphase hok.2
  · exact .quiet h hstep hplans hexec hdec hrem

theorem exact_init (db : D) : ({ node := .init db } : AtomicLog D).Exact :=
  ⟨fun _ => rfl, fun _ => List.nodup_nil, fun _ _ he => absurd he List.not_mem_nil,
    fun _ _ _ => rfl, fun _ hr => absurd hr List.not_mem_nil,
    fun _ hr => absurd hr List.not_mem_nil, fun _ _ hr => (by cases hr),
    fun _ hr => absurd hr List.not_mem_nil, fun _ _ hr => (by cases hr), trivial,
    fun _ hx => absurd hx List.not_mem_nil⟩

section Runs

open AtomicNode (prepared commit appending reusedId)

/-- Recovery of two participants of which the second was not committed. -/
def recovery : List AtomicAct :=
  [.restart, .recoverShard true true, .recoverShard true true, .recoverMark true,
    .recoverRemove true]

/-- Recovery dies once after it has passed over the shard that is marked. -/
def diesRecovering : List AtomicAct :=
  prepared ++ [commit, .crash, .restart, .recoverShard true true, .crash] ++ recovery

/-- Recovery dies after a shard's statements are applied again, before its marker. -/
def diesMarking : List AtomicAct :=
  prepared ++ [commit, .crash, .restart, .recoverShard true true, .recoverShard true true,
    .crash] ++ recovery

/-- Recovery dies after the marker was written, into a table that a rolled back
    prepare was to create. -/
def diesRemoving : List AtomicAct :=
  prepared ++ [commit, .crash, .restart, .recoverShard true true, .recoverShard true true,
    .recoverMark true, .crash] ++ recovery

def unreadable : List AtomicAct :=
  prepared ++ [commit, .crash, .restart, .recoverShard false true, .recoverMark true,
    .recoverShard true true, .recoverMark true, .recoverRemove true]

/-- A participant's statement has a bound value, which the record does not keep. -/
def bound : List AtomicAct :=
  [.start [(0, [.new "UPDATE a"]), (1, [⟨"UPDATE b SET v = ?1", [.integer 7]⟩])] false true,
    .prepareNext true, .prepareNext true, .prepareNext true, .putRecord true, commit, .crash] ++
    recovery

/-- A record was removed without each participant having executed the transaction
    once, as it was prepared. -/
def RemovedEarly (l : AtomicLog D) : Prop := ∃ x ∈ l.removed, x.once = false

instance (l : AtomicLog D) : Decidable l.RemovedEarly :=
  inferInstanceAs (Decidable (∃ x ∈ l.removed, x.once = false))

end Runs

end AtomicLog

end Shardlite.Shard
