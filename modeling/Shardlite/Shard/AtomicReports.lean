/-
  Shardlite.Shard.AtomicReports

  A transaction that `run_atomic` reports as committed has been committed by every
  participant, and a record is removed only then, as long as a commit decision that
  reaches its writer finds the write gate open.  With the gate closed `decide_shard`
  rolls back and reports success, so the code does not ensure it.

  A decision that is refused by a full queue, or whose `COMMIT` fails, is an error to
  the coordinator: the record stays, and nothing is asked of those here.
-/
import Shardlite.Shard.AtomicLog

namespace Shardlite.Shard

open Storage Function

namespace AtomicNode

variable {D : Type} (sq : Sqlite D) (w : AtomicNode D)

/-- The shard's file takes the record's statements. -/
def Accepts (r : Logged) (s : ShardId) : Prop :=
  ∀ statements, r.record.statementsFor s = some statements →
    ((w.images s).applyAlone sq statements r.record.ddl).isSome = true

instance (r : Logged) (s : ShardId) : Decidable (w.Accepts sq r s) :=
  match h : r.record.statementsFor s with
  | none => isTrue fun _ hst => by rw [h] at hst; cases hst
  | some statements =>
    decidable_of_iff (((w.images s).applyAlone sq statements r.record.ddl).isSome = true)
      ⟨fun hok st hst => by rw [h] at hst; exact Option.some.inj hst ▸ hok, fun hok => hok _ h⟩

/-- The shard that recovery is about to look at takes the record, if that is applied
    again there. -/
def NextAccepts (readable admitted : Bool) : Phase → Prop
  | .recovering r (s :: _) _ => admitted = true →
    ¬ (readable = true ∧ (w.images s).hasApplied r.record.id = true) → w.Accepts sq r s
  | _ => True

instance (readable admitted : Bool) (phase : Phase) :
    Decidable (w.NextAccepts sq readable admitted phase) := by
  unfold NextAccepts
  split <;> infer_instance

/-- A transaction's id is new to its participants; a commit decision that reaches the
    writer finds the gate open; what recovery applies again is accepted. -/
def Heard : AtomicAct → Prop
  | .start ps _ _ => 2 ≤ (normalized ps).length → ∀ p ∈ normalized ps,
      (w.images p.1).hasApplied w.nextTxn = false
  | .commitNext (.decided gateOpen _) => gateOpen = true
  | .recoverShard readable admitted => w.NextAccepts sq readable admitted w.phase
  | _ => True

instance : ∀ a, Decidable (w.Heard sq a)
  | .start .. => inferInstanceAs (Decidable (_ → _))
  | .commitNext (.decided ..) => inferInstanceAs (Decidable (_ = _))
  | .recoverShard .. => inferInstanceAs (Decidable (w.NextAccepts sq _ _ w.phase))
  | .commitNext .refused | .commitNext .lost | .write .. | .prepareNext _ | .putRecord _
  | .removeRecord _ | .abortNext _ | .crash | .restart | .recoverMark _ | .recoverRemove _ =>
    isTrue trivial

/-! ## What the records and the stage say -/

/-- The writer holds a transaction open whose commit adds the marker `id`. -/
def Holds (id : Nat) (s : ShardId) : Prop :=
  ∃ img, w.parked s = some img ∧
    ∀ k, img.hasApplied k = true ↔ (w.images s).hasApplied k = true ∨ k = id

/-- A record is decided, has statements for its participants, and its marker on one of
    them is its own. -/
structure Kept (r : Logged) : Prop where
  decision : r.record.decision = some .commit
  statements : ∀ s ∈ r.record.shards, ∃ statements, r.record.statementsFor s = some statements ∧
    statements ≠ []
  marked : ∀ s ∈ r.record.shards, (w.images s).hasApplied r.record.id = true → r.tag ∈ w.applied s

/-- The participants that voted hold the transaction open; while no decision has failed,
    those that were told have committed. -/
def StageHeld (f : InFlight) : TxnStage → Prop
  | .preparing todo => w.records.get? f.id = none ∧ f.id < w.nextTxn ∧ w.Unmarked f ∧
      ∃ voted, f.participants = voted ++ todo ∧ (voted.map Prod.fst).Nodup ∧
        ∀ p ∈ voted, w.Holds f.id p.1
  | .recording => w.records.get? f.id = none ∧ f.id < w.nextTxn ∧ w.Unmarked f ∧
      f.shards.Nodup ∧ ∀ s ∈ f.shards, w.Holds f.id s
  | .committing todo failed => w.records.get? f.id = some f.logged ∧ todo.Nodup ∧
      todo ⊆ f.shards ∧ (∀ s ∈ todo, w.Holds f.id s) ∧
      (failed = false → ∀ s ∈ f.shards, s ∉ todo → f.tag ∈ w.applied s)
  | .removing => w.records.get? f.id = some f.logged ∧ ∀ s ∈ f.shards, f.tag ∈ w.applied s
  | .aborting _ => True

def PhaseHeld : Phase → Prop
  | .serving (some f) => (∀ p ∈ f.participants, p.2 ≠ []) ∧ w.StageHeld f f.stage
  | .recovering r todo rest => (∀ r' ∈ r :: rest, w.records.get? r'.record.id = some r') ∧
      ((r :: rest).map (·.record.id)).Nodup ∧ todo ⊆ r.record.shards ∧
      ∀ s ∈ r.record.shards, s ∉ todo → r.tag ∈ w.applied s
  | .marking r s todo rest => (∀ r' ∈ r :: rest, w.records.get? r'.record.id = some r') ∧
      ((r :: rest).map (·.record.id)).Nodup ∧ todo ⊆ r.record.shards ∧
      (∀ s' ∈ r.record.shards, s' ∉ todo → r.tag ∈ w.applied s') ∧ r.tag ∈ w.applied s
  | _ => True

/-- The disk and the reports agree: a decided record that is gone has been committed by
    its participants, and so has every transaction that was reported. -/
structure Truthful (decided : List Logged) (confirmed : List Txn) : Prop where
  kept : ∀ k r, w.records.get? k = some r → r.record.id = k ∧ w.Kept r
  fresh : ∀ k r, w.records.get? k = some r → k < w.nextTxn
  reached : ∀ r ∈ decided, w.records.get? r.record.id = some r ∨
    ∀ s ∈ r.record.shards, r.tag ∈ w.applied s
  confirmed : ∀ T ∈ confirmed, ∀ s ∈ T.shards, T.tag ∈ w.applied s
  phase : w.PhaseHeld w.phase

variable {sq w} {decided : List Logged} {confirmed : List Txn} {f : InFlight} {s : ShardId}
  {img : Image D} {id : Nat}
variable {w' : AtomicNode D} {s' : ShardId} {txn : Option InFlight} {statements : List Statement}
    {admitted ok : Bool}

/-- A step that keeps the records, and has a marker appear only with its transaction. -/
theorem Truthful.keep (h : w.Truthful decided confirmed)
    (hrec : w'.records = w.records) (hnext : w.nextTxn ≤ w'.nextTxn)
    (happ : ∀ s, w.applied s ⊆ w'.applied s)
    (hmark : ∀ r, w.records.get? r.record.id = some r → ∀ s ∈ r.record.shards,
      (w'.images s).hasApplied r.record.id = true →
        (w.images s).hasApplied r.record.id = true ∨ r.tag ∈ w'.applied s)
    (hphase : w'.PhaseHeld w'.phase) : w'.Truthful decided confirmed := by
  refine ⟨?_, ?_, ?_, ?_, hphase⟩
  · intro k r hr
    rw [hrec] at hr
    obtain ⟨rfl, hk⟩ := h.kept k r hr
    refine ⟨rfl, hk.decision, hk.statements, fun s hs hm => ?_⟩
    rcases hmark r hr s hs hm with hold | hin
    · exact happ s (hk.marked s hs hold)
    · exact hin
  · intro k r hr
    rw [hrec] at hr
    exact (h.fresh k r hr).trans_le hnext
  · intro r hr
    rw [hrec]
    exact (h.reached r hr).imp_right fun hall s hs => happ s (hall s hs)
  · exact fun T hT s hs => happ s (h.confirmed T hT s hs)

theorem Truthful.stage (h : w.Truthful decided confirmed) (himages : w'.images = w.images)
    (happ : w'.applied = w.applied) (hrec : w'.records = w.records)
    (hnext : w'.nextTxn = w.nextTxn) (hphase : w'.PhaseHeld w'.phase) :
    w'.Truthful decided confirmed := by
  refine h.keep hrec hnext.ge (fun s => ?_) (fun r _ s _ hm => .inl ?_) hphase
  · exact happ ▸ List.Subset.refl _
  · exact himages ▸ hm

section Lists

variable {P : ShardId → Prop} {shards todo : List ShardId}

theorem applied_subset (applied : ShardId → List Nat) (s : ShardId) (t : Nat) (s' : ShardId) :
    applied s' ⊆ update applied s (t :: applied s) s' := by
  intro t' ht
  rw [update_apply]
  split_ifs with hs
  · exact List.mem_cons_of_mem _ (hs ▸ ht)
  · exact ht

theorem mem_applied (applied : ShardId → List Nat) (s : ShardId) (t : Nat) :
    t ∈ update applied s (t :: applied s) s := by
  rw [update_self]
  exact List.mem_cons_self

theorem done_cons (hdone : ∀ s' ∈ shards, s' ∉ s :: todo → P s') (hs : P s) :
    ∀ s' ∈ shards, s' ∉ todo → P s' := by
  intro s' hs' hnot
  by_cases heq : s' = s
  · exact heq ▸ hs
  · exact hdone s' hs' (List.not_mem_cons_of_ne_of_not_mem heq hnot)

end Lists

/-! ## While serving -/

theorem Holds.setImage (h : w.Holds id s) (hfree : w.parked s' = none) :
    (w.setImage s' img).Holds id s := by
  obtain ⟨held, hpark, hm⟩ := h
  have hne : s ≠ s' := by
    rintro rfl
    rw [hfree] at hpark
    cases hpark
  refine ⟨held, hpark, ?_⟩
  rw [images_setImage, update_of_ne hne]
  exact hm

theorem Holds.park (hold : w.Holds id s) {h : Option (Image D)} (hne : s ≠ s') :
    (w.park s' h).Holds id s := by
  obtain ⟨img, hpark, hm⟩ := hold
  refine ⟨img, ?_, hm⟩
  rw [parked_park, update_of_ne hne]
  exact hpark

theorem hasApplied_setImage (hmark : ∀ k, img.hasApplied k = (w.images s).hasApplied k)
    (s' : ShardId) (k : Nat) :
    ((w.setImage s img).images s').hasApplied k = (w.images s').hasApplied k := by
  rw [images_setImage, update_apply]
  split_ifs with hs
  · rw [hs, hmark]
  · rfl

/-- A file whose writer is free changes, and its markers do not. -/
theorem PhaseHeld.setImage (h : w.PhaseHeld (.serving txn))
    (hmark : ∀ k, img.hasApplied k = (w.images s).hasApplied k) (hfree : w.parked s = none) :
    (w.setImage s img).PhaseHeld (.serving txn) := by
  cases txn with
  | none => trivial
  | some f =>
    refine ⟨h.1, ?_⟩
    have hstage := h.2
    have hun : w.Unmarked f → (w.setImage s img).Unmarked f := fun hun s' hs' => by
      rw [hasApplied_setImage hmark]
      exact hun s' hs'
    cases hst : f.stage with
    | preparing todo =>
      rw [hst] at hstage
      obtain ⟨hnone, hid, hunm, voted, hsplit, hnodup, hholds⟩ := hstage
      exact ⟨hnone, hid, hun hunm, voted, hsplit, hnodup,
        fun p hp => (hholds p hp).setImage hfree⟩
    | recording =>
      rw [hst] at hstage
      obtain ⟨hnone, hid, hunm, hnodup, hholds⟩ := hstage
      exact ⟨hnone, hid, hun hunm, hnodup, fun s' hs' => (hholds s' hs').setImage hfree⟩
    | committing todo failed =>
      rw [hst] at hstage
      obtain ⟨hget, hnodup, hsub, hholds, hdone⟩ := hstage
      exact ⟨hget, hnodup, hsub, fun s' hs' => (hholds s' hs').setImage hfree, hdone⟩
    | removing =>
      rw [hst] at hstage
      exact hstage
    | aborting todo => trivial

theorem Truthful.held {phase : Phase} (h : w.Truthful decided confirmed)
    (hphase : w.phase = phase) : w.PhaseHeld phase := hphase ▸ h.phase

/-- A transaction is reported that its participants have committed. -/
theorem Truthful.confirm {T : Txn} (h : w.Truthful decided confirmed)
    (hT : ∀ s ∈ T.shards, T.tag ∈ w.applied s) : w.Truthful decided (T :: confirmed) := by
  refine ⟨h.kept, h.fresh, h.reached, fun T' hT' => ?_, h.phase⟩
  rcases List.mem_cons.1 hT' with rfl | hT'
  · exact hT
  · exact h.confirmed T' hT'

section

variable (h : w.Truthful decided confirmed)

include h

theorem Truthful.write (hphase : w.phase = .serving txn) :
    (w.write sq s statements admitted).Truthful decided confirmed := by
  unfold AtomicNode.write
  split_ifs with hopen
  · cases himg : (w.images s).applyAtomicGroup sq statements with
    | none => exact h
    | some img =>
      have hmark : ∀ k, img.hasApplied k = (w.images s).hasApplied k := fun k =>
        Image.hasApplied_applyAtomicGroup himg
      refine h.keep rfl le_rfl (fun _ => List.Subset.refl _) ?_ ?_
      · intro r _ s' _ hm
        rw [hasApplied_setImage hmark] at hm
        exact .inl hm
      · show (w.setImage s img).PhaseHeld w.phase
        rw [hphase]
        exact (h.held hphase).setImage hmark hopen.2
  · exact h

theorem Truthful.startTxn {ps : Participants} {ddl : Bool} (hphase : w.phase = .serving none)
    (hok : w.Heard sq (.start ps ddl admitted)) :
    (w.startTxn sq ps ddl admitted).Truthful decided
      ((w.confirms sq (.start ps ddl admitted)).toList ++ confirmed) := by
  simp only [confirms, hphase]
  unfold AtomicNode.startTxn executesAlone
  have hserving : ∀ w' : AtomicNode D, w'.PhaseHeld w.phase := by
    rw [hphase]
    exact fun _ => trivial
  match hps : normalized ps with
  | [] => exact h
  | [(s, statements)] =>
    have hlisted : ({ w with history := ⟨w.history.length, [s]⟩ :: w.history } :
        AtomicNode D).Truthful decided confirmed :=
      h.stage rfl rfl rfl rfl (hserving _)
    by_cases hopen : admitted ∧ w.parked s = none
    · cases himg : (w.images s).applyAlone sq statements ddl with
      | none => simpa [hopen, himg] using hlisted
      | some img =>
        have hdone : (({ w with history := ⟨w.history.length, [s]⟩ :: w.history } :
            AtomicNode D).apply s w.history.length img).Truthful decided
              (⟨w.history.length, [s]⟩ :: confirmed) := by
          refine Truthful.confirm (h.keep rfl le_rfl (applied_subset _ s _) ?_ (hserving _)) ?_
          · intro r _ s' _ hm
            refine .inl ?_
            rw [← hasApplied_setImage (w := w) fun k => Image.hasApplied_applyAlone himg]
            exact hm
          · intro s' hs'
            obtain rfl := List.mem_singleton.1 hs'
            exact mem_applied ..
        simpa [hopen, himg] using hdone
    · have hclosed : ¬ (admitted = true ∧ w.parked s = none ∧
          ((w.images s).applyAlone sq statements ddl).isSome = true) :=
        fun hall => hopen ⟨hall.1, hall.2.1⟩
      simpa [hopen, hclosed] using hlisted
  | p :: q :: rest =>
    refine h.keep rfl (Nat.le_succ _) (fun _ => List.Subset.refl _) (fun _ _ _ _ hm => .inl hm) ?_
    have hnone : w.records.get? w.nextTxn = none := by
      cases hget : w.records.get? w.nextTxn with
      | none => rfl
      | some r => exact absurd (h.fresh _ _ hget) (lt_irrefl _)
    have hnew := hok (by rw [hps, List.length_cons, List.length_cons]; omega)
    rw [hps] at hnew
    refine ⟨fun p' hp' => ?_, hnone, Nat.lt_succ_self _, ?_, [], rfl, List.nodup_nil,
      nofun⟩
    · exact ne_nil_of_mem_normalized (hps ▸ hp')
    · intro s' hs'
      obtain ⟨p', hp', rfl⟩ := List.mem_map.1 hs'
      exact hnew p' hp'

section

variable (hphase : w.phase = .serving (some f))

include hphase

theorem Truthful.prepareNext :
    (w.prepareNext sq f admitted).Truthful decided confirmed := by
  obtain ⟨hne, hstage⟩ := h.held hphase
  have habort : (w.stage f (.aborting f.shards)).Truthful decided confirmed :=
    h.stage rfl rfl rfl rfl ⟨hne, trivial⟩
  unfold AtomicNode.prepareNext
  match hst : f.stage with
  | .preparing [] =>
    rw [hst] at hstage
    obtain ⟨hnone, hid, hun, voted, hsplit, hnodup, hholds⟩ := hstage
    rw [List.append_nil] at hsplit
    refine h.stage rfl rfl rfl rfl ⟨hne, hnone, hid, hun, ?_, ?_⟩
    · rw [InFlight.shards, hsplit]
      exact hnodup
    · intro s hs
      rw [InFlight.shards, hsplit] at hs
      obtain ⟨p, hp, rfl⟩ := List.mem_map.1 hs
      exact hholds p hp
  | .preparing ((s, statements) :: todo) =>
    rw [hst] at hstage
    obtain ⟨hnone, hid, hun, voted, hsplit, hnodup, hholds⟩ := hstage
    by_cases hopen : admitted ∧ w.parked s = none
    · simp only [if_pos hopen]
      cases himg : (w.images s).prepareGroup sq f.id statements f.ddl with
      | none => exact habort
      | some img =>
        -- the voters hold theirs, so this is another shard
        have hother : ∀ p ∈ voted, p.1 ≠ s := by
          rintro p hp rfl
          obtain ⟨held, hpark, -⟩ := hholds p hp
          rw [hopen.2] at hpark
          cases hpark
        refine h.stage rfl rfl rfl rfl
          ⟨hne, hnone, hid, hun, voted ++ [(s, statements)], ?_, ?_, ?_⟩
        · rw [hsplit, List.append_assoc, List.singleton_append]
        · rw [List.map_append, List.nodup_append]
          refine ⟨hnodup, List.nodup_singleton _, ?_⟩
          intro s' hs' s'' hs''
          obtain ⟨p, hp, rfl⟩ := List.mem_map.1 hs'
          obtain rfl := List.mem_singleton.1 hs''
          exact hother p hp
        · intro p hp
          rcases List.mem_append.1 hp with hp | hp
          · exact (hholds p hp).park (hother p hp)
          · obtain rfl := List.mem_singleton.1 hp
            refine ⟨img, ?_, (Image.prepareGroup_eq_some himg).2⟩
            show update w.parked s _ s = _
            rw [update_self]
    · simp only [if_neg hopen]
      exact habort
  | .recording | .committing _ _ | .removing | .aborting _ => exact h

theorem Truthful.putRecord :
    (w.putRecord f ok).Truthful ((w.decides (.putRecord ok)).toList ++ decided) confirmed := by
  obtain ⟨hne, hstage⟩ := h.held hphase
  cases ok with
  | false =>
    unfold AtomicNode.putRecord
    cases f.stage with
    | recording => exact h.stage rfl rfl rfl rfl trivial
    | _ => exact h
  | true =>
    simp only [decides, hphase]
    unfold AtomicNode.putRecord AtomicNode.recording
    cases hst : f.stage with
    | recording =>
      rw [hst] at hstage
      obtain ⟨hnone, hid, hun, hnodup, hholds⟩ := hstage
      have hshards : f.logged.record.shards = f.shards := f.shards_record
      show ({ w.stage f (.committing f.shards false) with
        records := w.records.insert f.id f.logged } : AtomicNode D).Truthful
          (f.logged :: decided) confirmed
      refine ⟨?_, ?_, ?_, h.confirmed, hne, ?_, hnodup, List.Subset.refl _, hholds, ?_⟩
      · intro k r hr
        rw [OrdMap.get?_insert] at hr
        split_ifs at hr with hk
        · cases hr
          refine ⟨hk.symm, rfl, ?_, ?_⟩
          · intro s hs
            rw [hshards] at hs
            obtain ⟨p, hp, rfl⟩ := List.mem_map.1 hs
            refine ⟨_, congrArg (Option.map _) (find?_record hnodup hp), fun hnil => ?_⟩
            exact hne p hp (List.map_eq_nil_iff.1 (List.map_eq_nil_iff.1 hnil))
          · intro s hs hm
            rw [hshards] at hs
            have hfalse : (w.images s).hasApplied f.id = false := hun s hs
            exact absurd (hfalse.symm.trans hm) Bool.false_ne_true
        · obtain ⟨heq, hk⟩ := h.kept k r hr
          exact ⟨heq, hk.decision, hk.statements, hk.marked⟩
      · intro k r hr
        rw [OrdMap.get?_insert] at hr
        split_ifs at hr with hk
        · exact hk ▸ hid
        · exact h.fresh k r hr
      · intro r hr
        rw [OrdMap.get?_insert]
        rcases List.mem_cons.1 hr with rfl | hr
        · exact .inl (if_pos rfl)
        · -- no record of this id was there to be overwritten
          refine (h.reached r hr).imp_left fun hget => ?_
          rw [if_neg]
          · exact hget
          · rintro heq
            rw [heq, hnone] at hget
            cases hget
      · rw [OrdMap.get?_insert, if_pos rfl]
        rfl
      · exact fun _ s hs hnot => absurd hs hnot
    | _ => exact h

theorem Truthful.abortNext :
    (w.abortNext f admitted).Truthful decided confirmed := by
  obtain ⟨hne, -⟩ := h.held hphase
  unfold AtomicNode.abortNext
  match f.stage with
  | .aborting [] => exact h.stage rfl rfl rfl rfl trivial
  | .aborting (s :: todo) =>
    cases admitted with
    | true => exact h.stage rfl rfl rfl rfl ⟨hne, trivial⟩
    | false => exact h.stage rfl rfl rfl rfl ⟨hne, trivial⟩
  | .preparing _ | .recording | .committing _ _ | .removing => exact h

/-- A participant commits what it holds: its marker comes with its transaction. -/
theorem Truthful.commitHeld {todo : List ShardId} {failed shipped : Bool}
    (hst : f.stage = .committing (s :: todo) failed) (hpark : w.parked s = some img) :
    (((w.park s none).apply s f.tag img).stage f
      (.committing todo (failed || !shipped))).Truthful decided confirmed := by
  obtain ⟨hne, hstage⟩ := h.held hphase
  rw [hst] at hstage
  obtain ⟨hget, hnodup, hsub, hholds, hdone⟩ := hstage
  obtain ⟨held, hpark', hm⟩ := hholds s List.mem_cons_self
  obtain rfl := Option.mem_unique hpark' hpark
  obtain ⟨hnot, hnodup⟩ := List.nodup_cons.1 hnodup
  have happ := applied_subset w.applied s f.tag
  have hown := mem_applied w.applied s f.tag
  refine h.keep rfl le_rfl happ ?_ ⟨hne, hget, hnodup, ?_, ?_, ?_⟩
  · intro r hr s' hs' hin
    have hmark : ((update w.images s held) s').hasApplied r.record.id = true := hin
    rw [update_apply] at hmark
    split_ifs at hmark with heq
    · rw [heq]
      rcases (hm _).1 hmark with hold | hid
      · exact .inl hold
      · -- the only record of this id is the transaction's own
        have hrr : w.records.get? f.id = some r := hid ▸ hr
        obtain rfl := Option.mem_unique hrr hget
        exact .inr hown
    · exact .inl hmark
  · exact fun s' hs' => hsub (List.mem_cons_of_mem _ hs')
  · intro s' hs'
    have hne' : s' ≠ s := fun heq => hnot (heq ▸ hs')
    obtain ⟨held', hp, hm'⟩ := (hholds s' (List.mem_cons_of_mem _ hs')).park (h := none) hne'
    refine ⟨held', hp, fun k => ?_⟩
    show _ ↔ ((update w.images s held) s').hasApplied k = true ∨ _
    rw [update_of_ne hne']
    exact hm' k
  · intro hnf
    rw [Bool.or_eq_false_iff] at hnf
    exact done_cons (fun s' hs' hnot' => happ s' (hdone hnf.1 s' hs' hnot')) hown

theorem Truthful.commitNext {answer : CommitAnswer} (hok : w.Heard sq (.commitNext answer)) :
    (w.commitNext f answer).Truthful decided confirmed := by
  obtain ⟨hne, hstage⟩ := h.held hphase
  unfold AtomicNode.commitNext
  match hst : f.stage with
  | .committing [] failed =>
    rw [hst] at hstage
    obtain ⟨hget, -, -, -, hdone⟩ := hstage
    cases failed with
    | true => exact h.stage rfl rfl rfl rfl trivial
    | false =>
      exact h.stage rfl rfl rfl rfl
        ⟨hne, hget, fun s hs => hdone rfl s hs List.not_mem_nil⟩
  | .committing (s :: todo) failed =>
    have hheld := hstage
    rw [hst] at hheld
    obtain ⟨hget, hnodup, hsub, hholds, hdone⟩ := hheld
    obtain ⟨hnot, hnodup⟩ := List.nodup_cons.1 hnodup
    have hrest : ∀ s' ∈ todo, w.Holds f.id s' := fun s' hs' =>
      hholds s' (List.mem_cons_of_mem _ hs')
    have hsub' : todo ⊆ f.shards := fun s' hs' => hsub (List.mem_cons_of_mem _ hs')
    match answer, hok with
    | .refused, _ =>
      exact h.stage rfl rfl rfl rfl
        ⟨hne, hget, hnodup, hsub', hrest, nofun⟩
    | .lost, _ =>
      refine h.stage rfl rfl rfl rfl
        ⟨hne, hget, hnodup, hsub', ?_, nofun⟩
      exact fun s' hs' => (hrest s' hs').park fun heq => hnot (heq ▸ hs')
    | .decided true shipped, _ =>
      obtain ⟨img, hpark, -⟩ := hholds s List.mem_cons_self
      simp only [hpark, if_true]
      exact h.commitHeld hphase hst hpark
  | .preparing _ | .recording | .removing | .aborting _ => exact h

end

theorem Truthful.forget {r : Logged}
    (hget : w.records.get? r.record.id = some r) (hall : ∀ s ∈ r.record.shards, r.tag ∈ w.applied s)
    (himages : w'.images = w.images) (happ : w'.applied = w.applied)
    (hnext : w'.nextTxn = w.nextTxn) (hrec : w'.records = w.records.erase r.record.id)
    (hphase : w'.PhaseHeld w'.phase) : w'.Truthful decided confirmed := by
  have hleft : ∀ {k r'}, w'.records.get? k = some r' →
      k ≠ r.record.id ∧ w.records.get? k = some r' := by
    intro k r' hr'
    rw [hrec, OrdMap.get?_erase] at hr'
    split_ifs at hr' with hk
    exact ⟨hk, hr'⟩
  refine ⟨?_, ?_, ?_, ?_, hphase⟩
  · intro k r' hr'
    obtain ⟨heq, hk⟩ := h.kept k r' (hleft hr').2
    refine ⟨heq, hk.decision, hk.statements, ?_⟩
    rw [himages, happ]
    exact hk.marked
  · intro k r' hr'
    rw [hnext]
    exact h.fresh k r' (hleft hr').2
  · intro r' hr'
    rw [happ]
    rcases h.reached r' hr' with hget' | hdone
    · by_cases heq : r'.record.id = r.record.id
      · cases (heq ▸ hget').symm.trans hget
        exact .inr hall
      · refine .inl ?_
        rw [hrec, OrdMap.get?_erase, if_neg heq]
        exact hget'
    · exact .inr hdone
  · rw [happ]
    exact h.confirmed

theorem Truthful.removeRecord (hphase : w.phase = .serving (some f)) :
    (w.removeRecord f ok).Truthful decided
      ((w.confirms sq (.removeRecord ok)).toList ++ confirmed) := by
  obtain ⟨-, hstage⟩ := h.held hphase
  cases ok with
  | false =>
    unfold AtomicNode.removeRecord
    cases f.stage with
    | removing => exact h.stage rfl rfl rfl rfl trivial
    | _ => exact h
  | true =>
    simp only [confirms, hphase]
    unfold AtomicNode.removeRecord AtomicNode.removing
    cases hst : f.stage with
    | removing =>
      rw [hst] at hstage
      obtain ⟨hget, hall⟩ := hstage
      have hgone : ({ w.idle with records := w.records.erase f.id } :
          AtomicNode D).Truthful decided confirmed :=
        h.forget (r := f.logged) hget
          (fun s hs => hall s (f.shards_record ▸ hs)) rfl rfl rfl rfl trivial
      exact hgone.confirm hall
    | _ => exact h

end

/-! ## Crash and recovery -/

theorem Truthful.crashed (h : w.Truthful decided confirmed) :
    w.crashed.Truthful decided confirmed :=
  h.stage rfl rfl rfl rfl trivial

theorem lt_nextIdAfterRecovery {V : Type} {records : OrdMap Nat V} {k : Nat}
    (hk : k ∈ records.keys) : k < nextIdAfterRecovery records := by
  have hle : ∀ (ks : List Nat) (m : Nat), m ≤ ks.foldl max m ∧ ∀ k ∈ ks, k ≤ ks.foldl max m := by
    intro ks
    induction ks with
    | nil => exact fun m => ⟨le_rfl, nofun⟩
    | cons x ks ih =>
      intro m
      obtain ⟨hm, hks⟩ := ih (max m x)
      refine ⟨(le_max_left m x).trans hm, fun k hk => ?_⟩
      rcases List.mem_cons.1 hk with rfl | hk
      · exact (le_max_right m k).trans hm
      · exact hks k hk
  exact Nat.lt_succ_of_le ((hle records.keys 0).2 k hk)

theorem PhaseHeld.resolve {rs : List Logged} (hkept : ∀ k r, w.records.get? k = some r →
      r.record.id = k ∧ w.Kept r)
    (hlisted : ∀ r ∈ rs, w.records.get? r.record.id = some r)
    (hdistinct : (rs.map fun r => r.record.id).Nodup) : w.PhaseHeld (.resolve rs) := by
  cases rs with
  | nil => trivial
  | cons r rest =>
    rw [Phase.resolve, (hkept _ _ (hlisted r List.mem_cons_self)).2.decision]
    exact ⟨hlisted, hdistinct, List.Subset.refl _, fun s hs hnot => absurd hs hnot⟩

theorem Truthful.restart (h : w.Truthful decided confirmed) :
    w.restart.Truthful decided confirmed := by
  obtain ⟨hlisted, hdistinct⟩ := records_listed fun k r hr => (h.kept k r hr).1
  refine ⟨?_, ?_, h.reached, h.confirmed, ?_⟩
  · intro k r hr
    obtain ⟨heq, hk⟩ := h.kept k r hr
    exact ⟨heq, hk.decision, hk.statements, hk.marked⟩
  · intro k r hr
    exact lt_nextIdAfterRecovery (List.mem_map_of_mem (OrdMap.get?_eq_some_iff.1 hr))
  · exact PhaseHeld.resolve (w := { w with nextTxn := _, phase := _ })
      (fun k r hr => ⟨(h.kept k r hr).1, (h.kept k r hr).2.decision, (h.kept k r hr).2.statements,
        (h.kept k r hr).2.marked⟩) hlisted hdistinct

section Recovery

variable {r : Logged} {todo : List ShardId} {rest : List Logged}

section

variable (h : w.Truthful decided confirmed)

include h

theorem Truthful.reapply (hphase : w.phase = .recovering r (s :: todo) rest) (hne : statements ≠ [])
    (himg : (w.images s).applyAlone sq statements r.record.ddl = some img) :
    (w.reapply sq r s statements todo rest).Truthful decided confirmed := by
  obtain ⟨hlisted, hdistinct, hsub, hdone⟩ := h.held hphase
  unfold AtomicNode.reapply
  rw [if_neg hne, himg]
  have happ := applied_subset w.applied s r.tag
  have hown := mem_applied w.applied s r.tag
  refine h.keep rfl le_rfl happ ?_
    ⟨hlisted, hdistinct, fun _ hs' => hsub (List.mem_cons_of_mem _ hs'),
      done_cons (fun s' hs' hnot => happ s' (hdone s' hs' hnot)) hown, hown⟩
  intro r' _ s' _ hm
  refine .inl ?_
  rw [← hasApplied_setImage (w := w) fun k => Image.hasApplied_applyAlone himg]
  exact hm

theorem Truthful.recoverShard {readable : Bool} (hphase : w.phase = .recovering r (s :: todo) rest)
    (hok : w.Heard sq (.recoverShard readable admitted)) :
    (w.recoverShard sq r s todo rest readable admitted).Truthful decided confirmed := by
  obtain ⟨hlisted, hdistinct, hsub, hdone⟩ := h.held hphase
  have hkept := (h.kept _ _ (hlisted r List.mem_cons_self)).2
  have hwithin : s ∈ r.record.shards := hsub List.mem_cons_self
  obtain ⟨statements, hst, hne⟩ := hkept.statements s hwithin
  unfold AtomicNode.recoverShard
  by_cases hm : readable = true ∧ (w.images s).hasApplied r.record.id = true
  · rw [if_pos hm]
    exact h.stage rfl rfl rfl rfl
      ⟨hlisted, hdistinct, fun _ hs' => hsub (List.mem_cons_of_mem _ hs'),
        done_cons hdone (hkept.marked s hwithin hm.2)⟩
  · rw [if_neg hm, hst]
    cases admitted with
    | false => exact h.crashed
    | true =>
      have hacc : w.NextAccepts sq readable true w.phase := hok
      rw [hphase] at hacc
      obtain ⟨img, himg⟩ := Option.isSome_iff_exists.1 (hacc rfl hm statements hst)
      exact h.reapply hphase hne himg

theorem Truthful.recoverMark (hphase : w.phase = .marking r s todo rest) :
    (w.recoverMark r s todo rest admitted).Truthful decided confirmed := by
  obtain ⟨hlisted, hdistinct, hsub, hdone, hown⟩ := h.held hphase
  cases admitted with
  | false => exact h.crashed
  | true =>
    refine h.keep rfl le_rfl (fun _ => List.Subset.refl _) ?_ ⟨hlisted, hdistinct, hsub, hdone⟩
    intro r' hr' s' _ hin
    have hmark : ((update w.images s ((w.images s).mark r.record.id)) s').hasApplied
        r'.record.id = true := hin
    rw [update_apply] at hmark
    split_ifs at hmark with heq
    · rw [heq]
      rcases Image.hasApplied_mark.1 hmark with hold | ⟨hid, -⟩
      · exact .inl hold
      · have hrr : w.records.get? r.record.id = some r' := hid ▸ hr'
        cases hrr.symm.trans (hlisted r List.mem_cons_self)
        exact .inr hown
    · exact .inl hmark

theorem Truthful.recoverRemove (hphase : w.phase = .recovering r [] rest) :
    (w.recoverRemove r rest ok).Truthful decided confirmed := by
  obtain ⟨hlisted, hdistinct, -, hdone⟩ := h.held hphase
  cases ok with
  | false => exact h.crashed
  | true =>
    have hrest : ∀ r' ∈ rest, (w.records.erase r.record.id).get? r'.record.id = some r' := by
      intro r' hr'
      rw [OrdMap.get?_erase, if_neg]
      · exact hlisted r' (List.mem_cons_of_mem _ hr')
      · rw [List.map_cons, List.nodup_cons] at hdistinct
        exact fun heq => hdistinct.1 (heq ▸ List.mem_map_of_mem hr')
    refine h.forget (hlisted r List.mem_cons_self) (fun s hs => hdone s hs List.not_mem_nil)
      rfl rfl rfl rfl ?_
    refine PhaseHeld.resolve (w := w.recoverRemove r rest true) ?_ hrest
      (List.nodup_cons.1 hdistinct).2
    intro k r' hr'
    have hleft : (w.records.erase r.record.id).get? k = some r' := hr'
    rw [OrdMap.get?_erase] at hleft
    split_ifs at hleft
    obtain ⟨heq, hk⟩ := h.kept k r' hleft
    exact ⟨heq, hk.decision, hk.statements, hk.marked⟩

end

end Recovery

theorem truthful_init (db : D) : (init db).Truthful [] [] :=
  ⟨nofun, nofun,
    nofun, nofun, trivial⟩

end AtomicNode

namespace AtomicLog

open AtomicNode (Heard)

variable {D : Type} {sq : Sqlite D} {l : AtomicLog D}

def Truthful (l : AtomicLog D) : Prop := l.node.Truthful l.decided l.confirmed

theorem Truthful.step {a : AtomicAct} (h : l.Truthful) (hok : l.node.Heard sq a) :
    (l.step sq a).Truthful := by
  rcases l.node.enabled_or_idle sq a with hen | ⟨hstep, -, -, hdec, -, hconf⟩
  · obtain ⟨phase, hphase⟩ : ∃ phase, l.node.phase = phase := ⟨_, rfl⟩
    rw [hphase] at hen
    unfold Truthful AtomicLog.step
    cases hen with
    | write =>
      simp only [AtomicNode.step, hphase]
      exact AtomicNode.Truthful.write h hphase
    | start =>
      simp only [AtomicNode.step, hphase]
      exact AtomicNode.Truthful.startTxn h hphase hok
    | prepareNext =>
      simp only [AtomicNode.step, hphase]
      exact AtomicNode.Truthful.prepareNext h hphase
    | putRecord =>
      simp only [AtomicNode.step, hphase]
      exact AtomicNode.Truthful.putRecord h hphase
    | commitNext =>
      simp only [AtomicNode.step, hphase]
      exact AtomicNode.Truthful.commitNext h hphase hok
    | removeRecord =>
      simp only [AtomicNode.step, hphase]
      exact AtomicNode.Truthful.removeRecord h hphase
    | abortNext =>
      simp only [AtomicNode.step, hphase]
      exact AtomicNode.Truthful.abortNext h hphase
    | crash => exact AtomicNode.Truthful.crashed h
    | restart =>
      simp only [AtomicNode.step, hphase]
      exact AtomicNode.Truthful.restart h
    | recoverShard =>
      simp only [AtomicNode.step, hphase]
      exact AtomicNode.Truthful.recoverShard h hphase hok
    | recoverMark =>
      simp only [AtomicNode.step, hphase]
      exact AtomicNode.Truthful.recoverMark h hphase
    | recoverRemove =>
      simp only [AtomicNode.step, hphase]
      exact AtomicNode.Truthful.recoverRemove h hphase
  · unfold Truthful AtomicLog.step
    rw [hstep, hdec, hconf]
    exact h

/-- **Reports of commits are truthful.**  What `run_atomic` reported as committed every
    participant has committed, and a decided record is on disk until they all have. -/
theorem reported_commits_committed (db : D) (acts : List AtomicAct)
    (hok : Machine.Meets (AtomicLog.step sq) (fun l a => l.node.Heard sq a)
      { node := .init db } acts) :
    (∀ T ∈ (runs sq db acts).confirmed, ∀ s ∈ T.shards, (runs sq db acts).Committed T.tag s) ∧
      ∀ r ∈ (runs sq db acts).decided,
        (runs sq db acts).node.records.get? r.record.id = some r ∨
          ∀ s ∈ r.record.shards, (runs sq db acts).Committed r.tag s := by
  have h : (runs sq db acts).Truthful :=
    Machine.invariant_run (AtomicLog.step sq) (I := Truthful)
      (fun _ _ hok h => h.step hok) (AtomicNode.truthful_init db) hok
  exact ⟨h.confirmed, h.reached⟩

section Runs

open AtomicNode (prepared commit appending bothShards reusedId)

/-- A full queue refuses the first decision.  The record stays, recovery applies the
    shard, and the next transaction runs to its end. -/
def busyQueue : List AtomicAct :=
  prepared ++ [.commitNext .refused, commit, commit, .crash, .restart, .recoverShard true true,
    .recoverMark true, .recoverShard true true, .recoverRemove true] ++
    prepared ++ [commit, commit, commit, .removeRecord true]

/-- The write gate of the first shard closes between its vote and the decision. -/
def gateCloses : List AtomicAct :=
  prepared ++ [.commitNext (.decided false true), commit, commit, .removeRecord true]

def onceOnly : Sqlite (List String) where
  run db statement := if statement.sql ∈ db then none else some (db ++ [statement.sql])
  batch db sql := if sql ∈ db then none else some (db ++ [sql])
  single _ := true
  batch_eq _ _ _ := rfl

/-- A refused decision leaves the shard to a later transaction's abort; a write then
    takes the place of the statement, and recovery does not look at the rejection. -/
def rejectedAgain : List AtomicAct :=
  prepared ++ [.commitNext .refused, commit, commit, bothShards, .prepareNext true,
    .abortNext true, .abortNext true, .abortNext true, .write 0 [.new "UPDATE a"] true, .crash,
    .restart, .recoverShard true true, .recoverMark true, .recoverShard true true,
    .recoverRemove true]

/-- A decided record is gone that a participant did not commit. -/
def Forgotten (l : AtomicLog D) : Prop :=
  ∃ r ∈ l.decided, l.node.records.get? r.record.id = none ∧
    ∃ s ∈ r.record.shards, ¬ l.Committed r.tag s

instance (l : AtomicLog D) : Decidable l.Forgotten :=
  inferInstanceAs (Decidable (∃ r ∈ l.decided, _ ∧ _))

theorem busyQueue_committed :
    (runs appending [] busyQueue).confirmed = [⟨1, [0, 1]⟩] ∧
      (∀ T ∈ (runs appending [] busyQueue).confirmed, ∀ s ∈ T.shards,
        (runs appending [] busyQueue).Committed T.tag s) ∧
      ∀ r ∈ (runs appending [] busyQueue).decided,
        (runs appending [] busyQueue).node.records.get? r.record.id = some r ∨
          ∀ s ∈ r.record.shards, (runs appending [] busyQueue).Committed r.tag s :=
  ⟨by decide +kernel, reported_commits_committed [] busyQueue (by decide +kernel)⟩

theorem gateCloses_confirmed :
    (∃ T ∈ (runs appending [] gateCloses).confirmed, ∃ s ∈ T.shards,
      ¬ (runs appending [] gateCloses).Committed T.tag s) ∧
      (∀ acts ∈ [gateCloses, reusedId], (runs appending [] acts).Forgotten) ∧
      (runs onceOnly [] rejectedAgain).Forgotten := by
  decide +kernel

end Runs

end AtomicLog

end Shardlite.Shard
