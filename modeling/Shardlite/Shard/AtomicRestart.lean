/-
  Shardlite.Shard.AtomicRestart

  Starting after a crash.  `ShardManager::open` finishes the decided transactions it finds
  before it returns, through the ordinary write path: a write that the gate refuses fails
  the start, and so does a COMMIT that SQLite refuses, as for a deferred constraint, or a
  schema change that the file refuses.

  The gate of a cluster node is closed when it starts.  A schema change is refused by a file
  that has it already, so a start that was cut off between applying one and marking it, or
  that could not mark it because the shard had no marker table, must not apply it again.
-/
import Shardlite.Shard.AtomicSafety

namespace Shardlite.Shard

open Storage Function

/-! ## The start -/

/-- How many steps a recovery has still to take. -/
def Phase.remaining : Phase → Nat
  | .recovering _ todo rest =>
    1 + 2 * todo.length + (rest.map fun r => 1 + 2 * r.record.shards.length).sum
  | .marking _ _ todo rest =>
    2 + 2 * todo.length + (rest.map fun r => 1 + 2 * r.record.shards.length).sum
  | _ => 0

def Phase.unresolved : Phase → List Logged
  | .recovering r _ rest | .marking r _ _ rest => r :: rest
  | _ => []

/-- Recovery has been to this shard of the record. -/
def Phase.Visited (r : Logged) (s : ShardId) : Phase → Prop
  | .recovering r' todo _ | .marking r' _ todo _ => r = r' ∧ s ∉ todo
  | _ => False

def Phase.Distinct : Phase → Prop
  | .recovering _ todo _ => todo.Nodup
  | .marking _ s todo _ => (s :: todo).Nodup
  | _ => True

/-- The acts that interrupt a recovery. -/
def AtomicAct.mayEnd : AtomicAct → Bool
  | .crash | .recoverShard _ false | .recoverMark false | .recoverRemove false => true
  | _ => false

def TxnStage.undecided : TxnStage → Bool
  | .preparing _ | .recording => true
  | _ => false

/-- What a start meets on each shard. -/
structure StartEnv where
  /-- The write gate. -/
  gate : ShardId → Bool := fun _ => true
  /-- SQLite carries out the COMMIT of what is applied again. -/
  commits : ShardId → Bool := fun _ => true

/-- A write of recovery to the shard is carried out. -/
def StartEnv.carries (env : StartEnv) (s : ShardId) : Bool := env.gate s && env.commits s

namespace AtomicNode

variable {D : Type} (sq : Sqlite D) (carried : ShardId → Bool) (w : AtomicNode D)

/-- One step of recovery, with every file operation and read working and writes to the
    shards `carried` out or not. -/
def recoverNext : AtomicNode D :=
  match w.phase with
  | .recovering r (s :: todo) rest => w.recoverShard sq r s todo rest true (carried s)
  | .marking r s todo rest => w.recoverMark r s todo rest (carried s)
  | .recovering r [] rest => w.recoverRemove r rest true
  | _ => w

/-- `ShardManager::open`: it serves at the end, or is down again if it failed. -/
def openNode (env : StartEnv) (w : AtomicNode D) : AtomicNode D :=
  (recoverNext sq env.carries)^[w.restart.phase.remaining] w.restart

/-! ## What must hold of a step -/

/-- A start may be cut off here: what it has been to of a schema change is marked. -/
def InterruptibleAt : Phase → Prop
  | .recovering r todo _ | .marking r _ todo _ => r.record.ddl = true →
      ∀ s ∈ r.record.shards, s ∉ todo → (w.images s).hasApplied r.record.id = true
  | _ => True

instance (phase : Phase) : Decidable (w.InterruptibleAt phase) := by
  unfold InterruptibleAt
  split <;> infer_instance

abbrev Interruptible (w : AtomicNode D) : Prop := w.InterruptibleAt w.phase

/-- Transactions start, commit and are recovered with care, and a start is cut off only
    where it may be. -/
def Resumable (a : AtomicAct) : Prop :=
  w.Careful sq a ∧ (a.mayEnd = true → w.Interruptible)

instance (a : AtomicAct) : Decidable (w.Resumable sq a) :=
  inferInstanceAs (Decidable (_ ∧ _))

/-- Writes are carried out on every shard on which a decided transaction is still to be
    applied. -/
def Carries : Prop :=
  ∀ r ∈ w.records.values, r.record.decision = some .commit → ∀ s ∈ r.record.shards,
    (w.images s).hasApplied r.record.id = false → carried s = true

instance : Decidable (w.Carries carried) :=
  inferInstanceAs (Decidable (∀ r ∈ w.records.values, _))

/-! ## The invariant -/

/-- A schema change that a record repeats is applied only where it is marked, or where the
    recovery under way has been. -/
structure Marks : Prop where
  nodup : ∀ k r, w.records.get? k = some r → r.record.shards.Nodup
  marked : ∀ k r, w.records.get? k = some r → r.record.ddl = true → ∀ s ∈ r.record.shards,
    ¬ w.phase.Visited r s → r.tag ∈ w.applied s → (w.images s).hasApplied r.record.id = true
  fresh : ∀ f, w.phase = .serving (some f) → f.stage.undecided = true →
    ∀ s, f.tag ∉ w.applied s
  distinct : w.phase.Distinct

variable {sq carried} {w w' : AtomicNode D} {f : InFlight} {s : ShardId}
variable {txn : Option InFlight} {r : Logged} {admitted ok : Bool} {k : Nat} {rs : List Logged}

/-- With no record more and every marker kept, what is newly applied or newly left behind
    must be marked. -/
theorem Marks.mono (h : w.Marks)
    (hrecords : ∀ k r, w'.records.get? k = some r → w.records.get? k = some r)
    (hkeep : ∀ s k, (w.images s).hasApplied k = true → (w'.images s).hasApplied k = true)
    (hnew : ∀ k r, w'.records.get? k = some r → r.record.ddl = true → ∀ s ∈ r.record.shards,
      ¬ w'.phase.Visited r s → r.tag ∈ w'.applied s →
        (¬ w.phase.Visited r s ∧ r.tag ∈ w.applied s) ∨ (w'.images s).hasApplied r.record.id = true)
    (hfresh : ∀ f, w'.phase = .serving (some f) → f.stage.undecided = true →
      ∀ s, f.tag ∉ w'.applied s)
    (hdistinct : w'.phase.Distinct) : w'.Marks where
  nodup k r hr := h.nodup k r (hrecords k r hr)
  marked k r hr hddl s hs hnot htag := by
    rcases hnew k r hr hddl s hs hnot htag with ⟨hold, htag⟩ | hmark
    · exact hkeep s _ (h.marked k r (hrecords k r hr) hddl s hs hold htag)
    · exact hmark
  fresh := hfresh
  distinct := hdistinct

theorem not_visited_of_serving (hphase : w.phase = .serving txn) :
    ¬ w.phase.Visited r s := by
  rw [hphase]
  exact id

theorem distinct_of_serving (hphase : w.phase = .serving txn) :
    w.phase.Distinct := by
  rw [hphase]
  trivial

/-! ## While serving -/

/-- Serving goes on, with no record more: markers stay, and what is applied is marked. -/
theorem Marks.serve (h : w.Marks) {txn' : Option InFlight} (hphase : w.phase = .serving txn)
    (hphase' : w'.phase = .serving txn')
    (hrecords : ∀ k r, w'.records.get? k = some r → w.records.get? k = some r)
    (hkeep : ∀ s k, (w.images s).hasApplied k = true → (w'.images s).hasApplied k = true)
    (happ : ∀ k r, w'.records.get? k = some r → ∀ s ∈ r.record.shards, r.tag ∈ w'.applied s →
      r.tag ∈ w.applied s ∨ (w'.images s).hasApplied r.record.id = true)
    (hfresh : ∀ f, txn' = some f → f.stage.undecided = true → ∀ s, f.tag ∉ w'.applied s) :
    w'.Marks := by
  refine h.mono hrecords hkeep ?_ ?_ (distinct_of_serving hphase')
  · intro k r hr _ s hs _ htag
    exact (happ k r hr s hs htag).imp_left fun hold => ⟨not_visited_of_serving hphase, hold⟩
  · intro f hf
    rw [hphase'] at hf
    exact hfresh f (Phase.serving.inj hf)

theorem Marks.fresh_of_serving (h : w.Marks) (hphase : w.phase = .serving txn) :
    ∀ f, txn = some f → f.stage.undecided = true → ∀ s, f.tag ∉ w.applied s := by
  rintro f rfl
  exact h.fresh f hphase

theorem Marks.write (h : w.Marks) (hphase : w.phase = .serving txn)
    {statements : List Statement} : (w.write sq s statements admitted).Marks := by
  unfold AtomicNode.write
  split_ifs
  · split
    next img himg =>
      refine h.serve hphase hphase (fun _ _ => id) (fun s' k hk => ?_) (fun _ _ _ _ _ => .inl)
        (h.fresh_of_serving hphase)
      by_cases hs : s' = s
      · subst hs
        rw [images_setImage, update_self, Image.hasApplied_applyAtomicGroup himg]
        exact hk
      · rw [images_setImage, update_of_ne hs]
        exact hk
    · exact h
  · exact h

theorem tag_lt {pending : Option Logged} (hset : w.Settled sq pending)
    (hr : w.records.get? k = some r) : r.tag < w.history.length :=
  hset.tags _ (hset.logged k r hr).2.txn

section

variable (h : w.Marks)

include h

theorem Marks.startTxn (hset : w.Settled sq none) (hphase : w.phase = .serving none)
    {ps : Participants} {ddl : Bool} : (w.startTxn sq ps ddl admitted).Marks := by
  unfold AtomicNode.startTxn
  simp only
  generalize normalized ps = qs
  match qs with
  | [] => exact h
  | [(s, statements)] =>
    have hstart : ({ w with history := ⟨w.history.length, [s]⟩ :: w.history } :
        AtomicNode D).Marks :=
      h.serve hphase hphase (fun _ _ => id) (fun _ _ => id) (fun _ _ _ _ _ => .inl) nofun
    simp only
    split_ifs
    · split
      next img himg =>
        refine h.serve hphase hphase (fun _ _ => id) (fun s' k hk => ?_)
          (fun k r hr s' _ htag => .inl ?_) nofun
        · by_cases hs : s' = s
          · subst hs
            show ((update w.images s' img) s').hasApplied k = true
            rw [update_self, Image.hasApplied_applyAlone himg]
            exact hk
          · show ((update w.images s img) s').hasApplied k = true
            rw [update_of_ne hs]
            exact hk
        · have hne : r.tag ≠ w.history.length := (tag_lt hset hr).ne
          have htag : r.tag ∈ (update w.applied s (w.history.length :: w.applied s)) s' :=
            htag
          by_cases hs : s' = s
          · subst hs
            rw [update_self] at htag
            exact (List.mem_cons.1 htag).resolve_left hne
          · rwa [update_of_ne hs] at htag
      · exact hstart
    · exact hstart
  | p :: q :: qs =>
    refine h.serve hphase rfl (fun _ _ => id) (fun _ _ => id) (fun _ _ _ _ _ => .inl) ?_
    intro f hf _ s htag
    cases hf
    exact absurd (hset.used s _ htag) (lt_irrefl _)

/-- The transaction moves on to a stage where it is decided, or was undecided before. -/
theorem Marks.stage (hphase : w.phase = .serving (some f)) {stage : TxnStage}
    (hstage : stage.undecided = true → f.stage.undecided = true) : (w.stage f stage).Marks := by
  refine h.serve hphase rfl (fun _ _ => id) (fun _ _ => id) (fun _ _ _ _ _ => .inl) ?_
  intro f' hf' hun
  cases hf'
  exact h.fresh f hphase (hstage hun)

theorem Marks.idle (hphase : w.phase = .serving (some f)) : w.idle.Marks :=
  h.serve hphase rfl (fun _ _ => id) (fun _ _ => id) (fun _ _ _ _ _ => .inl) nofun

theorem Marks.park {held : Option (Image D)} : (w.park s held).Marks :=
  ⟨h.nodup, h.marked, h.fresh, h.distinct⟩

theorem Marks.prepareNext (hphase : w.phase = .serving (some f)) :
    (w.prepareNext sq f admitted).Marks := by
  have habort : (w.stage f (.aborting f.shards)).Marks := h.stage hphase nofun
  unfold AtomicNode.prepareNext
  split
  · next hf => exact h.stage hphase fun _ => by rw [hf]; rfl
  · next hf =>
      split_ifs
      · split
        · exact h.park.stage hphase fun _ => by rw [hf]; rfl
        · exact habort
      · exact habort
  · exact h

/-- The decision goes to disk before any shard has the transaction. -/
theorem Marks.putRecord (hinv : w.Inv sq) (hphase : w.phase = .serving (some f))
    : (w.putRecord f ok).Marks := by
  unfold AtomicNode.putRecord
  split
  · next hf =>
      rw [Inv, hphase] at hinv
      obtain ⟨-, hstage⟩ := hinv
      rw [hf] at hstage
      have hnodup : f.record.shards.Nodup := f.shards_record ▸ hstage.2.2.1
      have hfresh : ∀ s, f.tag ∉ w.applied s := h.fresh f hphase (by rw [hf]; rfl)
      split_ifs
      · refine ⟨fun k r hr => ?_, fun k r hr hddl s hs _ htag => ?_, ?_, trivial⟩
        · replace hr : (w.records.insert f.id f.logged).get? k = some r := hr
          rw [OrdMap.get?_insert] at hr
          split_ifs at hr with hk
          · cases hr
            exact hnodup
          · exact h.nodup k r hr
        · replace hr : (w.records.insert f.id f.logged).get? k = some r := hr
          rw [OrdMap.get?_insert] at hr
          split_ifs at hr with hk
          · cases hr
            exact absurd htag (hfresh s)
          · exact h.marked k r hr hddl s hs (not_visited_of_serving hphase) htag
        · intro f' hf' hun
          cases Phase.serving.inj hf'
          exact absurd hun Bool.false_ne_true
      · exact h.idle hphase
  · exact h

theorem Marks.commitNext (hinv : w.Inv sq) (hphase : w.phase = .serving (some f))
    {shipped : Bool} : (w.commitNext f (.decided true shipped)).Marks := by
  unfold AtomicNode.commitNext
  split
  · split_ifs
    · exact h.idle hphase
    · exact h.stage hphase nofun
  · next s todo failed hf =>
      rw [Inv, hphase] at hinv
      obtain ⟨-, hstage⟩ := hinv
      rw [hf] at hstage
      obtain ⟨hset, -, committed, rest, -, hrest, -, hready⟩ := hstage
      obtain ⟨p, rest, rfl, rfl, rfl⟩ := List.map_eq_cons_iff.1 hrest.symm
      obtain ⟨img, hpark, hprep⟩ := hready p List.mem_cons_self
      obtain ⟨-, himg⟩ := Image.prepareGroup_eq_some hprep
      have hkeep : ∀ s k, (w.images s).hasApplied k = true →
          ((update w.images p.1 img) s).hasApplied k = true := by
        intro s k hk
        rw [update_apply]
        split_ifs with hs
        · exact (himg k).2 (.inl (hs ▸ hk))
        · exact hk
      rw [hpark]
      refine h.serve hphase rfl (fun _ _ => id) hkeep (fun k r hr s hs htag => ?_) ?_
      · -- every record but the pending one is marked everywhere
        by_cases hpend : some f.logged = some r
        · cases hpend
          replace htag : f.tag ∈ (update w.applied p.1 (f.tag :: w.applied p.1)) s := htag
          rw [update_apply] at htag
          split_ifs at htag with heq
          · refine .inr ?_
            show ((update w.images p.1 img) s).hasApplied f.id = true
            rw [heq, update_self]
            exact (himg _).2 (.inr rfl)
          · exact .inl htag
        · exact .inr (hkeep s _ (hset.complete k r hr hpend s hs))
      · intro f' hf' hun
        cases hf'
        exact absurd hun Bool.false_ne_true
  · exact h

theorem Marks.removeRecord (hphase : w.phase = .serving (some f)) :
    (w.removeRecord f ok).Marks := by
  unfold AtomicNode.removeRecord
  split
  · refine h.serve hphase rfl (fun k r hr => ?_) (fun _ _ => id) (fun _ _ _ _ _ => .inl) nofun
    cases ok with
    | false => exact hr
    | true => exact OrdMap.get?_of_erase hr
  · exact h

theorem Marks.abortNext (hphase : w.phase = .serving (some f)) :
    (w.abortNext f admitted).Marks := by
  unfold AtomicNode.abortNext
  split
  · exact h.idle hphase
  · split_ifs
    · exact h.park.stage hphase nofun
    · exact h.stage hphase nofun
  · exact h

end

/-! ## Crash and recovery -/

theorem Marks.crashed (h : w.Marks) (hint : w.Interruptible) : w.crashed.Marks := by
  refine h.mono (fun _ _ => id) (fun _ _ => id) (fun k r hr hddl s hs _ htag => ?_)
    (fun _ => Phase.noConfusion) trivial
  by_cases hv : w.phase.Visited r s
  · refine .inr ?_
    show (w.images s).hasApplied r.record.id = true
    rw [Interruptible] at hint
    match w.phase, hint, hv with
    | .recovering .., hint, ⟨rfl, hnot⟩ => exact hint hddl s hs hnot
    | .marking .., hint, ⟨rfl, hnot⟩ => exact hint hddl s hs hnot
  · exact .inl ⟨hv, htag⟩

theorem distinct_resolve (hnodup : ∀ r ∈ rs, r.record.shards.Nodup) :
    (Phase.resolve rs).Distinct := by
  cases rs with
  | nil => trivial
  | cons r rest =>
    rw [Phase.resolve]
    split
    · exact List.nodup_nil
    · exact hnodup r List.mem_cons_self

theorem resolve_ne_serving : Phase.resolve rs ≠ .serving (some f) := by
  cases rs with
  | nil => simp [Phase.resolve]
  | cons r rest =>
    rw [Phase.resolve]
    split <;> simp

theorem Marks.restart (h : w.Marks) (hphase : w.phase = .down) : w.restart.Marks := by
  refine h.mono (fun _ _ => id) (fun _ _ => id) (fun k r _ _ s _ _ htag => .inl ⟨?_, htag⟩)
    (fun f hf => absurd hf resolve_ne_serving) (distinct_resolve fun r hr => ?_)
  · rw [hphase]
    exact id
  · obtain ⟨k, hk⟩ := OrdMap.mem_values.1 hr
    exact h.nodup k r hk

section Recovery

variable {r : Logged} {todo : List ShardId} {rest : List Logged} {pending : Option Logged}
variable {s' : ShardId}

theorem Resolves.pending_of_unmarked (h : w.Resolves sq r (s :: todo) rest pending)
    (hm : ¬ (w.images s).hasApplied r.record.id = true) : pending = some r := by
  by_contra hne
  exact hm (h.settled.complete _ _ (h.listed r List.mem_cons_self) hne s
    (h.within List.mem_cons_self))

/-- A shard that shows the record is passed over, whatever the gate says. -/
theorem recoverShard_marked (hm : (w.images s).hasApplied r.record.id = true) :
    w.recoverShard sq r s todo rest true admitted = { w with phase := .recovering r todo rest } := by
  simp only [AtomicNode.recoverShard, true_and, if_pos hm]

theorem hasApplied_update {img : Image D} (himg : ∀ k, img.hasApplied k = (w.images s).hasApplied k)
    (hk : (w.images s').hasApplied k = true) :
    ((update w.images s img) s').hasApplied k = true := by
  rw [update_apply]
  split_ifs with hs
  · rw [himg, ← hs]
    exact hk
  · exact hk

/-- An unmarked shard that admits the write goes on to be marked: a schema change is not
    there yet, so the file takes it. -/
theorem recoverShard_unmarked (h : w.Resolves sq r (s :: todo) rest pending) (hmarks : w.Marks)
    (hphase : w.phase = .recovering r (s :: todo) rest)
    (hm : ¬ (w.images s).hasApplied r.record.id = true) :
    ∃ img ts, w.recoverShard sq r s todo rest true true =
        { w with
          images := update w.images s img
          applied := update w.applied s ts
          phase := .marking r s todo rest } ∧
      (∀ k, img.hasApplied k = (w.images s).hasApplied k) ∧
      ∀ t ∈ w.applied s, t ∈ ts := by
  have hs : s ∈ r.record.shards := h.within List.mem_cons_self
  obtain rfl := Resolves.pending_of_unmarked h hm
  obtain ⟨hget, hredo⟩ := h.settled.redo r rfl
  obtain ⟨statements, hst, hne⟩ := (h.settled.logged _ _ hget).2.statements s hs
  rw [AtomicNode.recoverShard]
  simp only [true_and, if_neg hm, hst, if_true]
  rw [AtomicNode.reapply, if_neg hne]
  split
  · next img himg =>
      exact ⟨img, _, rfl, fun k => Image.hasApplied_applyAlone himg, fun t =>
        List.mem_cons_of_mem _⟩
  · next hrefused =>
      have hkept : ({ w with phase := .marking r s todo rest } : AtomicNode D) =
          { w with
            images := update w.images s (w.images s)
            applied := update w.applied s (w.applied s)
            phase := .marking r s todo rest } := by
        rw [update_eq_self, update_eq_self]
      split_ifs with hddl
      · -- only a file that has the change refuses it, and that one would be marked
        exfalso
        rcases hredo s hs with happ | ⟨statements', img, hst', -, himg⟩
        · refine hm (hmarks.marked _ r hget hddl s hs ?_ happ)
          rw [hphase]
          exact fun hv => hv.2 List.mem_cons_self
        · cases hst'.symm.trans hst
          exact Option.some_ne_none _ (himg.symm.trans hrefused)
      · exact ⟨_, _, hkept, fun _ => rfl, fun _ => id⟩

theorem Marks.recoverShard (h : w.Marks) (hinv : w.Inv sq)
    (hphase : w.phase = .recovering r (s :: todo) rest)
    (hint : admitted = false → w.Interruptible) :
    (w.recoverShard sq r s todo rest true admitted).Marks := by
  obtain ⟨hnew, hnodup⟩ : s ∉ todo ∧ todo.Nodup := by
    have hdistinct := h.distinct
    rw [hphase] at hdistinct
    exact List.nodup_cons.1 hdistinct
  rw [Inv, hphase] at hinv
  obtain ⟨pending, hres⟩ := hinv
  -- a shard of the record still to do was to do before
  have hleft : ∀ {r' s'}, ¬ (r' = r ∧ s' ∉ todo) → ¬ w.phase.Visited r' s' := by
    intro r' s' hnot
    rw [hphase]
    rintro ⟨rfl, hs'⟩
    exact hnot ⟨rfl, fun hmem => hs' (List.mem_cons_of_mem _ hmem)⟩
  by_cases hm : (w.images s).hasApplied r.record.id = true
  · rw [recoverShard_marked hm]
    refine h.mono (fun _ _ => id) (fun _ _ => id) (fun k r' hr' _ s' hs' hnot htag => ?_)
      (fun _ => Phase.noConfusion) hnodup
    exact .inl ⟨hleft hnot, htag⟩
  · cases admitted with
    | false =>
      obtain rfl := Resolves.pending_of_unmarked hres hm
      have hget := hres.listed r List.mem_cons_self
      obtain ⟨statements, hst, -⟩ := (hres.settled.logged _ _ hget).2.statements s
        (hres.within List.mem_cons_self)
      simp only [AtomicNode.recoverShard, true_and, if_neg hm, hst]
      exact h.crashed (hint rfl)
    | true =>
      obtain ⟨img, ts, heq, himg, -⟩ := recoverShard_unmarked hres h hphase hm
      obtain rfl := Resolves.pending_of_unmarked hres hm
      rw [heq]
      refine h.mono (fun _ _ => id) (fun _ _ => hasApplied_update himg)
        (fun k r' hr' _ s' hs' hnot htag => ?_) (fun _ => Phase.noConfusion)
        (List.nodup_cons.2 ⟨hnew, hnodup⟩)
      by_cases hr : some r = some r'
      · cases hr
        have hmem : s' ∈ todo := by
          by_contra hs'
          exact hnot ⟨rfl, hs'⟩
        have hne : s' ≠ s := fun heq => hnew (heq ▸ hmem)
        replace htag : r.tag ∈ (update w.applied s ts) s' := htag
        rw [update_of_ne hne] at htag
        exact .inl ⟨hleft hnot, htag⟩
      · exact .inr (hasApplied_update himg (hres.settled.complete k r' hr' hr s' hs'))

theorem hasApplied_setImage_mark {id : Nat} (hk : (w.images s').hasApplied k = true) :
    ((w.setImage s ((w.images s).mark id)).images s').hasApplied k = true := by
  rw [images_setImage, update_apply]
  split_ifs with hs
  · exact Image.hasApplied_mark.2 (.inl (hs ▸ hk))
  · exact hk

theorem Marks.recoverMark (h : w.Marks) (hphase : w.phase = .marking r s todo rest)
    (hint : admitted = false → w.Interruptible) :
    (w.recoverMark r s todo rest admitted).Marks := by
  cases admitted with
  | false => exact h.crashed (hint rfl)
  | true =>
    refine h.mono (fun _ _ => id) (fun _ _ => hasApplied_setImage_mark)
      (fun k r' _ _ s' _ hnot htag => .inl ⟨?_, htag⟩) (fun _ => Phase.noConfusion) ?_
    · rw [hphase]
      exact hnot
    · have hdistinct := h.distinct
      rw [hphase] at hdistinct
      exact (List.nodup_cons.1 hdistinct).2

theorem Marks.recoverRemove (h : w.Marks) (hinv : w.Inv sq)
    (hphase : w.phase = .recovering r [] rest) (hint : ok = false → w.Interruptible) :
    (w.recoverRemove r rest ok).Marks := by
  cases ok with
  | false => exact h.crashed (hint rfl)
  | true =>
    rw [Inv, hphase] at hinv
    obtain ⟨pending, hres⟩ := hinv
    refine h.mono (fun _ _ => OrdMap.get?_of_erase) (fun _ _ => id)
      (fun k r' hr' _ s' _ _ htag => .inl ⟨?_, htag⟩) (fun f hf => absurd hf resolve_ne_serving)
      (distinct_resolve fun r' hr' => h.nodup _ r' (hres.listed r' (List.mem_cons_of_mem _ hr')))
    -- the record that recovery has been through is gone
    rw [hphase]
    rintro ⟨rfl, -⟩
    replace hr' : (w.records.erase r'.record.id).get? k = some r' := hr'
    have hid := (hres.settled.logged k r' (OrdMap.get?_of_erase hr')).1
    rw [OrdMap.get?_erase, if_pos hid.symm] at hr'
    exact Option.some_ne_none _ hr'.symm

end Recovery

/-! ## Whole runs -/

theorem Marks.step (h : w.Marks) (hinv : w.Inv sq) {a : AtomicAct} (ha : w.Resumable sq a) :
    (w.step sq a).Marks := by
  obtain ⟨hc, hint⟩ := ha
  unfold AtomicNode.step
  split
  · next hphase => exact h.write hphase
  · next hphase =>
      rw [Inv, hphase] at hinv
      exact h.startTxn hinv hphase
  · next hphase => exact h.prepareNext hphase
  · next hphase => exact h.putRecord hinv hphase
  · next hphase => rcases hc with rfl | rfl <;> exact h.commitNext hinv hphase
  · next hphase => exact h.removeRecord hphase
  · next hphase => exact h.abortNext hphase
  · exact h.crashed (hint rfl)
  · next hphase => exact h.restart hphase
  · next hphase =>
      obtain rfl := hc
      exact h.recoverShard hinv hphase fun hoff => hint (by rw [hoff]; rfl)
  · next hphase => exact h.recoverMark hphase fun hoff => hint (by rw [hoff]; rfl)
  · next hphase => exact h.recoverRemove hinv hphase fun hoff => hint (by rw [hoff]; rfl)
  · exact h

theorem marks_init (db : D) : (init db).Marks :=
  ⟨nofun, nofun, nofun, trivial⟩

/-- Both invariants hold in every run that meets the condition. -/
theorem resumable_run (db : D) {acts : List AtomicAct}
    (hc : Machine.Meets (AtomicNode.step sq) (fun w a => w.Resumable sq a) (init db) acts) :
    (runs sq db acts).Inv sq ∧ (runs sq db acts).Marks :=
  Machine.invariant_run (I := fun w : AtomicNode D => w.Inv sq ∧ w.Marks) (AtomicNode.step sq)
    (fun _ _ hok h => ⟨h.1.step hok.1, h.2.step h.1 hok⟩) ⟨inv_init db, marks_init db⟩ hc

/-! ## The start that is not cut off -/

variable (carried w) in
/-- The record is carried out on those of the shards that do not show it. -/
def Admits (r : Logged) (shards : List ShardId) : Prop :=
  ∀ s ∈ shards, (w.images s).hasApplied r.record.id = false → carried s = true

variable (carried w) in
def Allowed : Phase → Prop
  | .recovering r todo rest => w.Admits carried r todo ∧
      ∀ r' ∈ rest, w.Admits carried r' r'.record.shards
  | .marking r s todo rest => carried s = true ∧ w.Admits carried r todo ∧
      ∀ r' ∈ rest, w.Admits carried r' r'.record.shards
  | .serving none => True
  | _ => False

variable (sq carried) in
/-- A start that found the records `rs`: each of them is still to be resolved or is
    applied on all its shards. -/
structure Opening (rs : List Logged) (w : AtomicNode D) : Prop where
  inv : w.Inv sq
  marks : w.Marks
  allowed : w.Allowed carried w.phase
  finished : ∀ r ∈ rs, r ∈ w.phase.unresolved ∨ ∀ s ∈ r.record.shards, r.tag ∈ w.applied s

theorem Admits.mono {shards shards' : List ShardId} (h : w.Admits carried r shards)
    (hsub : shards' ⊆ shards)
    (hkeep : ∀ s k, (w.images s).hasApplied k = true → (w'.images s).hasApplied k = true) :
    w'.Admits carried r shards' := by
  intro s hs hm
  refine h s (hsub hs) ?_
  by_contra hne
  exact absurd (hm.symm.trans (hkeep s _ (by simpa using hne))) Bool.false_ne_true

theorem Allowed.resolve (h : ∀ r ∈ rs, w.Admits carried r r.record.shards) :
    w.Allowed carried (.resolve rs) := by
  cases rs with
  | nil => trivial
  | cons r rest =>
    have hrest : ∀ r' ∈ rest, w.Admits carried r' r'.record.shards := fun r' hr' =>
      h r' (List.mem_cons_of_mem _ hr')
    rw [Phase.resolve]
    split
    · exact ⟨fun s hs => absurd hs List.not_mem_nil, hrest⟩
    · exact ⟨h r List.mem_cons_self, hrest⟩

theorem unresolved_resolve (rs : List Logged) : (Phase.resolve rs).unresolved = rs := by
  cases rs with
  | nil => rfl
  | cons r rest =>
    rw [Phase.resolve]
    split <;> rfl

theorem remaining_resolve_le (rs : List Logged) :
    (Phase.resolve rs).remaining ≤ (rs.map fun r => 1 + 2 * r.record.shards.length).sum := by
  cases rs with
  | nil => exact Nat.zero_le _
  | cons r rest =>
    rw [Phase.resolve, List.map_cons, List.sum_cons]
    split
    · simp only [Phase.remaining, List.length_nil]
      omega
    · exact le_rfl

section Next

variable {rs : List Logged} {r : Logged} {todo : List ShardId} {rest : List Logged}

section

variable (h : Opening sq carried rs w)

include h

/-- A shard that shows the record is passed over, and any other is applied. -/
theorem Opening.shard (hphase : w.phase = .recovering r (s :: todo) rest) :
    Opening sq carried rs (w.recoverShard sq r s todo rest true (carried s)) ∧
      (w.recoverShard sq r s todo rest true (carried s)).phase.remaining < w.phase.remaining := by
  have hallowed := h.allowed
  rw [hphase] at hallowed
  obtain ⟨hgates, hrest⟩ := hallowed
  have hfinished := h.finished
  rw [hphase] at hfinished
  by_cases hm : (w.images s).hasApplied r.record.id = true
  · have hinv : (w.recoverShard sq r s todo rest true true).Inv sq := h.inv.recoverShard hphase
    have hmarks : (w.recoverShard sq r s todo rest true true).Marks :=
      h.marks.recoverShard h.inv hphase Bool.noConfusion
    rw [recoverShard_marked hm] at hinv hmarks ⊢
    refine ⟨⟨hinv, hmarks, ⟨hgates.mono (List.subset_cons_self _ _) fun _ _ => id, hrest⟩,
      hfinished⟩, ?_⟩
    simp only [hphase, Phase.remaining, List.length_cons]
    omega
  · have hgate : carried s = true := hgates s List.mem_cons_self (by simpa using hm)
    have hinv : (w.recoverShard sq r s todo rest true true).Inv sq := h.inv.recoverShard hphase
    have hmarks : (w.recoverShard sq r s todo rest true true).Marks :=
      h.marks.recoverShard h.inv hphase Bool.noConfusion
    obtain ⟨pending, hres⟩ : ∃ pending, w.Resolves sq r (s :: todo) rest pending := by
      have hw := h.inv
      rw [Inv, hphase] at hw
      exact hw
    obtain ⟨img, ts, heq, himg, hts⟩ := recoverShard_unmarked hres h.marks hphase hm
    rw [hgate]
    rw [heq] at hinv hmarks ⊢
    have happ : ∀ s' t, t ∈ w.applied s' → t ∈ (update w.applied s ts) s' := by
      intro s' t ht
      rw [update_apply]
      split_ifs with hs
      · exact hts t (hs ▸ ht)
      · exact ht
    refine ⟨⟨hinv, hmarks, ⟨hgate, hgates.mono (List.subset_cons_self _ _) fun _ _ =>
      hasApplied_update himg, fun r' hr' => (hrest r' hr').mono (List.Subset.refl _) fun _ _ =>
        hasApplied_update himg⟩, fun r' hr' => ?_⟩, ?_⟩
    · exact (hfinished r' hr').imp_right fun hall s' hs' => happ s' _ (hall s' hs')
    · simp only [hphase, Phase.remaining, List.length_cons]
      omega

theorem Opening.mark (hphase : w.phase = .marking r s todo rest) :
    Opening sq carried rs (w.recoverMark r s todo rest (carried s)) ∧
      (w.recoverMark r s todo rest (carried s)).phase.remaining < w.phase.remaining := by
  have hallowed := h.allowed
  rw [hphase] at hallowed
  obtain ⟨hgate, hgates, hrest⟩ := hallowed
  have hfinished := h.finished
  rw [hphase] at hfinished
  rw [hgate]
  refine ⟨⟨h.inv.recoverMark hphase, h.marks.recoverMark hphase Bool.noConfusion,
    ⟨hgates.mono (List.Subset.refl _) fun _ _ => hasApplied_setImage_mark, fun r' hr' =>
      (hrest r' hr').mono (List.Subset.refl _) fun _ _ => hasApplied_setImage_mark⟩,
    hfinished⟩, ?_⟩
  simp only [AtomicNode.recoverMark, if_true, hphase, Phase.remaining]
  omega

theorem Opening.remove (hphase : w.phase = .recovering r [] rest) :
    Opening sq carried rs (w.recoverRemove r rest true) ∧
      (w.recoverRemove r rest true).phase.remaining < w.phase.remaining := by
  have hallowed := h.allowed
  rw [hphase] at hallowed
  obtain ⟨-, hrest⟩ := hallowed
  have hdone : ∀ s ∈ r.record.shards, r.tag ∈ w.applied s := by
    have hw := h.inv
    rw [Inv, hphase] at hw
    obtain ⟨pending, hres⟩ := hw
    exact fun s hs => hres.done s hs List.not_mem_nil
  refine ⟨⟨h.inv.recoverRemove hphase, h.marks.recoverRemove h.inv hphase Bool.noConfusion, ?_, ?_⟩, ?_⟩
  · exact Allowed.resolve (w := { w with records := _, phase := _ }) hrest
  · intro r' hr'
    have hcases := h.finished r' hr'
    rw [hphase] at hcases
    rcases hcases with hmem | hall
    · rcases List.mem_cons.1 hmem with rfl | hmem
      · exact .inr hdone
      · refine .inl ?_
        show r' ∈ (Phase.resolve rest).unresolved
        rw [unresolved_resolve]
        exact hmem
    · exact .inr hall
  · have hle := remaining_resolve_le rest
    rw [hphase]
    show (Phase.resolve rest).remaining < 1 + 2 * 0 + _
    omega

/-- Each step of a start that is admitted goes well and leaves less to do. -/
theorem Opening.next (hpos : 0 < w.phase.remaining) :
    Opening sq carried rs (w.recoverNext sq carried) ∧
      (w.recoverNext sq carried).phase.remaining < w.phase.remaining := by
  unfold recoverNext
  split
  · next hphase => exact h.shard hphase
  · next hphase => exact h.mark hphase
  · next hphase => exact h.remove hphase
  · next hshard hmark hremove =>
      cases hphase : w.phase with
      | recovering r todo rest =>
        cases todo with
        | nil => exact absurd hphase (hremove r rest)
        | cons s todo => exact absurd hphase (hshard r s todo rest)
      | marking r s todo rest => exact absurd hphase (hmark r s todo rest)
      | down | serving txn => rw [hphase] at hpos; exact absurd hpos (lt_irrefl _)

theorem Opening.iterate {n : Nat} (hn : w.phase.remaining ≤ n) :
    Opening sq carried rs ((recoverNext sq carried)^[n] w) ∧
      ((recoverNext sq carried)^[n] w).phase.remaining = 0 := by
  induction n generalizing w with
  | zero => exact ⟨h, Nat.le_zero.1 hn⟩
  | succ n ih =>
    rw [Function.iterate_succ_apply]
    by_cases hpos : 0 < w.phase.remaining
    · obtain ⟨hnext, hless⟩ := h.next hpos
      exact ih hnext (by omega)
    · -- a start that is over stays as it is
      have hzero : w.phase.remaining = 0 := by omega
      have hstay : w.recoverNext sq carried = w := by
        unfold recoverNext
        split
        · next hphase => rw [hphase, Phase.remaining] at hzero; omega
        · next hphase => rw [hphase, Phase.remaining] at hzero; omega
        · next hphase => rw [hphase, Phase.remaining] at hzero; omega
        · rfl
      rw [hstay]
      exact ih h (by omega)

theorem Opening.serving (hzero : w.phase.remaining = 0) :
    w.phase = .serving none := by
  have hallowed := h.allowed
  match hphase : w.phase with
  | .recovering .. => rw [hphase, Phase.remaining] at hzero; omega
  | .marking .. => rw [hphase, Phase.remaining] at hzero; omega
  | .down => rw [hphase] at hallowed; exact hallowed.elim
  | .serving none => rfl
  | .serving (some _) => rw [hphase] at hallowed; exact hallowed.elim

end

theorem Opening.restart (hinv : w.Inv sq) (hmarks : w.Marks) (hphase : w.phase = .down)
    (hgate : w.Carries carried) : Opening sq carried w.records.values w.restart where
  inv := hinv.restart hphase
  marks := hmarks.restart hphase
  allowed := by
    rw [Inv, hphase] at hinv
    obtain ⟨pending, hset⟩ := hinv
    refine Allowed.resolve (w := w.restart) fun r hr s hs hm => ?_
    obtain ⟨e, he, rfl⟩ := List.mem_map.1 hr
    have hok := (hset.logged e.1 e.2 (OrdMap.get?_eq_some_iff.2 he)).2
    exact hgate e.2 hr hok.decision s hs hm
  finished r hr := .inl (by
    show r ∈ (Phase.resolve w.records.values).unresolved
    rw [unresolved_resolve]
    exact hr)

end Next

/-- Shard 0 has committed when the process dies, shard 1 has not. -/
def halfCommitted : List AtomicAct := prepared ++ [commit, .crash]

/-- A file that takes one change and refuses every other. -/
def oneChange : Sqlite Bool where
  run changed _ := if changed then none else some true
  batch changed _ := if changed then none else some true
  single _ := true
  batch_eq _ _ _ := rfl

/-- A decided schema change that the next start applies on one shard, where it is cut off. -/
def cutOff : List AtomicAct :=
  [.start [(0, [.new "CREATE TABLE t(k)"]), (1, [.new "CREATE TABLE t(k)"])] true true,
    .prepareNext true, .prepareNext true, .prepareNext true, .putRecord true, .crash, .restart,
    .recoverShard true true, .crash]

end AtomicNode

end Shardlite.Shard
