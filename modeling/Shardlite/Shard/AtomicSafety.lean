/-
  Shardlite.Shard.AtomicSafety

  A transaction over several shards is applied on all of them or on none, once
  the node serves and no transaction is under way: after every recovery, and
  after every transaction that ran to its end.  This rests on the id of a
  transaction being in no participant's marker table when it starts; ids begin
  again above the record files at every restart, while markers stay for good, so
  the code does not ensure it.
-/
import Shardlite.Shard.AtomicDisk

namespace Shardlite.Shard

open Storage Function

/-! ## Statements a record can repeat -/

/-- The text of the statements says all of it, and a schema change is one
    statement. -/
def Replayable {D : Type} (sq : Sqlite D) (ddl : Bool) (statements : List Statement) : Prop :=
  (∀ statement ∈ statements, statement.params = []) ∧
    (ddl = true → statements.length = 1 ∧ ∀ statement ∈ statements, sq.single statement.sql = true)

instance {D : Type} (sq : Sqlite D) (ddl : Bool) (statements : List Statement) :
    Decidable (Replayable sq ddl statements) :=
  inferInstanceAs (Decidable (_ ∧ _))

section Replay

variable {D : Type} {sq : Sqlite D} {ddl : Bool} {statements : List Statement}

theorem Replayable.map_new_sql (h : Replayable sq ddl statements) :
    (statements.map (·.sql)).map Statement.new = statements := by
  rw [List.map_map]
  conv_rhs => rw [← List.map_id statements]
  refine List.map_congr_left fun statement hmem => ?_
  show Statement.new statement.sql = statement
  rw [Statement.new, ← h.1 statement hmem]

/-- What prepared once can be applied alone on the same file. -/
theorem Replayable.applyAlone {img img' : Image D} {id : Nat} (h : Replayable sq ddl statements)
    (hprep : img.prepareGroup sq id statements ddl = some img') :
    ∃ img'', img.applyAlone sq statements ddl = some img'' := by
  obtain ⟨⟨db, hdb⟩, -⟩ := Image.prepareGroup_eq_some hprep
  cases ddl with
  | false => exact ⟨{ img with db }, by simp [Image.applyAlone, Image.applyAtomicGroup, hdb]⟩
  | true =>
    obtain ⟨hone, hsingle⟩ := h.2 rfl
    obtain ⟨statement, rfl⟩ := List.length_eq_one_iff.1 hone
    have hnew : Statement.new statement.sql = statement := by simpa using h.map_new_sql
    -- one statement as a batch is that statement
    have hbatch : sq.batch img.db statement.sql = some db := by
      rw [sq.batch_eq _ _ (hsingle statement List.mem_cons_self), hnew]
      simpa [Sqlite.runAll] using hdb
    exact ⟨{ img with db, version := img.version + 1 },
      by simp [Image.applyAlone, Image.schemaOp, hbatch]⟩

end Replay

/-! ## The invariant -/

def InFlight.logged (f : InFlight) : Logged := ⟨f.tag, f.record⟩

theorem InFlight.shards_record (f : InFlight) : f.record.shards = f.shards := by
  rw [record, TxnRecord.shards, List.map_map]
  rfl

namespace AtomicNode

variable {D : Type} (sq : Sqlite D) (w : AtomicNode D)

abbrev Settled (pending : Option Logged) : Prop :=
  Settles sq w.images w.applied w.records w.history pending

/-- The participant holds the transaction open on its present file. -/
def Ready (f : InFlight) (p : ShardId × List Statement) : Prop :=
  ∃ img, w.parked p.1 = some img ∧ (w.images p.1).prepareGroup sq f.id p.2 f.ddl = some img

def Unmarked (f : InFlight) : Prop := ∀ s ∈ f.shards, (w.images s).hasApplied f.id = false

structure Started (f : InFlight) : Prop where
  txn : ⟨f.tag, f.shards⟩ ∈ w.history
  replay : ∀ p ∈ f.participants, p.2 ≠ [] ∧ Replayable sq f.ddl p.2

/-- The participants that voted hold their transactions open until the record is
    written; from then on each of them either still does or is marked. -/
def StageInv (f : InFlight) : TxnStage → Prop
  | .preparing todo => w.Settled sq none ∧ w.Unmarked f ∧ ∃ voted, f.participants = voted ++ todo ∧
      (voted.map Prod.fst).Nodup ∧ ∀ p ∈ voted, w.Ready sq f p
  | .recording => w.Settled sq none ∧ w.Unmarked f ∧ f.shards.Nodup ∧
      ∀ p ∈ f.participants, w.Ready sq f p
  | .committing todo _ => w.Settled sq (some f.logged) ∧ f.shards.Nodup ∧
      ∃ committed rest, f.participants = committed ++ rest ∧ todo = rest.map Prod.fst ∧
        (∀ p ∈ committed, (w.images p.1).hasApplied f.id = true) ∧ ∀ p ∈ rest, w.Ready sq f p
  | .removing => w.Settled sq none ∧ w.records.get? f.id = some f.logged
  | .aborting _ => w.Settled sq none

abbrev Resolves (current : Logged) (todo : List ShardId) (rest : List Logged)
    (pending : Option Logged) : Prop :=
  Resolving sq w.images w.applied w.records w.history current todo rest pending

def PhaseInv : Phase → Prop
  | .down => ∃ pending, w.Settled sq pending
  | .recovering r todo rest => ∃ pending, w.Resolves sq r todo rest pending
  | .marking r s todo rest => w.Resolves sq r todo rest (some r) ∧ s ∈ r.record.shards ∧
      r.tag ∈ w.applied s
  | .serving none => w.Settled sq none
  | .serving (some f) => w.Started sq f ∧ w.StageInv sq f f.stage

def Inv : Prop := w.PhaseInv sq w.phase

/-- The transaction's id is new to its participants and its record says all of
    it; commit decisions are carried out; markers can be read. -/
def Careful : AtomicAct → Prop
  | .start ps ddl _ => 2 ≤ (normalized ps).length → ∀ p ∈ normalized ps,
      (w.images p.1).hasApplied w.nextTxn = false ∧ Replayable sq ddl p.2
  | .commitNext answer => answer = .decided true true ∨ answer = .decided true false
  | .recoverShard readable _ => readable = true
  | _ => True

instance (a : AtomicAct) : Decidable (w.Careful sq a) := by
  unfold Careful
  split <;> infer_instance

variable {sq w} {f : InFlight} {p : ShardId × List Statement} {s : ShardId} {img : Image D}

/-! ## While serving -/
variable {failed admitted ok : Bool} {txn : Option InFlight} {statements : List Statement}
    {ps : Participants}

theorem Ready.parked_ne (h : w.Ready sq f p) : w.parked p.1 ≠ none := by
  obtain ⟨img, hpark, -⟩ := h
  rw [hpark]
  exact nofun

theorem Ready.setImage (h : w.Ready sq f p) (hne : p.1 ≠ s) : (w.setImage s img).Ready sq f p := by
  obtain ⟨img', hpark, hprep⟩ := h
  refine ⟨img', hpark, ?_⟩
  rw [images_setImage, update_of_ne hne]
  exact hprep

theorem Ready.park (h : w.Ready sq f p) (hne : p.1 ≠ s) {held : Option (Image D)} :
    (w.park s held).Ready sq f p := by
  obtain ⟨img', hpark, hprep⟩ := h
  refine ⟨img', ?_, hprep⟩
  rw [parked_park, update_of_ne hne]
  exact hpark

theorem StageInv.applied_of_free {todo : List ShardId}
    (h : w.StageInv sq f (.committing todo failed)) (hfree : w.parked s = none)
    (hs : s ∈ f.shards) : f.tag ∈ w.applied s := by
  obtain ⟨hset, -, committed, rest, hsplit, -, hmarked, hready⟩ := h
  obtain ⟨p, hp, rfl⟩ := List.mem_map.1 hs
  rw [hsplit, List.mem_append] at hp
  rcases hp with hp | hp
  · have hok := (hset.logged _ _ (hset.redo _ rfl).1).2
    exact hok.marked p.1 (f.shards_record ▸ hs) (hmarked p hp)
  · exact absurd hfree (hready p hp).parked_ne

theorem Inv.setImage (h : w.PhaseInv sq (.serving txn))
    (hfree : w.parked s = none) (hmark : ∀ k, img.hasApplied k = (w.images s).hasApplied k) :
    (w.setImage s img).PhaseInv sq (.serving txn) := by
  have hsame : ∀ s' k, ((w.setImage s img).images s').hasApplied k = (w.images s').hasApplied k := by
    intro s' k
    rw [images_setImage, update_apply]
    split_ifs with heq
    · rw [heq, hmark]
    · rfl
  -- a participant that holds a transaction open is not the shard written
  have hready : ∀ {f p}, w.Ready sq f p → (w.setImage s img).Ready sq f p := fun hr =>
    hr.setImage fun heq => hr.parked_ne (heq ▸ hfree)
  cases txn with
  | none => exact Settles.write h hmark nofun
  | some f =>
    obtain ⟨hstart, hstage⟩ := h
    refine ⟨⟨hstart.txn, hstart.replay⟩, ?_⟩
    cases hf : f.stage with
    | preparing todo =>
      rw [hf] at hstage
      obtain ⟨hset, hun, voted, hsplit, hnodup, hvoted⟩ := hstage
      exact ⟨hset.write hmark nofun, fun s' hs' => (hsame s' _).trans (hun s' hs'), voted, hsplit,
        hnodup, fun p hp => hready (hvoted p hp)⟩
    | recording =>
      rw [hf] at hstage
      obtain ⟨hset, hun, hnodup, hvoted⟩ := hstage
      exact ⟨hset.write hmark nofun, fun s' hs' => (hsame s' _).trans (hun s' hs'), hnodup,
        fun p hp => hready (hvoted p hp)⟩
    | committing todo failed =>
      rw [hf] at hstage
      have happ := hstage.applied_of_free hfree
      obtain ⟨hset, hnodup, committed, rest, hsplit, htodo, hmarked, hrest⟩ := hstage
      refine ⟨hset.write hmark ?_, hnodup, committed, rest, hsplit, htodo,
        fun p hp => (hsame p.1 _).trans (hmarked p hp), fun p hp => hready (hrest p hp)⟩
      intro r hr hmem
      cases hr
      exact happ (f.shards_record ▸ hmem)
    | removing =>
      rw [hf] at hstage
      exact ⟨hstage.1.write hmark nofun, hstage.2⟩
    | aborting todo =>
      rw [hf] at hstage
      exact Settles.write hstage hmark nofun

theorem Inv.write (h : w.Inv sq) (hphase : w.phase = .serving txn) :
    (w.write sq s statements admitted).Inv sq := by
  unfold AtomicNode.write
  split_ifs with hopen
  · split
    · next img himg =>
        have hw : w.PhaseInv sq (.serving txn) := hphase ▸ h
        show (w.setImage s img).PhaseInv sq w.phase
        rw [hphase]
        exact Inv.setImage hw hopen.2 fun k => Image.hasApplied_applyAtomicGroup himg
    · exact h
  · exact h

theorem ne_nil_of_mem_normalized (h : p ∈ normalized ps) : p.2 ≠ [] := by
  have hne := (List.mem_filter.1 h).2
  simpa using hne

theorem Inv.startTxn {ddl : Bool} (h : w.Settled sq none)
    (hphase : w.phase = .serving none) (hc : w.Careful sq (.start ps ddl admitted)) :
    (w.startTxn sq ps ddl admitted).Inv sq := by
  have hne : ∀ p ∈ normalized ps, p.2 ≠ [] := fun p => ne_nil_of_mem_normalized
  unfold AtomicNode.startTxn Inv
  simp only [Careful] at hc
  generalize normalized ps = qs at hc hne ⊢
  match qs with
  | [] =>
    show w.PhaseInv sq w.phase
    rw [hphase]
    exact h
  | [(s, statements)] =>
    have hstart := h.start [s]
    simp only
    split_ifs with hopen
    · split
      · next img himg =>
          rw [AtomicNode.apply, AtomicNode.setImage]
          simp only [hphase]
          exact hstart.applyOnly List.mem_cons_self fun k => Image.hasApplied_applyAlone himg
      · simp only [hphase]
        exact hstart
    · simp only [hphase]
      exact hstart
  | p :: q :: qs =>
    have hc := hc (by simp)
    refine ⟨⟨List.mem_cons_self, fun p' hp' => ⟨hne p' hp', (hc p' hp').2⟩⟩,
      h.start _, ?_, [], rfl, List.nodup_nil, nofun⟩
    intro s hs
    obtain ⟨p', hp', rfl⟩ := List.mem_map.1 hs
    exact (hc p' hp').1

theorem Inv.prepareNext (h : w.Inv sq) (hphase : w.phase = .serving (some f)) :
    (w.prepareNext sq f admitted).Inv sq := by
  have hw := h
  rw [Inv, hphase] at h
  obtain ⟨hstart, hstage⟩ := h
  unfold AtomicNode.prepareNext
  split
  · next hf =>
      -- every vote is in
      rw [hf] at hstage
      obtain ⟨hset, hun, voted, hsplit, hnodup, hvoted⟩ := hstage
      rw [List.append_nil] at hsplit
      subst hsplit
      exact ⟨⟨hstart.txn, hstart.replay⟩, hset, hun, hnodup, hvoted⟩
  · next s statements todo hf =>
      rw [hf] at hstage
      obtain ⟨hset, hun, voted, hsplit, hnodup, hvoted⟩ := hstage
      have habort : (w.stage f (.aborting f.shards)).Inv sq :=
        ⟨⟨hstart.txn, hstart.replay⟩, hset⟩
      split_ifs with hopen
      · split
        · next img himg =>
            refine ⟨⟨hstart.txn, hstart.replay⟩, hset, hun, voted ++ [(s, statements)], ?_, ?_, ?_⟩
            · rw [hsplit, List.append_assoc]
              rfl
            · -- a shard named twice finds its first transaction still open
              have hnew : s ∉ voted.map Prod.fst := by
                intro hmem
                obtain ⟨p, hp, rfl⟩ := List.mem_map.1 hmem
                exact (hvoted p hp).parked_ne hopen.2
              rw [List.map_append, List.nodup_append]
              refine ⟨hnodup, List.nodup_singleton _, ?_⟩
              intro x hx y hy hxy
              rw [List.map_singleton, List.mem_singleton] at hy
              have hxs : x = s := hxy.trans hy
              exact hnew (hxs ▸ hx)
            · intro p hp
              rcases List.mem_append.1 hp with hp | hp
              · have hne : p.1 ≠ s := fun heq => (hvoted p hp).parked_ne (heq ▸ hopen.2)
                exact (hvoted p hp).park hne
              · rw [List.mem_singleton] at hp
                subst hp
                exact ⟨img, update_self .., himg⟩
        · exact habort
      · exact habort
  · exact hw

theorem find?_participants (hnodup : f.shards.Nodup) (hp : p ∈ f.participants) :
    f.participants.find? (·.1 = p.1) = some p := by
  rw [InFlight.shards] at hnodup
  generalize f.participants = ps at hp hnodup
  induction ps with
  | nil => cases hp
  | cons q ps ih =>
    rw [List.map_cons, List.nodup_cons] at hnodup
    rcases List.mem_cons.1 hp with rfl | hp
    · exact List.find?_cons_of_pos (by simp)
    · have hne : q.1 ≠ p.1 := fun heq => hnodup.1 (heq ▸ List.mem_map_of_mem hp)
      rw [List.find?_cons_of_neg (by simpa using hne)]
      exact ih hp hnodup.2

theorem find?_record (hnodup : f.shards.Nodup) (hp : p ∈ f.participants) :
    f.record.participants.find? (·.1 = p.1) = some (p.1, p.2.map (·.sql)) := by
  rw [InFlight.record, List.find?_map]
  exact congrArg (Option.map _) (find?_participants hnodup hp)

theorem statementsFor_record (hnodup : f.shards.Nodup) (hp : p ∈ f.participants)
    (hr : Replayable sq f.ddl p.2) : f.record.statementsFor p.1 = some p.2 := by
  rw [TxnRecord.statementsFor, find?_record hnodup hp, Option.map_some, hr.map_new_sql]

theorem Ready.redo (h : w.Ready sq f p) (hstart : w.Started sq f) (hnodup : f.shards.Nodup)
    (hp : p ∈ f.participants) : Redo sq w.images w.applied f.logged p.1 := by
  obtain ⟨img, -, hprep⟩ := h
  obtain ⟨hne, hreplay⟩ := hstart.replay p hp
  obtain ⟨img', himg'⟩ := hreplay.applyAlone hprep
  exact .inr ⟨p.2, img', statementsFor_record hnodup hp hreplay, hne, himg'⟩

theorem Inv.putRecord (h : w.Inv sq) (hphase : w.phase = .serving (some f)) :
    (w.putRecord f ok).Inv sq := by
  have hw := h
  rw [Inv, hphase] at h
  obtain ⟨hstart, hstage⟩ := h
  unfold AtomicNode.putRecord
  split
  · next hf =>
      rw [hf] at hstage
      obtain ⟨hset, hun, hnodup, hvoted⟩ := hstage
      split_ifs
      · refine ⟨⟨hstart.txn, hstart.replay⟩, ?_, hnodup, [], f.participants, rfl, rfl, nofun, hvoted⟩
        refine hset.put (r := f.logged) ⟨rfl, ?_, ?_, ?_⟩ ?_
        · show ⟨f.tag, f.record.shards⟩ ∈ w.history
          rw [f.shards_record]
          exact hstart.txn
        all_goals
          intro s hs
          have hs : s ∈ f.shards := f.shards_record ▸ hs
        · obtain ⟨p, hp, rfl⟩ := List.mem_map.1 hs
          obtain ⟨hne, hreplay⟩ := hstart.replay p hp
          exact ⟨p.2, statementsFor_record hnodup hp hreplay, hne⟩
        · intro hm
          exact absurd (hm.symm.trans (hun s hs)) nofun
        · obtain ⟨p, hp, rfl⟩ := List.mem_map.1 hs
          exact (hvoted p hp).redo hstart hnodup hp
      · exact hset
  · exact hw

theorem StageInv.settled_of_done (h : w.StageInv sq f (.committing [] failed)) :
    w.Settled sq none ∧ w.records.get? f.id = some f.logged := by
  obtain ⟨hset, -, committed, rest, hsplit, hrest, hmarked, -⟩ := h
  rw [List.map_eq_nil_iff.1 hrest.symm, List.append_nil] at hsplit
  subst hsplit
  refine ⟨hset.finish fun s hs => ?_, (hset.redo _ rfl).1⟩
  rw [show f.logged.record = f.record from rfl, f.shards_record] at hs
  obtain ⟨p, hp, rfl⟩ := List.mem_map.1 hs
  exact hmarked p hp

theorem Inv.commitNext {shipped : Bool} (h : w.Inv sq) (hphase : w.phase = .serving (some f)) :
    (w.commitNext f (.decided true shipped)).Inv sq := by
  have hw := h
  rw [Inv, hphase] at h
  obtain ⟨hstart, hstage⟩ := h
  unfold AtomicNode.commitNext
  split
  · next failed hf =>
      rw [hf] at hstage
      obtain ⟨hset, hget⟩ := hstage.settled_of_done
      split_ifs
      · exact hset
      · exact ⟨⟨hstart.txn, hstart.replay⟩, hset, hget⟩
  · next s todo failed hf =>
      rw [hf] at hstage
      obtain ⟨hset, hnodup, committed, rest, hsplit, hrest, hmarked, hready⟩ := hstage
      obtain ⟨p, rest, rfl, rfl, rfl⟩ := List.map_eq_cons_iff.1 hrest.symm
      obtain ⟨img, hpark, hprep⟩ := hready p List.mem_cons_self
      obtain ⟨-, himg⟩ := Image.prepareGroup_eq_some hprep
      -- the participants are distinct, so the others are left as they are
      have hdistinct := hnodup
      rw [InFlight.shards, hsplit, List.map_append, List.map_cons, List.nodup_middle,
        List.nodup_cons, ← List.map_append] at hdistinct
      have hother : ∀ q ∈ committed ++ rest, q.1 ≠ p.1 := fun q hq heq =>
        hdistinct.1 (heq ▸ List.mem_map_of_mem hq)
      have hp : p.1 ∈ f.logged.record.shards := by
        rw [show f.logged.record = f.record from rfl, f.shards_record, InFlight.shards, hsplit]
        simp
      rw [hpark]
      refine ⟨⟨hstart.txn, hstart.replay⟩, ?_, hnodup, committed ++ [p], rest, ?_, rfl, ?_, ?_⟩
      · refine hset.touch (r := f.logged) hp List.mem_cons_self (List.subset_cons_self _ _) ?_ ?_ ?_
        · exact fun t ht => (List.mem_cons.1 ht).symm
        · exact fun k hk => (himg k).2 (.inl hk)
        · exact fun k hk => (himg k).1 hk
      · rw [hsplit, List.append_assoc]
        rfl
      · intro q hq
        rcases List.mem_append.1 hq with hq | hq
        · have hne := hother q (List.mem_append_left _ hq)
          show ((update w.images p.1 img) q.1).hasApplied f.id = true
          rw [update_of_ne hne]
          exact hmarked q hq
        · rw [List.mem_singleton] at hq
          subst hq
          show ((update w.images q.1 img) q.1).hasApplied f.id = true
          rw [update_self]
          exact (himg _).2 (.inr rfl)
      · intro q hq
        have hne := hother q (List.mem_append_right _ hq)
        exact ((hready q (List.mem_cons_of_mem _ hq)).park hne).setImage (w := w.park p.1 none) hne
  · exact hw

theorem Inv.removeRecord (h : w.Inv sq) (hphase : w.phase = .serving (some f)) :
    (w.removeRecord f ok).Inv sq := by
  have hw := h
  rw [Inv, hphase] at h
  unfold AtomicNode.removeRecord
  split
  · next hf =>
      obtain ⟨-, hstage⟩ := h
      rw [hf] at hstage
      obtain ⟨hset, hget⟩ := hstage
      cases ok with
      | false => exact hset
      | true =>
        have hok := (hset.logged _ _ hget).2
        obtain ⟨pending, hleft, hcase⟩ := hset.remove hget fun s hs =>
          hok.marked s hs (hset.complete _ _ hget nofun s hs)
        obtain rfl : pending = none := hcase.elim id And.left
        exact hleft
  · exact hw

theorem Inv.abortNext (h : w.Inv sq) (hphase : w.phase = .serving (some f)) :
    (w.abortNext f admitted).Inv sq := by
  have hw := h
  rw [Inv, hphase] at h
  obtain ⟨hstart, hstage⟩ := h
  unfold AtomicNode.abortNext
  split
  · next hf =>
      rw [hf] at hstage
      exact hstage
  · next s todo hf =>
      rw [hf] at hstage
      split_ifs <;> exact ⟨⟨hstart.txn, hstart.replay⟩, hstage⟩
  · exact hw

/-! ## Crash and recovery -/

theorem Inv.settled (h : w.Inv sq) : ∃ pending, w.Settled sq pending := by
  unfold Inv at h
  match w.phase, h with
  | .down, h => exact h
  | .recovering .., ⟨pending, h⟩ => exact ⟨pending, h.settled⟩
  | .marking .., h => exact ⟨_, h.1.settled⟩
  | .serving none, h => exact ⟨none, h⟩
  | .serving (some f), ⟨_, h⟩ =>
    match f.stage, h with
    | .preparing _, h => exact ⟨_, h.1⟩
    | .recording, h => exact ⟨_, h.1⟩
    | .committing _ _, h => exact ⟨_, h.1⟩
    | .removing, h => exact ⟨_, h.1⟩
    | .aborting _, h => exact ⟨_, h⟩

theorem Inv.resolve {rs : List Logged} {pending : Option Logged} (hset : w.Settled sq pending)
    (hlisted : ∀ r ∈ rs, w.records.get? r.record.id = some r)
    (hdistinct : (rs.map fun r => r.record.id).Nodup) (hahead : ∀ r, pending = some r → r ∈ rs) :
    w.PhaseInv sq (.resolve rs) := by
  cases rs with
  | nil =>
    cases pending with
    | none => exact hset
    | some r => exact absurd (hahead r rfl) List.not_mem_nil
  | cons r rest =>
    have hok := (hset.logged _ _ (hlisted r List.mem_cons_self)).2
    rw [Phase.resolve, hok.decision]
    exact ⟨pending, hset, hlisted, hdistinct, hahead, List.Subset.refl _,
      fun s hs hs' => absurd hs hs'⟩

theorem records_listed {records : OrdMap Nat Logged}
    (hid : ∀ k r, records.get? k = some r → r.record.id = k) :
    (∀ r ∈ records.values, records.get? r.record.id = some r) ∧
      (records.values.map fun r => r.record.id).Nodup := by
  constructor
  · intro r hr
    obtain ⟨k, hk⟩ := OrdMap.mem_values.1 hr
    rw [hid k r hk]
    exact hk
  · have hkeys : (records.values.map fun r => r.record.id) = records.keys := by
      rw [OrdMap.values, OrdMap.keys, List.map_map]
      exact List.map_congr_left ((records.forall_entries fun k r => r.record.id = k).2 hid)
    rw [hkeys, OrdMap.keys, List.Nodup, List.pairwise_map]
    exact records.sorted.imp fun hlt => hlt.ne

theorem Inv.restart (h : w.Inv sq) (hphase : w.phase = .down) :
    w.restart.Inv sq := by
  rw [Inv, hphase] at h
  obtain ⟨pending, hset⟩ := h
  obtain ⟨hlisted, hdistinct⟩ := records_listed fun k r hr => (hset.logged k r hr).1
  refine Inv.resolve (w := { w with nextTxn := _, phase := _ }) hset hlisted hdistinct ?_
  intro r hr
  exact OrdMap.mem_values_of_get? (hset.redo r hr).1

section Recovery

variable {r : Logged} {todo : List ShardId} {rest : List Logged} {pending : Option Logged}

theorem Resolves.reapply (h : w.Resolves sq r (s :: todo) rest (some r))
    (hst : r.record.statementsFor s = some statements) :
    (w.reapply sq r s statements todo rest).Inv sq := by
  have hs : s ∈ r.record.shards := h.within List.mem_cons_self
  obtain ⟨hget, hredo⟩ := h.settled.redo r rfl
  obtain ⟨statements', hst', hne⟩ := (h.settled.logged _ _ hget).2.statements s hs
  cases hst'.symm.trans hst
  rw [AtomicNode.reapply, if_neg hne]
  split
  · next img himg =>
      have hsame : ∀ k, img.hasApplied k = (w.images s).hasApplied k := fun k =>
        Image.hasApplied_applyAlone himg
      have hkeep : ∀ k, (w.images s).hasApplied k = true → img.hasApplied k = true :=
        fun k hk => (hsame k).trans hk
      have htouch := h.touch hs (List.mem_cons_self (a := r.tag)) (List.subset_cons_self _ _)
        (fun t ht => (List.mem_cons.1 ht).symm) hkeep fun k hk => .inl ((hsame k).symm.trans hk)
      have happ : r.tag ∈ (update w.applied s (r.tag :: w.applied s)) s := by
        rw [update_self]
        exact List.mem_cons_self
      exact ⟨htouch.tail happ, hs, happ⟩
  · next hrefused =>
      split_ifs
      · exact ⟨_, h.settled⟩
      · -- only a file that has the transaction already refuses it
        have happ : r.tag ∈ w.applied s := by
          rcases hredo s hs with happ | ⟨statements', img, hst', -, himg⟩
          · exact happ
          · cases hst'.symm.trans hst
            exact absurd (himg.symm.trans hrefused) nofun
        exact ⟨h.tail happ, hs, happ⟩

theorem Inv.recoverShard (h : w.Inv sq) (hphase : w.phase = .recovering r (s :: todo) rest) :
    (w.recoverShard sq r s todo rest true admitted).Inv sq := by
  rw [Inv, hphase] at h
  obtain ⟨pending, h⟩ := h
  simp only [AtomicNode.recoverShard, true_and]
  have hget := h.listed r List.mem_cons_self
  have hs : s ∈ r.record.shards := h.within List.mem_cons_self
  have hok := (h.settled.logged _ _ hget).2
  by_cases hm : (w.images s).hasApplied r.record.id = true
  · rw [if_pos hm]
    exact ⟨pending, h.tail (hok.marked s hs hm)⟩
  · -- a shard without its marker belongs to the pending record
    obtain rfl : pending = some r := by
      by_contra hne
      exact hm (h.settled.complete _ _ hget hne s hs)
    obtain ⟨statements, hst, -⟩ := hok.statements s hs
    rw [if_neg hm, hst]
    cases admitted with
    | true => exact Resolves.reapply h hst
    | false => exact ⟨_, h.settled⟩

theorem Inv.recoverMark (h : w.Inv sq) (hphase : w.phase = .marking r s todo rest) :
    (w.recoverMark r s todo rest admitted).Inv sq := by
  rw [Inv, hphase] at h
  obtain ⟨h, hs, happ⟩ := h
  unfold AtomicNode.recoverMark
  split_ifs
  · have hkeep : ∀ k, (w.images s).hasApplied k = true →
        ((w.images s).mark r.record.id).hasApplied k = true :=
      fun k hk => Image.hasApplied_mark.2 (.inl hk)
    have htouch := h.touch hs happ (List.Subset.refl _) (fun t => .inl) hkeep
      fun k hk => (Image.hasApplied_mark.1 hk).imp_right And.left
    rw [update_eq_self] at htouch
    exact ⟨_, htouch⟩
  · exact ⟨_, h.settled⟩

theorem Inv.recoverRemove (h : w.Inv sq) (hphase : w.phase = .recovering r [] rest) :
    (w.recoverRemove r rest ok).Inv sq := by
  rw [Inv, hphase] at h
  obtain ⟨pending, h⟩ := h
  unfold AtomicNode.recoverRemove
  split_ifs
  · obtain ⟨hnew, hdistinct⟩ := List.nodup_cons.1 h.distinct
    obtain ⟨pending', hset, hcase⟩ := h.settled.remove (h.listed r List.mem_cons_self)
      fun s hs => h.done s hs List.not_mem_nil
    refine Inv.resolve (w := { w with records := _, phase := _ }) hset ?_ hdistinct ?_
    · intro r' hr'
      show (w.records.erase r.record.id).get? r'.record.id = some r'
      rw [OrdMap.get?_erase, if_neg]
      · exact h.listed r' (List.mem_cons_of_mem _ hr')
      · exact fun heq => hnew (List.mem_map.2 ⟨r', hr', heq⟩)
    · intro r' hr'
      rcases hcase with rfl | ⟨rfl, hne⟩
      · exact absurd hr' nofun
      · refine (List.mem_cons.1 (h.ahead r' hr')).resolve_left fun heq => ?_
        exact hne (heq ▸ hr')
  · exact ⟨_, h.settled⟩

end Recovery

/-! ## Whole runs -/

theorem Inv.step (h : w.Inv sq) {a : AtomicAct} (hc : w.Careful sq a) : (w.step sq a).Inv sq := by
  unfold AtomicNode.step
  split
  · next hphase => exact h.write hphase
  · next hphase =>
      rw [Inv, hphase] at h
      exact Inv.startTxn h hphase hc
  · next hphase => exact h.prepareNext hphase
  · next hphase => exact h.putRecord hphase
  · next hphase => rcases hc with rfl | rfl <;> exact h.commitNext hphase
  · next hphase => exact h.removeRecord hphase
  · next hphase => exact h.abortNext hphase
  · exact h.settled
  · next hphase => exact h.restart hphase
  · next hphase =>
      obtain rfl := hc
      exact h.recoverShard hphase
  · next hphase => exact h.recoverMark hphase
  · next hphase => exact h.recoverRemove hphase
  · exact h

theorem inv_init (db : D) : (init db).Inv sq :=
  show Settles sq _ _ _ _ _ from
    ⟨nofun, nofun, nofun, nofun, nofun, nofun, nofun⟩

def appending : Sqlite (List String) where
  run db statement := some (db ++ [statement.sql])
  batch db sql := some (db ++ [sql])
  single _ := true
  batch_eq _ _ _ := rfl

def bothShards : AtomicAct := .start [(0, [.new "UPDATE a"]), (1, [.new "UPDATE b"])] false true

def prepared : List AtomicAct :=
  [bothShards, .prepareNext true, .prepareNext true, .prepareNext true, .putRecord true]

def commit : AtomicAct := .commitNext (.decided true true)

/-- The process dies with one shard committed; recovery applies the other. -/
def diesCommitting : List AtomicAct :=
  prepared ++ [commit, .crash, .restart, .recoverShard true true, .recoverShard true true,
    .recoverMark true, .recoverRemove true]

/-- The first transaction runs to its end.  After a restart the second takes the
    same id, dies with one shard committed, and recovery finds the first one's
    marker on the other. -/
def reusedId : List AtomicAct :=
  prepared ++ [commit, commit, commit, .removeRecord true, .crash, .restart] ++
    prepared ++ [commit, .crash, .restart, .recoverShard true true, .recoverShard true true,
      .recoverRemove true]

end AtomicNode

end Shardlite.Shard
