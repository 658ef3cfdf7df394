/-
  Shardlite.Shard.AtomicDisk

  What the database files and the record files together say about transactions
  over several shards, and how each move of the commit and of its recovery
  changes that.  `Settles` is the statement: every transaction is applied on all
  its shards or on none, except the one whose record is pending, and that one the
  shards can still take.
-/
import Shardlite.Shard.Atomic

namespace Shardlite.Shard

open Storage Function

section Settled

variable {D : Type} (sq : Sqlite D) (images : ShardId → Image D) (applied : ShardId → List Nat)
  (records : OrdMap Nat Logged) (history : List Txn)

/-! ## What the disk says -/

/-- All shards of the transaction have it, or none has. -/
def AllOrNone (T : Txn) : Prop :=
  (∀ s ∈ T.shards, T.tag ∈ applied s) ∨ ∀ s ∈ T.shards, T.tag ∉ applied s

instance (T : Txn) : Decidable (AllOrNone applied T) := inferInstanceAs (Decidable (_ ∨ _))

/-- Resolving the record leaves its transaction applied on `s`: it is applied
    already, or the file would take it. -/
def Redo (r : Logged) (s : ShardId) : Prop :=
  r.tag ∈ applied s ∨ ∃ statements img, r.record.statementsFor s = some statements ∧
    statements ≠ [] ∧ (images s).applyAlone sq statements r.record.ddl = some img

structure RecordOk (r : Logged) : Prop where
  decision : r.record.decision = some .commit
  txn : ⟨r.tag, r.record.shards⟩ ∈ history
  statements : ∀ s ∈ r.record.shards, ∃ statements, r.record.statementsFor s = some statements ∧
    statements ≠ []
  /-- The marker on a participant is this transaction's own. -/
  marked : ∀ s ∈ r.record.shards, (images s).hasApplied r.record.id = true → r.tag ∈ applied s

/-- Every transaction is applied on all its shards or on none, except the one of
    the record `pending`; every other record left behind is fully marked. -/
structure Settles (pending : Option Logged) : Prop where
  tags : ∀ T ∈ history, T.tag < history.length
  unique : ∀ T ∈ history, ∀ T' ∈ history, T.tag = T'.tag → T = T'
  used : ∀ s, ∀ t ∈ applied s, t < history.length
  logged : ∀ k r, records.get? k = some r → r.record.id = k ∧ RecordOk images applied history r
  complete : ∀ k r, records.get? k = some r → pending ≠ some r →
    ∀ s ∈ r.record.shards, (images s).hasApplied r.record.id = true
  redo : ∀ r, pending = some r → records.get? r.record.id = some r ∧
    ∀ s ∈ r.record.shards, Redo sq images applied r s
  resolved : ∀ T ∈ history, (∀ r, pending = some r → T.tag ≠ r.tag) → AllOrNone applied T

/-- Recovery has come to the shards `todo` of the record `current`. -/
structure Resolving (current : Logged) (todo : List ShardId) (rest : List Logged)
    (pending : Option Logged) : Prop where
  settled : Settles sq images applied records history pending
  listed : ∀ r ∈ current :: rest, records.get? r.record.id = some r
  distinct : ((current :: rest).map fun r => r.record.id).Nodup
  ahead : ∀ r, pending = some r → r ∈ current :: rest
  within : todo ⊆ current.record.shards
  done : ∀ s ∈ current.record.shards, s ∉ todo → current.tag ∈ applied s

end Settled

namespace Image

variable {D : Type} {sq : Sqlite D} {img img' : Image D} {id k : Nat} {statements : List Statement}
  {ddl : Bool}

theorem hasApplied_mark : (img.mark id).hasApplied k = true ↔
    img.hasApplied k = true ∨ k = id ∧ img.markers.isSome = true := by
  cases hm : img.markers with
  | none => simp [hasApplied, mark, hm]
  | some ids =>
    simp only [hasApplied, mark, hm, Option.map_some, Option.getD_some, Option.isSome_some,
      and_true, decide_eq_true_eq]
    split_ifs with hid
    · constructor
      · exact .inl
      · rintro (h | rfl)
        · exact h
        · exact hid
    · rw [List.mem_cons, or_comm]

theorem prepareGroup_eq_some (h : img.prepareGroup sq id statements ddl = some img') :
    (∃ db, sq.runAll img.db statements = some db) ∧
      ∀ k, img'.hasApplied k = true ↔ img.hasApplied k = true ∨ k = id := by
  unfold prepareGroup at h
  obtain ⟨db, hdb, h⟩ := Option.bind_eq_some_iff.1 h
  cases h
  refine ⟨⟨db, hdb⟩, fun k => ?_⟩
  rw [hasApplied_mark]
  simp [hasApplied]

theorem hasApplied_applyAtomicGroup (h : img.applyAtomicGroup sq statements = some img') :
    img'.hasApplied k = img.hasApplied k := by
  unfold applyAtomicGroup at h
  obtain ⟨db, -, h⟩ := Option.bind_eq_some_iff.1 h
  cases h
  rfl

theorem hasApplied_applyAlone (h : img.applyAlone sq statements ddl = some img') :
    img'.hasApplied k = img.hasApplied k := by
  unfold applyAlone at h
  split_ifs at h
  · obtain ⟨sql, -, h⟩ := Option.bind_eq_some_iff.1 h
    unfold schemaOp at h
    obtain ⟨db, -, h⟩ := Option.bind_eq_some_iff.1 h
    cases h
    rfl
  · exact hasApplied_applyAtomicGroup h

end Image

/-! ## How the disk moves -/

section Moves

variable {D : Type} {sq : Sqlite D} {images : ShardId → Image D} {applied : ShardId → List Nat}
  {records : OrdMap Nat Logged} {history : List Txn} {pending : Option Logged} {s : ShardId}
  {img : Image D}
variable {ts : List Nat}

theorem AllOrNone.congr {applied' : ShardId → List Nat} {T : Txn} (h : AllOrNone applied T)
    (hsame : ∀ s ∈ T.shards, T.tag ∈ applied' s ↔ T.tag ∈ applied s) : AllOrNone applied' T :=
  h.imp (fun hall s hs => (hsame s hs).2 (hall s hs)) fun hnone s hs hin =>
    hnone s hs ((hsame s hs).1 hin)

/-- A write that leaves the markers alone, on a shard the pending record does not
    need any more. -/
theorem Settles.write (hs : Settles sq images applied records history pending)
    (hmark : ∀ k, img.hasApplied k = (images s).hasApplied k)
    (hfree : ∀ r, pending = some r → s ∈ r.record.shards → r.tag ∈ applied s) :
    Settles sq (update images s img) applied records history pending := by
  have hsame : ∀ s' k, ((update images s img) s').hasApplied k =
      (images s').hasApplied k := by
    intro s' k
    rw [update_apply]
    split_ifs with h
    · rw [h, hmark]
    · rfl
  refine ⟨hs.tags, hs.unique, hs.used, ?_, ?_, ?_, hs.resolved⟩
  · intro k r hr
    obtain ⟨hid, hok⟩ := hs.logged k r hr
    refine ⟨hid, hok.decision, hok.txn, hok.statements, fun s' hs' hm => ?_⟩
    rw [hsame] at hm
    exact hok.marked s' hs' hm
  · intro k r hr hne s' hs'
    rw [hsame]
    exact hs.complete k r hr hne s' hs'
  · intro r hr
    obtain ⟨hget, hredo⟩ := hs.redo r hr
    refine ⟨hget, fun s' hs' => ?_⟩
    by_cases h : s' = s
    · subst h
      exact .inl (hfree r hr hs')
    · rw [Redo, update_of_ne h]
      exact hredo s' hs'

/-- The pending record's shard is applied or marked: its file gains at most the
    record's marker, and its transactions at most the record's. -/
theorem Settles.touch (hs : Settles sq images applied records history (some r))
    (hmem : s ∈ r.record.shards) (hin : r.tag ∈ ts) (hkeep : applied s ⊆ ts)
    (hnew : ∀ t ∈ ts, t ∈ applied s ∨ t = r.tag)
    (hmark : ∀ k, (images s).hasApplied k = true → img.hasApplied k = true)
    (hmark' : ∀ k, img.hasApplied k = true → (images s).hasApplied k = true ∨ k = r.record.id) :
    Settles sq (update images s img) (update applied s ts) records history
      (some r) := by
  obtain ⟨hget, hredo⟩ := hs.redo r rfl
  have htxn := (hs.logged _ r hget).2.txn
  have hkeep' : ∀ s', applied s' ⊆ (update applied s ts) s' := by
    intro s'
    rw [update_apply]
    split_ifs with h
    · exact h ▸ hkeep
    · exact List.Subset.refl _
  have hnew' : ∀ s', ∀ t ∈ (update applied s ts) s', t ∈ applied s' ∨ t = r.tag := by
    intro s' t ht
    rw [update_apply] at ht
    split_ifs at ht with h
    · exact h ▸ hnew t ht
    · exact .inl ht
  refine ⟨hs.tags, hs.unique, ?_, ?_, ?_, ?_, ?_⟩
  · intro s' t ht
    rcases hnew' s' t ht with ht | rfl
    · exact hs.used s' t ht
    · exact hs.tags _ htxn
  · intro k r' hr'
    obtain ⟨hid, hok⟩ := hs.logged k r' hr'
    refine ⟨hid, hok.decision, hok.txn, hok.statements, fun s' hs' hm => ?_⟩
    rw [update_apply] at hm ⊢
    split_ifs at hm ⊢ with h
    · subst h
      -- another record has another id, so this marker was there before
      rcases hmark' _ hm with hm | heq
      · exact hkeep (hok.marked s' hs' hm)
      · have hrr : records.get? r.record.id = some r' := by rw [← heq, hid, hr']
        cases hrr.symm.trans hget
        exact hin
    · exact hok.marked s' hs' hm
  · intro k r' hr' hne s' hs'
    have hm := hs.complete k r' hr' hne s' hs'
    rw [update_apply]
    split_ifs with h
    · exact hmark _ (h ▸ hm)
    · exact hm
  · intro r' hr'
    cases hr'
    refine ⟨hget, fun s' hs' => ?_⟩
    by_cases h : s' = s
    · subst h
      exact .inl (by rw [update_self]; exact hin)
    · rw [Redo, update_of_ne h, update_of_ne h]
      exact hredo s' hs'
  · intro T hT hne
    refine (hs.resolved T hT hne).congr fun s' _ => ⟨fun ht => ?_, fun ht => hkeep' s' ht⟩
    exact (hnew' s' T.tag ht).resolve_right (hne r rfl)

theorem Settles.put (hs : Settles sq images applied records history none)
    (hok : RecordOk images applied history r)
    (hredo : ∀ s ∈ r.record.shards, Redo sq images applied r s) :
    Settles sq images applied (records.insert r.record.id r) history (some r) := by
  refine ⟨hs.tags, hs.unique, hs.used, ?_, ?_, ?_, fun T hT _ => hs.resolved T hT nofun⟩
  · intro k r' hr'
    rw [OrdMap.get?_insert] at hr'
    split_ifs at hr' with hk
    · cases hr'
      exact ⟨hk.symm, hok⟩
    · exact hs.logged k r' hr'
  · intro k r' hr' hne
    rw [OrdMap.get?_insert] at hr'
    split_ifs at hr' with hk
    · exact absurd hr' hne
    · exact hs.complete k r' hr' nofun
  · intro r' hr'
    cases hr'
    exact ⟨by rw [OrdMap.get?_insert, if_pos rfl], hredo⟩

/-- A record whose shards are all marked is pending no more. -/
theorem Settles.finish (hs : Settles sq images applied records history (some r))
    (hall : ∀ s ∈ r.record.shards, (images s).hasApplied r.record.id = true) :
    Settles sq images applied records history none := by
  have hget := (hs.redo r rfl).1
  have hok := (hs.logged _ r hget).2
  refine ⟨hs.tags, hs.unique, hs.used, hs.logged, ?_, nofun, ?_⟩
  · intro k r' hr' _
    by_cases h : r = r'
    · exact h ▸ hall
    · exact hs.complete k r' hr' fun heq => h (Option.some.inj heq)
  · intro T hT _
    by_cases h : T.tag = r.tag
    · -- the transaction of this record, applied wherever it is marked
      obtain rfl := hs.unique T hT _ hok.txn h
      exact .inl fun s hs' => hok.marked s hs' (hall s hs')
    · exact hs.resolved T hT fun r' hr' => by rw [← Option.some.inj hr']; exact h

theorem Settles.remove {k : Nat}
    (hs : Settles sq images applied records history pending) (hr : records.get? k = some r)
    (hall : ∀ s ∈ r.record.shards, r.tag ∈ applied s) :
    ∃ pending', Settles sq images applied (records.erase k) history pending' ∧
      (pending' = none ∨ pending' = pending ∧ pending ≠ some r) := by
  have hleft : ∀ {k' r'}, (records.erase k).get? k' = some r' → k' ≠ k ∧ records.get? k' = some r' := by
    intro k' r' h
    rw [OrdMap.get?_erase] at h
    split_ifs at h with hk
    exact ⟨hk, h⟩
  by_cases hp : pending = some r
  · subst hp
    refine ⟨none, ⟨hs.tags, hs.unique, hs.used, ?_, ?_, nofun, ?_⟩, .inl rfl⟩
    · exact fun k' r' h => hs.logged k' r' (hleft h).2
    · intro k' r' h _ s' hs'
      refine hs.complete k' r' (hleft h).2 (fun heq => ?_) s' hs'
      cases heq
      exact (hleft h).1 ((hs.logged _ _ (hleft h).2).1.symm.trans (hs.logged _ _ hr).1)
    · intro T hT _
      by_cases h : T.tag = r.tag
      · obtain rfl := hs.unique T hT _ (hs.logged k r hr).2.txn h
        exact .inl hall
      · exact hs.resolved T hT fun r' hr' => by rw [← Option.some.inj hr']; exact h
  · refine ⟨pending, ⟨hs.tags, hs.unique, hs.used, ?_, ?_, ?_, hs.resolved⟩, .inr ⟨rfl, hp⟩⟩
    · exact fun k' r' h => hs.logged k' r' (hleft h).2
    · exact fun k' r' h => hs.complete k' r' (hleft h).2
    · intro r' hr'
      obtain ⟨hget, hredo⟩ := hs.redo r' hr'
      refine ⟨?_, hredo⟩
      rw [OrdMap.get?_erase, if_neg]
      · exact hget
      · rintro heq
        rw [heq, hr] at hget
        exact hp (hr'.trans hget.symm)

theorem Settles.start (hs : Settles sq images applied records history pending)
    (shards : List ShardId) :
    Settles sq images applied records (⟨history.length, shards⟩ :: history) pending := by
  refine ⟨?_, ?_, ?_, ?_, hs.complete, hs.redo, ?_⟩
  · intro T hT
    rw [List.length_cons]
    rcases List.mem_cons.1 hT with rfl | hT
    · exact Nat.lt_succ_self _
    · exact Nat.lt_succ_of_lt (hs.tags T hT)
  · intro T hT T' hT' htag
    rcases List.mem_cons.1 hT with rfl | hT <;> rcases List.mem_cons.1 hT' with rfl | hT'
    · rfl
    · have := hs.tags T' hT'
      simp only at htag
      omega
    · have := hs.tags T hT
      simp only at htag
      omega
    · exact hs.unique T hT T' hT' htag
  · intro s' t ht
    rw [List.length_cons]
    exact Nat.lt_succ_of_lt (hs.used s' t ht)
  · intro k r hr
    obtain ⟨hid, hok⟩ := hs.logged k r hr
    exact ⟨hid, hok.decision, List.mem_cons_of_mem _ hok.txn, hok.statements, hok.marked⟩
  · intro T hT hne
    rcases List.mem_cons.1 hT with rfl | hT
    · exact .inr fun s' _ ht => absurd (hs.used s' _ ht) (lt_irrefl _)
    · exact hs.resolved T hT hne

theorem Settles.applyOnly (hs : Settles sq images applied records history none) {t : Nat}
    (hT : ⟨t, [s]⟩ ∈ history) (hmark : ∀ k, img.hasApplied k = (images s).hasApplied k) :
    Settles sq (update images s img) (update applied s (t :: applied s)) records
      history none := by
  have hwrite := hs.write hmark nofun
  have hcases : ∀ s' t', t' ∈ (update applied s (t :: applied s)) s' ↔
      t' ∈ applied s' ∨ s' = s ∧ t' = t := by
    intro s' t'
    rw [update_apply]
    split_ifs with h
    · subst h
      simp [or_comm]
    · simp [h]
  refine ⟨hs.tags, hs.unique, ?_, ?_, hwrite.complete, nofun, ?_⟩
  · intro s' t' ht
    rcases (hcases s' t').1 ht with ht | ⟨-, rfl⟩
    · exact hs.used s' t' ht
    · exact hs.tags _ hT
  · intro k r hr
    obtain ⟨hid, hok⟩ := hwrite.logged k r hr
    exact ⟨hid, hok.decision, hok.txn, hok.statements,
      fun s' hs' hm => (hcases s' _).2 (.inl (hok.marked s' hs' hm))⟩
  · intro T hT' _
    by_cases h : T.tag = t
    · obtain rfl := hs.unique T hT' _ hT h
      refine .inl fun s' hs' => (hcases s' _).2 (.inr ⟨List.mem_singleton.1 hs', h⟩)
    · refine (hs.resolved T hT' nofun).congr fun s' _ => ?_
      rw [hcases]
      simp [h]

/-! ## How recovery moves -/

variable {r : Logged} {todo : List ShardId} {rest : List Logged}

theorem Resolving.tail (h : Resolving sq images applied records history r (s :: todo) rest pending)
    (happ : r.tag ∈ applied s) :
    Resolving sq images applied records history r todo rest pending := by
  refine ⟨h.settled, h.listed, h.distinct, h.ahead, fun s' hs' =>
    h.within (List.mem_cons_of_mem _ hs'), fun s' hs' hnot => ?_⟩
  by_cases heq : s' = s
  · exact heq ▸ happ
  · exact h.done s' hs' fun hmem => (List.mem_cons.1 hmem).elim heq hnot

theorem Resolving.touch (h : Resolving sq images applied records history r todo rest (some r))
    (hs : s ∈ r.record.shards) (hin : r.tag ∈ ts) (hkeep : applied s ⊆ ts)
    (hnew : ∀ t ∈ ts, t ∈ applied s ∨ t = r.tag)
    (hmark : ∀ k, (images s).hasApplied k = true → img.hasApplied k = true)
    (hmark' : ∀ k, img.hasApplied k = true → (images s).hasApplied k = true ∨ k = r.record.id) :
    Resolving sq (update images s img) (update applied s ts) records history r todo
      rest (some r) := by
  refine ⟨h.settled.touch hs hin hkeep hnew hmark hmark', h.listed, h.distinct, h.ahead, h.within,
    fun s' hs' hnot => ?_⟩
  rw [update_apply]
  split_ifs with heq
  · exact hin
  · exact h.done s' hs' hnot

end Moves

end Shardlite.Shard
