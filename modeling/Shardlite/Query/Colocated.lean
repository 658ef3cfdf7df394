/-
  Shardlite.Query.Colocated

  Joins of each shard's rows.  Rows are placed by hashing the bytes of their shard key;
  every shard joins its own rows and the results are put together.

  Nothing is lost or made up if every match is between rows of one key.  The check makes
  sure of that for the first join.  For a later one it looks for some two tables whose
  keys are equated: these need not include the table being joined.
-/
import Shardlite.Query.CheckJoin
import Shardlite.Shard.Routing

namespace Shardlite.Query

section Placement

variable {V : Type} (E : Engine V) (keys : ShardKeys) (bytes : V → List UInt8) (db : Database V)

def keyColumn (table : Text) : Text := ((keys.lookup table).getD []).lower

/-- The key that a row is routed by. -/
def rowKey (table : Text) (row : List V) : List UInt8 :=
  bytes (row.getD ((db table).columns.idxOf (keyColumn keys table)) E.null)

/-- What of the database a shard holds. -/
def onShard (route : List UInt8 → ShardId) (s : ShardId) : Database V := fun table =>
  { db table with
    rows := (db table).rows.filter fun row => route (rowKey E keys bytes db table row) = s }

/-- The bytes a part's row is routed by, if it has a row. -/
def Part.key? (p : Part V) : Option (List UInt8) :=
  p.row.map fun _ => bytes (p.value E (keyColumn keys p.source.table))

/-- Where the newest row of a combination is. -/
def home (route : List UInt8 → ShardId) (parts : List (Part V)) : ShardId :=
  ((parts.findSome? (Part.key? E keys bytes)).map route).getD 0

end Placement

namespace JoinTree

variable (t : JoinTree) (keys : ShardKeys)

/-- The tables up to a join, the newest first. -/
def sources (n : Nat) : List Source := ((t.steps.take n).map (·.source)).reverse ++ [t.base]

/-- The aliases that the check of a join knows. -/
def aliasKeys (n : Nat) : AliasKeys :=
  (t.sources (n + 1)).map fun s => (s.as, keyColumn keys s.table)

end JoinTree

/-- An equation of shard keys, one of them that of the table under this alias. -/
def tiesTable (aliasKey : AliasKeys) (as : Text) : Expr → Bool
  | .binaryOp left .eq right =>
    equatesShardKeys aliasKey (.binaryOp left .eq right) &&
      ((compoundPair left).any (·.1 == as) || (compoundPair right).any (·.1 == as))
  | _ => false

variable {aliasKey : AliasKeys} {e : Expr}

theorem tiesTable_spec {as : Text} (h : tiesTable aliasKey as e = true) :
    ∃ left right x c y d, e = .binaryOp left .eq right ∧ equatesShardKeys aliasKey e = true ∧
      compoundPair left = some (x, c) ∧ compoundPair right = some (y, d) ∧ x ≠ y ∧
      aliasKey.lookup x = some c ∧ aliasKey.lookup y = some d ∧ (x = as ∨ y = as) := by
  unfold tiesTable at h
  split at h
  next left right =>
    obtain ⟨heq, has⟩ := Bool.and_eq_true_iff.1 h
    obtain ⟨_, _, x, c, y, d, he, hl, hr, hne, hx, hy⟩ := equatesShardKeys_spec heq
    cases he
    refine ⟨left, right, x, c, y, d, rfl, heq, hl, hr, hne, hx, hy, ?_⟩
    rw [hl, hr, Option.any_some, Option.any_some] at has
    exact (Bool.or_eq_true_iff.1 has).imp eq_of_beq eq_of_beq
  · cases h

section LosesNoMatch

variable {V : Type} (E : Engine V) (keys : ShardKeys) (bytes : V → List UInt8) (db : Database V)
  (t : JoinTree)

/-- The join's `ON` condition equates the shard key of the table it joins with that of a
    table before it. -/
def Ties (n : Nat) : Prop :=
  ∃ step ∈ t.steps[n]?,
    (andConjuncts step.on).any (tiesTable (t.aliasKeys keys n) step.source.as) = true

/-- The rows that a join's condition brings together have one shard key. -/
def Keyed (n : Nat) : Prop :=
  ∀ step ∈ t.steps[n]?, ∀ parts ∈ (t.joined E db n).rows, ∀ row ∈ (db step.source.table).rows,
    E.holds (partScope E (step.source.part db (some row) :: parts)) step.on = true →
      ∀ p ∈ parts, ∀ k ∈ p.key? E keys bytes, k = rowKey E keys bytes db step.source.table row

/-- However the keys are placed, and after each of the joins, the shards' joins together are
    the join of the whole tables. -/
def LosesNoMatch : Prop :=
  ∀ (count : Nat) (route : List UInt8 → ShardId), (∀ k, route k < count) →
    ∀ n ≤ t.steps.length,
      ((List.range count).flatMap fun s =>
        (t.joined E (onShard E keys bytes db route s) n).rows).Perm (t.joined E db n).rows

end LosesNoMatch

section Proofs

variable {V : Type} {E : Engine V} {keys : ShardKeys} {bytes : V → List UInt8} {db : Database V}
  {t : JoinTree}

/-! ## One join more -/
variable {n : Nat} {step : JoinStep}

theorem joined_succ (h : t.steps[n]? = some step) :
    t.joined E db (n + 1) = JoinStep.run E db (t.joined E db n) step := by
  unfold JoinTree.joined
  rw [List.take_add_one, h, Option.toList_some, List.foldl_append]
  rfl

theorem sources_succ (h : t.steps[n]? = some step) :
    t.sources (n + 1) = step.source :: t.sources n := by
  unfold JoinTree.sources
  rw [List.take_add_one, h, Option.toList_some, List.map_append, List.reverse_append]
  rfl

theorem exists_step (hn : n < t.steps.length) : ∃ step, t.steps[n]? = some step :=
  ⟨t.steps[n], List.getElem?_eq_getElem hn⟩

theorem sources_joined (hn : n ≤ t.steps.length) :
    (t.joined E db n).sources = t.sources n := by
  induction n with
  | zero => rfl
  | succ n ih =>
    obtain ⟨step, hstep⟩ := exists_step hn
    rw [joined_succ hstep, sources_succ hstep, ← ih (Nat.le_of_lt hn)]
    rfl

theorem key?_part (s : Source) (row : List V) :
    (s.part db (some row)).key? E keys bytes = some (rowKey E keys bytes db s.table row) := rfl

variable (E keys bytes) in
/-- What holds of every combination of parts: a part for every table, with its columns, and
    some row. -/
structure Shaped (db : Database V) (sources : List Source) (parts : List (Part V)) : Prop where
  sources : parts.map (·.source) = sources
  columns : ∀ p ∈ parts, p.columns = (db p.source.table).columns
  row : ∃ p ∈ parts, ∃ k, p.key? E keys bytes = some k

variable {sources : List Source} {parts : List (Part V)}

theorem Shaped.cons (h : Shaped E keys bytes db sources parts) (s : Source)
    (row : Option (List V)) :
    Shaped E keys bytes db (s :: sources) (s.part db row :: parts) where
  sources := by rw [List.map_cons, h.sources]; rfl
  columns p hp := by
    rcases List.mem_cons.1 hp with rfl | hp
    · rfl
    · exact h.columns p hp
  row := by
    obtain ⟨p, hp, k, hk⟩ := h.row
    exact ⟨p, List.mem_cons_of_mem _ hp, k, hk⟩

theorem shaped_nulls (s : Source) (row : List V) (sources : List Source) :
    Shaped E keys bytes db (s :: sources) (s.part db (some row) :: sources.map (·.part db none)) where
  sources := by
    rw [List.map_cons, List.map_map, Function.comp_def]
    exact congrArg _ (List.map_id _)
  columns p hp := by
    rcases List.mem_cons.1 hp with rfl | hp
    · rfl
    · obtain ⟨s', -, rfl⟩ := List.mem_map.1 hp
      rfl
  row := ⟨_, List.mem_cons_self, _, key?_part s row⟩

theorem shaped (hn : n ≤ t.steps.length) :
    ∀ parts ∈ (t.joined E db n).rows, Shaped E keys bytes db (t.sources n) parts := by
  induction n with
  | zero =>
    intro parts hparts
    obtain ⟨row, -, rfl⟩ := List.mem_map.1 hparts
    exact shaped_nulls t.base row []
  | succ n ih =>
    obtain ⟨step, hstep⟩ := exists_step hn
    rw [joined_succ hstep, sources_succ hstep]
    have ih := ih (Nat.le_of_lt hn)
    intro parts hparts
    rcases mem_joinOn hparts with ⟨a, ha, row, -, -, rfl⟩ | ⟨a, ha, rfl⟩ | ⟨row, -, rfl⟩
    · exact (ih a ha).cons step.source (some row)
    · exact (ih a ha).cons step.source none
    · rw [sources_joined (Nat.le_of_lt hn)]
      exact shaped_nulls step.source row _

/-! ## Where combinations are -/

section Home

variable {route : List UInt8 → ShardId} {parts : List (Part V)}

theorem home_cons_row (s : Source) (row : List V) :
    home E keys bytes route (s.part db (some row) :: parts) =
      route (rowKey E keys bytes db s.table row) := rfl

theorem home_eq (h : Shaped E keys bytes db sources parts)
    {k : List UInt8} (hk : ∀ p ∈ parts, ∀ k' ∈ p.key? E keys bytes, k' = k) :
    home E keys bytes route parts = route k := by
  obtain ⟨p, hp, k', hk'⟩ := h.row
  have hsome : (parts.findSome? (Part.key? E keys bytes)).isSome := by
    rw [List.findSome?_isSome_iff]
    exact ⟨p, hp, by rw [hk']; rfl⟩
  obtain ⟨k'', hk''⟩ := Option.isSome_iff_exists.1 hsome
  obtain ⟨q, hq, hqk⟩ := List.exists_of_findSome?_eq_some hk''
  obtain rfl := hk q hq k'' hqk
  unfold home
  rw [hk'']
  rfl

theorem home_lt {count : Nat} (hcount : ∀ k, route k < count) :
    home E keys bytes route parts < count := by
  unfold home
  cases parts.findSome? (Part.key? E keys bytes) with
  | none => exact Nat.zero_lt_of_lt (hcount [])
  | some k => exact hcount k

end Home

variable {route : List UInt8 → ShardId} {scope : List Text → V} {x c : Text}

/-- What a shard's own join returns is what of the whole join is at the shard. -/
theorem rows_onShard (s : ShardId) (hn : n ≤ t.steps.length)
    (hkeyed : ∀ m < n, Keyed E keys bytes db t m) :
    (t.joined E (onShard E keys bytes db route s) n).rows =
      (t.joined E db n).rows.filter fun parts => home E keys bytes route parts = s := by
  induction n with
  | zero =>
    show ((onShard E keys bytes db route s t.base.table).rows.map _) = _
    rw [show (t.joined E db 0).rows = (db t.base.table).rows.map
      fun row => [t.base.part db (some row)] from rfl, List.filter_map]
    rfl
  | succ n ih =>
    obtain ⟨step, hstep⟩ := exists_step hn
    have hle := Nat.le_of_lt hn
    have ih := ih hle fun m hm => hkeyed m (Nat.lt_succ_of_lt hm)
    have hsources : (t.joined E (onShard E keys bytes db route s) n).sources =
        (t.joined E db n).sources := by rw [sources_joined hle, sources_joined hle]
    have hmatch : ∀ parts ∈ (t.joined E db n).rows, ∀ row ∈ (db step.source.table).rows,
        E.holds (partScope E (step.source.part db (some row) :: parts)) step.on = true →
          home E keys bytes route parts = route (rowKey E keys bytes db step.source.table row) :=
      fun parts hparts row hrow hon => home_eq (shaped hle parts hparts)
        (hkeyed n (Nat.lt_succ_self n) step hstep parts hparts row hrow hon)
    rw [joined_succ hstep, joined_succ hstep]
    unfold JoinStep.run
    simp only [ih, hsources]
    refine Eq.symm (filter_joinOn
      (q := fun row => decide (route (rowKey E keys bytes db step.source.table row) = s))
      ?_ ?_ ?_ ?_)
    · intro parts hparts row hrow hon
      rw [hmatch parts hparts row hrow hon]
    · intro parts hparts row hrow hon
      rw [hmatch parts hparts row hrow hon, home_cons_row]
    · exact fun _ _ => rfl
    · exact fun _ _ => rfl

theorem losesNoMatch_of_keyed (hkeyed : ∀ n < t.steps.length, Keyed E keys bytes db t n) :
    LosesNoMatch E keys bytes db t := by
  intro count route hcount n hn
  have hrows : ((List.range count).flatMap fun s =>
      (t.joined E (onShard E keys bytes db route s) n).rows) =
      (List.range count).flatMap fun s =>
        (t.joined E db n).rows.filter fun parts => home E keys bytes route parts = s :=
    List.flatMap_congr fun s _ => rows_onShard s hn fun m hm => hkeyed m (hm.trans_le hn)
  rw [hrows]
  refine flatMap_filter_perm List.nodup_range _ _ fun parts _ => ?_
  exact List.mem_range.2 (home_lt hcount)

/-! ## Lost matches -/

theorem route_key_of_mem {s : ShardId} (hn : n ≤ t.steps.length) :
    ∀ parts ∈ (t.joined E (onShard E keys bytes db route s) n).rows, ∀ p ∈ parts,
      ∀ k ∈ p.key? E keys bytes, route k = s := by
  have hrow : ∀ (src : Source), ∀ row ∈ (onShard E keys bytes db route s src.table).rows,
      ∀ k ∈ (src.part (onShard E keys bytes db route s) (some row)).key? E keys bytes,
        route k = s := by
    intro src row hrow k hk
    cases hk
    exact of_decide_eq_true (List.mem_filter.1 hrow).2
  induction n with
  | zero =>
    intro parts hparts p hp
    obtain ⟨row, hmem, rfl⟩ := List.mem_map.1 hparts
    obtain rfl := List.mem_singleton.1 hp
    exact hrow t.base row hmem
  | succ n ih =>
    obtain ⟨step, hstep⟩ := exists_step hn
    have ih := ih (Nat.le_of_lt hn)
    rw [joined_succ hstep]
    intro parts hparts p hp k hk
    rcases mem_joinOn hparts with ⟨a, ha, row, hmem, -, rfl⟩ | ⟨a, ha, rfl⟩ | ⟨row, hmem, rfl⟩
    · rcases List.mem_cons.1 hp with rfl | hp
      · exact hrow step.source row hmem k hk
      · exact ih a ha p hp k hk
    · rcases List.mem_cons.1 hp with rfl | hp
      · cases hk
      · exact ih a ha p hp k hk
    · rcases List.mem_cons.1 hp with rfl | hp
      · exact hrow step.source row hmem k hk
      · obtain ⟨src, -, rfl⟩ := List.mem_map.1 hp
        cases hk

/-- A match of rows with different keys is lost when they are placed apart. -/
theorem keyed_of_losesNoMatch (h : LosesNoMatch E keys bytes db t) (hn : n < t.steps.length) :
    Keyed E keys bytes db t n := by
  intro step hstep parts hparts row hrow hon p hp k hk
  by_contra hne
  -- the joined row's key alone on shard 1
  let route : List UInt8 → ShardId :=
    fun b => if b = rowKey E keys bytes db step.source.table row then 1 else 0
  have hcount : ∀ b, route b < 2 := fun b => by
    show (if _ then 1 else 0) < 2
    split_ifs <;> decide
  have hperm := h 2 route hcount (n + 1) hn
  have hmem : step.source.part db (some row) :: parts ∈ (t.joined E db (n + 1)).rows := by
    rw [joined_succ hstep]
    exact mem_joinOn_of_match hparts hrow hon
  obtain ⟨s, -, hs⟩ := List.mem_flatMap.1 (hperm.mem_iff.2 hmem)
  have hnew := route_key_of_mem hn _ hs _ List.mem_cons_self _ (key?_part step.source row)
  have hold := route_key_of_mem hn _ hs p (List.mem_cons_of_mem _ hp) k hk
  rw [← hnew] at hold
  simp only [route, if_neg hne, if_true] at hold
  exact absurd hold (by decide)

/-! ## What a condition equates -/

theorem holds_conjunct (h : E.holds scope e = true) :
    ∀ c ∈ andConjuncts e, E.holds scope c = true := by
  fun_induction andConjuncts e with
  | case1 left right ihl ihr =>
    have hand : and3 (E.truth (E.eval scope left)) (E.truth (E.eval scope right)) = some true := by
      rw [← E.truth_ofTruth (and3 _ _)]
      simpa only [Engine.holds, Engine.eval, beq_iff_eq] using h
    obtain ⟨hl, hr⟩ := and3_eq_true.1 hand
    intro c hc
    rcases List.mem_append.1 hc with hc | hc
    · exact ihl (beq_iff_eq.2 hl) c hc
    · exact ihr (beq_iff_eq.2 hr) c hc
  | case2 e ih =>
    refine ih ?_
    simpa only [Engine.holds, Engine.eval] using h
  | case3 e =>
    intro c hc
    obtain rfl := List.mem_singleton.1 hc
    exact h

theorem eval_of_compoundPair (h : compoundPair e = some (x, c)) (parts : List (Part V)) :
    E.eval (partScope E parts) e =
      ((parts.find? fun p => p.source.as = x ∧ c ∈ p.columns).map fun p => p.value E c).getD
        E.null := by
  unfold compoundPair at h
  split at h
  · cases h
    simp only [Engine.eval, partScope]
  · cases h

/-- A reference to the shard key of a table joined so far: the newest part under the alias
    has that column. -/
theorem find_key (hsources : parts.map (·.source) = sources)
    (hcolumns : ∀ p ∈ parts, keyColumn keys p.source.table ∈ p.columns)
    (hlookup : (sources.map fun s => (s.as, keyColumn keys s.table)).lookup x = some c) :
    ∃ p, parts.find? (fun p => p.source.as = x) = some p ∧ keyColumn keys p.source.table = c ∧
      parts.find? (fun p => p.source.as = x ∧ c ∈ p.columns) = some p := by
  subst hsources
  induction parts with
  | nil => cases hlookup
  | cons q parts ih =>
    rw [List.map_cons, List.map_cons, List.lookup_cons] at hlookup
    by_cases hq : q.source.as = x
    · rw [hq, beq_self_eq_true] at hlookup
      have hc := Option.some.inj hlookup
      refine ⟨q, List.find?_cons_of_pos (decide_eq_true hq), hc, List.find?_cons_of_pos ?_⟩
      exact decide_eq_true ⟨hq, hc ▸ hcolumns q List.mem_cons_self⟩
    · rw [beq_false_of_ne (Ne.symm hq)] at hlookup
      obtain ⟨p, hfirst, hc, hfind⟩ :=
        ih (fun p hp => hcolumns p (List.mem_cons_of_mem _ hp)) hlookup
      refine ⟨p, ?_, hc, ?_⟩
      · rw [List.find?_cons_of_neg (by simp [hq])]
        exact hfirst
      · rw [List.find?_cons_of_neg (by simp [hq])]
        exact hfind

variable (bytes) in
theorem key_of_reference (hsources : parts.map (·.source) = sources)
    (hcolumns : ∀ p ∈ parts, keyColumn keys p.source.table ∈ p.columns)
    (hlookup : (sources.map fun s => (s.as, keyColumn keys s.table)).lookup x = some c)
    (he : compoundPair e = some (x, c)) (hnull : E.eval (partScope E parts) e ≠ E.null) :
    ∃ p, parts.find? (fun p => p.source.as = x) = some p ∧
      p.key? E keys bytes = some (bytes (E.eval (partScope E parts) e)) := by
  obtain ⟨p, hfirst, hc, hfind⟩ := find_key hsources hcolumns hlookup
  have heval : E.eval (partScope E parts) e = p.value E c := by
    rw [eval_of_compoundPair he, hfind]
    rfl
  refine ⟨p, hfirst, ?_⟩
  rw [heval] at hnull ⊢
  unfold Part.key?
  cases hrow : p.row with
  | none =>
    refine absurd ?_ hnull
    unfold Part.value
    rw [hrow]
  | some row =>
    rw [hc]
    rfl

/-- A row of the new table and parts that have its key, if they have one. -/
theorem one_key_cons {s : Source} {row : List V} {parts : List (Part V)}
    (h : ∀ p ∈ parts, ∀ k ∈ p.key? E keys bytes, k = rowKey E keys bytes db s.table row) :
    ∀ p ∈ s.part db (some row) :: parts, ∀ q ∈ s.part db (some row) :: parts,
      ∀ k ∈ p.key? E keys bytes, ∀ k' ∈ q.key? E keys bytes, k' = k := by
  have hall : ∀ p ∈ s.part db (some row) :: parts, ∀ k ∈ p.key? E keys bytes,
      k = rowKey E keys bytes db s.table row := by
    intro p hp k hk
    rcases List.mem_cons.1 hp with rfl | hp
    · exact (Option.some.inj hk).symm
    · exact h p hp k hk
  exact fun p hp q hq k hk k' hk' => (hall q hq k' hk').trans (hall p hp k hk).symm

theorem one_key (hn : n ≤ t.steps.length) (hkeyed : ∀ m < n, Keyed E keys bytes db t m) :
    ∀ parts ∈ (t.joined E db n).rows, ∀ p ∈ parts, ∀ q ∈ parts, ∀ k ∈ p.key? E keys bytes,
      ∀ k' ∈ q.key? E keys bytes, k' = k := by
  induction n with
  | zero =>
    intro parts hparts p hp q hq k hk k' hk'
    obtain ⟨row, -, rfl⟩ := List.mem_map.1 hparts
    obtain rfl := List.mem_singleton.1 hp
    obtain rfl := List.mem_singleton.1 hq
    exact Option.mem_unique hk' hk
  | succ n ih =>
    obtain ⟨step, hstep⟩ := exists_step hn
    have ih := ih (Nat.le_of_lt hn) fun m hm => hkeyed m (Nat.lt_succ_of_lt hm)
    rw [joined_succ hstep]
    intro parts hparts
    rcases mem_joinOn hparts with ⟨a, ha, row, hrow, hon, rfl⟩ | ⟨a, ha, rfl⟩ | ⟨row, hrow, rfl⟩
    · exact one_key_cons (hkeyed n (Nat.lt_succ_self n) step hstep a ha row hrow hon)
    · intro p hp q hq k hk k' hk'
      rcases List.mem_cons.1 hp with rfl | hp
      · cases hk
      rcases List.mem_cons.1 hq with rfl | hq
      · cases hk'
      exact ih a ha p hp q hq k hk k' hk'
    · refine one_key_cons fun p hp k hk => ?_
      obtain ⟨s, -, rfl⟩ := List.mem_map.1 hp
      cases hk

/-- Both sides of an equation that holds are there, and route alike. -/
theorem sides_of_equation {left right : Expr}
    (hon : E.holds scope (.binaryOp left .eq right) = true)
    (hbytes : ∀ u v, E.truth (E.binary left .eq right u v) = some true → bytes u = bytes v) :
    E.eval scope left ≠ E.null ∧ E.eval scope right ≠ E.null ∧
      bytes (E.eval scope left) = bytes (E.eval scope right) := by
  have htrue : E.truth (E.binary left .eq right (E.eval scope left) (E.eval scope right)) =
      some true := by
    simpa only [Engine.holds, Engine.eval, beq_iff_eq] using hon
  exact ⟨fun h => (E.eq_null left right _).1 (h ▸ htrue),
    fun h => (E.eq_null left right _).2 (h ▸ htrue), hbytes _ _ htrue⟩

variable (E keys bytes t) in
/-- Keys that SQLite finds equal have equal routing bytes. -/
def EqualKeysRoute : Prop :=
  ∀ n left right, equatesShardKeys (t.aliasKeys keys n) (.binaryOp left .eq right) = true →
    ∀ u v, E.truth (E.binary left .eq right u v) = some true → bytes u = bytes v

variable {src : Source}

theorem find_newest (src : Source) (row : Option (List V)) (parts : List (Part V)) :
    (src.part db row :: parts).find? (fun p => p.source.as = src.as) = some (src.part db row) :=
  List.find?_cons_of_pos (decide_eq_true rfl)

theorem find_older (hne : src.as ≠ x) (row : Option (List V)) (parts : List (Part V)) :
    (src.part db row :: parts).find? (fun p => p.source.as = x) =
      parts.find? fun p => p.source.as = x :=
  List.find?_cons_of_neg fun h => hne (of_decide_eq_true h)

/-- A tie that holds is between the row being joined and one joined before. -/
theorem keys_of_tie {row : List V}
    (hsources : (src.part db (some row) :: parts).map (·.source) = t.sources (n + 1))
    (hcolumns : ∀ p ∈ src.part db (some row) :: parts, keyColumn keys p.source.table ∈ p.columns)
    (htie : tiesTable (t.aliasKeys keys n) src.as e = true)
    (hon : E.holds (partScope E (src.part db (some row) :: parts)) e = true)
    (hroute : EqualKeysRoute E keys bytes t) :
    ∃ p ∈ parts, p.key? E keys bytes = some (rowKey E keys bytes db src.table row) := by
  obtain ⟨left, right, x, c, y, d, rfl, heq, hl, hr, hne, hx, hy, hsrc⟩ := tiesTable_spec htie
  obtain ⟨hlnull, hrnull, hbytes⟩ := sides_of_equation hon (hroute n left right heq)
  obtain ⟨p, hp, hpk⟩ := key_of_reference bytes hsources hcolumns hx hl hlnull
  obtain ⟨q, hq, hqk⟩ := key_of_reference bytes hsources hcolumns hy hr hrnull
  rcases hsrc with rfl | rfl
  · rw [find_newest] at hp
    cases hp
    rw [find_older hne] at hq
    refine ⟨q, List.mem_of_find?_eq_some hq, ?_⟩
    rw [hqk, ← hbytes, ← hpk, key?_part]
  · rw [find_newest] at hq
    cases hq
    rw [find_older (Ne.symm hne)] at hp
    refine ⟨p, List.mem_of_find?_eq_some hp, ?_⟩
    rw [hpk, hbytes, ← hqk, key?_part]

theorem sources_subset {m : Nat} (hmn : m ≤ n) : t.sources m ⊆ t.sources n := by
  intro s hs
  unfold JoinTree.sources at hs ⊢
  rcases List.mem_append.1 hs with hs | hs
  · refine List.mem_append_left _ (List.mem_reverse.2 ?_)
    exact List.map_subset _ (List.take_subset_take_left _ hmn) (List.mem_reverse.1 hs)
  · exact List.mem_append_right _ hs

variable (keys db t) in
/-- The tables have the columns they are declared to be routed by. -/
def KeysAreColumns : Prop :=
  ∀ s ∈ t.sources t.steps.length, keyColumn keys s.table ∈ (db s.table).columns

/-- A join that ties the table it joins brings together rows of one key. -/
theorem keyed_of_ties (hn : n < t.steps.length) (hkeys : KeysAreColumns keys db t)
    (hroute : EqualKeysRoute E keys bytes t) (hkeyed : ∀ m < n, Keyed E keys bytes db t m)
    (hties : Ties keys t n) : Keyed E keys bytes db t n := by
  obtain ⟨step, hstep, hties⟩ := hties
  obtain ⟨e, he, htie⟩ := List.any_eq_true.1 hties
  intro step' hstep' parts hparts row hrow hon p hp k hk
  cases hstep.symm.trans hstep'
  have hshape := (shaped (Nat.le_of_lt hn) parts hparts : Shaped E keys bytes db _ parts).cons
    step.source (some row)
  rw [← sources_succ hstep] at hshape
  have hcolumns : ∀ q ∈ step.source.part db (some row) :: parts,
      keyColumn keys q.source.table ∈ q.columns := by
    intro q hq
    rw [hshape.columns q hq]
    refine hkeys q.source (sources_subset hn ?_)
    rw [← hshape.sources]
    exact List.mem_map_of_mem hq
  obtain ⟨q, hq, hqk⟩ := keys_of_tie hshape.sources hcolumns htie (holds_conjunct hon e he) hroute
  exact one_key (Nat.le_of_lt hn) hkeyed parts hparts q hq p hp _ hqk k hk

/-! ## What the check makes sure of -/

theorem addJoinRelation_ok {relation : TableFactor} {aliasKey' : AliasKeys}
    (h : addJoinRelation relation keys aliasKey = .ok aliasKey') :
    ∃ s, relation.source? = some s ∧ aliasKey' = (s.as, keyColumn keys s.table) :: aliasKey := by
  cases relation with
  | derived => cases h
  | table name as =>
    simp only [addJoinRelation] at h
    split at h
    · cases h
    next shardKey hkey =>
      cases h
      exact ⟨_, rfl, by rw [keyColumn, hkey]; rfl⟩

theorem joinOnCondition_ok {op : JoinOperator} (h : joinOnCondition op = .ok e) :
    ∃ kind, op.kind? = some (kind, e) := by
  cases op with
  | other => cases h
  | join c | inner c | left c | leftOuter c | right c | rightOuter c | fullOuter c =>
    cases c with
    | other => cases h
    | on e' =>
      cases h
      exact ⟨_, rfl⟩

theorem checkJoins_ok {joins : List Join} (h : checkJoins keys aliasKey joins = .ok ()) :
    ∃ steps, joins.mapM Join.step? = some steps ∧ ∀ n, ∀ step ∈ steps[n]?,
      onEquatesShardKeys step.on (((steps.take (n + 1)).map fun step =>
        (step.source.as, keyColumn keys step.source.table)).reverse ++ aliasKey) = true := by
  induction joins generalizing aliasKey with
  | nil => exact ⟨[], rfl, nofun⟩
  | cons join joins ih =>
    simp only [checkJoins] at h
    obtain ⟨aliasKey', hadd, h⟩ := bind_eq_ok.1 h
    obtain ⟨on, hon, h⟩ := bind_eq_ok.1 h
    split_ifs at h with hequates
    obtain ⟨s, hs, rfl⟩ := addJoinRelation_ok hadd
    obtain ⟨kind, hkind⟩ := joinOnCondition_ok hon
    obtain ⟨steps, hsteps, hall⟩ := ih h
    refine ⟨⟨kind, s, on⟩ :: steps, ?_, fun n step hstep => ?_⟩
    · have hstep : join.step? = some ⟨kind, s, on⟩ := by
        simp only [Join.step?, hs, hkind, Option.bind_eq_bind, Option.bind_some, Option.pure_def]
      rw [List.mapM_cons, hstep, hsteps]
      rfl
    · cases n with
      | zero =>
        cases hstep
        exact hequates
      | succ n =>
        have := hall n step hstep
        rw [List.take_succ_cons, List.map_cons, List.reverse_cons, List.append_assoc]
        exact this

theorem checkJoin_ok {select : Select} (hok : checkJoin select keys = .ok ())
    (htree : select.tree? = some t) : ∀ n, ∀ step ∈ t.steps[n]?,
      onEquatesShardKeys step.on (t.aliasKeys keys n) = true := by
  unfold Select.tree? at htree
  split at htree
  next table hfroms =>
    unfold TableWithJoins.tree? at htree
    obtain ⟨base, hbase, htree⟩ := Option.bind_eq_some_iff.1 htree
    obtain ⟨steps, hsteps, htree⟩ := Option.bind_eq_some_iff.1 htree
    cases htree
    unfold checkJoin at hok
    rw [hfroms] at hok
    simp only at hok
    split at hok
    · cases hok
    split_ifs at hok with hjoins
    · -- a single table
      rw [List.isEmpty_iff.1 hjoins] at hsteps
      cases hsteps
      exact nofun
    · obtain ⟨aliasKey, hadd, hok⟩ := bind_eq_ok.1 hok
      obtain ⟨s, hs, rfl⟩ := addJoinRelation_ok hadd
      cases hbase.symm.trans hs
      obtain ⟨steps', hsteps', hall⟩ := checkJoins_ok hok
      cases hsteps.symm.trans hsteps'
      intro n step hstep
      rw [JoinTree.aliasKeys, JoinTree.sources, List.map_append, List.map_reverse, List.map_map]
      exact hall n step hstep
  · cases htree

theorem eq_of_lookup_singleton {y d : Text} (h : List.lookup x [(y, c)] = some d) : x = y := by
  by_contra hne
  rw [List.lookup_cons, beq_false_of_ne hne] at h
  cases h

/-- Of two tables whose keys the first join's condition equates, one is the table it
    joins. -/
theorem ties_zero (hstep : t.steps[0]? = some step)
    (h : onEquatesShardKeys step.on (t.aliasKeys keys 0) = true) : Ties keys t 0 := by
  obtain ⟨e, he, heq⟩ := List.any_eq_true.1 h
  refine ⟨step, hstep, List.any_eq_true.2 ⟨e, he, ?_⟩⟩
  have hkeys : t.aliasKeys keys 0 =
      [(step.source.as, keyColumn keys step.source.table),
        (t.base.as, keyColumn keys t.base.table)] := by
    rw [JoinTree.aliasKeys, sources_succ hstep]
    rfl
  obtain ⟨left, right, x, c, y, d, rfl, hl, hr, hne, hx, hy⟩ := equatesShardKeys_spec heq
  have hone : x = step.source.as ∨ y = step.source.as := by
    by_contra hno
    obtain ⟨hxs, hys⟩ := not_or.1 hno
    rw [hkeys, List.lookup_cons, beq_false_of_ne hxs] at hx
    rw [hkeys, List.lookup_cons, beq_false_of_ne hys] at hy
    exact hne ((eq_of_lookup_singleton hx).trans (eq_of_lookup_singleton hy).symm)
  rw [tiesTable, heq, Bool.true_and, hl, hr, Option.any_some, Option.any_some, Bool.or_eq_true]
  exact hone.imp beq_iff_eq.2 beq_iff_eq.2

end Proofs

/-- **Co-located joins lose no match.**  For a join that the check accepts: the joins of
    the shards' rows together are the join of all rows, wherever the keys are placed, if
    and only if from the second join on a row of a table that the condition does not tie
    is brought together only with rows of its own key. -/
theorem losesNoMatch_iff {V : Type} (E : Engine V) (keys : ShardKeys) (bytes : V → List UInt8)
    (db : Database V) (select : Select) (t : JoinTree) (hok : checkJoin select keys = .ok ())
    (htree : select.tree? = some t) (hkeys : KeysAreColumns keys db t)
    (hroute : EqualKeysRoute E keys bytes t) :
    LosesNoMatch E keys bytes db t ↔
      ∀ n < t.steps.length, 0 < n → ¬ Ties keys t n → Keyed E keys bytes db t n := by
  constructor
  · intro h n hn _ _
    exact keyed_of_losesNoMatch h hn
  · intro h
    refine losesNoMatch_of_keyed fun n hn => ?_
    induction n using Nat.strong_induction_on with
    | _ n ih =>
      have hbefore : ∀ m < n, Keyed E keys bytes db t m := fun m hm => ih m hm (hm.trans hn)
      by_cases hties : Ties keys t n
      · exact keyed_of_ties hn hkeys hroute hbefore hties
      · refine h n hn (Nat.pos_of_ne_zero fun hzero => hties ?_) hties
        subst hzero
        obtain ⟨step, hstep⟩ := exists_step hn
        exact ties_zero hstep (checkJoin_ok hok htree 0 step hstep)

/-! ## Three tables -/

def intEngine : Engine (Option Int) where
  null := none
  truth v := v.map (· != 0)
  ofTruth t := t.map fun b => if b then 1 else 0
  truth_ofTruth t := by rcases t with _ | _ | _ <;> rfl
  literal
    | .number n => some n
    | _ => none
  unary _ v := v
  binary _ op _ u v :=
    match op, u, v with
    | .eq, some i, some j => some (if i = j then 1 else 0)
    | _, _, _ => none
  eq_null _ _ v := by rcases v with _ | v <;> constructor <;> intro h <;> cases h
  isNull v := v.isNone
  call _ _ := none
  other _ _ := none

/-- The little-endian bytes of an integer key. -/
def intBytes (v : Option Int) : List UInt8 :=
  (List.range 8).map fun j => UInt8.ofNat ((v.getD 0).toNat / 256 ^ j)

def reference (as c : String) : Expr := .compoundIdentifier [as.toList, c.toList]

def equation (a b : String) : Expr := .binaryOp (reference a "id") .eq (reference b "id")

/-- `a JOIN b ON a.id = b.id LEFT JOIN c ON …`. -/
def threeTables (on : Expr) : Select where
  froms := [⟨.table "a".toList none,
    [⟨.table "b".toList none, .inner (.on (equation "a" "b"))⟩,
      ⟨.table "C".toList (some "c".toList), .left (.on on)⟩]⟩]

def threeSteps (on : Expr) : JoinTree where
  base := ⟨"a".toList, "a".toList⟩
  steps := [⟨.inner, ⟨"b".toList, "b".toList⟩, equation "a" "b"⟩,
    ⟨.left, ⟨"c".toList, "c".toList⟩, on⟩]

def idKeys : ShardKeys :=
  [("a".toList, "id".toList), ("b".toList, "id".toList), ("c".toList, "id".toList)]

def twoRows : Database (Option Int) := fun _ => ⟨["id".toList], [[some 1], [some 2]]⟩

theorem equal_ints_route (t : JoinTree) : EqualKeysRoute intEngine idKeys intBytes t := by
  intro n left right _ u v h
  rcases u with _ | i
  · cases h
  rcases v with _ | j
  · cases h
  by_cases hij : i = j
  · rw [hij]
  · simp [intEngine, hij] at h

theorem threeTables_losesNoMatch :
    LosesNoMatch intEngine idKeys intBytes twoRows (threeSteps (equation "c" "b")) := by
  refine (losesNoMatch_iff intEngine idKeys intBytes twoRows (threeTables (equation "c" "b")) _
    rfl rfl (by unfold KeysAreColumns; decide) (equal_ints_route _)).2 fun n hn hpos hno => ?_
  have hone : n = 1 := by
    have : n < 2 := hn
    omega
  subst hone
  exact absurd ⟨_, rfl, by decide⟩ hno

/-- The condition of the second join equates the keys of the first two tables again. -/
theorem untied_loses :
    checkJoin (threeTables (equation "a" "b")) idKeys = .ok () ∧
      (threeTables (equation "a" "b")).tree? = some (threeSteps (equation "a" "b")) ∧
      ¬ LosesNoMatch intEngine idKeys intBytes twoRows (threeSteps (equation "a" "b")) := by
  refine ⟨rfl, rfl, fun h => ?_⟩
  have hperm := h 2 (fun k => (Shard.hashKey k).toNat % 2) (fun _ => Nat.mod_lt _ (by decide)) 2
    (le_refl 2)
  exact absurd hperm.length_eq (by decide +kernel)

end Shardlite.Query
