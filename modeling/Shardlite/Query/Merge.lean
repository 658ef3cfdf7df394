/-
  Shardlite.Query.Merge

  The coordinator's half of a query that every shard answers with rows: concatenate, remove
  duplicates if asked to, sort, skip and truncate.  Each shard is asked for the same order and
  cuts its answer at the rows the coordinator can need.  So the merged answer does not depend
  on how the rows are split over the shards.
-/
import Shardlite.Query.Compare
import Shardlite.Lib.TopK

namespace Shardlite.Query

open Storage (Value)
open TopK (Answer)

abbrev Row := List Value

structure SortKey where
  column : Nat
  descending : Bool
  nullsFirst : Bool
deriving DecidableEq

/-- What makes the order of a merge total once the explicit keys are equal. -/
inductive Tiebreak where
  | none
  | column (name : String)
  | wholeRow
deriving DecidableEq

/-- What the coordinator still has to do to the shards' rows. -/
structure PostProcess where
  distinct : Bool
  orderBy : List SortKey
  offset : Nat
  limit : Option Nat
  tiebreak : Tiebreak

structure QueryResult where
  columns : List String
  rows : List Row

/-- Ascending, NULLs first: what an ordinal in ORDER BY means. -/
def ordinal (column : Nat) : SortKey :=
  { column
    descending := false
    nullsFirst := true }

/-! ## Comparing rows -/

def isNull : Value → Bool
  | .null => true
  | _ => false

/-- NULLs are placed before the values are looked at, whatever the direction. -/
def SortKey.compare (k : SortKey) (x y : Value) : Ordering :=
  match isNull x, isNull y with
  | true, true => .eq
  | true, false => if k.nullsFirst then .lt else .gt
  | false, true => if k.nullsFirst then .gt else .lt
  | false, false => if k.descending then (compareValues x y).swap else compareValues x y

/-- A key beyond a row's columns says nothing. -/
def compareRows (a b : Row) : List SortKey → Ordering
  | [] => .eq
  | k :: keys =>
    match a[k.column]?, b[k.column]? with
    | some x, some y => (k.compare x y).then (compareRows a b keys)
    | _, _ => compareRows a b keys

def compareColumns : List (Value × Value) → Ordering
  | [] => .eq
  | (x, y) :: rest => (compareValues x y).then (compareColumns rest)

/-- The tiebreak: all columns, then the length. -/
def compareWholeRows (a b : Row) : Ordering :=
  (compareColumns (a.zip b)).then (compare a.length b.length)

/-- How the keys of groups are ordered, and so made equal. -/
def groupKeyCmp (a b : Row) : Ordering := compareWholeRows a b

/-! ## Merging -/

def retainNew (seen : List Row) : List Row → List Row
  | [] => []
  | row :: rows =>
    if seen.any fun key => groupKeyCmp row key = .eq then retainNew seen rows
    else row :: retainNew (row :: seen) rows

/-- Keep the first of equal rows. -/
def dedupRows (rows : List Row) : List Row := retainNew [] rows

/-- The order rows are sorted in: explicit keys, and whole rows if these are to break ties. -/
def rowOrder (keys : List SortKey) (tiebreak : Bool) (a b : Row) : Ordering :=
  (compareRows a b keys).then (if tiebreak then compareWholeRows a b else .eq)

/-- Sort, skip and cut. -/
def finalizeRowsWith (rows : List Row) (orderBy : List SortKey) (offset : Nat)
    (limit : Option Nat) (tiebreak : Bool) : List Row :=
  let sorted := if orderBy ≠ [] ∨ tiebreak then
      rows.mergeSort fun a b => (rowOrder orderBy tiebreak a b).isLE
    else rows
  let skipped := if offset > 0 then
      if offset < sorted.length then sorted.drop offset else []
    else sorted
  match limit with
  | some n => skipped.take n
  | none => skipped

def eqIgnoreAsciiCase (a b : String) : Bool := a.toList.map Char.toLower = b.toList.map Char.toLower

def trimQuotes (name : String) : String :=
  String.ofList ((name.toList.dropWhile (· = '"')).rdropWhile (· = '"'))

/-- A column that breaks ties is looked up among those that came back. -/
def sortKeys (p : PostProcess) (columns : List String) : List SortKey :=
  match p.tiebreak with
  | .column name =>
    match columns.findIdx? fun c => eqIgnoreAsciiCase c (trimQuotes name) with
    | some column => p.orderBy ++ [ordinal column]
    | none => p.orderBy
  | _ => p.orderBy

/-- The answer to a query from the shards' answers. -/
def mergePostProcess (p : PostProcess) (columns : List String) (parts : List QueryResult) :
    QueryResult :=
  let concatenated := (parts.map QueryResult.rows).flatten
  let rows := if p.distinct then dedupRows concatenated else concatenated
  { columns
    rows := finalizeRowsWith rows (sortKeys p columns) p.offset p.limit (p.tiebreak ≠ .none) }

/-! ## What the shards are asked for -/

/-- The ordinals that `ORDER BY 1, 2, …` names. -/
def ordinals (width : Nat) : List SortKey := (List.range width).map ordinal

/-- The terms of a shard's ORDER BY when whole rows break ties. -/
def shardKeys (p : PostProcess) (width : Nat) : List SortKey := p.orderBy ++ ordinals width

/-- The limit a shard is given, computed in 64 bits. -/
def shardLimit (p : PostProcess) : Option Nat := p.limit.map fun n => (n + p.offset) % 2 ^ 64

/-- One row of each class of rows that are equal column by column. -/
def Deduplicates (distinct : Bool) (rows kept : List Row) : Prop :=
  TopK.Chosen compareWholeRows distinct rows kept

/-- What a database that orders values as the coordinator does may answer: the rows without
    duplicates if asked for, sorted by the keys, and cut. -/
def Selects (distinct : Bool) (keys : List SortKey) (limit : Option Nat) (rows answer : List Row) :
    Prop :=
  ∃ kept sorted, Deduplicates distinct rows kept ∧ sorted.Perm kept ∧
    sorted.Pairwise (fun a b => (compareRows a b keys).isLE = true) ∧
    answer = TopK.cutAt limit sorted

/-! ## The order of rows -/

/-- Where a key places NULLs among the other values. -/
def SortKey.place (k : SortKey) (v : Value) : Nat :=
  if isNull v then (if k.nullsFirst then 0 else 2) else 1

theorem eq_null_of_isNull {v : Value} (h : isNull v = true) : v = .null := by
  cases v <;> first | rfl | simp [isNull] at h

theorem SortKey.compare_eq (k : SortKey) (x y : Value) :
    k.compare x y = (Ord.compare (k.place x) (k.place y)).then
      (if k.descending then (compareValues x y).swap else compareValues x y) := by
  unfold SortKey.compare SortKey.place
  cases hx : isNull x <;> cases hy : isNull y
  · simp
  · cases k.nullsFirst <;> rfl
  · cases k.nullsFirst <;> rfl
  · rw [eq_null_of_isNull hx, eq_null_of_isNull hy]
    cases k.nullsFirst <;> cases k.descending <;> rfl

theorem compareRows_append (a b : Row) (keys keys' : List SortKey) :
    compareRows a b (keys ++ keys') = (compareRows a b keys).then (compareRows a b keys') := by
  induction keys with
  | nil => rfl
  | cons k keys ih =>
    simp only [List.cons_append, compareRows]
    cases a[k.column]? with
    | none => exact ih
    | some x =>
      cases b[k.column]? with
      | none => exact ih
      | some y => rw [ih, Ordering.then_assoc]

/-- A row of this width with values from `P`. -/
def Wide (P : Value → Prop) (width : Nat) (row : Row) : Prop :=
  row.length = width ∧ ∀ v ∈ row, P v

variable {width : Nat}

theorem Wide.getElem? {P : Value → Prop} {row : Row} (h : Wide P width row)
    {i : Nat} (hi : i < width) : ∃ v, row[i]? = some v ∧ P v := by
  have hlt : i < row.length := by rw [h.1]; exact hi
  exact ⟨row[i], List.getElem?_eq_getElem hlt, h.2 _ (List.getElem_mem hlt)⟩

section Total

variable {P : Value → Prop}

theorem SortKey.totalOn (h : TotalOn P compareValues) (k : SortKey) : TotalOn P k.compare := by
  have hplace : TotalOn P fun x y => Ord.compare (k.place x) (k.place y) :=
    (TotalOn.of_linearOrder.comap k.place).mono fun _ _ => trivial
  have hvalue : TotalOn P fun x y =>
      if k.descending then (compareValues x y).swap else compareValues x y := by
    cases k.descending with
    | false => exact h
    | true => exact h.reverse
  exact (hplace.then hvalue).congr fun x y _ _ => k.compare_eq x y

theorem totalOn_compareRows (h : TotalOn P compareValues) (width : Nat) (keys : List SortKey) :
    TotalOn (Wide P width) fun a b => compareRows a b keys := by
  induction keys with
  | nil => exact TotalOn.const
  | cons k keys ih =>
    rcases lt_or_ge k.column width with hlt | hge
    · have hcolumn : TotalOn (Wide P width) fun a b =>
          k.compare (a[k.column]?.getD .null) (b[k.column]?.getD .null) := by
        apply ((k.totalOn h).comap fun row : Row => row[k.column]?.getD .null).mono
        intro row hrow
        obtain ⟨v, hv, hP⟩ := hrow.getElem? hlt
        rw [hv]
        exact hP
      apply (hcolumn.then ih).congr
      intro a b ha hb
      obtain ⟨x, hx, -⟩ := ha.getElem? hlt
      obtain ⟨y, hy, -⟩ := hb.getElem? hlt
      simp only [compareRows, hx, hy, Option.getD_some]
    · -- the key names no column of these rows
      apply ih.congr
      intro a b ha hb
      have hnone : a[k.column]? = none := List.getElem?_eq_none (by rw [ha.1]; exact hge)
      simp only [compareRows, hnone]

end Total

/-! ### Whole rows -/

variable {a b : Row}

theorem ordinal_compare (column : Nat) (x y : Value) :
    (ordinal column).compare x y = compareValues x y := by
  cases x <;> cases y <;> rfl

theorem compareColumns_drop (ha : a.length = width)
    (hb : b.length = width) (n i : Nat) (hn : i + n = width) :
    compareColumns ((a.drop i).zip (b.drop i)) =
      compareRows a b ((List.range' i n).map ordinal) := by
  induction n generalizing i with
  | zero =>
    rw [List.drop_eq_nil_of_le (by omega)]
    rfl
  | succ n ih =>
    have hia : i < a.length := by omega
    have hib : i < b.length := by omega
    rw [List.drop_eq_getElem_cons hia, List.drop_eq_getElem_cons hib, List.range'_succ]
    have hcolumn : (ordinal i).column = i := rfl
    simp only [List.zip_cons_cons, compareColumns, List.map_cons, compareRows, hcolumn,
      List.getElem?_eq_getElem hia, List.getElem?_eq_getElem hib, ordinal_compare]
    rw [ih (i + 1) (by omega)]

/-- **Comparing whole rows is sorting by every ordinal.** -/
theorem compareWholeRows_eq (ha : a.length = width)
    (hb : b.length = width) : compareWholeRows a b = compareRows a b (ordinals width) := by
  have hdrop := compareColumns_drop ha hb width 0 (by omega)
  rw [List.drop_zero, List.drop_zero] at hdrop
  rw [compareWholeRows, ha, hb, hdrop, ordinals, List.range_eq_range', compare_eq_iff_eq.2 rfl,
    Ordering.then_eq]

theorem compareColumns_eq {columns : List (Value × Value)} (h : compareColumns columns = .eq) :
    ∀ p ∈ columns, compareValues p.1 p.2 = .eq := by
  induction columns with
  | nil => simp
  | cons p columns ih =>
    rw [compareColumns, Ordering.then_eq_eq] at h
    rw [List.forall_mem_cons]
    exact ⟨h.1, ih h.2⟩

theorem isNull_of_eq {x y : Value} (h : compareValues x y = .eq) : isNull x = isNull y := by
  cases x <;> cases y <;> first | rfl | cases h

theorem SortKey.compare_of_eq (k : SortKey) {x y : Value} (h : compareValues x y = .eq) :
    k.compare x y = .eq := by
  have hplace : k.place x = k.place y := by
    unfold SortKey.place
    rw [isNull_of_eq h]
  rw [k.compare_eq, hplace, h, compare_eq_iff_eq.2 rfl]
  cases k.descending <;> rfl

theorem compareRows_of_whole (h : compareWholeRows a b = .eq) (keys : List SortKey) :
    compareRows a b keys = .eq := by
  rw [compareWholeRows, Ordering.then_eq_eq, compare_eq_iff_eq] at h
  have hcolumns := compareColumns_eq h.1
  induction keys with
  | nil => rfl
  | cons k keys ih =>
    rw [compareRows]
    rcases lt_or_ge k.column a.length with hlt | hge
    · have hlt' : k.column < b.length := by omega
      have hpair : (a[k.column], b[k.column]) ∈ a.zip b := by
        rw [List.mem_iff_getElem]
        exact ⟨k.column, by rw [List.length_zip]; omega, by rw [List.getElem_zip]⟩
      rw [List.getElem?_eq_getElem hlt, List.getElem?_eq_getElem hlt']
      simp only [k.compare_of_eq (hcolumns _ hpair), ih]
      rfl
    · rw [List.getElem?_eq_none hge]
      exact ih

theorem rowOrder_eq_iff {keys : List SortKey} :
    rowOrder keys true a b = .eq ↔ compareWholeRows a b = .eq := by
  rw [rowOrder, Ordering.then_eq_eq, if_pos rfl]
  exact ⟨fun h => h.2, fun h => ⟨compareRows_of_whole h keys, h⟩⟩

/-- The coordinator's order is the one the shards are asked for. -/
theorem rowOrder_eq_shardKeys (p : PostProcess) (ha : a.length = width) (hb : b.length = width) :
    compareRows a b (shardKeys p width) = rowOrder p.orderBy true a b := by
  rw [shardKeys, compareRows_append, ← compareWholeRows_eq ha hb, rowOrder, if_pos rfl]

/-! ## Duplicates -/

theorem retainNew_sublist (seen rows : List Row) : (retainNew seen rows).Sublist rows := by
  induction rows generalizing seen with
  | nil => exact .slnil
  | cons row rows ih =>
    rw [retainNew]
    split_ifs
    · exact (ih seen).cons row
    · exact (ih (row :: seen)).cons_cons row

theorem retainNew_apart (seen rows : List Row) :
    (retainNew seen rows).Pairwise (fun a b => compareWholeRows b a ≠ .eq) ∧
      ∀ row ∈ retainNew seen rows, ∀ key ∈ seen, compareWholeRows row key ≠ .eq := by
  induction rows generalizing seen with
  | nil => exact ⟨.nil, by simp [retainNew]⟩
  | cons row rows ih =>
    rw [retainNew]
    split_ifs with hseen
    · exact ih seen
    · obtain ⟨hpair, hnew⟩ := ih (row :: seen)
      simp only [List.any_eq_true, decide_eq_true_eq, not_exists, not_and] at hseen
      constructor
      · rw [List.pairwise_cons]
        exact ⟨fun x hx => hnew x hx row List.mem_cons_self, hpair⟩
      · rw [List.forall_mem_cons]
        exact ⟨hseen, fun x hx key hkey => hnew x hx key (List.mem_cons_of_mem _ hkey)⟩

theorem retainNew_covers (hrefl : ∀ row : Row, compareWholeRows row row = .eq)
    (seen rows : List Row) : ∀ row ∈ rows, (∃ key ∈ seen, compareWholeRows row key = .eq) ∨
      ∃ kept ∈ retainNew seen rows, compareWholeRows row kept = .eq := by
  induction rows generalizing seen with
  | nil => simp
  | cons first rows ih =>
    intro row hrow
    rw [retainNew]
    split_ifs with hseen
    · rcases List.mem_cons.1 hrow with rfl | hrow
      · left
        simp only [List.any_eq_true, decide_eq_true_eq] at hseen
        exact hseen
      · exact ih seen row hrow
    · rcases List.mem_cons.1 hrow with rfl | hrow
      · exact .inr ⟨row, List.mem_cons_self, hrefl row⟩
      · -- the first row is among the seen ones from here on
        rcases ih (first :: seen) row hrow with ⟨key, hkey, heq⟩ | ⟨kept, hkept, heq⟩
        · rcases List.mem_cons.1 hkey with rfl | hkey
          · exact .inr ⟨key, List.mem_cons_self, heq⟩
          · exact .inl ⟨key, hkey, heq⟩
        · exact .inr ⟨kept, List.mem_cons_of_mem _ hkept, heq⟩

theorem compareValues_self (v : Value) : compareValues v v = .eq := by
  cases v with
  | null => rfl
  | integer x | text t | blob b => simp only [compareValues, Std.ReflCmp.compare_self]
  | real b =>
    simp only [compareValues, Binary64.partialCmp]
    split_ifs
    · rfl
    · exact compare_eq_iff_eq.2 rfl

theorem compareWholeRows_self (row : Row) : compareWholeRows row row = .eq := by
  rw [compareWholeRows_eq rfl rfl, ordinals]
  induction List.range row.length with
  | nil => rfl
  | cons i ordinals ih =>
    rw [List.map_cons, compareRows]
    have hcolumn : (ordinal i).column = i := rfl
    rw [hcolumn]
    cases row[i]? with
    | none => exact ih
    | some v =>
      simp only [ordinal_compare, compareValues_self, ih]
      rfl

/-! ## Skipping and truncating -/

theorem finalizeRowsWith_eq (rows : List Row) (orderBy : List SortKey) (offset : Nat)
    (limit : Option Nat) : finalizeRowsWith rows orderBy offset limit true =
      TopK.cutAt limit
        ((rows.mergeSort fun a b => (rowOrder orderBy true a b).isLE).drop offset) := by
  have hskip : ∀ l : List Row,
      (if offset > 0 then if offset < l.length then l.drop offset else [] else l) =
        l.drop offset := by
    intro l
    split_ifs with hpos hlt
    · rfl
    · exact (List.drop_eq_nil_of_le (by omega)).symm
    · rw [show offset = 0 by omega, List.drop_zero]
  simp only [finalizeRowsWith, or_true, if_true, hskip]
  cases limit <;> rfl

/-! ## Independence of the split -/

section Split

variable {width : Nat} {P : Value → Prop} {rows : List Row}

theorem totalOn_rowOrder (h : TotalOn P compareValues) (hrows : ∀ row ∈ rows, Wide P width row)
    (keys : List SortKey) : TotalOn (· ∈ rows) (rowOrder keys true) := by
  have hkeys := totalOn_compareRows h width keys
  have hwhole : TotalOn (Wide P width) compareWholeRows :=
    (totalOn_compareRows h width (ordinals width)).congr
      fun a b ha hb => compareWholeRows_eq ha.1 hb.1
  exact (hkeys.then hwhole).mono hrows

/-- A choice up to rows that are equal is one up to the order's own equality. -/
theorem Deduplicates.chosen {distinct : Bool} {kept : List Row}
    (h : Deduplicates distinct rows kept) (keys : List SortKey) :
    TopK.Chosen (rowOrder keys true) distinct rows kept := by
  cases distinct with
  | false => exact h
  | true =>
    have hreps : TopK.Representatives compareWholeRows rows kept := h
    refine ⟨hreps.mem, fun row hrow => ?_, hreps.apart.imp fun hne => ?_⟩
    · obtain ⟨other, hother, heq⟩ := hreps.covers row hrow
      exact ⟨other, hother, rowOrder_eq_iff.2 heq⟩
    · rw [Ne, rowOrder_eq_iff]
      exact hne

theorem Selects.answer {p : PostProcess} {limit : Option Nat} {answer : List Row}
    (hrows : ∀ row ∈ rows, Wide P width row)
    (h : Selects p.distinct (shardKeys p width) limit rows answer) :
    Answer (rowOrder p.orderBy true) p.distinct limit rows answer := by
  obtain ⟨kept, sorted, hdedup, hperm, hsorted, rfl⟩ := h
  have hwide : ∀ row ∈ sorted, row.length = width :=
    fun row hrow => (hrows row (TopK.Chosen.mem hdedup (hperm.mem_iff.1 hrow))).1
  refine ⟨kept, sorted, hdedup.chosen p.orderBy, hperm, hsorted.imp_of_mem ?_, rfl⟩
  intro a b ha hb hle
  rwa [rowOrder_eq_shardKeys p (hwide a ha) (hwide b hb)] at hle

theorem deduplicates_dedupRows (h : TotalOn (· ∈ rows) (rowOrder [] true)) (distinct : Bool) :
    Deduplicates distinct rows (if distinct then dedupRows rows else rows) := by
  cases distinct with
  | false => exact List.Perm.refl _
  | true =>
    have hmem : ∀ row ∈ dedupRows rows, row ∈ rows :=
      fun row hrow => (retainNew_sublist [] rows).subset hrow
    refine ⟨hmem, fun row hrow => ?_, ?_⟩
    · rcases retainNew_covers compareWholeRows_self [] rows row hrow with ⟨key, hkey, -⟩ | hkept
      · cases hkey
      · exact hkept
    · apply (retainNew_apart [] rows).1.imp_of_mem
      intro a b ha hb hne heq
      have hswap := h.eq_symm (hmem a ha) (hmem b hb) (rowOrder_eq_iff.2 heq)
      exact hne (rowOrder_eq_iff.1 hswap)

/-- What the coordinator sorts, cut where the shards cut, answers the concatenation. -/
theorem answer_mergeSort (p : PostProcess) (h : TotalOn P compareValues)
    (hrows : ∀ row ∈ rows, Wide P width row) (cut : Option Nat) :
    Answer (rowOrder p.orderBy true) p.distinct cut rows
      (TopK.cutAt cut ((if p.distinct then dedupRows rows else rows).mergeSort
        fun a b => (rowOrder p.orderBy true a b).isLE)) := by
  have hdedup := deduplicates_dedupRows (totalOn_rowOrder h hrows []) p.distinct
  refine ⟨_, _, hdedup.chosen p.orderBy, List.mergeSort_perm _ _, ?_, rfl⟩
  exact TopK.pairwise_mergeSort (totalOn_rowOrder h hrows p.orderBy) fun row hrow =>
    TopK.Chosen.mem hdedup hrow

/-- The rows of two answers, one by one equal under value comparison. -/
def SameRows (answer other : List Row) : Prop :=
  List.Forall₂ (fun a b => compareWholeRows a b = .eq) answer other

/-- **The answer does not depend on the split.**  Each shard answers with its own rows, without
    duplicates if asked for, sorted by the keys and then by every column, and cut at what the
    coordinator skips and keeps.  Merging gives the rows that sorting all of them once gives. -/
theorem mergePostProcess_of_split {p : PostProcess} {columns : List String}
    {shards : List (List Row)} {parts : List QueryResult} {whole : List Row}
    (htie : p.tiebreak = .wholeRow)
    (hwidth : ∀ row ∈ shards.flatten, row.length = columns.length)
    (htotal : TotalOn (fun v => ∃ row ∈ shards.flatten, v ∈ row) compareValues)
    (hlimit : ∀ n, p.limit = some n → n + p.offset < 2 ^ 64)
    (hparts : List.Forall₂ (fun rows part =>
      Selects p.distinct (shardKeys p columns.length) (shardLimit p) rows part.rows) shards parts)
    (hwhole : Selects p.distinct (shardKeys p columns.length) none shards.flatten whole) :
    SameRows (mergePostProcess p columns parts).rows
      (TopK.cutAt p.limit (whole.drop p.offset)) := by
  have hwide : ∀ row ∈ shards.flatten,
      Wide (fun v => ∃ row ∈ shards.flatten, v ∈ row) columns.length row :=
    fun row hrow => ⟨hwidth row hrow, fun v hv => ⟨row, hrow, hv⟩⟩
  have hcut : shardLimit p = p.limit.map (· + p.offset) := by
    rw [shardLimit]
    cases hp : p.limit with
    | none => rfl
    | some n => rw [Option.map_some, Option.map_some, Nat.mod_eq_of_lt (hlimit n hp)]
  rw [hcut] at hparts
  -- each shard's answer is one in the coordinator's order
  have hanswers : List.Forall₂
      (Answer (rowOrder p.orderBy true) p.distinct (p.limit.map (· + p.offset))) shards
      (parts.map QueryResult.rows) := by
    have hrows : ∀ rows ∈ shards, ∀ row ∈ rows,
        Wide (fun v => ∃ row ∈ shards.flatten, v ∈ row) columns.length row :=
      fun rows hrows row hrow => hwide row (List.mem_flatten.2 ⟨rows, hrows, hrow⟩)
    rw [List.forall₂_map_right_iff]
    exact ((List.forall₂_and_left _ _).2 ⟨hrows, hparts⟩).imp fun _ _ h => h.2.answer h.1
  have hsent : ∀ row ∈ (parts.map QueryResult.rows).flatten,
      Wide (fun v => ∃ row ∈ shards.flatten, v ∈ row) columns.length row :=
    fun row hrow => hwide row (TopK.mem_of_mem_answers hanswers row hrow)
  have hmerged := answer_mergeSort p htotal hsent (p.limit.map (· + p.offset))
  have hall := TopK.Answer.truncated (hwhole.answer hwide) (p.limit.map (· + p.offset))
  have hsame := TopK.answer_of_parts (totalOn_rowOrder htotal hwide p.orderBy) hanswers hmerged hall
  have hskipped := List.forall₂_drop p.offset hsame
  rw [TopK.drop_cutAt, TopK.drop_cutAt] at hskipped
  have hkeys : sortKeys p columns = p.orderBy := by rw [sortKeys, htie]
  have htrue : decide (p.tiebreak ≠ .none) = true := by rw [htie]; rfl
  rw [mergePostProcess, hkeys, htrue, finalizeRowsWith_eq]
  exact hskipped.imp fun _ _ => rowOrder_eq_iff.1

end Split

theorem totalOn_representable : TotalOn Representable compareValues :=
  ⟨fun _ _ => compareValues_swap, fun _ _ _ => compareValues_trans⟩

/-- Two shards, each with the number one: as an integer and as a float. -/
def onesAndOthers : List (List Row) :=
  [[[.integer 1], [.null]], [[.real 0x3FF0000000000000], [.integer 2]]]

/-- The second row of the distinct ones, largest first and NULLs last. -/
def secondLargest : PostProcess :=
  { distinct := true
    orderBy := [{ column := 0, descending := true, nullsFirst := false }]
    offset := 1
    limit := some 1
    tiebreak := .wholeRow }

theorem representable_onesAndOthers (v : Value) (h : ∃ row ∈ onesAndOthers.flatten, v ∈ row) :
    Representable v := by
  have hint : ∀ x : Int, x.natAbs ≤ 2 → Representable (.integer x) := by
    intro x hx
    refine ⟨⟨by omega, by omega⟩, Binary64.represented_of_le ?_⟩
    omega
  simp only [onesAndOthers, List.flatten_cons, List.flatten_nil, List.append_nil, List.cons_append,
    List.nil_append, List.mem_cons, List.not_mem_nil, or_false, exists_eq_or_imp,
    exists_eq_left] at h
  rcases h with rfl | rfl | rfl | rfl
  · exact hint 1 (by decide)
  · trivial
  · show Binary64.isNaN 0x3FF0000000000000 = false
    decide +kernel
  · exact hint 2 (by decide)

def onesAndOthersParts : List QueryResult :=
  [⟨["a"], [[.integer 1], [.null]]⟩, ⟨["a"], [[.integer 2], [.real 0x3FF0000000000000]]⟩]

theorem mergePostProcess_of_split_onesAndOthers :
    SameRows (mergePostProcess secondLargest ["a"] onesAndOthersParts).rows
      [[.real 0x3FF0000000000000]] := by
  have hselects : ∀ limit rows kept,
      TopK.Representatives compareWholeRows rows kept →
      kept.Pairwise (fun a b => (compareRows a b (shardKeys secondLargest 1)).isLE = true) →
      Selects true (shardKeys secondLargest 1) limit rows (TopK.cutAt limit kept) :=
    fun _ _ kept hreps hsorted => ⟨kept, kept, hreps, .refl _, hsorted, rfl⟩
  have hfirst := hselects (some 2) [[.integer 1], [.null]] [[.integer 1], [.null]]
    ⟨by decide, by decide +kernel, by decide +kernel⟩ (by decide +kernel)
  have hsecond := hselects (some 2) [[.real 0x3FF0000000000000], [.integer 2]]
    [[.integer 2], [.real 0x3FF0000000000000]]
    ⟨by decide, by decide +kernel, by decide +kernel⟩ (by decide +kernel)
  have hwhole := hselects none onesAndOthers.flatten
    [[.integer 2], [.real 0x3FF0000000000000], [.null]]
    ⟨by decide, by decide +kernel, by decide +kernel⟩ (by decide +kernel)
  have hwidth : ∀ row ∈ onesAndOthers.flatten, row.length = ["a"].length := by decide
  have hlimit : ∀ n, secondLargest.limit = some n → n + secondLargest.offset < 2 ^ 64 := by
    rintro n hn
    cases hn
    decide
  have hparts : List.Forall₂ (fun rows part => Selects secondLargest.distinct
      (shardKeys secondLargest ["a"].length) (shardLimit secondLargest) rows part.rows)
      onesAndOthers onesAndOthersParts := .cons hfirst (.cons hsecond .nil)
  exact mergePostProcess_of_split rfl hwidth
    (totalOn_representable.mono representable_onesAndOthers) hlimit hparts hwhole

end Shardlite.Query
