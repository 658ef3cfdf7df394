/-
  Shardlite.Lib.OrdMap

  Finite maps as association lists in strictly increasing key order.  The order
  is part of the structure, so equality of maps is equality of contents and
  iteration visits the keys in order, as it does for an ordered tree map.
-/
import Mathlib

/-- A finite map from `K` to `V`, its entries in increasing key order. -/
structure OrdMap (K V : Type*) [LinearOrder K] where
  entries : List (K × V)
  sorted : entries.Pairwise fun a b => a.1 < b.1
  deriving DecidableEq

namespace OrdMap

variable {K V W : Type*} [LinearOrder K]

/-! ## Lookup -/

/-- The first value stored under `k`. -/
def lookup (k : K) : List (K × V) → Option V
  | [] => none
  | (k', v) :: rest => if k = k' then some v else lookup k rest

def get? (m : OrdMap K V) (k : K) : Option V := lookup k m.entries

def contains (m : OrdMap K V) (k : K) : Bool := (m.get? k).isSome

def keys (m : OrdMap K V) : List K := m.entries.map Prod.fst

def values (m : OrdMap K V) : List V := m.entries.map Prod.snd

def isEmpty (m : OrdMap K V) : Bool := m.entries.isEmpty

def size (m : OrdMap K V) : Nat := m.entries.length

variable {k : K} {es : List (K × V)} {v : V} {m : OrdMap K V}

theorem lookup_eq_none_of_forall_lt (h : ∀ e ∈ es, k < e.1) :
    lookup k es = none := by
  induction es with
  | nil => rfl
  | cons e es ih =>
    obtain ⟨k', v⟩ := e
    have hlt : k < k' := h (k', v) List.mem_cons_self
    rw [lookup, if_neg hlt.ne]
    exact ih fun e he => h e (List.mem_cons_of_mem _ he)

theorem lookup_eq_some_iff (hs : es.Pairwise fun a b => a.1 < b.1) :
    lookup k es = some v ↔ (k, v) ∈ es := by
  induction es with
  | nil => simp [lookup]
  | cons e es ih =>
    obtain ⟨k', v'⟩ := e
    obtain ⟨hlt, hs⟩ := List.pairwise_cons.1 hs
    by_cases hk : k = k'
    · subst hk
      have hnot : (k, v) ∉ es := fun hmem => lt_irrefl k (hlt (k, v) hmem)
      simp only [lookup, if_true, Option.some.injEq, List.mem_cons, Prod.mk.injEq, true_and,
        hnot, or_false]
      exact eq_comm
    · rw [lookup, if_neg hk, ih hs]
      simp only [List.mem_cons, Prod.mk.injEq, hk, false_and, false_or]

theorem get?_eq_some_iff :
    m.get? k = some v ↔ (k, v) ∈ m.entries :=
  lookup_eq_some_iff m.sorted

theorem forall_entries (m : OrdMap K V) (P : K → V → Prop) :
    (∀ e ∈ m.entries, P e.1 e.2) ↔ ∀ k v, m.get? k = some v → P k v :=
  ⟨fun h k v hv => h (k, v) (get?_eq_some_iff.1 hv), fun h e he => h e.1 e.2 (get?_eq_some_iff.2 he)⟩

theorem mem_values : v ∈ m.values ↔ ∃ k, m.get? k = some v := by
  simp [values, get?_eq_some_iff]

theorem mem_values_of_get? (h : m.get? k = some v) : v ∈ m.values := mem_values.2 ⟨k, h⟩

/-! ## Construction -/

def empty : OrdMap K V := ⟨[], List.Pairwise.nil⟩

instance : Inhabited (OrdMap K V) := ⟨empty⟩

@[simp] theorem get?_empty (k : K) : (empty : OrdMap K V).get? k = none := rfl

/-- Insertion keeping the list in key order, replacing an equal key. -/
def insertList (k : K) (v : V) : List (K × V) → List (K × V)
  | [] => [(k, v)]
  | (k', v') :: rest =>
    if k < k' then (k, v) :: (k', v') :: rest
    else if k = k' then (k, v) :: rest
    else (k', v') :: insertList k v rest

variable {e : K × V}

theorem mem_insertList_key (h : e ∈ insertList k v es) : e.1 = k ∨ e ∈ es := by
  induction es with
  | nil =>
    rw [insertList, List.mem_singleton] at h
    exact .inl (congrArg Prod.fst h)
  | cons x xs ih =>
    obtain ⟨k', v'⟩ := x
    simp only [insertList] at h
    split_ifs at h with hlt heq
    · rcases List.mem_cons.1 h with rfl | h
      · exact .inl rfl
      · exact .inr h
    · rcases List.mem_cons.1 h with rfl | h
      · exact .inl rfl
      · exact .inr (List.mem_cons_of_mem _ h)
    · rcases List.mem_cons.1 h with rfl | h
      · exact .inr List.mem_cons_self
      · exact (ih h).imp_right (List.mem_cons_of_mem _)

theorem sorted_insertList (hs : es.Pairwise fun a b => a.1 < b.1) :
    (insertList k v es).Pairwise fun a b => a.1 < b.1 := by
  induction es with
  | nil => exact List.pairwise_singleton _ _
  | cons x xs ih =>
    obtain ⟨k', v'⟩ := x
    obtain ⟨hlt, hxs⟩ := List.pairwise_cons.1 hs
    simp only [insertList]
    split_ifs with hkk heq
    · refine List.pairwise_cons.2 ⟨fun e he => ?_, hs⟩
      rcases List.mem_cons.1 he with rfl | he
      · exact hkk
      · exact hkk.trans (hlt e he)
    · subst heq
      exact List.pairwise_cons.2 ⟨hlt, hxs⟩
    · have hk' : k' < k := lt_of_le_of_ne (not_lt.1 hkk) (Ne.symm heq)
      refine List.pairwise_cons.2 ⟨fun e he => ?_, ih hxs⟩
      rcases mem_insertList_key he with h | h
      · exact h ▸ hk'
      · exact hlt e h

theorem lookup_insertList (k k₀ : K) (v : V) (es : List (K × V)) :
    lookup k₀ (insertList k v es) = if k₀ = k then some v else lookup k₀ es := by
  induction es with
  | nil => rfl
  | cons x xs ih =>
    obtain ⟨k', v'⟩ := x
    by_cases h : k₀ = k
    · rw [if_pos h, insertList]
      split_ifs with hlt heq
      · rw [lookup, if_pos h]
      · rw [lookup, if_pos h]
      · rw [lookup, if_neg (h ▸ heq), ih, if_pos h]
    · rw [if_neg h, insertList]
      split_ifs with hlt heq
      · rw [lookup, if_neg h]
      · rw [lookup, if_neg h, lookup, if_neg (heq ▸ h)]
      · rw [lookup, lookup, ih, if_neg h]

def insert (m : OrdMap K V) (k : K) (v : V) : OrdMap K V :=
  ⟨insertList k v m.entries, sorted_insertList m.sorted⟩

theorem insertList_of_forall_lt (h : ∀ e ∈ es, e.1 < k) :
    insertList k v es = es ++ [(k, v)] := by
  induction es with
  | nil => rfl
  | cons x xs ih =>
    obtain ⟨k', v'⟩ := x
    rw [List.forall_mem_cons] at h
    rw [insertList, if_neg (lt_asymm h.1), if_neg (ne_of_gt h.1), ih h.2, List.cons_append]

theorem entries_insert_of_forall_lt (v : V)
    (h : ∀ e ∈ m.entries, e.1 < k) : (m.insert k v).entries = m.entries ++ [(k, v)] :=
  insertList_of_forall_lt h

theorem insertList_insertList (k : K) (v v' : V) (es : List (K × V)) :
    insertList k v' (insertList k v es) = insertList k v' es := by
  induction es with
  | nil => simp only [insertList, lt_irrefl, if_false, if_true]
  | cons x xs ih =>
    obtain ⟨k₀, v₀⟩ := x
    rcases lt_trichotomy k k₀ with hlt | rfl | hgt
    · simp only [insertList, if_pos hlt, lt_irrefl, if_false, if_true]
    · simp only [insertList, lt_irrefl, if_false, if_true]
    · simp only [insertList, if_neg (lt_asymm hgt), if_neg hgt.ne', ih]

@[simp] theorem get?_insert (m : OrdMap K V) (k k₀ : K) (v : V) :
    (m.insert k v).get? k₀ = if k₀ = k then some v else m.get? k₀ :=
  lookup_insertList k k₀ v m.entries

theorem insert_insert (m : OrdMap K V) (k : K) (v v' : V) :
    (m.insert k v).insert k v' = m.insert k v' := by
  unfold insert
  congr 1
  exact insertList_insertList k v v' m.entries

theorem mem_entries_insert (he : e ∈ (m.insert k v).entries) :
    e = (k, v) ∨ e.1 ≠ k ∧ e ∈ m.entries := by
  have hget : (m.insert k v).get? e.1 = some e.2 := get?_eq_some_iff.2 he
  rw [get?_insert] at hget
  split_ifs at hget with hk
  · exact .inl (Prod.ext hk (Option.some.inj hget).symm)
  · exact .inr ⟨hk, get?_eq_some_iff.1 hget⟩

theorem mem_insert_self (m : OrdMap K V) (k : K) (v : V) : (k, v) ∈ (m.insert k v).entries :=
  get?_eq_some_iff.1 (by rw [get?_insert, if_pos rfl])

theorem mem_insert_of_ne (hne : e.1 ≠ k) (he : e ∈ m.entries) : e ∈ (m.insert k v).entries :=
  get?_eq_some_iff.1 (by rw [get?_insert, if_neg hne, get?_eq_some_iff.2 he])

theorem isEmpty_insert (m : OrdMap K V) (k : K) (v : V) : (m.insert k v).isEmpty = false :=
  List.isEmpty_eq_false_iff.2 (List.ne_nil_of_mem (m.mem_insert_self k v))

/-- Collecting pairs; a later pair replaces an earlier one with the same key. -/
def ofList (es : List (K × V)) : OrdMap K V :=
  es.foldl (fun m e => m.insert e.1 e.2) empty

theorem ext_get? {m' : OrdMap K V} (h : ∀ k, m.get? k = m'.get? k) : m = m' := by
  have hmem : ∀ e, e ∈ m.entries ↔ e ∈ m'.entries := by
    intro e
    rw [← get?_eq_some_iff (k := e.1), ← get?_eq_some_iff (k := e.1), h]
  have hnodup : ∀ m : OrdMap K V, m.entries.Nodup := fun m =>
    m.sorted.imp fun hlt heq => absurd (congrArg Prod.fst heq) hlt.ne
  have hperm : m.entries.Perm m'.entries :=
    (List.perm_ext_iff_of_nodup (hnodup m) (hnodup m')).2 hmem
  have heq : m.entries = m'.entries :=
    List.Perm.eq_of_pairwise (fun _ _ _ _ hab hba => absurd hab hba.asymm) m.sorted m'.sorted hperm
  cases m
  cases m'
  congr

theorem insert_of_get? (h : m.get? k = some v) :
    m.insert k v = m := by
  refine ext_get? fun k' => ?_
  rw [get?_insert]
  split_ifs with hk
  · rw [hk, h]
  · rfl

/-! ## Inserting several entries -/

/-- Insert the entries in order; a later one replaces an earlier one. -/
def insertAll (m : OrdMap K V) (es : List (K × V)) : OrdMap K V :=
  es.foldl (fun m e => m.insert e.1 e.2) m

theorem insertAll_append (m : OrdMap K V) (es es' : List (K × V)) :
    m.insertAll (es ++ es') = (m.insertAll es).insertAll es' :=
  List.foldl_append

theorem get?_insertAll (m : OrdMap K V) (es : List (K × V)) (k : K) :
    (m.insertAll es).get? k = ((empty.insertAll es).get? k).or (m.get? k) := by
  induction es generalizing m with
  | nil => rfl
  | cons e es ih =>
    have hcons : ∀ m : OrdMap K V, m.insertAll (e :: es) = (m.insert e.1 e.2).insertAll es :=
      fun _ => rfl
    rw [hcons, hcons, ih, ih (empty.insert e.1 e.2), get?_insert, get?_insert, get?_empty]
    split_ifs
    · cases (empty.insertAll es).get? k <;> rfl
    · rw [Option.or_none]

theorem get?_insertAll_of_sorted (m : OrdMap K V) (hes : es.Pairwise fun a b => a.1 < b.1) (k : K) :
    (m.insertAll es).get? k = (lookup k es).or (m.get? k) := by
  induction es generalizing m with
  | nil => rfl
  | cons e es ih =>
    obtain ⟨hlt, hes⟩ := List.pairwise_cons.1 hes
    have hcons : m.insertAll (e :: es) = (m.insert e.1 e.2).insertAll es := rfl
    rw [hcons, ih _ hes, get?_insert, lookup]
    split_ifs with hk
    · rw [lookup_eq_none_of_forall_lt (hk ▸ hlt)]
      rfl
    · rfl

theorem insertAll_entries (m : OrdMap K V) (es : List (K × V)) :
    m.insertAll (empty.insertAll es).entries = m.insertAll es := by
  refine ext_get? fun k => ?_
  rw [get?_insertAll_of_sorted m (empty.insertAll es).sorted, get?_insertAll m es]
  rfl

/-! ## Restriction -/

/-- Keep the entries that satisfy `p`. -/
def filter (m : OrdMap K V) (p : K → V → Bool) : OrdMap K V :=
  ⟨m.entries.filter fun e => p e.1 e.2, m.sorted.filter _⟩

def erase (m : OrdMap K V) (k : K) : OrdMap K V :=
  m.filter fun k' _ => k' ≠ k

theorem get?_filter_eq_some_iff {p : K → V → Bool} :
    (m.filter p).get? k = some v ↔ m.get? k = some v ∧ p k v := by
  rw [get?_eq_some_iff, get?_eq_some_iff]
  exact List.mem_filter

@[simp] theorem get?_erase (m : OrdMap K V) (k k₀ : K) :
    (m.erase k).get? k₀ = if k₀ = k then none else m.get? k₀ := by
  split_ifs with h
  · subst h
    rw [Option.eq_none_iff_forall_ne_some]
    intro v hv
    simpa using (get?_filter_eq_some_iff.1 hv).2
  · rw [Option.ext_iff]
    intro v
    rw [erase, get?_filter_eq_some_iff]
    simp [h]

theorem get?_of_erase {k₀ : K} (h : (m.erase k).get? k₀ = some v) :
    m.get? k₀ = some v := by
  rw [get?_erase] at h
  split_ifs at h
  exact h

theorem isEmpty_erase (hne : m.isEmpty = false) (hk : m.keys ≠ [k]) :
    (m.erase k).isEmpty = false := by
  by_contra hempty
  have hnil : (m.erase k).entries = [] := by simpa [isEmpty] using hempty
  have hall : ∀ k' ∈ m.keys, k' = k := by
    intro k' hk'
    obtain ⟨e, he, rfl⟩ := List.mem_map.1 hk'
    by_contra hother
    have hmem : e ∈ (m.erase k).entries := List.mem_filter.2 ⟨he, by simpa using hother⟩
    rw [hnil] at hmem
    exact List.not_mem_nil hmem
  have hnodup : m.keys.Nodup := by
    rw [keys, List.Nodup, List.pairwise_map]
    exact m.sorted.imp fun hlt => hlt.ne
  match hkeys : m.keys with
  | [] =>
    rw [keys, List.map_eq_nil_iff] at hkeys
    rw [isEmpty, hkeys] at hne
    exact Bool.noConfusion hne
  | [k'] => exact hk (by rw [hkeys, hall k' (by rw [hkeys]; exact List.mem_cons_self)])
  | a :: b :: rest =>
    rw [hkeys] at hnodup hall
    have hab : a = b := (hall a List.mem_cons_self).trans
      (hall b (List.mem_cons_of_mem _ List.mem_cons_self)).symm
    exact (List.nodup_cons.1 hnodup).1 (hab ▸ List.mem_cons_self)

/-! ## Values -/

/-- Apply `f` to every value. -/
def mapValues (m : OrdMap K V) (f : V → W) : OrdMap K W :=
  ⟨m.entries.map fun e => (e.1, f e.2), List.pairwise_map.2 m.sorted⟩

@[simp] theorem get?_mapValues (m : OrdMap K V) (f : V → W) (k : K) :
    (m.mapValues f).get? k = (m.get? k).map f := by
  have hlist : ∀ es : List (K × V), lookup k (es.map fun e => (e.1, f e.2)) =
      (lookup k es).map f := by
    intro es
    induction es with
    | nil => rfl
    | cons e es ih =>
      rw [List.map_cons, lookup, lookup, ih]
      split_ifs <;> rfl
  exact hlist m.entries

/-! ## Selection in key order -/

section Selection

variable {B I : Type*} {f : K × V → Option B} {key : I → K} {g : I → B} {is : List I}

theorem filterMap_of_keys (hs : es.Pairwise fun a b => a.1 < b.1)
    (his : is.Pairwise fun i j => key i < key j)
    (hsel : ∀ e ∈ es, (f e).isSome → ∃ i ∈ is, e.1 = key i)
    (hall : ∀ i ∈ is, ∃ v, (key i, v) ∈ es ∧ f (key i, v) = some (g i)) :
    es.filterMap f = is.map g := by
  induction es generalizing is with
  | nil =>
    cases is with
    | nil => rfl
    | cons i is =>
      obtain ⟨v, hv, _⟩ := hall i List.mem_cons_self
      cases hv
  | cons e es ih =>
    obtain ⟨hlt, hs⟩ := List.pairwise_cons.1 hs
    have hsel' : ∀ e' ∈ es, (f e').isSome → ∃ i ∈ is, e'.1 = key i :=
      fun e' he' => hsel e' (List.mem_cons_of_mem _ he')
    cases hf : f e with
    | none =>
      rw [List.filterMap_cons_none hf]
      refine ih hs his hsel' fun i hi => ?_
      obtain ⟨v, hv, hfv⟩ := hall i hi
      rcases List.mem_cons.1 hv with rfl | hv
      · rw [hf] at hfv
        cases hfv
      · exact ⟨v, hv, hfv⟩
    | some b =>
      rw [List.filterMap_cons_some hf]
      -- The first selected entry belongs to the first index: every other index
      -- belongs to a later entry.
      obtain ⟨i₀, hmem, hi₀⟩ := hsel e List.mem_cons_self (by rw [hf]; rfl)
      cases is with
      | nil => cases hmem
      | cons i is =>
        obtain ⟨hlt', his⟩ := List.pairwise_cons.1 his
        obtain ⟨v, hv, hfv⟩ := hall i List.mem_cons_self
        have he : e = (key i, v) := by
          rcases List.mem_cons.1 hv with h | h
          · exact h.symm
          · have h1 : e.1 < key i := hlt _ h
            rcases List.mem_cons.1 hmem with rfl | h2
            · exact absurd hi₀ h1.ne
            · exact absurd (hi₀ ▸ hlt' _ h2) (lt_asymm h1)
        have hb : b = g i := by
          rw [he, hfv] at hf
          exact (Option.some.inj hf).symm
        rw [List.map_cons, hb]
        congr 1
        refine ih hs his (fun e' he' hsome => ?_) fun j hj => ?_
        · obtain ⟨j, hj, hkey⟩ := hsel' e' he' hsome
          rcases List.mem_cons.1 hj with rfl | hj
          · have h1 := hlt e' he'
            rw [hkey, he] at h1
            exact absurd h1 (lt_irrefl _)
          · exact ⟨j, hj, hkey⟩
        · obtain ⟨v', hv', hfv'⟩ := hall j (List.mem_cons_of_mem _ hj)
          rcases List.mem_cons.1 hv' with h | h
          · have h1 : key i < key j := hlt' j hj
            rw [he] at h
            exact absurd (congrArg Prod.fst h) h1.ne'
          · exact ⟨v', h, hfv'⟩

/-- Selecting from a map the entries with the keys of `is`, in their order. -/
theorem filterMap_entries (his : is.Pairwise fun i j => key i < key j)
    (hsel : ∀ k v, m.get? k = some v → (f (k, v)).isSome → ∃ i ∈ is, k = key i)
    (hall : ∀ i ∈ is, ∃ v, m.get? (key i) = some v ∧ f (key i, v) = some (g i)) :
    m.entries.filterMap f = is.map g := by
  refine filterMap_of_keys m.sorted his (fun e he => hsel e.1 e.2 (get?_eq_some_iff.2 he)) ?_
  intro i hi
  obtain ⟨v, hv, hf⟩ := hall i hi
  exact ⟨v, get?_eq_some_iff.1 hv, hf⟩

end Selection

end OrdMap

/-- The elements of a finite set in the order an ordered set is iterated in. -/
def Finset.ascending {K : Type*} [LinearOrder K] (s : Finset K) : List K :=
  Quot.liftOn s.val (fun l => l.insertionSort (· ≤ ·)) fun a b h =>
    List.Perm.eq_of_pairwise (fun _ _ _ _ hle hge => le_antisymm hle hge)
      (List.pairwise_insertionSort (· ≤ ·) a) (List.pairwise_insertionSort (· ≤ ·) b)
      (((List.perm_insertionSort (· ≤ ·) a).trans h).trans
        (List.perm_insertionSort (· ≤ ·) b).symm)

@[simp] theorem Finset.mem_ascending {K : Type*} [LinearOrder K] {s : Finset K} {a : K} :
    a ∈ s.ascending ↔ a ∈ s := by
  obtain ⟨⟨l⟩, hl⟩ := s
  exact (List.perm_insertionSort (· ≤ ·) l).mem_iff
