/-
  Shardlite.Shard.Lru

  The cache of open shards a writer thread keeps.  Room is made before a shard is
  opened, by dropping the entries that were used longest ago; an entry that is
  dropped takes with it whatever its owner kept in it.
-/
import Shardlite.Base
import Shardlite.Lib.OrdMap

namespace Shardlite.Shard

structure Lru (V : Type) where
  capacity : Nat
  tick : Nat := 0
  /-- What is held of each shard, with the tick of its last use. -/
  entries : OrdMap ShardId (Nat × V) := .empty

namespace Lru

variable {V : Type} (l : Lru V)

/-- Look at an entry without counting it as a use. -/
def peek (id : ShardId) : Option V := (l.entries.get? id).map Prod.snd

/-- Write through the reference a lookup gave. -/
def set (id : ShardId) (v : V) : Lru V :=
  match l.entries.get? id with
  | some (used, _) => { l with entries := l.entries.insert id (used, v) }
  | none => l

def remove (id : ShardId) : Lru V := { l with entries := l.entries.erase id }

def coldest : Option ShardId := (l.entries.entries.argmin fun e => e.2.1).map Prod.fst

/-- Drop the coldest entries until there is room for one more; `fuel` bounds the
    turns of the loop, each of which drops an entry. -/
def makeRoom : Nat → Lru V → Lru V × List ShardId
  | 0, l => (l, [])
  | fuel + 1, l =>
    if l.entries.size < l.capacity then (l, [])
    else
      match l.coldest with
      | none => (l, [])
      | some victim =>
        let (l', victims) := makeRoom fuel (l.remove victim)
        (l', victim :: victims)

/-- What a lookup gave, the cache after it, and the shards it dropped. -/
structure Lookup (V : Type) where
  value : Except Error V
  lru : Lru V
  victims : List ShardId

/-- The entry of `id`, made by `opened` if there is none. -/
def getOrOpen (id : ShardId) (opened : Except Error V) : Lookup V :=
  let l := { l with tick := l.tick + 1 }
  match l.entries.get? id with
  | some (_, v) => ⟨.ok v, { l with entries := l.entries.insert id (l.tick, v) }, []⟩
  | none =>
    let (l, victims) := l.makeRoom l.entries.size
    match opened with
    | .error e => ⟨.error e, l, victims⟩
    | .ok v => ⟨.ok v, { l with entries := l.entries.insert id (l.tick, v) }, victims⟩

variable {l}
variable {id s : ShardId} {v : V} {fuel : Nat}

theorem peek_set (s : ShardId) (hid : (l.peek id).isSome) :
    (l.set id v).peek s = if s = id then some v else l.peek s := by
  obtain ⟨⟨used, old⟩, hget⟩ : ∃ e, l.entries.get? id = some e := by
    rw [peek, Option.isSome_map] at hid
    exact Option.isSome_iff_exists.1 hid
  simp only [set, peek, hget, OrdMap.get?_insert]
  split_ifs <;> rfl

theorem of_peek_set {e : V} (h : (l.set id v).peek s = some e) :
    l.peek s = some e ∨ s = id ∧ e = v := by
  unfold set at h
  cases hget : l.entries.get? id with
  | none =>
    rw [hget] at h
    exact .inl h
  | some old =>
    simp only [hget, peek, OrdMap.get?_insert] at h
    split_ifs at h with hs
    · exact .inr ⟨hs, (Option.some.inj h).symm⟩
    · exact .inl h

theorem peek_remove (id s : ShardId) :
    (l.remove id).peek s = if s = id then none else l.peek s := by
  simp only [remove, peek, OrdMap.get?_erase]
  split_ifs <;> rfl

theorem peek_makeRoom (hs : s ∉ (l.makeRoom fuel).2) :
    (l.makeRoom fuel).1.peek s = l.peek s := by
  induction fuel generalizing l with
  | zero => rfl
  | succ fuel ih =>
    unfold makeRoom at hs ⊢
    split_ifs at hs ⊢ with hroom
    · rfl
    · cases hcold : l.coldest with
      | none => rfl
      | some victim =>
        simp only [hcold, List.mem_cons, not_or] at hs
        exact (ih hs.2).trans ((peek_remove victim s).trans (if_neg hs.1))

theorem peek_of_makeRoom (h : (l.makeRoom fuel).1.peek s = some v) : l.peek s = some v := by
  induction fuel generalizing l with
  | zero => exact h
  | succ fuel ih =>
    unfold makeRoom at h
    split_ifs at h with hroom
    · exact h
    · cases hcold : l.coldest with
      | none =>
        simp only [hcold] at h
        exact h
      | some victim =>
        simp only [hcold] at h
        have hleft := ih h
        rw [peek_remove] at hleft
        split_ifs at hleft
        exact hleft

section Lookup

variable {id : ShardId} {opened : Except Error V}

theorem getOrOpen_of_peek (h : l.peek id = some v) :
    (l.getOrOpen id opened).value = .ok v ∧ (l.getOrOpen id opened).victims = [] := by
  obtain ⟨⟨used, old⟩, hget, rfl⟩ := Option.map_eq_some_iff.1 h
  simp only [getOrOpen, hget, and_self]

theorem exists_getOrOpen_ok {w : V} : ∃ v, (l.getOrOpen id (.ok w)).value = .ok v := by
  unfold getOrOpen
  dsimp only
  cases l.entries.get? id with
  | some e => exact ⟨e.2, rfl⟩
  | none => exact ⟨w, rfl⟩

/-- A lookup leaves every entry it does not drop, other than the one asked for. -/
theorem peek_getOrOpen (hs : s ∉ (l.getOrOpen id opened).victims) (hne : s ≠ id) :
    (l.getOrOpen id opened).lru.peek s = l.peek s := by
  unfold getOrOpen at hs ⊢
  dsimp only at hs ⊢
  cases hget : l.entries.get? id with
  | some e => simp only [peek, OrdMap.get?_insert, if_neg hne]
  | none =>
    simp only [hget] at hs
    cases opened with
    | error e => exact peek_makeRoom (l := { l with tick := l.tick + 1 }) hs
    | ok v =>
      simp only [peek, OrdMap.get?_insert, if_neg hne]
      exact peek_makeRoom (l := { l with tick := l.tick + 1 }) hs

/-- After a lookup the cache holds nothing but what it held and what was opened. -/
theorem of_peek_getOrOpen (h : (l.getOrOpen id opened).lru.peek s = some v) :
    l.peek s = some v ∨ s = id ∧ opened = .ok v := by
  unfold getOrOpen at h
  dsimp only at h
  cases hget : l.entries.get? id with
  | some e =>
    simp only [hget, peek, OrdMap.get?_insert] at h
    split_ifs at h with hs
    · refine .inl ?_
      rw [peek, hs, hget]
      exact h
    · exact .inl h
  | none =>
    simp only [hget] at h
    cases opened with
    | error e => exact .inl (peek_of_makeRoom (l := { l with tick := l.tick + 1 }) h)
    | ok w =>
      simp only [peek, OrdMap.get?_insert] at h
      split_ifs at h with hs
      · exact .inr ⟨hs, congrArg Except.ok (Option.some.inj h)⟩
      · exact .inl (peek_of_makeRoom (l := { l with tick := l.tick + 1 }) h)

theorem peek_getOrOpen_self (h : (l.getOrOpen id opened).value = .ok v) :
    (l.getOrOpen id opened).lru.peek id = some v := by
  unfold getOrOpen at h ⊢
  dsimp only at h ⊢
  cases hget : l.entries.get? id with
  | some e =>
    simp only [hget, Except.ok.injEq] at h
    simp only [peek, OrdMap.get?_insert, if_true, Option.map_some, h]
  | none =>
    cases opened with
    | error e => simp only [hget, reduceCtorEq] at h
    | ok w =>
      simp only [hget, Except.ok.injEq] at h
      simp only [peek, OrdMap.get?_insert, if_true, Option.map_some, h]

end Lookup

end Lru

end Shardlite.Shard
