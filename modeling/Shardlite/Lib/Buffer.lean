/-
  Shardlite.Lib.Buffer

  A growing buffer, as a byte vector or a file is one: reading past the end gives
  the default element, resizing cuts or pads with it, and a write past the end
  pads up to where it begins.
-/
import Mathlib.Data.List.GetD
import Mathlib.Order.Lattice

namespace Shardlite.Buffer

variable {α : Type*} [Inhabited α]

def peek (l : List α) (i : Nat) : α := l.getD i default

/-- `Vec::resize`: cut, or fill up with the default. -/
def resize (l : List α) (n : Nat) : List α := l.take n ++ List.replicate (n - l.length) default

/-- Write `data` from `offset` on, growing the buffer where it is too short. -/
def writeAt (l : List α) (offset : Nat) (data : List α) : List α :=
  let l := if l.length < offset + data.length then resize l (offset + data.length) else l
  l.take offset ++ data ++ l.drop (offset + data.length)

variable {l l' data : List α} {n offset i : Nat}

theorem peek_of_length_le (h : l.length ≤ i) : peek l i = default := by
  rw [peek, List.getD_eq_default _ _ h]

theorem peek_append : peek (l ++ l') i = if i < l.length then peek l i else peek l' (i - l.length) := by
  unfold peek
  split_ifs with h
  · exact List.getD_append _ _ _ _ h
  · exact List.getD_append_right _ _ _ _ (not_lt.1 h)

theorem peek_take : peek (l.take n) i = if i < n then peek l i else default := by
  unfold peek
  rw [List.getD_eq_getElem?_getD, List.getD_eq_getElem?_getD, List.getElem?_take]
  split_ifs <;> rfl

theorem peek_drop : peek (l.drop n) i = peek l (n + i) := by
  unfold peek
  rw [List.getD_eq_getElem?_getD, List.getD_eq_getElem?_getD, List.getElem?_drop]

theorem length_resize : (resize l n).length = n := by
  unfold resize
  rw [List.length_append, List.length_take, List.length_replicate]
  omega

theorem peek_resize : peek (resize l n) i = if i < n then peek l i else default := by
  have hpad : ∀ m k, peek (List.replicate m (default : α)) k = default := by
    intro m k
    unfold peek
    rw [List.getD_eq_getElem?_getD, List.getElem?_replicate]
    split_ifs <;> rfl
  unfold resize
  rw [peek_append, hpad, peek_take, List.length_take]
  split_ifs with hboth hn hn
  · rfl
  · rfl
  · exact (peek_of_length_le (by omega)).symm
  · rfl

theorem peek_writeAt : peek (writeAt l offset data) i =
    if offset ≤ i ∧ i < offset + data.length then peek data (i - offset) else peek l i := by
  -- long enough, the buffer reads as it did
  obtain ⟨m, hm, hlen, hpeek⟩ : ∃ m, writeAt l offset data =
      m.take offset ++ data ++ m.drop (offset + data.length) ∧ offset + data.length ≤ m.length ∧
      ∀ k, peek m k = peek l k := by
    unfold writeAt
    dsimp only
    split_ifs with hshort
    · refine ⟨_, rfl, length_resize.ge, fun k => ?_⟩
      rw [peek_resize]
      split_ifs
      · rfl
      · exact (peek_of_length_le (by omega)).symm
    · exact ⟨l, rfl, not_lt.1 hshort, fun _ => rfl⟩
  rw [hm, peek_append, peek_append, peek_take, peek_drop, List.length_append, List.length_take,
    min_eq_left (by omega), hpeek, hpeek]
  split_ifs <;> first | omega | rfl | (congr 1; omega)

theorem length_le_writeAt : l.length ≤ (writeAt l offset data).length := by
  unfold writeAt
  dsimp only
  rw [List.length_append, List.length_append, List.length_take, List.length_drop]
  split_ifs
  · rw [length_resize]
    omega
  · omega

theorem ext_peek (hlen : l.length = l'.length) (h : ∀ i < l.length, peek l i = peek l' i) :
    l = l' := by
  refine List.ext_getElem hlen fun i hi hi' => ?_
  have hget := h i hi
  unfold peek at hget
  rwa [List.getD_eq_getElem _ _ hi, List.getD_eq_getElem _ _ hi'] at hget

end Shardlite.Buffer
