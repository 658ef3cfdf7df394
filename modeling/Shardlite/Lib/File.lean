/-
  Shardlite.Lib.File

  Files as lists of cells, written at an offset and cut or extended to a length.
  What lies past the end reads as `zero`, and a write or an extension past the end
  fills the gap with it.

  Performing a list of operations twice is performing it once: seen at one cell, an
  operation either leaves it or sets it, whatever was there, and so does a list of
  operations; the length is either raised to a bound or set.  Redoing operations from
  their start therefore makes up for any beginning of them that was already done.
-/
import Mathlib

namespace File

variable {α : Type*} (zero : α)

/-- An operation on a file's contents. -/
inductive Op (α : Type*) where
  /-- Write at an offset; writing nothing does not move the end of the file. -/
  | write (offset : Nat) (data : List α)
  | setLen (length : Nat)
  deriving DecidableEq, Repr

def resize (n : Nat) (file : List α) : List α :=
  file.take n ++ List.replicate (n - file.length) zero

def Op.apply (file : List α) : Op α → List α
  | .write offset data =>
    if data = [] then file
    else resize zero offset file ++ data ++ file.drop (offset + data.length)
  | .setLen n => resize zero n file

def perform (ops : List (Op α)) (file : List α) : List α := ops.foldl (Op.apply zero) file

@[simp] theorem perform_nil (file : List α) : perform zero [] file = file := rfl

@[simp] theorem perform_cons (op : Op α) (ops : List (Op α)) (file : List α) :
    perform zero (op :: ops) file = perform zero ops (op.apply zero file) := rfl

theorem perform_append (ops ops' : List (Op α)) (file : List α) :
    perform zero (ops ++ ops') file = perform zero ops' (perform zero ops file) :=
  List.foldl_append

/-! ## Cells and lengths -/

section Cells

variable {zero} {file : List α}

def cell (zero : α) (file : List α) (i : Nat) : α := file.getD i zero

variable {offset : Nat} {data : List α}

theorem ext_cell (zero : α) {file' : List α} (hlen : file.length = file'.length)
    (hcell : ∀ i, cell zero file i = cell zero file' i) : file = file' := by
  refine List.ext_getElem hlen fun i hi hi' => ?_
  have h := hcell i
  rwa [cell, cell, List.getD_eq_getElem _ _ hi, List.getD_eq_getElem _ _ hi'] at h

theorem cell_of_length_le {i : Nat} (h : file.length ≤ i) : cell zero file i = zero :=
  List.getD_eq_default _ _ h

@[simp] theorem length_resize (n : Nat) : (resize zero n file).length = n := by
  rw [resize, List.length_append, List.length_take, List.length_replicate]
  omega

theorem cell_resize (n i : Nat) :
    cell zero (resize zero n file) i = if i < n then cell zero file i else zero := by
  split_ifs with hi
  · by_cases hin : i < file.length
    · rw [cell, resize, List.getD_append _ _ _ _ (by rw [List.length_take]; omega), cell,
        List.getD_eq_getElem _ _ (by rw [List.length_take]; omega), List.getElem_take,
        List.getD_eq_getElem _ _ hin]
    · rw [cell, resize, List.getD_append_right _ _ _ _ (by rw [List.length_take]; omega),
        cell_of_length_le (by omega)]
      exact List.getD_replicate zero (by rw [List.length_take]; omega)
  · exact cell_of_length_le (by rw [length_resize]; omega)

theorem length_write (hdata : data ≠ []) :
    (Op.apply zero file (.write offset data)).length = max file.length (offset + data.length) := by
  rw [Op.apply, if_neg hdata, List.length_append, List.length_append, length_resize,
    List.length_drop]
  omega

theorem cell_write (hdata : data ≠ []) (i : Nat) :
    cell zero (Op.apply zero file (.write offset data)) i =
      if offset ≤ i ∧ i < offset + data.length then cell zero data (i - offset)
      else cell zero file i := by
  rw [Op.apply, if_neg hdata, List.append_assoc]
  have hres : (resize zero offset file).length = offset := length_resize offset
  by_cases hlo : i < offset
  · rw [if_neg (by omega), cell, List.getD_append _ _ _ _ (by omega)]
    exact (cell_resize offset i).trans (if_pos hlo)
  · rw [cell, List.getD_append_right _ _ _ _ (by omega), hres]
    by_cases hhi : i < offset + data.length
    · rw [if_pos ⟨by omega, hhi⟩, List.getD_append _ _ _ _ (by omega)]
      rfl
    · rw [if_neg (by omega), List.getD_append_right _ _ _ _ (by omega), List.getD_eq_getElem?_getD,
        List.getElem?_drop, cell, List.getD_eq_getElem?_getD]
      congr 2
      omega

end Cells

/-! ## Performing again -/

/-- At one cell an operation leaves what it finds, or sets it. -/
theorem cell_apply (op : Op α) (i : Nat) :
    (∀ file, cell zero (op.apply zero file) i = cell zero file i) ∨
      ∃ c, ∀ file, cell zero (op.apply zero file) i = c := by
  cases op with
  | write offset data =>
    by_cases hdata : data = []
    · exact .inl fun file => by rw [Op.apply, if_pos hdata]
    · by_cases hin : offset ≤ i ∧ i < offset + data.length
      · exact .inr ⟨_, fun file => (cell_write hdata i).trans (if_pos hin)⟩
      · exact .inl fun file => (cell_write hdata i).trans (if_neg hin)
  | setLen n =>
    by_cases hin : i < n
    · exact .inl fun file => (cell_resize n i).trans (if_pos hin)
    · exact .inr ⟨_, fun file => (cell_resize n i).trans (if_neg hin)⟩

theorem cell_perform (ops : List (Op α)) (i : Nat) :
    (∀ file, cell zero (perform zero ops file) i = cell zero file i) ∨
      ∃ c, ∀ file, cell zero (perform zero ops file) i = c := by
  induction ops with
  | nil => exact .inl fun _ => rfl
  | cons op ops ih =>
    rcases ih with hkeep | ⟨c, hset⟩
    · rcases cell_apply zero op i with hop | ⟨c, hop⟩
      · exact .inl fun file => (hkeep _).trans (hop file)
      · exact .inr ⟨c, fun file => (hkeep _).trans (hop file)⟩
    · exact .inr ⟨c, fun file => hset _⟩

theorem length_apply (op : Op α) :
    (∃ k, ∀ file, (op.apply zero file).length = max file.length k) ∨
      ∃ n, ∀ file, (op.apply zero file).length = n := by
  cases op with
  | write offset data =>
    by_cases hdata : data = []
    · exact .inl ⟨0, fun file => by rw [Op.apply, if_pos hdata, Nat.max_zero]⟩
    · exact .inl ⟨_, fun file => length_write hdata⟩
  | setLen n => exact .inr ⟨n, fun file => length_resize n⟩

theorem length_perform (ops : List (Op α)) :
    (∃ k, ∀ file, (perform zero ops file).length = max file.length k) ∨
      ∃ n, ∀ file, (perform zero ops file).length = n := by
  induction ops with
  | nil => exact .inl ⟨0, fun file => (Nat.max_zero _).symm⟩
  | cons op ops ih =>
    rcases ih with ⟨k, hraise⟩ | ⟨n, hset⟩
    · rcases length_apply zero op with ⟨k', hop⟩ | ⟨n, hop⟩
      · refine .inl ⟨max k' k, fun file => ?_⟩
        rw [perform_cons, hraise, hop, max_assoc]
      · exact .inr ⟨max n k, fun file => by rw [perform_cons, hraise, hop]⟩
    · exact .inr ⟨n, fun file => hset _⟩

/-- **Performing operations twice is performing them once.** -/
theorem perform_perform (ops : List (Op α)) (file : List α) :
    perform zero ops (perform zero ops file) = perform zero ops file := by
  refine ext_cell zero ?_ fun i => ?_
  · rcases length_perform zero ops with ⟨k, hraise⟩ | ⟨n, hset⟩
    · rw [hraise, hraise, max_assoc, max_self]
    · rw [hset, hset]
  · rcases cell_perform zero ops i with hkeep | ⟨c, hset⟩
    · exact hkeep _
    · rw [hset, hset]

/-- Redoing operations from their start makes up for a beginning already done. -/
theorem perform_of_cut {done ops : List (Op α)} (h : done <+: ops) (file : List α) :
    perform zero ops (perform zero done file) = perform zero ops file := by
  obtain ⟨rest, rfl⟩ := h
  rw [perform_append, perform_append, perform_perform]

end File
