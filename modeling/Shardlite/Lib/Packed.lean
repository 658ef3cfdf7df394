/-
  Shardlite.Lib.Packed

  A body of bytes in a file of its own: a mark that says what the file is, a checksum of the
  body, its length, and the body.  Reading such a file back is exact: it succeeds on what was
  packed and on nothing else.  So a file that was cut short is refused, and one that was altered
  is refused unless its checksum was made for what it was altered to.
-/
import Mathlib

namespace Packed

/-! ## Lengths in bytes -/

/-- The `k` lowest bytes of a number, the lowest first. -/
def leBytes : Nat → Nat → List UInt8
  | 0, _ => []
  | k + 1, n => UInt8.ofNat n :: leBytes k (n / 256)

def ofLeBytes : List UInt8 → Nat
  | [] => 0
  | b :: bs => b.toNat + 256 * ofLeBytes bs

@[simp] theorem length_leBytes (k n : Nat) : (leBytes k n).length = k := by
  induction k generalizing n with
  | zero => rfl
  | succ k ih => simp [leBytes, ih]

theorem ofLeBytes_leBytes {k n : Nat} (h : n < 256 ^ k) : ofLeBytes (leBytes k n) = n := by
  induction k generalizing n with
  | zero =>
    have : n = 0 := by simpa using h
    simp [leBytes, ofLeBytes, this]
  | succ k ih =>
    have hdiv : n / 256 < 256 ^ k := by
      rw [Nat.div_lt_iff_lt_mul (by norm_num), ← pow_succ]
      exact h
    rw [leBytes, ofLeBytes, ih hdiv, UInt8.toNat_ofNat']
    omega

theorem leBytes_ofLeBytes (bs : List UInt8) : leBytes bs.length (ofLeBytes bs) = bs := by
  induction bs with
  | nil => rfl
  | cons b bs ih =>
    have hb := b.toNat_lt
    have hdiv : (b.toNat + 256 * ofLeBytes bs) / 256 = ofLeBytes bs := by omega
    have hlow : UInt8.ofNat (b.toNat + 256 * ofLeBytes bs) = b := by
      apply UInt8.toNat.inj
      rw [UInt8.toNat_ofNat']
      omega
    rw [List.length_cons, leBytes, ofLeBytes, hdiv, hlow, ih]

/-! ## Packing -/

/-- What a kind of file starts with, how its body is hashed, and how long a body may be. -/
structure Format where
  mark : List UInt8
  hash : List UInt8 → Vector UInt8 32
  limit : Nat
  limit_lt : limit < 2 ^ 64

inductive Fault where
  | unknown
  | length (n : Nat)
  | checksum
  deriving DecidableEq

namespace Format

variable (f : Format)

def pack (body : List UInt8) : List UInt8 :=
  f.mark ++ (f.hash body).toList ++ leBytes 8 body.length ++ body

def start : Nat := f.mark.length + 32 + 8

def checksumOf (bytes : List UInt8) : List UInt8 := (bytes.drop f.mark.length).take 32

def lengthOf (bytes : List UInt8) : Nat :=
  ofLeBytes ((bytes.drop (f.mark.length + 32)).take 8)

def bodyOf (bytes : List UInt8) : List UInt8 := bytes.drop f.start

def unpack (bytes : List UInt8) : Except Fault (List UInt8) :=
  if bytes.length < f.start ∨ bytes.take f.mark.length ≠ f.mark then .error .unknown
  else if f.lengthOf bytes > f.limit ∨ bytes.length ≠ f.start + f.lengthOf bytes then
    .error (.length (f.lengthOf bytes))
  else if (f.hash (f.bodyOf bytes)).toList ≠ f.checksumOf bytes then .error .checksum
  else .ok (f.bodyOf bytes)

variable {f}

/-! ### The parts of a packed file -/

section Parts

variable (body : List UInt8)

@[simp] theorem length_pack : (f.pack body).length = f.start + body.length := by
  simp only [pack, start, List.length_append, Vector.length_toList, length_leBytes]

@[simp] theorem take_pack : (f.pack body).take f.mark.length = f.mark := by
  simp [pack, List.append_assoc]

@[simp] theorem checksumOf_pack : f.checksumOf (f.pack body) = (f.hash body).toList := by
  simp [checksumOf, pack, List.append_assoc]

@[simp] theorem bodyOf_pack : f.bodyOf (f.pack body) = body := by
  have hlen : (f.mark ++ (f.hash body).toList ++ leBytes 8 body.length).length = f.start := by
    simp [start]
  rw [bodyOf, pack, ← hlen, List.drop_left]

theorem lengthOf_pack (h : body.length ≤ f.limit) : f.lengthOf (f.pack body) = body.length := by
  have hlen : (f.mark ++ (f.hash body).toList).length = f.mark.length + 32 := by simp
  have htake : ((f.pack body).drop (f.mark.length + 32)).take 8 = leBytes 8 body.length := by
    rw [pack, List.append_assoc, ← hlen, List.drop_left, List.take_left' (length_leBytes _ _)]
  rw [lengthOf, htake, ofLeBytes_leBytes]
  have := f.limit_lt
  omega

end Parts

/-! ### Reading is exact -/

variable {bytes : List UInt8}

theorem unpack_pack {body : List UInt8} (h : body.length ≤ f.limit) :
    f.unpack (f.pack body) = .ok body := by
  unfold unpack
  rw [if_neg (by simp), if_neg (by rw [lengthOf_pack body h, length_pack]; omega), if_neg (by simp),
    bodyOf_pack]

theorem parts_append (h : f.start ≤ bytes.length) :
    bytes.take f.mark.length ++ f.checksumOf bytes ++ leBytes 8 (f.lengthOf bytes) ++
      f.bodyOf bytes = bytes := by
  have hlen : ((bytes.drop (f.mark.length + 32)).take 8).length = 8 := by
    rw [List.length_take, List.length_drop]
    simp only [start] at h
    omega
  have hfield : leBytes 8 (f.lengthOf bytes) = (bytes.drop (f.mark.length + 32)).take 8 := by
    have := leBytes_ofLeBytes ((bytes.drop (f.mark.length + 32)).take 8)
    rwa [hlen] at this
  have hrest : f.bodyOf bytes = ((bytes.drop f.mark.length).drop 32).drop 8 := by
    rw [bodyOf, start, List.drop_drop, List.drop_drop]
  rw [hfield, hrest, checksumOf, ← List.drop_drop, List.append_assoc, List.append_assoc,
    List.take_append_drop, List.take_append_drop, List.take_append_drop]

/-- **A file is read exactly when it is what packing its body gives.** -/
theorem unpack_eq_ok {body : List UInt8} :
    f.unpack bytes = .ok body ↔ bytes = f.pack body ∧ body.length ≤ f.limit := by
  constructor
  · intro h
    unfold unpack at h
    split_ifs at h with hunknown hlength hchecksum
    cases h
    rw [not_or, not_lt, not_not] at hunknown
    rw [not_or, not_lt, not_not] at hlength
    rw [not_not] at hchecksum
    have hbody : (f.bodyOf bytes).length = f.lengthOf bytes := by
      rw [bodyOf, List.length_drop]
      omega
    refine ⟨?_, by omega⟩
    conv_lhs => rw [← parts_append hunknown.1]
    rw [pack, hunknown.2, hchecksum, hbody]
  · rintro ⟨rfl, h⟩
    exact unpack_pack h

/-! ### Files that were cut short or altered -/

/-- The length stands before the body, so a file that goes on has it too. -/
theorem lengthOf_append (h : f.start ≤ bytes.length) (rest : List UInt8) :
    f.lengthOf (bytes ++ rest) = f.lengthOf bytes := by
  simp only [start] at h
  rw [lengthOf, lengthOf, List.drop_append_of_le_length (by omega),
    List.take_append_of_le_length (by rw [List.length_drop]; omega)]

/-- `bytes` came of `original` by cutting it short, by changing one side of what the checksum
    ties together (everything else under the checksum it had, or the checksum of the body), or
    by changing both so that they do not belong together. -/
def Damaged (f : Format) (original bytes : List UInt8) : Prop :=
  bytes ≠ original ∧ (bytes <+: original ∨ f.checksumOf bytes = f.checksumOf original ∨
    f.bodyOf bytes = f.bodyOf original ∨
    f.checksumOf bytes ≠ (f.hash (f.bodyOf bytes)).toList)

/-- **A damaged file is refused**, unless the hash of what stands for its body is the one that
    the body had. -/
theorem unpack_damaged {body : List UInt8} (hlimit : body.length ≤ f.limit)
    (hdamaged : f.Damaged (f.pack body) bytes)
    (hfree : f.hash (f.bodyOf bytes) = f.hash body → f.bodyOf bytes = body) :
    ∃ fault, f.unpack bytes = .error fault := by
  obtain ⟨hne, hkind⟩ := hdamaged
  cases h : f.unpack bytes with
  | error fault => exact ⟨fault, rfl⟩
  | ok read =>
    exfalso
    obtain ⟨rfl, hread⟩ := unpack_eq_ok.1 h
    rw [bodyOf_pack] at hfree
    rcases hkind with hcut | hsum | hbody | hboth
    · -- the length that was cut from is still in the file
      obtain ⟨rest, hrest⟩ := hcut
      have hlen : read.length = body.length := by
        rw [← lengthOf_pack read hread, ← lengthOf_pack body hlimit, ← hrest,
          lengthOf_append (by simp)]
      have hempty : rest.length = 0 := by
        have := congrArg List.length hrest
        rw [List.length_append, length_pack, length_pack] at this
        omega
      rw [List.length_eq_zero_iff.1 hempty, List.append_nil] at hrest
      exact hne hrest
    · rw [checksumOf_pack, checksumOf_pack] at hsum
      exact hne (by rw [hfree (Vector.toList_inj.1 hsum)])
    · rw [bodyOf_pack, bodyOf_pack] at hbody
      exact hne (by rw [hbody])
    · rw [checksumOf_pack, bodyOf_pack] at hboth
      exact hboth rfl

end Format

end Packed
