/-
  Shardlite.Base

  Identifiers, machine integers, errors and the few text formats that every
  other module shares.  Terms, versions, epochs and LSNs are plain `Nat`s, as
  they are plain `u64`s in the code.
-/
import Mathlib

namespace Shardlite

/-- Which node.  Stable across restarts; supplied by configuration. -/
abbrev NodeId := Nat

/-- A shard's number, a `u32` in the source. -/
abbrev ShardId := Nat

/-- A monotonic clock reading in nanoseconds from an arbitrary origin. -/
abbrev Instant := Int

abbrev Duration := Nat

/-- `Instant::duration_since`: zero when `earlier` is in fact later. -/
def durationSince (now earlier : Instant) : Duration := (now - earlier).toNat

/-! ## Unsigned 64-bit arithmetic -/

/-- One past the largest `u64`. -/
def u64Size : Nat := 2 ^ 64

/-- `a + 1` on a `u64` in a release build, where overflow wraps. -/
def wrappingSucc (a : Nat) : Nat := (a + 1) % u64Size

/-- `checked_add(1)` on a `u64`. -/
def checkedSucc (a : Nat) : Option Nat := if a + 1 < u64Size then some (a + 1) else none

/-- `saturating_add(1)` on a `u64`. -/
def saturatingSucc (a : Nat) : Nat := min (a + 1) (u64Size - 1)

theorem checkedSucc_eq_some_iff {a b : Nat} :
    checkedSucc a = some b ↔ a + 1 < u64Size ∧ b = a + 1 := by
  unfold checkedSucc
  split_ifs with h
  · simp [h, eq_comm]
  · simp [h]

theorem checkedSucc_eq_some {a b : Nat} (h : checkedSucc a = some b) : b = a + 1 :=
  (checkedSucc_eq_some_iff.1 h).2

/-! ## Errors -/

/-- The errors of the modelled functions, with what their messages show. -/
inductive Error where
  | manifest (msg : String)
  | clusterConfig (msg : String)
  | catalog (msg : String)
  | shardConfig (msg : String)
  | unsupported (msg : String)
  | fenced (token : String) (highestSeen : Nat)
  | notLeader (highestSeen : Nat)
  | writerBusy
  | writerGone
  | batchAborted (reason : String)
  | shardFollowed (shard : String)
  | promotionBlocked (waited : String)
  | departed
  | stopped
  /-- Not an error value: the thread stops with this message. -/
  | panicked (msg : String)
  | other (msg : String)
  deriving DecidableEq, Repr

/-- What the operating system answers to one file-system call. -/
abbrev IoResult := Except Error Unit

theorem bind_eq_ok {ε α β : Type} {x : Except ε α} {f : α → Except ε β} {b : β} :
    (x >>= f) = .ok b ↔ ∃ a, x = .ok a ∧ f a = .ok b := by
  cases x with
  | ok a =>
    constructor
    · intro h
      exact ⟨a, rfl, h⟩
    · rintro ⟨a', ha, hf⟩
      cases ha
      exact hf
  | error e =>
    constructor
    · intro h
      cases h
    · rintro ⟨a, ha, -⟩
      cases ha

theorem pure_eq_ok {ε α : Type} {a b : α} : (pure a : Except ε α) = .ok b ↔ a = b :=
  ⟨Except.ok.inj, congrArg Except.ok⟩

/-! ## Text formats -/

/-- `{:?}` of an `Option<u64>`. -/
def debugOption : Option Nat → String
  | none => "None"
  | some n => s!"Some({n})"

/-- `Display` of a `ShardId`. -/
def shardName (s : ShardId) : String := s!"shard_{s}"

/-- The digits of `frac / 10 ^ width` after the point, trailing zeros dropped. -/
def fractionDigits (width frac : Nat) : String :=
  let digits := (Nat.toDigits 10 frac)
  let padded := List.replicate (width - digits.length) '0' ++ digits
  String.ofList (padded.reverse.dropWhile (· == '0')).reverse

/-- A decimal with `width` fractional digits and a unit. -/
def formatDecimal (whole frac width : Nat) (unit : String) : String :=
  if frac = 0 then s!"{whole}{unit}" else s!"{whole}.{fractionDigits width frac}{unit}"

/-- `{:?}` of a `Duration`: the largest unit that gives a non-zero whole part. -/
def debugDuration (d : Duration) : String :=
  if d ≥ 10 ^ 9 then formatDecimal (d / 10 ^ 9) (d % 10 ^ 9) 9 "s"
  else if d ≥ 10 ^ 6 then formatDecimal (d / 10 ^ 6) (d % 10 ^ 6) 6 "ms"
  else if d ≥ 10 ^ 3 then formatDecimal (d / 10 ^ 3) (d % 10 ^ 3) 3 "µs"
  else s!"{d}ns"

end Shardlite
