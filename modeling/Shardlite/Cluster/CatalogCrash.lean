/-
  Shardlite.Cluster.CatalogCrash

  A catalog store whose calls can stop at any file-system step, by a crash or by an error of the
  system.  A call that runs on files which hold what the store has in memory moves them, at one
  of its steps, from what they held to what it leaves.  A call whose directory sync fails after
  the rename has changed the file and not the memory; the calls after it then write the other
  file for a catalog that is no longer there, and the store cannot be opened again.
-/
import Shardlite.Cluster.CatalogFiles
import Shardlite.Lib.Machine

namespace Shardlite.Cluster

/-! ## The store in memory -/

structure StoreMemory where
  inner : Catalog
  prepared : Option CatalogProposal
  deriving DecidableEq

namespace StoreMemory

def store (m : StoreMemory) : CatalogStore := ⟨m.inner, m.prepared, m.inner, m.prepared⟩

def ofStore (s : CatalogStore) : StoreMemory := ⟨s.inner, s.prepared⟩

def latest (m : StoreMemory) : Catalog := m.store.latest

/-- A prepared value that is the committed one is only waiting to be cleaned up. -/
def settled (m : StoreMemory) : StoreMemory :=
  if m.prepared.any fun p => decide (m.inner = p.catalog) then ⟨m.inner, none⟩ else m

end StoreMemory

/-- The calls that write.  A change leaves the version to `apply`, and versions are `u64`. -/
inductive StoreCall where
  | apply (expectedVersion : Nat) (change : Catalog → Except Error Catalog)
      (keeps : ∀ c next, change c = .ok next → next.version = c.version)
  | prepare (proposal : CatalogProposal)
  | commit (term version : Nat)
  | install (catalog : Catalog) (fits : catalog.version < u64Size)

/-- What a call leaves in memory when nothing goes wrong. -/
def StoreMemory.result (m : StoreMemory) : StoreCall → Except Error StoreMemory
  | .apply expectedVersion change _ => .ofStore <$> m.store.apply expectedVersion change
  | .prepare proposal => .ofStore <$> m.store.prepare proposal
  | .commit term version => .ofStore <$> m.store.commitPrepared term version
  | .install catalog _ => .ofStore <$> m.store.installCommitted catalog

/-! ## Calls step by step -/

/-- A step of a call: on a file, or on what is in memory. -/
inductive StoreStep where
  | file (step : FileStep)
  | setInner (catalog : Catalog)
  | setPrepared (proposal : Option CatalogProposal)
  deriving DecidableEq

structure Live where
  dir : Directory
  mem : StoreMemory
  deriving DecidableEq

def StoreStep.perform (σ : Live) : StoreStep → Live
  | .file step => ⟨step.perform σ.dir, σ.mem⟩
  | .setInner catalog => ⟨σ.dir, { σ.mem with inner := catalog }⟩
  | .setPrepared proposal => ⟨σ.dir, { σ.mem with prepared := proposal }⟩

def StoreStep.begin (σ : Live) (written : Nat) : StoreStep → Live
  | .file step => ⟨step.begin σ.dir written, σ.mem⟩
  | _ => σ

namespace Live

def complete (σ : Live) (steps : List StoreStep) : Live := steps.foldl StoreStep.perform σ

def stopped : Live → List StoreStep → Nat → Nat → Live
  | σ, [], _, _ => σ
  | σ, s :: _, 0, written => s.begin σ written
  | σ, s :: steps, place + 1, written => stopped (s.perform σ) steps place written

end Live

namespace StoreFiles

variable (f : StoreFiles)

/-- The checks of a call are those of the store; what it then does is listed step by step. -/
def steps (σ : Live) : StoreCall → Except Error (List StoreStep)
  | .apply expectedVersion change _ => do
    let s ← σ.mem.store.apply expectedVersion change
    let files ← f.persist s.inner
    return files.map .file ++ [.setInner s.inner]
  | .prepare proposal => do
    let s ← σ.mem.store.prepare proposal
    if s = σ.mem.store then return []
    let files ← f.persistProposal proposal
    return files.map .file ++ [.setPrepared (some proposal)]
  | .commit term version => do
    let s ← σ.mem.store.commitPrepared term version
    if s = σ.mem.store then return []
    if σ.mem.inner.version = version then
      return (removePrepared σ.dir).map .file ++ [.setPrepared none]
    let files ← f.persist s.inner
    return files.map .file ++ (.setInner s.inner :: (removePrepared σ.dir).map .file) ++
      [.setPrepared none]
  | .install catalog _ => do
    let s ← σ.mem.store.installCommitted catalog
    if s = σ.mem.store then return []
    let files ← f.persist catalog
    return files.map .file ++ [.setInner catalog]

/-- What `open` reads from the directory. -/
def readDir (d : Directory) : Except Error StoreMemory := do
  let catalog ← f.catalog.readValue f.hash catalogMagic f.catalogPath d.catalog
  catalog.validate
  match d.prepared with
  | none => return ⟨catalog, none⟩
  | some bytes =>
    let proposal ← f.proposal.readValue f.hash preparedMagic f.preparedPath bytes
    let s ← CatalogStore.openFiles catalog (some proposal)
    return .ofStore s

/-- What `open` then does: remove a prepared file that it did not take over. -/
def openSteps (d : Directory) (m : StoreMemory) : List StoreStep :=
  if d.prepared.isSome ∧ m.prepared.isNone then (removePrepared d).map .file else []

end StoreFiles

/-! ## Runs -/

/-- A store's directory, and its memory while it is open. -/
structure StoreWorld where
  dir : Directory
  mem : Option StoreMemory
  deriving DecidableEq

/-- How a call ends: it completes, a file step fails, or the process stops there. -/
inductive Ending where
  | finished
  | failed (place written : Nat) (error : String)
  | crashed (place written : Nat)
  deriving DecidableEq

/-- A call, a crash between calls, or the start after one. -/
inductive CrashAct where
  | call (call : StoreCall) (ending : Ending)
  | crash
  | reopen (ending : Ending)

namespace StoreFiles

variable (f : StoreFiles)

/-- What steps leave, and what is returned; nothing is when the process stops. -/
def finish (σ : Live) (steps : List StoreStep) : Ending → StoreWorld × Option (Except Error Unit)
  | .finished => (⟨(σ.complete steps).dir, some (σ.complete steps).mem⟩, some (.ok ()))
  | .failed place written error =>
    match steps[place]? with
    | some (.file step) =>
      (⟨(σ.stopped steps place written).dir, some (σ.stopped steps place written).mem⟩,
        some (.error (f.stepError error step)))
    | _ => (⟨(σ.complete steps).dir, some (σ.complete steps).mem⟩, some (.ok ()))
  | .crashed place written => (⟨(σ.stopped steps place written).dir, none⟩, none)

variable (w : StoreWorld)

/-- The store after a call, and what the call returned. -/
def callOn (call : StoreCall) (ending : Ending) : StoreWorld × Option (Except Error Unit) :=
  match w.mem with
  | none => (w, none)
  | some m =>
    match f.steps ⟨w.dir, m⟩ call with
    | .error e => (w, some (.error e))
    | .ok steps => f.finish ⟨w.dir, m⟩ steps ending

/-- A store that could not be opened is not there. -/
def reopenOn (ending : Ending) : StoreWorld :=
  match f.readDir w.dir with
  | .error _ => ⟨w.dir, none⟩
  | .ok m =>
    match f.finish ⟨w.dir, m⟩ (openSteps w.dir m) ending with
    | (w', some (.ok _)) => w'
    | (w', _) => ⟨w'.dir, none⟩

def crashStep : CrashAct → StoreWorld
  | .call call ending => (f.callOn w call ending).1
  | .crash => ⟨w.dir, none⟩
  | .reopen ending => f.reopenOn w ending

/-- The store that `create` leaves for a first catalog. -/
def created (c : Catalog) : StoreWorld := ⟨⟨f.catalogFile c, none, none⟩, some ⟨c, none⟩⟩

/-! ### The condition -/

variable (d : Directory) (m : StoreMemory)

def CatalogAgrees : Prop := d.catalog = f.catalogFile m.inner

/-- The prepared file is the one that the store has in memory; or it is gone and the store has
    not noticed yet that what it holds as prepared is committed. -/
def PreparedAgrees : Prop :=
  d.prepared = m.prepared.map f.preparedFile ∨
    d.prepared = none ∧ ∃ p ∈ m.prepared, m.inner = p.catalog

instance : Decidable (f.CatalogAgrees d m) :=
  inferInstanceAs (Decidable (_ = _))

instance : Decidable (f.PreparedAgrees d m) :=
  inferInstanceAs (Decidable (_ = _ ∨ _ = _ ∧ ∃ p ∈ m.prepared, m.inner = p.catalog))

/-- A file that the call does not write is the one that the store has in memory. -/
def CallReady : StoreCall → Prop
  | .apply _ _ _ => f.PreparedAgrees d m
  | .prepare proposal => f.CatalogAgrees d m ∧
      (m.inner = proposal.catalog ∨ m.prepared = some proposal → f.PreparedAgrees d m)
  | .commit _ version => f.PreparedAgrees d m ∧ (m.inner.version = version → f.CatalogAgrees d m)
  | .install catalog _ => f.PreparedAgrees d m ∧
      (m.inner.version = catalog.version → f.CatalogAgrees d m)

instance (call : StoreCall) : Decidable (f.CallReady d m call) := by
  unfold CallReady
  split <;> infer_instance

/-- Each call meets its condition on the files; crashes and starts are free. -/
def Ready : CrashAct → Prop
  | .call call _ => ∀ m ∈ w.mem, f.CallReady w.dir m call
  | .crash => True
  | .reopen _ => True

instance (a : CrashAct) : Decidable (f.Ready w a) := by
  unfold Ready
  split <;> infer_instance

/-! ### The property -/

/-- Reopening gives what it gave before or what the call was to leave, and the latter if the
    call returned `Ok`. -/
structure CallSafe (call : StoreCall) (ending : Ending) : Prop where
  atomic : ∃ before after, f.readDir w.dir = .ok before ∧
    f.readDir (f.callOn w call ending).1.dir = .ok after ∧
    (after = before ∨ ∃ m ∈ w.mem, ∃ r, m.result call = .ok r ∧ after = r.settled)
  kept : (f.callOn w call ending).2 = some (.ok ()) → ∃ m ∈ w.mem, ∃ r,
    m.result call = .ok r ∧ (f.callOn w call ending).1.mem = some r ∧
      f.readDir (f.callOn w call ending).1.dir = .ok r.settled

/-- What can be relied on in a state of a store. -/
structure CrashSafe : Prop where
  reopens : ∃ m, f.readDir w.dir = .ok m ∧
    ∀ digest, ∀ live ∈ w.mem, (live.store.durabilityPosition digest).version ≤
      (m.store.durabilityPosition digest).version
  calls : ∀ call ending, f.Ready w (.call call ending) → f.CallSafe w call ending
  opening : ∀ ending, f.readDir (f.reopenOn w ending).dir = f.readDir w.dir ∧
    ∀ m ∈ (f.reopenOn w ending).mem, f.readDir w.dir = .ok m
  catalogFile : ∀ bytes, f.catalogFormat.Damaged w.dir.catalog bytes →
    (f.hash (f.catalogFormat.bodyOf bytes) = f.hash (f.catalogFormat.bodyOf w.dir.catalog) →
      f.catalogFormat.bodyOf bytes = f.catalogFormat.bodyOf w.dir.catalog) →
    ∃ e, f.readDir { w.dir with catalog := bytes } = .error e
  preparedFile : ∀ file ∈ w.dir.prepared, ∀ bytes, f.preparedFormat.Damaged file bytes →
    (f.hash (f.preparedFormat.bodyOf bytes) = f.hash (f.preparedFormat.bodyOf file) →
      f.preparedFormat.bodyOf bytes = f.preparedFormat.bodyOf file) →
    ∃ e, f.readDir { w.dir with prepared := some bytes } = .error e

end StoreFiles

end Shardlite.Cluster
