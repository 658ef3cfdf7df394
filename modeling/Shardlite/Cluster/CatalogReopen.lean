/-
  Shardlite.Cluster.CatalogReopen

  Why a catalog store can always be reopened.  What the files hold is a pair that `open` accepts,
  and every step of a call leaves such a pair: the one that was there until the call's rename,
  and from then on one that opens as what the call leaves.
-/
import Shardlite.Cluster.CatalogCrash
import Shardlite.Cluster.CatalogRepair

namespace Shardlite.Cluster

/-! ## Steps that may stop anywhere -/

variable {σ : Live} {steps : List StoreStep}

namespace Live

/-- `Q` holds wherever the steps may stop, and when they are through. -/
def Throughout (Q : Live → Prop) : Live → List StoreStep → Prop
  | σ, [] => Q σ
  | σ, s :: steps => (∀ written, Q (s.begin σ written)) ∧ Throughout Q (s.perform σ) steps

theorem Throughout.stopped {Q : Live → Prop} (h : Throughout Q σ steps) (place written : Nat) :
    Q (σ.stopped steps place written) := by
  induction steps generalizing σ place with
  | nil => exact h
  | cons s steps ih =>
    cases place with
    | zero => exact h.1 written
    | succ place => exact ih h.2 place

theorem Throughout.mono {Q R : Live → Prop} (h : Throughout Q σ steps) (himp : ∀ σ, Q σ → R σ) :
    Throughout R σ steps := by
  induction steps generalizing σ with
  | nil => exact himp σ h
  | cons s steps ih => exact ⟨fun written => himp _ (h.1 written), ih h.2⟩

/-- `Q` does not look at the temporary file. -/
def IgnoresTmp (Q : Live → Prop) : Prop :=
  ∀ d m tmp, Q ⟨d, m⟩ → Q ⟨{ d with tmp }, m⟩

section Files

variable {Q : Live → Prop} {d : Directory} {m : StoreMemory} {rest : List StoreStep}

/-- Until a file is put into place nothing but the temporary file changes. -/
theorem throughout_write (hQ : IgnoresTmp Q) (format : Packed.Format) (slot : Slot)
    (body : List UInt8) (hbefore : Q ⟨d, m⟩) (hafter : Q ⟨d.put slot (format.pack body), m⟩)
    (hrest : Throughout Q ⟨d.put slot (format.pack body), m⟩ rest) :
    Throughout Q ⟨d, m⟩ ((StoreFiles.writeSteps format slot body).map .file ++ rest) := by
  have htmp : ∀ tmp, Q ⟨{ d with tmp }, m⟩ := fun tmp => hQ d m tmp hbefore
  refine ⟨fun _ => hbefore, fun _ => htmp _, fun _ => htmp _, fun _ => htmp _, fun _ => htmp _,
    fun _ => htmp _, fun _ => htmp _, ?_⟩
  -- what was written to the temporary file is by now the whole packed body
  cases slot with
  | catalog | prepared => exact ⟨fun _ => hafter, hrest⟩

theorem complete_write (format : Packed.Format) (slot : Slot) (body : List UInt8) :
    (⟨d, m⟩ : Live).complete ((StoreFiles.writeSteps format slot body).map .file ++ rest) =
      (⟨d.put slot (format.pack body), m⟩ : Live).complete rest := by
  cases slot with
  | catalog | prepared => rfl

theorem throughout_remove (hbefore : Q ⟨d, m⟩) (hafter : Q ⟨{ d with prepared := none }, m⟩)
    (hrest : Throughout Q ⟨{ d with prepared := none }, m⟩ rest) :
    Throughout Q ⟨d, m⟩ ((StoreFiles.removePrepared d).map .file ++ rest) := by
  unfold StoreFiles.removePrepared
  split_ifs
  · exact ⟨fun _ => hbefore, fun _ => hafter, hrest⟩
  · exact ⟨fun _ => hbefore, hrest⟩

theorem complete_remove (before : Directory) :
    (⟨d, m⟩ : Live).complete ((StoreFiles.removePrepared before).map .file ++ rest) =
      (⟨{ d with prepared := none }, m⟩ : Live).complete rest := by
  unfold StoreFiles.removePrepared
  split_ifs
  · rfl
  · rfl

end Files

end Live

/-! ## Pairs that open -/

variable {p : CatalogProposal}

namespace StoreMemory

/-- A pair that passes the checks of `open`. -/
structure Openable (m : StoreMemory) : Prop where
  valid : m.inner.validate = .ok ()
  fits : m.inner.version < u64Size
  prepared : ∀ p ∈ m.prepared, m.inner = p.catalog ∨ validateProposal m.inner p = .ok ()

variable {m : StoreMemory}

theorem settled_of_none (h : m.prepared = none) : m.settled = m := by
  rw [settled, h]
  rfl

theorem settled_of_stale (hp : m.prepared = some p)
    (h : m.inner = p.catalog) : m.settled = ⟨m.inner, none⟩ := by
  rw [settled, hp, Option.any_some, decide_eq_true h, if_pos rfl]

theorem settled_of_pending (hp : m.prepared = some p)
    (h : m.inner ≠ p.catalog) : m.settled = m := by
  rw [settled, hp, Option.any_some, decide_eq_false h, if_neg Bool.false_ne_true]

theorem latest_of_none (h : m.prepared = none) : m.latest = m.inner := by
  rw [latest, store, CatalogStore.latest, h]
  rfl

theorem latest_of_some (h : m.prepared = some p) :
    m.latest = p.catalog := by
  rw [latest, store, CatalogStore.latest, h]
  rfl

theorem latest_settled (m : StoreMemory) : m.settled.latest = m.latest := by
  cases hp : m.prepared with
  | none => rw [settled_of_none hp]
  | some p =>
    by_cases h : m.inner = p.catalog
    · rw [settled_of_stale hp h, latest_of_some hp, ← h]
      exact latest_of_none rfl
    · rw [settled_of_pending hp h]

namespace Openable

theorem settled (h : m.Openable) : m.settled.Openable := by
  cases hp : m.prepared with
  | none => rwa [settled_of_none hp]
  | some p =>
    by_cases hc : m.inner = p.catalog
    · rw [settled_of_stale hp hc]
      exact ⟨h.valid, h.fits, nofun⟩
    · rwa [settled_of_pending hp hc]

/-- A prepared value is the committed one, or the next version. -/
theorem version_prepared (h : m.Openable) (hp : m.prepared = some p) :
    p.catalog.version = m.inner.version ∨
      p.catalog.version = saturatingSucc m.inner.version := by
  rcases h.prepared p hp with hc | hval
  · exact .inl (by rw [hc])
  · exact .inr (CatalogStore.validateProposal_eq_ok hval).2.1

theorem version_le_saturatingSucc (h : m.Openable) :
    m.inner.version ≤ saturatingSucc m.inner.version := by
  have := h.fits
  rw [saturatingSucc]
  omega

end Openable

end StoreMemory

/-! ## What the files hold -/

namespace StoreFiles

variable (f : StoreFiles)

structure Stores (d : Directory) (m : StoreMemory) : Prop where
  catalog : d.catalog = f.catalogFile m.inner
  catalogFits : f.catalog.Fits m.inner
  prepared : d.prepared = m.prepared.map f.preparedFile
  preparedFits : ∀ p ∈ m.prepared, f.proposal.Fits p

variable {f} {d : Directory} {m m' : StoreMemory}
variable {c : Catalog}

section

variable (hs : f.Stores d m)

include hs

/-- Files that hold a pair which opens are read as that pair, settled. -/
theorem readDir_of_stores (ho : m.Openable) :
    f.readDir d = .ok m.settled := by
  unfold readDir
  rw [hs.catalog, catalogFile, readValue_fileOf hs.catalogFits]
  refine bind_eq_ok.2 ⟨m.inner, rfl, bind_eq_ok.2 ⟨(), ho.valid, ?_⟩⟩
  rw [hs.prepared]
  cases hp : m.prepared with
  | none =>
    rw [StoreMemory.settled_of_none hp]
    obtain ⟨inner, pending⟩ := m
    cases hp
    rfl
  | some p =>
    simp only [Option.map_some]
    rw [preparedFile, readValue_fileOf (hs.preparedFits p hp)]
    refine bind_eq_ok.2 ⟨p, rfl, bind_eq_ok.2 ?_⟩
    unfold CatalogStore.openFiles
    by_cases hc : m.inner = p.catalog
    · refine ⟨⟨m.inner, none, m.inner, none⟩, ?_, by rw [StoreMemory.settled_of_stale hp hc]; rfl⟩
      exact bind_eq_ok.2 ⟨(), ho.valid, if_pos hc⟩
    · refine ⟨⟨m.inner, some p, m.inner, some p⟩, ?_, ?_⟩
      · refine bind_eq_ok.2 ⟨(), ho.valid, (if_neg hc).trans ?_⟩
        exact bind_eq_ok.2 ⟨(), (ho.prepared p hp).resolve_left hc, rfl⟩
      · rw [StoreMemory.settled_of_pending hp hc, ← hp]
        rfl

theorem Stores.inner_eq (h : f.CatalogAgrees d m') : m.inner = m'.inner :=
  fileOf_inj hs.catalogFits (hs.catalog.symm.trans h)

/-- Files that hold what is in memory, or all of it that is not waiting for cleanup. -/
theorem Stores.prepared_eq (h : f.PreparedAgrees d m') :
    m.prepared = m'.prepared ∨ m.prepared = none ∧ ∃ p ∈ m'.prepared, m'.inner = p.catalog := by
  rcases h with h | ⟨h, hstale⟩
  · have hfiles := hs.prepared.symm.trans h
    cases hp : m.prepared with
    | none =>
      rw [hp, Option.map_none, eq_comm, Option.map_eq_none_iff] at hfiles
      exact .inl hfiles.symm
    | some p =>
      rw [hp, Option.map_some, eq_comm, Option.map_eq_some_iff] at hfiles
      obtain ⟨q, hq, hfile⟩ := hfiles
      rw [hq, fileOf_inj (hs.preparedFits p hp) hfile.symm]
      exact .inl rfl
  · exact .inr ⟨Option.map_eq_none_iff.1 (hs.prepared.symm.trans h), hstale⟩

theorem Stores.prepared_none (h : f.PreparedAgrees d m')
    (hnone : m'.prepared = none) : m.prepared = none := by
  rcases hs.prepared_eq h with hsame | ⟨hnone', -⟩
  · exact hsame.trans hnone
  · exact hnone'

theorem Stores.settled_eq (hc : f.CatalogAgrees d m')
    (hp : f.PreparedAgrees d m') : m.settled = m'.settled := by
  have hinner := hs.inner_eq hc
  obtain ⟨inner, pending⟩ := m
  obtain ⟨inner', pending'⟩ := m'
  cases hinner
  rcases hs.prepared_eq hp with hsame | ⟨hnone, p, hp', hstale⟩
  · cases hsame
    rfl
  · cases hnone
    cases hp'
    rw [StoreMemory.settled_of_stale rfl hstale]
    rfl

end

/-! ## Putting a file into place -/

theorem Stores.tmp (hs : f.Stores d m) (tmp : Option (List UInt8)) :
    f.Stores { d with tmp } m :=
  ⟨hs.catalog, hs.catalogFits, hs.prepared, hs.preparedFits⟩

theorem Stores.put_catalog (hs : f.Stores d m) (hc : f.catalog.Fits c) :
    f.Stores (d.put .catalog (f.catalogFile c)) { m with inner := c } :=
  ⟨rfl, hc, hs.prepared, hs.preparedFits⟩

theorem Stores.put_prepared (hs : f.Stores d m) (hp : f.proposal.Fits p) :
    f.Stores (d.put .prepared (f.preparedFile p)) { m with prepared := some p } := by
  refine ⟨hs.catalog, hs.catalogFits, rfl, fun q hq => ?_⟩
  cases hq
  exact hp

theorem Stores.remove (hs : f.Stores d m) :
    f.Stores { d with prepared := none } { m with prepared := none } :=
  ⟨hs.catalog, hs.catalogFits, rfl, nofun⟩

/-! ## What a call's steps keep -/

/-- The files hold a pair that opens and is not behind the memory. -/
structure Held (f : StoreFiles) (σ : Live) (disk : StoreMemory) : Prop where
  stores : f.Stores σ.dir disk
  opens : disk.Openable
  live : σ.mem.Openable
  version : σ.mem.latest.version ≤ disk.latest.version

/-- The files open as what they were before, or as what the call leaves. -/
def Between (f : StoreFiles) (before after : StoreMemory) (σ : Live) : Prop :=
  ∃ disk, f.Held σ disk ∧ (disk.settled = before ∨ disk.settled = after)

/-- The steps take the store from `before` to `after` and may stop anywhere. -/
structure Carries (f : StoreFiles) (σ : Live) (steps : List StoreStep)
    (before after : StoreMemory) : Prop where
  throughout : σ.Throughout (f.Between before after.settled) steps
  stored : ∃ disk, f.Held (σ.complete steps) disk ∧ disk.settled = after.settled
  memory : (σ.complete steps).mem = after

theorem ignoresTmp_between (before after : StoreMemory) :
    Live.IgnoresTmp (f.Between before after) := by
  rintro d m tmp ⟨disk, ⟨hstores, hopens, hlive, hversion⟩, hwhich⟩
  exact ⟨disk, ⟨hstores.tmp tmp, hopens, hlive, hversion⟩, hwhich⟩

section Steps

variable {disk : StoreMemory}

theorem Held.before (h : f.Held ⟨d, m⟩ disk) (after : StoreMemory) :
    f.Between disk.settled after ⟨d, m⟩ :=
  ⟨disk, h, .inl rfl⟩

theorem Held.after {before after : StoreMemory} (h : f.Held σ disk)
    (hsettled : disk.settled = after) : f.Between before after σ :=
  ⟨disk, h, .inr hsettled⟩

section

variable (h : f.Held ⟨d, m⟩ disk)

include h

theorem carries_nil (hsettled : disk.settled = m.settled) :
    f.Carries ⟨d, m⟩ [] disk.settled m :=
  ⟨h.before _, ⟨disk, h, hsettled⟩, rfl⟩

theorem carries_catalog (hm : m.prepared = none)
    (hdisk : disk.prepared = none) (hfits : f.catalog.Fits c)
    (hvalid : c.validate = .ok ()) (hu64 : c.version < u64Size)
    (hversion : m.inner.version ≤ c.version) :
    f.Carries ⟨d, m⟩
      ((writeSteps f.catalogFormat .catalog (f.catalog.encode c)).map .file ++ [.setInner c])
      disk.settled ⟨c, none⟩ := by
  obtain ⟨inner, pending⟩ := m
  obtain ⟨onDisk, pendingDisk⟩ := disk
  cases hm
  cases hdisk
  have hnew : (⟨c, none⟩ : StoreMemory).Openable := ⟨hvalid, hu64, nofun⟩
  have hput : f.Stores (d.put .catalog (f.catalogFile c)) ⟨c, none⟩ := h.stores.put_catalog hfits
  have hrenamed : f.Held ⟨d.put .catalog (f.catalogFile c), ⟨inner, none⟩⟩ ⟨c, none⟩ :=
    ⟨hput, hnew, h.live, hversion⟩
  have hdone : f.Held ⟨d.put .catalog (f.catalogFile c), ⟨c, none⟩⟩ ⟨c, none⟩ :=
    ⟨hput, hnew, hnew, le_rfl⟩
  refine ⟨?_, ⟨⟨c, none⟩, ?_, rfl⟩, ?_⟩
  · exact Live.throughout_write (ignoresTmp_between _ _) _ _ _ (h.before _) (hrenamed.after rfl)
      ⟨fun _ => hrenamed.after rfl, hdone.after rfl⟩
  · rw [Live.complete_write]
    exact hdone
  · rw [Live.complete_write]
    rfl

theorem carries_prepared (hdisk : disk.inner = m.inner)
    (hfits : f.proposal.Fits p)
    (hvalid : validateProposal m.inner p = .ok ()) :
    f.Carries ⟨d, m⟩
      ((writeSteps f.preparedFormat .prepared (f.proposal.encode p)).map .file ++
        [.setPrepared (some p)]) disk.settled ⟨m.inner, some p⟩ := by
  obtain ⟨inner, pending⟩ := m
  obtain ⟨onDisk, pendingDisk⟩ := disk
  cases hdisk
  have hnext := (CatalogStore.validateProposal_eq_ok hvalid).2.1
  have hnew : (⟨inner, some p⟩ : StoreMemory).Openable := by
    refine ⟨h.live.valid, h.live.fits, fun q hq => ?_⟩
    cases hq
    exact .inr hvalid
  have hput : f.Stores (d.put .prepared (f.preparedFile p)) ⟨inner, some p⟩ :=
    h.stores.put_prepared hfits
  have hversion : (StoreMemory.latest ⟨inner, pending⟩).version ≤ p.catalog.version := by
    have hle := h.live.version_le_saturatingSucc
    cases pending with
    | none => exact hle.trans hnext.ge
    | some q =>
      rw [StoreMemory.latest_of_some rfl, hnext]
      rcases h.live.version_prepared rfl with hsame | hsucc
      · exact hsame.le.trans hle
      · exact hsucc.le
  have hrenamed : f.Held ⟨d.put .prepared (f.preparedFile p), ⟨inner, pending⟩⟩ ⟨inner, some p⟩ :=
    ⟨hput, hnew, h.live, hversion⟩
  have hdone : f.Held ⟨d.put .prepared (f.preparedFile p), ⟨inner, some p⟩⟩ ⟨inner, some p⟩ :=
    ⟨hput, hnew, hnew, le_rfl⟩
  refine ⟨?_, ⟨⟨inner, some p⟩, ?_, rfl⟩, ?_⟩
  · exact Live.throughout_write (ignoresTmp_between _ _) _ _ _ (h.before _) (hrenamed.after rfl)
      ⟨fun _ => hrenamed.after rfl, hdone.after rfl⟩
  · rw [Live.complete_write]
    exact hdone
  · rw [Live.complete_write]
    rfl

theorem carries_cleanup (hm : m.prepared = some p)
    (hdisk : disk.inner = m.inner)
    (hversion : p.catalog.version = m.inner.version) :
    f.Carries ⟨d, m⟩ ((removePrepared d).map .file ++ [.setPrepared none]) disk.settled
      ⟨m.inner, none⟩ := by
  obtain ⟨inner, pending⟩ := m
  obtain ⟨onDisk, pendingDisk⟩ := disk
  cases hdisk
  cases hm
  have hnew : (⟨inner, none⟩ : StoreMemory).Openable :=
    ⟨h.live.valid, h.live.fits, nofun⟩
  have hremoved : f.Held ⟨{ d with prepared := none }, ⟨inner, some p⟩⟩ ⟨inner, none⟩ :=
    ⟨h.stores.remove, hnew, h.live, hversion.le⟩
  have hdone : f.Held ⟨{ d with prepared := none }, ⟨inner, none⟩⟩ ⟨inner, none⟩ :=
    ⟨h.stores.remove, hnew, hnew, le_rfl⟩
  refine ⟨?_, ⟨⟨inner, none⟩, ?_, rfl⟩, ?_⟩
  · exact Live.throughout_remove (h.before _) (hremoved.after rfl)
      ⟨fun _ => hremoved.after rfl, hdone.after rfl⟩
  · rw [Live.complete_remove]
    exact hdone
  · rw [Live.complete_remove]
    rfl

theorem carries_commit (hm : m.prepared = some p)
    (hdisk : disk.prepared = some p) (hne : m.inner ≠ p.catalog)
    (hfits : f.catalog.Fits p.catalog) :
    f.Carries ⟨d, m⟩
      ((writeSteps f.catalogFormat .catalog (f.catalog.encode p.catalog)).map .file ++
        (.setInner p.catalog :: (removePrepared d).map .file) ++ [.setPrepared none])
      disk.settled ⟨p.catalog, none⟩ := by
  obtain ⟨inner, pending⟩ := m
  obtain ⟨onDisk, pendingDisk⟩ := disk
  cases hm
  cases hdisk
  have hproposal := (h.live.prepared p rfl).resolve_left hne
  obtain ⟨-, hnext, hvalid⟩ := CatalogStore.validateProposal_eq_ok hproposal
  have hu64 : p.catalog.version < u64Size := by
    rw [hnext, saturatingSucc, u64Size]
    omega
  have hstale : (⟨p.catalog, some p⟩ : StoreMemory).Openable :=
    ⟨hvalid, hu64, fun q hq => .inl (congrArg CatalogProposal.catalog (Option.some.inj hq))⟩
  have hsettled : (⟨p.catalog, some p⟩ : StoreMemory).settled = ⟨p.catalog, none⟩ :=
    StoreMemory.settled_of_stale rfl rfl
  have hput : f.Stores (d.put .catalog (f.catalogFile p.catalog)) ⟨p.catalog, some p⟩ :=
    h.stores.put_catalog hfits
  have hrenamed : f.Held ⟨d.put .catalog (f.catalogFile p.catalog), ⟨inner, some p⟩⟩
      ⟨p.catalog, some p⟩ := ⟨hput, hstale, h.live, le_rfl⟩
  have hset : f.Held ⟨d.put .catalog (f.catalogFile p.catalog), ⟨p.catalog, some p⟩⟩
      ⟨p.catalog, some p⟩ := ⟨hput, hstale, hstale, le_rfl⟩
  -- from here on the call is the cleanup of a committed value
  have hclean := carries_cleanup hset rfl rfl rfl
  rw [hsettled] at hclean
  have hremove : removePrepared (d.put .catalog (f.catalogFile p.catalog)) = removePrepared d := rfl
  rw [hremove] at hclean
  have hlate : ∀ σ, f.Between ⟨p.catalog, none⟩ ⟨p.catalog, none⟩ σ →
      f.Between (StoreMemory.settled ⟨onDisk, some p⟩) ⟨p.catalog, none⟩ σ := by
    rintro σ ⟨disk, hheld, hwhich⟩
    exact hheld.after (hwhich.elim id id)
  rw [List.append_assoc, List.cons_append]
  refine ⟨?_, ?_, ?_⟩
  · exact Live.throughout_write (ignoresTmp_between _ _) _ _ _ (h.before _) (hrenamed.after hsettled)
      ⟨fun _ => hrenamed.after hsettled, hclean.throughout.mono hlate⟩
  · rw [Live.complete_write]
    exact hclean.stored
  · rw [Live.complete_write]
    exact hclean.memory

end

/-! ### The four calls -/

theorem fits_of_persist {files : List FileStep} (h : f.persist c = .ok files) :
    f.catalog.Fits c ∧
      files = writeSteps f.catalogFormat .catalog (f.catalog.encode c) :=
  persistValue_eq_ok.1 h

section

variable (h : f.Held ⟨d, m⟩ disk)

include h

theorem apply_carries {expected : Nat}
    {change : Catalog → Except Error Catalog}
    {keeps : ∀ c next, change c = .ok next → next.version = c.version}
    (hready : f.CallReady d m (.apply expected change keeps))
    (hsteps : f.steps ⟨d, m⟩ (.apply expected change keeps) = .ok steps) :
    ∃ r, m.result (.apply expected change keeps) = .ok r ∧
      f.Carries ⟨d, m⟩ steps disk.settled r := by
  obtain ⟨s, happly, hsteps⟩ := bind_eq_ok.1 hsteps
  obtain ⟨files, hfiles, hsteps⟩ := bind_eq_ok.1 hsteps
  obtain ⟨hfits, rfl⟩ := fits_of_persist hfiles
  cases hsteps
  have hversion := CatalogStore.apply_version keeps happly
  obtain ⟨next, rfl, hnone, hvalid⟩ := CatalogStore.apply_cases happly
  have hdisk : disk.prepared = none := h.stores.prepared_none hready hnone
  refine ⟨⟨next, none⟩, ?_, carries_catalog h hnone hdisk hfits hvalid ?_ ?_⟩
  · rw [StoreMemory.result, happly]
    exact congrArg Except.ok (congrArg (StoreMemory.mk next) hnone)
  · exact hversion.2
  · exact hversion.1

theorem prepare_carries (hready : f.CallReady d m (.prepare p))
    (hsteps : f.steps ⟨d, m⟩ (.prepare p) = .ok steps) :
    ∃ r, m.result (.prepare p) = .ok r ∧ f.Carries ⟨d, m⟩ steps disk.settled r := by
  obtain ⟨s, hprepare, hsteps⟩ := bind_eq_ok.1 hsteps
  have hresult : m.result (.prepare p) = .ok (.ofStore s) := by
    rw [StoreMemory.result, hprepare]
    rfl
  obtain ⟨hcatalog, hknown⟩ := hready
  refine ⟨_, hresult, ?_⟩
  rcases CatalogStore.prepare_cases hprepare with ⟨rfl, hcommitted⟩ | ⟨rfl, hprepared, -⟩ |
    ⟨rfl, hne, hvalid, hterm⟩
  · rw [if_pos rfl] at hsteps
    cases hsteps
    exact carries_nil h (h.stores.settled_eq hcatalog (hknown (.inl hcommitted)))
  · rw [if_pos rfl] at hsteps
    cases hsteps
    exact carries_nil h (h.stores.settled_eq hcatalog (hknown (.inr hprepared)))
  · have hnew : ({ m.store with preparedFile := some p, prepared := some p } : CatalogStore) ≠
        m.store := by
      intro hsame
      exact lt_irrefl _ (hterm p (congrArg CatalogStore.prepared hsame).symm)
    rw [if_neg hnew] at hsteps
    obtain ⟨files, hfiles, hsteps⟩ := bind_eq_ok.1 hsteps
    obtain ⟨hfits, rfl⟩ := persistValue_eq_ok.1 hfiles
    cases hsteps
    exact carries_prepared h (h.stores.inner_eq hcatalog) hfits hvalid

theorem install_carries {hu64 : c.version < u64Size}
    (hready : f.CallReady d m (.install c hu64))
    (hsteps : f.steps ⟨d, m⟩ (.install c hu64) = .ok steps) :
    ∃ r, m.result (.install c hu64) = .ok r ∧ f.Carries ⟨d, m⟩ steps disk.settled r := by
  obtain ⟨s, hinstall, hsteps⟩ := bind_eq_ok.1 hsteps
  have hresult : m.result (.install c hu64) = .ok (.ofStore s) := by
    rw [StoreMemory.result, hinstall]
    rfl
  obtain ⟨hprepared, hcatalog⟩ := hready
  refine ⟨_, hresult, ?_⟩
  by_cases hsame : s = m.store
  · cases hsame
    have hversion := CatalogStore.installCommitted_same hinstall
    rw [if_pos rfl] at hsteps
    cases hsteps
    exact carries_nil h (h.stores.settled_eq (hcatalog (congrArg Catalog.version hversion)) hprepared)
  · rw [if_neg hsame] at hsteps
    obtain ⟨files, hfiles, hsteps⟩ := bind_eq_ok.1 hsteps
    obtain ⟨hfits, rfl⟩ := fits_of_persist hfiles
    cases hsteps
    rcases CatalogStore.installCommitted_cases hinstall with hsame' | ⟨rfl, hnone, hlt, hvalid⟩
    · exact absurd hsame' hsame
    · have hdisk : disk.prepared = none := h.stores.prepared_none hprepared hnone
      have := carries_catalog h hnone hdisk hfits hvalid hu64 hlt.le
      have hafter : StoreMemory.ofStore { m.store with file := c, inner := c } = ⟨c, none⟩ :=
        congrArg (StoreMemory.mk c) hnone
      rwa [hafter]

theorem commit_carries {term version : Nat}
    (hready : f.CallReady d m (.commit term version))
    (hsteps : f.steps ⟨d, m⟩ (.commit term version) = .ok steps) :
    ∃ r, m.result (.commit term version) = .ok r ∧ f.Carries ⟨d, m⟩ steps disk.settled r := by
  obtain ⟨s, hcommit, hsteps⟩ := bind_eq_ok.1 hsteps
  have hresult : m.result (.commit term version) = .ok (.ofStore s) := by
    rw [StoreMemory.result, hcommit]
    rfl
  obtain ⟨hprepared, hcatalog⟩ := hready
  refine ⟨_, hresult, ?_⟩
  by_cases hversion : m.inner.version = version
  · -- the version is committed: at most the marker of its proposal is left to remove
    have hcatalog := hcatalog hversion
    by_cases hsame : s = m.store
    · cases hsame
      rw [if_pos rfl] at hsteps
      cases hsteps
      exact carries_nil h (h.stores.settled_eq hcatalog hprepared)
    · obtain ⟨rfl, p, hp, hpversion⟩ := CatalogStore.commitPrepared_committed hversion hsame hcommit
      rw [if_neg hsame, if_pos hversion] at hsteps
      cases hsteps
      exact carries_cleanup h hp (h.stores.inner_eq hcatalog) (hpversion.trans hversion.symm)
  · obtain ⟨p, hp, hpversion, rfl⟩ := CatalogStore.commitPrepared_pending hversion hcommit
    have hne : m.inner ≠ p.catalog :=
      fun hc => hversion ((congrArg Catalog.version hc).trans hpversion)
    have hnew : (⟨p.catalog, none, p.catalog, none⟩ : CatalogStore) ≠ m.store := by
      intro hsame
      exact hne (congrArg CatalogStore.inner hsame).symm
    rw [if_neg hnew, if_neg hversion] at hsteps
    obtain ⟨files, hfiles, hsteps⟩ := bind_eq_ok.1 hsteps
    obtain ⟨hfits, rfl⟩ := fits_of_persist hfiles
    cases hsteps
    refine carries_commit h hp ?_ hne hfits
    rcases h.stores.prepared_eq hprepared with hsame | ⟨-, q, hq, hstale⟩
    · exact hsame.trans hp
    · cases hq.symm.trans hp
      exact absurd hstale hne

theorem call_carries {call : StoreCall} (hready : f.CallReady d m call)
    (hsteps : f.steps ⟨d, m⟩ call = .ok steps) :
    ∃ r, m.result call = .ok r ∧ f.Carries ⟨d, m⟩ steps disk.settled r := by
  cases call with
  | apply expected change keeps => exact apply_carries h hready hsteps
  | prepare p => exact prepare_carries h hready hsteps
  | commit term version => exact commit_carries h hready hsteps
  | install c hu64 => exact install_carries h hready hsteps

end

end Steps

/-! ## Calls that end anywhere -/

/-- The directory holds a pair that opens and is not behind the store, if it is open. -/
def Recoverable (f : StoreFiles) (w : StoreWorld) : Prop :=
  ∃ disk, f.Stores w.dir disk ∧ disk.Openable ∧ ∀ m ∈ w.mem, f.Held ⟨w.dir, m⟩ disk

variable {w : StoreWorld} {disk : StoreMemory} {e : Error}

/-- Steps end completed, with `Ok`; or stopped at some place, without it. -/
theorem finish_cases (σ : Live) (steps : List StoreStep) (ending : Ending) :
    f.finish σ steps ending =
        (⟨(σ.complete steps).dir, some (σ.complete steps).mem⟩, some (.ok ())) ∨
      ∃ place written mem answer,
        f.finish σ steps ending = (⟨(σ.stopped steps place written).dir, mem⟩, answer) ∧
          (mem = none ∨ mem = some (σ.stopped steps place written).mem) ∧
          answer ≠ some (.ok ()) := by
  cases ending with
  | finished => exact .inl rfl
  | failed place written error =>
    unfold finish
    simp only
    split
    · exact .inr ⟨place, written, _, _, rfl, .inr rfl, by simp⟩
    · exact .inl rfl
  | crashed place written => exact .inr ⟨place, written, none, none, rfl, .inl rfl, by simp⟩

/-- Wherever steps that carry the store end, its files open as before or as after. -/
theorem Carries.finish {before after : StoreMemory}
    (h : f.Carries σ steps before after) (ending : Ending) :
    f.Recoverable (f.finish σ steps ending).1 ∧
      (f.readDir (f.finish σ steps ending).1.dir = .ok before ∨
        f.readDir (f.finish σ steps ending).1.dir = .ok after.settled) ∧
      ((f.finish σ steps ending).2 = some (.ok ()) →
        (f.finish σ steps ending).1.mem = some after ∧
          f.readDir (f.finish σ steps ending).1.dir = .ok after.settled) := by
  rcases finish_cases (f := f) σ steps ending with
    heq | ⟨place, written, mem, answer, heq, hmem, hanswer⟩
  · rw [heq]
    obtain ⟨disk, hheld, hsettled⟩ := h.stored
    have hread : f.readDir (σ.complete steps).dir = .ok after.settled :=
      hsettled ▸ readDir_of_stores hheld.stores hheld.opens
    refine ⟨⟨disk, hheld.stores, hheld.opens, ?_⟩, .inr hread, fun _ => ⟨?_, hread⟩⟩
    · intro m hm
      cases hm
      exact hheld
    · exact congrArg some h.memory
  · rw [heq]
    obtain ⟨disk, hheld, hwhich⟩ := h.throughout.stopped place written
    have hread := readDir_of_stores hheld.stores hheld.opens
    refine ⟨⟨disk, hheld.stores, hheld.opens, ?_⟩, ?_, fun hok => absurd hok hanswer⟩
    · intro m hm
      rcases hmem with rfl | rfl
      · cases hm
      · cases hm
        exact hheld
    · rcases hwhich with hbefore | hafter
      · exact .inl (hbefore ▸ hread)
      · exact .inr (hafter ▸ hread)

/-- A call on a directory that opens leaves one, and is safe. -/
theorem Recoverable.call (h : f.Recoverable w) {call : StoreCall}
    {ending : Ending} (hready : f.Ready w (.call call ending)) :
    f.Recoverable (f.callOn w call ending).1 ∧ f.CallSafe w call ending := by
  obtain ⟨disk, hstores, hopens, hheld⟩ := h
  have hread := readDir_of_stores hstores hopens
  have hsame : (f.callOn w call ending).1 = w → (f.callOn w call ending).2 ≠ some (.ok ()) →
      f.Recoverable (f.callOn w call ending).1 ∧ f.CallSafe w call ending := by
    intro hw hanswer
    refine ⟨?_, ⟨⟨disk.settled, disk.settled, hread, ?_, .inl rfl⟩, fun hok => absurd hok hanswer⟩⟩
    · rw [hw]
      exact ⟨disk, hstores, hopens, hheld⟩
    · rw [hw]
      exact hread
  cases hmem : w.mem with
  | none => exact hsame (by simp only [callOn, hmem]) (by simp [callOn, hmem])
  | some m =>
    cases hsteps : f.steps ⟨w.dir, m⟩ call with
    | error e => exact hsame (by simp only [callOn, hmem, hsteps]) (by simp [callOn, hmem, hsteps])
    | ok steps =>
      have hcall : f.callOn w call ending = f.finish ⟨w.dir, m⟩ steps ending := by
        simp only [callOn, hmem, hsteps]
      obtain ⟨r, hresult, hcarries⟩ := call_carries (hheld m hmem) (hready m hmem) hsteps
      obtain ⟨hrec, hwhich, hok⟩ := hcarries.finish ending
      rw [← hcall] at hrec hwhich hok
      refine ⟨hrec, ?_, fun hanswer => ⟨m, hmem, r, hresult, hok hanswer⟩⟩
      rcases hwhich with hbefore | hafter
      · exact ⟨disk.settled, disk.settled, hread, hbefore, .inl rfl⟩
      · exact ⟨disk.settled, r.settled, hread, hafter, .inr ⟨m, hmem, r, hresult, rfl⟩⟩

theorem settled_settled (m : StoreMemory) : m.settled.settled = m.settled := by
  cases hp : m.prepared with
  | none => rw [StoreMemory.settled_of_none hp, StoreMemory.settled_of_none hp]
  | some p =>
    by_cases h : m.inner = p.catalog
    · rw [StoreMemory.settled_of_stale hp h]
      rfl
    · rw [StoreMemory.settled_of_pending hp h, StoreMemory.settled_of_pending hp h]

theorem held_opened (hstores : f.Stores d disk)
    (hopens : disk.Openable) : f.Held ⟨d, disk.settled⟩ disk :=
  ⟨hstores, hopens, hopens.settled, (congrArg Catalog.version (disk.latest_settled)).le⟩

/-- Opening removes at most a file that it has not taken over. -/
theorem open_carries (hstores : f.Stores d disk) (hopens : disk.Openable) :
    f.Carries ⟨d, disk.settled⟩ (openSteps d disk.settled) disk.settled disk.settled := by
  have hheld := held_opened hstores hopens
  have hkept : openSteps d disk.settled = [] →
      f.Carries ⟨d, disk.settled⟩ (openSteps d disk.settled) disk.settled disk.settled := by
    intro hnil
    rw [hnil]
    exact carries_nil hheld (settled_settled disk).symm
  cases hp : disk.prepared with
  | none =>
    refine hkept (if_neg fun h => ?_)
    rw [hstores.prepared, hp] at h
    simp at h
  | some p =>
    by_cases hstale : disk.inner = p.catalog
    · have hsettled := StoreMemory.settled_of_stale hp hstale
      rw [hsettled] at hheld ⊢
      have hsome : d.prepared.isSome := by
        rw [hstores.prepared, hp]
        rfl
      have hclean : f.Held ⟨{ d with prepared := none }, ⟨disk.inner, none⟩⟩ ⟨disk.inner, none⟩ :=
        ⟨hstores.remove, hheld.live, hheld.live, le_rfl⟩
      have hbefore : f.Between ⟨disk.inner, none⟩ ⟨disk.inner, none⟩ ⟨d, ⟨disk.inner, none⟩⟩ :=
        hheld.after hsettled
      unfold openSteps
      rw [if_pos ⟨hsome, rfl⟩, ← List.append_nil ((removePrepared d).map StoreStep.file)]
      refine ⟨Live.throughout_remove hbefore (hclean.after rfl) (hclean.after rfl), ?_, ?_⟩
      · rw [Live.complete_remove]
        exact ⟨_, hclean, rfl⟩
      · rw [Live.complete_remove]
        rfl
    · refine hkept (if_neg fun h => ?_)
      rw [StoreMemory.settled_of_pending hp hstale, hp] at h
      simp at h

/-- Reopening keeps what the files open as, and is what they open as. -/
theorem Recoverable.reopen (h : f.Recoverable w) (ending : Ending) :
    f.Recoverable (f.reopenOn w ending) ∧
      f.readDir (f.reopenOn w ending).dir = f.readDir w.dir ∧
      ∀ m ∈ (f.reopenOn w ending).mem, f.readDir w.dir = .ok m := by
  obtain ⟨disk, hstores, hopens, -⟩ := h
  have hread := readDir_of_stores hstores hopens
  obtain ⟨⟨disk', hstores', hopens', hheld'⟩, hwhich, hok⟩ :=
    (open_carries hstores hopens).finish ending
  rw [settled_settled, or_self] at hwhich
  rcases hfin : f.finish ⟨w.dir, disk.settled⟩ (openSteps w.dir disk.settled) ending with ⟨w', answer⟩
  rw [hfin] at hstores' hheld' hwhich hok
  have hfailed : f.reopenOn w ending = ⟨w'.dir, none⟩ → f.Recoverable (f.reopenOn w ending) ∧
      f.readDir (f.reopenOn w ending).dir = f.readDir w.dir ∧
      ∀ m ∈ (f.reopenOn w ending).mem, f.readDir w.dir = .ok m := by
    intro heq
    rw [heq, hread]
    exact ⟨⟨disk', hstores', hopens', nofun⟩, hwhich,
      nofun⟩
  cases answer with
  | none => exact hfailed (by simp only [reopenOn, hread, hfin])
  | some result =>
    cases result with
    | error e => exact hfailed (by simp only [reopenOn, hread, hfin])
    | ok u =>
      have heq : f.reopenOn w ending = w' := by simp only [reopenOn, hread, hfin]
      obtain ⟨hmem, -⟩ := hok rfl
      rw [heq, hread]
      refine ⟨⟨disk', hstores', hopens', hheld'⟩, hwhich, fun m hm => ?_⟩
      rw [Option.mem_unique hmem hm]

/-! ## Files that were damaged -/

theorem readDir_of_catalog_error
    (h : f.catalog.readValue f.hash catalogMagic f.catalogPath d.catalog = .error e) :
    f.readDir d = .error e := by
  unfold readDir
  rw [h]
  rfl

theorem readDir_of_prepared_error {bytes : List UInt8}
    (hc : f.catalog.readValue f.hash catalogMagic f.catalogPath d.catalog = .ok c)
    (hvalid : c.validate = .ok ()) (hd : d.prepared = some bytes)
    (h : f.proposal.readValue f.hash preparedMagic f.preparedPath bytes = .error e) :
    f.readDir d = .error e := by
  unfold readDir
  simp only [hc, hvalid, hd, h, bind, Except.bind]

/-! ## Every state of a run -/

theorem Recoverable.crashSafe (h : f.Recoverable w) : f.CrashSafe w := by
  have hcalls := @Recoverable.call f w h
  have hopening := h.reopen
  obtain ⟨disk, hstores, hopens, hheld⟩ := h
  refine ⟨⟨disk.settled, readDir_of_stores hstores hopens, ?_⟩, ?_, ?_, ?_, ?_⟩
  · intro digest live hlive
    have hversion := (hheld live hlive).version
    rw [← disk.latest_settled] at hversion
    exact hversion
  · exact fun call ending hready => (hcalls hready).2
  · exact fun ending => (hopening ending).2
  · intro bytes hdamaged hfree
    rw [hstores.catalog] at hdamaged hfree
    obtain ⟨e, he⟩ := readValue_damaged hstores.catalogFits hdamaged hfree f.catalogPath
    exact ⟨e, readDir_of_catalog_error he⟩
  · intro file hfile bytes hdamaged hfree
    rw [hstores.prepared, Option.mem_def, Option.map_eq_some_iff] at hfile
    obtain ⟨p, hp, rfl⟩ := hfile
    obtain ⟨e, he⟩ := readValue_damaged (hstores.preparedFits p hp) hdamaged hfree f.preparedPath
    have hcatalog : f.catalog.readValue f.hash catalogMagic f.catalogPath w.dir.catalog =
        .ok disk.inner := by
      rw [hstores.catalog]
      exact readValue_fileOf hstores.catalogFits f.catalogPath
    exact ⟨e, readDir_of_prepared_error hcatalog hopens.valid rfl he⟩

theorem Recoverable.step (h : f.Recoverable w) {a : CrashAct}
    (hready : f.Ready w a) : f.Recoverable (f.crashStep w a) := by
  cases a with
  | call call ending => exact (h.call hready).1
  | crash =>
    obtain ⟨disk, hstores, hopens, -⟩ := h
    exact ⟨disk, hstores, hopens, nofun⟩
  | reopen ending => exact (h.reopen ending).1

theorem recoverable_created (hvalid : c.validate = .ok ())
    (hu64 : c.version < u64Size) (hfits : f.catalog.Fits c) :
    f.Recoverable (f.created c) := by
  have hopens : (⟨c, none⟩ : StoreMemory).Openable := ⟨hvalid, hu64, nofun⟩
  have hstores : f.Stores ⟨f.catalogFile c, none, none⟩ ⟨c, none⟩ :=
    ⟨rfl, hfits, rfl, nofun⟩
  refine ⟨⟨c, none⟩, hstores, hopens, fun m hm => ?_⟩
  cases hm
  exact ⟨hstores, hopens, hopens, le_rfl⟩

/-- **A store can be reopened at every point.**  When each call is made while the file that it
    does not write holds what the store has in memory, then wherever the calls stop, reopening
    gives what the last one found or what it was to leave, never less than the store had vouched
    for; and a damaged file is refused. -/
theorem crashSafe_run {c : Catalog} (hvalid : c.validate = .ok ()) (hu64 : c.version < u64Size)
    (hfits : f.catalog.Fits c) {acts : List CrashAct}
    (hready : Machine.Meets f.crashStep f.Ready (f.created c) acts) :
    f.CrashSafe (Machine.run f.crashStep (f.created c) acts) :=
  Recoverable.crashSafe (Machine.invariant_run (I := f.Recoverable) f.crashStep
    (fun _ _ hok h => h.step hok) (recoverable_created hvalid hu64 hfits) hready)

/-! ## Runs on three voters -/

open CatalogStore (threeVoterCatalog)

/-- Files for these values: each is as many zeros as come before it. -/
def threeFiles : StoreFiles where
  dir := "data"
  catalog := .ofList [threeVoterCatalog 1 1000, threeVoterCatalog 2 2000, threeVoterCatalog 3 3000]
  proposal := .ofList [⟨1, 1, threeVoterCatalog 2 2000⟩, ⟨2, 1, threeVoterCatalog 2 2000⟩]
  hash := fun body => Vector.replicate 32 (UInt8.ofNat body.length)

/-- A crash between the two files of a commit. -/
theorem interruptedCommit_crashSafe :
    threeFiles.CrashSafe
      (Machine.run threeFiles.crashStep (threeFiles.created (threeVoterCatalog 1 1000))
        [.call (.prepare ⟨1, 1, threeVoterCatalog 2 2000⟩) .finished,
          .call (.commit 1 2) (.crashed 8 0), .reopen .finished]) := by
  refine crashSafe_run (by decide +kernel) (by decide +kernel) ?_ ?_
  · unfold Codec.Fits
    decide +kernel
  · decide +kernel

/-- A proposal's directory sync fails after its rename, and a later catalog is installed. -/
def failedSync : List CrashAct :=
  [.call (.prepare ⟨1, 1, threeVoterCatalog 2 2000⟩) (.failed 7 0 "No space left on device"),
    .call (.install (threeVoterCatalog 3 3000) (by decide +kernel)) .finished]

/-- The install returned `Ok`, and the store cannot be opened again. -/
theorem failedSync_not_crashSafe :
    (threeFiles.callOn
        (Machine.run threeFiles.crashStep (threeFiles.created (threeVoterCatalog 1 1000))
          (failedSync.take 1))
        (.install (threeVoterCatalog 3 3000) (by decide +kernel)) .finished).2.map
          Except.toOption = some (some ()) ∧
      ¬ threeFiles.CrashSafe
        (Machine.run threeFiles.crashStep (threeFiles.created (threeVoterCatalog 1 1000))
          failedSync) := by
  refine ⟨by decide +kernel, fun h => ?_⟩
  obtain ⟨m, hm, -⟩ := h.reopens
  have hnone : (threeFiles.readDir (Machine.run threeFiles.crashStep
      (threeFiles.created (threeVoterCatalog 1 1000)) failedSync).dir).toOption = none := by
    decide +kernel
  rw [hm] at hnone
  cases hnone

end StoreFiles

end Shardlite.Cluster
