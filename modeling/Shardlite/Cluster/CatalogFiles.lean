/-
  Shardlite.Cluster.CatalogFiles

  The two files of a catalog store as bytes, and the directory that holds them.  A value is
  written to a temporary file that is synced and renamed into place, one file-system step after
  the other; it is read back through its checksum.  How a value is encoded and how bytes are
  hashed is left to the codec and the hash function.
-/
import Shardlite.Cluster.CatalogStore
import Shardlite.Lib.Packed

namespace Shardlite.Cluster

/-! ## Values in files -/

def maxCatalogBytes : Nat := 16 * 1024 * 1024

/-- `bincode` at one type: decoding gives the value and how many bytes it took.  Longer encodings
    are never written. -/
structure Codec (α : Type) where
  encode : α → List UInt8
  decode : List UInt8 → Except String (α × Nat)
  decode_encode : ∀ a, (encode a).length ≤ maxCatalogBytes →
    decode (encode a) = .ok (a, (encode a).length)

/-- Where a store keeps its files, and how their contents are made. -/
structure StoreFiles where
  dir : String
  catalog : Codec Catalog
  proposal : Codec CatalogProposal
  hash : List UInt8 → Vector UInt8 32

def catalogMagic : List UInt8 := "shardlite-catalog-v2\n".toUTF8.toList

def preparedMagic : List UInt8 := "shardlite-catalog-prepared-v2\n".toUTF8.toList

/-- The format of a file that starts with this mark. -/
def fileFormat (hash : List UInt8 → Vector UInt8 32) (mark : List UInt8) : Packed.Format :=
  ⟨mark, hash, maxCatalogBytes, by decide⟩

section Values

variable {α : Type} (codec : Codec α) (hash : List UInt8 → Vector UInt8 32) (mark : List UInt8)

def Codec.fileOf (value : α) : List UInt8 := (fileFormat hash mark).pack (codec.encode value)

/-- The encoded value is within the limit of writers and readers. -/
def Codec.Fits (value : α) : Prop := (codec.encode value).length ≤ maxCatalogBytes

def Codec.readValue (path : String) (bytes : List UInt8) : Except Error α :=
  match (fileFormat hash mark).unpack bytes with
  | .error .unknown =>
    .error (.manifest s!"{path} is not a shardlite catalog or has an unknown format")
  | .error (.length length) => .error (.manifest s!"{path} has invalid catalog length {length}")
  | .error .checksum => .error (.manifest
      s!"{path} failed its catalog checksum; refusing torn or corrupted membership state")
  | .ok body =>
    match codec.decode body with
    | .error error => .error (.manifest s!"decoding {path}: {error}")
    | .ok (value, used) =>
      if used ≠ body.length then
        .error (.manifest s!"{path} has {body.length - used} trailing catalog bytes")
      else .ok value

variable {codec hash mark}

theorem Codec.Fits.le_limit {value : α} (h : codec.Fits value) :
    (codec.encode value).length ≤ (fileFormat hash mark).limit := h

theorem readValue_fileOf {value : α} (h : codec.Fits value) (path : String) :
    codec.readValue hash mark path (codec.fileOf hash mark value) = .ok value := by
  unfold Codec.readValue Codec.fileOf
  rw [Packed.Format.unpack_pack h.le_limit]
  simp only [codec.decode_encode value h, ne_eq, not_true_eq_false, if_false]

theorem fileOf_inj {a b : α} (ha : codec.Fits a)
    (h : codec.fileOf hash mark a = codec.fileOf hash mark b) : a = b := by
  have hbody := congrArg (fileFormat hash mark).bodyOf h
  rw [Codec.fileOf, Codec.fileOf, Packed.Format.bodyOf_pack, Packed.Format.bodyOf_pack] at hbody
  have hb : codec.Fits b := by
    rw [Codec.Fits, ← hbody]
    exact ha
  have hdecode := codec.decode_encode a ha
  rw [hbody, codec.decode_encode b hb] at hdecode
  exact (congrArg Prod.fst (Except.ok.inj hdecode)).symm

theorem readValue_of_fault {bytes : List UInt8} {fault : Packed.Fault}
    (h : (fileFormat hash mark).unpack bytes = .error fault) (path : String) :
    ∃ e, codec.readValue hash mark path bytes = .error e := by
  unfold Codec.readValue
  rw [h]
  cases fault with
  | unknown | length n | checksum => exact ⟨_, rfl⟩

/-- **A file that was cut short or altered is refused**, unless the hash of what stands in the
    place of its body is the hash its body had. -/
theorem readValue_damaged {value : α} (h : codec.Fits value) {bytes : List UInt8}
    (hdamaged : (fileFormat hash mark).Damaged (codec.fileOf hash mark value) bytes)
    (hfree : hash ((fileFormat hash mark).bodyOf bytes) =
        hash ((fileFormat hash mark).bodyOf (codec.fileOf hash mark value)) →
      (fileFormat hash mark).bodyOf bytes =
        (fileFormat hash mark).bodyOf (codec.fileOf hash mark value)) (path : String) :
    ∃ e, codec.readValue hash mark path bytes = .error e := by
  rw [Codec.fileOf, Packed.Format.bodyOf_pack] at hfree
  obtain ⟨fault, hfault⟩ := Packed.Format.unpack_damaged h.le_limit hdamaged hfree
  exact readValue_of_fault hfault path

/-- A codec for a few values, each encoded as its place among them. -/
def Codec.ofList [DecidableEq α] (values : List α) : Codec α where
  encode a := List.replicate (if a ∈ values then values.idxOf a else maxCatalogBytes + 1) 0
  decode bytes :=
    match values[bytes.length]? with
    | some a => .ok (a, bytes.length)
    | none => .error ""
  decode_encode a h := by
    by_cases ha : a ∈ values
    · simp only [if_pos ha, List.length_replicate]
      rw [List.getElem?_idxOf ha]
    · rw [if_neg ha, List.length_replicate] at h
      omega

end Values

/-! ## The directory -/

/-- The files of the store's directory; the temporary one is shared. -/
structure Directory where
  catalog : List UInt8
  prepared : Option (List UInt8)
  tmp : Option (List UInt8)
  deriving DecidableEq

/-- The name a temporary file is renamed into. -/
inductive Slot where
  | catalog
  | prepared
  deriving DecidableEq

inductive FileStep where
  | create
  | write (bytes : List UInt8)
  | sync
  | rename (slot : Slot)
  | syncDir
  | remove
  deriving DecidableEq

def Directory.put (d : Directory) (slot : Slot) (bytes : List UInt8) : Directory :=
  match slot with
  | .catalog => ⟨bytes, d.prepared, none⟩
  | .prepared => ⟨d.catalog, some bytes, none⟩

def FileStep.perform (d : Directory) : FileStep → Directory
  | .create => { d with tmp := some [] }
  | .write bytes => { d with tmp := d.tmp.map (· ++ bytes) }
  | .sync => d
  | .rename slot => (d.tmp.map (d.put slot)).getD d
  | .syncDir => d
  | .remove => { d with prepared := none }

/-- What is left of a step that did not complete: a write may have written the first bytes. -/
def FileStep.begin (d : Directory) (written : Nat) : FileStep → Directory
  | .write bytes => FileStep.perform d (.write (bytes.take written))
  | _ => d

namespace StoreFiles

variable (f : StoreFiles)

def catalogFormat : Packed.Format := fileFormat f.hash catalogMagic

def preparedFormat : Packed.Format := fileFormat f.hash preparedMagic

def catalogPath : String := f.dir ++ "/cluster/catalog"

def preparedPath : String := f.dir ++ "/cluster/catalog.prepared"

def tmpPath : String := f.dir ++ "/cluster/catalog.tmp"

def parent : String := f.dir ++ "/cluster"

def catalogFile (c : Catalog) : List UInt8 := f.catalog.fileOf f.hash catalogMagic c

def preparedFile (p : CatalogProposal) : List UInt8 := f.proposal.fileOf f.hash preparedMagic p

/-- What a step that fails with the system's message makes the call return. -/
def stepError (error : String) : FileStep → Error
  | .create => .manifest s!"creating {f.tmpPath}: {error}"
  | .write _ => .manifest s!"writing {f.tmpPath}: {error}"
  | .sync => .manifest s!"fsyncing {f.tmpPath}: {error}"
  | .rename .catalog => .manifest s!"renaming into {f.catalogPath}: {error}"
  | .rename .prepared => .manifest s!"renaming into {f.preparedPath}: {error}"
  | .syncDir => .manifest s!"fsyncing {f.parent}: {error}"
  | .remove => .manifest s!"removing {f.preparedPath}: {error}"

def writeSteps (format : Packed.Format) (slot : Slot) (body : List UInt8) : List FileStep :=
  [.create, .write format.mark, .write (format.hash body).toList,
    .write (Packed.leBytes 8 body.length), .write body, .sync, .rename slot, .syncDir]

/-- `persist_value`, up to its first step. -/
def persistValue {α : Type} (codec : Codec α) (format : Packed.Format) (slot : Slot) (value : α) :
    Except Error (List FileStep) := do
  let body := codec.encode value
  refuseIf (body.length > maxCatalogBytes)
    (.manifest s!"catalog is {body.length} bytes, above the {maxCatalogBytes} byte limit")
  return writeSteps format slot body

def persist (c : Catalog) : Except Error (List FileStep) :=
  persistValue f.catalog f.catalogFormat .catalog c

def persistProposal (p : CatalogProposal) : Except Error (List FileStep) :=
  persistValue f.proposal f.preparedFormat .prepared p

def removePrepared (d : Directory) : List FileStep :=
  .remove :: if d.prepared.isSome then [.syncDir] else []

theorem persistValue_eq_ok {α : Type} {codec : Codec α} {format : Packed.Format} {slot : Slot}
    {value : α} {steps : List FileStep} :
    persistValue codec format slot value = .ok steps ↔
      (codec.encode value).length ≤ maxCatalogBytes ∧
        steps = writeSteps format slot (codec.encode value) := by
  unfold persistValue
  simp only [bind_eq_ok, refuseIf_eq_ok, not_lt, gt_iff_lt, exists_const]
  constructor
  · rintro ⟨hlen, h⟩
    exact ⟨hlen, (Except.ok.inj h).symm⟩
  · rintro ⟨hlen, rfl⟩
    exact ⟨hlen, rfl⟩

end StoreFiles

end Shardlite.Cluster
