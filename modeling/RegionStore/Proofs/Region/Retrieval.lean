import RegionStore.Proofs.Compression
import RegionStore.Proofs.Region.Changes
import RegionStore.Proofs.Region.Record

/-!
What loading a chunk depends on. The whole extent is read, but only the record at its start matters:
its length says which bytes are decoded, and it is held against the sign bit, the extent and what the
file has of the extent, in this order. Two files with the same record give the same result, whatever
else is in them.
-/

set_option autoImplicit false

namespace RegionStore.Region

open Disk

/-- How many bytes of an extent a content has: fewer than the extent holds where the file ends in it. -/
def available (content : Content) (extent : Extent) : Nat :=
  min extent.size (content.size - extent.position)

/-- The length that stands in front of the record in an extent. -/
def declared (content : Content) (extent : Extent) : Nat :=
  ((content.read extent.position lengthSize).toWord 0).toNat

def body (content : Content) (extent : Extent) : Bytes :=
  content.read (extent.position + lengthSize) (declared content extent)

structure Framed (content : Content) (extent : Extent) : Prop where
  header : recordHeaderSize ≤ available content extent
  nonempty : 0 < declared content extent
  positive : declared content extent < 2 ^ 31
  inExtent : lengthSize + declared content extent ≤ extent.size
  inFile : lengthSize + declared content extent ≤ available content extent

theorem not_framed_iff (content : Content) (extent : Extent) :
    ¬ Framed content extent ↔
      available content extent < 5 ∨ declared content extent = 0 ∨ 2 ^ 31 ≤ declared content extent ∨
        extent.size < 4 + declared content extent ∨
        available content extent < 4 + declared content extent := by
  constructor
  · intro unframed
    apply Classical.byContradiction
    intro kept
    simp only [not_or, Nat.not_lt, Nat.not_le] at kept
    obtain ⟨header, nonempty, positive, inExtent, inFile⟩ := kept
    exact unframed ⟨header, Nat.pos_of_ne_zero nonempty, positive, inExtent, inFile⟩
  · rintro broken ⟨header, nonempty, positive, inExtent, inFile⟩
    rw [recordHeaderSize] at header
    rw [lengthSize] at inExtent inFile
    omega

theorem toWord_read {content : Content} {extent : Extent}
    (enough : recordHeaderSize ≤ available content extent) :
    ((content.read extent.position extent.size).toWord 0).toNat = declared content extent := by
  rw [recordHeaderSize, available] at enough
  apply congrArg UInt32.toNat
  apply Bytes.toWord_congr
  intro index inside
  rw [Content.get_read (by omega), Content.get_read (by rw [lengthSize]; omega)]

section
variable [Codec]

theorem recordData_of_framed (chunk : ChunkPos) {content : Content} {extent : Extent}
    (framed : Framed content extent) :
    recordData chunk extent (content.read extent.position extent.size) =
      decodeChunk (body content extent) := by
  have size : (content.read extent.position extent.size).size = available content extent :=
    Content.size_read ..
  have word := toWord_read framed.header
  have notZero : (content.read extent.position extent.size).toWord 0 ≠ 0 := by
    intro zero
    rw [zero, UInt32.toNat_zero] at word
    exact absurd framed.nonempty (by omega)
  have noSign := (and_sign_eq_zero_iff _).2 (word.symm ▸ framed.positive)
  unfold recordData
  simp only [word, size]
  rw [if_neg (Nat.not_lt.2 framed.header), if_neg notZero, if_neg (Decidable.not_not.2 noSign),
    if_neg (Nat.not_lt.2 framed.inExtent), if_neg (Nat.not_lt.2 framed.inFile),
    Content.extract_read framed.inFile, Nat.add_sub_cancel_left]
  rfl

theorem recordData_of_not_framed (chunk : ChunkPos) {content : Content} {extent : Extent}
    (unframed : ¬ Framed content extent) :
    ∃ failure, recordData chunk extent (content.read extent.position extent.size) = .error failure ∧
      failure.kind = .corruption := by
  have size : (content.read extent.position extent.size).size = available content extent :=
    Content.size_read ..
  unfold recordData
  rw [size]
  split
  · exact ⟨_, rfl, rfl⟩
  · next header =>
    have word := toWord_read (Nat.not_lt.1 header)
    generalize (content.read extent.position extent.size).toWord 0 = length at word
    simp only [word]
    split
    · exact ⟨_, rfl, rfl⟩
    · next notZero =>
      split
      · exact ⟨_, rfl, rfl⟩
      · next noSign =>
        split
        · exact ⟨_, rfl, rfl⟩
        · next inExtent =>
          split
          · exact ⟨_, rfl, rfl⟩
          · next inFile =>
            have positive := (and_sign_eq_zero_iff _).1 (Decidable.not_not.1 noSign)
            rw [word] at positive
            have nonempty : 0 < declared content extent := by
              apply Nat.pos_of_ne_zero
              rw [← word]
              exact fun zero => notZero (UInt32.toNat_inj.1 zero)
            exact absurd ⟨Nat.not_lt.1 header, nonempty, positive, Nat.not_lt.1 inExtent,
              Nat.not_lt.1 inFile⟩ unframed

/-- What is found of a present chunk. -/
theorem find_of_extent {region : Region} {chunk : ChunkPos} {slot : Slot} {extent : Extent}
    (own : region.slot chunk = .ok slot) (found : region.tables.extent? slot = some extent)
    (content : Content) :
    region.find content chunk =
      (recordData (region.position.chunkAt slot) extent
        (content.read extent.position extent.size)).map some := by
  simp only [find, own, found]

/-- A record is corrupt if its length breaks a limit or its data do not decode. -/
theorem corruption_iff (chunk : ChunkPos) (content : Content) (extent : Extent) :
    (∃ failure, recordData chunk extent (content.read extent.position extent.size) = .error failure ∧
        failure.kind = .corruption) ↔
      ¬ Framed content extent ∨
        ∃ flaw, decodeChunk (body content extent) = .error (.badStream flaw) := by
  by_cases framed : Framed content extent
  · rw [recordData_of_framed chunk framed]
    constructor
    · rintro ⟨failure, failed, corrupt⟩
      rcases decodeChunk_fails failed with rfl | ⟨_, rfl⟩ | ⟨_, rfl⟩ | ⟨flaw, rfl⟩
      · cases corrupt
      · cases corrupt
      · cases corrupt
      · exact .inr ⟨flaw, failed⟩
    · rintro (unframed | ⟨flaw, failed⟩)
      · exact absurd framed unframed
      · exact ⟨_, failed, rfl⟩
  · simp only [framed, not_false_iff, true_or, iff_true]
    exact recordData_of_not_framed chunk framed

end

section
variable {content other : Content} {extent : Extent}
  (same : other.read extent.position (lengthSize + declared content extent) =
    content.read extent.position (lengthSize + declared content extent))
  (present : extent.position + (lengthSize + declared content extent) ≤ content.size)
  (present' : extent.position + (lengthSize + declared content extent) ≤ other.size)
include same present present'

theorem declared_eq_of_record : declared other extent = declared content extent := by
  have front (holds : Content)
      (long : extent.position + (lengthSize + declared content extent) ≤ holds.size) :
      (holds.read extent.position (lengthSize + declared content extent)).extract 0 lengthSize =
        holds.read extent.position lengthSize := by
    rw [Content.extract_read (by omega), Nat.add_zero, Nat.sub_zero]
  rw [declared, ← front other present', same, front content present, declared]

theorem body_eq_of_record : body other extent = body content extent := by
  have back (holds : Content)
      (long : extent.position + (lengthSize + declared content extent) ≤ holds.size) :
      (holds.read extent.position (lengthSize + declared content extent)).extract lengthSize
          (lengthSize + declared content extent) =
        holds.read (extent.position + lengthSize) (declared content extent) := by
    rw [Content.extract_read (by omega), Nat.add_sub_cancel_left]
  rw [body, declared_eq_of_record same present present', ← back other present', same,
    back content present, body]

end

/-- A length that keeps within its extent and within the file is no less than one and has no sign. -/
theorem framed_of_fits {region : Region} {slot : Slot} {content : Content} {extent : Extent}
    (found : region.tables.extent? slot = some extent) (nonempty : 0 < declared content extent)
    (fits : lengthSize + declared content extent ≤ extent.size)
    (present : extent.position + (lengthSize + declared content extent) ≤ content.size) :
    Framed content extent := by
  have packable := Tables.packable_of_extent? found
  have inFile : lengthSize + declared content extent ≤ available content extent := by
    rw [available]
    omega
  have header : recordHeaderSize ≤ available content extent := by
    rw [lengthSize] at inFile
    rw [recordHeaderSize]
    omega
  have positive : declared content extent < 2 ^ 31 := by
    have small := packable.count
    rw [Extent.size, sectorSize, lengthSize] at fits
    rw [maxExtentSectors] at small
    omega
  exact ⟨header, nonempty, positive, fits, inFile⟩

/-- Loading reports corruption exactly if the length breaks a limit or the data do not decode, and it
decodes the data otherwise. So files that agree on the record give the same result. -/
theorem loadChunk_of_record [Codec] {region : Region} {file : Device} (isFile : file.full = false)
    (reads : file.around.Reads) {chunk : ChunkPos} {slot : Slot} {extent : Extent}
    (own : region.slot chunk = .ok slot) (found : region.tables.extent? slot = some extent) :
    ((∃ failure, outcome (loadChunk chunk) (region, file) = .error failure ∧
        failure.kind = .corruption) ↔
      available file.content extent < 5 ∨ declared file.content extent = 0 ∨
        2 ^ 31 ≤ declared file.content extent ∨ extent.size < 4 + declared file.content extent ∨
        available file.content extent < 4 + declared file.content extent ∨
        ∃ flaw, decodeChunk (body file.content extent) = .error (.badStream flaw)) ∧
    ((¬ ∃ failure, outcome (loadChunk chunk) (region, file) = .error failure ∧
        failure.kind = .corruption) →
      outcome (loadChunk chunk) (region, file) =
        (decodeChunk (body file.content extent)).map some) ∧
    ∀ other : Device, other.full = false → other.around.Reads →
      1 ≤ declared file.content extent → 4 + declared file.content extent ≤ extent.size →
      extent.position + (4 + declared file.content extent) ≤ file.content.size →
      extent.position + (4 + declared file.content extent) ≤ other.content.size →
      other.content.read extent.position (4 + declared file.content extent) =
        file.content.read extent.position (4 + declared file.content extent) →
      outcome (loadChunk chunk) (region, other) = outcome (loadChunk chunk) (region, file) := by
  have loaded {device : Device} (isFile : device.full = false) (reads : device.around.Reads) :
      outcome (loadChunk chunk) (region, device) =
        (recordData (region.position.chunkAt slot) extent
          (device.content.read extent.position extent.size)).map some := by
    rw [outcome_loadChunk_of_reads region isFile reads, find_of_extent own found]
  have corrupt :
      (∃ failure, outcome (loadChunk chunk) (region, file) = .error failure ∧
        failure.kind = .corruption) ↔
      ¬ Framed file.content extent ∨
        ∃ flaw, decodeChunk (body file.content extent) = .error (.badStream flaw) := by
    rw [loaded isFile reads, ← corruption_iff (region.position.chunkAt slot)]
    cases recordData (region.position.chunkAt slot) extent
      (file.content.read extent.position extent.size) <;> simp [Except.map]
  refine ⟨?_, ?_, ?_⟩
  · rw [corrupt, not_framed_iff]
    simp only [or_assoc]
  · intro intact
    have framed : Framed file.content extent := by
      apply Classical.byContradiction
      intro unframed
      exact intact (corrupt.2 (.inl unframed))
    rw [loaded isFile reads, recordData_of_framed _ framed]
  · intro other isFile' reads' nonempty fits present present' same
    have length := declared_eq_of_record same present present'
    have framed := framed_of_fits found nonempty fits present
    have framed' : Framed other.content extent := by
      rw [← length] at nonempty fits present'
      exact framed_of_fits found nonempty fits present'
    rw [loaded isFile' reads', loaded isFile reads, recordData_of_framed _ framed,
      recordData_of_framed _ framed', body_eq_of_record same present present']

def oneChunk : Region :=
  ⟨⟨0, 0⟩, false, ⟨3, [], []⟩, Tables.empty.set ⟨0, by decide⟩ (Extent.toWord ⟨2, 1⟩) 0⟩

theorem extent?_oneChunk : oneChunk.tables.extent? ⟨0, by decide⟩ = some ⟨2, 1⟩ := by
  rw [oneChunk, Tables.extent?_set, if_pos rfl]
  decide

def endingWith (bytes : Bytes) : Device :=
  ⟨"region", Content.empty.write 8192 bytes, false, Surroundings.initial⟩

theorem reads_endingWith (bytes : Bytes) : (endingWith bytes).around.Reads :=
  Schedule.calm_mild.reads

theorem size_endingWith {bytes : Bytes} (nonempty : bytes.size ≠ 0) :
    (endingWith bytes).content.size = 8192 + bytes.size := by
  rw [endingWith, Content.size_write, if_neg nonempty]
  exact Nat.max_eq_right (Nat.zero_le _)

theorem read_endingWith {bytes : Bytes} {first last : Nat} (inside : last ≤ bytes.size)
    (nonempty : bytes.size ≠ 0) :
    (endingWith bytes).content.read (8192 + first) (last - first) = bytes.extract first last := by
  have whole : (endingWith bytes).content.read 8192 bytes.size = bytes := Content.read_write ..
  have size := size_endingWith nonempty
  conv => rhs; rw [← whole]
  rw [Content.extract_read (by omega)]

/-- The file may end with the record, or further on in the extent. -/
theorem loadChunk_of_record_at_end :
    outcome (loadChunk ⟨0, 0⟩) (oneChunk, endingWith ⟨#[0, 0, 0, 4, 3, 97, 98, 99]⟩) =
        .ok (some ⟨#[97, 98, 99]⟩) ∧
      outcome (loadChunk ⟨0, 0⟩) (oneChunk, endingWith ⟨#[0, 0, 0, 4, 3, 97, 98, 99, 255]⟩) =
        .ok (some ⟨#[97, 98, 99]⟩) := by
  have own : oneChunk.slot ⟨0, 0⟩ = .ok ⟨0, by decide⟩ := rfl
  generalize exactly : (⟨#[0, 0, 0, 4, 3, 97, 98, 99]⟩ : Bytes) = bytes
  generalize longer : (⟨#[0, 0, 0, 4, 3, 97, 98, 99, 255]⟩ : Bytes) = bytes'
  have size : bytes.size = 8 := exactly ▸ rfl
  have size' : bytes'.size = 9 := longer ▸ rfl
  have length : declared (endingWith bytes).content ⟨2, 1⟩ = 4 := by
    change (((endingWith bytes).content.read (8192 + 0) (4 - 0)).toWord 0).toNat = 4
    rw [read_endingWith (by omega) (by omega), ← exactly]
    rfl
  have data : body (endingWith bytes).content ⟨2, 1⟩ = ⟨#[3, 97, 98, 99]⟩ := by
    rw [body, length]
    change (endingWith bytes).content.read (8192 + 4) (8 - 4) = _
    rw [read_endingWith (by omega) (by omega), ← exactly]
    rfl
  have decodes : decodeChunk ⟨#[3, 97, 98, 99]⟩ = .ok ⟨#[97, 98, 99]⟩ := rfl
  have there : available (endingWith bytes).content ⟨2, 1⟩ = 8 := by
    rw [available, size_endingWith (by omega), size]
    simp [Extent.size, Extent.position, sectorSize]
  have isFile : (endingWith bytes).full = false := rfl
  obtain ⟨corrupt, decoded, alike⟩ :=
    loadChunk_of_record isFile (reads_endingWith bytes) own extent?_oneChunk
  rw [length, data, there, decodes] at corrupt
  rw [length] at alike
  have loads : outcome (loadChunk ⟨0, 0⟩) (oneChunk, endingWith bytes) = .ok (some ⟨#[97, 98, 99]⟩) := by
    rw [decoded (by rw [corrupt]; simp [Extent.size, sectorSize]), data, decodes]
    rfl
  refine ⟨loads, ?_⟩
  rw [← loads]
  apply alike (endingWith bytes') rfl (reads_endingWith bytes') (by decide) (by decide)
  · rw [size_endingWith (by omega), size]
    decide
  · rw [size_endingWith (by omega), size']
    decide
  · change (endingWith bytes').content.read (8192 + 0) (8 - 0) =
      (endingWith bytes).content.read (8192 + 0) (8 - 0)
    rw [read_endingWith (by omega) (by omega), read_endingWith (by omega) (by omega), ← exactly, ← longer]
    rfl

end RegionStore.Region
