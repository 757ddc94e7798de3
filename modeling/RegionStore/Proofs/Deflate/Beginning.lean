import RegionStore.Deflate.Container
import RegionStore.Proofs.Deflate.Reading

/-!
Decompression of the beginning of data. Nothing is looked at before it is read, so what is decided from a
beginning stays decided when more data follow, and only a missing bit leaves it open.
-/

set_option autoImplicit false

namespace RegionStore

theorem Bytes.Carries.extract_front {whole part : Bytes} (carries : whole.Carries 0 part)
    (start : Nat) {stop : Nat} (inside : stop ≤ part.size) :
    whole.extract start stop = part.extract start stop := by
  have within := carries.within
  apply ext_get
  · simp only [ByteArray.size_extract]
    omega
  · intro index _
    simp only [get_extract]
    split
    · next before =>
      have same := carries.same (start + index) (by omega)
      rw [Nat.zero_add] at same
      rw [if_pos (by omega), same]
    · rw [if_neg (by omega)]

namespace Deflate

namespace Inflating

/-- The second result is the first one, which lies within the beginning, unless the beginning is too
short for a result. -/
def Settles {α : Type} (part : Bytes) (first second : EStateM.Result Flaw Progress α) : Prop :=
  match first with
  | .ok _ after => after.position ≤ 8 * part.size ∧ second = first
  | .error flaw _ => flaw = .truncated ∨ second = first

/-- What `short` decides from the beginning, `long` decides the same way from the whole data. -/
def Foretells {α : Type} (whole part : Bytes) (short long : Inflating α) : Prop :=
  ∀ progress, progress.position ≤ 8 * part.size → Settles part (short part progress) (long whole progress)

section
variable {α β : Type} {whole part : Bytes}

theorem foretells_pure (result : α) : Foretells whole part (pure result) (pure result) :=
  fun _ inside => ⟨inside, rfl⟩

theorem foretells_fail (defect : Defect) : Foretells whole part (fail defect : Inflating α) (fail defect) :=
  fun _ _ => .inr rfl

theorem foretells_truncated (long : Inflating α) : Foretells whole part (throw .truncated) long :=
  fun _ _ => .inl rfl

theorem foretells_get : Foretells whole part get get := fun _ inside => ⟨inside, rfl⟩

theorem foretells_modify (output : Progress → Bytes) :
    Foretells whole part (modify fun progress => { progress with output := output progress })
      (modify fun progress => { progress with output := output progress }) :=
  fun _ inside => ⟨inside, rfl⟩

theorem foretells_emit (byte : UInt8) : Foretells whole part (emit byte) (emit byte) :=
  foretells_modify fun progress => progress.output.push byte

theorem foretells_align : Foretells whole part align align := by
  intro progress inside
  refine ⟨?_, rfl⟩
  simp only
  omega

/-- The data themselves differ, so what is made of them has to be the same. -/
theorem foretells_read_get {short long : Bytes → Progress → Inflating α}
    (rest : ∀ progress, progress.position ≤ 8 * part.size →
      Foretells whole part (short part progress) (long whole progress)) :
    Foretells whole part (do short (← read) (← get)) (do long (← read) (← get)) :=
  fun progress inside => rest progress inside progress inside

theorem Foretells.bind {short long : Inflating α} {shortRest longRest : α → Inflating β}
    (first : Foretells whole part short long)
    (rest : ∀ result, Foretells whole part (shortRest result) (longRest result)) :
    Foretells whole part (short >>= shortRest) (long >>= longRest) := by
  intro progress inside
  have settled := first progress inside
  change Settles part (EStateM.bind (short part) (fun result => shortRest result part) progress)
    (EStateM.bind (long whole) (fun result => longRest result whole) progress)
  unfold EStateM.bind
  cases ran : short part progress with
  | ok result after =>
    rw [ran] at settled
    rw [settled.2]
    exact rest result after settled.1
  | error flaw after =>
    rw [ran] at settled
    rcases settled with short | same
    · exact .inl short
    · rw [same]
      exact .inr rfl

theorem Foretells.ite {condition : Prop} [Decidable condition] {short long : Inflating α}
    {shortElse longElse : Inflating α} (pos : Foretells whole part short long)
    (neg : Foretells whole part shortElse longElse) :
    Foretells whole part (if condition then short else shortElse) (if condition then long else longElse) := by
  split
  · exact pos
  · exact neg

theorem Foretells.check {condition : Prop} [Decidable condition] {defect : Defect}
    {short long : Unit → Inflating α} (rest : Foretells whole part (short ()) (long ())) :
    Foretells whole part (if condition then fail defect >>= short else short ())
      (if condition then fail defect >>= long else long ()) :=
  ((foretells_fail defect).bind fun _ => rest).ite rest

end

section
variable {α : Type} {whole part : Bytes} (carries : whole.Carries 0 part)
include carries

theorem foretells_take (count : Nat) : Foretells whole part (take count) (take count) := by
  intro progress inside
  have within := carries.within
  unfold take
  split
  · next enough =>
    have same := field_carried carries enough
    rw [Nat.mul_zero, Nat.zero_add] at same
    rw [if_pos (by omega), same]
    exact ⟨enough, rfl⟩
  · exact .inl rfl

theorem foretells_takeBytes (count : Nat) :
    Foretells whole part (takeBytes count) (takeBytes count) := by
  intro progress inside
  have within := carries.within
  unfold takeBytes
  split
  · next enough =>
    rw [if_pos (by omega)]
    simp only
    rw [carries.extract_front _ (by omega)]
    exact ⟨enough, rfl⟩
  · exact .inl rfl

/-- A word that ends within the beginning is the word that is there. -/
theorem read_settled (code : Code) {position : Nat} (inside : position ≤ 8 * part.size) :
    match code.read part position with
    | .symbol value after => after ≤ 8 * part.size ∧ code.read whole position = .symbol value after
    | .unused => code.read whole position = .unused
    | .truncated => True := by
  have within := carries.within
  induction code generalizing position with
  | unused => rfl
  | symbol value => exact ⟨inside, rfl⟩
  | branch zero one zeroRead oneRead =>
    by_cases more : position < 8 * part.size
    · have same := carries.same (position / 8) (by omega)
      rw [Nat.zero_add] at same
      have bit : Code.bitAt whole position = Code.bitAt part position := by
        unfold Code.bitAt
        rw [same]
      have readPart : Code.read part (.branch zero one) position = if Code.bitAt part position then
          Code.read part one (position + 1) else Code.read part zero (position + 1) := if_pos more
      have readWhole : Code.read whole (.branch zero one) position = if Code.bitAt part position then
          Code.read whole one (position + 1) else Code.read whole zero (position + 1) := by
        rw [← bit]
        exact if_pos (by omega)
      rw [readPart, readWhole]
      cases Code.bitAt part position with
      | true => exact oneRead more
      | false => exact zeroRead more
    · have readPart : Code.read part (.branch zero one) position = .truncated := if_neg more
      rw [readPart]
      trivial

theorem foretells_word (code : Code) (absent : Defect) :
    Foretells whole part (word code absent) (word code absent) := by
  intro progress inside
  have settled := read_settled carries code inside
  unfold word
  cases read : code.read part progress.position with
  | symbol value after =>
    rw [read] at settled
    rw [settled.2]
    exact ⟨settled.1, rfl⟩
  | unused =>
    rw [read] at settled
    rw [show code.read whole progress.position = .unused from settled]
    exact .inr rfl
  | truncated => exact .inl rfl

/-- The bound on the whole data is no smaller. -/
theorem foretells_bound {shortRest longRest : Nat → Inflating α}
    (rest : ∀ less more, less ≤ more → Foretells whole part (shortRest less) (longRest more)) :
    Foretells whole part (bound >>= shortRest) (bound >>= longRest) := by
  have within := carries.within
  exact fun progress inside => rest _ _ (by omega) progress inside

end

section
variable {whole part : Bytes} (carries : whole.Carries 0 part)
include carries

theorem foretells_storedBlock : Foretells whole part storedBlock storedBlock := by
  unfold storedBlock
  apply foretells_align.bind
  intro _
  apply (foretells_take carries 32).bind
  intro lengths
  apply Foretells.ite
  · exact (foretells_takeBytes carries _).bind fun bytes => foretells_modify _
  · exact foretells_fail _

theorem foretells_copy (index : Nat) (distances : Code) :
    Foretells whole part (copy index distances) (copy index distances) := by
  unfold copy
  apply (foretells_take carries _).bind
  intro extraLength
  apply (foretells_word carries distances _).bind
  intro symbol
  apply Foretells.ite
  · apply (foretells_take carries _).bind
    intro extraDistance
    apply foretells_get.bind
    intro progress
    apply Foretells.ite
    · exact foretells_modify fun progress => copyBack _ _ progress.output
    · exact foretells_fail _
  · exact foretells_fail _

theorem foretells_symbols (literals distances : Code) {less more : Nat} (le : less ≤ more) :
    Foretells whole part (symbols literals distances less) (symbols literals distances more) := by
  induction less generalizing more with
  | zero => exact foretells_truncated _
  | succ less ih =>
    obtain ⟨more, rfl⟩ : ∃ smaller, more = smaller + 1 := ⟨more - 1, by omega⟩
    have rest := ih (Nat.le_of_succ_le_succ le)
    unfold symbols
    apply (foretells_word carries literals _).bind
    intro symbol
    apply Foretells.ite
    · exact (foretells_emit _).bind fun _ => rest
    · apply Foretells.ite
      · exact foretells_pure _
      · apply Foretells.ite
        · generalize symbol - (endOfBlock + 1) = index
          exact (foretells_copy carries index distances).bind fun _ => rest
        · exact foretells_fail _

theorem foretells_wordLengths (code : Code) (total bound : Nat) (known : List Nat) :
    Foretells whole part (wordLengths code total bound known) (wordLengths code total bound known) := by
  induction bound generalizing known with
  | zero => exact foretells_pure known
  | succ bound ih =>
    unfold wordLengths
    apply Foretells.ite
    · exact foretells_pure known
    · apply (foretells_word carries code _).bind
      intro symbol
      apply Foretells.ite
      · exact ih _
      · apply (foretells_take carries _).bind
        intro extra
        dsimp only
        have rest (count length : Nat) : Foretells whole part
            (if known.length + count ≤ total then
              wordLengths code total bound (List.replicate count length ++ known)
            else fail .lengthRepeat)
            (if known.length + count ≤ total then
              wordLengths code total bound (List.replicate count length ++ known)
            else fail .lengthRepeat) := (ih _).ite (foretells_fail _)
        apply Foretells.ite
        · cases known with
          | nil => exact (foretells_fail _).bind (rest _)
          | cons last earlier => exact rest _ last
        · exact rest _ 0

theorem foretells_lengthCodeLengths (symbols : List Nat) :
    Foretells whole part (lengthCodeLengths symbols) (lengthCodeLengths symbols) := by
  induction symbols with
  | nil => exact foretells_pure []
  | cons symbol rest ih =>
    apply (foretells_take carries 3).bind
    intro length
    exact ih.bind fun listed => foretells_pure _

theorem foretells_dynamicBlock : Foretells whole part dynamicBlock dynamicBlock := by
  unfold dynamicBlock
  apply (foretells_take carries 14).bind
  intro counts
  dsimp only
  apply Foretells.check
  apply (foretells_lengthCodeLengths carries _).bind
  intro listed
  cases lengthCode? ((List.range 19).map fun symbol => (listed.lookup symbol).getD 0) with
  | none => exact foretells_fail _
  | some code =>
    apply (foretells_wordLengths carries code _ _ []).bind
    intro lengths
    apply Foretells.check
    cases Code.ofLengths? (lengths.reverse.take (counts % 32 + 257)) with
    | none => exact foretells_fail _
    | some literals =>
      cases Code.ofLengths? (lengths.reverse.drop (counts % 32 + 257)) with
      | none => exact foretells_fail _
      | some distances =>
        exact foretells_bound carries fun _ _ => foretells_symbols carries literals distances

theorem foretells_blocks {less more : Nat} (le : less ≤ more) :
    Foretells whole part (blocks less) (blocks more) := by
  induction less generalizing more with
  | zero => exact foretells_truncated _
  | succ less ih =>
    obtain ⟨more, rfl⟩ : ∃ smaller, more = smaller + 1 := ⟨more - 1, by omega⟩
    have rest := ih (Nat.le_of_succ_le_succ le)
    unfold blocks
    apply (foretells_take carries 3).bind
    intro head
    dsimp only
    have others : Foretells whole part (if head % 2 = 0 then blocks less else pure ())
        (if head % 2 = 0 then blocks more else pure ()) := rest.ite (foretells_pure ())
    split
    · exact (foretells_storedBlock carries).bind fun _ => others
    · apply foretells_bound carries
      intro fewer enough le
      exact (foretells_symbols carries _ _ le).bind fun _ => others
    · exact (foretells_dynamicBlock carries).bind fun _ => others
    · exact (foretells_fail _).bind fun _ => others

theorem foretells_stream : Foretells whole part stream stream := by
  unfold stream
  apply foretells_bound carries
  intro less more le
  exact (foretells_blocks carries le).bind fun _ => foretells_align

end
end Inflating

namespace Container
open Inflating

section
variable {whole part : Bytes} (carries : whole.Carries 0 part)
include carries

theorem foretells_skipText {less more : Nat} (le : less ≤ more) :
    Foretells whole part (skipText less) (skipText more) := by
  induction less generalizing more with
  | zero => exact foretells_truncated _
  | succ less ih =>
    obtain ⟨more, rfl⟩ : ∃ smaller, more = smaller + 1 := ⟨more - 1, by omega⟩
    unfold skipText
    apply (foretells_take carries 8).bind
    intro byte
    apply Foretells.ite
    · exact ih (Nat.le_of_succ_le_succ le)
    · exact foretells_pure _

theorem foretells_shortHeader : Foretells whole part shortHeader shortHeader := by
  unfold shortHeader
  apply (foretells_take carries 16).bind
  intro word
  apply Foretells.check
  apply Foretells.check
  apply Foretells.check
  apply Foretells.ite
  · exact (foretells_take carries 32).bind fun _ => foretells_fail _
  · exact foretells_pure ()

theorem foretells_extraField (present : Bool) {short long : Inflating Unit}
    (rest : Foretells whole part short long) :
    Foretells whole part
      (if present then (do let length ← take 16; let _ ← takeBytes length; short) else short)
      (if present then (do let length ← take 16; let _ ← takeBytes length; long) else long) := by
  apply Foretells.ite
  · apply (foretells_take carries 16).bind
    intro length
    exact (foretells_takeBytes carries length).bind fun _ => rest
  · exact rest

theorem foretells_textField (present : Bool) {short long : Inflating Unit}
    (rest : Foretells whole part short long) :
    Foretells whole part (if present then (do skipText (← bound); short) else short)
      (if present then (do skipText (← bound); long) else long) := by
  apply Foretells.ite
  · apply foretells_bound carries
    intro less more le
    exact (foretells_skipText carries le).bind fun _ => rest
  · exact rest

theorem foretells_longHeader : Foretells whole part longHeader longHeader := by
  unfold longHeader
  apply (foretells_take carries 16).bind
  intro magic
  apply Foretells.check
  apply (foretells_take carries 16).bind
  intro word
  apply Foretells.check
  apply Foretells.check
  apply (foretells_take carries 32).bind
  intro time
  apply (foretells_take carries 16).bind
  intro level
  apply foretells_extraField carries
  apply foretells_textField carries
  apply foretells_textField carries
  apply Foretells.ite
  · apply foretells_read_get
    intro progress inside
    rw [carries.extract_front 0 (by omega)]
    apply (foretells_take carries 16).bind
    intro checksum
    exact (foretells_fail _).ite (foretells_pure ())
  · exact foretells_pure ()

theorem foretells_trailer (container : Container) :
    Foretells whole part container.trailer container.trailer := by
  cases container with
  | short =>
    apply (foretells_takeBytes carries 4).bind
    intro bytes
    apply foretells_get.bind
    intro progress
    exact (foretells_fail _).ite (foretells_pure ())
  | long =>
    apply (foretells_take carries 32).bind
    intro checksum
    apply foretells_get.bind
    intro progress
    apply Foretells.check
    apply (foretells_take carries 32).bind
    intro size
    apply foretells_get.bind
    intro progress
    exact (foretells_fail _).ite (foretells_pure ())

theorem foretells_content (container : Container) :
    Foretells whole part container.content container.content := by
  have head : Foretells whole part container.header container.header := by
    cases container with
    | short => exact foretells_shortHeader carries
    | long => exact foretells_longHeader carries
  exact head.bind fun _ => (foretells_stream carries).bind fun _ => foretells_trailer carries container

end

/-- What has been decided of data stays so when more data follow. -/
theorem expand_append (container : Container) (data more : Bytes)
    (decided : (container.expand data).ending ≠ .error .truncated) :
    container.expand (data ++ more) =
      ⟨(container.expand data).output, (container.expand data).ending.map (· + more.size)⟩ := by
  have carries := (Bytes.Carries.refl (data ++ more)).front
  have settled := foretells_content carries container ⟨0, ByteArray.empty⟩ (Nat.zero_le _)
  unfold expand at decided ⊢
  cases ran : container.content data ⟨0, ByteArray.empty⟩ with
  | ok result after =>
    rw [ran] at settled
    have inside := settled.1
    have unread : (data ++ more).size - after.position / 8 =
        data.size - after.position / 8 + more.size := by
      rw [ByteArray.size_append]
      omega
    rw [settled.2]
    simp only [Except.map, unread]
  | error flaw after =>
    rw [ran] at settled decided
    rcases settled with rfl | same
    · exact absurd rfl decided
    · rw [same]
      rfl

end Container
end Deflate
end RegionStore
