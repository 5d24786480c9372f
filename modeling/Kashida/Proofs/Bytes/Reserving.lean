import Kashida.Tables.Coverage
import Mathlib.Algebra.GroupWithZero.Nat
import Mathlib.Data.List.Induction
import Mathlib.Data.List.Nodup

/-! Fields that are reserved now and filled later. Whatever is written in between, and in whatever order the fields are
filled, the bytes are those of writing every value at once where its field stands. -/
namespace Kashida

namespace Emission

def content : Emission → List UInt8
  | .bytes content => content
  | .zeros count => List.replicate count 0
  | .nested size => List.replicate size 0

def isNested : Emission → Bool
  | .nested _ => true
  | .bytes _ | .zeros _ => false

/-- What pieces write when they stand on their own. -/
def encoding (pieces : List Emission) : List UInt8 := pieces.flatMap content

/-- The pieces make up a field: none of them reserves a field of its own, and together they have its size. -/
def MakeUp (size : Nat) (pieces : List Emission) : Prop :=
  (∀ piece ∈ pieces, piece.isNested = false) ∧ (encoding pieces).length = size

instance (size : Nat) (pieces : List Emission) : Decidable (MakeUp size pieces) :=
  inferInstanceAs (Decidable (_ ∧ _))

/-- What the pieces write that fit into the room, up to the first that does not. -/
def fitting (room : Nat) : List Emission → List UInt8
  | [] => []
  | piece :: pieces =>
      if piece.isNested = false ∧ piece.content.length ≤ room then
        piece.content ++ fitting (room - piece.content.length) pieces
      else []

/-- What a field holds in the end. One that was never filled holds zeros, and one that could not be filled holds the
pieces that fit, with zeros behind them. -/
def settled (size : Nat) : Option (List Emission) → List UInt8
  | none => List.replicate size 0
  | some pieces =>
      if MakeUp size pieces then encoding pieces
      else fitting size pieces ++ List.replicate (size - (fitting size pieces).length) 0

theorem makeUp_cons {size : Nat} {piece : Emission} {pieces : List Emission} : MakeUp size (piece :: pieces) ↔
    (piece.isNested = false ∧ piece.content.length ≤ size) ∧ MakeUp (size - piece.content.length) pieces := by
  simp only [MakeUp, encoding, List.forall_mem_cons, List.flatMap_cons, List.length_append]
  constructor
  · rintro ⟨⟨plain, rest⟩, whole⟩
    exact ⟨⟨plain, by omega⟩, rest, by omega⟩
  · rintro ⟨⟨plain, fits⟩, rest, whole⟩
    exact ⟨⟨plain, rest⟩, by omega⟩

theorem fitting_length_le (room : Nat) (pieces : List Emission) : (fitting room pieces).length ≤ room := by
  induction pieces generalizing room with
  | nil => exact Nat.zero_le _
  | cons piece pieces ih =>
    rw [fitting]
    split
    · rename_i fits
      have rest := ih (room - piece.content.length)
      rw [List.length_append]
      omega
    · exact Nat.zero_le _

theorem settled_length (size : Nat) (filling : Option (List Emission)) : (settled size filling).length = size := by
  cases filling with
  | none => exact List.length_replicate
  | some pieces =>
    rw [settled]
    split
    · rename_i whole
      exact whole.2
    · have bound := fitting_length_le size pieces
      rw [List.length_append, List.length_replicate]
      omega

end Emission

open Emission (content isNested MakeUp makeUp_cons encoding fitting settled settled_length)

namespace Buffer

/-- One piece: it is refused where it does not fit, a field of its own is refused after its zeros, and otherwise the
rest goes on behind it. -/
theorem overwrite_cons (piece : Emission) (pieces : List Emission) (old : List UInt8) :
    overwrite (piece :: pieces) old =
      if piece.content.length ≤ old.length then
        if piece.isNested = true then (.error .sizeMismatch, piece.content ++ old.drop piece.content.length)
        else ((overwrite pieces (old.drop piece.content.length)).1,
          piece.content ++ (overwrite pieces (old.drop piece.content.length)).2)
      else (.error .sizeMismatch, old) := by
  cases piece <;> simp [overwrite, content, isNested]

theorem overwrite_length (pieces : List Emission) (old : List UInt8) :
    (overwrite pieces old).2.length = old.length := by
  induction pieces generalizing old with
  | nil => cases old <;> rfl
  | cons piece pieces ih =>
    rw [overwrite_cons]
    split
    · split
      · simp only [List.length_append, List.length_drop]
        omega
      · simp only [List.length_append, ih, List.length_drop]
        omega
    · rfl

theorem overwrite_outcome (pieces : List Emission) (old : List UInt8) : (overwrite pieces old).1 =
    if MakeUp old.length pieces then .ok () else .error .sizeMismatch := by
  induction pieces generalizing old with
  | nil => cases old <;> rfl
  | cons piece pieces ih =>
    simp only [overwrite_cons, makeUp_cons]
    by_cases fits : piece.content.length ≤ old.length
    · cases nested : piece.isNested with
      | true => simp [fits]
      | false => simp [fits, ih]
    · simp [fits]

theorem overwrite_whole {pieces : List Emission} {old : List UInt8} (whole : MakeUp old.length pieces) :
    (overwrite pieces old).2 = encoding pieces := by
  induction pieces generalizing old with
  | nil =>
    have empty := List.eq_nil_of_length_eq_zero whole.2.symm
    rw [empty]
    rfl
  | cons piece pieces ih =>
    obtain ⟨⟨plain, fits⟩, rest⟩ := makeUp_cons.mp whole
    rw [← List.length_drop] at rest
    rw [overwrite_cons, if_pos fits, if_neg (by simp [plain]), ih rest]
    rfl

/-- A field holds zeros before it is filled, so that zeros are also what a failure leaves behind the pieces that fit. -/
theorem overwrite_zeros (pieces : List Emission) (size : Nat) :
    (overwrite pieces (List.replicate size 0)).2 =
      fitting size pieces ++ List.replicate (size - (fitting size pieces).length) 0 := by
  induction pieces generalizing size with
  | nil => cases size <;> rfl
  | cons piece pieces ih =>
    rw [overwrite_cons, fitting, List.length_replicate, List.drop_replicate, ih]
    by_cases fits : piece.content.length ≤ size
    · cases nested : piece.isNested with
      | true =>
        have zeros : piece.content = List.replicate piece.content.length 0 := by
          cases piece <;> simp_all [content, isNested]
        rw [if_pos fits, if_pos rfl, if_neg (by simp), zeros]
        simp only [List.length_replicate, List.replicate_append_replicate, List.nil_append, List.length_nil]
        congr 1
        omega
      | false =>
        rw [if_pos fits, if_neg (by simp), if_pos ⟨rfl, fits⟩, List.append_assoc, List.length_append, Nat.sub_sub]
    · rw [if_neg fits, if_neg (fun both => fits both.2)]
      rfl

theorem overwrite_settled (pieces : List Emission) (size : Nat) :
    (overwrite pieces (settled size none)).2 = settled size (some pieces) := by
  simp only [settled]
  split
  · rename_i whole
    exact overwrite_whole (by rwa [List.length_replicate])
  · exact overwrite_zeros pieces size

/-- A filling replaces what stands in its field. -/
theorem fill_at {field : Reservation} (front old back : List UInt8) (start : front.length = field.start)
    (size : old.length = field.size) (pieces : List Emission) : fill ⟨front ++ old ++ back⟩ field pieces =
      ((overwrite pieces old).1, ⟨front ++ (overwrite pieces old).2 ++ back⟩) := by
  simp only [fill, List.append_assoc, ← start, List.drop_left, List.take_left, ← size]

/-- What filling a field does to a buffer: it succeeds exactly if the pieces make up the field, and then the field holds
what they write. In any case everything else stays. -/
structure FillsInPlace (buffer : Buffer) (field : Reservation) (pieces : List Emission) : Prop where
  inside : field.start + field.size ≤ buffer.size
  outcome : (buffer.fill field pieces).1 = if MakeUp field.size pieces then .ok () else .error .sizeMismatch
  written : (buffer.fill field pieces).1 = .ok () →
    ((buffer.fill field pieces).2.bytes.drop field.start).take field.size = encoding pieces
  size : (buffer.fill field pieces).2.size = buffer.size
  outside : ∀ index, index < field.start ∨ field.start + field.size ≤ index →
    (buffer.fill field pieces).2.bytes[index]? = buffer.bytes[index]?

theorem fillsInPlace {buffer : Buffer} {field : Reservation} (inside : field.start + field.size ≤ buffer.size)
    (pieces : List Emission) : buffer.FillsInPlace field pieces := by
  obtain ⟨bytes⟩ := buffer
  obtain ⟨front, old, back, rfl, start, size⟩ : ∃ front old back, bytes = front ++ old ++ back ∧
      front.length = field.start ∧ old.length = field.size := by
    have bound : field.start + field.size ≤ bytes.length := inside
    refine ⟨bytes.take field.start, (bytes.drop field.start).take field.size,
      (bytes.drop field.start).drop field.size, ?_, ?_, ?_⟩
    · rw [List.append_assoc, List.take_append_drop, List.take_append_drop]
    · rw [List.length_take]
      omega
    · rw [List.length_take, List.length_drop]
      omega
  have outcome : (overwrite pieces old).1 = if MakeUp field.size pieces then .ok () else .error .sizeMismatch := by
    rw [overwrite_outcome, size]
  have length : (overwrite pieces old).2.length = old.length := overwrite_length pieces old
  constructor
  · exact inside
  · rw [fill_at front old back start size, outcome]
  · rw [fill_at front old back start size]
    intro success
    have whole : MakeUp old.length pieces := by
      by_contra fails
      rw [overwrite_outcome, if_neg fails] at success
      cases success
    rw [List.append_assoc, ← start, List.drop_left, ← size, ← length, List.take_left, overwrite_whole whole]
  · rw [fill_at front old back start size]
    simp only [Buffer.size, List.length_append, length]
  · rw [fill_at front old back start size]
    intro index away
    simp only [List.append_assoc]
    rcases away with before | behind
    · rw [List.getElem?_append_left (by omega), List.getElem?_append_left (by omega)]
    · rw [List.getElem?_append_right (by omega), List.getElem?_append_right (by omega),
        List.getElem?_append_right (by omega), List.getElem?_append_right (by omega), length]

end Buffer

/-- What can be done with a buffer. Fields are numbered in the order in which they are reserved. -/
inductive BufferStep where
  | scalars (values : List Scalar)
  | coverage (table : Coverage)
  | bytes (content : List UInt8)
  | zeros (count : Nat)
  | reserve (size : Nat)
  | reserveMany (size count : Nat)
  | fill (number : Nat) (pieces : List Emission)

/-- A part of what is written from front to back. -/
inductive BufferPart where
  | content (bytes : List UInt8)
  | field (size : Nat)

namespace BufferPart

def size : BufferPart → Nat
  | .content bytes => bytes.length
  | .field size => size

/-- The fields among parts that start at a position. -/
def reservations : Nat → List BufferPart → List Reservation
  | _, [] => []
  | start, .content bytes :: parts => reservations (start + bytes.length) parts
  | start, .field size :: parts => ⟨start, size⟩ :: reservations (start + size) parts

def extent (parts : List BufferPart) : Nat := (parts.map size).sum

/-- Writes the parts one after the other, every field with what it holds in the end. The first field has the number
`first`. -/
def inPlace (filling : Nat → Option (List Emission)) : (first : Nat) → List BufferPart → List UInt8
  | _, [] => []
  | first, .content bytes :: parts => bytes ++ inPlace filling first parts
  | first, .field size :: parts => settled size (filling first) ++ inPlace filling (first + 1) parts

theorem reservations_append (start : Nat) (parts more : List BufferPart) :
    reservations start (parts ++ more) = reservations start parts ++ reservations (start + extent parts) more := by
  induction parts generalizing start with
  | nil => rfl
  | cons part parts ih =>
    cases part with
    | content bytes =>
      simp only [List.cons_append, reservations, ih, extent, List.map_cons, List.sum_cons, size, Nat.add_assoc]
    | field width =>
      simp only [List.cons_append, reservations, ih, extent, List.map_cons, List.sum_cons, size, Nat.add_assoc]

theorem inPlace_append (filling : Nat → Option (List Emission)) (start first : Nat) (parts more : List BufferPart) :
    inPlace filling first (parts ++ more) =
      inPlace filling first parts ++ inPlace filling (first + (reservations start parts).length) more := by
  induction parts generalizing start first with
  | nil => rfl
  | cons part parts ih =>
    cases part with
    | content bytes => simp only [List.cons_append, inPlace, reservations, ih (start + bytes.length), List.append_assoc]
    | field size =>
      simp only [List.cons_append, inPlace, reservations, ih (start + size), List.append_assoc, List.length_cons]
      rw [Nat.add_right_comm, Nat.add_assoc]

theorem inPlace_length (filling : Nat → Option (List Emission)) (first : Nat) (parts : List BufferPart) :
    (inPlace filling first parts).length = extent parts := by
  induction parts generalizing first with
  | nil => rfl
  | cons part parts ih =>
    cases part with
    | content bytes => simp only [inPlace, List.length_append, ih, extent, List.map_cons, List.sum_cons, size]
    | field size =>
      simp only [inPlace, List.length_append, settled_length, ih, extent, List.map_cons, List.sum_cons, BufferPart.size]

/-- What a part adds when it is written. -/
def blank : BufferPart → List UInt8
  | .content bytes => bytes
  | .field size => List.replicate size 0

theorem inPlace_unfilled {filling : Nat → Option (List Emission)} {first : Nat} (parts : List BufferPart)
    (unfilled : ∀ number, first ≤ number → filling number = none) :
    inPlace filling first parts = parts.flatMap blank := by
  induction parts generalizing first with
  | nil => rfl
  | cons part parts ih =>
    rw [List.flatMap_cons]
    cases part with
    | content bytes => rw [inPlace, ih unfilled, blank]
    | field size => rw [inPlace, unfilled first (Nat.le_refl _), ih fun number later => unfilled number (by omega)]; rfl

theorem reservations_replicate (start size count : Nat) :
    reservations start (List.replicate count (.field size)) =
      (List.range count).map fun i => ⟨start + i * size, size⟩ := by
  induction count generalizing start with
  | zero => rfl
  | succ count ih =>
    rw [List.replicate_succ, reservations, ih, List.range_succ_eq_map, List.map_cons, List.map_map]
    simp [Function.comp_def, Nat.succ_mul, Nat.add_assoc, Nat.add_comm size]

theorem blank_replicate (size count : Nat) :
    (List.replicate count (.field size)).flatMap blank = List.replicate (count * size) 0 := by
  induction count with
  | zero => simp
  | succ count ih =>
    rw [List.replicate_succ, List.flatMap_cons, ih, blank, List.replicate_append_replicate, Nat.succ_mul, Nat.add_comm]

theorem inPlace_congr {filling other : Nat → Option (List Emission)} {first : Nat} (parts : List BufferPart)
    (same : ∀ number, first ≤ number → other number = filling number) :
    inPlace other first parts = inPlace filling first parts := by
  induction parts generalizing first with
  | nil => rfl
  | cons part parts ih =>
    cases part with
    | content bytes => simp only [inPlace, ih same]
    | field size =>
      have rest : inPlace other (first + 1) parts = inPlace filling (first + 1) parts :=
        ih fun number later => same number (by omega)
      simp only [inPlace, same first (Nat.le_refl _), rest]

theorem reservations_inside {start place : Nat} {parts : List BufferPart} {field : Reservation}
    (found : (reservations start parts)[place]? = some field) :
    start ≤ field.start ∧ field.start + field.size ≤ start + extent parts := by
  induction parts generalizing start place with
  | nil => cases found
  | cons part parts ih =>
    simp only [extent, List.map_cons, List.sum_cons]
    cases part with
    | content bytes =>
      obtain ⟨lower, upper⟩ := ih found
      simp only [extent, BufferPart.size] at upper ⊢
      omega
    | field size =>
      cases place with
      | zero =>
        cases found
        simp only [BufferPart.size]
        omega
      | succ place =>
        obtain ⟨lower, upper⟩ := ih found
        simp only [extent, BufferPart.size] at upper ⊢
        omega

/-- A field stands between what is before and behind it, and these do not depend on how it is filled. -/
theorem inPlace_split (filling : Nat → Option (List Emission)) (first : Nat) {start place : Nat}
    {parts : List BufferPart} {field : Reservation} (found : (reservations start parts)[place]? = some field) :
    ∃ front back, start + front.length = field.start ∧
      ∀ other : Nat → Option (List Emission), (∀ number, number ≠ first + place → other number = filling number) →
        inPlace other first parts = front ++ settled field.size (other (first + place)) ++ back := by
  induction parts generalizing start first place with
  | nil => cases found
  | cons part parts ih =>
    cases part with
    | content bytes =>
      obtain ⟨front, back, position, split⟩ := ih first found
      refine ⟨bytes ++ front, back, by rw [List.length_append, ← position, Nat.add_assoc], fun other same => ?_⟩
      rw [inPlace, split other same]
      simp only [List.append_assoc]
    | field size =>
      cases place with
      | zero =>
        cases found
        refine ⟨[], inPlace filling (first + 1) parts, rfl, fun other same => ?_⟩
        rw [inPlace, inPlace_congr parts fun number later => same number (by omega)]
        rfl
      | succ place =>
        obtain ⟨front, back, position, split⟩ := ih (first + 1) found
        refine ⟨settled size (filling first) ++ front, back, ?_, fun other same => ?_⟩
        · rw [List.length_append, settled_length, ← position, Nat.add_assoc]
        · have number : first + (place + 1) = first + 1 + place := by omega
          rw [number] at same ⊢
          rw [inPlace, split other same, same first (by omega)]
          simp only [List.append_assoc]

end BufferPart

open BufferPart (reservations inPlace)

namespace BufferStep

/-- What a step adds at the end. -/
def parts : BufferStep → List BufferPart
  | .scalars values => [.content (values.flatMap Scalar.bytes)]
  | .coverage table => [.content (table.write {}).2.bytes]
  | .bytes content => [.content content]
  | .zeros count => [.content (List.replicate count 0)]
  | .reserve size => [.field size]
  | .reserveMany size count => List.replicate count (.field size)
  | .fill _ _ => []

def filling? : BufferStep → Option (Nat × List Emission)
  | .fill number pieces => some (number, pieces)
  | _ => none

def skeleton (steps : List BufferStep) : List BufferPart := steps.flatMap parts

def fillings (steps : List BufferStep) : List (Nat × List Emission) := steps.filterMap filling?

/-- What a field is filled with. -/
def given (steps : List BufferStep) (number : Nat) : Option (List Emission) := (fillings steps).lookup number

/-- A field is filled after it was reserved, and only once. -/
def Admits (before : List BufferStep) : BufferStep → Prop
  | .fill number _ => number < (reservations 0 (skeleton before)).length ∧ number ∉ (fillings before).map Prod.fst
  | _ => True

instance (before : List BufferStep) : (step : BufferStep) → Decidable (Admits before step)
  | .fill _ _ => inferInstanceAs (Decidable (_ ∧ _))
  | .scalars _ | .coverage _ | .bytes _ | .zeros _ | .reserve _ | .reserveMany _ _ => inferInstanceAs (Decidable True)

def Orderly (steps : List BufferStep) : Prop :=
  ∀ index, (inside : index < steps.length) → Admits (steps.take index) steps[index]

instance (steps : List BufferStep) : Decidable (Orderly steps) :=
  inferInstanceAs (Decidable (∀ index, (inside : index < steps.length) → _))

theorem Orderly.before {steps after : List BufferStep} {step : BufferStep}
    (orderly : Orderly (steps ++ step :: after)) : Orderly steps ∧ Admits steps step := by
  constructor
  · intro index inside
    have admitted := orderly index (by rw [List.length_append]; omega)
    rwa [List.take_append_of_le_length (Nat.le_of_lt inside), List.getElem_append_left inside] at admitted
  · have admitted := orderly steps.length (by simp)
    rw [List.take_left, List.getElem_append_right (Nat.le_refl _)] at admitted
    simpa only [Nat.sub_self, List.getElem_cons_zero] using admitted

theorem skeleton_concat (steps : List BufferStep) (step : BufferStep) :
    skeleton (steps ++ [step]) = skeleton steps ++ step.parts := by
  simp [skeleton]

theorem fillings_concat (steps : List BufferStep) (step : BufferStep) :
    fillings (steps ++ [step]) = fillings steps ++ step.filling?.toList := by
  cases filled : step.filling? with
  | none => simp [fillings, filled]
  | some entry => simp [fillings, filled]

/-- Only reserved fields are filled. -/
theorem Orderly.reserved {steps : List BufferStep} (orderly : Orderly steps) (entry : Nat × List Emission)
    (filled : entry ∈ fillings steps) : entry.1 < (reservations 0 (skeleton steps)).length := by
  induction steps using List.reverseRecOn with
  | nil => cases filled
  | append_singleton steps step ih =>
    obtain ⟨orderly, admitted⟩ := orderly.before
    rw [fillings_concat, List.mem_append] at filled
    rw [skeleton_concat, BufferPart.reservations_append, List.length_append]
    rcases filled with earlier | now
    · have bound := ih orderly earlier
      omega
    · cases step with
      | fill number pieces =>
        cases List.mem_singleton.mp now
        have bound : number < (reservations 0 (skeleton steps)).length := admitted.1
        omega
      | _ => cases now

theorem Orderly.unfilled {steps : List BufferStep} (orderly : Orderly steps) {number : Nat}
    (unreserved : (reservations 0 (skeleton steps)).length ≤ number) : given steps number = none := by
  refine List.lookup_eq_none_iff.mpr fun entry filled => ?_
  have bound := orderly.reserved entry filled
  exact bne_iff_ne.mpr (by omega)

theorem Orderly.nodup {steps : List BufferStep} (orderly : Orderly steps) :
    ((fillings steps).map Prod.fst).Nodup := by
  induction steps using List.reverseRecOn with
  | nil => exact List.nodup_nil
  | append_singleton steps step ih =>
    obtain ⟨before, admitted⟩ := orderly.before
    rw [fillings_concat]
    cases step with
    | fill number pieces =>
      have fresh : number ∉ (fillings steps).map Prod.fst := admitted.2
      rw [List.map_append]
      exact List.nodup_append_comm.mp (List.nodup_cons.mpr ⟨fresh, ih before⟩)
    | _ => simpa [filling?] using ih before

end BufferStep

theorem Coverage.write_buffer (table : Coverage) (buffer : Buffer) :
    (table.write buffer).2 = buffer.append (table.write {}).2.bytes := by
  unfold Coverage.write
  split <;> simp [Buffer.append]

open BufferStep (skeleton fillings given Admits Orderly)

/-- A buffer and the fields reserved in it so far. -/
structure Writing where
  buffer : Buffer := {}
  fields : List Reservation := []

namespace Writing

def take (writing : Writing) : BufferStep → Writing
  | .scalars values => { writing with buffer := writing.buffer.append (values.flatMap Scalar.bytes) }
  | .coverage table => { writing with buffer := (table.write writing.buffer).2 }
  | .bytes content => { writing with buffer := writing.buffer.append content }
  | .zeros count => { writing with buffer := writing.buffer.appendZeros count }
  | .reserve size =>
      let (field, buffer) := writing.buffer.reserve size
      ⟨buffer, writing.fields ++ [field]⟩
  | .reserveMany size count =>
      let (fields, buffer) := writing.buffer.reserveMany size count
      ⟨buffer, writing.fields ++ fields⟩
  | .fill number pieces =>
      match writing.fields[number]? with
      | some field => { writing with buffer := (writing.buffer.fill field pieces).2 }
      | none => writing

/-- The state after steps that start with an empty buffer. -/
def run (steps : List BufferStep) : Writing := steps.foldl take {}

theorem run_concat (steps : List BufferStep) (step : BufferStep) : run (steps ++ [step]) = (run steps).take step :=
  List.foldl_concat ..

/-- The buffer holds the parts one after the other, with the fillings in place, and the fields are those among them. -/
structure Shows (writing : Writing) (parts : List BufferPart) (filling : Nat → Option (List Emission)) : Prop where
  bytes : writing.buffer.bytes = inPlace filling 0 parts
  fields : writing.fields = reservations 0 parts

theorem Shows.size {writing : Writing} (shows : writing.Shows parts filling) :
    writing.buffer.size = BufferPart.extent parts := by
  rw [Buffer.size, shows.bytes, BufferPart.inPlace_length]

/-- A step that fills nothing only adds its parts. -/
theorem take_adds (writing : Writing) {step : BufferStep} (plain : step.filling? = none) :
    (writing.take step).buffer.bytes = writing.buffer.bytes ++ step.parts.flatMap BufferPart.blank ∧
      (writing.take step).fields = writing.fields ++ BufferPart.reservations writing.buffer.size step.parts := by
  cases step with
  | scalars values => simp [take, BufferStep.parts, Buffer.append, BufferPart.blank, BufferPart.reservations]
  | coverage table =>
    simp [take, BufferStep.parts, Coverage.write_buffer table writing.buffer, Buffer.append, BufferPart.blank,
      BufferPart.reservations]
  | bytes content => simp [take, BufferStep.parts, Buffer.append, BufferPart.blank, BufferPart.reservations]
  | zeros count =>
    simp [take, BufferStep.parts, Buffer.appendZeros, Buffer.append, BufferPart.blank, reservations]
  | reserve size =>
    simp [take, BufferStep.parts, Buffer.reserve, Buffer.appendZeros, Buffer.append, BufferPart.blank, reservations]
  | reserveMany size count =>
    simp [take, BufferStep.parts, Buffer.reserveMany, Buffer.appendZeros, Buffer.append, BufferPart.blank_replicate,
      BufferPart.reservations_replicate]
  | fill number pieces => cases plain

theorem take_shows {writing : Writing} {step : BufferStep} (shows : writing.Shows parts filling)
    (plain : step.filling? = none)
    (unfilled : ∀ number, (reservations 0 parts).length ≤ number → filling number = none) :
    (writing.take step).Shows (parts ++ step.parts) filling := by
  obtain ⟨bytes, reserved⟩ := take_adds writing plain
  constructor
  · rw [bytes, shows.bytes, BufferPart.inPlace_append filling 0, Nat.zero_add, BufferPart.inPlace_unfilled _ unfilled]
  · rw [reserved, shows.fields, BufferPart.reservations_append, Nat.zero_add, shows.size]

theorem take_fill_shows {writing : Writing} (shows : writing.Shows parts filling)
    (inside : number < (reservations 0 parts).length) (unfilled : filling number = none)
    {filled : Nat → Option (List Emission)} (now : filled number = some pieces)
    (others : ∀ other, other ≠ number → filled other = filling other) :
    (writing.take (.fill number pieces)).Shows parts filled := by
  obtain ⟨field, found⟩ : ∃ field, (reservations 0 parts)[number]? = some field := ⟨_, List.getElem?_eq_getElem inside⟩
  obtain ⟨front, back, position, split⟩ := BufferPart.inPlace_split filling 0 found
  simp only [Nat.zero_add] at position split
  have before := split filling fun _ _ => rfl
  have after := split filled others
  have bytes : writing.buffer = ⟨front ++ settled field.size none ++ back⟩ := by
    rw [← unfilled, ← before, ← shows.bytes]
  have filling := Buffer.fill_at front (settled field.size none) back position (settled_length _ _) pieces
  constructor
  · rw [after, now, ← Buffer.overwrite_settled]
    simp only [take, shows.fields, found, bytes, filling]
  · simp only [take, shows.fields, found]

/-- The buffer after any orderly steps. -/
theorem run_shows {steps : List BufferStep} (orderly : Orderly steps) :
    (run steps).Shows (skeleton steps) (given steps) := by
  induction steps using List.reverseRecOn with
  | nil => exact ⟨rfl, rfl⟩
  | append_singleton steps step ih =>
    obtain ⟨before, admitted⟩ := orderly.before
    have shows := ih before
    have fillings := BufferStep.fillings_concat steps step
    rw [run_concat, BufferStep.skeleton_concat]
    cases filled : step.filling? with
    | none =>
      have same : given (steps ++ [step]) = given steps := by
        funext number
        rw [given, fillings, filled, Option.toList_none, List.append_nil, given]
      rw [same]
      exact take_shows shows filled fun number => before.unfilled
    | some entry =>
      cases step with
      | fill number pieces =>
        obtain ⟨inside, fresh⟩ := admitted
        have unfilled : given steps number = none := by
          refine List.lookup_eq_none_iff.mpr fun earlier listed => bne_iff_ne.mpr ?_
          rintro rfl
          exact fresh (List.mem_map_of_mem listed)
        rw [BufferStep.parts, List.append_nil]
        refine take_fill_shows shows inside unfilled ?_ ?_
        · rw [given, fillings, List.lookup_append, ← given, unfilled]
          simp [BufferStep.filling?]
        · intro other different
          rw [given, fillings, List.lookup_append, ← given]
          simp [BufferStep.filling?, List.lookup_cons, beq_false_of_ne different]
      | _ => cases filled

end Writing

theorem lookup_eq_some_iff_mem {entries : List (Nat × α)} (distinct : (entries.map Prod.fst).Nodup) :
    entries.lookup number = some value ↔ (number, value) ∈ entries := by
  induction entries with
  | nil => simp
  | cons entry entries ih =>
    obtain ⟨key, kept⟩ := entry
    obtain ⟨fresh, rest⟩ := List.nodup_cons.mp distinct
    rw [List.mem_cons, Prod.mk.injEq]
    by_cases same : number = key
    · subst same
      have later : (number, value) ∉ entries := fun listed => fresh (List.mem_map.mpr ⟨_, listed, rfl⟩)
      simp [later, eq_comm]
    · simp [List.lookup_cons, beq_false_of_ne same, same, ih rest]

/-- A number stands for one filling, so that the order of the fillings does not matter. -/
theorem BufferStep.given_perm {steps others : List BufferStep} (orderly : Orderly steps)
    (same : (fillings others).Perm (fillings steps)) : given others = given steps := by
  have distinct : ((fillings others).map Prod.fst).Nodup := (same.map Prod.fst).nodup_iff.mpr orderly.nodup
  funext number
  refine Option.ext fun pieces => ?_
  rw [given, given, lookup_eq_some_iff_mem distinct, lookup_eq_some_iff_mem orderly.nodup, same.mem_iff]

/-- Fields that are filled later are as if written in place. The size of the buffer is that of what was written and
reserved. A filling of a reserved field succeeds exactly if its pieces make up the field, then puts these there, and in
any case leaves everything else as it was. In the end the buffer holds what was written from front to back, with every
field as it was filled, and so the order in which fields are filled does not matter. -/
theorem Buffer.filled_fields_are_written_in_place (steps : List BufferStep) (orderly : Orderly steps) :
    (Writing.run steps).buffer.size = BufferPart.extent (skeleton steps) ∧
    (∀ before number pieces after, steps = before ++ .fill number pieces :: after →
      ∃ field, (Writing.run before).fields[number]? = some field ∧
        (Writing.run before).buffer.FillsInPlace field pieces) ∧
    (Writing.run steps).buffer.bytes = inPlace (given steps) 0 (skeleton steps) ∧
    ∀ others, Orderly others → skeleton others = skeleton steps → (fillings others).Perm (fillings steps) →
      (Writing.run others).buffer = (Writing.run steps).buffer := by
  have shows := Writing.run_shows orderly
  refine ⟨shows.size, ?_, shows.bytes, ?_⟩
  · rintro before number pieces after rfl
    obtain ⟨orderlyBefore, inside, _⟩ := orderly.before
    have showsBefore := Writing.run_shows orderlyBefore
    have found := List.getElem?_eq_getElem inside
    refine ⟨_, by rw [showsBefore.fields, found], Buffer.fillsInPlace ?_ pieces⟩
    have bound := (BufferPart.reservations_inside found).2
    rwa [showsBefore.size, ← Nat.zero_add (BufferPart.extent _)]
  · intro others orderlyToo sameParts sameFillings
    have showsOthers := (Writing.run_shows orderlyToo).bytes
    rw [sameParts, BufferStep.given_perm orderly sameFillings, ← shows.bytes] at showsOthers
    generalize (Writing.run others).buffer = one at showsOthers ⊢
    generalize (Writing.run steps).buffer = other at showsOthers ⊢
    cases one
    cases other
    cases showsOthers
    rfl

/-- Two fields, a byte and a third field that is left alone. The second field is filled before the first, and the
filling of the first is one byte short. -/
def lateSteps : List BufferStep :=
  [.reserveMany 2 2, .bytes [7], .reserve 1, .fill 1 [.bytes (word16 515)], .scalars [.i16 (-2)], .fill 0 [.bytes [9]]]

theorem Buffer.filled_fields_are_written_in_place_after_failure :
    Orderly lateSteps ∧ (Writing.run lateSteps).buffer.bytes = [9, 0, 2, 3, 7, 0, 255, 254] ∧
    (Writing.run lateSteps).buffer.bytes = inPlace (given lateSteps) 0 (skeleton lateSteps) := by
  have orderly : Orderly lateSteps := by decide
  exact ⟨orderly, by decide, (filled_fields_are_written_in_place lateSteps orderly).2.2.1⟩

end Kashida
