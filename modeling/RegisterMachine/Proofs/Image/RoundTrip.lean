import RegisterMachine.Image.Basic
import RegisterMachine.Proofs.Image.Codec

/-!
# Images of programs

An image reads back as the program that it was made of, whatever follows it, and no part of an image
is an image. Both follow from the laws of the codec of programs, which is put together from lawful
codecs. Lengths and line numbers are written with 64 bits, and a program with longer tables or texts
has no image that can be read.
-/

namespace RegisterMachine

def Text.Fits (s : Text) : Prop :=
  (Utf8.encode s).length < 2 ^ 64

/-- The registers, immediates and addresses of the operands may be any. -/
def Instruction.Fits (i : Instruction) : Prop :=
  i.operands.length < 2 ^ 64

def Symbol.Fits (s : Symbol) : Prop :=
  s.name.Fits

def SourceLocation.Fits (l : SourceLocation) : Prop :=
  l.file.Fits ∧ l.line < 2 ^ 64 ∧ l.text.Fits

/-- A table of fewer than 2 ^ 64 entries that satisfy `Fits`. -/
def TableFits {α : Type} (Fits : α → Prop) (table : Array α) : Prop :=
  table.size < 2 ^ 64 ∧ ∀ x ∈ table, Fits x

/-- A program whose lengths and line numbers are below 2 ^ 64. -/
structure Program.Fits (p : Program) : Prop where
  instructions : TableFits Instruction.Fits p.instructions
  functions : TableFits Symbol.Fits p.functions
  labels : TableFits Symbol.Fits p.labels
  strings : TableFits Text.Fits p.strings
  locations : TableFits SourceLocation.Fits p.locations

instance instDecidablePredTextFits : DecidablePred Text.Fits :=
  fun _ => inferInstanceAs (Decidable (_ < _))

instance instDecidablePredInstructionFits : DecidablePred Instruction.Fits :=
  fun _ => inferInstanceAs (Decidable (_ < _))

instance instDecidablePredSymbolFits : DecidablePred Symbol.Fits :=
  fun s => inferInstanceAs (Decidable s.name.Fits)

instance instDecidablePredSourceLocationFits : DecidablePred SourceLocation.Fits :=
  fun _ => inferInstanceAs (Decidable (_ ∧ _ ∧ _))

instance instDecidablePredTableFits {α : Type} (Fits : α → Prop) [DecidablePred Fits] :
    DecidablePred (TableFits Fits) :=
  fun _ => inferInstanceAs (Decidable (_ ∧ _))

theorem Program.fits_iff {p : Program} :
    p.Fits ↔ TableFits Instruction.Fits p.instructions ∧ TableFits Symbol.Fits p.functions ∧
      TableFits Symbol.Fits p.labels ∧ TableFits Text.Fits p.strings ∧
      TableFits SourceLocation.Fits p.locations :=
  ⟨fun h => ⟨h.instructions, h.functions, h.labels, h.strings, h.locations⟩,
    fun ⟨hi, hf, hl, hs, hp⟩ => ⟨hi, hf, hl, hs, hp⟩⟩

instance instDecidablePredProgramFits : DecidablePred Program.Fits :=
  fun _ => decidable_of_iff' _ Program.fits_iff

namespace Codec

open Decoder

variable {α β : Type} {c : Codec α} {rest : List UInt8}

/-- How a value is read that stands behind the index of its variant. -/
theorem run_variant (h : c.Lawful fun _ => True) {index : Nat} (hindex : index < 2 ^ 32) (x : α)
    {read : UInt32 → Decoder β} {f : α → β}
    (hread : read (UInt32.ofNat index) = c.read >>= fun a => pure (f a)) :
    (word.read >>= read).run (writeGroups index ++ c.write x ++ rest) = .ok (f x, rest) := by
  rw [List.append_assoc, run_bind_of_ok (run_word hindex), hread,
    run_bind_of_ok (h.read_write trivial rest)]
  rfl

theorem isLocal_operand : IsLocal operand.read := by
  refine isLocal_word.bind fun kind => ?_
  split
  · exact lawful_byte.isLocal.bind fun _ => isLocal_pure _
  · exact lawful_byte.isLocal.bind fun _ => isLocal_pure _
  · exact lawful_int.isLocal.bind fun _ => isLocal_pure _
  · exact lawful_pattern.isLocal.bind fun _ => isLocal_pure _
  · exact lawful_word.isLocal.bind fun _ => isLocal_pure _
  · exact lawful_word.isLocal.bind fun _ => isLocal_pure _
  · exact isLocal_throw _

theorem lawful_operand : operand.Lawful fun _ => True where
  isLocal := isLocal_operand
  read_write {o} _ rest := by
    cases o with
    | register n => exact run_variant lawful_byte (by decide) n rfl
    | syscallRegister n => exact run_variant lawful_byte (by decide) n rfl
    | immediate value => exact run_variant lawful_int (by decide) value rfl
    | float bits => exact run_variant lawful_pattern (by decide) bits rfl
    | target address => exact run_variant lawful_word (by decide) address rfl
    | string index => exact run_variant lawful_word (by decide) index rfl
  refuse h := absurd trivial h

theorem lawful_opcode : opcode.Lawful fun _ => True :=
  (lawful_enumeration (by decide)).congr fun op => (iff_of_true trivial (Opcode.mem_all op))

theorem lawful_instruction : instruction.Lawful Instruction.Fits :=
  ((lawful_opcode.pair lawful_operand.list).map fun _ => rfl).congr fun i => by
    simp [Instruction.Fits]

theorem lawful_symbol : symbol.Lawful Symbol.Fits :=
  ((lawful_text.pair lawful_word).map fun _ => rfl).congr fun s => by
    simp [Symbol.Fits, Text.Fits]

theorem lawful_location : location.Lawful SourceLocation.Fits :=
  ((lawful_text.pair (lawful_size.pair lawful_text)).map fun _ => rfl).congr fun _ => Iff.rfl

theorem lawful_program : program.Lawful Program.Fits := by
  have htables := lawful_instruction.list.pair (lawful_symbol.list.pair (lawful_symbol.list.pair
    (lawful_text.list.pair lawful_location.list)))
  refine (htables.map fun _ => rfl).congr fun p => ?_
  have table {γ : Type} (Fits : γ → Prop) (xs : Array γ) :
      xs.toList.length < 2 ^ 64 ∧ (∀ x ∈ xs.toList, Fits x) ↔ TableFits Fits xs := by
    simp [TableFits]
  simp only [table]
  exact Program.fits_iff

end Codec

namespace Image

variable {p : Program}

theorem decode_signature (payload : List UInt8) :
    decode (signature ++ version :: payload) =
      match Codec.program.read.run payload with
      | .ok (p, _) => .ok p
      | .error e => .error (.decode e) := by
  rfl

theorem decode_encode_of_not_fits (hp : ¬ p.Fits) (rest : List UInt8) :
    ∃ e, decode (encode p ++ rest) = .error e := by
  obtain ⟨e, he⟩ := Codec.lawful_program.refuse hp rest
  refine ⟨.decode e, ?_⟩
  rw [encode, List.append_assoc, List.cons_append, decode_signature, he]

/-- An image followed by any bytes reads back as the program that it was made of; as a float operand
is its pattern, these come back bit by bit. So different programs have different images. -/
theorem decode_encode_append (hp : p.Fits) :
    (∀ rest, decode (encode p ++ rest) = .ok p) ∧ ∀ q, encode q = encode p → q = p := by
  have hread {q : Program} (hq : q.Fits) (rest : List UInt8) :
      decode (encode q ++ rest) = .ok q := by
    rw [encode, List.append_assoc, List.cons_append, decode_signature,
      Codec.lawful_program.read_write hq]
  refine ⟨hread hp, fun q hq => ?_⟩
  have hqp : decode (encode q ++ []) = .ok p := by
    rw [hq, hread hp]
  -- another program with this image fits as well, or its image could not be read
  by_cases hfits : q.Fits
  · rw [hread hfits] at hqp
    exact Except.ok.inj hqp
  · obtain ⟨e, he⟩ := decode_encode_of_not_fits hfits []
    rw [he] at hqp
    cases hqp

/-- A register and addresses that no machine has, a NaN with a payload, and text beyond ASCII. -/
theorem decode_encode_append_nan :
    let p : Program :=
      { instructions := #[⟨.mov, [.register 255, .float 0xFFC00001, .immediate (-2147483648)]⟩]
        functions := #[⟨['é'], 0xFFFFFFFF⟩]
        strings := #[['€', '😀']]
        locations := #[⟨['a'], 18446744073709551615, []⟩] }
    p.Fits ∧ decode (encode p ++ [0, 1, 2]) = .ok p ∧ ∀ q, encode q = encode p → q = p := by
  intro p
  have hp : p.Fits := by decide +kernel
  exact ⟨hp, (decode_encode_append hp).1 _, (decode_encode_append hp).2⟩

theorem decode_of_isPrefix_signature {bs : List UInt8} (h : bs <+: signature) :
    decode bs = .error .truncated := by
  have hlen : bs.length ≤ signature.length := h.length_le
  rw [decode, List.drop_eq_nil_of_le hlen]
  exact congrArg Except.error (if_pos (List.isPrefixOf_iff_prefix.2 h))

/-- What was cut off the end of an image is missed, wherever the cut is: up to the signature the
rest is truncated, and beyond it the tables cannot be read. The program may have any size. -/
theorem decode_of_isPrefix_encode {bs : List UInt8} (hbs : bs <+: encode p) (hne : bs ≠ encode p) :
    (decode bs = .error .truncated ↔ bs.length ≤ 8) ∧
      ((∃ cause, decode bs = .error (.decode cause)) ↔ 9 ≤ bs.length) := by
  have hshort (h : bs.length ≤ 8) : decode bs = .error .truncated := by
    have hsignature : signature <+: encode p := List.prefix_append _ _
    exact decode_of_isPrefix_signature (List.prefix_of_prefix_length_le hbs hsignature h)
  have hlong (h : 9 ≤ bs.length) : ∃ cause, decode bs = .error (.decode cause) := by
    have hversion : signature ++ [version] <+: encode p := by
      rw [encode, ← List.singleton_append, ← List.append_assoc]
      exact List.prefix_append _ _
    obtain ⟨payload, rfl⟩ := List.prefix_of_prefix_length_le hversion hbs h
    rw [List.append_assoc, List.singleton_append, encode] at hbs hne
    have hpayload : payload <+: Codec.program.write p := by
      rw [List.prefix_append_right_inj, List.cons_prefix_cons] at hbs
      exact hbs.2
    have hproper : payload ≠ Codec.program.write p := by
      rintro rfl
      exact hne rfl
    obtain ⟨cause, hcause⟩ := Codec.lawful_program.refuse_of_isPrefix hpayload hproper
    refine ⟨cause, ?_⟩
    rw [List.append_assoc, List.singleton_append, decode_signature, hcause]
  constructor
  · refine ⟨fun htruncated => ?_, hshort⟩
    by_contra hlen
    obtain ⟨cause, hcause⟩ := hlong (by omega)
    rw [htruncated] at hcause
    cases hcause
  · refine ⟨fun ⟨cause, hcause⟩ => ?_, hlong⟩
    by_contra hlen
    rw [hshort (by omega)] at hcause
    cases hcause

/-- The cut is within the last character of a text. -/
theorem decode_of_isPrefix_encode_text :
    let p : Program := { strings := #[['a', '€']] }
    let bs := (encode p).take 16
    bs <+: encode p ∧ bs ≠ encode p ∧ bs.length = 16 ∧
      ∃ cause, decode bs = .error (.decode cause) := by
  intro p bs
  have hlen : (encode p).length = 19 := by decide +kernel
  have hbs : bs <+: encode p := List.take_prefix _ _
  have htake : bs.length = 16 := by
    rw [List.length_take, hlen]
    rfl
  have hne : bs ≠ encode p := by
    intro h
    rw [h, hlen] at htake
    cases htake
  exact ⟨hbs, hne, htake, (decode_of_isPrefix_encode hbs hne).2.2 (by omega)⟩

end Image

end RegisterMachine
