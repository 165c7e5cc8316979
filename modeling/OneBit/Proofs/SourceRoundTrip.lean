import Mathlib.Logic.Function.Basic
import OneBit.Proofs.LineGrammar
import OneBit.Proofs.SessionVerdicts

namespace OneBit

/-- A name as it is printed: one token, in capitals. -/
def Text.IsPrintedName (name : Text) : Prop := name.IsToken ∧ name.upper = name

theorem Opcode.mnemonic_printed (o : Opcode) : o.mnemonic.IsPrintedName := by
  unfold Text.IsPrintedName
  cases o <;> decide

theorem Operand.readName_printed (r : Operand) : r.readName.IsPrintedName := by
  unfold Text.IsPrintedName
  rw [← r.ofNibble_value]
  generalize r.value = nibble
  revert nibble
  decide

theorem Operand.writeName_printed (r : Operand) : r.writeName.IsPrintedName := by
  unfold Text.IsPrintedName
  rw [← r.ofNibble_value]
  generalize r.value = nibble
  revert nibble
  decide

theorem Opcode.namedBy_mnemonic (o : Opcode) : o.NamedBy o.mnemonic := by
  rw [Opcode.NamedBy, o.mnemonic_printed.2]
  cases o <;> decide

theorem Instruction.operandName_printed (i : Instruction) : i.operandName.IsPrintedName := by
  unfold Instruction.operandName
  split
  · exact i.operand.writeName_printed
  · exact i.operand.readName_printed

theorem Instruction.namedBy_operandName (i : Instruction) : i.operand.NamedBy i.operandName := by
  rw [Operand.NamedBy, i.operandName_printed.2]
  unfold Instruction.operandName
  split
  · exact Or.inr rfl
  · exact Or.inl rfl

theorem Instruction.text_tokens (i : Instruction) : Tokens i.text [i.opcode.mnemonic, i.operandName] := by
  have space : Text.IsGap [' '] := Text.isGap_cons.mpr ⟨by decide, Text.isGap_nil⟩
  have bounds : Text.Bounds (' ' :: i.operandName) := by
    intro c first
    cases first
    exact Or.inl (by decide)
  have ends : Text.Bounds [] := fun c first => nomatch first
  have operand : Tokens (' ' :: i.operandName) [i.operandName] := by
    simpa only [List.singleton_append, List.append_nil] using
      Tokens.token space i.operandName_printed.1 ends (.blank Text.isGap_nil)
  exact .token Text.isGap_nil i.opcode.mnemonic_printed.1 bounds operand

theorem Instruction.text_trim (i : Instruction) : i.text.trim = i.text := by
  have opcode := i.opcode.mnemonic_printed.1
  have operand := i.operandName_printed.1
  refine Text.trimsTo_iff.mp ⟨⟨[], [], Text.isGap_nil, Text.isGap_nil, ?_⟩, ?_, ?_⟩
  · rw [List.nil_append, List.append_nil]
  · intro c first
    have head : i.text.head? = i.opcode.mnemonic.head? := by
      rw [Instruction.text, List.head?_append_of_ne_nil _ opcode.1]
    rw [head] at first
    exact (opcode.2 c (List.mem_of_head? first)).1
  · intro c last
    have tail : i.text.getLast? = i.operandName.getLast? := by
      rw [Instruction.text, List.append_cons, List.getLast?_append_of_ne_nil _ operand.1]
    rw [tail] at last
    exact (operand.2 c (List.mem_of_getLast? last)).1

/-- A printed instruction is read back under any line number. -/
theorem Instruction.verdict_text (i : Instruction) (number : Nat) :
    SourceLine.verdict ⟨number, i.text⟩ = .emit i := by
  have first : FirstTokens i.text i.opcode.mnemonic (some i.operandName) none := ⟨_, i.text_tokens, rfl, rfl⟩
  exact (LineGrammar.emit first i.opcode.namedBy_mnemonic (Or.inl ⟨_, rfl, i.namedBy_operandName⟩)).verdict_eq

theorem Instruction.text_no_line_feed (i : Instruction) : '\n' ∉ i.text := by
  intro member
  rcases List.mem_append.mp member with opcode | later
  · exact i.opcode.mnemonic_printed.1.feedless opcode
  · rcases List.mem_cons.mp later with space | operand
    · exact absurd space (by decide)
    · exact i.operandName_printed.1.feedless operand

theorem Instruction.text_no_final_return (i : Instruction) : i.text.getLast? ≠ some '\r' := by
  intro last
  have trims : i.text.TrimsTo i.text := Text.trimsTo_iff.mpr i.text_trim
  exact absurd (trims.last _ last) (by decide)

/-- The lines of a disassembled program if they were numbered from any number on. -/
def Program.linesFrom (number : Nat) : Program → List SourceLine
  | [] => []
  | i :: p => ⟨number, i.text⟩ :: Program.linesFrom (number + 1) p

theorem Program.lines_disassemble (p : Program) : p.disassemble.lines = p.map (·.text) := by
  induction p with
  | nil => exact Text.lines_nil
  | cons i p ih =>
    have step : Program.disassemble (i :: p) = i.text ++ '\n' :: Program.disassemble p := by
      simp only [Program.disassemble, List.flatMap_cons, List.append_assoc, List.singleton_append]
    rw [step, Text.lines_append_line i.text_no_line_feed i.text_no_final_return, ih, List.map_cons]

theorem Program.linesFrom_eq_zipIdx (number : Nat) (p : Program) : Program.linesFrom number p =
    ((p.map (·.text)).zipIdx number).map fun (raw, number) => ⟨number, raw⟩ := by
  induction p generalizing number with
  | nil => rfl
  | cons i p ih => rw [Program.linesFrom, ih, List.map_cons, List.zipIdx_cons, List.map_cons]

theorem Program.sourceLines_disassemble (p : Program) : sourceLines p.disassemble = Program.linesFrom 1 p := by
  rw [sourceLines, Program.lines_disassemble, Program.linesFrom_eq_zipIdx]

theorem Program.length_linesFrom (number : Nat) (p : Program) :
    (Program.linesFrom number p).length = p.length := by
  rw [Program.linesFrom_eq_zipIdx, List.length_map, List.length_zipIdx, List.length_map]

theorem Program.instructionsOf_linesFrom (number : Nat) (p : Program) :
    instructionsOf (Program.linesFrom number p) = p := by
  induction p generalizing number with
  | nil => rfl
  | cons i p ih =>
    rw [Program.linesFrom, ← List.singleton_append, instructionsOf_append, instructionsOf_singleton,
      i.verdict_text, ih]
    rfl

theorem Program.errorsOf_linesFrom (number : Nat) (p : Program) :
    errorsOf (Program.linesFrom number p) = [] := by
  induction p generalizing number with
  | nil => rfl
  | cons i p ih =>
    rw [Program.linesFrom, ← List.singleton_append, errorsOf_append, errorsOf_singleton, i.verdict_text, ih]
    rfl

theorem Program.listingFrom_linesFrom (address number : Nat) (p : Program) (k : Nat) :
    (listingFrom address (Program.linesFrom number p))[k]? =
      p[k]?.map fun i => .emitted (address + k) i.encode (number + k) i.text := by
  induction p generalizing address number k with
  | nil => rfl
  | cons i p ih =>
    have entry : SourceLine.listed? ⟨number, i.text⟩ address = some (.emitted address i.encode number i.text) := by
      rw [SourceLine.listed?, i.verdict_text, SourceLine.text, i.text_trim]
    rw [Program.linesFrom, listingFrom, entry, instructionsOf_singleton, i.verdict_text]
    cases k with
    | zero => rfl
    | succ k =>
      have addresses : address + 1 + k = address + (k + 1) := by omega
      have numbers : number + 1 + k = number + (k + 1) := by omega
      rw [Option.toList_some, List.singleton_append, List.getElem?_cons_succ, ih, List.getElem?_cons_succ,
        Verdict.instruction?, Option.toList_some, List.length_singleton, addresses, numbers]

theorem Instruction.opcode_decode (byte : UInt8) (o : Opcode) :
    (Instruction.decode byte).opcode = o ↔ byte.toNat / 16 = o.value := by
  rw [Instruction.decode]
  constructor
  · rintro rfl
    rw [Opcode.value_ofNibble]
  · intro high
    have nibble : (⟨byte.toNat / 16, by have := byte.toNat_lt; omega⟩ : Fin 16) = o.value := Fin.ext high
    rw [nibble, Opcode.ofNibble_value]

theorem Program.assembly_of_disassembly (options : AssemblyOptions) (p : Program) :
    assemble options p.disassemble = .ok ⟨p, .ofOpcodes (p.map (·.opcode)),
      if options.listing then listingFrom 0 (Program.linesFrom 1 p) else []⟩ := by
  have holds := Session.holds_feedAll options (sourceLines p.disassemble)
  rw [assemble, holds.finish, holds.usage, p.sourceLines_disassemble, p.instructionsOf_linesFrom,
    if_pos (p.errorsOf_linesFrom 1)]

/-- Any bytes survive disassembling and assembling again, whatever the options: program, bytes and counts
are the same, and the listing shows each byte at its place beside its line of the disassembly. So no two
programs have one disassembly. -/
theorem assemble_disassemble :
    (∀ (bytes : List UInt8) (options : AssemblyOptions),
      let source := (Program.decode bytes).disassemble
      ∃ a, assemble options source = .ok a ∧ a.program.encode = bytes ∧ a.program = Program.decode bytes ∧
        (∀ o : Opcode, a.usage.count o = bytes.countP fun byte => byte.toNat / 16 = o.value.val) ∧
        if options.listing then
          a.listing.length = bytes.length ∧ ∀ i, (inside : i < bytes.length) → ∃ text,
            source.lines[i]? = some text ∧ a.listing[i]? = some (.emitted i bytes[i] (i + 1) text)
        else a.listing = []) ∧
    Function.Injective Program.disassemble := by
  constructor
  · intro bytes options
    refine ⟨_, (Program.decode bytes).assembly_of_disassembly options, Program.encode_decode bytes, rfl, ?_, ?_⟩
    · intro o
      rw [Usage.count_ofOpcodes, Program.decode, List.map_map, List.count, List.countP_map]
      congr
      funext byte
      simp only [Function.comp_apply, beq_eq_decide, Instruction.opcode_decode]
    · split
      · refine ⟨?_, ?_⟩
        · rw [listingFrom_length 0 (Program.errorsOf_linesFrom 1 _), Program.length_linesFrom, Program.decode,
            List.length_map]
        · intro i inside
          have at_i : (Program.decode bytes)[i]? = some (.decode bytes[i]) := by
            rw [Program.decode, List.getElem?_map, List.getElem?_eq_getElem inside, Option.map_some]
          refine ⟨(Instruction.decode bytes[i]).text, ?_, ?_⟩
          · rw [Program.lines_disassemble, List.getElem?_map, at_i, Option.map_some]
          · rw [Program.listingFrom_linesFrom, at_i, Option.map_some, Instruction.encode_decode, Nat.zero_add,
              Nat.add_comm 1]
      · rfl
  · intro p q same
    have lines := congrArg sourceLines same
    rw [p.sourceLines_disassemble, q.sourceLines_disassemble] at lines
    have instructions := congrArg instructionsOf lines
    rwa [p.instructionsOf_linesFrom, q.instructionsOf_linesFrom] at instructions

end OneBit
