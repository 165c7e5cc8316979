import OneBit.Proofs.SourceStatements

namespace OneBit

structure SpellingKey where
  opcode : Text
  operand : Text
  deriving DecidableEq, Repr

/-- A name is replaced by the one beside it in a table, and kept if it is not there. -/
def Text.replaced (table : List (Text × Text)) (name : Text) : Text := (table.lookup name).getD name

def secondOpcodeNames : List (Text × Text) := [("HLT".toList, "NOPF".toList)]

def secondOperandNames : List (Text × Text) :=
  [("OR0".toList, "RR".toList), ("OR1".toList, "IR1".toList), ("OR2".toList, "IR2".toList),
    ("OR3".toList, "IR3".toList), ("OR4".toList, "IR4".toList), ("OR5".toList, "IR5".toList),
    ("OR6".toList, "IR6".toList), ("OR7".toList, "IR7".toList)]

/-- A token that names an operand; without one the operand is `SR0`. -/
def operandKey : Option Text → Text
  | none => "SR0".toList
  | some word => word.upper.replaced secondOperandNames

def SpellingKey.ofTokens (opcode : Text) (operand : Option Text) : SpellingKey where
  opcode := opcode.upper.replaced secondOpcodeNames
  operand := operandKey operand

/-- The key of a line, from the first two of its tokens. A line without tokens has no key. -/
def spellingKey? (line : Text) : Option SpellingKey :=
  match Text.words (line.takeWhile (· ≠ ';')) with
  | [] => none
  | opcode :: rest => some (.ofTokens opcode rest.head?)

def spellingKeys (source : Text) : List SpellingKey := source.lines.filterMap spellingKey?

def Statement.key (s : Statement) : SpellingKey := .ofTokens s.opcode s.operand

/-- The key of every statement that means the instruction. -/
def Instruction.key (i : Instruction) : SpellingKey := ⟨i.opcode.mnemonic, i.operand.readName⟩

theorem Opcode.replaced_of_mem_names (o : Opcode) :
    ∀ name ∈ o.names, name.replaced secondOpcodeNames = o.mnemonic := by
  cases o with
  | _ => decide

theorem Operand.replaced_names (r : Operand) : r.readName.replaced secondOperandNames = r.readName ∧
    r.writeName.replaced secondOperandNames = r.readName := by
  rw [← r.ofNibble_value]
  generalize r.value = nibble
  revert nibble
  decide

theorem Operand.replaced_of_namedBy {r : Operand} {word : Text} (named : r.NamedBy word) :
    word.upper.replaced secondOperandNames = r.readName := by
  obtain ⟨read, written⟩ := r.replaced_names
  rcases named with same | same
  · rw [same, read]
  · rw [same, written]

theorem Instruction.key_injective : Function.Injective Instruction.key := by
  intro i j same
  obtain ⟨opcode, operand⟩ := SpellingKey.mk.inj same
  have byMnemonic : ∀ o : Opcode, Opcode.ofName? o.mnemonic = some o := by
    intro o
    apply o.ofName?_of_mem_names
    cases o <;> exact List.mem_cons_self
  have opcodes := congrArg Opcode.ofName? opcode
  have operands := congrArg Operand.ofName? operand
  rw [byMnemonic, byMnemonic] at opcodes
  rw [Operand.ofName?_readName, Operand.ofName?_readName] at operands
  cases i
  cases j
  cases Option.some.inj opcodes
  cases Option.some.inj operands
  rfl

theorem Statement.instruction?_eq_ok_iff {s : Statement} {i : Instruction} : s.instruction? = .ok i ↔
    Opcode.ofWord? s.opcode = some i.opcode ∧ s.operand? = .ok i.operand ∧ s.extra = none := by
  rw [Statement.instruction?]
  cases Opcode.ofWord? s.opcode with
  | none => simp
  | some opcode =>
    cases s.operand? with
    | error fault => simp
    | ok operand =>
      cases s.extra with
      | some word => simp
      | none =>
        simp only [Except.ok.injEq, Option.some.injEq, and_true]
        constructor
        · rintro rfl
          exact ⟨rfl, rfl⟩
        · rintro ⟨rfl, rfl⟩
          rfl

theorem Statement.operandKey_eq {s : Statement} {r : Operand} (judged : s.operand? = .ok r) :
    operandKey s.operand = r.readName := by
  rw [Statement.operand?] at judged
  cases word : s.operand with
  | none =>
    simp only [word, Except.ok.injEq] at judged
    rw [← judged]
    decide
  | some name =>
    cases found : Operand.ofWord? name with
    | none => simp only [word, found, reduceCtorEq] at judged
    | some operand =>
      simp only [word, found, Except.ok.injEq] at judged
      rw [← judged]
      exact Operand.replaced_of_namedBy (Operand.ofWord?_eq_some_iff.mp found)

theorem Statement.key_eq {s : Statement} {i : Instruction} (judged : s.instruction? = .ok i) : s.key = i.key := by
  obtain ⟨opcode, operand, -⟩ := Statement.instruction?_eq_ok_iff.mp judged
  have first := i.opcode.replaced_of_mem_names _ (Opcode.ofWord?_eq_some_iff.mp opcode)
  rw [Statement.key, SpellingKey.ofTokens, first, Statement.operandKey_eq operand, Instruction.key]

theorem keys_eq_map {statements : List Statement} (good : ∀ s ∈ statements, ∃ i, s.instruction? = .ok i) :
    statements.map (·.key) = (statements.filterMap (·.instruction?.toOption)).map (·.key) := by
  induction statements with
  | nil => rfl
  | cons s statements ih =>
    obtain ⟨first, rest⟩ := List.forall_mem_cons.mp good
    obtain ⟨i, judged⟩ := first
    have found : s.instruction?.toOption = some i := by rw [judged, Except.toOption]
    simp only [List.map_cons, List.filterMap_cons, found, ih rest, Statement.key_eq judged]

theorem spellingKey?_eq (line : Text) : spellingKey? line = (Statement.ofText? line).map (·.key) := by
  rw [spellingKey?, Statement.ofText?_eq]
  cases Text.words (line.takeWhile (· ≠ ';')) with
  | nil => rfl
  | cons opcode rest => simp only [Option.map_some, Statement.key, List.head?_eq_getElem?]

theorem spellingKeys_eq_map (source : Text) : spellingKeys source = (statementsOf source).map (·.key) := by
  rw [spellingKeys, statementsOf_eq_filterMap_lines, List.map_filterMap]
  congr
  funext line
  exact spellingKey?_eq line

theorem spellingKeys_of_assembled {options : AssemblyOptions} {source : Text} {a : Assembly}
    (assembled : assemble options source = .ok a) : spellingKeys source = a.program.map (·.key) := by
  have good := assembles_iff.mp ⟨a, assembled⟩
  obtain rfl := eq_of_assembled assembled
  rw [spellingKeys_eq_map, keys_eq_map (errorsOf_source_eq_nil_iff.mp good), ← instructionsOf_source]

/-- Of two sources that assemble, the programs agree exactly if the keys of their lines do, and so do the bytes.
The bytes forget how words are capitalised, which of two names is used and whether `SR0` is written out, and they forget
nothing else of the words. -/
theorem same_program_iff_same_keys {options other : AssemblyOptions} {s t : Text} {a b : Assembly}
    (first : assemble options s = .ok a) (second : assemble other t = .ok b) :
    (a.program = b.program ↔ spellingKeys s = spellingKeys t) ∧
      (a.program.encode = b.program.encode ↔ spellingKeys s = spellingKeys t) := by
  have programs : a.program = b.program ↔ spellingKeys s = spellingKeys t := by
    rw [spellingKeys_of_assembled first, spellingKeys_of_assembled second,
      List.map_inj_right fun _ _ same => Instruction.key_injective same]
  have bytes : a.program.encode = b.program.encode ↔ a.program = b.program := by
    constructor
    · intro same
      have decoded := congrArg Program.decode same
      rwa [Program.decode_encode, Program.decode_encode] at decoded
    · exact congrArg Program.encode
  exact ⟨programs, bytes.trans programs⟩

/-- Second names, mixed case, a missing operand and lines without statements. -/
theorem same_bytes_from_other_spellings :
    let s : Text := "hlt or3 ; asks\n\n sto rr\n\tLd".toList
    let t : Text := "NOPF IR3\nSTO OR0\nLD SR0\n".toList
    spellingKeys s = spellingKeys t ∧ ∃ a b, assemble {} s = .ok a ∧ assemble {} t = .ok b ∧
      a.program.encode = b.program.encode := by
  have first : assemble {} "hlt or3 ; asks\n\n sto rr\n\tLd".toList =
      .ok ⟨.decode [0xFB, 0x88, 0x10], .ofOpcodes [.nopf, .sto, .ld], []⟩ := by decide +kernel
  have second : assemble {} "NOPF IR3\nSTO OR0\nLD SR0\n".toList =
      .ok ⟨.decode [0xFB, 0x88, 0x10], .ofOpcodes [.nopf, .sto, .ld], []⟩ := by decide +kernel
  have keys : spellingKeys "hlt or3 ; asks\n\n sto rr\n\tLd".toList =
      spellingKeys "NOPF IR3\nSTO OR0\nLD SR0\n".toList := by decide +kernel
  exact ⟨keys, _, _, first, second, (same_program_iff_same_keys first second).2.mpr keys⟩

end OneBit
