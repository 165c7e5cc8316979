import OneBit.Proofs.Trimming
import OneBit.SourceLine

namespace OneBit

/-- A word names an opcode if its capitals are one of the opcode's names. -/
def Opcode.NamedBy (o : Opcode) (word : Text) : Prop := word.upper ∈ o.names

/-- A word names an operand if its capitals are the name of what the operand reads or writes. -/
def Operand.NamedBy (r : Operand) (word : Text) : Prop := word.upper = r.readName ∨ word.upper = r.writeName

theorem Opcode.ofWord?_eq_some_iff {word : Text} {o : Opcode} : Opcode.ofWord? word = some o ↔ o.NamedBy word := by
  constructor
  · intro found
    simpa only [Opcode.NamedBy, List.contains_iff_mem] using List.find?_some found
  · exact Opcode.ofName?_of_mem_names o word.upper

theorem Opcode.ofWord?_eq_none_iff {word : Text} : Opcode.ofWord? word = none ↔ ∀ o : Opcode, ¬ o.NamedBy word := by
  simp only [Option.eq_none_iff_forall_ne_some, ne_eq, Opcode.ofWord?_eq_some_iff]

theorem Operand.ofWord?_eq_some_iff {word : Text} {r : Operand} :
    Operand.ofWord? word = some r ↔ r.NamedBy word := by
  constructor
  · intro found
    have named := List.find?_some found
    simp only [Bool.or_eq_true, beq_iff_eq] at named
    exact named.imp Eq.symm Eq.symm
  · rintro (read | written)
    · rw [Operand.ofWord?, read, Operand.ofName?_readName]
    · rw [Operand.ofWord?, written, Operand.ofName?_writeName]

theorem Operand.ofWord?_eq_none_iff {word : Text} :
    Operand.ofWord? word = none ↔ ∀ r : Operand, ¬ r.NamedBy word := by
  simp only [Option.eq_none_iff_forall_ne_some, ne_eq, Operand.ofWord?_eq_some_iff]

/-- The first token of a line, and the second and the third if it has so many. -/
def FirstTokens (raw first : Text) (second third : Option Text) : Prop :=
  ∃ rest, Tokens raw (first :: rest) ∧ rest[0]? = second ∧ rest[1]? = third

/-- The meaning of a source line. A line of blanks, and one whose first visible character begins a comment,
is skipped. Any other line is refused for the first of its first three tokens that is wrong, with its number
and its trimmed text, and is an instruction if none is. Each rule leads to verdicts of its own. -/
inductive LineGrammar (line : SourceLine) : Verdict → Prop
  | skip {gap rest} : gap.IsGap → rest = [] ∨ (∃ comment, rest = ';' :: comment) → line.raw = gap ++ rest →
      LineGrammar line .skip
  | emit {first second opcode operand} : FirstTokens line.raw first second none → opcode.NamedBy first →
      (∃ word, second = some word ∧ operand.NamedBy word) ∨
        (second = none ∧ operand = .scratch ⟨0, by decide⟩) →
      LineGrammar line (.emit ⟨opcode, operand⟩)
  | unknownOpcode {first second third text} : FirstTokens line.raw first second third →
      (∀ o : Opcode, ¬ o.NamedBy first) → line.raw.TrimsTo text →
      LineGrammar line (.reject ⟨.unknownOpcode, line.number, text, first⟩)
  | unknownOperand {first word third text} {opcode : Opcode} : FirstTokens line.raw first (some word) third →
      opcode.NamedBy first → (∀ r : Operand, ¬ r.NamedBy word) → line.raw.TrimsTo text →
      LineGrammar line (.reject ⟨.unknownOperand, line.number, text, word⟩)
  | unexpectedToken {first word extra text} {opcode : Opcode} {operand : Operand} :
      FirstTokens line.raw first (some word) (some extra) → opcode.NamedBy first → operand.NamedBy word →
      line.raw.TrimsTo text → LineGrammar line (.reject ⟨.unexpectedToken, line.number, text, extra⟩)

/-- Whether an empty line or one that begins with a comment is skipped at once or read like any other
makes no difference. -/
theorem Statement.ofText?_eq (t : Text) : Statement.ofText? t =
    match Text.words (t.takeWhile (· ≠ ';')) with
    | [] => none
    | opcode :: rest => some ⟨opcode, rest[0]?, rest[1]?⟩ := by
  unfold Statement.ofText?
  split
  · rename_i early
    cases t with
    | nil => rfl
    | cons c t =>
      have comment : c = ';' := by simpa using early
      subst comment
      rfl
  · rfl

theorem Statement.ofText?_trim (t : Text) : Statement.ofText? t.trim = Statement.ofText? t := by
  rw [Statement.ofText?_eq, Statement.ofText?_eq, Text.code_words_trim]

theorem SourceLine.verdict_of_no_tokens {line : SourceLine} (tokens : Tokens line.raw []) :
    line.verdict = .skip := by
  have statement : Statement.ofText? line.text = none := by
    rw [SourceLine.text, Statement.ofText?_trim, Statement.ofText?_eq, tokens.words_eq]
  rw [SourceLine.verdict, statement]

theorem FirstTokens.verdict {line : SourceLine} {first : Text} {second third : Option Text}
    (tokens : FirstTokens line.raw first second third) :
    line.verdict = match Statement.instruction? ⟨first, second, third⟩ with
      | .ok instruction => .emit instruction
      | .error (fault, token) => .reject ⟨fault, line.number, line.text, token⟩ := by
  obtain ⟨rest, tokens, rfl, rfl⟩ := tokens
  have statement : Statement.ofText? line.text = some ⟨first, rest[0]?, rest[1]?⟩ := by
    rw [SourceLine.text, Statement.ofText?_trim, Statement.ofText?_eq, tokens.words_eq]
  cases judged : Statement.instruction? ⟨first, rest[0]?, rest[1]?⟩ with
  | ok instruction => simp only [SourceLine.verdict, statement, judged]
  | error fault => simp only [SourceLine.verdict, statement, judged]

theorem LineGrammar.verdict_eq {line : SourceLine} {v : Verdict} (grammar : LineGrammar line v) :
    line.verdict = v := by
  cases grammar with
  | @skip gap rest blank ending raw =>
    apply SourceLine.verdict_of_no_tokens
    rw [raw]
    rcases ending with rfl | ⟨comment, rfl⟩
    · simpa only [List.append_nil] using Tokens.blank blank
    · exact .comment blank
  | @emit first second opcode operand tokens named operandNamed =>
    have opcodeFound := Opcode.ofWord?_eq_some_iff.mpr named
    rcases operandNamed with ⟨word, rfl, named⟩ | ⟨rfl, rfl⟩
    · have operandFound := Operand.ofWord?_eq_some_iff.mpr named
      simp only [tokens.verdict, Statement.instruction?, opcodeFound, Statement.operand?, operandFound]
    · simp only [tokens.verdict, Statement.instruction?, opcodeFound, Statement.operand?]
  | @unknownOpcode first second third text tokens unnamed trims =>
    have opcodeMissing := Opcode.ofWord?_eq_none_iff.mpr unnamed
    have trimmed : line.text = text := Text.trimsTo_iff.mp trims
    simp only [tokens.verdict, Statement.instruction?, opcodeMissing, trimmed]
  | @unknownOperand first word third text opcode tokens named unnamed trims =>
    have opcodeFound := Opcode.ofWord?_eq_some_iff.mpr named
    have operandMissing := Operand.ofWord?_eq_none_iff.mpr unnamed
    have trimmed : line.text = text := Text.trimsTo_iff.mp trims
    simp only [tokens.verdict, Statement.instruction?, opcodeFound, Statement.operand?, operandMissing, trimmed]
  | @unexpectedToken first word extra text opcode operand tokens named operandNamed trims =>
    have opcodeFound := Opcode.ofWord?_eq_some_iff.mpr named
    have operandFound := Operand.ofWord?_eq_some_iff.mpr operandNamed
    have trimmed : line.text = text := Text.trimsTo_iff.mp trims
    simp only [tokens.verdict, Statement.instruction?, opcodeFound, Statement.operand?, operandFound, trimmed]

theorem LineGrammar.exists_verdict (line : SourceLine) : ∃ v, LineGrammar line v := by
  have trims := Text.trimsTo_trim line.raw
  obtain ⟨words, tokens⟩ := Tokens.exists_of_text line.raw
  cases words with
  | nil =>
    generalize raw : line.raw = t at tokens
    cases tokens with
    | @blank gap blank => exact ⟨_, .skip blank (Or.inl rfl) (by rw [raw, List.append_nil])⟩
    | @comment gap rest blank => exact ⟨_, .skip blank (Or.inr ⟨rest, rfl⟩) raw⟩
  | cons first rest =>
    have reading : ∀ second third, rest[0]? = second → rest[1]? = third →
        FirstTokens line.raw first second third := fun _ _ second third => ⟨rest, tokens, second, third⟩
    cases opcodeWord : Opcode.ofWord? first with
    | none =>
      exact ⟨_, .unknownOpcode (reading _ _ rfl rfl) (Opcode.ofWord?_eq_none_iff.mp opcodeWord) trims⟩
    | some opcode =>
      have named := Opcode.ofWord?_eq_some_iff.mp opcodeWord
      cases second : rest[0]? with
      | none =>
        have third : rest[1]? = none := by
          rw [List.getElem?_eq_none_iff] at second ⊢
          omega
        exact ⟨_, .emit (reading none none second third) named (Or.inr ⟨rfl, rfl⟩)⟩
      | some word =>
        cases operandWord : Operand.ofWord? word with
        | none =>
          exact ⟨_, .unknownOperand (reading _ _ second rfl) named
            (Operand.ofWord?_eq_none_iff.mp operandWord) trims⟩
        | some operand =>
          have operandNamed := Operand.ofWord?_eq_some_iff.mp operandWord
          cases third : rest[1]? with
          | none => exact ⟨_, .emit (reading _ _ second third) named (Or.inl ⟨word, rfl, operandNamed⟩)⟩
          | some extra => exact ⟨_, .unexpectedToken (reading _ _ second third) named operandNamed trims⟩

/-- The verdict on a line is the one meaning that the grammar gives it, and its statement is the same
whether or not the blanks at its ends were trimmed before. -/
theorem SourceLine.verdict_eq_iff_grammar (line : SourceLine) :
    (∀ v, line.verdict = v ↔ LineGrammar line v) ∧ (∃! v, LineGrammar line v) ∧
      ∀ t : Text, Statement.ofText? t = Statement.ofText? t.trim := by
  have verdict : ∀ v, line.verdict = v ↔ LineGrammar line v := by
    intro v
    constructor
    · rintro rfl
      obtain ⟨v, grammar⟩ := LineGrammar.exists_verdict line
      rwa [grammar.verdict_eq]
    · exact LineGrammar.verdict_eq
  refine ⟨verdict, ⟨line.verdict, (verdict _).mp rfl, ?_⟩, fun t => (Statement.ofText?_trim t).symm⟩
  intro v grammar
  exact grammar.verdict_eq.symm

end OneBit
