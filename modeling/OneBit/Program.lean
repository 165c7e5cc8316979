import OneBit.Instruction

namespace OneBit

abbrev Program := List Instruction

def Program.decode (bytes : List UInt8) : Program := bytes.map .decode

def Program.encode (p : Program) : List UInt8 := p.map (·.encode)

/-- The source text of a program, one instruction a line. -/
def Program.disassemble (p : Program) : Text := p.flatMap fun i => i.text ++ ['\n']

@[simp]
theorem Program.encode_decode (bytes : List UInt8) : (Program.decode bytes).encode = bytes := by
  simp [Program.decode, Program.encode, Function.comp_def]

@[simp]
theorem Program.decode_encode (p : Program) : Program.decode p.encode = p := by
  simp [Program.decode, Program.encode, Function.comp_def]

end OneBit
