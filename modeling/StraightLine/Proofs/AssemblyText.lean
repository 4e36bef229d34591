import StraightLine.Assembly.Selection
import StraightLine.Proofs.TextFields

namespace StraightLine

namespace ArithOp

def ofMnemonic? (text : String) : Option ArithOp := [.add, .sub, .mul].find? fun op => op.mnemonic = text

theorem ofMnemonic?_mnemonic (op : ArithOp) : ofMnemonic? op.mnemonic = some op := by cases op <;> decide

end ArithOp

namespace Assembly

namespace Register

theorem ofName?_name (register : Register) : ofName? register.name = some register := by
  cases register with
  | t slot => revert slot; decide
  | a0 => decide

theorem name_injective {first second : Register} (same : first.name = second.name) : first = second := by
  have found := congrArg ofName? same
  rwa [ofName?_name, ofName?_name, Option.some.injEq] at found

theorem isField_name (register : Register) : Text.isField register.name = true := by
  cases register with
  | t slot => revert slot; decide
  | a0 => decide

end Register

namespace Instr

def opcode : Instr → String
  | .li _ _ => "li"
  | .mv _ _ => "mv"
  | .addi _ _ _ => "addi"
  | .arith op _ _ _ => op.mnemonic

-- The operands behind the target.
def operands : Instr → List String
  | .li _ value => [Text.showInt32 value]
  | .mv _ source => [source.name]
  | .addi _ source value => [source.name, Text.showInt32 value]
  | .arith _ _ left right => [left.name, right.name]

-- What stands in front of the first comma.
def opening (instr : Instr) : String := " ".intercalate [instr.opcode, instr.target.name]

theorem render_eq_intercalate (instr : Instr) :
    instr.render = ", ".intercalate (instr.opening :: instr.operands) := by
  cases instr <;> simp [render, opening, opcode, target, operands, String.append_assoc]

variable {first second : Instr} {c : Char}

theorem isField_opcode (instr : Instr) : Text.isField instr.opcode = true := by
  have listed : instr.opcode ∈ ["li", "mv", "addi", "add", "sub", "mul"] := by
    cases instr with
    | arith op target left right => cases op <;> simp [opcode, ArithOp.mnemonic]
    | _ => simp [opcode]
  have fields : ["li", "mv", "addi", "add", "sub", "mul"].all Text.isField = true := by decide
  exact List.all_eq_true.mp fields _ listed

theorem isField_opening (instr : Instr) : ∀ part ∈ [instr.opcode, instr.target.name], Text.isField part = true := by
  simp only [List.forall_mem_cons, isField_opcode, Register.isField_name, true_and]
  exact List.forall_mem_nil _

theorem isField_operands (instr : Instr) : ∀ operand ∈ instr.operands, Text.isField operand = true := by
  cases instr <;> simp [operands, Register.isField_name, Text.isField_showInt32]

-- Between its separators a line holds what its fields hold.
theorem notMem_opening (apart : c ∉ " ".toList) (absent : ∀ text, Text.isField text = true → c ∉ text.toList)
    (instr : Instr) : c ∉ instr.opening.toList := by
  apply Text.notMem_intercalate apart
  intro part member
  exact absent part (instr.isField_opening part member)

theorem notMem_fields (apart : c ∉ " ".toList) (absent : ∀ text, Text.isField text = true → c ∉ text.toList)
    (instr : Instr) : ∀ field ∈ instr.opening :: instr.operands, c ∉ field.toList := by
  intro field member
  rcases List.mem_cons.mp member with rfl | operand
  · exact notMem_opening apart absent instr
  · exact absent field (instr.isField_operands field operand)

theorem feed_notMem_render (instr : Instr) : '\n' ∉ instr.render.toList := by
  rw [render_eq_intercalate]
  apply Text.notMem_intercalate (by decide)
  exact notMem_fields (by decide) (fun _ field => Text.blank_notMem field Text.isBlank_newline) instr

theorem opening_injective (same : first.opening = second.opening) :
    first.opcode = second.opcode ∧ first.target = second.target := by
  have blankless (instr : Instr) : ∀ part ∈ [instr.opcode, instr.target.name], ' ' ∉ part.toList := by
    intro part member
    exact Text.blank_notMem (instr.isField_opening part member) (by decide)
  have parts := Text.intercalate_injective rfl (List.cons_ne_nil _ _) (List.cons_ne_nil _ _) (blankless first)
    (blankless second) same
  obtain ⟨opcode, rest⟩ := List.cons.inj parts
  exact ⟨opcode, Register.name_injective (List.cons.inj rest).1⟩

-- The instruction with these parts.
def ofParts? (opcode : String) (target : Register) : List String → Option Instr
  | [operand] =>
    if opcode = "li" then do return .li target (← Text.readInt32? operand)
    else if opcode = "mv" then do return .mv target (← Register.ofName? operand)
    else none
  | [source, operand] =>
    if opcode = "addi" then do return .addi target (← Register.ofName? source) (← Text.readInt32? operand)
    else do return .arith (← ArithOp.ofMnemonic? opcode) target (← Register.ofName? source) (← Register.ofName? operand)
  | _ => none

theorem ofParts?_parts (instr : Instr) : ofParts? instr.opcode instr.target instr.operands = some instr := by
  cases instr with
  | li target value => simp [opcode, Instr.target, operands, ofParts?, Text.readInt32?_showInt32]
  | mv target source => simp [opcode, Instr.target, operands, ofParts?, Register.ofName?_name]
  | addi target source value =>
    simp [opcode, Instr.target, operands, ofParts?, Register.ofName?_name, Text.readInt32?_showInt32]
  | arith op target left right =>
    have plain : op.mnemonic ≠ "addi" := by cases op <;> decide
    simp [opcode, Instr.target, operands, ofParts?, plain, ArithOp.ofMnemonic?_mnemonic, Register.ofName?_name]

theorem render_injective (same : first.render = second.render) : first = second := by
  rw [render_eq_intercalate, render_eq_intercalate] at same
  have commaless := notMem_fields (by decide) fun _ => Text.comma_notMem
  have fields := Text.intercalate_injective rfl (List.cons_ne_nil _ _) (List.cons_ne_nil _ _) (commaless first)
    (commaless second) same
  obtain ⟨openings, operands⟩ := List.cons.inj fields
  obtain ⟨opcodes, targets⟩ := opening_injective openings
  have read := first.ofParts?_parts
  rw [opcodes, targets, operands, ofParts?_parts] at read
  exact (Option.some.inj read).symm

end Instr

theorem sectionText_eq_unlines (lines : List String) :
    sectionText lines = ".text\n" ++ Text.unlines (lines.map ("\t" ++ ·)) := by
  rw [sectionText, Text.unlines, List.map_map]
  rfl

theorem sectionText_injective {first second : List Instr}
    (same : sectionText (lines first) = sectionText (lines second)) : first = second := by
  rw [sectionText_eq_unlines, sectionText_eq_unlines, String.append_right_inj, lines, lines, List.map_map,
    List.map_map] at same
  apply Text.unlines_map_injective _ _ same
  · intro instr _ feed
    rw [Function.comp_apply, String.toList_append, List.mem_append] at feed
    rcases feed with tab | inside
    · revert tab
      decide
    · exact instr.feed_notMem_render inside
  · intro one _ other _ line
    exact Instr.render_injective ((String.append_right_inj _).mp line)

-- The least immediate, both ends of the short ones, and the opcodes `addi` and `add` side by side.
def extremes : List Code.Instr :=
  [.mov (.named "x") (.imm (-2147483648)), .arith .add (.temp 0) (.var (.named "x")) (.imm (-2048)),
   .arith .add (.temp 1) (.var (.temp 0)) (.var (.named "x")), .arith .mul (.temp 2) (.var (.temp 1)) (.imm 2147483647),
   .ret (.var (.temp 2))]

theorem sectionText_injective_extremes : ∃ program, (lower extremes).outcome = .ok program ∧
    sectionText (lines program) =
      ".text\n\tli t0, -2147483648\n\taddi t1, t0, -2048\n\tadd t2, t1, t0\n\tli t3, 2147483647\n\tmul t4, t2, t3\n\tmv a0, t4\n" ∧
    program = [.li (.t 0) (-2147483648), .addi (.t 1) (.t 0) (-2048), .arith .add (.t 2) (.t 1) (.t 0),
      .li (.t 3) 2147483647, .arith .mul (.t 4) (.t 2) (.t 3), .mv .a0 (.t 4)] := by
  refine ⟨_, rfl, by decide +kernel, sectionText_injective (by decide +kernel)⟩

end Assembly
end StraightLine
