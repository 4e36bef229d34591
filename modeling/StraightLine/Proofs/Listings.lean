import StraightLine.Proofs.Declarations
import StraightLine.Proofs.TextFields

namespace StraightLine

namespace Token

-- What the scanner makes: lexical tokens, and the end marker.
def Scanned (token : Token) : Prop := token.Lexical ∨ token = eof

def fields (token : Token) : List String := [token.kind.name, if token.kind.fixed then "" else token.text]

theorem render_eq_record (token : Token) : token.render = Text.record "," token.fields := by
  unfold render fields
  split <;> simp [Text.record, String.append_assoc]

theorem Kind.isField_name (kind : Kind) : Text.isField kind.name = true := by cases kind <;> decide

theorem Kind.name_injective {first second : Kind} (same : first.name = second.name) : first = second := by
  have found := congrArg ofName? same
  rwa [ofName?_name, ofName?_name, Option.some.injEq] at found

variable {token first second : Token}

theorem Scanned.text_of_fixed (scanned : token.Scanned) (fixed : token.kind.fixed = true) :
    token.text = token.kind.lexeme := by
  rcases scanned with lexical | rfl
  · obtain ⟨_, ⟨_, _, text⟩ | ⟨constant, _⟩ | ⟨named, _⟩⟩ := ofLexeme?_eq_some lexical
    · exact text
    · rw [constant] at fixed
      cases fixed
    · rw [named] at fixed
      cases fixed
  · rfl

theorem Scanned.isField_text (scanned : token.Scanned) (free : token.kind.fixed = false) :
    Text.isField token.text = true := by
  rcases scanned with lexical | rfl
  · obtain ⟨_, ⟨fixed, _⟩ | ⟨_, digits⟩ | ⟨_, identifier⟩⟩ := ofLexeme?_eq_some lexical
    · cases free.symm.trans fixed
    · exact Text.isField_of_isDigits digits
    · exact Text.isField_of_isIdentifier identifier
  · cases free

theorem Scanned.isField_fields (scanned : token.Scanned) : ∀ field ∈ token.fields, Text.isField field = true := by
  unfold fields
  cases fixed : token.kind.fixed with
  | true =>
    have empty : Text.isField "" = true := rfl
    simp [Kind.isField_name, empty]
  | false => simp [Kind.isField_name, scanned.isField_text fixed]

theorem Scanned.fields_injective (one : first.Scanned) (two : second.Scanned) (same : first.fields = second.fields) :
    first = second := by
  obtain ⟨names, rest⟩ := List.cons.inj same
  have kinds := Kind.name_injective names
  have texts : first.text = second.text := by
    cases fixed : first.kind.fixed with
    | true => rw [one.text_of_fixed fixed, two.text_of_fixed (kinds ▸ fixed), kinds]
    | false =>
      have shown := (List.cons.inj rest).1
      rwa [← kinds, fixed] at shown
  cases first
  cases second
  cases kinds
  cases texts
  rfl

end Token

namespace ArithOp

def ofName? (text : String) : Option ArithOp := [.add, .sub, .mul].find? fun op => op.name = text

theorem ofName?_name (op : ArithOp) : ofName? op.name = some op := by cases op <;> decide

theorem isField_name (op : ArithOp) : Text.isField op.name = true := by cases op <;> decide

end ArithOp

namespace Code

namespace Variable

-- The name is an identifier, so it holds no comma or blank and looks like no numeral or temporary.
def Plain : Variable → Prop
  | .named name => Token.isIdentifier name.toList = true
  | .temp _ => True

-- The variable a text shows, if its name is an identifier.
def ofText (text : String) : Variable :=
  match text.toList with
  | '$' :: digits => .temp (Text.digitsValue digits)
  | _ => .named text

variable {v : Variable}

theorem toList_render_temp (number : Nat) : (temp number).render.toList = '$' :: number.repr.toList := by
  rw [render, String.toList_append]
  rfl

theorem Plain.ofText_render (plain : v.Plain) : ofText v.render = v := by
  cases v with
  | temp number =>
    rw [ofText, toList_render_temp]
    exact congrArg temp (Text.digitsValue_repr number)
  | named name =>
    obtain ⟨first, rest, opening, start⟩ := Token.isIdentifier_opening plain
    unfold ofText
    split
    case h_1 digits sign =>
      cases opening.symm.trans sign
      cases start
    case h_2 => rfl

theorem Plain.readInt32?_render (plain : v.Plain) : Text.readInt32? v.render = none := by
  cases v with
  | temp number => exact Text.readInt32?_eq_none (toList_render_temp number) (by decide) (by decide)
  | named name =>
    obtain ⟨first, rest, opening, start⟩ := Token.isIdentifier_opening plain
    obtain ⟨unsigned, nondigit⟩ := Token.isIdentStart_apart start
    exact Text.readInt32?_eq_none opening unsigned nondigit

theorem Plain.isField_render (plain : v.Plain) : Text.isField v.render = true := by
  cases v with
  | named name => exact Text.isField_of_isIdentifier plain
  | temp number => exact Text.isField_append rfl (Text.isField_repr number)

end Variable

namespace Operand

def Plain (operand : Operand) : Prop := ∀ v, operand.asVar? = some v → v.Plain

def ofText (text : String) : Operand := (Text.readInt32? text).elim (.var (Variable.ofText text)) .imm

variable {operand : Operand}

theorem eq_var_of_asVar? {v : Variable} (named : operand.asVar? = some v) : operand = .var v := by
  cases operand with
  | imm value => cases named
  | var u => rw [Option.some.inj named]

theorem Plain.ofText_render (plain : operand.Plain) : ofText operand.render = operand := by
  cases operand with
  | imm value => rw [ofText, render, Text.readInt32?_showInt32, Option.elim_some]
  | var v =>
    have name := plain v rfl
    rw [ofText, render, name.readInt32?_render, name.ofText_render, Option.elim_none]

theorem Plain.isField_render (plain : operand.Plain) : Text.isField operand.render = true := by
  cases operand with
  | imm value => exact Text.isField_showInt32 value
  | var v => exact (plain v rfl).isField_render

end Operand

namespace Instr

def Plain (instr : Instr) : Prop := ∀ v ∈ instr.mentioned, v.Plain

def fields : Instr → List String
  | .mov result source => ["MOV", result.render, source.render]
  | .arith op result left right => [op.name, result.render, left.render, right.render]
  | .ret value => ["RET", value.render]

theorem render_eq_record (instr : Instr) : instr.render = Text.record ", " instr.fields := by
  have move : "(MOV, " = "(" ++ ("MOV" ++ ", ") := rfl
  have ret : "(RET, " = "(" ++ ("RET" ++ ", ") := rfl
  cases instr <;> simp only [render, fields, Text.record, move, ret, String.intercalate_cons_cons,
    String.intercalate_singleton, String.append_assoc]

theorem fields_ne_nil (instr : Instr) : instr.fields ≠ [] := by cases instr <;> exact List.cons_ne_nil _ _

-- The three forms differ in the number of their fields.
def ofFields? : List String → Option Instr
  | [_, result, source] => some (.mov (Variable.ofText result) (Operand.ofText source))
  | [name, result, left, right] => do
    return .arith (← ArithOp.ofName? name) (Variable.ofText result) (Operand.ofText left) (Operand.ofText right)
  | [_, value] => some (.ret (Operand.ofText value))
  | _ => none

variable {instr first second : Instr} {result : Variable} {source left right : Operand}

theorem Plain.of_result (plain : instr.Plain) (target : instr.result? = some result) : result.Plain := by
  apply plain
  rw [mentioned, target]
  exact List.mem_cons_self

theorem Plain.of_source (plain : instr.Plain) (read : source ∈ instr.sources) : source.Plain := by
  intro v named
  apply plain
  exact List.mem_append_right _ (List.mem_filterMap.mpr ⟨source, read, named⟩)

theorem Plain.of_operands {op : ArithOp} (plain : (arith op result left right).Plain) : left.Plain ∧ right.Plain :=
  ⟨plain.of_source List.mem_cons_self, plain.of_source (List.mem_cons_of_mem _ List.mem_cons_self)⟩

theorem Plain.ofFields?_fields (plain : instr.Plain) : ofFields? instr.fields = some instr := by
  cases instr with
  | mov result source =>
    rw [fields, ofFields?, (plain.of_result rfl).ofText_render, (plain.of_source List.mem_cons_self).ofText_render]
  | arith op result left right =>
    obtain ⟨onLeft, onRight⟩ := plain.of_operands
    rw [fields, ofFields?, ArithOp.ofName?_name, (plain.of_result rfl).ofText_render, onLeft.ofText_render,
      onRight.ofText_render]
    rfl
  | ret value => rw [fields, ofFields?, (plain.of_source List.mem_cons_self).ofText_render]

theorem Plain.isField_fields (plain : instr.Plain) : ∀ field ∈ instr.fields, Text.isField field = true := by
  cases instr with
  | mov result source =>
    have name : Text.isField "MOV" = true := by decide
    simp [fields, name, (plain.of_result rfl).isField_render, (plain.of_source List.mem_cons_self).isField_render]
  | arith op result left right =>
    obtain ⟨onLeft, onRight⟩ := plain.of_operands
    simp [fields, op.isField_name, (plain.of_result rfl).isField_render, onLeft.isField_render, onRight.isField_render]
  | ret value =>
    have name : Text.isField "RET" = true := by decide
    simp [fields, name, (plain.of_source List.mem_cons_self).isField_render]

theorem Plain.fields_injective (one : first.Plain) (two : second.Plain) (same : first.fields = second.fields) :
    first = second := by
  have read := congrArg ofFields? same
  rwa [one.ofFields?_fields, two.ofFields?_fields, Option.some.injEq] at read

end Instr

theorem unlines_render_injective {code other : List Instr} (plain : ∀ instr ∈ code, instr.Plain)
    (alsoPlain : ∀ instr ∈ other, instr.Plain) (same : Text.unlines (render code) = Text.unlines (render other)) :
    code = other := by
  apply Text.listing_injective Instr.render_eq_record rfl (by decide) Instr.fields_ne_nil _ _ same
  · intro instr member
    rcases List.mem_append.mp member with one | two
    · exact (plain instr one).isField_fields
    · exact (alsoPlain instr two).isField_fields
  · intro one member two listed fields
    exact (plain one member).fields_injective (alsoPlain two listed) fields

end Code

namespace ParseTree

open Code (Instr Variable Operand)

variable {head : Nonterminal} {tree left right : ParseTree} {temps : Nat} {name : String}

theorem named_operand (derivation : Derivation head tree) (shown : tree.operand temps = .var (.named name)) :
    ⟨.ident, name⟩ ∈ tree.leaves := by
  induction derivation with
  | exprTerm term inner | termFactor factor inner =>
    exact List.mem_append_left _ (inner shown)
  | paren opens expr closes inner =>
    exact List.mem_append_right _ (List.mem_append_left _ (inner shown))
  | @ident token named =>
    obtain ⟨kind, text⟩ := token
    cases named
    cases shown
    exact List.mem_cons_self
  | _ => cases shown

section Operation

variable {op : ArithOp} {operator : Token} {first second : Nonterminal} {rule : Rule}

theorem named_operation (mentioned : .named name ∈ (operation op temps left right).mentioned) :
    left.operand temps = .var (.named name) ∨ right.operand (temps + left.operations) = .var (.named name) := by
  rcases List.mem_append.mp mentioned with result | read
  · cases List.mem_singleton.mp result
  · exact (Code.mem_reads_arith.mp read).imp Operand.eq_var_of_asVar? Operand.eq_var_of_asVar?

theorem named_operands (leftDerived : Derivation first left) (rightDerived : Derivation second right)
    (onLeft : .named name ∈ (left.code temps).flatMap Instr.mentioned → ⟨.ident, name⟩ ∈ left.leaves)
    (onRight : .named name ∈ (right.code (temps + left.operations)).flatMap Instr.mentioned →
      ⟨.ident, name⟩ ∈ right.leaves)
    (mentioned : .named name ∈ (left.code temps ++ right.code (temps + left.operations) ++
      [operation op temps left right]).flatMap Instr.mentioned) :
    ⟨.ident, name⟩ ∈ (ParseTree.node rule [left, .leaf operator, right]).leaves := by
  have either : ⟨.ident, name⟩ ∈ left.leaves ∨ ⟨.ident, name⟩ ∈ right.leaves := by
    simp only [List.flatMap_append, List.flatMap_singleton, List.mem_append] at mentioned
    rcases mentioned with (one | two) | last
    · exact .inl (onLeft one)
    · exact .inr (onRight two)
    · exact (named_operation last).imp (named_operand leftDerived) (named_operand rightDerived)
  simp only [leaves, leavesAll, List.mem_append]
  exact either.imp id fun inside => .inr (.inl inside)

end Operation

theorem named_then {instr : Instr} (derivation : Derivation .expr tree) (sources : instr.sources = [tree.operand temps])
    (inner : .named name ∈ (tree.code temps).flatMap Instr.mentioned → ⟨.ident, name⟩ ∈ tree.leaves)
    (mentioned : .named name ∈ (tree.code temps ++ [instr]).flatMap Instr.mentioned) :
    instr.result? = some (.named name) ∨ ⟨.ident, name⟩ ∈ tree.leaves := by
  simp only [List.flatMap_append, List.flatMap_singleton, List.mem_append] at mentioned
  rcases mentioned with before | last
  · exact .inr (inner before)
  · rcases List.mem_append.mp last with result | read
    · exact .inl (Option.mem_toList.mp result)
    · rw [Instr.reads, sources] at read
      obtain ⟨operand, member, named⟩ := List.mem_filterMap.mp read
      cases List.mem_singleton.mp member
      exact .inr (named_operand derivation (Operand.eq_var_of_asVar? named))

-- Only identifiers of the text are named in its code.
theorem named_code (derivation : Derivation head tree)
    (mentioned : .named name ∈ (tree.code temps).flatMap Instr.mentioned) : ⟨.ident, name⟩ ∈ tree.leaves := by
  induction derivation generalizing temps with
  | program statements inner => exact List.mem_append_left _ (inner mentioned)
  | stmtListCons first ends others one more =>
    rw [code, List.flatMap_append, List.mem_append] at mentioned
    rcases mentioned with here | later
    · exact List.mem_append_left _ (one here)
    · exact List.mem_append_right _ (List.mem_append_right _ (List.mem_append_left _ (more later)))
  | stmtListLast only ends one => exact List.mem_append_left _ (one mentioned)
  | declare typed named _ => cases mentioned
  | intType int => cases mentioned
  | @assign target equals source named assigned expr inner =>
    rcases named_then expr rfl inner mentioned with result | inside
    · obtain ⟨kind, text⟩ := target
      cases named
      cases result
      exact List.mem_cons_self
    · exact List.mem_append_right _ (List.mem_append_right _ (List.mem_append_left _ inside))
  | ret returned expr inner =>
    rcases named_then expr rfl inner mentioned with result | inside
    · cases result
    · exact List.mem_append_right _ (List.mem_append_left _ inside)
  | add expr plus term one two => exact named_operands expr term one two mentioned
  | sub expr minus term one two => exact named_operands expr term one two mentioned
  | exprTerm term inner => exact List.mem_append_left _ (inner mentioned)
  | mul term star factor one two => exact named_operands term factor one two mentioned
  | termFactor factor inner => exact List.mem_append_left _ (inner mentioned)
  | paren opens expr closes inner => exact List.mem_append_right _ (List.mem_append_left _ (inner mentioned))
  | ident named => cases mentioned
  | intConst constant => cases mentioned

end ParseTree

namespace SymbolTable

def typeText (type : Option SourceType) : String := type.elim "null" SourceType.render

def typeOfText (text : String) : Option SourceType := if text = "Int" then some .int else none

theorem typeOfText_typeText (type : Option SourceType) : typeOfText (typeText type) = type := by
  cases type with
  | none => decide
  | some type => cases type; decide

theorem isField_typeText (type : Option SourceType) : Text.isField (typeText type) = true := by
  cases type with
  | none => decide
  | some type => cases type; decide

def fields (entry : Entry) : List String := [entry.1, typeText entry.2]

theorem renderEntry_eq_record (entry : Entry) : renderEntry entry = Text.record ", " (fields entry) := by
  obtain ⟨name, type⟩ := entry
  cases type <;> simp [renderEntry, fields, typeText, Text.record, String.append_assoc]

theorem fields_injective {first second : Entry} (same : fields first = fields second) : first = second := by
  obtain ⟨names, rest⟩ := List.cons.inj same
  have types := congrArg typeOfText (List.cons.inj rest).1
  rw [typeOfText_typeText, typeOfText_typeText] at types
  exact Prod.ext names types

theorem isField_fields {entry : Entry} (identifier : Token.isIdentifier entry.1.toList = true) :
    ∀ field ∈ fields entry, Text.isField field = true := by
  simp only [fields, List.forall_mem_cons, Text.isField_of_isIdentifier identifier, isField_typeText, true_and]
  exact List.forall_mem_nil _

end SymbolTable

namespace Source

variable {text other : String} {source second : Source}

theorem tokens_scanned (analysed : (analyse text).outcome = .ok source) : ∀ token ∈ source.tokens, token.Scanned := by
  obtain ⟨_, _, lexical⟩ := analyse_eq_ok analysed
  intro token member
  rw [analyse_tokens analysed] at member
  rcases List.mem_append.mp member with leaf | last
  · exact .inl (lexical token leaf)
  · exact .inr (List.mem_singleton.mp last)

theorem tokens_of_listing (analysed : (analyse text).outcome = .ok source) (again : (analyse other).outcome = .ok second)
    (same : Text.unlines (source.tokens.map Token.render) = Text.unlines (second.tokens.map Token.render)) :
    source.tokens = second.tokens := by
  apply Text.listing_injective Token.render_eq_record rfl (by decide) (fun _ => List.cons_ne_nil _ _) _ _ same
  · intro token member
    rcases List.mem_append.mp member with one | two
    · exact (tokens_scanned analysed token one).isField_fields
    · exact (tokens_scanned again token two).isField_fields
  · intro one member two listed fields
    exact (tokens_scanned analysed one member).fields_injective (tokens_scanned again two listed) fields

theorem isIdentifier_entry (analysed : (analyse text).outcome = .ok source) {entry : SymbolTable.Entry}
    (member : entry ∈ source.symbols.entries) : Token.isIdentifier entry.1.toList = true := by
  have known : source.symbols.has entry.1 = true :=
    SymbolTable.mem_names_iff.mp (List.mem_map_of_mem member)
  have listed := (has_analyse analysed entry.1).mp known
  rcases tokens_scanned analysed _ listed with lexical | marker
  · exact lexical.isIdentifier rfl
  · cases marker

theorem symbols_of_listing (analysed : (analyse text).outcome = .ok source) (again : (analyse other).outcome = .ok second)
    (same : Text.unlines source.symbols.render = Text.unlines second.symbols.render) :
    source.symbols = second.symbols := by
  apply SymbolTable.ext
  apply Text.listing_injective SymbolTable.renderEntry_eq_record rfl (by decide) (fun _ => List.cons_ne_nil _ _) _ _ same
  · intro entry member
    rcases List.mem_append.mp member with one | two
    · exact SymbolTable.isField_fields (isIdentifier_entry analysed one)
    · exact SymbolTable.isField_fields (isIdentifier_entry again two)
  · intro one _ two _ fields
    exact SymbolTable.fields_injective fields

end Source

variable {text other : String} {first second : Compilation}

theorem plain_compiled (compiled : (compile text).outcome = .ok first) : ∀ instr ∈ first.object.code, instr.Plain := by
  obtain ⟨analysed, generated, _⟩ := compile_eq_ok compiled
  obtain ⟨_, derivation, lexical⟩ := Source.analyse_eq_ok analysed
  rw [code_of_ofEvents derivation lexical generated]
  intro instr member v mentioned
  cases v with
  | temp number => trivial
  | named name =>
    have listed := ParseTree.named_code derivation (List.mem_flatMap.mpr ⟨instr, member, mentioned⟩)
    exact (lexical _ listed).isIdentifier rfl

theorem listings_lossless (compiled : (compile text).outcome = .ok first) (again : (compile other).outcome = .ok second) :
    (∀ lines, Text.unlines lines = if lines = [] then "" else "\n".intercalate lines ++ "\n") ∧
    (Text.unlines (first.source.tokens.map Token.render) = Text.unlines (second.source.tokens.map Token.render) →
      first.source.tokens = second.source.tokens) ∧
    (Text.unlines (Code.render first.object.code) = Text.unlines (Code.render second.object.code) →
      first.object.code = second.object.code) ∧
    (Text.unlines first.source.symbols.render = Text.unlines second.source.symbols.render →
      first.source.symbols = second.source.symbols) := by
  obtain ⟨analysed, _⟩ := compile_eq_ok compiled
  obtain ⟨alsoAnalysed, _⟩ := compile_eq_ok again
  refine ⟨Text.unlines_eq_ite, Source.tokens_of_listing analysed alsoAnalysed, ?_,
    Source.symbols_of_listing analysed alsoAnalysed⟩
  exact Code.unlines_render_injective (plain_compiled compiled) (plain_compiled again)

-- One program in two layouts.
def roomy : String := "int a ;\n\ta  = ( 007 + b )\n\t   * b ;\nreturn a ;\n"

def packed : String := "int a;a = ( 007 + b ) * b;return a;"

theorem listings_lossless_layouts : ∃ first second, (compile roomy).outcome = .ok first ∧
    (compile packed).outcome = .ok second ∧ first.source.tokens = second.source.tokens ∧
    Text.unlines (Code.render first.object.code) = "(ADD, $0, 7, b)\n(MUL, $1, $0, b)\n(MOV, a, $1)\n(RET, a)\n" ∧
    first.object.code = second.object.code ∧ first.source.symbols = second.source.symbols := by
  have evaluated : (compile roomy).outcome.toOption.any (fun first => (compile packed).outcome.toOption.any fun second =>
      decide (Text.unlines (first.source.tokens.map Token.render) = Text.unlines (second.source.tokens.map Token.render) ∧
        Text.unlines (Code.render first.object.code) = "(ADD, $0, 7, b)\n(MUL, $1, $0, b)\n(MOV, a, $1)\n(RET, a)\n" ∧
        Text.unlines (Code.render second.object.code) = "(ADD, $0, 7, b)\n(MUL, $1, $0, b)\n(MOV, a, $1)\n(RET, a)\n" ∧
        Text.unlines first.source.symbols.render = Text.unlines second.source.symbols.render)) = true := by
    decide +kernel
  obtain ⟨first, compiled, holds⟩ := Logged.any_toOption evaluated
  obtain ⟨second, again, holds⟩ := Logged.any_toOption holds
  obtain ⟨tokens, shown, alsoShown, symbols⟩ := of_decide_eq_true holds
  obtain ⟨_, tokensOf, codeOf, symbolsOf⟩ := listings_lossless compiled again
  exact ⟨first, second, compiled, again, tokensOf tokens, shown, codeOf (shown.trans alsoShown.symm), symbolsOf symbols⟩

end StraightLine
