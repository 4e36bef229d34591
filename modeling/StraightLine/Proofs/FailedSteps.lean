import StraightLine.Proofs.Calls

namespace StraightLine.Code

theorem Reduces.length_code_le {values : List Operand} {temps : Nat} {reduction : Reduction}
    (reduces : Reduces values temps reduction) : reduction.code.length ≤ 1 := by
  cases reduces with
  | nothing | value => exact Nat.zero_le 1
  | move | ret | arith => exact Nat.le_refl 1

namespace Generator

variable {generator after : Generator} {symbols : SymbolTable}

theorem Advances.code_grows (moved : generator.Advances after) : generator.code <+: after.code := by
  cases moved with
  | drop | push | accept => exact List.prefix_refl _
  | reduce => exact List.prefix_append _ _

theorem Advances.stays_accepted (moved : generator.Advances after) (accepted : generator.accepted = true) :
    after.accepted = true := by
  cases moved with
  | drop | push | reduce => exact accepted
  | accept => rfl

theorem code_callAll (generator : Generator) (symbols : SymbolTable) (calls : List Call) :
    generator.code <+: (generator.callAll symbols calls).code := by
  have grows (before after : Generator) (moved : before.Advances after) (earlier : generator.code <+: before.code) :
      generator.code <+: after.code := earlier.trans moved.code_grows
  exact callAll_induction symbols grows (List.prefix_refl _) calls

theorem callAll_append (generator : Generator) (symbols : SymbolTable) (first second : List Call) :
    generator.callAll symbols (first ++ second) = (generator.callAll symbols first).callAll symbols second := by
  induction first generalizing generator with
  | nil => rfl
  | cons next rest ih => exact ih _

theorem accepted_callAll (accepted : generator.accepted = true) (calls : List Call) :
    (generator.callAll symbols calls).accepted = true :=
  callAll_induction symbols (fun _ _ moved => moved.stays_accepted) accepted calls

theorem handle_accepted (accepted : generator.accepted = true) (event : Event) :
    generator.handle symbols event = generator.refuse .alreadyAccepted := by
  unfold handle
  rw [if_pos accepted]

theorem accepted_of_accept (generator : Generator) (symbols : SymbolTable) {next : Call}
    (accepts : next = .accept ∨ next = .handle .accept) : (generator.call symbols next).after.accepted = true := by
  rcases accepts with rfl | rfl
  · rfl
  · change (generator.handle symbols .accept).after.accepted = true
    unfold handle
    split
    case isTrue accepted => exact accepted
    case isFalse => rfl

theorem accepted_of_mem (generator : Generator) (symbols : SymbolTable) {next : Call} {calls : List Call}
    (accepts : next = .accept ∨ next = .handle .accept) (member : next ∈ calls) :
    (generator.callAll symbols calls).accepted = true := by
  obtain ⟨before, rest, rfl⟩ := List.append_of_mem member
  rw [callAll_append]
  exact accepted_callAll (accepted_of_accept _ symbols accepts) rest

theorem callAll_handled (accepted : generator.accepted = true) (events : List Event) :
    generator.callAll symbols (events.map .handle) = generator := by
  induction events with
  | nil => rfl
  | cons event rest ih =>
    rw [List.map_cons, callAll, call, handle_accepted accepted]
    exact ih

theorem handle_frame (symbols : SymbolTable) :
    (∀ (generator : Generator) (event : Event) (error : GenerateError),
      (generator.handle symbols event).result = .error error →
      let after := (generator.handle symbols event).after
      after.code = generator.code ∧ after.temps = generator.temps ∧ after.accepted = generator.accepted ∧
      (error.late = false → after.stack = generator.stack) ∧
      (error.late = true → ∃ production, event = .reduce production ∧ production.bodyLength ≤ generator.stack.length ∧
        after.stack = generator.stack.drop production.bodyLength)) ∧
    (∀ (generator : Generator) (production : Production),
      (generator.handle symbols (.reduce production)).result = .ok () →
      let after := (generator.handle symbols (.reduce production)).after
      production.bodyLength ≤ generator.stack.length ∧
      (∃ value, after.stack = .nonterminal production.head value :: generator.stack.drop production.bodyLength) ∧
      ∃ emitted, after.code = generator.code ++ emitted ∧ emitted.length ≤ 1) ∧
    (∀ calls more, (callAll {} symbols calls).code <+: (callAll {} symbols (calls ++ more)).code) ∧
    ∀ (calls : List Call) (events : List Event), .accept ∈ calls ∨ .handle .accept ∈ calls →
      callAll {} symbols (calls ++ events.map .handle) = callAll {} symbols calls := by
  refine ⟨?_, ?_, ?_, ?_⟩
  · intro generator event error failed
    have responds := generator.responds_handle symbols event
    rw [failed] at responds
    generalize (generator.handle symbols event).after = after at responds
    cases responds with
    | refused _ early => exact ⟨rfl, rfl, rfl, fun _ => rfl, fun late => absurd (early.symm.trans late) Bool.false_ne_true⟩
    | @dropped production _ enough late =>
      refine ⟨rfl, rfl, rfl, fun early => absurd (early.symm.trans late) Bool.false_ne_true, ?_⟩
      intro _
      exact ⟨production, rfl, enough, rfl⟩
  · intro generator production done
    have responds := generator.responds_handle symbols (.reduce production)
    rw [done] at responds
    generalize (generator.handle symbols (.reduce production)).after = after at responds
    cases responds with
    | reduced enough reduces => exact ⟨enough, ⟨_, rfl⟩, _, rfl, reduces.length_code_le⟩
  · intro calls more
    rw [callAll_append]
    exact code_callAll _ symbols more
  · intro calls events asked
    rw [callAll_append]
    apply callAll_handled
    rcases asked with direct | handled
    · exact accepted_of_mem {} symbols (.inl rfl) direct
    · exact accepted_of_mem {} symbols (.inr rfl) handled

-- A production of no rule leaves a term without a value, so the sum fails on its right operand: the left one is read, but no
-- temporary is taken.
def halfway : List Call :=
  [.handle (.shift ⟨.intConst, "1"⟩), .handle (.shift ⟨.plus, "+"⟩), .handle (.shift ⟨.ident, "b"⟩),
   .handle (.reduce Rule.add.production), .handle (.shift ⟨.plus, "+"⟩), .handle (.reduce ⟨100, .term, 0⟩)]

theorem handle_frame_halfway :
    let generator := callAll {} .empty halfway
    let sum := generator.handle .empty (.reduce Rule.add.production)
    let misshapen := generator.handle .empty (.reduce ⟨8, .expr, 1⟩)
    sum.result = .error (.missingValue Rule.add.production 2) ∧ sum.after.stack = [] ∧
    sum.after.code = [.arith .add (.temp 0) (.imm 1) (.var (.named "b"))] ∧ sum.after.temps = 1 ∧
    misshapen.result = .error (.shapeMismatch ⟨8, .expr, 1⟩) ∧ misshapen.after.stack.length = 3 ∧
    callAll {} .empty (halfway ++ [.accept] ++ [.handle (.reduce Rule.add.production), .handle .accept]) =
      callAll {} .empty (halfway ++ [.accept]) := by
  intro generator sum misshapen
  obtain ⟨fails, _, _, ends⟩ := handle_frame .empty
  have missing : sum.result = .error (.missingValue Rule.add.production 2) := rfl
  have mismatched : misshapen.result = .error (.shapeMismatch ⟨8, .expr, 1⟩) := rfl
  obtain ⟨code, temps, _, _, dropped⟩ := fails _ _ _ missing
  obtain ⟨_, _, _, kept, _⟩ := fails _ _ _ mismatched
  obtain ⟨_, same, _, below⟩ := dropped rfl
  cases same
  refine ⟨missing, below.trans (by decide), code.trans (by decide), temps.trans (by decide), mismatched, ?_, ?_⟩
  · rw [kept rfl]
    decide
  · exact ends (halfway ++ [.accept]) [.reduce Rule.add.production, .accept] (.inl (by simp))

end Generator
end StraightLine.Code
