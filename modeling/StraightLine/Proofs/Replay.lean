import StraightLine.ParseTree

namespace StraightLine

namespace ParseTree

theorem wellShapedAll_append {left right : List ParseTree} :
    WellShapedAll (left ++ right) ↔ WellShapedAll left ∧ WellShapedAll right := by
  induction left with
  | nil => simp [WellShapedAll]
  | cons tree rest ih => simp [WellShapedAll, ih, and_assoc]

theorem wellShapedAll_reverse {trees : List ParseTree} : WellShapedAll trees.reverse ↔ WellShapedAll trees := by
  induction trees with
  | nil => rfl
  | cons tree rest ih => simp [wellShapedAll_append, WellShapedAll, ih, and_comm]

end ParseTree

namespace Event

open ParseTree

theorem build_reduce {rule : Rule} {children : List ParseTree} (full : children.length = rule.bodyLength)
    (below : List ParseTree) :
    build (children.reverse ++ below) (.reduce rule.production) = some (.node rule children :: below) := by
  have body : rule.production.bodyLength = children.reverse.length := by
    rw [List.length_reverse, full]
    rfl
  simp [build, Production.rule?_production, body]

mutual

theorem replay_walk (tree : ParseTree) (shaped : tree.WellShaped) (stack : List ParseTree) (rest : List Event) :
    replay stack (tree.walk ++ rest) = replay (tree :: stack) rest := by
  match tree with
  | .leaf token => rfl
  | .node rule children =>
    obtain ⟨full, shapedAll⟩ := shaped
    rw [walk, List.append_assoc, replay_walkAll children shapedAll, List.singleton_append, replay, build_reduce full]

theorem replay_walkAll (trees : List ParseTree) (shaped : WellShapedAll trees) (stack : List ParseTree)
    (rest : List Event) : replay stack (walkAll trees ++ rest) = replay (trees.reverse ++ stack) rest := by
  match trees with
  | [] => rfl
  | tree :: others =>
    rw [walkAll, List.append_assoc, replay_walk tree shaped.1, replay_walkAll others shaped.2, List.reverse_cons,
      List.append_assoc, List.singleton_append]

end

theorem replay_events {tree : ParseTree} (shaped : tree.WellShaped) : replay [] tree.events = some [tree] := by
  rw [events, replay_walk tree shaped]
  rfl

-- What a parser may report: the only accept comes last, and each production reduced is that of a rule.
structure Reported (events : List Event) : Prop where
  accepted : ∃ front, events = front ++ [.accept] ∧ .accept ∉ front
  reduced : ∀ production, .reduce production ∈ events → ∃ rule : Rule, production = rule.production

mutual

theorem mem_walk (tree : ParseTree) {event : Event} (member : event ∈ tree.walk) :
    (∃ token, event = .shift token) ∨ ∃ rule : Rule, event = .reduce rule.production := by
  match tree with
  | .leaf token => exact .inl ⟨token, List.mem_singleton.mp member⟩
  | .node rule children =>
    rcases List.mem_append.mp member with inside | last
    · exact mem_walkAll children inside
    · exact .inr ⟨rule, List.mem_singleton.mp last⟩

theorem mem_walkAll (trees : List ParseTree) {event : Event} (member : event ∈ walkAll trees) :
    (∃ token, event = .shift token) ∨ ∃ rule : Rule, event = .reduce rule.production := by
  match trees with
  | [] => cases member
  | tree :: rest =>
    rcases List.mem_append.mp member with first | later
    · exact mem_walk tree first
    · exact mem_walkAll rest later

end

theorem reported_events (tree : ParseTree) : Reported tree.events := by
  refine ⟨⟨tree.walk, rfl, ?_⟩, ?_⟩
  · intro member
    rcases mem_walk tree member with ⟨_, same⟩ | ⟨_, same⟩ <;> cases same
  · intro production member
    rcases List.mem_append.mp member with walked | last
    · rcases mem_walk tree walked with ⟨_, same⟩ | ⟨rule, same⟩
      · cases same
      · exact ⟨rule, Event.reduce.inj same⟩
    · cases List.mem_singleton.mp last

variable {stack next : List ParseTree} {event : Event} {tree : ParseTree}

-- One step: what the stack walks to grows by the event taken.
theorem walkAll_build (moved : event.build stack = some next) (running : event ≠ .accept)
    (known : ∀ production, event = .reduce production → ∃ rule : Rule, production = rule.production) :
    walkAll next.reverse = walkAll stack.reverse ++ [event] ∧ (WellShapedAll stack → WellShapedAll next) := by
  cases event with
  | accept => exact absurd rfl running
  | shift token =>
    cases moved
    refine ⟨?_, fun shaped => ⟨trivial, shaped⟩⟩
    rw [List.reverse_cons, walkAll_append]
    rfl
  | reduce production =>
    obtain ⟨rule, rfl⟩ := known production rfl
    simp only [build, Production.rule?_production] at moved
    split at moved
    case isFalse => cases moved
    case isTrue enough =>
      cases moved
      have whole := List.take_append_drop rule.production.bodyLength stack
      constructor
      · have split : stack.reverse = (stack.drop rule.production.bodyLength).reverse ++
            (stack.take rule.production.bodyLength).reverse := by
          rw [← List.reverse_append, whole]
        rw [split, List.reverse_cons, walkAll_append, walkAll_append, List.append_assoc]
        simp [walkAll, walk]
      · intro shaped
        rw [← whole, wellShapedAll_append] at shaped
        refine ⟨⟨?_, wellShapedAll_reverse.mpr shaped.1⟩, shaped.2⟩
        rw [List.length_reverse, List.length_take, Nat.min_eq_left enough]
        rfl

theorem walkAll_replay {events : List Event} (ran : replay stack events = some next) (running : .accept ∉ events)
    (known : ∀ production, .reduce production ∈ events → ∃ rule : Rule, production = rule.production) :
    walkAll next.reverse = walkAll stack.reverse ++ events ∧ (WellShapedAll stack → WellShapedAll next) := by
  induction events generalizing stack with
  | nil =>
    cases ran
    exact ⟨(List.append_nil _).symm, id⟩
  | cons event rest ih =>
    obtain ⟨now, later⟩ := not_or.mp fun here => running (List.mem_cons.mpr here)
    cases moved : event.build stack with
    | none => simp [replay, moved] at ran
    | some middle =>
      rw [replay, moved] at ran
      obtain ⟨first, kept⟩ := walkAll_build moved (Ne.symm now)
        fun production same => known production (same ▸ List.mem_cons_self)
      obtain ⟨others, keptLater⟩ := ih ran later fun production member =>
        known production (List.mem_cons_of_mem _ member)
      refine ⟨?_, fun shaped => keptLater (kept shaped)⟩
      rw [others, first, List.append_assoc, List.singleton_append]

theorem events_of_replay {events : List Event} (reported : Reported events) (ran : replay [] events = some [tree]) :
    tree.WellShaped ∧ events = tree.events := by
  obtain ⟨front, rfl, running⟩ := reported.accepted
  rw [replay_append] at ran
  obtain ⟨final, read, closed⟩ := Option.bind_eq_some_iff.mp ran
  cases closed
  obtain ⟨walked, shaped⟩ := walkAll_replay read running fun production member =>
    reported.reduced production (List.mem_append_left _ member)
  refine ⟨(shaped trivial).1, ?_⟩
  have same : tree.walk = front := by simpa [walkAll] using walked
  rw [ParseTree.events, same]

-- Replaying gives back the tree whose events are replayed, so no two well-shaped trees have the same events; and the
-- reports whose replay ends with exactly this tree are its own events alone.
theorem events_faithful (tree : ParseTree) :
    (tree.WellShaped → replay [] tree.events = some [tree]) ∧
    (∀ other : ParseTree, tree.WellShaped → other.WellShaped → tree.events = other.events → tree = other) ∧
    ∀ events, Reported events ∧ replay [] events = some [tree] ↔ tree.WellShaped ∧ events = tree.events := by
  refine ⟨replay_events, ?_, ?_⟩
  · intro other shaped otherShaped same
    have read := replay_events shaped
    rw [same, replay_events otherShaped] at read
    cases read
    rfl
  · intro events
    constructor
    · intro played
      exact events_of_replay played.1 played.2
    · intro own
      obtain ⟨shaped, rfl⟩ := own
      exact ⟨reported_events tree, replay_events shaped⟩

def difference (left right : ParseTree) : ParseTree := .node .sub [left, .leaf (Token.ofKind .minus), right]

-- Three names grouped from the left and from the right: the leaves do not tell the trees apart, the events do. Neither
-- is a derivation, for a bare name is no expression.
theorem events_faithful_grouped :
    let a := ParseTree.leaf ⟨.ident, "a"⟩
    let b := ParseTree.leaf ⟨.ident, "b"⟩
    let c := ParseTree.leaf ⟨.ident, "c"⟩
    let onLeft := difference (difference a b) c
    let onRight := difference a (difference b c)
    onLeft.WellShaped ∧ onRight.WellShaped ∧ onLeft.leaves = onRight.leaves ∧
      replay [] onLeft.events = some [onLeft] ∧ onLeft.events ≠ onRight.events ∧
      Reported onLeft.events ∧ ∀ events, Reported events → replay [] events = some [onLeft] → events = onLeft.events := by
  intro a b c onLeft onRight
  have pair {left right : ParseTree} (first : left.WellShaped) (second : right.WellShaped) :
      (difference left right).WellShaped := ⟨rfl, first, trivial, second, trivial⟩
  have leftShaped : onLeft.WellShaped := pair (pair trivial trivial) trivial
  have rightShaped : onRight.WellShaped := pair trivial (pair trivial trivial)
  have apart : onLeft ≠ onRight := by decide
  obtain ⟨replays, injective, reports⟩ := events_faithful onLeft
  refine ⟨leftShaped, rightShaped, rfl, replays leftShaped, ?_, ((reports _).mpr ⟨leftShaped, rfl⟩).1, ?_⟩
  · intro same
    exact apart (injective onRight leftShaped rightShaped same)
  · intro events reported ran
    exact ((reports events).mp ⟨reported, ran⟩).2

end Event
end StraightLine
