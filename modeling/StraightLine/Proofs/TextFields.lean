import StraightLine.Proofs.Layout

namespace StraightLine.Text

theorem isDigits_repr (n : Nat) : isDigits n.repr.toList = true := by
  rw [Nat.toList_repr, isDigits, Bool.and_eq_true_iff]
  constructor
  · simp [Nat.toDigits_ne_nil]
  · apply List.all_eq_true.mpr
    intro c member
    exact Nat.isDigit_of_mem_toDigits (by omega) (by omega) member

theorem digitsValue_repr (n : Nat) : digitsValue n.repr.toList = n := by
  rw [Nat.toList_repr]
  exact Nat.ofDigitChars_toDigits (by omega) (by omega)

theorem readInt?_showInt (i : Int) : readInt? (showInt i).toList = some i := by
  cases i with
  | ofNat n =>
    rw [showInt, readInt?_digits (isDigits_repr n), digitsValue_repr]
    rfl
  | negSucc n =>
    have digits : readNat? (n + 1).repr.toList = some (n + 1) := by
      rw [readNat?, if_pos (isDigits_repr _), digitsValue_repr]
    rw [showInt, String.toList_append]
    change (readNat? (n + 1).repr.toList).map (fun n => -(n : Int)) = _
    rw [digits]
    rfl

theorem readInt32?_showInt32 (i : Int32) : readInt32? (showInt32 i) = some i := by
  have fits : fitsInt32 i.toInt = true := by
    have low := i.le_toInt
    have high := i.toInt_lt
    exact decide_eq_true ⟨by omega, by omega⟩
  rw [readInt32?, showInt32, readInt?_showInt]
  simp only [fits, if_true, Int32.ofInt_toInt]

section Joined

-- The first time the character stands in the text is where the front ends.
theorem append_cons_injective {c : Char} {front other rest behind : List Char} (absent : c ∉ front) (missing : c ∉ other)
    (same : front ++ c :: rest = other ++ c :: behind) : front = other ∧ rest = behind := by
  induction front generalizing other with
  | nil =>
    cases other with
    | nil => exact ⟨rfl, (List.cons.inj same).2⟩
    | cons d other =>
      rw [(List.cons.inj same).1] at missing
      exact absurd List.mem_cons_self missing
  | cons d front ih =>
    cases other with
    | nil =>
      rw [(List.cons.inj same).1] at absent
      exact absurd List.mem_cons_self absent
    | cons e other =>
      obtain ⟨rfl, later⟩ := List.cons.inj same
      obtain ⟨rfl, behind⟩ := ih (List.not_mem_of_not_mem_cons absent) (List.not_mem_of_not_mem_cons missing) later
      exact ⟨rfl, behind⟩

variable {separator : String} {c : Char} {tail : List Char}

theorem toList_intercalate_cons (opening : separator.toList = c :: tail) (field next : String) (fields : List String) :
    (separator.intercalate (field :: next :: fields)).toList =
      field.toList ++ c :: (tail ++ (separator.intercalate (next :: fields)).toList) := by
  rw [String.intercalate_cons_cons, String.toList_append, String.toList_append, opening, List.append_assoc,
    List.cons_append]

-- A joined text determines its parts when no part holds the character that the separator begins with.
theorem intercalate_injective (opening : separator.toList = c :: tail) {fields others : List String}
    (some : fields ≠ []) (any : others ≠ []) (absent : ∀ field ∈ fields, c ∉ field.toList)
    (missing : ∀ field ∈ others, c ∉ field.toList)
    (same : separator.intercalate fields = separator.intercalate others) : fields = others := by
  induction fields generalizing others with
  | nil => exact absurd rfl some
  | cons field fields ih =>
    obtain ⟨here, later⟩ := List.forall_mem_cons.mp absent
    cases others with
    | nil => exact absurd rfl any
    | cons other others =>
      obtain ⟨there, beyond⟩ := List.forall_mem_cons.mp missing
      have chars := congrArg String.toList same
      cases fields with
      | nil =>
        cases others with
        | nil =>
          rw [String.intercalate_singleton, String.intercalate_singleton] at same
          rw [same]
        | cons next others =>
          rw [toList_intercalate_cons opening, String.intercalate_singleton] at chars
          exact absurd (chars ▸ List.mem_append_right _ List.mem_cons_self) here
      | cons next fields =>
        cases others with
        | nil =>
          rw [toList_intercalate_cons opening, String.intercalate_singleton] at chars
          exact absurd (chars.symm ▸ List.mem_append_right _ List.mem_cons_self) there
        | cons second others =>
          rw [toList_intercalate_cons opening, toList_intercalate_cons opening] at chars
          obtain ⟨first, behind⟩ := append_cons_injective here there chars
          have rest := String.toList_inj.mp (List.append_cancel_left behind)
          rw [String.toList_inj.mp first, ih (List.cons_ne_nil _ _) (List.cons_ne_nil _ _) later beyond rest]

theorem notMem_intercalate {d : Char} (apart : d ∉ separator.toList) {fields : List String}
    (absent : ∀ field ∈ fields, d ∉ field.toList) : d ∉ (separator.intercalate fields).toList := by
  induction fields with
  | nil => exact List.not_mem_nil
  | cons field fields ih =>
    obtain ⟨here, later⟩ := List.forall_mem_cons.mp absent
    cases fields with
    | nil => rwa [String.intercalate_singleton]
    | cons next fields =>
      rw [String.intercalate_cons_cons, String.toList_append, String.toList_append]
      simp only [List.mem_append, here, apart, ih later, or_self, not_false_eq_true]

end Joined

section Lines

theorem unlines_cons (line : String) (lines : List String) : unlines (line :: lines) = line ++ "\n" ++ unlines lines := by
  rw [unlines, List.map_cons, String.join_cons]
  rfl

theorem unlines_eq_intercalate (lines : List String) : unlines lines = "\n".intercalate (lines ++ [""]) := by
  induction lines with
  | nil => rfl
  | cons line lines ih =>
    rw [unlines_cons, ih, List.cons_append, String.intercalate_cons_of_ne_nil (by simp)]

-- The lines with a line feed between them, and one more at the end unless there is no line.
theorem unlines_eq_ite (lines : List String) :
    unlines lines = if lines = [] then "" else "\n".intercalate lines ++ "\n" := by
  by_cases none : lines = []
  · rw [none]
    rfl
  · rw [if_neg none, unlines_eq_intercalate, String.intercalate_append_of_ne_nil none (List.cons_ne_nil _ _),
      String.intercalate_singleton, String.append_empty]

theorem unlines_injective {lines others : List String} (absent : ∀ line ∈ lines, '\n' ∉ line.toList)
    (missing : ∀ line ∈ others, '\n' ∉ line.toList) (same : unlines lines = unlines others) : lines = others := by
  have ending : ∀ line ∈ [""], '\n' ∉ line.toList := by simp
  rw [unlines_eq_intercalate, unlines_eq_intercalate] at same
  have whole : lines ++ [""] = others ++ [""] := by
    apply intercalate_injective (c := '\n') rfl (by simp) (by simp) _ _ same
    · exact List.forall_mem_append.mpr ⟨absent, ending⟩
    · exact List.forall_mem_append.mpr ⟨missing, ending⟩
  exact List.append_cancel_right whole

-- A listing of things that show on one line each, and differently.
theorem unlines_map_injective {α : Type} {render : α → String} {items others : List α}
    (plain : ∀ item ∈ items ++ others, '\n' ∉ (render item).toList)
    (apart : ∀ item ∈ items, ∀ other ∈ others, render item = render other → item = other)
    (same : unlines (items.map render) = unlines (others.map render)) : items = others := by
  have lines : items.map render = others.map render := by
    apply unlines_injective _ _ same
    · exact List.forall_mem_map.mpr fun item member => plain item (List.mem_append_left _ member)
    · exact List.forall_mem_map.mpr fun item member => plain item (List.mem_append_right _ member)
  clear plain same
  induction items generalizing others with
  | nil => exact (List.map_eq_nil_iff.mp lines.symm).symm
  | cons item items ih =>
    cases others with
    | nil => cases lines
    | cons other others =>
      obtain ⟨first, rest⟩ := List.cons.inj lines
      rw [apart item List.mem_cons_self other List.mem_cons_self first]
      rw [ih _ rest]
      intro one listed two member
      exact apart one (List.mem_cons_of_mem _ listed) two (List.mem_cons_of_mem _ member)

end Lines

-- A text without commas and blanks.
def isField (text : String) : Bool := text.toList.all fun c => decide (c ≠ ',') && !isBlank c

theorem isField_append {front back : String} (first : isField front = true) (second : isField back = true) :
    isField (front ++ back) = true := by
  rw [isField, String.toList_append, List.all_append]
  exact Bool.and_eq_true_iff.mpr ⟨first, second⟩

theorem comma_notMem {text : String} (field : isField text = true) : ',' ∉ text.toList := by
  intro member
  have refused := List.all_eq_true.mp field ',' member
  cases refused

theorem blank_notMem {text : String} (field : isField text = true) {c : Char} (blank : isBlank c = true) :
    c ∉ text.toList := by
  intro member
  have solid := (Bool.and_eq_true_iff.mp (List.all_eq_true.mp field c member)).2
  rw [blank] at solid
  cases solid

-- Fields in parentheses.
def record (separator : String) (fields : List String) : String := "(" ++ separator.intercalate fields ++ ")"

theorem feed_notMem_record {separator : String} (apart : '\n' ∉ separator.toList) {fields : List String}
    (plain : ∀ field ∈ fields, isField field = true) : '\n' ∉ (record separator fields).toList := by
  intro feed
  rw [record, String.toList_append, String.toList_append, List.mem_append, List.mem_append] at feed
  rcases feed with (opening | inside) | closing
  · revert opening
    decide
  · apply notMem_intercalate apart _ inside
    intro field member
    exact blank_notMem (plain field member) isBlank_newline
  · revert closing
    decide

theorem record_injective {separator : String} {tail : List Char} (opening : separator.toList = ',' :: tail)
    {fields others : List String} (some : fields ≠ []) (any : others ≠ [])
    (plain : ∀ field ∈ fields, isField field = true) (alsoPlain : ∀ field ∈ others, isField field = true)
    (same : record separator fields = record separator others) : fields = others := by
  rw [record, record, String.append_left_inj, String.append_right_inj] at same
  apply intercalate_injective opening some any _ _ same
  · exact fun field member => comma_notMem (plain field member)
  · exact fun field member => comma_notMem (alsoPlain field member)

-- Things that show as records, one on a line, are found in their listing if their fields tell them apart.
theorem listing_injective {α : Type} {render : α → String} {fields : α → List String} {separator : String}
    {tail : List Char} (shown : ∀ item, render item = record separator (fields item))
    (opening : separator.toList = ',' :: tail) (apart : '\n' ∉ separator.toList) (some : ∀ item, fields item ≠ [])
    {items others : List α} (plain : ∀ item ∈ items ++ others, ∀ field ∈ fields item, isField field = true)
    (distinct : ∀ item ∈ items, ∀ other ∈ others, fields item = fields other → item = other)
    (same : unlines (items.map render) = unlines (others.map render)) : items = others := by
  apply unlines_map_injective _ _ same
  · intro item member
    rw [shown]
    exact feed_notMem_record apart (plain item member)
  · intro item member other listed line
    rw [shown, shown] at line
    apply distinct item member other listed
    exact record_injective opening (some item) (some other) (plain item (List.mem_append_left _ member))
      (plain other (List.mem_append_right _ listed)) line

theorem isField_of_isIdentRest {text : String} (inside : ∀ c ∈ text.toList, Token.isIdentRest c = true) :
    isField text = true := by
  apply List.all_eq_true.mpr
  intro c member
  have solid := Token.solid_of_isIdentRest (inside c member)
  have other : c ≠ ',' := by
    rintro rfl
    cases inside ',' member
  rw [decide_eq_true other, solid.2]
  rfl

theorem isField_of_isDigits {text : String} (digits : isDigits text.toList = true) : isField text = true :=
  isField_of_isIdentRest (Token.isIdentRest_of_isDigits digits)

theorem isField_of_isIdentifier {text : String} (identifier : Token.isIdentifier text.toList = true) :
    isField text = true :=
  isField_of_isIdentRest (Token.isIdentRest_of_isIdentifier identifier)

theorem isField_repr (n : Nat) : isField n.repr = true := isField_of_isDigits (isDigits_repr n)

theorem isField_showInt32 (i : Int32) : isField (showInt32 i) = true := by
  unfold showInt32
  cases i.toInt with
  | ofNat n => exact isField_repr n
  | negSucc n => exact isField_append rfl (isField_repr (n + 1))

end StraightLine.Text
