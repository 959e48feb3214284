import SelectShape.Proofs.Shape.TypeText

/-!
# Types over several lines

Only an object breaks lines, one before each of its keys and one before its closing brace, and a line is
indented by the braces around it. Main statement: with its lines joined, and without the semicolons after
last keys, the type over several lines is the type on one line, and its indentation tells how many braces
are open.
-/
namespace SelectShape

/-- A text with each newline, and the spaces after it, replaced by one space. `fresh` says that there were
only spaces since the last newline. -/
def joinLines (fresh : Bool) : List Char → List Char
  | [] => []
  | c :: rest =>
    if c = '\n' then ' ' :: joinLines true rest
    else if fresh = true ∧ c = ' ' then joinLines true rest
    else c :: joinLines false rest

/-- A text without the semicolons that are directly followed by a space and a closing brace. -/
def dropLastSemicolons : List Char → List Char
  | [] => []
  | c :: rest =>
    if c = ';' ∧ [' ', '\x7d'] <+: rest then dropLastSemicolons rest else c :: dropLastSemicolons rest

/-- A type over several lines as it would be on one. -/
def onOneLine (text : List Char) : List Char := dropLastSemicolons (joinLines false text)

/-- How many more braces a text opens than it closes. -/
def openBraces (text : List Char) : Int := (text.count '\x7b' : Int) - text.count '\x7d'

/-- Every line that begins in a text is indented by two spaces for each brace that is open at its first
character other than a space, `level` of them from before the text. A brace that is closed there does not
count as open. -/
def Indented (level : Int) (text : List Char) : Prop :=
  ∀ before after, text = before ++ '\n' :: after → ∃ count c rest,
    after = List.replicate count ' ' ++ c :: rest ∧ c ≠ ' ' ∧ c ≠ '\n' ∧
      (count : Int) = 2 * (level + openBraces before - if c = '\x7d' then 1 else 0)

open FieldShape

variable {text rest : List Char} {level : Nat} {shape : Shape} {key : String} {value : FieldShape}

/-! ### Joining lines -/

theorem joinLines_gap (level : Nat) {c : Char} (visible : c ≠ ' ') (rest : List Char) :
    joinLines false ((Layout.lines level).gap ++ c :: rest) = ' ' :: joinLines false (c :: rest) := by
  have skipped (count : Nat) :
      joinLines true (List.replicate count ' ' ++ c :: rest) = joinLines false (c :: rest) := by
    induction count with
    | zero => simp [joinLines, visible]
    | succ count ih => simpa [List.replicate_succ, joinLines] using ih
  simp [Layout.gap, joinLines, skipped]

theorem onOneLine_cons {c : Char} (inLine : c ≠ '\n') (noSemicolon : c ≠ ';') (rest : List Char) :
    onOneLine (c :: rest) = c :: onOneLine rest := by
  simp [onOneLine, joinLines, dropLastSemicolons, inLine, noSemicolon]

theorem onOneLine_append (plain : ∀ c ∈ text, c ≠ '\n' ∧ c ≠ ';') (rest : List Char) :
    onOneLine (text ++ rest) = text ++ onOneLine rest := by
  induction text with
  | nil => rfl
  | cons c text ih =>
    obtain ⟨here, later⟩ := List.forall_mem_cons.mp plain
    rw [List.cons_append, onOneLine_cons here.1 here.2, ih later, List.cons_append]

theorem onOneLine_gap (level : Nat) {c : Char} (visible : c ≠ ' ') (rest : List Char) :
    onOneLine ((Layout.lines level).gap ++ c :: rest) = ' ' :: onOneLine (c :: rest) := by
  rw [onOneLine, joinLines_gap level visible, dropLastSemicolons, if_neg (by simp), onOneLine]

/-- A semicolon stays if the next line does not begin with a closing brace. -/
theorem onOneLine_separator (level : Nat) {c : Char} (inLine : c ≠ '\n') (visible : c ≠ ' ')
    (noBrace : c ≠ '\x7d') (rest : List Char) :
    onOneLine (';' :: ((Layout.lines level).gap ++ c :: rest)) =
      ';' :: onOneLine ((Layout.lines level).gap ++ c :: rest) := by
  have joined : joinLines false (c :: rest) = c :: joinLines false rest := by simp [joinLines, inLine]
  have stays : ¬ [' ', '\x7d'] <+: joinLines false ((Layout.lines level).gap ++ c :: rest) := by
    rw [joinLines_gap level visible, joined]
    simp [Ne.symm noBrace]
  have first : joinLines false (';' :: ((Layout.lines level).gap ++ c :: rest)) =
      ';' :: joinLines false ((Layout.lines level).gap ++ c :: rest) := by simp [joinLines]
  rw [onOneLine, first, dropLastSemicolons, if_neg fun both => stays both.2, onOneLine]

theorem onOneLine_closing (level : Nat) (rest : List Char) :
    onOneLine (';' :: ((Layout.lines level).gap ++ '\x7d' :: rest)) =
      ' ' :: '\x7d' :: onOneLine rest := by
  have joined : joinLines false (';' :: ((Layout.lines level).gap ++ '\x7d' :: rest)) =
      ';' :: ' ' :: '\x7d' :: joinLines false rest := by
    simp [joinLines, joinLines_gap level (show '\x7d' ≠ ' ' by decide)]
  simp [onOneLine, joined, dropLastSemicolons]

/-- The first character of a name neither is a space or a brace nor ends a line or a field. -/
theorem IsName.exists_cons {name : String} (valid : IsName name) :
    ∃ c rest, name.toList = c :: rest ∧ c ≠ '\n' ∧ c ≠ ' ' ∧ c ≠ '\x7d' := by
  obtain ⟨nonempty, inside⟩ := valid
  cases chars : name.toList with
  | nil => exact absurd (String.toList_eq_nil_iff.mp chars) nonempty
  | cons c rest =>
    have word : isWordChar c = true := inside c (by simp [chars])
    refine ⟨c, rest, rfl, ?_, ?_, ?_⟩ <;> rintro rfl <;> revert word <;> decide

theorem IsName.ne_of_mem {name : String} (valid : IsName name) {c d : Char} (member : c ∈ name.toList)
    (outside : isWordChar d = false) : c ≠ d := by
  rintro rfl
  exact Bool.false_ne_true (outside.symm.trans (valid.2 c member))

theorem IsName.onOneLine_append {name : String} (valid : IsName name) (rest : List Char) :
    onOneLine (name.toList ++ rest) = name.toList ++ onOneLine rest :=
  SelectShape.onOneLine_append
    (fun _ member => ⟨valid.ne_of_mem member (by decide), valid.ne_of_mem member (by decide)⟩) rest

namespace FieldShape

/-- The type of the value over several lines comes to that on one line, whatever follows. -/
def Joins (value : FieldShape) : Prop :=
  ∀ (level : Nat) (rest : List Char),
    onOneLine (value.typeChars (.lines level) ++ rest) = value.typeChars .line ++ onOneLine rest

end FieldShape

/-- The keys of an object and its end come to those on one line. -/
theorem onOneLine_keyChars (level : Nat) (field : String × FieldShape)
    (keys : ∀ next ∈ field :: shape, IsName next.1) (values : ∀ next ∈ field :: shape, next.2.Joins)
    (rest : List Char) :
    onOneLine (keyChars (.lines (level + 1)) (field :: shape) ++
        ((Layout.lines level).gap ++ '\x7d' :: rest)) =
      keyChars .line (field :: shape) ++ (Layout.line.gap ++ '\x7d' :: onOneLine rest) := by
  induction shape generalizing field with
  | nil =>
    obtain ⟨key, value⟩ := field
    rw [List.forall_mem_singleton] at keys values
    obtain ⟨c, more, chars, -, visible, -⟩ := IsName.exists_cons keys
    have lines := keyChars_append (.lines level) key value [] rest
    have line := keyChars_append .line key value [] (onOneLine rest)
    simp only [Layout.inner] at lines line
    rw [lines, line, chars, List.cons_append, onOneLine_gap _ visible, ← List.cons_append, ← chars,
      IsName.onOneLine_append keys, onOneLine_cons (by decide) (by decide),
      onOneLine_cons (by decide) (by decide), values, afterValue, afterValue]
    have ends : ([';'] ++ ((Layout.lines level).gap ++ '\x7d' :: rest)) =
        ';' :: ((Layout.lines level).gap ++ '\x7d' :: rest) := rfl
    simp only [List.isEmpty_nil, if_true, Layout.inner, Layout.last, ends, onOneLine_closing]
    rfl
  | cons next shape ih =>
    obtain ⟨key, value⟩ := field
    obtain ⟨following, counterpart⟩ := next
    rw [List.forall_mem_cons] at keys values
    obtain ⟨c, more, chars, -, visible, -⟩ := IsName.exists_cons keys.1
    obtain ⟨d, others, begins, inLine, shown, noBrace⟩ :=
      IsName.exists_cons (keys.2 (following, counterpart) (by simp))
    have lines := keyChars_append (.lines level) key value ((following, counterpart) :: shape) rest
    have line := keyChars_append .line key value ((following, counterpart) :: shape) (onOneLine rest)
    have further := keyChars_append (.lines level) following counterpart shape rest
    have later := ih (following, counterpart) keys.2 values.2
    simp only [Layout.inner] at lines line further
    rw [further, begins, List.cons_append] at later
    rw [lines, line, chars, List.cons_append, onOneLine_gap _ visible, ← List.cons_append, ← chars,
      IsName.onOneLine_append keys.1, onOneLine_cons (by decide) (by decide),
      onOneLine_cons (by decide) (by decide), values.1, afterValue, afterValue]
    simp only [List.isEmpty_cons, Bool.false_eq_true, if_false, Layout.inner, List.cons_append, further,
      begins, onOneLine_separator _ inLine shown noBrace, later]
    simp [Layout.gap]

theorem onOneLine_braced (level : Nat) (keys : ∀ field ∈ shape, IsName field.1)
    (values : ∀ field ∈ shape, field.2.Joins) (rest : List Char) :
    onOneLine ((Layout.lines level).braced (keyChars (.lines (level + 1)) shape) ++ rest) =
      Layout.line.braced (keyChars .line shape) ++ onOneLine rest := by
  cases shape with
  | nil =>
    have empty : ∀ c ∈ ['\x7b', '\x7d'], c ≠ '\n' ∧ c ≠ ';' := by simp
    exact onOneLine_append empty rest
  | cons field shape =>
    have lines := braced_cons_append (.lines level) field shape rest
    have line := braced_cons_append .line field shape (onOneLine rest)
    simp only [Layout.inner] at lines line
    rw [lines, line, onOneLine_cons (by decide) (by decide), onOneLine_keyChars level field keys values]

namespace FieldShape

theorem Joins.relation {cardinality : Cardinality} (keys : ∀ field ∈ shape, IsName field.1)
    (values : ∀ field ∈ shape, field.2.Joins) : Joins (.relation cardinality shape) := by
  intro level rest
  have object := onOneLine_braced level keys values
  have marks {text : List Char} (plain : ∀ c ∈ text, c ≠ '\n' ∧ c ≠ ';') (rest : List Char) :=
    onOneLine_append plain rest
  rw [typeChars, typeChars, Layout.inner, Layout.inner]
  cases cardinality with
  | one => exact object rest
  | many => rw [Cardinality.typeChars, Cardinality.typeChars, List.append_assoc, List.append_assoc, object,
      marks (by simp)]
  | oneOrMany =>
    simp only [Cardinality.typeChars, List.append_assoc]
    rw [object, marks (by simp), object, marks (by simp)]

theorem onOneLine_memberChars {members : List FieldShape} (each : ∀ member ∈ members, member.Joins)
    (level : Nat) (rest : List Char) :
    onOneLine (memberChars (.lines level) members ++ rest) =
      memberChars .line members ++ onOneLine rest := by
  have text {member : FieldShape} (joins : member.Joins) (rest : List Char) :
      onOneLine (member.memberText (.lines level) ++ rest) =
        member.memberText .line ++ onOneLine rest := by
    rw [memberText, memberText]
    split
    · simp only [List.cons_append, List.append_assoc, List.nil_append]
      rw [onOneLine_cons (by decide) (by decide), joins, onOneLine_cons (by decide) (by decide)]
    · exact joins level rest
  induction members with
  | nil => rfl
  | cons member members ih =>
    obtain ⟨here, later⟩ := List.forall_mem_cons.mp each
    rw [memberChars_cons_append, memberChars_cons_append, text here, afterMember, afterMember]
    split
    · rfl
    · rw [onOneLine_cons (by decide) (by decide), onOneLine_cons (by decide) (by decide),
        onOneLine_cons (by decide) (by decide), ih later]

theorem Named.joins (named : value.Named) : value.Joins := by
  induction named with
  | scalar name => exact fun level rest => IsName.onOneLine_append name rest
  | relation keys values ih => exact .relation keys ih
  | intersection each ih => exact onOneLine_memberChars ih

end FieldShape

/-! ### Indentation -/

theorem openBraces_append (text rest : List Char) :
    openBraces (text ++ rest) = openBraces text + openBraces rest := by
  simp only [openBraces, List.count_append]
  omega

theorem Indented.append {level : Int} (first : Indented level text)
    (last : Indented (level + openBraces text) rest) : Indented level (text ++ rest) := by
  intro before after divided
  -- The line begins in either part, and in the first one it shows its first character there, too.
  rcases List.append_eq_append_iff.mp divided with ⟨more, rfl, same⟩ | ⟨more, rfl, same⟩
  · obtain ⟨count, c, others, rfl, visible, inLine, indent⟩ := last more after same
    refine ⟨count, c, others, rfl, visible, inLine, ?_⟩
    rw [openBraces_append, indent]
    omega
  · cases more with
    | nil =>
      obtain ⟨count, c, others, rfl, visible, inLine, indent⟩ := last [] after same.symm
      refine ⟨count, c, others, rfl, visible, inLine, ?_⟩
      rw [indent]
      simp [openBraces]
    | cons c more =>
      obtain ⟨rfl, rfl⟩ := List.cons.inj same
      obtain ⟨count, c, others, rfl, visible, inLine, indent⟩ := first before more rfl
      exact ⟨count, c, others ++ rest, by simp, visible, inLine, indent⟩

theorem indented_of_no_newline {level : Int} (inLine : '\n' ∉ text) : Indented level text := by
  rintro before after rfl
  exact absurd (by simp) inLine

theorem indented_gap {level : Int} (depth : Nat) {c : Char} (visible : c ≠ ' ') (inLine : '\n' ∉ c :: rest)
    (indent : (depth : Int) = level - if c = '\x7d' then 1 else 0) :
    Indented level ((Layout.lines depth).gap ++ c :: rest) := by
  intro before after divided
  have spaces : '\n' ∉ List.replicate (2 * depth) ' ' ++ c :: rest := by
    simpa [List.mem_replicate] using inLine
  cases before with
  | nil =>
    have ended : after = List.replicate (2 * depth) ' ' ++ c :: rest := (List.cons.inj divided).2.symm
    refine ⟨2 * depth, c, rest, ended, visible, fun newline => inLine (by simp [newline]), ?_⟩
    simp only [openBraces, List.count_nil]
    omega
  | cons first before =>
    have ended : List.replicate (2 * depth) ' ' ++ c :: rest = before ++ '\n' :: after :=
      (List.cons.inj divided).2
    exact absurd (by rw [ended]; simp) spaces

/-- A text that closes the braces it opens, with its lines indented by what is open around it. -/
structure Laid (level : Nat) (text : List Char) : Prop where
  indented : Indented level text
  balanced : openBraces text = 0

theorem Laid.append (first : Laid level text) (last : Laid level rest) : Laid level (text ++ rest) where
  indented := first.indented.append (by simpa [first.balanced] using last.indented)
  balanced := by rw [openBraces_append, first.balanced, last.balanced, Int.add_zero]

theorem laid_plain (inLine : '\n' ∉ text) (opening : '\x7b' ∉ text) (closing : '\x7d' ∉ text) :
    Laid level text :=
  ⟨indented_of_no_newline inLine, by simp [openBraces, List.count_eq_zero.mpr, opening, closing]⟩

theorem IsName.laid (valid : IsName key) : Laid level key.toList :=
  laid_plain (fun member => valid.ne_of_mem member (by decide) rfl)
    (fun member => valid.ne_of_mem member (by decide) rfl)
    fun member => valid.ne_of_mem member (by decide) rfl

theorem laid_key (valid : IsName key) (laid : Laid (level + 1) text) :
    Laid (level + 1) ((Layout.lines (level + 1)).gap ++ key.toList ++ ':' :: ' ' :: text) := by
  obtain ⟨c, more, chars, inLine, visible, noBrace⟩ := IsName.exists_cons valid
  have mark : Laid (level + 1) [':', ' '] := laid_plain (by decide) (by decide) (by decide)
  have name : Laid (level + 1) key.toList := valid.laid
  have start : Laid (level + 1) ((Layout.lines (level + 1)).gap ++ key.toList) := by
    constructor
    · rw [chars]
      apply indented_gap _ visible
      · rw [← chars]
        exact fun member => valid.ne_of_mem member (by decide) rfl
      · simp [noBrace]
    · rw [openBraces_append, name.balanced]
      simp [openBraces, Layout.gap, List.count_replicate]
  exact start.append (mark.append laid)

theorem laid_keyChars (keys : ∀ field ∈ shape, IsName field.1)
    (values : ∀ field ∈ shape, Laid (level + 1) (field.2.typeChars (.lines (level + 1)))) :
    Laid (level + 1) (keyChars (.lines (level + 1)) shape) := by
  induction shape with
  | nil => exact laid_plain (by simp [keyChars]) (by simp [keyChars]) (by simp [keyChars])
  | cons field shape ih =>
    obtain ⟨key, value⟩ := field
    rw [List.forall_mem_cons] at keys values
    have semicolon : Laid (level + 1) [';'] := laid_plain (by decide) (by decide) (by decide)
    rw [keyChars]
    refine (laid_key keys.1 values.1).append ?_
    split
    · exact semicolon
    · exact semicolon.append (ih keys.2 values.2)

theorem laid_braced (keys : ∀ field ∈ shape, IsName field.1)
    (values : ∀ field ∈ shape, Laid (level + 1) (field.2.typeChars (.lines (level + 1)))) :
    Laid level ((Layout.lines level).braced (keyChars (.lines (level + 1)) shape)) := by
  rw [Layout.braced]
  split
  · exact ⟨indented_of_no_newline (by decide), by decide⟩
  · have inner := laid_keyChars keys values
    have opening : Indented level ['\x7b'] := indented_of_no_newline (by decide)
    have opened : openBraces ['\x7b'] = 1 := by decide
    have inside : Indented (level + openBraces ['\x7b']) (keyChars (.lines (level + 1)) shape) := by
      simpa [opened] using inner.indented
    have closing : Indented (level + 1) ((Layout.lines level).gap ++ ['\x7d']) :=
      indented_gap level (by decide) (by decide) (by simp)
    have closed : openBraces ((Layout.lines level).gap ++ ['\x7d']) = -1 := by
      simp [openBraces, Layout.gap, List.count_replicate]
    rw [← List.singleton_append, List.append_assoc]
    constructor
    · refine (opening.append inside).append ?_
      rw [openBraces_append, opened, inner.balanced]
      exact closing
    · rw [openBraces_append, openBraces_append, opened, inner.balanced, closed]
      rfl

theorem laid_memberChars {members : List FieldShape}
    (each : ∀ member ∈ members, Laid level (member.typeChars (.lines level))) :
    Laid level (memberChars (.lines level) members) := by
  have opening : Laid level ['('] := laid_plain (by decide) (by decide) (by decide)
  have closing : Laid level [')'] := laid_plain (by decide) (by decide) (by decide)
  have between : Laid level [' ', '&', ' '] := laid_plain (by decide) (by decide) (by decide)
  induction members with
  | nil => exact laid_plain (by simp [memberChars]) (by simp [memberChars]) (by simp [memberChars])
  | cons member members ih =>
    obtain ⟨here, later⟩ := List.forall_mem_cons.mp each
    rw [memberChars]
    apply Laid.append
    · split
      · exact opening.append (here.append closing)
      · exact here
    · split
      · exact laid_plain (by simp) (by simp) (by simp)
      · exact between.append (ih later)

theorem FieldShape.Named.laid (named : value.Named) (level : Nat) :
    Laid level (value.typeChars (.lines level)) := by
  induction named generalizing level with
  | scalar name => exact name.laid
  | @relation cardinality fields keys values ih =>
    have object := laid_braced keys fun field member => ih field member (level + 1)
    have array : Laid level ['[', ']'] := laid_plain (by decide) (by decide) (by decide)
    have bar : Laid level [' ', '|', ' '] := laid_plain (by decide) (by decide) (by decide)
    rw [typeChars, Layout.inner]
    cases cardinality with
    | one => exact object
    | many => exact object.append array
    | oneOrMany => exact ((object.append bar).append object).append array
  | intersection each ih => exact laid_memberChars fun member inside => ih member inside level

/-- The two layouts of a shape with names for its keys and types say the same. The text over several lines
comes to the text on one line if each newline, with the spaces after it, is replaced by one space, and
then each semicolon before a space and a closing brace is left out; and each of its lines after the first
is indented by two spaces for each brace that is open. -/
theorem typeText_lines (named : shape.Named) :
    onOneLine (shape.typeText (.lines 0)).toList = (shape.typeText .line).toList ∧
      Indented 0 (shape.typeText (.lines 0)).toList := by
  rw [Shape.typeText, Shape.typeText, String.toList_ofList, String.toList_ofList, Shape.typeChars,
    Shape.typeChars, Layout.inner, Layout.inner]
  constructor
  · have joined := onOneLine_braced 0 named.keys
      (fun field member => (named.values field member).joins) []
    have nothing : onOneLine [] = [] := rfl
    simpa only [List.append_nil, nothing] using joined
  · exact (laid_braced named.keys fun field member => (named.values field member).laid 1).indented

/-- A shape that is not normal: a union and an empty object in an intersection, and an intersection of
nothing. -/
theorem typeText_lines_uneven :
    let shape : Shape :=
      [("a", .intersection [.relation .oneOrMany [("b", .relation .one [])], .scalar "t"]),
        ("c", .intersection [])]
    let lines := "\x7b\n  a: (\x7b\n    b: \x7b\x7d;\n  \x7d | \x7b\n    b: \x7b\x7d;\n  \x7d[]) & t;\n" ++
      "  c: ;\n\x7d"
    let line := "\x7b a: (\x7b b: \x7b\x7d \x7d | \x7b b: \x7b\x7d \x7d[]) & t; c:  \x7d"
    shape.Named ∧ shape.typeText (.lines 0) = lines ∧ shape.typeText .line = line ∧
    onOneLine lines.toList = line.toList ∧ Indented 0 lines.toList := by
  intro shape lines line
  have named : shape.Named := by
    refine ⟨by decide, ?_⟩
    rw [List.forall_mem_cons, List.forall_mem_singleton]
    refine ⟨.intersection ?_, .intersection (List.forall_mem_nil _)⟩
    rw [List.forall_mem_cons, List.forall_mem_singleton]
    exact ⟨.relation (by decide)
      (List.forall_mem_singleton.mpr (.relation (List.forall_mem_nil _) (List.forall_mem_nil _))),
      .scalar (by decide)⟩
  have overLines : shape.typeText (.lines 0) = lines := by rfl
  have onLine : shape.typeText .line = line := by rfl
  obtain ⟨joined, indented⟩ := typeText_lines named
  rw [overLines, onLine] at joined
  rw [overLines] at indented
  exact ⟨named, overLines, onLine, joined, indented⟩

end SelectShape
