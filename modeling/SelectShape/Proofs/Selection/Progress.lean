import Mathlib.Algebra.Group.Nat.Defs
import Mathlib.Logic.Relation
import SelectShape.Proofs.Selection.Descent
import SelectShape.Proofs.Success

/-!
# Progress

Productions that call each other come to an end because each of them leaves less of the text than it was
given, and the level of nesting that they pass on stays within the limit because it is compared before it
is raised. Both are told of calls here, and hold of every call, whether it succeeds or not. Main statement:
calls return by what they call, work on less and less text, and never exceed the limit.
-/
namespace SelectShape

/-- What a call reads: a node, a select list, or the related resource behind a field. -/
inductive Production where
  | node
  | list
  | related
  deriving DecidableEq, Repr

/-- A production to be read at a level of nesting, at the front of a text. -/
structure Call where
  production : Production
  depth : Nat
  text : List Char
  deriving DecidableEq, Repr

/-- What is read, and the text behind it. Only of a related resource there may be none. -/
def Call.outcome (limits : Limits) (call : Call) : Except ParseError Embedded :=
  match call.production with
  | .node => (parseNode limits call.depth call.text).map fun (nodes, rest) => .present nodes rest
  | .list => (parseNodes limits call.depth call.text).map fun (nodes, rest) => .present nodes rest
  | .related => parseEmbedded limits call.depth call.text

/-- Nodes that were read before, in front of those that are read. -/
def Embedded.after (earlier : List Node) : Embedded → Embedded
  | .present nodes rest => .present (earlier ++ nodes) rest
  | .absent rest => .absent rest

/-- What a production makes of a text, given what the calls that it makes return. -/
def Call.descend (limits : Limits) (returns : Call → Except ParseError Embedded) :
    Call → Except ParseError Embedded
  | ⟨.node, _, []⟩ => .error .emptyInput
  | ⟨.node, _, '*' :: rest⟩ => .ok (.present [.wildcard] (skipBlanks rest))
  | ⟨.node, depth, text⟩ =>
    match readField text with
    | .error error => .error error
    | .ok (field, rest) =>
      match returns ⟨.related, depth, rest⟩, field.hint with
      | .error error, _ => .error error
      | .ok (.present children rest), _ => .ok (.present [.embed field children] rest)
      | .ok (.absent rest), none => .ok (.present [.column field] rest)
      | .ok (.absent rest), some _ => .error (.missingEmbedding (.ofList rest))
  | ⟨.list, depth, text⟩ =>
    match returns ⟨.node, depth, text⟩ with
    | .ok (.present nodes (',' :: rest)) =>
      (returns ⟨.list, depth, skipBlanks rest⟩).map (.after nodes)
    | outcome => outcome
  | ⟨.related, depth, '(' :: rest⟩ =>
    if limits.maxDepth ≤ depth then .error (.nestingTooDeep limits.maxDepth)
    else if (skipBlanks rest).head? = some ')' then .error .emptyEmbedding
    else
      match returns ⟨.list, depth + 1, skipBlanks rest⟩ with
      | .ok (.present nodes (')' :: rest)) => .ok (.present nodes (skipBlanks rest))
      | .ok (.present _ rest) => .error (.expectedCloseParen (.ofList rest))
      | outcome => outcome
  | ⟨.related, _, text⟩ => .ok (.absent text)

/-- A call makes another one. A list begins with a node and, where a comma follows, goes on with another
round; behind the field of a node a related resource is looked for; and inside a parenthesis, where the
limit leaves room, a list is read one level down. -/
inductive Calls (limits : Limits) : Call → Call → Prop
  | first : Calls limits ⟨.list, depth, text⟩ ⟨.node, depth, text⟩
  | round (read : parseNode limits depth text = .ok (nodes, ',' :: rest)) :
      Calls limits ⟨.list, depth, text⟩ ⟨.list, depth, skipBlanks rest⟩
  | behind (read : readField text = .ok (field, rest)) :
      Calls limits ⟨.node, depth, text⟩ ⟨.related, depth, rest⟩
  | inside (room : depth < limits.maxDepth) (selects : (skipBlanks rest).head? ≠ some ')') :
      Calls limits ⟨.related, depth, '(' :: rest⟩ ⟨.list, depth + 1, skipBlanks rest⟩

/-- What is left of a text that has been read from: a proper suffix, without blanks in front. -/
structure Left (rest text : List Char) : Prop where
  suffix : rest <:+ text
  proper : rest ≠ text
  clean : NoLeadingBlank rest

variable {limits : Limits} {depth : Nat} {text inner rest : List Char} {nodes : List Node}
  {call callee : Call}

/-! ### What is left -/

theorem skipBlanks_suffix (text : List Char) : skipBlanks text <:+ text := List.dropWhile_suffix _

theorem length_lt_of_suffix (suffix : rest <:+ text) (proper : rest ≠ text) :
    rest.length < text.length :=
  Nat.lt_of_le_of_ne suffix.length_le fun same => proper (suffix.eq_of_length same)

namespace Left

theorem length_lt (left : Left rest text) : rest.length < text.length :=
  length_lt_of_suffix left.suffix left.proper

theorem of_suffix (left : Left rest inner) (suffix : inner <:+ text) : Left rest text where
  suffix := left.suffix.trans suffix
  proper same := by
    have shorter := left.length_lt
    have longer := suffix.length_le
    rw [same] at shorter
    omega
  clean := left.clean

/-- Behind a character, blanks are left out. -/
theorem behind {c : Char} (suffix : c :: rest <:+ text) : Left (skipBlanks rest) text where
  suffix := ((skipBlanks_suffix rest).trans (List.suffix_cons c rest)).trans suffix
  proper same := by
    have shorter := (skipBlanks_suffix rest).length_le
    have longer := suffix.length_le
    rw [same] at shorter
    simp only [List.length_cons] at longer
    omega
  clean := noLeadingBlank_skipBlanks rest

theorem trans (left : Left rest inner) (leftInner : Left inner text) : Left rest text :=
  left.of_suffix leftInner.suffix

end Left

theorem left_of_readName {name : String} (read : readName text = .ok (name, rest)) : Left rest text := by
  rw [readName] at read
  split at read
  next word behind found =>
    cases read
    rw [word?] at found
    split at found
    · cases found
    next word begins =>
      cases found
      cases text with
      | nil => exact absurd rfl begins
      | cons c text =>
        -- The first character belongs to the name.
        have inside : isWordChar c = true := by
          by_contra outside
          exact begins (List.takeWhile_cons_of_neg outside)
        rw [List.dropWhile_cons_of_pos inside]
        have rest := (skipBlanks_suffix _).trans (List.dropWhile_suffix (l := text) isWordChar)
        have shorter := rest.length_le
        refine ⟨rest.trans (List.suffix_cons c text), fun same => ?_, noLeadingBlank_skipBlanks _⟩
        rw [same] at shorter
        simp only [List.length_cons] at shorter
        omega
  · cases read

/-- What is read behind the key of a field leaves a text as good as it found it, or less of it. -/
theorem left_or_eq_of_readHint {key source : String} {field : Field}
    (read : readHint key source text = .ok (field, rest)) : rest = text ∨ Left rest text := by
  rw [readHint.eq_def] at read
  split at read
  next behind =>
    obtain ⟨pair, named, same⟩ := map_eq_ok_iff.mp read
    cases same
    exact .inr ((left_of_readName named).trans (.behind List.suffix_rfl))
  · cases read
    exact .inl rfl

theorem left_or_eq_of_readSource {key : String} {field : Field}
    (read : readSource key text = .ok (field, rest)) : rest = text ∨ Left rest text := by
  rw [readSource.eq_def] at read
  split at read
  next behind =>
    split at read
    next source further named =>
      have left : Left further (':' :: behind) := (left_of_readName named).trans (.behind List.suffix_rfl)
      rcases left_or_eq_of_readHint read with rfl | less
      · exact .inr left
      · exact .inr (less.trans left)
    · cases read
  · cases read
    exact .inl rfl

theorem left_of_readField {field : Field} (read : readField text = .ok (field, rest)) :
    Left rest text := by
  rw [readField] at read
  split at read
  next key behind named =>
    rcases left_or_eq_of_readSource read with rfl | less
    · exact left_of_readName named
    · exact less.trans (left_of_readName named)
  · cases read

theorem eq_of_parseEmbedded_absent (returned : parseEmbedded limits depth text = .ok (.absent rest)) :
    rest = text := by
  cases text with
  | nil =>
    cases returned
    rfl
  | cons c text =>
    by_cases opening : c = '('
    · subst opening
      rw [parseEmbedded] at returned
      split at returned
      · cases returned
      · split at returned <;> cases returned
    · rw [parseEmbedded_absent (by simpa using opening)] at returned
      cases returned
      rfl

/-- Each production leaves less of a text than it was given. -/
structure LeavesLess (limits : Limits) (text : List Char) : Prop where
  node : ∀ {depth nodes rest}, parseNode limits depth text = .ok (nodes, rest) → Left rest text
  list : ∀ {depth nodes rest}, parseNodes limits depth text = .ok (nodes, rest) → Left rest text
  related : ∀ {depth nodes rest}, parseEmbedded limits depth text = .ok (.present nodes rest) →
    Left rest text

theorem LeavesLess.left_or_eq_of_readRelated (less : LeavesLess limits text) {field : Field}
    (read : readRelated limits depth field text = .ok (nodes, rest)) : rest = text ∨ Left rest text := by
  rw [readRelated] at read
  split at read
  · cases read
  next children further embedded =>
    cases read
    exact .inr (less.related embedded)
  next further absent _ =>
    cases read
    exact .inl (eq_of_parseEmbedded_absent absent)
  · cases read

section

-- What a production calls, it calls for a shorter text.
variable (shorter : ∀ inner : List Char, inner.length < text.length → LeavesLess limits inner)
include shorter

theorem left_of_parseNode (returned : parseNode limits depth text = .ok (nodes, rest)) :
    Left rest text := by
  cases text with
  | nil => cases returned
  | cons c text =>
    by_cases star : c = '*'
    · subst star
      rw [parseNode_wildcard] at returned
      cases returned
      exact .behind List.suffix_rfl
    rw [parseNode_field star] at returned
    split at returned
    next field behind read =>
      have left := left_of_readField read
      rcases (shorter behind left.length_lt).left_or_eq_of_readRelated returned with rfl | less
      · exact left
      · exact less.trans left
    · cases returned

theorem left_of_parseNodes (returned : parseNodes limits depth text = .ok (nodes, rest)) :
    Left rest text := by
  rw [parseNodes_eq] at returned
  split at returned
  next before behind read =>
    have left : Left (skipBlanks behind) text := .behind (left_of_parseNode shorter read).suffix
    obtain ⟨pair, others, same⟩ := map_eq_ok_iff.mp returned
    cases same
    exact ((shorter _ left.length_lt).list others).trans left
  · exact left_of_parseNode shorter returned

theorem left_of_parseEmbedded (returned : parseEmbedded limits depth text = .ok (.present nodes rest)) :
    Left rest text := by
  cases text with
  | nil => cases returned
  | cons c text =>
    by_cases opening : c = '('
    · subst opening
      have left : Left (skipBlanks text) ('(' :: text) := .behind List.suffix_rfl
      rw [parseEmbedded_cons] at returned
      split at returned
      · cases returned
      split at returned
      · cases returned
      split at returned
      next inner further read =>
        cases returned
        have list := (shorter _ left.length_lt).list read
        exact .behind (list.suffix.trans left.suffix)
      · cases returned
      · cases returned
    · rw [parseEmbedded_absent (by simpa using opening)] at returned
      cases returned

end

theorem leavesLess (limits : Limits) (text : List Char) : LeavesLess limits text := by
  induction length : text.length using Nat.strongRecOn generalizing text with
  | ind n ih =>
    have shorter (inner : List Char) (less : inner.length < text.length) : LeavesLess limits inner :=
      ih inner.length (length ▸ less) inner rfl
    exact ⟨left_of_parseNode shorter, left_of_parseNodes shorter, left_of_parseEmbedded shorter⟩

/-! ### Calls -/

theorem left_of_outcome (returned : call.outcome limits = .ok (.present nodes rest)) :
    Left rest call.text := by
  obtain ⟨production, depth, text⟩ := call
  have less := leavesLess limits text
  cases production with
  | node =>
    obtain ⟨pair, read, same⟩ := map_eq_ok_iff.mp returned
    cases same
    exact less.node read
  | list =>
    obtain ⟨pair, read, same⟩ := map_eq_ok_iff.mp returned
    cases same
    exact less.list read
  | related => exact less.related returned

theorem eq_of_outcome_absent (returned : call.outcome limits = .ok (.absent rest)) :
    rest = call.text := by
  obtain ⟨production, depth, text⟩ := call
  cases production with
  | node =>
    obtain ⟨pair, -, same⟩ := map_eq_ok_iff.mp returned
    cases same
  | list =>
    obtain ⟨pair, -, same⟩ := map_eq_ok_iff.mp returned
    cases same
  | related => exact eq_of_parseEmbedded_absent returned

section

-- A call goes by nothing but the calls that it makes.
variable {returns : Call → Except ParseError Embedded}

private theorem descend_node_eq_outcome
    (agrees : ∀ callee, Calls limits ⟨.node, depth, text⟩ callee → returns callee = callee.outcome limits) :
    (Call.mk .node depth text).descend limits returns = (Call.mk .node depth text).outcome limits := by
  cases text with
  | nil => rfl
  | cons c text =>
    by_cases star : c = '*'
    · subst star
      rw [Call.descend, Call.outcome, parseNode_wildcard]
      rfl
    have outcome : (Call.mk .node depth (c :: text)).outcome limits =
        (parseNode limits depth (c :: text)).map fun (nodes, rest) => .present nodes rest := rfl
    rw [outcome, parseNode_field star, Call.descend]
    · cases read : readField (c :: text) with
      | error error => rfl
      | ok pair =>
        obtain ⟨field, rest⟩ := pair
        have related : returns ⟨.related, depth, rest⟩ = parseEmbedded limits depth rest :=
          agrees _ (.behind read)
        simp only [related, readRelated]
        cases parseEmbedded limits depth rest with
        | error error => rfl
        | ok embedded =>
          cases embedded with
          | present children rest => rfl
          | absent rest => cases field.hint <;> rfl
    · simp
    · simpa using star

private theorem descend_list_eq_outcome
    (agrees : ∀ callee, Calls limits ⟨.list, depth, text⟩ callee → returns callee = callee.outcome limits) :
    (Call.mk .list depth text).descend limits returns = (Call.mk .list depth text).outcome limits := by
  have node := agrees _ .first
  rw [Call.descend, node]
  simp only [Call.outcome]
  rw [parseNodes_eq]
  cases read : parseNode limits depth text with
  | error error => rfl
  | ok pair =>
    obtain ⟨nodes, rest⟩ := pair
    by_cases comma : rest.head? = some ','
    · obtain ⟨rest, rfl⟩ := List.head?_eq_some_iff.mp comma
      have round := agrees _ (.round read)
      simp only [Except.map, round, Call.outcome]
      cases parseNodes limits depth (skipBlanks rest) <;> rfl
    · cases rest with
      | nil => rfl
      | cons c rest =>
        have other : c ≠ ',' := fun same => comma (by rw [same]; rfl)
        simp [Except.map, other]

private theorem descend_related_eq_outcome
    (agrees : ∀ callee, Calls limits ⟨.related, depth, text⟩ callee →
      returns callee = callee.outcome limits) :
    (Call.mk .related depth text).descend limits returns =
      (Call.mk .related depth text).outcome limits := by
  cases text with
  | nil => rfl
  | cons c text =>
    by_cases opening : c = '('
    · subst opening
      rw [Call.descend, Call.outcome, parseEmbedded_cons]
      by_cases deep : limits.maxDepth ≤ depth
      · rw [if_pos deep, if_pos deep]
      rw [if_neg deep, if_neg deep]
      by_cases closing : (skipBlanks text).head? = some ')'
      · rw [if_pos closing, if_pos closing]
      rw [if_neg closing, if_neg closing, agrees _ (.inside (Nat.lt_of_not_le deep) closing)]
      simp only [Call.outcome]
      cases parseNodes limits (depth + 1) (skipBlanks text) with
      | error error => rfl
      | ok pair =>
        obtain ⟨nodes, rest⟩ := pair
        simp only [Except.map]
        split <;> simp_all
    · have absent : (Call.mk .related depth (c :: text)).outcome limits = .ok (.absent (c :: text)) :=
        parseEmbedded_absent (by simpa using opening)
      rw [absent, Call.descend]
      simpa using opening

theorem descend_eq_outcome
    (agrees : ∀ callee, Calls limits call callee → returns callee = callee.outcome limits) :
    call.descend limits returns = call.outcome limits := by
  obtain ⟨production, depth, text⟩ := call
  cases production with
  | node => exact descend_node_eq_outcome agrees
  | list => exact descend_list_eq_outcome agrees
  | related => exact descend_related_eq_outcome agrees

end

/-- A related resource, and a list in parentheses or behind a comma, is read from less of the text. -/
theorem Calls.text_shorter (calls : Calls limits call callee)
    (other : callee.production = .related ∨ callee.production = .list) :
    callee.text <:+ call.text ∧ callee.text ≠ call.text := by
  cases calls with
  | first => rcases other with related | list <;> contradiction
  | @round depth text nodes rest read =>
    have left : Left (skipBlanks rest) text := .behind ((leavesLess limits text).node read).suffix
    exact ⟨left.suffix, left.proper⟩
  | behind read => exact ⟨(left_of_readField read).suffix, (left_of_readField read).proper⟩
  | @inside depth rest room selects =>
    have left : Left (skipBlanks rest) ('(' :: rest) := .behind List.suffix_rfl
    exact ⟨left.suffix, left.proper⟩

/-- A node is read from all of the text, as the first one of a list. -/
theorem Calls.eq_first (calls : Calls limits call callee) (node : callee.production = .node) :
    call.production = .list ∧ callee = ⟨.node, call.depth, call.text⟩ := by
  cases calls with
  | first => exact ⟨rfl, rfl⟩
  | round read | behind read | inside room selects => contradiction

/-- Twice the length of the text, and one more for a list, whose first node has the same text. -/
def Call.size (call : Call) : Nat :=
  2 * call.text.length + if call.production = .list then 1 else 0

theorem Calls.size_lt (calls : Calls limits call callee) : callee.size < call.size := by
  have less (other : callee.production = .related ∨ callee.production = .list) :
      callee.text.length < call.text.length := by
    obtain ⟨suffix, proper⟩ := calls.text_shorter other
    exact length_lt_of_suffix suffix proper
  cases production : callee.production with
  | node =>
    obtain ⟨list, rfl⟩ := calls.eq_first production
    simp [Call.size, list]
  | list =>
    have shorter := less (.inr production)
    simp only [Call.size]
    split <;> split <;> omega
  | related =>
    have shorter := less (.inl production)
    simp only [Call.size]
    split <;> split <;> omega

theorem size_lt_of_transGen (calls : Relation.TransGen (Calls limits) call callee) :
    callee.size < call.size := by
  induction calls with
  | single made => exact made.size_lt
  | tail _ made ih => exact made.size_lt.trans ih

theorem wellFounded_calls (limits : Limits) :
    WellFounded fun callee call => Calls limits call callee :=
  Subrelation.wf (fun made => Calls.size_lt made) (measure Call.size).wf

theorem Calls.depth_le (calls : Calls limits call callee) (low : call.depth ≤ limits.maxDepth) :
    callee.depth ≤ limits.maxDepth := by
  cases calls with
  | first => exact low
  | round read => exact low
  | behind read => exact low
  | inside room selects => exact room

theorem depth_le_of_reflTransGen (calls : Relation.ReflTransGen (Calls limits) call callee)
    (low : call.depth ≤ limits.maxDepth) : callee.depth ≤ limits.maxDepth := by
  induction calls with
  | refl => exact low
  | tail _ made ih => exact made.depth_le ih

theorem parse_eq_parseNodes (limits : Limits) (query : String) :
    parse limits query =
      if limits.maxLength < query.utf8ByteSize then
        .error (.inputTooLong query.utf8ByteSize limits.maxLength)
      else
        match parseNodes limits 0 (skipBlanks query.toList) with
        | .ok (nodes, []) => .ok nodes
        | .ok (_, rest) => .error (.trailingInput (.ofList rest))
        | .error error => .error error := by
  rewrite [parse, parseNodes, if_neg (noLeadingBlank_skipBlanks _).not_any, scan_skipBlanks]
  rfl

/-- Reading by productions makes progress. What a call comes to is what its production makes of the calls
that it makes. What it leaves of its text when it succeeds is a proper suffix without blanks in front, or
all of the text if there is no related resource. What it calls for a related resource, for a list in
parentheses or for a further round of a list works on a proper suffix of its text; only the first node of a
list has all of the list's text. Where calls lead to the same production again, the text is shorter. From a
level within the limit they lead to such levels only; so if the limit is a 64-bit word, the level
that a list inside a parenthesis is read at is one, too. No chain of calls goes on for ever, and a query
is a first call for a list, with blanks left out. -/
theorem parse_descends (limits : Limits) :
    (∀ (call : Call) (returns : Call → Except ParseError Embedded),
      (∀ callee, Calls limits call callee → returns callee = callee.outcome limits) →
      call.descend limits returns = call.outcome limits) ∧
    (∀ (call : Call) (nodes : List Node) (rest : List Char),
      call.outcome limits = .ok (.present nodes rest) →
      rest <:+ call.text ∧ rest ≠ call.text ∧ ∀ c ∈ rest.head?, isBlank c = false) ∧
    (∀ (call : Call) (rest : List Char), call.outcome limits = .ok (.absent rest) → rest = call.text) ∧
    (∀ call callee : Call, Calls limits call callee →
      callee.production = .related ∨ callee.production = .list →
      callee.text <:+ call.text ∧ callee.text ≠ call.text) ∧
    (∀ call callee : Call, Calls limits call callee → callee.production = .node →
      call.production = .list ∧ callee = ⟨.node, call.depth, call.text⟩) ∧
    (∀ call callee : Call, Relation.TransGen (Calls limits) call callee →
      callee.production = call.production → callee.text.length < call.text.length) ∧
    (∀ call callee : Call, call.depth ≤ limits.maxDepth →
      Relation.ReflTransGen (Calls limits) call callee → callee.depth ≤ limits.maxDepth ∧
      (limits.maxDepth < 2 ^ 64 → ∀ opened, Calls limits callee opened → opened.depth < 2 ^ 64)) ∧
    (WellFounded fun callee call => Calls limits call callee) ∧
    ∀ query : String, parse limits query =
      if limits.maxLength < query.utf8ByteSize then
        .error (.inputTooLong query.utf8ByteSize limits.maxLength)
      else
        match parseNodes limits 0 (skipBlanks query.toList) with
        | .ok (nodes, []) => .ok nodes
        | .ok (_, rest) => .error (.trailingInput (.ofList rest))
        | .error error => .error error := by
  refine ⟨fun _ _ => descend_eq_outcome, fun call nodes rest returned => ?_,
    fun _ _ => eq_of_outcome_absent, fun _ _ => Calls.text_shorter, fun _ _ => Calls.eq_first,
    fun call callee calls same => ?_,
    fun call callee low calls => ?_, wellFounded_calls limits, parse_eq_parseNodes limits⟩
  · have left := left_of_outcome returned
    exact ⟨left.suffix, left.proper, left.clean⟩
  · have smaller := size_lt_of_transGen calls
    simp only [Call.size, same] at smaller
    omega
  · have within := depth_le_of_reflTransGen calls low
    exact ⟨within, fun word opened made => (made.depth_le within).trans_lt word⟩

/-- Two rounds of a list and one level down, in a text that is not closed, within the widest limit. -/
theorem parse_descends_unclosed :
    let limits : Limits := ⟨2 ^ 64 - 1, 65536⟩
    let list : Call := ⟨.list, 0, "a, b(c".toList⟩
    let node : Call := ⟨.node, 0, "a, b(c".toList⟩
    let related : Call := ⟨.related, 0, ", b(c".toList⟩
    let opening : Call := ⟨.related, 0, "(c".toList⟩
    let inner : Call := ⟨.list, 1, "c".toList⟩
    list.descend limits (Call.outcome limits) = list.outcome limits ∧
    list.outcome limits = .error (.expectedCloseParen "") ∧
    node.outcome limits = .ok (.present [.column (.plain "a")] ", b(c".toList) ∧
    ", b(c".toList <:+ node.text ∧
    related.outcome limits = .ok (.absent ", b(c".toList) ∧
    Calls limits opening inner ∧ inner.text <:+ opening.text ∧ inner.text ≠ opening.text ∧
    Relation.TransGen (Calls limits) list inner ∧
    inner.text.length < list.text.length ∧ inner.depth ≤ limits.maxDepth ∧
    ∀ opened, Calls limits inner opened → opened.depth < 2 ^ 64 := by
  intro limits list node related opening inner
  obtain ⟨agree, left, absent, shorter, start, nested, bounded, -, -⟩ := parse_descends limits
  have first : node.outcome limits = .ok (.present [.column (.plain "a")] ", b(c".toList) := by rfl
  have nothing : related.outcome limits = .ok (.absent ", b(c".toList) := by rfl
  have round : Calls limits list ⟨.list, 0, "b(c".toList⟩ :=
    @Calls.round limits 0 "a, b(c".toList [.column (.plain "a")] " b(c".toList rfl
  have second : Calls limits ⟨.list, 0, "b(c".toList⟩ ⟨.node, 0, "b(c".toList⟩ := .first
  have behind : Calls limits ⟨.node, 0, "b(c".toList⟩ opening :=
    @Calls.behind limits "b(c".toList (.plain "b") "(c".toList 0 rfl
  have inside : Calls limits opening inner := .inside (by decide) (by decide)
  have strict := shorter opening inner inside (.inr rfl)
  have chain : Relation.TransGen (Calls limits) list inner :=
    (((Relation.TransGen.single round).tail second).tail behind).tail inside
  have within := bounded list inner (Nat.zero_le _) chain.to_reflTransGen
  exact ⟨agree list _ fun _ _ => rfl, by rfl, first, (left node _ _ first).1,
    nothing, inside, strict.1, strict.2, chain, nested list inner chain rfl, within.1, within.2 (by decide)⟩

end SelectShape
