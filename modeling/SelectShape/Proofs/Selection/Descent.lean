import SelectShape.Proofs.Selection.Joined

/-!
# Reading by productions

A reader keeps the related resources that are open on a stack. What it returns is what the productions of
the grammar return that call each other: a list calls a node and, behind a comma, goes on with another
round; a node calls for a related resource behind its field; and a related resource calls a list one level
down. Main statements: the three functions that read from the front of a text satisfy these equations.
-/
namespace SelectShape

/-- The name at the front of a text, and what follows it and blanks. -/
def readName (text : List Char) : Except ParseError (String × List Char) :=
  match word? text with
  | some (name, rest) => .ok (.ofList name, skipBlanks rest)
  | none => .error (.expectedIdentifier (.ofList text))

/-- What stands behind `key:source`: a hint, or nothing of the field. -/
def readHint (key source : String) (text : List Char) : Except ParseError (Field × List Char) :=
  match text with
  | '!' :: rest => (readName (skipBlanks rest)).map fun (hint, rest) => (⟨key, source, some hint⟩, rest)
  | rest => .ok (.renamed key source, rest)

/-- What stands behind `key`: the source of the field, or nothing of it. -/
def readSource (key : String) (text : List Char) : Except ParseError (Field × List Char) :=
  match text with
  | ':' :: rest =>
    match readName (skipBlanks rest) with
    | .ok (source, rest) => readHint key source rest
    | .error error => .error error
  | rest => .ok (.plain key, rest)

/-- The field at the front of a text, `key`, `key:source` or `key:source!hint`, and what follows it and
blanks. -/
def readField (text : List Char) : Except ParseError (Field × List Char) :=
  match readName text with
  | .ok (key, rest) => readSource key rest
  | .error error => .error error

/-- What a field and the text behind it come to: a related resource if one begins there, which a hint asks
for, and else a column. -/
def readRelated (limits : Limits) (depth : Nat) (field : Field) (text : List Char) :
    Except ParseError (List Node × List Char) :=
  match parseEmbedded limits depth text, field.hint with
  | .error error, _ => .error error
  | .ok (.present children rest), _ => .ok ([.embed field children], rest)
  | .ok (.absent rest), none => .ok ([.column field], rest)
  | .ok (.absent rest), some _ => .error (.missingEmbedding (.ofList rest))

/-- A text that does not begin with a blank. -/
def NoLeadingBlank (text : List Char) : Prop := ∀ c ∈ text.head?, isBlank c = false

variable {limits : Limits} {base depth : Nat} {goal : Goal} {text rest : List Char} {nodes : List Node}

/-! ### The front of a text -/

theorem noLeadingBlank_cons {c : Char} : NoLeadingBlank (c :: text) ↔ isBlank c = false := by
  simp [NoLeadingBlank]

theorem NoLeadingBlank.not_any (clean : NoLeadingBlank text) : ¬ text.head?.any isBlank = true := by
  cases text with
  | nil => simp
  | cons c text => simp [noLeadingBlank_cons.mp clean]

theorem noLeadingBlank_skipBlanks (text : List Char) : NoLeadingBlank (skipBlanks text) := by
  intro c first
  have stopped := List.head?_dropWhile_not isBlank text
  rw [skipBlanks] at first
  simpa [Option.mem_def.mp first] using stopped

theorem skipBlanks_eq_self (clean : NoLeadingBlank text) : skipBlanks text = text := by
  cases text with
  | nil => rfl
  | cons c text =>
    exact List.dropWhile_cons_of_neg (by simp [noLeadingBlank_cons.mp clean])

theorem scan_skipBlanks (text : List Char) : scan false (skipBlanks text) = scan false text := by
  induction text with
  | nil => rfl
  | cons c text ih =>
    by_cases blank : isBlank c = true
    · have outside := isWordChar_of_isBlank blank
      rw [skipBlanks, List.dropWhile_cons_of_pos blank, ← skipBlanks, ih]
      simp [scan, outside, blank]
    · rw [skipBlanks, List.dropWhile_cons_of_neg blank]

theorem scan_of_word? {word : List Char} (read : word? text = some (word, rest)) :
    scan false text = ⟨.word (.ofList word), text⟩ :: scan false rest := by
  cases text with
  | nil => cases read
  | cons c text =>
    by_cases inside : isWordChar c = true
    · simp only [word?, List.takeWhile_cons_of_pos inside, List.dropWhile_cons_of_pos inside,
        Option.some.injEq, Prod.mk.injEq] at read
      obtain ⟨rfl, rfl⟩ := read
      simp [scan, inside, scan_within]
    · simp only [word?, List.takeWhile_cons_of_neg inside] at read
      cases read

theorem scan_of_mark {c : Char} (none : word? (c :: text) = none) (visible : isBlank c = false) :
    scan false (c :: text) = ⟨.mark c, c :: text⟩ :: scan false text := by
  have outside : isWordChar c = false := by
    by_contra inside
    simp only [Bool.not_eq_false] at inside
    simp [word?, List.takeWhile_cons_of_pos inside] at none
  simp [scan, outside, visible]

theorem word?_eq_none_of_mark {c : Char} (outside : isWordChar c = false) : word? (c :: text) = none := by
  simp [word?, outside]

/-- Where no parenthesis opens there is no related resource. -/
theorem parseEmbedded_absent (other : text.head? ≠ some '(') :
    parseEmbedded limits depth text = .ok (.absent text) := by
  rw [parseEmbedded.eq_def]
  split
  · exact absurd rfl other
  · rfl

namespace Reader

/-! ### Readers that stop -/

/-- A reader that stops at the next token, whatever it is, leaves the text from there on. -/
theorem run_of_stop {reader : Reader} (finished : reader.finish = .ok nodes)
    (stops : ∀ next ∈ (scan false text).head?, step limits base goal reader next = .stop) :
    run limits base goal reader (scan false text) = .ok (nodes, skipBlanks text) := by
  rw [← scan_skipBlanks] at stops ⊢
  have clean := noLeadingBlank_skipBlanks text
  cases visible : skipBlanks text with
  | nil => simp [scan, run, finished, Except.map]
  | cons c more =>
    rw [visible] at clean stops
    have located : ∃ token others, scan false (c :: more) = ⟨token, c :: more⟩ :: others := by
      cases read : word? (c :: more) with
      | none => exact ⟨_, _, scan_of_mark read (noLeadingBlank_cons.mp clean)⟩
      | some pair => exact ⟨_, _, scan_of_word? read⟩
    obtain ⟨token, others, scanned⟩ := located
    rw [scanned] at stops ⊢
    have stop := stops ⟨token, c :: more⟩ rfl
    simp [run, stop, finished, Except.map]

/-- After a node, a token that leads on inside it aside, it is the lists around the node that decide. -/
theorem step_eq_afterNode {place : Place} {node : Node} {frames : List Frame} {next : Located}
    (ended : place.node? = some node)
    (rename : ∀ key, place = .named key → next.token ≠ .mark ':')
    (hint : ∀ key source, place = .renamed key source → next.token ≠ .mark '!')
    (related : ∀ field, place.field? = some field → next.token ≠ .mark '(') :
    step limits base goal ⟨frames, nodes, place⟩ next =
      afterNode goal ⟨frames, nodes, place⟩ node next := by
  obtain ⟨token, text⟩ := next
  cases place.meets token with
  | inside after moves steps =>
    cases @moves limits base goal [] [] with
    | wildcard fresh | name fresh => rcases fresh with rfl | rfl <;> cases ended
    | rename => exact absurd rfl (rename _ rfl)
    | bang => exact absurd rfl (hint _ _ rfl)
    | original | hint => cases ended
  | hollow opened closing steps =>
    subst opened
    cases ended
  | opening field opens parenthesis steps => exact absurd parenthesis (related field opens)
  | behind node again steps =>
    cases ended.symm.trans again
    exact steps
  | wrong unfinished steps => cases unfinished.symm.trans ended

theorem afterNode_of_node (node : Node) (place : Place) (next : Located) :
    afterNode .node ⟨[], nodes, place⟩ node next = .stop := by
  obtain ⟨token, text⟩ := next
  simp only [afterNode]
  split <;> simp_all

/-! ### Within a related resource -/

/-- The reader with one more related resource open around everything that it has read. -/
def inside (frame : Frame) (reader : Reader) : Reader :=
  { reader with frames := reader.frames ++ [frame] }

/-- What a token does that is not part of the select list of a related resource: a parenthesis ends it. -/
def close (frame : Frame) (reader : Reader) (next : Located) : Step :=
  match reader.finish with
  | .ok nodes =>
    if next.token = .mark ')' then
      .next ⟨[], frame.before, .complete (.embed frame.field nodes)⟩
    else .fail (.expectedCloseParen (.ofList next.text))
  | .error error => .fail error

/-- Opening a list never stops reading, so nothing need be said of that. -/
theorem openList_inside (frame : Frame) (reader : Reader) (field : Field) (stopped : Step) :
    openList limits base (reader.inside frame) field =
      match openList limits (base + 1) reader field with
      | .next after => .next (after.inside frame)
      | .stop => stopped
      | .fail error => .fail error := by
  have level : base + (reader.inside frame).frames.length = base + 1 + reader.frames.length := by
    simp only [inside, List.length_append, List.length_singleton]
    omega
  rw [openList, openList, level]
  by_cases deep : limits.maxDepth ≤ base + 1 + reader.frames.length
  · rw [if_pos deep, if_pos deep]
  · rw [if_neg deep, if_neg deep]
    rfl

theorem afterNode_inside (frame : Frame) {reader : Reader} {node : Node}
    (ended : reader.place.node? = some node) (next : Located) :
    afterNode goal (reader.inside frame) node next =
      match afterNode .list reader node next with
      | .next after => .next (after.inside frame)
      | .stop => reader.close frame next
      | .fail error => .fail error := by
  obtain ⟨frames, nodes, place⟩ := reader
  obtain ⟨token, text⟩ := next
  cases frames with
  | nil =>
    have finished : (Reader.mk [] nodes place).finish = .ok (node :: nodes).reverse :=
      finish_eq_ok_iff.mpr ⟨node, ended, rfl, rfl⟩
    rcases token with name | symbol
    · simp [afterNode, inside, close, finished]
    by_cases comma : symbol = ','
    · subst comma
      simp [afterNode, inside]
    by_cases closing : symbol = ')'
    · subst closing
      simp [afterNode, inside, close, finished]
    · simp [afterNode, inside, close, finished, comma, closing]
  | cons outer frames =>
    rcases token with name | symbol
    · rfl
    by_cases comma : symbol = ','
    · subst comma
      rfl
    by_cases closing : symbol = ')'
    · subst closing
      rfl
    · simp [afterNode, inside, comma, closing]

/-- Within a related resource a token does what it does one level further down, and ends the resource where
reading stops there. -/
theorem step_inside (frame : Frame) (reader : Reader) (next : Located) :
    step limits base goal (reader.inside frame) next =
      match step limits (base + 1) .list reader next with
      | .next after => .next (after.inside frame)
      | .stop => reader.close frame next
      | .fail error => .fail error := by
  have within : reader.inside frame = ⟨reader.frames ++ [frame], reader.nodes, reader.place⟩ := rfl
  cases reader.place.meets next.token with
  | inside place moves steps =>
    rw [within, steps, steps]
    rfl
  | hollow opened closing steps =>
    rw [within, steps, steps]
  | opening field opens parenthesis steps =>
    rw [within, steps, steps]
    exact openList_inside frame reader field (reader.close frame next)
  | behind node ended steps =>
    rw [within, steps, steps]
    exact afterNode_inside frame ended next
  | wrong unfinished steps =>
    rw [within, steps, steps]

theorem finish_inside (frame : Frame) (reader : Reader) :
    (reader.inside frame).finish =
      match reader.finish with
      | .ok _ => .error (.expectedCloseParen "")
      | .error error => .error error := by
  obtain ⟨frames, nodes, place⟩ := reader
  cases frames with
  | nil => cases place <;> rfl
  | cons outer frames => cases place <;> rfl

/-- Reading within a related resource is reading its select list one level further down, up to the
parenthesis that ends it, and going on behind it. -/
theorem run_inside (frame : Frame) (reader : Reader) (inWord : Bool) (text : List Char) :
    run limits base goal (reader.inside frame) (scan inWord text) =
      match run limits (base + 1) .list reader (scan inWord text) with
      | .ok (nodes, ')' :: rest) =>
        run limits base goal ⟨[], frame.before, .complete (.embed frame.field nodes)⟩ (scan false rest)
      | .ok (_, rest) => .error (.expectedCloseParen (.ofList rest))
      | .error error => .error error := by
  fun_induction scan inWord text generalizing reader with
  | case1 =>
    rw [run, run, finish_inside]
    cases reader.finish <;> rfl
  | case2 c rest inside ih => exact ih reader
  | case3 inWord c rest word outer ih =>
    rw [run, run, step_inside]
    cases step limits (base + 1) .list reader
        ⟨.word (.ofList (c :: rest.takeWhile isWordChar)), c :: rest⟩ with
    | next after => exact ih after
    | fail error => rfl
    | stop =>
      have other : c ≠ ')' := by
        rintro rfl
        cases word
      rw [close]
      cases reader.finish with
      | error error => rfl
      | ok nodes => simp [Except.map, other]
  | case4 inWord c rest outside blank ih => exact ih reader
  | case5 inWord c rest outside visible ih =>
    rw [run, run, step_inside]
    cases step limits (base + 1) .list reader ⟨.mark c, c :: rest⟩ with
    | next after => exact ih after
    | fail error => rfl
    | stop =>
      rw [close]
      cases reader.finish with
      | error error => rfl
      | ok nodes =>
        by_cases closing : c = ')'
        · subst closing
          rfl
        · simp [Except.map, closing]

/-! ### Rounds of a list -/

/-- What a token does where a list is read, by what it does where a single node is: if that ends there, a
comma asks for another one. -/
def round (reader : Reader) (next : Located) : Step → Step
  | .stop =>
    match next.token, reader.finish with
    | .mark ',', .ok nodes => .next ⟨[], nodes.reverse, .start⟩
    | _, _ => .stop
  | other => other

theorem afterNode_list {reader : Reader} {node : Node} (ended : reader.place.node? = some node)
    (next : Located) :
    afterNode .list reader node next = reader.round next (afterNode .node reader node next) := by
  obtain ⟨frames, nodes, place⟩ := reader
  obtain ⟨token, text⟩ := next
  cases frames with
  | nil =>
    have finished : (Reader.mk [] nodes place).finish = .ok (node :: nodes).reverse :=
      finish_eq_ok_iff.mpr ⟨node, ended, rfl, rfl⟩
    rcases token with name | symbol
    · simp [afterNode, round]
    by_cases comma : symbol = ','
    · subst comma
      simp [afterNode, round, finished]
    · simp [afterNode, round, comma]
  | cons outer frames =>
    rcases token with name | symbol
    · rfl
    by_cases comma : symbol = ','
    · subst comma
      rfl
    by_cases closing : symbol = ')'
    · subst closing
      rfl
    · simp [afterNode, round, comma, closing]

theorem step_list (reader : Reader) (next : Located) :
    step limits base .list reader next = reader.round next (step limits base .node reader next) := by
  obtain ⟨frames, nodes, place⟩ := reader
  obtain ⟨token, text⟩ := next
  cases place.meets token with
  | inside place moves steps =>
    rw [steps, steps]
    rfl
  | hollow opened closing steps =>
    rw [steps, steps]
    rfl
  | opening field opens parenthesis steps =>
    rw [steps, steps, openList]
    split <;> rfl
  | behind node ended steps =>
    rw [steps, steps]
    exact afterNode_list ended _
  | wrong unfinished steps =>
    rw [steps, steps]
    rfl

/-- A list is its first node and, where a comma follows, the list behind that. -/
theorem run_list (reader : Reader) (inWord : Bool) (text : List Char) :
    run limits base .list reader (scan inWord text) =
      match run limits base .node reader (scan inWord text) with
      | .ok (nodes, ',' :: rest) => run limits base .list ⟨[], nodes.reverse, .start⟩ (scan false rest)
      | outcome => outcome := by
  fun_induction scan inWord text generalizing reader with
  | case1 =>
    rw [run, run]
    cases reader.finish <;> rfl
  | case2 c rest inside ih => exact ih reader
  | case3 inWord c rest word outer ih =>
    rw [run, run, step_list]
    cases step limits base .node reader
        ⟨.word (.ofList (c :: rest.takeWhile isWordChar)), c :: rest⟩ with
    | next after => exact ih after
    | fail error => rfl
    | stop =>
      have other : c ≠ ',' := by
        rintro rfl
        cases word
      cases reader.finish with
      | error error => rfl
      | ok nodes => simp [round, Except.map, other]
  | case4 inWord c rest outside blank ih => exact ih reader
  | case5 inWord c rest outside visible ih =>
    rw [run, run, step_list]
    cases step limits base .node reader ⟨.mark c, c :: rest⟩ with
    | next after => exact ih after
    | fail error => rfl
    | stop =>
      cases finished : reader.finish with
      | error error => simp [round, finished, Except.map]
      | ok nodes =>
        by_cases comma : c = ','
        · subst comma
          simp [round, finished, Except.map]
        · simp [round, Except.map, comma]

/-! ### Nodes -/

theorem run_name {place : Place} {next : String → Place} (clean : NoLeadingBlank text)
    (word : ∀ name rest, step limits base goal ⟨[], [], place⟩ ⟨.word name, rest⟩ =
      .next ⟨[], [], next name⟩)
    (mark : ∀ c rest, text = c :: rest → step limits base goal ⟨[], [], place⟩ ⟨.mark c, text⟩ =
      .fail (.expectedIdentifier (.ofList text)))
    (ended : text = [] → (Reader.mk [] [] place).finish = .error (.expectedIdentifier "")) :
    run limits base goal ⟨[], [], place⟩ (scan false text) =
      match readName text with
      | .ok (name, rest) => run limits base goal ⟨[], [], next name⟩ (scan false rest)
      | .error error => .error error := by
  rw [readName]
  cases read : word? text with
  | some pair =>
    obtain ⟨name, rest⟩ := pair
    rw [scan_of_word? read, run, word]
    dsimp only
    rw [scan_skipBlanks]
  | none =>
    cases text with
    | nil => simp [scan, run, ended, Except.map]
    | cons c rest => rw [scan_of_mark read (noLeadingBlank_cons.mp clean), run, mark c rest rfl]

theorem run_related {place : Place} {field : Field} (opens : place.field? = some field)
    (rest : List Char) :
    run limits depth .node ⟨[], [], place⟩ (scan false ('(' :: rest)) =
      readRelated limits depth field ('(' :: rest) := by
  have scanned : scan false ('(' :: rest) = ⟨.mark '(', '(' :: rest⟩ :: scan false rest := rfl
  rw [scanned, run, step_of_field? opens, openList, readRelated, parseEmbedded]
  by_cases deep : limits.maxDepth ≤ depth
  · rw [if_pos (by simpa using deep), if_pos deep]
  rw [if_neg (by simpa using deep), if_neg deep]
  have inner := @run_inside limits depth .node ⟨[], field⟩ ⟨[], [], .opened⟩ false rest
  simp only [inside, List.nil_append] at inner
  dsimp only
  rw [inner]
  cases run limits (depth + 1) .list ⟨[], [], .opened⟩ (scan false rest) with
  | error error => rfl
  | ok pair =>
    obtain ⟨nodes, more⟩ := pair
    by_cases closing : more.head? = some ')'
    · obtain ⟨more, rfl⟩ := List.head?_eq_some_iff.mp closing
      have finished : (Reader.mk [] [] (.complete (.embed field nodes))).finish =
          .ok [.embed field nodes] := rfl
      refine run_of_stop finished fun next _ => ?_
      rw [step_eq_afterNode rfl (by simp) (by simp) (by simp [Place.field?]), afterNode_of_node]
    · cases more with
      | nil => rfl
      | cons c more =>
        have other : c ≠ ')' := fun same => closing (by rw [same]; rfl)
        simp [other]

theorem head?_of_scan {next : Located} {c : Char} (clean : NoLeadingBlank text)
    (first : next ∈ (scan false text).head?) (mark : next.token = .mark c) : text.head? = some c := by
  cases text with
  | nil => cases first
  | cons d rest =>
    cases read : word? (d :: rest) with
    | some pair =>
      rw [scan_of_word? read] at first
      cases first
      cases mark
    | none =>
      rw [scan_of_mark read (noLeadingBlank_cons.mp clean)] at first
      cases first
      cases mark
      rfl

/-- Behind a field without a hint a related resource may follow. -/
theorem run_column {place : Place} {field : Field} (clean : NoLeadingBlank text)
    (opens : place.field? = some field) (ended : place.node? = some (.column field))
    (unhinted : field.hint = none) (rename : ∀ key, place = .named key → text.head? ≠ some ':')
    (hint : ∀ key source, place = .renamed key source → text.head? ≠ some '!') :
    run limits depth .node ⟨[], [], place⟩ (scan false text) = readRelated limits depth field text := by
  by_cases opening : text.head? = some '('
  · obtain ⟨rest, rfl⟩ := List.head?_eq_some_iff.mp opening
    exact run_related opens rest
  · have finished : (Reader.mk [] [] place).finish = .ok [.column field] :=
      finish_eq_ok_iff.mpr ⟨_, ended, rfl, rfl⟩
    rw [readRelated, parseEmbedded_absent opening, unhinted, ← skipBlanks_eq_self clean]
    rw [scan_skipBlanks, skipBlanks_eq_self clean]
    have stopped := @run_of_stop limits depth .node text _ _ finished fun next first => by
      rw [step_eq_afterNode ended, afterNode_of_node]
      · exact fun key named mark => rename key named (head?_of_scan clean first mark)
      · exact fun key source renamed mark => hint key source renamed (head?_of_scan clean first mark)
      · exact fun field opens mark => opening (head?_of_scan clean first mark)
    rw [stopped, skipBlanks_eq_self clean]

/-- Behind a hint a related resource must follow. -/
theorem run_hinted (clean : NoLeadingBlank text) (key source hint : String) :
    run limits depth .node ⟨[], [], .hinted key source hint⟩ (scan false text) =
      readRelated limits depth ⟨key, source, some hint⟩ text := by
  by_cases opening : text.head? = some '('
  · obtain ⟨rest, rfl⟩ := List.head?_eq_some_iff.mp opening
    exact run_related rfl rest
  · rw [readRelated, parseEmbedded_absent opening]
    cases text with
    | nil => rfl
    | cons c rest =>
      cases read : word? (c :: rest) with
      | some pair =>
        rw [scan_of_word? read, run]
        rfl
      | none =>
        have other : c ≠ '(' := fun same => opening (by rw [same]; rfl)
        rw [scan_of_mark read (noLeadingBlank_cons.mp clean), run]
        simp [step, Place.field?, Place.node?, Place.incomplete, other]

theorem noLeadingBlank_of_readName {name : String} (read : readName text = .ok (name, rest)) :
    NoLeadingBlank rest := by
  rw [readName] at read
  split at read
  · cases read
    exact noLeadingBlank_skipBlanks _
  · cases read

theorem run_renamed (clean : NoLeadingBlank text) (key source : String) :
    run limits depth .node ⟨[], [], .renamed key source⟩ (scan false text) =
      match readHint key source text with
      | .ok (field, rest) => readRelated limits depth field rest
      | .error error => .error error := by
  by_cases bang : text.head? = some '!'
  · obtain ⟨rest, rfl⟩ := List.head?_eq_some_iff.mp bang
    have scanned : scan false ('!' :: rest) = ⟨.mark '!', '!' :: rest⟩ :: scan false rest := rfl
    have name := @run_name limits depth .node (skipBlanks rest) (.hinting key source)
      (.hinted key source) (noLeadingBlank_skipBlanks rest) (fun _ _ => rfl) (fun _ _ _ => rfl)
      fun _ => rfl
    rw [scanned, run, ← scan_skipBlanks rest]
    simp only [step]
    rw [name, readHint]
    cases read : readName (skipBlanks rest) with
    | error error => rfl
    | ok pair => exact run_hinted (noLeadingBlank_of_readName read) key source pair.1
  · have absent : readHint key source text = .ok (.renamed key source, text) := by
      rw [readHint.eq_def]
      split
      · exact absurd rfl bang
      · rfl
    rw [absent]
    exact run_column clean rfl rfl rfl (by simp) fun _ _ _ => bang

theorem run_named (clean : NoLeadingBlank text) (key : String) :
    run limits depth .node ⟨[], [], .named key⟩ (scan false text) =
      match readSource key text with
      | .ok (field, rest) => readRelated limits depth field rest
      | .error error => .error error := by
  by_cases colon : text.head? = some ':'
  · obtain ⟨rest, rfl⟩ := List.head?_eq_some_iff.mp colon
    have scanned : scan false (':' :: rest) = ⟨.mark ':', ':' :: rest⟩ :: scan false rest := rfl
    have name := @run_name limits depth .node (skipBlanks rest) (.renaming key) (.renamed key)
      (noLeadingBlank_skipBlanks rest) (fun _ _ => rfl) (fun _ _ _ => rfl) fun _ => rfl
    rw [scanned, run, ← scan_skipBlanks rest]
    simp only [step]
    rw [name, readSource]
    cases read : readName (skipBlanks rest) with
    | error error => rfl
    | ok pair => exact run_renamed (noLeadingBlank_of_readName read) key pair.1
  · have absent : readSource key text = .ok (.plain key, text) := by
      rw [readSource.eq_def]
      split
      · exact absurd rfl colon
      · rfl
    rw [absent]
    exact run_column clean rfl rfl rfl (fun _ _ => colon) (by simp)

end Reader

open Reader

/-- A node that is no wildcard is a field and what follows it. -/
theorem parseNode_field {c : Char} (other : c ≠ '*') :
    parseNode limits depth (c :: text) =
      match readField (c :: text) with
      | .ok (field, rest) => readRelated limits depth field rest
      | .error error => .error error := by
  by_cases visible : isBlank c = false
  · have clean : NoLeadingBlank (c :: text) := noLeadingBlank_cons.mpr visible
    have refuses (d : Char) (rest : List Char) (same : c :: text = d :: rest) :
        step limits depth .node ⟨[], [], .start⟩ ⟨.mark d, c :: text⟩ =
          .fail (.expectedIdentifier (.ofList (c :: text))) := by
      cases same
      simp [step, Place.field?, Place.node?, Place.incomplete, other]
    have name := @run_name limits depth .node (c :: text) .start .named clean (fun _ _ => rfl) refuses
      (by simp)
    rw [parseNode, if_neg clean.not_any, empty, name, readField]
    cases read : readName (c :: text) with
    | error error => rfl
    | ok pair => exact run_named (noLeadingBlank_of_readName read) pair.1
  · have outside := isWordChar_of_isBlank (by simpa using visible)
    have refused : readField (c :: text) = .error (.expectedIdentifier (.ofList (c :: text))) := by
      rw [readField, readName, word?_eq_none_of_mark outside]
    rw [parseNode, if_pos (by simpa using visible), refused]

theorem parseNode_wildcard (rest : List Char) :
    parseNode limits depth ('*' :: rest) = .ok ([.wildcard], skipBlanks rest) := by
  have scanned : scan false ('*' :: rest) = ⟨.mark '*', '*' :: rest⟩ :: scan false rest := rfl
  have clean : NoLeadingBlank ('*' :: rest) := noLeadingBlank_cons.mpr (by decide)
  have finished : (Reader.mk [] [] (.complete .wildcard)).finish = .ok [.wildcard] := rfl
  rw [parseNode, if_neg clean.not_any, scanned, run]
  refine run_of_stop finished fun next _ => ?_
  rw [step_eq_afterNode rfl (by simp) (by simp) (by simp [Place.field?])]
  exact afterNode_of_node _ _ next

/-! ### Lists and related resources -/

/-- A list is a node and, behind a comma, a list. -/
theorem parseNodes_eq (limits : Limits) (depth : Nat) (text : List Char) :
    parseNodes limits depth text =
      match parseNode limits depth text with
      | .ok (nodes, ',' :: rest) =>
        (parseNodes limits depth (skipBlanks rest)).map fun (others, rest) => (nodes ++ others, rest)
      | outcome => outcome := by
  rw [parseNodes, parseNode]
  by_cases blank : text.head?.any isBlank = true
  · rw [if_pos blank, if_pos blank]
  rw [if_neg blank, if_neg blank, run_list]
  cases returned : empty.run limits depth .node (scan false text) with
  | error error => rfl
  | ok pair =>
    obtain ⟨nodes, rest⟩ := pair
    by_cases comma : rest.head? = some ','
    · obtain ⟨rest, rfl⟩ := List.head?_eq_some_iff.mp comma
      have others : parseNodes limits depth (skipBlanks rest) =
          empty.run limits depth .list (scan false rest) := by
        rw [parseNodes, if_neg (noLeadingBlank_skipBlanks rest).not_any, scan_skipBlanks]
      have behind := @run_behind limits depth .list nodes.reverse .empty (scan false rest)
      rw [List.reverse_reverse, ← others] at behind
      exact behind
    · cases rest with
      | nil => rfl
      | cons c rest =>
        have other : c ≠ ',' := fun same => comma (by rw [same]; rfl)
        simp [other]

/-- Directly behind its opening parenthesis a related resource must not end. Else its list begins there. -/
theorem parseEmbedded_cons (limits : Limits) (depth : Nat) (rest : List Char) :
    parseEmbedded limits depth ('(' :: rest) =
      if limits.maxDepth ≤ depth then .error (.nestingTooDeep limits.maxDepth)
      else if (skipBlanks rest).head? = some ')' then .error .emptyEmbedding
      else
        match parseNodes limits (depth + 1) (skipBlanks rest) with
        | .ok (nodes, ')' :: rest) => .ok (.present nodes (skipBlanks rest))
        | .ok (_, rest) => .error (.expectedCloseParen (.ofList rest))
        | .error error => .error error := by
  have clean := noLeadingBlank_skipBlanks rest
  rw [parseEmbedded, parseNodes, if_neg clean.not_any, ← scan_skipBlanks rest]
  generalize skipBlanks rest = inner at clean
  by_cases deep : limits.maxDepth ≤ depth
  · rw [if_pos deep, if_pos deep]
  rw [if_neg deep, if_neg deep]
  by_cases closing : inner.head? = some ')'
  · obtain ⟨rest, rfl⟩ := List.head?_eq_some_iff.mp closing
    rw [if_pos closing]
    rfl
  · -- No other token is told apart by what stands in front of it.
    have same : run limits (depth + 1) .list ⟨[], [], .opened⟩ (scan false inner) =
        empty.run limits (depth + 1) .list (scan false inner) := by
      cases inner with
      | nil => rfl
      | cons c rest =>
        cases read : word? (c :: rest) with
        | some pair =>
          rw [scan_of_word? read]
          rfl
        | none =>
          have other : c ≠ ')' := fun same => closing (by rw [same]; rfl)
          rw [scan_of_mark read (noLeadingBlank_cons.mp clean), run, run]
          by_cases star : c = '*'
          · subst star
            rfl
          · simp [step, empty, Place.field?, Place.node?, Place.incomplete, other, star]
    rewrite [if_neg closing, same]
    rfl

end SelectShape
