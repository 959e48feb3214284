import SelectShape.Proofs.Selection.Parse
import SelectShape.Proofs.Selection.Position

/-!
# Queries put together

A query that is complete has been read up to its end, whatever comes after it. Behind a comma reading
then goes on as if it began there, but for the nodes it has finished, so the query that follows decides
what is returned. In parentheses, one level down, the same tree is read. Main statement: parsing is
compositional over commas and parentheses.
-/
namespace SelectShape

/-- Finished nodes, latest first, with earlier ones before them if no list is open around them. -/
def nodesBehind (earlier : List Node) (outer : List Frame) (nodes : List Node) : List Node :=
  if outer.isEmpty then nodes ++ earlier else nodes

def framesBehind (earlier : List Node) : List Frame → List Frame
  | [] => []
  | frame :: outer =>
    { frame with before := nodesBehind earlier outer frame.before } :: framesBehind earlier outer

/-- The reader as it would be with further nodes, latest first, finished before all that it holds. -/
def Reader.behind (earlier : List Node) (reader : Reader) : Reader where
  frames := framesBehind earlier reader.frames
  nodes := nodesBehind earlier reader.frames reader.nodes
  place := reader.place

def Step.behind (earlier : List Node) : Step → Step
  | .next reader => .next (reader.behind earlier)
  | .stop => .stop
  | .fail error => .fail error

/-- A text spells what may stand before a select list: `key`, `key:source` or `key:source!hint`, with
blanks before, between and after the tokens. -/
def SpellsHead (text : List Char) (field : Field) : Prop :=
  ∃ ts, Spells text ts ∧ DerivesHead ts field

variable {limits : Limits} {base : Nat} {goal : Goal} {earlier nodes : List Node}

/-! ### Behind a comma -/

theorem length_framesBehind (earlier : List Node) (frames : List Frame) :
    (framesBehind earlier frames).length = frames.length := by
  induction frames with
  | nil => rfl
  | cons frame outer ih => rw [framesBehind, List.length_cons, List.length_cons, ih]

theorem nodesBehind_cons (earlier : List Node) (outer : List Frame) (node : Node) (nodes : List Node) :
    nodesBehind earlier outer (node :: nodes) = node :: nodesBehind earlier outer nodes := by
  cases outer <;> rfl

namespace Reader

theorem openList_behind (reader : Reader) (field : Field) :
    openList limits base (reader.behind earlier) field =
      (openList limits base reader field).behind earlier := by
  simp only [openList, behind, length_framesBehind]
  split <;> rfl

theorem afterNode_behind (reader : Reader) (node : Node) (next : Located) :
    afterNode goal (reader.behind earlier) node next =
      (afterNode goal reader node next).behind earlier := by
  obtain ⟨frames, nodes, place⟩ := reader
  obtain ⟨token, text⟩ := next
  rcases token with name | symbol
  · cases frames <;> rfl
  by_cases comma : symbol = ','
  · subst comma
    cases frames with
    | nil =>
      by_cases list : goal = .list <;>
        simp [afterNode, behind, framesBehind, list, Step.behind, nodesBehind_cons]
    | cons frame outer => rfl
  by_cases closing : symbol = ')'
  · subst closing
    cases frames <;> rfl
  · cases frames with
    | nil => simp [afterNode, behind, framesBehind, comma, Step.behind]
    | cons frame outer => simp [afterNode, behind, framesBehind, comma, closing, Step.behind]

theorem step_behind (reader : Reader) (next : Located) :
    step limits base goal (reader.behind earlier) next =
      (step limits base goal reader next).behind earlier := by
  have shifted : reader.behind earlier =
      ⟨framesBehind earlier reader.frames, nodesBehind earlier reader.frames reader.nodes,
        reader.place⟩ := rfl
  cases reader.place.meets next.token with
  | inside place moves steps =>
    rw [shifted, steps, steps]
    rfl
  | hollow opened closing steps =>
    rw [shifted, steps, steps]
    rfl
  | opening field opens parenthesis steps =>
    rw [shifted, steps, steps]
    exact openList_behind reader field
  | behind node ended steps =>
    rw [shifted, steps, steps]
    exact afterNode_behind reader node next
  | wrong unfinished steps =>
    rw [shifted, steps, steps]
    rfl

theorem finish_behind (reader : Reader) :
    (reader.behind earlier).finish = reader.finish.map (earlier.reverse ++ ·) := by
  obtain ⟨frames, nodes, place⟩ := reader
  cases frames with
  | nil =>
    simp only [finish, behind, framesBehind]
    cases place.node? with
    | none => rfl
    | some node => simp [Except.map, nodesBehind]
  | cons frame outer =>
    simp only [finish, behind, framesBehind]
    cases place.node? <;> rfl

/-- Nodes that were finished before come first in the result, and change nothing else. -/
theorem run_behind (reader : Reader) (located : List Located) :
    run limits base goal (reader.behind earlier) located =
      (run limits base goal reader located).map fun (nodes, rest) =>
        (earlier.reverse ++ nodes, rest) := by
  induction located generalizing reader with
  | nil =>
    rw [run, run, finish_behind]
    cases reader.finish <;> rfl
  | cons next rest ih =>
    rw [run, run, step_behind]
    cases step limits base goal reader next with
    | next after => exact ih after
    | stop =>
      simp only [Step.behind, finish_behind]
      cases reader.finish <;> rfl
    | fail error => rfl

end Reader

/-- A complete query is read up to a comma that follows it, and what comes after the comma is read as a
query of its own. -/
theorem run_joined {first : List Char} (second : List Char)
    (read : Reader.empty.run limits 0 .list (scan false first) = .ok (nodes, [])) :
    Reader.empty.run limits 0 .list (scan false (first ++ ',' :: second)) =
      (Reader.empty.run limits 0 .list (scan false second)).map
        fun (others, rest) => (nodes ++ others, rest) := by
  have texts (next : Located) (member : next ∈ scan false first) : next.text ≠ [] :=
    (located_of_mem_scan false first next member).2
  obtain ⟨after, runs, finished⟩ := (Reader.run_eq_ok_nil_iff texts).mp read
  obtain ⟨node, ended, closed, same⟩ := Reader.finish_eq_ok_iff.mp finished
  obtain ⟨frames, before, place⟩ := after
  obtain rfl : frames = [] := closed
  -- The comma is a mark, so the last word of the first query ends where it did.
  have parted : Parted false first (',' :: second) := by
    intro _ c head
    obtain rfl : ',' = c := by simpa using head
    decide
  obtain ⟨located, scanned, tokensSame⟩ := exists_scan_append parted
  have comma : scan false (',' :: second) = ⟨.mark ',', ',' :: second⟩ :: scan false second := rfl
  have between : Reader.step limits 0 .list ⟨[], before, place⟩ ⟨.mark ',', ',' :: second⟩ =
      .next (Reader.empty.behind (node :: before)) :=
    Reader.step_eq_next_iff.mpr (.comma ended fun _ => rfl)
  rw [← tokensSame] at runs
  rw [scanned, Reader.run_of_runs _ runs, comma, Reader.run, between]
  dsimp only
  rw [Reader.run_behind, same]

theorem parse_append_comma {first second : String} (accepted : parse limits first = .ok nodes)
    (short : (first ++ "," ++ second).utf8ByteSize ≤ limits.maxLength) :
    parse limits (first ++ "," ++ second) = (parse limits second).map (nodes ++ ·) := by
  have text : (first ++ "," ++ second).toList = first.toList ++ ',' :: second.toList := by simp
  have shortSecond : second.utf8ByteSize ≤ limits.maxLength := by
    simp only [String.utf8ByteSize_append] at short
    omega
  have read := run_joined second.toList (parse_eq_ok_iff_run.mp accepted).2
  rw [parse, parse, if_neg (Nat.not_lt.mpr short), if_neg (Nat.not_lt.mpr shortSecond), text, read]
  cases Reader.empty.run limits 0 .list (scan false second.toList) with
  | error error => rfl
  | ok result =>
    obtain ⟨others, rest⟩ := result
    cases rest <;> rfl

/-! ### In parentheses -/

theorem derives_embed {head lead inner trail last : List Char} {field : Field}
    (heads : SpellsHead head field) (derives : Derives inner nodes) (blanksLead : Blanks lead)
    (blanksTrail : Blanks trail) (blanksLast : Blanks last) :
    Derives (head ++ '(' :: (lead ++ inner ++ trail) ++ ')' :: last) [.embed field nodes] := by
  obtain ⟨ts, spells, derivesHead⟩ := heads
  obtain ⟨us, spellsInner, derivesInner⟩ := derives
  have inside : Spells (lead ++ inner ++ trail) us := by
    simpa using (spellsInner.blanks_append blanksLead).append (.nil blanksTrail)
  have closing : Spells (')' :: last) [.mark ')'] := Spells.token_cons (.mark ')') (.nil blanksLast)
  have opening := Spells.token_cons (.mark '(') (inside.append closing)
  refine ⟨ts ++ .mark '(' :: (us ++ [.mark ')']), ?_,
    .single (.embed derivesHead (.parens derivesInner))⟩
  simpa [Token.chars] using spells.append opening

/-- Parsing is compositional over commas and parentheses. Behind a complete query and a comma, any text
is read as a query of its own: its nodes are added to those before, and its error, with the text that
it carries, is the error of the whole. And in parentheses behind a name, a complete query becomes the
select list of a single related resource, once the limit on nesting allows for one more level. -/
theorem parse_compositional :
    (∀ (limits : Limits) (first second : String) (nodes : List Node),
      parse limits first = .ok nodes →
      (first ++ "," ++ second).utf8ByteSize ≤ limits.maxLength →
      parse limits (first ++ "," ++ second) = (parse limits second).map (nodes ++ ·)) ∧
    ∀ (limits wider : Limits) (inner text : String) (nodes : List Node) (field : Field)
      (head lead trail last : List Char), parse limits inner = .ok nodes → SpellsHead head field →
      Blanks lead → Blanks trail → Blanks last →
      text.toList = head ++ '(' :: (lead ++ inner.toList ++ trail) ++ ')' :: last →
      limits.maxDepth < wider.maxDepth → text.utf8ByteSize ≤ wider.maxLength →
      parse wider text = .ok [.embed field nodes] := by
  refine ⟨fun _ _ _ _ => parse_append_comma, ?_⟩
  intro limits wider inner text nodes field head lead trail last accepted heads blanksLead blanksTrail
    blanksLast spelled deeper short
  obtain ⟨_, derives, nested⟩ := (parse_eq_ok_iff limits inner nodes).mp accepted
  refine (parse_eq_ok_iff wider text _).mpr ⟨short, ?_, ?_⟩
  · rw [spelled]
    exact derives_embed heads derives blanksLead blanksTrail blanksLast
  · simp only [Node.maxDepth, Node.depth]
    omega

/-- A nested query before a comma, with one behind it that is at fault where its hint ends; and the same
query in parentheses, at a limit that it reaches. -/
theorem parse_compositional_nested :
    parse ⟨1, 20⟩ "a , b(*)" = .ok [.column (.plain "a"), .embed (.plain "b") [.wildcard]] ∧
    parse ⟨1, 20⟩ ("a , b(*)" ++ "," ++ " c:d!e ,f") = .error (.missingEmbedding ",f") ∧
    parse ⟨2, 30⟩ " k : s ! h (\ta , b(*) )\n" =
      .ok [.embed ⟨"k", "s", some "h"⟩ [.column (.plain "a"), .embed (.plain "b") [.wildcard]]] := by
  have accepted : parse ⟨1, 20⟩ "a , b(*)" =
      .ok [.column (.plain "a"), .embed (.plain "b") [.wildcard]] := rfl
  have fault : parse ⟨1, 20⟩ " c:d!e ,f" = .error (.missingEmbedding ",f") := rfl
  have spelled : tokens " k : s ! h ".toList =
      [.word "k", .mark ':', .word "s", .mark '!', .word "h"] := by decide
  have name {c : Char} (inside : isWordChar c = true) : IsName (.ofList [c]) :=
    ⟨by simp, by simpa using inside⟩
  have heads : SpellsHead " k : s ! h ".toList ⟨"k", "s", some "h"⟩ :=
    ⟨_, spelled ▸ spells_tokens _,
      .hinted (name (c := 'k') (by decide)) (name (c := 's') (by decide)) (name (c := 'h') (by decide))⟩
  refine ⟨accepted, ?_, ?_⟩
  · rw [parse_compositional.1 _ _ _ _ accepted (by decide), fault]
    rfl
  · exact parse_compositional.2 _ _ _ _ _ _ " k : s ! h ".toList ['\t'] [' '] ['\n'] accepted heads
      (by simp [Blanks, isBlank]) (by simp [Blanks, isBlank]) (by simp [Blanks, isBlank]) (by decide)
      (by decide) (by decide)

end SelectShape
