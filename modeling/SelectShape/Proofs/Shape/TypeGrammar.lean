import Mathlib.Logic.Function.Iterate
import SelectShape.Proofs.Selection.Token

/-!
# The grammar of types

```text
alternatives := members ( '|' members )*
members      := operand ( '&' operand )*
operand      := core ( '[' ']' )*
core         := ident | '(' alternatives ')' | '{' '}' | '{' fields '}'
fields       := field ( ';' field )*
field        := ident ':' alternatives
ident        := one or more of [0-9A-Za-z_]
```

So brackets bind tighter than an ampersand, and an ampersand tighter than a bar. Each phrase is read at the
front of tokens, with others behind it. Main statements: a text reads as one type at most, and an ampersand
between two texts joins only the alternatives next to it.
-/
namespace SelectShape

/-- A type, with all of its operators told apart. -/
inductive TypeTree where
  | name (name : String)
  | array (element : TypeTree)
  | object (fields : List (String × TypeTree))
  | union (alternatives : List TypeTree)
  | intersection (members : List TypeTree)
  deriving Repr

namespace TypeTree

/-- The union of types. That of a single type is the type itself. -/
def oneOf : List TypeTree → TypeTree
  | [type] => type
  | types => .union types

/-- The intersection of types. That of a single type is the type itself. -/
def allOf : List TypeTree → TypeTree
  | [type] => type
  | types => .intersection types

/-- The type of alternatives, each of which has several members. -/
def ofAlternatives (alternatives : List (List TypeTree)) : TypeTree := oneOf (alternatives.map allOf)

theorem oneOf_eq_union {types : List TypeTree} (several : 2 ≤ types.length) : oneOf types = .union types := by
  rcases types with _ | ⟨first, _ | ⟨second, types⟩⟩
  · rfl
  · simp at several
  · rfl

theorem allOf_eq_intersection {types : List TypeTree} (several : 2 ≤ types.length) :
    allOf types = .intersection types := by
  rcases types with _ | ⟨first, _ | ⟨second, types⟩⟩
  · rfl
  · simp at several
  · rfl

end TypeTree

/-- So many pairs of brackets. -/
def brackets (count : Nat) : List Token := (List.replicate count [.mark '[', .mark ']']).flatten

/-- One or more phrases with a mark between them. -/
inductive ReadsSeparated {α : Type} (separator : Char) (reads : α → List Token → List Token → Prop) :
    List α → List Token → List Token → Prop
  | single (only : reads a ts rest) : ReadsSeparated separator reads [a] ts rest
  | cons (first : reads a ts (.mark separator :: us)) (others : ReadsSeparated separator reads as us rest) :
      ReadsSeparated separator reads (a :: as) ts rest

mutual

/-- A name, a type in parentheses or an object type. -/
inductive ReadsCore : TypeTree → List Token → List Token → Prop
  | name : ReadsCore (.name name) (.word name :: rest) rest
  | group (inside : ReadsSeparated '|' (ReadsSeparated '&' ReadsOperand) types ts (.mark ')' :: rest)) :
      ReadsCore (.ofAlternatives types) (.mark '(' :: ts) rest
  | empty : ReadsCore (.object []) (.mark '\x7b' :: .mark '\x7d' :: rest) rest
  | object (inside : ReadsSeparated ';' ReadsField fields ts (.mark '\x7d' :: rest)) :
      ReadsCore (.object fields) (.mark '\x7b' :: ts) rest

/-- A core, or an array of arrays of it. -/
inductive ReadsOperand : TypeTree → List Token → List Token → Prop
  | arrays (count : Nat) (core : ReadsCore type ts (brackets count ++ rest)) :
      ReadsOperand (TypeTree.array^[count] type) ts rest

/-- A key with its type. -/
inductive ReadsField : String × TypeTree → List Token → List Token → Prop
  | typed (value : ReadsSeparated '|' (ReadsSeparated '&' ReadsOperand) types ts rest) :
      ReadsField (key, .ofAlternatives types) (.word key :: .mark ':' :: ts) rest

end

/-- Operands with ampersands between them. -/
abbrev ReadsMembers := ReadsSeparated '&' ReadsOperand

/-- Members with bars between them. -/
abbrev ReadsAlternatives := ReadsSeparated '|' ReadsMembers

/-- Fields with semicolons between them. -/
abbrev ReadsFields := ReadsSeparated ';' ReadsField

/-- A whole text reads as a type. -/
def ReadsType (text : List Char) (type : TypeTree) : Prop :=
  ∃ types, ReadsAlternatives types (tokens text) [] ∧ type = .ofAlternatives types

/-- Tokens that go on with none of these marks. -/
def StopsAt (marks : List Char) (ts : List Token) : Prop := ∀ c ∈ marks, ts.head? ≠ some (.mark c)

/-- Where none of the marks goes on, nothing else is read at the front of the tokens, and no other number
of them. -/
def OnlyReading {α : Type} (marks : List Char) (reads : α → List Token → List Token → Prop) (a : α)
    (ts rest : List Token) : Prop :=
  ∀ ⦃b further⦄, reads b ts further → StopsAt marks rest → StopsAt marks further → a = b ∧ rest = further

/-- What two lists of alternatives come to with an ampersand between them: the last alternative of the
first list and the first one of the second become one. -/
def joined {α : Type} : List (List α) → List (List α) → List (List α)
  | [], bs => bs
  | as, [] => as
  | [a], b :: bs => (a ++ b) :: bs
  | a :: next :: as, b :: bs => a :: joined (next :: as) (b :: bs)

section

variable {α : Type} {a : α} {as bs : List α} {marks : List Char} {separator : Char}
  {reads : α → List Token → List Token → Prop} {ts us rest further : List Token}

/-! ### One reading -/

theorem stopsAt_cons {c : Char} :
    StopsAt (c :: marks) ts ↔ ts.head? ≠ some (.mark c) ∧ StopsAt marks ts := List.forall_mem_cons

theorem stopsAt_mark {c : Char} (other : c ∉ marks) : StopsAt marks (.mark c :: ts) := by
  intro d member same
  rw [List.head?_cons, Option.some.injEq, Token.mark.injEq] at same
  exact other (same ▸ member)

theorem OnlyReading.single (other : separator ∉ marks) (only : OnlyReading marks reads a ts rest) :
    OnlyReading (separator :: marks) (ReadsSeparated separator reads) [a] ts rest := by
  intro bs further read stops stopsFurther
  rw [stopsAt_cons] at stops stopsFurther
  cases read with
  | single read =>
    obtain ⟨rfl, equal⟩ := only read stops.2 stopsFurther.2
    exact ⟨rfl, equal⟩
  | cons first others =>
    obtain ⟨-, rfl⟩ := only first stops.2 (stopsAt_mark other)
    exact absurd rfl stops.1

theorem OnlyReading.cons (other : separator ∉ marks)
    (first : OnlyReading marks reads a ts (.mark separator :: us))
    (others : OnlyReading (separator :: marks) (ReadsSeparated separator reads) as us rest) :
    OnlyReading (separator :: marks) (ReadsSeparated separator reads) (a :: as) ts rest := by
  intro bs further read stops stopsFurther
  cases read with
  | single read =>
    obtain ⟨-, rfl⟩ := first read (stopsAt_mark other) (stopsAt_cons.mp stopsFurther).2
    exact absurd rfl (stopsAt_cons.mp stopsFurther).1
  | cons read later =>
    obtain ⟨rfl, same⟩ := first read (stopsAt_mark other) (stopsAt_mark other)
    obtain ⟨-, rfl⟩ := List.cons.inj same
    obtain ⟨rfl, equal⟩ := others later stops stopsFurther
    exact ⟨rfl, equal⟩

theorem brackets_append_inj {m n : Nat} (stops : StopsAt ['['] rest) (stopsFurther : StopsAt ['['] further)
    (same : brackets m ++ rest = brackets n ++ further) : m = n ∧ rest = further := by
  induction m generalizing n with
  | zero =>
    cases n with
    | zero => exact ⟨rfl, same⟩
    | succ n =>
      obtain rfl : rest = .mark '[' :: _ := same
      exact absurd rfl (stopsAt_cons.mp stops).1
  | succ m ih =>
    cases n with
    | zero =>
      obtain rfl : .mark '[' :: _ = further := same
      exact absurd rfl (stopsAt_cons.mp stopsFurther).1
    | succ n =>
      obtain ⟨rfl, equal⟩ := ih (List.cons.inj (List.cons.inj same).2).2
      exact ⟨rfl, equal⟩

end

-- A core needs no mark to tell where it ends; every other phrase goes on with what is read one level
-- further in or with its own separator.
mutual

theorem ReadsCore.onlyReading {type : TypeTree} {ts rest : List Token} :
    ReadsCore type ts rest → OnlyReading [] ReadsCore type ts rest
  | .name => by
    intro other further read _ _
    cases read
    exact ⟨rfl, rfl⟩
  | .group inside => by
    intro other further read _ _
    cases read with
    | group others =>
      obtain ⟨rfl, same⟩ := onlyReading_alternatives inside others (stopsAt_mark (by decide))
        (stopsAt_mark (by decide))
      exact ⟨rfl, (List.cons.inj same).2⟩
  | .empty => by
    intro other further read _ _
    cases read with
    | empty => exact ⟨rfl, rfl⟩
    | object others => nomatch others
  | .object inside => by
    intro other further read _ _
    cases read with
    | empty => nomatch inside
    | object others =>
      obtain ⟨rfl, same⟩ := onlyReading_fields inside others (stopsAt_mark (by decide))
        (stopsAt_mark (by decide))
      exact ⟨rfl, (List.cons.inj same).2⟩

theorem ReadsOperand.onlyReading {type : TypeTree} {ts rest : List Token} :
    ReadsOperand type ts rest → OnlyReading ['['] ReadsOperand type ts rest
  | .arrays _ core => by
    intro other further read stops stopsFurther
    cases read with
    | arrays _ others =>
      obtain ⟨rfl, same⟩ := core.onlyReading others (List.forall_mem_nil _) (List.forall_mem_nil _)
      obtain ⟨rfl, equal⟩ := brackets_append_inj stops stopsFurther same
      exact ⟨rfl, equal⟩

theorem ReadsField.onlyReading {field : String × TypeTree} {ts rest : List Token} :
    ReadsField field ts rest → OnlyReading ['|', '&', '['] ReadsField field ts rest
  | .typed value => by
    intro other further read stops stopsFurther
    cases read with
    | typed counterpart =>
      obtain ⟨rfl, equal⟩ := onlyReading_alternatives value counterpart stops stopsFurther
      exact ⟨rfl, equal⟩

theorem onlyReading_members {members : List TypeTree} {ts rest : List Token} :
    ReadsMembers members ts rest → OnlyReading ['&', '['] ReadsMembers members ts rest
  | .single only => .single (by decide) only.onlyReading
  | .cons first others => .cons (by decide) first.onlyReading (onlyReading_members others)

theorem onlyReading_alternatives {types : List (List TypeTree)} {ts rest : List Token} :
    ReadsAlternatives types ts rest → OnlyReading ['|', '&', '['] ReadsAlternatives types ts rest
  | .single only => .single (by decide) (onlyReading_members only)
  | .cons first others => .cons (by decide) (onlyReading_members first) (onlyReading_alternatives others)

theorem onlyReading_fields {fields : List (String × TypeTree)} {ts rest : List Token} :
    ReadsFields fields ts rest → OnlyReading [';', '|', '&', '['] ReadsFields fields ts rest
  | .single only => .single (by decide) only.onlyReading
  | .cons first others => .cons (by decide) first.onlyReading (onlyReading_fields others)

end

section

variable {type other : TypeTree} {types others : List (List TypeTree)} {members : List TypeTree}
  {ts us rest : List Token}

/-- A text reads as one type at most. -/
theorem ReadsType.unique {text : List Char} (read : ReadsType text type) (readOther : ReadsType text other) :
    type = other := by
  obtain ⟨types, alternatives, rfl⟩ := read
  obtain ⟨others, alternativesOther, rfl⟩ := readOther
  have ended : StopsAt ['|', '&', '['] [] := by simp [StopsAt]
  obtain ⟨rfl, -⟩ := onlyReading_alternatives alternatives alternativesOther ended ended
  rfl

/-! ### Joining -/

theorem ReadsOperand.core (core : ReadsCore type ts rest) : ReadsOperand type ts rest := .arrays 0 core

theorem ReadsMembers.append {more : List TypeTree} (first : ReadsMembers members ts (.mark '&' :: us))
    (others : ReadsMembers more us rest) : ReadsMembers (members ++ more) ts rest := by
  induction members generalizing ts with
  | nil => cases first
  | cons member members ih =>
    cases first with
    | single only => exact .cons only others
    | cons first later => exact .cons first (ih later)

/-- An ampersand between two texts joins only the alternatives next to it. -/
theorem ReadsAlternatives.joined (first : ReadsAlternatives types ts (.mark '&' :: us))
    (behind : ReadsAlternatives others us rest) : ReadsAlternatives (joined types others) ts rest := by
  induction types generalizing ts with
  | nil => cases first
  | cons members types ih =>
    cases others with
    | nil => cases behind
    | cons next others =>
      cases first with
      | single only =>
        cases behind with
        | single last => exact .single (only.append last)
        | cons begun later => exact .cons (only.append begun) later
      | @cons _ _ vs types _ begun later =>
        cases types with
        | nil => cases later
        | cons second types => exact .cons begun (ih later)

end

theorem joined_nil {α : Type} (as : List (List α)) : joined as [] = as := by cases as <;> rfl

theorem length_joined {α : Type} (as bs : List (List α)) :
    as.length ≤ (joined as bs).length ∧ bs.length ≤ (joined as bs).length := by
  fun_induction joined as bs with
  | case1 bs => simp
  | case2 as nonempty => simp
  | case3 a b bs => simp
  | case4 a next as b bs ih => simp only [List.length_cons] at ih ⊢; omega

end SelectShape
