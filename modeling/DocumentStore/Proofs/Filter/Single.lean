import DocumentStore.Filter
import DocumentStore.Proofs.Path.Access
import DocumentStore.Proofs.Path.Grammar
import DocumentStore.Proofs.Run

/-!
# Clauses with one field

A clause whose only field is a path asks something of what is at that path:
`holds_path`. So a clause within such a clause asks something of what is at the
second path in what is at the first one, and that is what is at the path with a
dot between the two. The text of that path is read as the segments of the first
path and then those of the second (`parse_dotted`), and following them is
following the one and then the other, with nothing found after nothing
(`childAt_dotted`).

A clause whose only field is an operator is the test of that operator:
`holds_operator`.
-/

namespace DocumentStore

/-! ## Paths with a dot between them -/

namespace Path

variable {text text' : List Char} {segments segments' : List Segment}

/-- Follow a path, and from where it leads another one. -/
def append (p q : Path) : Path where
  segments := p.segments ++ q.segments
  nonempty := by simp [p.nonempty]

theorem get_append (p q : Path) (v : Value) :
    (p.append q).get v = (p.get v).bind q.get :=
  lookup_append p.segments q.segments v

theorem pathText_dotted (h : PathText text segments)
    (h' : PathText text' segments') :
    PathText (text ++ '.' :: text') (segments ++ segments') := by
  induction h with
  | unit hunit => exact .dot hunit h'
  | dot hunit _ ih =>
      rw [List.append_assoc, List.append_assoc]
      exact .dot hunit ih

/-- Two paths with a dot between them are read as one after the other. -/
theorem parse_dotted {p q : String} {first second : Path}
    (hp : parse p = .ok first) (hq : parse q = .ok second) :
    parse (p ++ "." ++ q) = .ok (first.append second) := by
  rw [parse_eq_ok_iff] at hp hq ⊢
  rw [String.toList_append, String.toList_append, List.append_assoc]
  exact pathText_dotted hp hq

end Path

namespace Filter

variable {key p q : String} {operand : Value} {found : Option Value}

theorem isOperator_dotted {first : Path} (hp : Path.parse p = .ok first)
    (q : String) :
    Fields.isOperator (p ++ "." ++ q) = Fields.isOperator p := by
  have hne := Path.ne_nil_of_pathText_text (Path.parse_eq_ok_iff.mp hp)
  rw [Fields.isOperator, Fields.isOperator, String.toList_append,
    String.toList_append, List.append_assoc, Number.head?_append hne]

theorem childAt_dotted {first second : Path} (hp : Path.parse p = .ok first)
    (hq : Path.parse q = .ok second) (found : Option Value) :
    childAt (p ++ "." ++ q) found = childAt p found >>= childAt q := by
  cases found with
  | none => rfl
  | some v =>
      rw [childAt, childAt, Path.parse_dotted hp hq, hp]
      show Except.ok ((first.append second).get v) = childAt q (first.get v)
      rw [Path.get_append]
      cases first.get v with
      | none => rfl
      | some w =>
          rw [childAt, hq]
          rfl

/-! ## One field -/

/-- With nothing else to ask, a condition is the whole test. -/
theorem both_true (test : Test) :
    both test (fun _ => .ok true) found = test found := by
  rw [both]
  cases test found with
  | error e => rfl
  | ok b =>
      cases b with
      | true => rfl
      | false => rfl

theorem isDate_single (h : key ≠ Value.dateKey) :
    Value.isDate (.object [(key, operand)]) = false := by
  rw [Value.isDate, Value.asDate?, if_neg h]
  rfl

theorem holds_single (h : key ≠ Value.dateKey) :
    holds (.object [(key, operand)]) found =
      condition [(key, operand)] key operand (holds operand)
        (testsOfMembers operand) found := by
  rw [holds, isDate_single h, if_neg Bool.false_ne_true, holdsFields]
  exact both_true _

/-- What is asked of what is at a path. -/
def asks (operand : Value) (child : Option Value) : Result Bool :=
  if operand.isArray || operand.isPlainObject then holds operand child
  else Comparison.eq.test operand child

theorem ne_dateKey (h : Fields.isOperator key = false) :
    key ≠ Value.dateKey := by
  rintro rfl
  revert h
  decide +kernel

theorem holds_path (h : Fields.isOperator key = false) :
    holds (.object [(key, operand)]) found =
      childAt key found >>= asks operand := by
  rw [holds_single (ne_dateKey h), condition,
    if_neg (by rw [h]; exact Bool.false_ne_true)]
  rfl

theorem holds_operator (op : Operator) (h : Fields.isOperator key = true)
    (hop : Operator.ofName? key = some op) (hdate : key ≠ Value.dateKey) :
    holds (.object [(key, operand)]) found =
      op.test [(key, operand)] operand (holds operand)
        (testsOfMembers operand) found := by
  rw [holds_single hdate, condition, if_pos h, hop]

/-! ## A path in a path -/

/-- What is at a path, asked of a clause with one path more. -/
theorem asks_path (h : Fields.isOperator q = false) (child : Option Value) :
    asks (.object [(q, operand)]) child = childAt q child >>= asks operand := by
  have hplain : Value.isPlainObject (.object [(q, operand)]) = true := by
    rw [Value.isPlainObject, isDate_single (ne_dateKey h)]
    rfl
  rw [asks, hplain, Bool.or_true, if_pos rfl, holds_path h]

/-- A path within a path asks what the path with a dot between them asks, with
the same answer or the same error, whatever the operand is and whether there is
a value or none. -/
theorem nested_eq_dotted {first second : Path}
    (hp : Fields.isOperator p = false) (hq : Fields.isOperator q = false)
    (hfirst : Path.parse p = .ok first) (hsecond : Path.parse q = .ok second)
    (operand : Value) (found : Option Value) :
    (∃ path, Path.parse (p ++ "." ++ q) = .ok path ∧
        path.segments = first.segments ++ second.segments) ∧
      holds (.object [(p, .object [(q, operand)])]) found =
        holds (.object [(p ++ "." ++ q, operand)]) found := by
  refine ⟨⟨_, Path.parse_dotted hfirst hsecond, rfl⟩, ?_⟩
  have hdotted : Fields.isOperator (p ++ "." ++ q) = false :=
    (isOperator_dotted hfirst q).trans hp
  rw [holds_path hp, holds_path hdotted, childAt_dotted hfirst hsecond,
    bind_assoc]
  exact congrArg _ (funext (asks_path hq))

/-- The first part leads into an array by an index, the second has a quoted
key. -/
theorem nested_eq_dotted_quoted :
    Fields.isOperator "rows[1]" = false ∧
      Fields.isOperator "['a.b'].0" = false ∧
      Path.parse "rows[1]" = .ok ⟨[.key "rows", .index 1], by simp⟩ ∧
      Path.parse "['a.b'].0" = .ok ⟨[.key "a.b", .index 0], by simp⟩ ∧
      (∃ path, Path.parse ("rows[1]" ++ "." ++ "['a.b'].0") = .ok path ∧
        path.segments = [.key "rows", .index 1] ++ [.key "a.b", .index 0]) ∧
      holds (.object [("rows[1]",
          .object [("['a.b'].0", .object [("$type", .string "null")])])])
          (some (.object
            [("rows", .array [.null, .object [("a.b", .array [.null])]])])) =
        holds (.object [("rows[1]" ++ "." ++ "['a.b'].0",
            .object [("$type", .string "null")])])
          (some (.object
            [("rows", .array [.null, .object [("a.b", .array [.null])]])])) := by
  have hp : Fields.isOperator "rows[1]" = false := by decide +kernel
  have hq : Fields.isOperator "['a.b'].0" = false := by decide +kernel
  have hfirst : Path.parse "rows[1]" =
      .ok ⟨[.key "rows", .index 1], by simp⟩ := by
    decide +kernel
  have hsecond : Path.parse "['a.b'].0" =
      .ok ⟨[.key "a.b", .index 0], by simp⟩ := by
    decide +kernel
  exact ⟨hp, hq, hfirst, hsecond, nested_eq_dotted hp hq hfirst hsecond _ _⟩

end Filter

end DocumentStore
