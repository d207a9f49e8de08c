import DocumentStore.Json.Reader
import DocumentStore.Proofs.Json.Token
import DocumentStore.Proofs.Value.WellFormed

/-!
# What is written is read back

A value that is well-formed is read back from both of its texts, as long as it
does not nest deeper than the reader's limit; if it does, the reader refuses it.

The reader is followed token by token. Its stack carries the containers that are
open, so what it does with the tokens of a value depends only on how high the
stack is and how deep the value goes. An object has to be well-formed because
its fields are assigned one by one: only a key that is new goes last.
-/

namespace DocumentStore.Json

/-- Put tokens to what was read. -/
def feed (limit : Nat) (build : Build) (tokens : List Token) : Option Build :=
  tokens.foldlM (Build.step limit) build

variable {limit : Nat} {stack : List Frame}

theorem feed_cons (build : Build) (token : Token) (tokens : List Token) :
    feed limit build (token :: tokens) =
      (Build.step limit build token).bind fun next =>
        feed limit next tokens := by
  rw [feed, List.foldlM_cons]
  rfl

theorem feed_append (build : Build) (first second : List Token) :
    feed limit build (first ++ second) =
      (feed limit build first).bind fun next => feed limit next second := by
  rw [feed, List.foldlM_append]
  rfl

/-- The first item of an array is read as any other one: no value starts with a
closing bracket. -/
theorem feed_firstItem (v : Value) (tokens : List Token) :
    feed limit (.firstItem stack) (valueTokens v ++ tokens) =
      feed limit (.value (.array [] :: stack)) (valueTokens v ++ tokens) := by
  cases v <;> simp only [valueTokens, List.cons_append, feed_cons] <;> rfl

theorem feed_key (read : List (String × Value)) (key : String)
    (tokens : List Token) :
    feed limit (.nextKey read stack) (.string key :: .colon :: tokens) =
      feed limit (.value (.object read key :: stack)) tokens := rfl

theorem feed_firstKey (key : String) (tokens : List Token) :
    feed limit (.firstKey stack) (.string key :: tokens) =
      feed limit (.nextKey [] stack) (.string key :: tokens) := rfl

/-! ## What follows the first element -/

/-- The tokens of an array after an item that is followed by these. -/
def moreItems : List Value → List Token
  | [] => [.closeArray]
  | v :: rest => .comma :: (valueTokens v ++ moreItems rest)

/-- The tokens of an object after a field that is followed by these. -/
def moreFields : List (String × Value) → List Token
  | [] => [.closeObject]
  | (key, v) :: rest =>
      .comma :: .string key :: .colon :: (valueTokens v ++ moreFields rest)

theorem itemTokens_eq (v : Value) (rest : List Value) :
    [Token.comma].intercalate (itemTokens (v :: rest)) ++ [.closeArray] =
      valueTokens v ++ moreItems rest := by
  induction rest generalizing v with
  | nil =>
      rw [itemTokens, itemTokens.eq_1, List.intercalate_singleton, moreItems]
  | cons w rest ih =>
      rw [moreItems, ← ih w]
      simp only [itemTokens, List.intercalate_cons_cons, List.append_assoc,
        List.cons_append, List.nil_append]

theorem fieldTokens_eq (key : String) (v : Value)
    (rest : List (String × Value)) :
    [Token.comma].intercalate (fieldTokens ((key, v) :: rest)) ++
      [.closeObject] =
      .string key :: .colon :: (valueTokens v ++ moreFields rest) := by
  induction rest generalizing key v with
  | nil =>
      rw [fieldTokens, fieldTokens.eq_1, List.intercalate_singleton, moreFields]
      rfl
  | cons entry rest ih =>
      obtain ⟨k, w⟩ := entry
      rw [moreFields, ← ih k w]
      simp only [fieldTokens, List.intercalate_cons_cons, List.append_assoc,
        List.cons_append, List.nil_append]

/-! ## Putting tokens together -/

mutual

/-- The tokens of a value are put together to the value, which goes into the
innermost container, unless the containers would lie too deep. -/
theorem feed_value : (v : Value) → v.WellFormed → ∀ stack :
    List Frame, stack.length ≤ limit →
    feed limit (.value stack) (valueTokens v) =
      if stack.length + v.depth ≤
        limit then some (Build.accept v stack) else none
  | .null, _, stack, hstack => by
      rw [valueTokens, Value.depth, Nat.add_zero, if_pos hstack]
      rfl
  | .bool b, _, stack, hstack => by
      rw [valueTokens, Value.depth, Nat.add_zero, if_pos hstack]
      rfl
  | .number n, _, stack, hstack => by
      rw [valueTokens, Value.depth, Nat.add_zero, if_pos hstack]
      rfl
  | .string s, _, stack, hstack => by
      rw [valueTokens, Value.depth, Nat.add_zero, if_pos hstack]
      rfl
  | .array [], _, stack, hstack => by
      rw [valueTokens, itemTokens, feed_cons, Value.depth, Value.depthOfItems]
      simp only [Build.step, Build.start]
      split
      · next hlt =>
          rw [if_pos (by omega)]
          rfl
      · next hlt =>
          rw [if_neg (by omega)]
          rfl
  | .array (v :: rest), hwf, stack, hstack => by
      rw [Value.WellFormed, Value.ItemsWellFormed] at hwf
      rw [valueTokens, feed_cons, itemTokens_eq, Value.depth,
        Value.depthOfItems]
      simp only [Build.step, Build.start]
      split
      · next hlt =>
          have hv := feed_value v hwf.1 (.array [] :: stack) hlt
          have hrest := feed_moreItems rest hwf.2 [v] stack hlt
          rw [Option.bind_some, feed_firstItem, feed_append, hv,
            List.length_cons]
          split
          · next hdeep =>
              rw [Option.bind_some, Build.accept, hrest]
              congr 1
              simp only [eq_iff_iff]
              omega
          · next hdeep =>
              rw [if_neg (by omega)]
              rfl
      · next hlt =>
          rw [if_neg (by omega)]
          rfl
  | .object [], _, stack, hstack => by
      rw [valueTokens, fieldTokens, feed_cons, Value.depth, Value.depthOfFields]
      simp only [Build.step, Build.start]
      split
      · next hlt =>
          rw [if_pos (by omega)]
          rfl
      · next hlt =>
          rw [if_neg (by omega)]
          rfl
  | .object ((key, v) :: rest), hwf, stack, hstack => by
      rw [Value.WellFormed, Value.FieldsWellFormed] at hwf
      rw [valueTokens, feed_cons, fieldTokens_eq, Value.depth,
        Value.depthOfFields]
      simp only [Build.step, Build.start]
      split
      · next hlt =>
          have hv := feed_value v hwf.2.1 (.object [] key :: stack) hlt
          have hrest := feed_moreFields rest hwf.2.2 [(key, v)] stack hlt hwf.1
          rw [Option.bind_some, feed_firstKey, feed_key, feed_append, hv,
            List.length_cons]
          split
          · next hdeep =>
              rw [Option.bind_some, Build.accept, Fields.insert, hrest]
              congr 1
              simp only [eq_iff_iff]
              omega
          · next hdeep =>
              rw [if_neg (by omega)]
              rfl
      · next hlt =>
          rw [if_neg (by omega)]
          rfl

theorem feed_moreItems : (items : List Value) → Value.ItemsWellFormed items →
    ∀ (read : List Value) (stack : List Frame), stack.length + 1 ≤ limit →
    feed limit (.afterItem read stack) (moreItems items) =
      if stack.length + 1 + Value.depthOfItems items ≤ limit then
        some (Build.accept (.array (read.reverse ++ items)) stack)
      else none
  | [], _, read, stack, hstack => by
      rw [moreItems, Value.depthOfItems, Nat.add_zero, if_pos hstack,
        List.append_nil]
      rfl
  | v :: rest, hwf, read, stack, hstack => by
      rw [Value.ItemsWellFormed] at hwf
      have hv := feed_value v hwf.1 (.array read :: stack) hstack
      have hrest := feed_moreItems rest hwf.2 (v :: read) stack hstack
      rw [moreItems, feed_cons, Value.depthOfItems]
      simp only [Build.step, Option.bind_some]
      rw [feed_append, hv, List.length_cons]
      split
      · next hdeep =>
          rw [Option.bind_some, Build.accept, hrest, List.reverse_cons,
            List.append_assoc, List.singleton_append]
          congr 1
          simp only [eq_iff_iff]
          omega
      · next hdeep =>
          rw [if_neg (by omega)]
          rfl

theorem feed_moreFields :
    (fields : List (String × Value)) → Value.FieldsWellFormed fields →
    ∀ (read : List (String × Value)) (stack : List Frame),
      stack.length + 1 ≤ limit →
    (Fields.keys (read ++ fields)).Nodup →
    feed limit (.afterField read stack) (moreFields fields) =
      if stack.length + 1 + Value.depthOfFields fields ≤ limit then
        some (Build.accept (.object (read ++ fields)) stack)
      else none
  | [], _, read, stack, hstack, _ => by
      rw [moreFields, Value.depthOfFields, Nat.add_zero, if_pos hstack,
        List.append_nil]
      rfl
  | (key, v) :: rest, hwf, read, stack, hstack, hkeys => by
      rw [Value.FieldsWellFormed] at hwf
      have hnew : key ∉ Fields.keys read := by
        rw [Fields.keys, List.map_append, List.nodup_append] at hkeys
        intro hmem
        exact hkeys.2.2 key hmem key List.mem_cons_self rfl
      have happend : read ++ (key, v) :: rest =
          Fields.insert key v read ++ rest := by
        rw [Fields.insert_of_notMem hnew, List.append_assoc,
          List.singleton_append]
      rw [happend] at hkeys ⊢
      have hv := feed_value v hwf.1 (.object read key :: stack) hstack
      have hrest := feed_moreFields rest hwf.2
        (Fields.insert key v read) stack hstack hkeys
      rw [moreFields, feed_cons, Value.depthOfFields]
      simp only [Build.step, Option.bind_some]
      rw [feed_key, feed_append, hv, List.length_cons]
      split
      · next hdeep =>
          rw [Option.bind_some, Build.accept, hrest]
          congr 1
          simp only [eq_iff_iff]
          omega
      · next hdeep =>
          rw [if_neg (by omega)]
          rfl

end

/-! ## The round trip -/

theorem build?_tokens {v : Value} (h : v.WellFormed) :
    build? limit (valueTokens v) = if v.depth ≤ limit then some v
      else none := by
  have hfeed : (valueTokens v).foldlM (Build.step limit) (.value []) = _ :=
    feed_value v h [] (Nat.zero_le limit)
  rw [build?, hfeed, List.length_nil, Nat.zero_add]
  by_cases hdeep : v.depth ≤ limit
  · rw [if_pos hdeep, if_pos hdeep]
    rfl
  · rw [if_neg hdeep, if_neg hdeep]

/-- A well-formed value is read back from either of its texts exactly when it is
not too deep. -/
theorem read?_chars (pretty : Bool) {v : Value} (h : v.WellFormed) :
    read? limit (chars pretty v) = if v.depth ≤ limit then some v
      else none := by
  rw [read?, tokens?_chars, Option.bind_some, build?_tokens h]

end DocumentStore.Json

namespace DocumentStore.Value

/-- The text of a string is that of no other value, well-formed or not. -/
theorem compact_eq_string_iff {v : Value} {s : String} :
    v.compact = (Value.string s).compact ↔ v = .string s := by
  refine ⟨fun h => ?_, fun h => by rw [h]⟩
  have htokens := Json.valueTokens_eq_of_compact h
  have hstring : Json.valueTokens (.string s) = [.string s] := rfl
  rw [hstring] at htokens
  cases v with
  | string t =>
      rw [Json.valueTokens] at htokens
      cases htokens
      rfl
  | null => rw [Json.valueTokens] at htokens; cases htokens
  | bool b => rw [Json.valueTokens] at htokens; cases htokens
  | number n => rw [Json.valueTokens] at htokens; cases htokens
  | array items => rw [Json.valueTokens] at htokens; cases htokens
  | object fields => rw [Json.valueTokens] at htokens; cases htokens

end DocumentStore.Value
