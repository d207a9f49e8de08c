import DocumentStore.Json.Printer
import DocumentStore.Json.Token
import DocumentStore.Proofs.Number.Text
import Mathlib.Data.List.Forall2

/-!
# The tokens of a written value

Both layouts of a value are texts of the same tokens. A text is read without
knowing what follows it in one of two ways. It *settles* if the reader is
between tokens at its end: a bracket, a string, a blank. It *reads* if the
reader may still be in a word there, which the next character ends: a number, a
name. A text that reads and one that settles and does not go on with a word go
together.

An array and an object, in either layout, are one shape: elements that read,
with a comma and blanks between them. So there is one lemma about that shape.
-/

namespace DocumentStore.Json

/-- Reading the text gives the tokens and ends between tokens. -/
def Settles (text : List Char) (tokens : List Token) : Prop :=
  ∀ before, text.foldlM Scan.step ⟨.between, before⟩ =
    some ⟨.between, tokens.reverse ++ before⟩

/-- Reading the text gives the tokens once a word at its end is ended. -/
def Reads (text : List Char) (tokens : List Token) : Prop :=
  ∀ before, ∃ scan, text.foldlM Scan.step ⟨.between, before⟩ = some scan ∧
    scan.endWord? = some ⟨.between, tokens.reverse ++ before⟩

theorem Settles.reads {text : List Char} {tokens : List Token}
    (h : Settles text tokens) : Reads text tokens :=
  fun before => ⟨_, h before, rfl⟩

theorem settles_nil : Settles [] [] := fun _ => rfl

theorem Settles.reads_append {a b : List Char} {s t : List Token}
    (ha : Settles a s) (hb : Reads b t) : Reads (a ++ b) (s ++ t) := by
  intro before
  obtain ⟨scan, hscan, hend⟩ := hb (s.reverse ++ before)
  refine ⟨scan, ?_, ?_⟩
  · rw [List.foldlM_append, ha before]
    exact hscan
  · rw [hend, List.reverse_append, List.append_assoc]

theorem Settles.append {a b : List Char} {s t : List Token} (ha : Settles a s)
    (hb : Settles b t) : Settles (a ++ b) (s ++ t) := by
  intro before
  rw [List.foldlM_append, ha before]
  refine (hb (s.reverse ++ before)).trans ?_
  rw [List.reverse_append, List.append_assoc]

/-- A character that does not go on with a word is read the same whether a word
stands before it or not. -/
theorem step_of_endWord? {scan : Scan} {before : List Token} {c : Char}
    (hend : scan.endWord? = some ⟨.between, before⟩) (hc : goesOn c = false) :
    scan.step c = Scan.step ⟨.between, before⟩ c := by
  obtain ⟨place, tokens⟩ := scan
  cases place with
  | between => rw [← Option.some.inj hend]
  | word read =>
      simp only [Scan.step, hc, hend]
      rfl
  | inString read => cases hend
  | escape read => cases hend
  | unicode read high missing value => cases hend
  | half read high => cases hend
  | halfEscape read high => cases hend

theorem Reads.settles_append {a b : List Char} {s t : List Token} {c : Char}
    (ha : Reads a s) (hb : Settles (c :: b) t) (hc : goesOn c = false) :
    Settles (a ++ c :: b) (s ++ t) := by
  intro before
  obtain ⟨scan, hscan, hend⟩ := ha before
  have hb' := hb (s.reverse ++ before)
  rw [List.foldlM_cons] at hb'
  rw [List.foldlM_append, hscan]
  show (c :: b).foldlM Scan.step scan = _
  rw [List.foldlM_cons, step_of_endWord? hend hc, hb', List.reverse_append,
    List.append_assoc]

theorem tokens?_of_reads {text : List Char} {tokens : List Token}
    (h : Reads text tokens) :
    tokens? text = some tokens := by
  obtain ⟨scan, hscan, hend⟩ := h []
  simp only [tokens?, hscan, hend, Option.bind_eq_bind, Option.bind_some,
    List.append_nil, List.reverse_reverse]

/-! ## Blanks and words -/

theorem settles_blank {c : Char} (hc : isBlank c = true) : Settles [c] [] := by
  intro before
  simp only [List.foldlM_cons, List.foldlM_nil, Scan.step, Scan.outside, hc]
  rfl

theorem settles_blanks {text : List Char} (h : ∀ c ∈ text, isBlank c = true) :
    Settles text [] := by
  induction text with
  | nil => exact settles_nil
  | cons c text ih =>
      exact (settles_blank (h c List.mem_cons_self)).append
        (ih fun x hx => h x (List.mem_cons_of_mem _ hx))

theorem goesOn_of_isNumeric {c : Char} (h : Number.IsNumeric c) :
    goesOn c = true := by
  rcases h with hdigit | rfl | rfl | rfl | rfl
  · have hne : ∀ x : Char, x.isDigit = false → c ≠ x := by
      rintro x hx rfl
      rw [hdigit] at hx
      cases hx
    have hpunctuation : punctuation? c = none := by
      unfold punctuation?
      split
      · exact absurd rfl (hne '[' rfl)
      · exact absurd rfl (hne ']' rfl)
      · exact absurd rfl (hne '{' rfl)
      · exact absurd rfl (hne '}' rfl)
      · exact absurd rfl (hne ',' rfl)
      · exact absurd rfl (hne ':' rfl)
      · rfl
    simp [goesOn, isBlank, hpunctuation, hne ' ' rfl, hne '\t' rfl,
      hne '\n' rfl, hne '\r' rfl, hne '"' rfl]
  all_goals decide

theorem outside_word {c : Char} (hc : goesOn c = true) (read : List Char)
    (before : List Token) :
    Scan.outside ⟨.word read, before⟩ c = ⟨.word (c :: read), before⟩ := by
  simp only [goesOn, Bool.and_eq_true, Bool.not_eq_true', bne_iff_ne, ne_eq,
    Option.isNone_iff_eq_none] at hc
  simp [Scan.outside, hc]

theorem outside_between {c : Char} (hc : goesOn c = true)
    (before : List Token) :
    Scan.outside ⟨.between, before⟩ c = ⟨.word [c], before⟩ := by
  simp only [goesOn, Bool.and_eq_true, Bool.not_eq_true', bne_iff_ne, ne_eq,
    Option.isNone_iff_eq_none] at hc
  simp [Scan.outside, hc]

theorem foldlM_word {word : List Char} (h : ∀ c ∈ word, goesOn c = true)
    (read : List Char) (before : List Token) :
    word.foldlM Scan.step ⟨.word read, before⟩ =
      some ⟨.word (word.reverse ++ read), before⟩ := by
  induction word generalizing read with
  | nil => rfl
  | cons c word ih =>
      have hc := h c List.mem_cons_self
      rw [List.foldlM_cons]
      simp only [Scan.step, hc, if_true, outside_word hc]
      refine (ih (fun x hx => h x (List.mem_cons_of_mem _ hx))
        (c :: read)).trans ?_
      rw [List.reverse_cons, List.append_assoc, List.singleton_append]

theorem reads_word {word : List Char} {token : Token} (hne : word ≠ [])
    (hword : word.all goesOn = true) (htoken : wordToken? word = some token) :
    Reads word [token] := by
  intro before
  cases word with
  | nil => exact absurd rfl hne
  | cons c word =>
      rw [List.all_eq_true] at hword
      have hc := hword c List.mem_cons_self
      refine ⟨⟨.word (word.reverse ++ [c]), before⟩, ?_, ?_⟩
      · rw [List.foldlM_cons]
        simp only [Scan.step, outside_between hc]
        exact foldlM_word
          (fun x hx => hword x (List.mem_cons_of_mem _ hx)) [c] before
      · have hback : (word.reverse ++ [c]).reverse = c :: word := by
          rw [List.reverse_append, List.reverse_reverse, List.reverse_singleton,
            List.singleton_append]
        simp only [Scan.endWord?, hback, htoken, Option.map_some]
        rfl

theorem reads_number (n : Number) : Reads n.toChars [.number n] := by
  have hnumeric := Number.isNumeric_toChars n
  have hnot : ∀ {word : List Char} {c : Char}, c ∈ word → ¬ Number.IsNumeric c →
      n.toChars ≠ word := by
    rintro word c hmem hc rfl
    exact hc (hnumeric c hmem)
  refine reads_word ?_ (List.all_eq_true.mpr fun c hc =>
    goesOn_of_isNumeric (hnumeric c hc)) ?_
  · intro h
    have hread := Number.ofChars?_toChars n
    rw [h] at hread
    cases hread
  · have hnull : n.toChars ≠ ['n', 'u', 'l', 'l'] :=
      hnot (c := 'n') (by decide) (by unfold Number.IsNumeric; decide)
    have htrue : n.toChars ≠ ['t', 'r', 'u', 'e'] :=
      hnot (c := 't') (by decide) (by unfold Number.IsNumeric; decide)
    have hfalse : n.toChars ≠ ['f', 'a', 'l', 's', 'e'] :=
      hnot (c := 'f') (by decide) (by unfold Number.IsNumeric; decide)
    rw [wordToken?, if_neg hnull, if_neg htrue, if_neg hfalse,
      Number.ofChars?_toChars]
    rfl

/-! ## Strings -/

theorem hexValue?_hexDigit (n : Nat) :
    hexValue? (hexDigit n) = some (n % 16) := by
  have h : ∀ m < 16, hexValue? (Nat.digitChar m) = some m := by decide
  exact h (n % 16) (Nat.mod_lt n (by decide))

/-- A character in a string is read back from its text, escaped or not. -/
theorem foldlM_charText (c : Char) (read : List Char) (before : List Token) :
    (charText c).foldlM Scan.step ⟨.inString read, before⟩ =
      some ⟨.inString (c :: read), before⟩ := by
  unfold charText
  split
  · next h => subst h; rfl
  split
  · next h => subst h; rfl
  split
  · next h => subst h; rfl
  split
  · next h => subst h; rfl
  split
  · next h => subst h; rfl
  split
  · next h => subst h; rfl
  split
  · next h => subst h; rfl
  split
  · next hcontrol =>
      have hvalue : ((0 * 16 + 0) * 16 + 0) * 16 + c.toNat / 16 % 16 =
          c.toNat / 16 := by omega
      have hunit : c.toNat / 16 * 16 + c.toNat % 16 = c.toNat := by omega
      have hhigh : isHigh c.toNat = false := by
        simp only [isHigh, Bool.and_eq_false_iff, decide_eq_false_iff_not]
        omega
      have hlow : isLow c.toNat = false := by
        simp only [isLow, Bool.and_eq_false_iff, decide_eq_false_iff_not]
        omega
      have hzero : hexValue? '0' = some 0 := rfl
      have hback : Char.ofNat c.toNat = c := Char.ofNat_toNat c
      have hstart : Scan.step ⟨.inString read, before⟩ '\\' =
          some ⟨.escape read, before⟩ := rfl
      have hescape : Scan.step ⟨.escape read, before⟩ 'u' =
          some ⟨.unicode read none 3 0, before⟩ := rfl
      simp only [List.foldlM_cons, List.foldlM_nil, hstart, hescape,
        Option.bind_eq_bind, Option.bind_some]
      simp only [Scan.step, hzero, hexValue?_hexDigit, Option.bind_eq_bind,
        Option.bind_some, hvalue, hunit, Place.ofUnit?, hhigh, hlow, hback]
      rfl
  · next hquote hbackslash _ _ _ _ _ hcontrol =>
      simp only [List.foldlM_cons, List.foldlM_nil, Scan.step, if_neg hquote,
        if_neg hbackslash, if_neg hcontrol]
      rfl

theorem foldlM_stringText (text read : List Char) (before : List Token) :
    (text.flatMap charText).foldlM Scan.step ⟨.inString read, before⟩ =
      some ⟨.inString (text.reverse ++ read), before⟩ := by
  induction text generalizing read with
  | nil => rfl
  | cons c text ih =>
      rw [List.flatMap_cons, List.foldlM_append, foldlM_charText]
      refine (ih (c :: read)).trans ?_
      rw [List.reverse_cons, List.append_assoc, List.singleton_append]

theorem settles_string (s : String) : Settles (stringChars s) [.string s] := by
  intro before
  have hopen : Scan.step ⟨.between, before⟩ '"' =
      some ⟨.inString [], before⟩ := rfl
  rw [stringChars, List.foldlM_cons, hopen]
  show (s.toList.flatMap charText ++ ['"']).foldlM Scan.step
      ⟨.inString [], before⟩ = _
  rw [List.foldlM_append, foldlM_stringText, List.append_nil]
  have hclose : Scan.step ⟨.inString s.toList.reverse, before⟩ '"' =
      some ⟨.between,
        .string (String.ofList s.toList.reverse.reverse) :: before⟩ := rfl
  show ['"'].foldlM Scan.step ⟨.inString s.toList.reverse, before⟩ = _
  rw [List.foldlM_cons, hclose, List.reverse_reverse, String.ofList_toList]
  rfl

/-! ## Elements between brackets -/

theorem no_gap : ∀ c ∈ ([] : List Char), isBlank c = true :=
  fun _ h => nomatch h


/-- Elements with a comma and blanks between them, and what closes them. -/
theorem settles_elements {gap close : List Char} {c : Char} {t : List Token}
    (hgap : ∀ x ∈ gap, isBlank x = true) (hclose : Settles (c :: close) t)
    (hc : goesOn c = false) {texts : List (List Char)}
    {tokens : List (List Token)} (h : List.Forall₂ Reads texts tokens) :
    Settles ((',' :: gap).intercalate texts ++ c :: close)
      ([Token.comma].intercalate tokens ++ t) := by
  induction h with
  | nil => exact hclose
  | cons hfirst hrest ih =>
      rename_i first firstTokens rest restTokens
      cases hrest with
      | nil =>
          rw [List.intercalate_singleton, List.intercalate_singleton]
          exact hfirst.settles_append hclose hc
      | cons hsecond hmore =>
          rw [List.intercalate_cons_cons, List.intercalate_cons_cons]
          have hcomma : Settles [','] [.comma] := fun _ => rfl
          have htail := hcomma.append ((settles_blanks hgap).append ih)
          have hall : Settles (_ ++ ',' :: (gap ++ _)) _ :=
            hfirst.settles_append htail rfl
          simpa only [List.append_assoc, List.cons_append,
            List.nil_append] using hall

/-! ## Values -/

mutual

/-- The tokens that a value is written as. -/
def valueTokens : Value → List Token
  | .null => [.null]
  | .bool b => [.bool b]
  | .number n => [.number n]
  | .string s => [.string s]
  | .array items =>
      .openArray :: ([.comma].intercalate (itemTokens items) ++ [.closeArray])
  | .object fields =>
      .openObject :: ([.comma].intercalate (fieldTokens fields) ++ [.closeObject])

def itemTokens : List Value → List (List Token)
  | [] => []
  | v :: rest => valueTokens v :: itemTokens rest

def fieldTokens : List (String × Value) → List (List Token)
  | [] => []
  | (key, v) :: rest =>
      (.string key :: .colon :: valueTokens v) :: fieldTokens rest

end

theorem reads_null : Reads ['n', 'u', 'l', 'l'] [.null] :=
  reads_word (by decide) (by decide) rfl

theorem reads_bool (b : Bool) :
    Reads (if b then ['t', 'r', 'u', 'e'] else ['f', 'a', 'l', 's', 'e'])
      [.bool b] := by
  cases b with
  | true => exact reads_word (by decide) (by decide) rfl
  | false => exact reads_word (by decide) (by decide) rfl

/-- A key, a colon, blanks and what reads go together. -/
theorem reads_field {key : String} {gap text : List Char} {tokens : List Token}
    (hgap : ∀ x ∈ gap, isBlank x = true) (h : Reads text tokens) :
    Reads (stringChars key ++ ':' :: (gap ++ text))
      (.string key :: .colon :: tokens) := by
  have hcolon : Settles [':'] [.colon] := fun _ => rfl
  exact (settles_string key).reads_append
    (hcolon.reads_append ((settles_blanks hgap).reads_append h))

mutual

theorem reads_compactChars :
    (v : Value) → Reads (compactChars v) (valueTokens v)
  | .null => by
      rw [compactChars, valueTokens]
      exact reads_null
  | .bool true => by
      rw [compactChars, valueTokens]
      exact reads_bool true
  | .bool false => by
      rw [compactChars, valueTokens]
      exact reads_bool false
  | .number n => by
      rw [compactChars, valueTokens]
      exact reads_number n
  | .string s => by
      rw [compactChars, valueTokens]
      exact (settles_string s).reads
  | .array items => by
      rw [compactChars, valueTokens]
      have hopen : Settles ['['] [.openArray] := fun _ => rfl
      have hclose : Settles [']'] [.closeArray] := fun _ => rfl
      exact (hopen.append
        (settles_elements no_gap hclose rfl (reads_compactItems items))).reads
  | .object fields => by
      rw [compactChars, valueTokens]
      have hopen : Settles ['{'] [.openObject] := fun _ => rfl
      have hclose : Settles ['}'] [.closeObject] := fun _ => rfl
      exact (hopen.append
        (settles_elements no_gap hclose rfl (reads_compactFields fields))).reads

theorem reads_compactItems :
    (items : List Value) →
      List.Forall₂ Reads (compactItems items) (itemTokens items)
  | [] => by
      rw [compactItems, itemTokens]
      exact .nil
  | v :: rest => by
      rw [compactItems, itemTokens]
      exact .cons (reads_compactChars v) (reads_compactItems rest)

theorem reads_compactFields :
    (fields : List (String × Value)) →
      List.Forall₂ Reads (compactFields fields) (fieldTokens fields)
  | [] => by
      rw [compactFields, fieldTokens]
      exact .nil
  | (key, v) :: rest => by
      rw [compactFields, fieldTokens]
      exact .cons (reads_field no_gap (reads_compactChars v))
        (reads_compactFields rest)

end

/-! ## The pretty layout -/

theorem blank_newline (level : Nat) :
    ∀ c ∈ newline level, isBlank c = true := by
  intro c hc
  rcases List.mem_cons.mp hc with rfl | hc
  · rfl
  · rw [List.eq_of_mem_replicate hc]
    rfl

theorem settles_block {opening closing : Char} {first last : Token}
    (level : Nat) (hopen : Settles [opening] [first])
    (hclose : Settles [closing] [last]) {texts : List (List Char)}
    {tokens : List (List Token)} (h : List.Forall₂ Reads texts tokens) :
    Settles (block level opening closing texts)
      (first :: ([Token.comma].intercalate tokens ++ [last])) := by
  rw [block]
  cases h with
  | nil => exact hopen.append hclose
  | cons hfirst hrest =>
      have hend :
          Settles ('\n' :: (List.replicate (2 * level) ' ' ++ [closing]))
            ([] ++ [last]) :=
        (settles_blanks (blank_newline level)).append hclose
      have hinner := settles_elements (blank_newline (level + 1)) hend rfl
        (.cons hfirst hrest)
      have hall :=
        hopen.append ((settles_blanks (blank_newline (level + 1))).append hinner)
      simpa [newline] using hall

theorem blank_space : ∀ c ∈ [' '], isBlank c = true :=
  List.all_eq_true.mp (by decide)

mutual

theorem reads_prettyChars :
    (level : Nat) → (v : Value) → Reads (prettyChars level v) (valueTokens v)
  | _, .null => by
      rw [prettyChars, valueTokens]
      exact reads_null
  | _, .bool true => by
      rw [prettyChars, valueTokens]
      exact reads_bool true
  | _, .bool false => by
      rw [prettyChars, valueTokens]
      exact reads_bool false
  | _, .number n => by
      rw [prettyChars, valueTokens]
      exact reads_number n
  | _, .string s => by
      rw [prettyChars, valueTokens]
      exact (settles_string s).reads
  | level, .array items => by
      rw [prettyChars, valueTokens]
      have hopen : Settles ['['] [.openArray] := fun _ => rfl
      have hclose : Settles [']'] [.closeArray] := fun _ => rfl
      exact (settles_block level hopen hclose
        (reads_prettyItems (level + 1) items)).reads
  | level, .object fields => by
      rw [prettyChars, valueTokens]
      have hopen : Settles ['{'] [.openObject] := fun _ => rfl
      have hclose : Settles ['}'] [.closeObject] := fun _ => rfl
      exact (settles_block level hopen hclose
        (reads_prettyFields (level + 1) fields)).reads

theorem reads_prettyItems : (level : Nat) → (items : List Value) →
    List.Forall₂ Reads (prettyItems level items) (itemTokens items)
  | _, [] => by
      rw [prettyItems, itemTokens]
      exact .nil
  | level, v :: rest => by
      rw [prettyItems, itemTokens]
      exact .cons (reads_prettyChars level v) (reads_prettyItems level rest)

theorem reads_prettyFields : (level : Nat) → (fields : List (String × Value)) →
    List.Forall₂ Reads (prettyFields level fields) (fieldTokens fields)
  | _, [] => by
      rw [prettyFields, fieldTokens]
      exact .nil
  | level, (key, v) :: rest => by
      rw [prettyFields, fieldTokens]
      exact .cons (reads_field blank_space (reads_prettyChars level v))
        (reads_prettyFields level rest)

end

/-- Both layouts of a value are read as its tokens. -/
theorem tokens?_chars (pretty : Bool) (v : Value) :
    tokens? (chars pretty v) = some (valueTokens v) := by
  rw [chars]
  split
  · exact tokens?_of_reads (reads_prettyChars 0 v)
  · exact tokens?_of_reads (reads_compactChars v)

/-- The compact text of a value determines its tokens. -/
theorem valueTokens_eq_of_compact {v w : Value} (h : v.compact = w.compact) :
    valueTokens v = valueTokens w := by
  have hchars : compactChars v = compactChars w := String.ofList_injective h
  have hv := tokens?_of_reads (reads_compactChars v)
  rw [hchars, tokens?_of_reads (reads_compactChars w)] at hv
  exact (Option.some.inj hv).symm

end DocumentStore.Json
