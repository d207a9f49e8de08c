import DocumentStore.Proofs.Path.Segment

/-!
# The grammar of paths

    path    = unit ('.' unit)*
    unit    = plain bracket* | bracket bracket*
    plain   = one or more characters other than '.' and '['
    bracket = '[' quote characters quote ']' | '[' numeral ']'

The relations below are these rules, each with the segments that the text
yields. `parse_iff_pathText` says that the reader accepts the texts of paths
with their segments, and refuses every other text as an invalid path.

The reader knows only the place where it stands, so the proof says for each
place which texts may follow there and what they yield: `Follows`. After a
bracket or a plain part that is `Tail`, and in the middle of a bracket it is
what completes the bracket, with a tail behind. A character that is read leads
from a place to one whose texts are the rest of those that begin with it, or
nowhere if there are none (`answers_step`), and a text may end where the reader
accepts the end (`finish_eq_ok_iff`). With these two the equivalence is an
induction along the text.
-/

namespace DocumentStore.Path

variable {text rest : List Char} {segment : Segment}
  {segments others : List Segment} {c : Char}

/-! ## The rules -/

/-- One or more characters, neither dots nor opening brackets. -/
def IsPlain (text : List Char) : Prop :=
  text ≠ [] ∧ ∀ c ∈ text, c ≠ '.' ∧ c ≠ '['

/-- A quoted key, which may hold anything but its quote, or an index. What
starts with a quote is no index. -/
inductive BracketText : List Char → Segment → Prop
  | key (quote : Char) (name : List Char) (hquote : quote = '\'' ∨ quote = '"')
      (hname : quote ∉ name) :
      BracketText ('[' :: quote :: (name ++ [quote, ']']))
        (.key (String.ofList name))
  | index (text : List Char) (i : Nat)
      (hopen : ∀ c ∈ text.head?, c ≠ '\'' ∧ c ≠ '"')
      (hclose : ']' ∉ text) (hi : Numeral text i) :
      BracketText ('[' :: (text ++ [']'])) (.index i)

/-- Any number of brackets. -/
inductive BracketsText : List Char → List Segment → Prop
  | nil : BracketsText [] []
  | cons {text rest : List Char} {segment : Segment} {others : List Segment}
      (h : BracketText text segment) (hrest : BracketsText rest others) :
      BracketsText (text ++ rest) (segment :: others)

/-- A plain part with brackets after it, or one or more brackets. -/
inductive UnitText : List Char → List Segment → Prop
  | plain {text rest : List Char} {segment : Segment} {others : List Segment}
      (h : IsPlain text) (hsegment : Stands text segment)
      (hrest : BracketsText rest others) :
      UnitText (text ++ rest) (segment :: others)
  | bracket {text rest : List Char} {segment : Segment} {others : List Segment}
      (h : BracketText text segment) (hrest : BracketsText rest others) :
      UnitText (text ++ rest) (segment :: others)

/-- One or more units with dots between them. -/
inductive PathText : List Char → List Segment → Prop
  | unit {text : List Char} {segments : List Segment}
      (h : UnitText text segments) :
      PathText text segments
  | dot {text rest : List Char} {segments others : List Segment}
      (h : UnitText text segments)
      (hrest : PathText rest others) :
      PathText (text ++ '.' :: rest) (segments ++ others)

/-! ## What follows a segment -/

/-- What may follow a complete segment. -/
inductive Tail : List Char → List Segment → Prop
  | nil : Tail [] []
  | dot {rest : List Char} {others : List Segment} (h : PathText rest others) :
      Tail ('.' :: rest) others
  | bracket {text rest : List Char} {segment : Segment} {others : List Segment}
      (h : BracketText text segment) (hrest : Tail rest others) :
      Tail (text ++ rest) (segment :: others)

theorem tail_append {brackets : List Char} (h : BracketsText brackets segments)
    (hrest : Tail rest others) :
    Tail (brackets ++ rest) (segments ++ others) := by
  induction h with
  | nil => exact hrest
  | cons h _ ih =>
      rw [List.append_assoc]
      exact .bracket h ih

theorem exists_brackets_of_tail (h : Tail text segments) :
    ∃ brackets first, BracketsText brackets first ∧
      ((text = brackets ∧ segments = first) ∨
        ∃ rest others, PathText rest others ∧ text = brackets ++ '.' :: rest ∧
          segments = first ++ others) := by
  induction h with
  | nil => exact ⟨[], [], .nil, .inl ⟨rfl, rfl⟩⟩
  | dot h => exact ⟨[], [], .nil, .inr ⟨_, _, h, rfl, rfl⟩⟩
  | bracket h _ ih =>
      obtain ⟨brackets, first, hbrackets, hrest⟩ := ih
      refine ⟨_, _, .cons h hbrackets, ?_⟩
      rcases hrest with ⟨rfl, rfl⟩ | ⟨rest, others, hpath, rfl, rfl⟩
      · exact .inl ⟨rfl, rfl⟩
      · exact .inr ⟨rest, others, hpath, by simp, rfl⟩

theorem unitText_iff : UnitText text segments ↔
    ∃ first rest segment others,
      text = first ++ rest ∧ segments = segment :: others ∧
      ((IsPlain first ∧ Stands first segment) ∨ BracketText first segment) ∧
      BracketsText rest others := by
  refine ⟨?_, ?_⟩
  · intro h
    cases h with
    | plain h hsegment hrest =>
        exact ⟨_, _, _, _, rfl, rfl, .inl ⟨h, hsegment⟩, hrest⟩
    | bracket h hrest => exact ⟨_, _, _, _, rfl, rfl, .inr h, hrest⟩
  · rintro ⟨first, rest, segment, others, rfl, rfl, ⟨h, hsegment⟩ | h, hrest⟩
    · exact .plain h hsegment hrest
    · exact .bracket h hrest

/-- A path is a plain part or a bracket, and what may follow it. -/
theorem pathText_iff : PathText text segments ↔
    ∃ first rest segment others,
      text = first ++ rest ∧ segments = segment :: others ∧
      ((IsPlain first ∧ Stands first segment) ∨ BracketText first segment) ∧
      Tail rest others := by
  refine ⟨?_, ?_⟩
  · intro h
    cases h with
    | unit h =>
        obtain ⟨first, brackets, segment, others, rfl, rfl, hfirst,
          hbrackets⟩ := unitText_iff.mp h
        have htail := tail_append hbrackets .nil
        rw [List.append_nil, List.append_nil] at htail
        exact ⟨_, _, _, _, rfl, rfl, hfirst, htail⟩
    | dot h hrest =>
        obtain ⟨first, brackets, segment, others, rfl, rfl, hfirst,
          hbrackets⟩ := unitText_iff.mp h
        exact ⟨_, _, _, _, List.append_assoc _ _ _, rfl, hfirst,
          tail_append hbrackets (.dot hrest)⟩
  · rintro ⟨first, rest, segment, others, rfl, rfl, hfirst, htail⟩
    obtain ⟨brackets, more, hbrackets, hrest⟩ := exists_brackets_of_tail htail
    have hunit : UnitText (first ++ brackets) (segment :: more) :=
      unitText_iff.mpr ⟨_, _, _, _, rfl, rfl, hfirst, hbrackets⟩
    rcases hrest with ⟨rfl, rfl⟩ | ⟨rest, others, hpath, rfl, rfl⟩
    · exact .unit hunit
    · rw [← List.append_assoc]
      exact .dot hunit hpath

/-! ## What follows at a place -/

/-- A part that has been read up to here goes on until a character stops it, and
what comes from there on ends it. What was read is kept backwards. -/
def Spans (stops : Char → Prop) (ends : List Char → List Char → Prop)
    (read text : List Char) : Prop :=
  ∃ more rest, text = more ++ rest ∧ (∀ c ∈ more, ¬ stops c) ∧
    ends (read.reverse ++ more) rest

/-- A plain part is complete, and the rest may follow it. -/
def EndsPlain (segments : List Segment) (body rest : List Char) : Prop :=
  ∃ segment others, Stands body segment ∧ Tail rest others ∧
    segments = segment :: others

/-- An index is complete when its bracket is closed. -/
def EndsIndex (segments : List Segment) (body rest : List Char) : Prop :=
  ∃ i after others, rest = ']' :: after ∧ Numeral body i ∧ Tail after others ∧
    segments = .index i :: others

/-- A quoted key is complete when its quote and its bracket are closed. -/
def EndsKey (quote : Char) (segments : List Segment)
    (body rest : List Char) : Prop :=
  ∃ after others, rest = quote :: ']' :: after ∧ Tail after others ∧
    segments = .key (String.ofList body) :: others

/-- Which texts may follow at a place, and the segments that they yield, the one
that is being read included. -/
def Follows : Place → List Char → List Segment → Prop
  | .unit, text, segments => PathText text segments
  | .plain last read, text, segments =>
      Spans (fun c => c = '.' ∨ c = '[') (EndsPlain segments)
        (last :: read) text
  | .closed, text, segments => Tail text segments
  | .opened, text, segments => Tail ('[' :: text) segments
  | .index read, text, segments =>
      Spans (· = ']') (EndsIndex segments) read text
  | .quoted quote read, text, segments =>
      Spans (· = quote) (EndsKey quote segments) read text
  | .unquoted read, text, segments =>
      ∃ rest others, text = ']' :: rest ∧ Tail rest others ∧
        segments = .key (String.ofList read.reverse) :: others

/-! ### In the middle of a part -/

section Spans

variable {stops : Char → Prop} {ends : List Char → List Char → Prop}
  {read : List Char}

theorem spans_cons_iff (hstops : ¬ stops c)
    (hends : ∀ body, ¬ ends body (c :: text)) :
    Spans stops ends read (c :: text) ↔ Spans stops ends (c :: read) text := by
  refine ⟨?_, ?_⟩
  · rintro ⟨more, rest, htext, hmore, hend⟩
    rcases List.cons_eq_append_iff.mp htext with ⟨rfl, rfl⟩ | ⟨more, rfl, rfl⟩
    · exact absurd hend (hends _)
    · refine ⟨more, rest, rfl, fun d hd =>
          hmore d (List.mem_cons_of_mem _ hd), ?_⟩
      rwa [List.reverse_cons, List.append_assoc]
  · rintro ⟨more, rest, rfl, hmore, hend⟩
    refine ⟨c :: more, rest, rfl, List.forall_mem_cons.mpr ⟨hstops, hmore⟩, ?_⟩
    rwa [List.reverse_cons, List.append_assoc] at hend

/-- A part ends where nothing can be added to it. -/
theorem spans_iff_ends (hstops : ∀ c ∈ text.head?, stops c) :
    Spans stops ends read text ↔ ends read.reverse text := by
  refine ⟨?_, ?_⟩
  · rintro ⟨more, rest, rfl, hmore, hend⟩
    cases more with
    | nil => rwa [List.append_nil] at hend
    | cons c more => exact absurd (hstops c rfl) (hmore c List.mem_cons_self)
  · intro hend
    refine ⟨[], text, rfl, by simp, ?_⟩
    rwa [List.append_nil]

end Spans

/-! ### After a segment -/

theorem exists_inner_of_bracketText (h : BracketText text segment) :
    ∃ inner, text = '[' :: inner := by
  cases h with
  | key quote name hquote hname => exact ⟨_, rfl⟩
  | index text i hopen hclose hi => exact ⟨_, rfl⟩

theorem tail_cases (h : Tail text segments) :
    (text = [] ∧ segments = []) ∨
      (∃ rest, text = '.' :: rest ∧ PathText rest segments) ∨
      ∃ inner rest segment others, text = '[' :: (inner ++ rest) ∧
        BracketText ('[' :: inner) segment ∧ Tail rest others ∧
        segments = segment :: others := by
  cases h with
  | nil => exact .inl ⟨rfl, rfl⟩
  | dot h => exact .inr (.inl ⟨_, rfl, h⟩)
  | bracket h hrest =>
      obtain ⟨inner, rfl⟩ := exists_inner_of_bracketText h
      exact .inr (.inr ⟨_, _, _, _, rfl, h, hrest, rfl⟩)

theorem tail_nil_iff : Tail [] segments ↔ segments = [] := by
  refine ⟨?_, ?_⟩
  · intro h
    rcases tail_cases h with
      ⟨-, hnil⟩ | ⟨rest, htext, -⟩ | ⟨inner, rest, segment, others, htext, -⟩
    · exact hnil
    · cases htext
    · cases htext
  · rintro rfl
    exact .nil

theorem tail_dot_iff :
    Tail ('.' :: text) segments ↔ PathText text segments := by
  refine ⟨?_, .dot⟩
  intro h
  rcases tail_cases h with
    ⟨htext, -⟩ | ⟨rest, htext, hpath⟩ | ⟨inner, rest, segment, others, htext, -⟩
  · cases htext
  · cases htext
    exact hpath
  · cases htext

/-- Behind an opening bracket comes the rest of the bracket, and what may follow
it. -/
theorem tail_open_iff : Tail ('[' :: text) segments ↔
    ∃ inner rest segment others,
      text = inner ++ rest ∧ BracketText ('[' :: inner) segment ∧
      Tail rest others ∧ segments = segment :: others := by
  refine ⟨?_, ?_⟩
  · intro h
    rcases tail_cases h with ⟨htext, -⟩ | ⟨rest, htext, -⟩ |
      ⟨inner, rest, segment, others, htext, hbracket, htail, rfl⟩
    · cases htext
    · cases htext
    · cases htext
      exact ⟨inner, rest, segment, others, rfl, hbracket, htail, rfl⟩
  · rintro ⟨inner, rest, segment, others, rfl, hbracket, htail, rfl⟩
    exact .bracket hbracket htail

theorem not_tail_cons (hdot : c ≠ '.') (hopen : c ≠ '[') :
    ¬ Tail (c :: text) segments := by
  intro h
  rcases tail_cases h with
    ⟨htext, -⟩ | ⟨rest, htext, -⟩ | ⟨inner, rest, segment, others, htext, -⟩
  · cases htext
  · cases htext
    exact hdot rfl
  · cases htext
    exact hopen rfl

/-! ### In a plain part -/

variable {last : Char} {read : List Char}

theorem follows_plain_of_ne (hdot : c ≠ '.') (hopen : c ≠ '[') :
    Follows (.plain last read) (c :: text) segments ↔
      Follows (.plain c (last :: read)) text segments := by
  refine spans_cons_iff ?_ ?_
  · exact not_or.mpr ⟨hdot, hopen⟩
  · rintro body ⟨segment, others, -, htail, -⟩
    exact not_tail_cons hdot hopen htail

theorem follows_plain_iff (hend : ∀ c ∈ text.head?, c = '.' ∨ c = '[') :
    Follows (.plain last read) text segments ↔
      ∃ others, Tail text others ∧
        segments = Segment.ofPlain (last :: read).reverse :: others := by
  rw [Follows, spans_iff_ends hend]
  refine ⟨?_, ?_⟩
  · rintro ⟨segment, others, hsegment, htail, rfl⟩
    rw [ofPlain_eq_iff.mpr hsegment]
    exact ⟨others, htail, rfl⟩
  · rintro ⟨others, htail, rfl⟩
    exact ⟨_, others, stands_ofPlain _, htail, rfl⟩

/-! ### In brackets -/

variable {quote : Char}

theorem follows_index_of_ne (hc : c ≠ ']') :
    Follows (.index read) (c :: text) segments ↔
      Follows (.index (c :: read)) text segments := by
  refine spans_cons_iff ?_ ?_
  · exact hc
  · rintro body ⟨i, after, others, hclose, -⟩
    cases hclose
    exact hc rfl

theorem follows_index_close : Follows (.index read) (']' :: text) segments ↔
    ∃ others, Tail text others ∧
      ∃ segment, Segment.ofBracket? read.reverse = some segment ∧
        segments = segment :: others := by
  rw [Follows, spans_iff_ends (by simp)]
  refine ⟨?_, ?_⟩
  · rintro ⟨i, after, others, hclose, hi, htail, rfl⟩
    cases hclose
    exact ⟨others, htail, _, ofBracket?_eq_some_iff.mpr ⟨i, hi, rfl⟩, rfl⟩
  · rintro ⟨others, htail, segment, hsegment, rfl⟩
    obtain ⟨i, hi, rfl⟩ := ofBracket?_eq_some_iff.mp hsegment
    exact ⟨i, text, others, rfl, hi, htail, rfl⟩

theorem not_follows_index_nil : ¬ Follows (.index read) [] segments := by
  rw [Follows, spans_iff_ends (by simp)]
  rintro ⟨i, after, others, hclose, -⟩
  cases hclose

theorem follows_quoted_of_ne (hc : c ≠ quote) :
    Follows (.quoted quote read) (c :: text) segments ↔
      Follows (.quoted quote (c :: read)) text segments := by
  refine spans_cons_iff ?_ ?_
  · exact hc
  · rintro body ⟨after, others, hquote, -⟩
    cases hquote
    exact hc rfl

theorem follows_quoted_quote :
    Follows (.quoted quote read) (quote :: text) segments ↔
    Follows (.unquoted read) text segments := by
  rw [Follows, spans_iff_ends (by simp)]
  refine ⟨?_, ?_⟩
  · rintro ⟨after, others, hquote, htail, rfl⟩
    cases hquote
    exact ⟨after, others, rfl, htail, rfl⟩
  · rintro ⟨after, others, rfl, htail, rfl⟩
    exact ⟨after, others, rfl, htail, rfl⟩

theorem not_follows_quoted_nil :
    ¬ Follows (.quoted quote read) [] segments := by
  rw [Follows, spans_iff_ends (by simp)]
  rintro ⟨after, others, hquote, -⟩
  cases hquote

theorem follows_unquoted_close :
    Follows (.unquoted read) (']' :: text) segments ↔
    ∃ others, Tail text others ∧
      segments = .key (String.ofList read.reverse) :: others := by
  refine ⟨?_, ?_⟩
  · rintro ⟨rest, others, htext, htail, rfl⟩
    cases htext
    exact ⟨others, htail, rfl⟩
  · rintro ⟨others, htail, rfl⟩
    exact ⟨text, others, rfl, htail, rfl⟩

theorem not_follows_unquoted (hc : c ≠ ']') :
    ¬ Follows (.unquoted read) (c :: text) segments := by
  rintro ⟨rest, others, htext, -⟩
  cases htext
  exact hc rfl

/-- Behind an opening bracket comes a quoted key, or an index that starts with
no quote. -/
theorem follows_opened_iff : Follows .opened text segments ↔
    (∃ quote rest, (quote = '\'' ∨ quote = '"') ∧ text = quote :: rest ∧
      Follows (.quoted quote []) rest segments) ∨
    ((∀ c ∈ text.head?, c ≠ '\'' ∧ c ≠ '"') ∧
      Follows (.index []) text segments) := by
  have hhead : ∀ body rest : List Char,
      (∀ c ∈ (body ++ ']' :: rest).head?, c ≠ '\'' ∧ c ≠ '"') ↔
      ∀ c ∈ body.head?, c ≠ '\'' ∧ c ≠ '"' := by
    intro body rest
    cases body with
    | nil => simp
    | cons c body => simp
  refine tail_open_iff.trans ⟨?_, ?_⟩
  · rintro ⟨inner, rest, segment, others, rfl, hbracket, htail, rfl⟩
    cases hbracket with
    | key quote name hquote hname =>
        refine .inl ⟨quote, _, hquote, rfl, name, quote :: ']' :: rest, ?_, ?_,
            rest, others, rfl, htail,
          rfl⟩
        · simp
        · exact List.forall_mem_ne'.mpr hname
    | index body i hopen hclose hi =>
        rw [List.append_assoc, List.singleton_append]
        exact .inr ⟨(hhead body rest).mpr hopen, body, ']' :: rest, rfl,
            List.forall_mem_ne'.mpr hclose, i,
          rest, others, rfl, hi, htail, rfl⟩
  · rintro (⟨quote, text, hquote, rfl, name, -, rfl, hname, rest, others, rfl,
        htail, rfl⟩ |
      ⟨hopen, body, -, rfl, hclose, i, rest, others, rfl, hi, htail, rfl⟩)
    · exact ⟨_, rest, _, others, by simp,
        .key quote name hquote (List.forall_mem_ne'.mp hname), htail,
        rfl⟩
    · exact ⟨_, rest, _, others, by simp,
        .index body i ((hhead body rest).mp hopen)
          (List.forall_mem_ne'.mp hclose) hi, htail, rfl⟩

theorem follows_opened_quote (hquote : quote = '\'' ∨ quote = '"') :
    Follows .opened (quote :: text) segments ↔
      Follows (.quoted quote []) text segments := by
  rw [follows_opened_iff]
  refine ⟨?_, fun h => .inl ⟨quote, text, hquote, rfl, h⟩⟩
  rintro (⟨first, rest, -, htext, h⟩ | ⟨hopen, -⟩)
  · cases htext
    exact h
  · obtain ⟨hsingle, hdouble⟩ := hopen quote rfl
    rcases hquote with h | h
    · exact absurd h hsingle
    · exact absurd h hdouble

theorem follows_opened_of_ne (hsingle : c ≠ '\'') (hdouble : c ≠ '"') :
    Follows .opened (c :: text) segments ↔
      Follows (.index []) (c :: text) segments := by
  rw [follows_opened_iff]
  refine ⟨?_, ?_⟩
  · rintro (⟨quote, rest, hquote, htext, -⟩ | ⟨-, h⟩)
    · cases htext
      rcases hquote with h | h
      · exact absurd h hsingle
      · exact absurd h hdouble
    · exact h
  · intro h
    refine .inr ⟨?_, h⟩
    rintro d hd
    cases hd
    exact ⟨hsingle, hdouble⟩

theorem not_follows_opened_close :
    ¬ Follows .opened (']' :: text) segments := by
  rw [follows_opened_of_ne (by decide) (by decide), follows_index_close]
  rintro ⟨others, -, segment, hsegment, -⟩
  cases hsegment

theorem not_follows_opened_nil : ¬ Follows .opened [] segments := by
  rw [follows_opened_iff]
  rintro (⟨quote, rest, -, htext, -⟩ | ⟨-, h⟩)
  · cases htext
  · exact not_follows_index_nil h

/-! ### Where a unit starts -/

theorem not_pathText_nil : ¬ PathText [] segments := by
  intro h
  obtain ⟨first, rest, segment, others, htext, -, hfirst, -⟩ :=
    pathText_iff.mp h
  obtain ⟨rfl, rfl⟩ := List.nil_eq_append_iff.mp htext
  rcases hfirst with ⟨⟨hne, -⟩, -⟩ | hbracket
  · exact hne rfl
  · obtain ⟨inner, hinner⟩ := exists_inner_of_bracketText hbracket
    cases hinner

theorem exists_more_of_isPlain {first : List Char} (h : IsPlain first)
    (htext : c :: text = first ++ rest) :
    (c ≠ '.' ∧ c ≠ '[') ∧
      ∃ more, first = c :: more ∧ text = more ++ rest ∧ ∀ d ∈ more, d ≠ '.' ∧
        d ≠ '[' := by
  obtain ⟨hne, hchars⟩ := h
  rcases List.cons_eq_append_iff.mp htext with ⟨hnil, -⟩ | ⟨more, rfl, rfl⟩
  · exact absurd hnil hne
  · obtain ⟨hc, hmore⟩ := List.forall_mem_cons.mp hchars
    exact ⟨hc, more, rfl, rfl, hmore⟩

theorem not_follows_unit_dot : ¬ Follows .unit ('.' :: text) segments := by
  intro h
  obtain ⟨first, rest, segment, others, htext, rfl, ⟨hplain, -⟩ | hbracket,
    htail⟩ := pathText_iff.mp h
  · obtain ⟨⟨hdot, -⟩, -⟩ := exists_more_of_isPlain hplain htext
    exact hdot rfl
  · obtain ⟨inner, rfl⟩ := exists_inner_of_bracketText hbracket
    cases htext

theorem follows_unit_open :
    Follows .unit ('[' :: text) segments ↔ Follows .opened text segments := by
  refine pathText_iff.trans ⟨?_, ?_⟩
  · rintro ⟨first, rest, segment, others, htext, rfl,
        ⟨hplain, -⟩ | hbracket, htail⟩
    · obtain ⟨⟨-, hopen⟩, -⟩ := exists_more_of_isPlain hplain htext
      exact absurd rfl hopen
    · have h := Tail.bracket hbracket htail
      rwa [← htext] at h
  · intro h
    obtain ⟨inner, rest, segment, others, rfl, hbracket, htail, rfl⟩ :=
      tail_open_iff.mp h
    exact ⟨_, rest, segment, others, rfl, rfl, .inr hbracket, htail⟩

theorem follows_unit_of_ne (hdot : c ≠ '.') (hopen : c ≠ '[') :
    Follows .unit (c :: text) segments ↔
      Follows (.plain c []) text segments := by
  refine pathText_iff.trans ⟨?_, ?_⟩
  · rintro ⟨first, rest, segment, others, htext, rfl,
        ⟨hplain, hsegment⟩ | hbracket, htail⟩
    · obtain ⟨-, more, rfl, rfl, hmore⟩ := exists_more_of_isPlain hplain htext
      exact ⟨more, rest, rfl, fun d hd => not_or.mpr (hmore d hd), segment,
        others, hsegment, htail, rfl⟩
    · obtain ⟨inner, rfl⟩ := exists_inner_of_bracketText hbracket
      cases htext
      exact absurd rfl hopen
  · rintro ⟨more, rest, rfl, hmore, segment, others, hsegment, htail, rfl⟩
    refine ⟨c :: more, rest, segment, others, rfl, rfl,
      .inl ⟨⟨List.cons_ne_nil _ _, ?_⟩, hsegment⟩, htail⟩
    exact List.forall_mem_cons.mpr
      ⟨⟨hdot, hopen⟩, fun d hd => not_or.mp (hmore d hd)⟩

/-! ## The reader -/

/-- A text can be read from here on, and then these are all the segments. -/
def Scan.Reads (scan : Scan) (text : List Char)
    (segments : List Segment) : Prop :=
  ∃ others, Follows scan.place text others ∧
    segments = scan.segments.reverse ++ others

theorem isQuote_iff : isQuote c = true ↔ c = '\'' ∨ c = '"' := by
  rw [isQuote, Bool.or_eq_true, decide_eq_true_eq, decide_eq_true_eq]

/-- The segments that are read wait while a segment is not complete. -/
theorem reads_of_follows {place next : Place} {done : List Segment}
    (h : ∀ others, Follows place text others ↔ Follows next rest others) :
    Scan.Reads ⟨place, done⟩ text segments ↔
      Scan.Reads ⟨next, done⟩ rest segments :=
  exists_congr fun others => and_congr_left fun _ => h others

/-- A segment that is complete is one of those that are read. -/
theorem reads_of_segment {place next : Place} {done : List Segment}
    (h : ∀ others, Follows place text others ↔
      ∃ more, Follows next rest more ∧ others = segment :: more) :
    Scan.Reads ⟨place, done⟩ text segments ↔
      Scan.Reads ⟨next, segment :: done⟩ rest segments := by
  refine ⟨?_, ?_⟩
  · rintro ⟨others, hothers, rfl⟩
    obtain ⟨more, hmore, rfl⟩ := (h others).mp hothers
    refine ⟨more, hmore, ?_⟩
    rw [List.reverse_cons, List.append_assoc, List.singleton_append]
  · rintro ⟨more, hmore, rfl⟩
    refine ⟨segment :: more, (h _).mpr ⟨more, hmore, rfl⟩, ?_⟩
    rw [List.reverse_cons, List.append_assoc, List.singleton_append]

theorem not_reads_of_follows {place : Place} {done : List Segment}
    (h : ∀ others, ¬ Follows place text others) :
    ¬ Scan.Reads ⟨place, done⟩ text segments := by
  rintro ⟨others, hothers, -⟩
  exact h others hothers

/-- The outcome of a step tells which texts can be read that begin with its
character: those whose rest can be read at the place where it leads, or none. -/
def Scan.Answers (scan : Scan) (c : Char) (text : List Char)
    (segments : List Segment) :
    Except PathFault Scan → Prop
  | .ok next => scan.Reads (c :: text) segments ↔ next.Reads text segments
  | .error _ => ¬ scan.Reads (c :: text) segments

section Step

variable (done : List Segment) (c : Char) (text : List Char)
  (segments : List Segment)

theorem answers_unit :
    Scan.Answers ⟨.unit, done⟩ c text segments (Scan.step ⟨.unit, done⟩ c) := by
  simp only [Scan.step]
  split
  · next hdot =>
      subst hdot
      exact not_reads_of_follows fun others => not_follows_unit_dot
  · next hdot =>
      split
      · next hopen =>
          subst hopen
          exact reads_of_follows fun others => follows_unit_open
      · next hopen =>
          exact reads_of_follows fun others => follows_unit_of_ne hdot hopen

theorem answers_plain (last : Char) (read : List Char) :
    Scan.Answers ⟨.plain last read, done⟩ c text segments
      (Scan.step ⟨.plain last read, done⟩ c) := by
  simp only [Scan.step]
  split
  · next hdot =>
      subst hdot
      refine reads_of_segment fun others =>
        (follows_plain_iff (by simp)).trans ?_
      exact exists_congr fun more => and_congr_left fun _ => tail_dot_iff
  · next hdot =>
      split
      · next hopen =>
          subst hopen
          exact reads_of_segment fun others => follows_plain_iff (by simp)
      · next hopen =>
          exact reads_of_follows fun others => follows_plain_of_ne hdot hopen

theorem answers_closed :
    Scan.Answers ⟨.closed, done⟩ c text segments
      (Scan.step ⟨.closed, done⟩ c) := by
  simp only [Scan.step]
  split
  · next hdot =>
      subst hdot
      exact reads_of_follows fun others => tail_dot_iff
  · next hdot =>
      split
      · next hopen =>
          subst hopen
          exact reads_of_follows fun others => Iff.rfl
      · next hopen =>
          exact not_reads_of_follows fun others => not_tail_cons hdot hopen

theorem answers_opened :
    Scan.Answers ⟨.opened, done⟩ c text segments
      (Scan.step ⟨.opened, done⟩ c) := by
  simp only [Scan.step]
  split
  · next hquote =>
      exact reads_of_follows fun others =>
        follows_opened_quote (isQuote_iff.mp hquote)
  · next hquote =>
      rw [isQuote_iff, not_or] at hquote
      split
      · next hclose =>
          subst hclose
          exact not_reads_of_follows fun others => not_follows_opened_close
      · next hclose =>
          exact reads_of_follows fun others =>
            (follows_opened_of_ne hquote.1 hquote.2).trans
              (follows_index_of_ne hclose)

theorem answers_index (read : List Char) :
    Scan.Answers ⟨.index read, done⟩ c text segments
      (Scan.step ⟨.index read, done⟩ c) := by
  simp only [Scan.step]
  split
  · next hclose =>
      subst hclose
      split
      · next segment hsegment =>
          refine reads_of_segment fun others => follows_index_close.trans ?_
          simp only [hsegment, Option.some.injEq, exists_eq_left']
          exact Iff.rfl
      · next hnone =>
          refine not_reads_of_follows fun others => ?_
          rw [follows_index_close, hnone]
          rintro ⟨more, -, segment, hsegment, -⟩
          cases hsegment
  · next hclose =>
      exact reads_of_follows fun others => follows_index_of_ne hclose

theorem answers_quoted (quote : Char) (read : List Char) :
    Scan.Answers ⟨.quoted quote read, done⟩ c text segments
      (Scan.step ⟨.quoted quote read, done⟩ c) := by
  simp only [Scan.step]
  split
  · next hquote =>
      subst hquote
      exact reads_of_follows fun others => follows_quoted_quote
  · next hquote =>
      exact reads_of_follows fun others => follows_quoted_of_ne hquote

theorem answers_unquoted (read : List Char) :
    Scan.Answers ⟨.unquoted read, done⟩ c text segments
      (Scan.step ⟨.unquoted read, done⟩ c) := by
  simp only [Scan.step]
  split
  · next hclose =>
      subst hclose
      exact reads_of_segment fun others => follows_unquoted_close
  · next hclose =>
      exact not_reads_of_follows fun others => not_follows_unquoted hclose

end Step

theorem answers_step (scan : Scan) (c : Char) (text : List Char)
    (segments : List Segment) :
    scan.Answers c text segments (scan.step c) := by
  obtain ⟨place, done⟩ := scan
  cases place with
  | unit => exact answers_unit done c text segments
  | plain last read => exact answers_plain done c text segments last read
  | closed => exact answers_closed done c text segments
  | opened => exact answers_opened done c text segments
  | index read => exact answers_index done c text segments read
  | quoted quote read => exact answers_quoted done c text segments quote read
  | unquoted read => exact answers_unquoted done c text segments read

theorem finish_closed (done segments : List Segment) :
    Scan.finish ⟨.closed, done⟩ = .ok segments ↔
      Scan.Reads ⟨.closed, done⟩ [] segments := by
  refine ⟨?_, ?_⟩
  · intro h
    refine ⟨[], .nil, ?_⟩
    rw [List.append_nil]
    exact (Except.ok.inj h).symm
  · rintro ⟨others, hothers, rfl⟩
    rw [tail_nil_iff.mp hothers, List.append_nil]
    rfl

/-- Where a text may end, the segments are those that are read and the plain
part that ends there. -/
theorem finish_eq_ok_iff (scan : Scan) (segments : List Segment) :
    scan.finish = .ok segments ↔ scan.Reads [] segments := by
  obtain ⟨place, done⟩ := scan
  cases place with
  | unit =>
      refine iff_of_false ?_ (not_reads_of_follows fun others =>
        not_pathText_nil)
      simp only [Scan.finish]
      split
      · exact nofun
      · exact nofun
  | plain last read =>
      have hreads : Scan.Reads ⟨.plain last read, done⟩ [] segments ↔
          Scan.Reads ⟨.closed, Segment.ofPlain (last :: read).reverse :: done⟩
            [] segments :=
        reads_of_segment fun others => follows_plain_iff (by simp)
      exact (finish_closed _ _).trans hreads.symm
  | closed => exact finish_closed _ _
  | opened =>
      exact iff_of_false nofun (not_reads_of_follows fun others =>
        not_follows_opened_nil)
  | index read =>
      exact iff_of_false nofun (not_reads_of_follows fun others =>
        not_follows_index_nil)
  | quoted quote read =>
      exact iff_of_false nofun (not_reads_of_follows fun others =>
        not_follows_quoted_nil)
  | unquoted read =>
      refine iff_of_false nofun (not_reads_of_follows ?_)
      rintro others ⟨rest, more, htext, -⟩
      cases htext

theorem foldlM_step_eq_ok_iff (scan : Scan) (text : List Char)
    (segments : List Segment) :
    (text.foldlM Scan.step scan >>= Scan.finish) = .ok segments ↔
      scan.Reads text segments := by
  induction text generalizing scan with
  | nil => exact finish_eq_ok_iff scan segments
  | cons c text ih =>
      have hstep := answers_step scan c text segments
      rw [List.foldlM_cons]
      cases hnext : scan.step c with
      | error fault =>
          rw [hnext] at hstep
          exact iff_of_false nofun hstep
      | ok next =>
          rw [hnext] at hstep
          exact (ih next).trans hstep.symm

/-- The segments that are read are those that the grammar gives. -/
theorem scan_eq_ok_iff : scan text = .ok segments ↔ PathText text segments := by
  refine (foldlM_step_eq_ok_iff ⟨.unit, []⟩ text segments).trans ⟨?_, ?_⟩
  · rintro ⟨others, hothers, rfl⟩
    exact hothers
  · intro h
    exact ⟨segments, h, rfl⟩

theorem ne_nil_of_pathText (h : PathText text segments) : segments ≠ [] := by
  obtain ⟨first, rest, segment, others, -, rfl, -⟩ := pathText_iff.mp h
  exact List.cons_ne_nil _ _

theorem ne_nil_of_pathText_text (h : PathText text segments) : text ≠ [] := by
  rintro rfl
  exact not_pathText_nil h

theorem parse_eq_ok_iff {text : String} {p : Path} :
    parse text = .ok p ↔ PathText text.toList p.segments := by
  rw [← scan_eq_ok_iff, parse]
  obtain ⟨segments, hne⟩ := p
  cases scan text.toList with
  | error fault => exact iff_of_false nofun nofun
  | ok found =>
      by_cases hfound : found ≠ []
      · simp [hfound]
      · simp [hne.symm, not_not.mp hfound]

theorem exists_fault_of_parse {text : String} {e : Error}
    (h : parse text = .error e) :
    ∃ fault, e = .invalidPath (.malformed text fault) := by
  rw [parse] at h
  split at h
  · split at h
    · cases h
    · cases h
      exact ⟨_, rfl⟩
  · cases h
    exact ⟨_, rfl⟩

/-- The reader accepts the texts of paths, each with the segments that the
grammar gives for it from left to right, and refuses every other text as an
invalid path. -/
theorem parse_iff_pathText (text : String) :
    (∀ segments, (∃ p, parse text = .ok p ∧ p.segments = segments) ↔
      PathText text.toList segments) ∧
    ((∃ fault, parse text = .error (.invalidPath (.malformed text fault))) ↔
      ¬ ∃ segments, PathText text.toList segments) := by
  refine ⟨?_, ?_, ?_⟩
  · intro segments
    refine ⟨?_, ?_⟩
    · rintro ⟨p, hp, rfl⟩
      exact parse_eq_ok_iff.mp hp
    · intro h
      exact ⟨⟨segments, ne_nil_of_pathText h⟩, parse_eq_ok_iff.mpr h, rfl⟩
  · rintro ⟨fault, hfault⟩ ⟨segments, h⟩
    have hok : parse text = .ok ⟨segments, ne_nil_of_pathText h⟩ :=
      parse_eq_ok_iff.mpr h
    rw [hok] at hfault
    cases hfault
  · intro hnone
    cases hparse : parse text with
    | ok p => exact absurd ⟨p.segments, parse_eq_ok_iff.mp hparse⟩ hnone
    | error e =>
        obtain ⟨fault, rfl⟩ := exists_fault_of_parse hparse
        exact ⟨fault, rfl⟩

example : scan "a.0['b.c'][ +07 ].08".toList =
    .ok [.key "a", .index 0, .key "b.c", .index 7, .key "08"] := by
  rfl

example : scan "a[0]b".toList = .error .missingSeparator := by
  rfl

end DocumentStore.Path
