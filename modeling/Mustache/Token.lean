import Mustache.Defect
import Mustache.Delimiters
import Mustache.Text.Line
import Mustache.Text.Search

/-!
# Tokens of a template

A template is read from left to right as a flat sequence of tokens. A token is the text in front
of a tag together with that tag; the sequence ends with the text after the last tag, or with the
first defect that can be seen without knowing how sections nest.

## Shape decisions

* **Delimiters follow the text, not the sections.** A delimiter change holds for all that comes
  after it, so it is settled here and the nesting of sections never has to know of it.
* **A token keeps what it consumed.** `before`, `padding`, `written` and the line end are
  consecutive pieces of the template: put together they are the template again.
* **Standing alone is decided here.** A tag that is not written out stands alone when nothing but
  spaces and tabs shares its line. Its padding and the end of its line are then no text of the
  template.
-/

namespace Mustache

/-- What a tag asks for. -/
inductive Directive
  /-- A remark, which leaves no trace. -/
  | comment
  /-- The start of a section, rendered when the name is empty if inverted. -/
  | enter (name : String) (inverted : Bool)
  /-- The end of a section. -/
  | leave (name : String)
  /-- A partial: another template rendered in this place. -/
  | inclusion (name : String)
  /-- A change of delimiters. -/
  | delimiters (d : Delimiters)
  /-- A value written out, escaped unless marked raw. -/
  | interpolation (name : String) (raw : Bool)
  deriving DecidableEq

/-- The name behind the sigil of a tag. -/
def Directive.nameBehindSigil (body : List Char) : String :=
  String.ofList (Text.trim body.tail)

/-- What a tag asks for, read off its trimmed body; `none` when it is a delimiter change without
two usable delimiters. -/
def Directive.ofBody? (body : List Char) : Option Directive :=
  match body.head? with
  | some '!' => some .comment
  | some '#' => some (.enter (nameBehindSigil body) false)
  | some '^' => some (.enter (nameBehindSigil body) true)
  | some '/' => some (.leave (nameBehindSigil body))
  | some '>' => some (.inclusion (nameBehindSigil body))
  | some '=' => (Delimiters.ofBody? body).map .delimiters
  | some '&' => some (.interpolation (nameBehindSigil body) true)
  | some '\x7b' =>
    if 1 < body.length ∧ body.getLast? = some '\x7d' then
      some (.interpolation (String.ofList (Text.trim body.tail.dropLast)) true)
    else some (.interpolation (String.ofList body) false)
  | _ => some (.interpolation (String.ofList body) false)

/-- The sigils of the tags that may stand alone on a line. -/
def standaloneSigils : List Char :=
  ['!', '#', '^', '/', '>', '=']

/-- Whether a tag with this trimmed body stands alone when its line has room for it. -/
def mayStandAlone (body : List Char) : Bool :=
  body.head?.any standaloneSigils.contains

/-- A tag and the text in front of it. -/
structure Token where
  /-- The text in front of the tag, less its padding. -/
  before : List Char
  /-- The spaces and tabs between the start of the line and the tag. Empty when something else
  is in front of the tag on its line. -/
  padding : List Char
  /-- The tag as it is written, delimiters included. -/
  written : List Char
  /-- What the tag asks for. -/
  directive : Directive
  /-- The line of the closing delimiter. -/
  line : Nat
  /-- The remainder of the line of a tag that stands alone. -/
  lineEnd? : Option (List Char)

namespace Token

/-- The text in front of the tag as far as it belongs to the template. -/
def text (t : Token) : List Char :=
  if t.lineEnd?.isSome then t.before else t.before ++ t.padding

/-- All that was consumed. -/
def source (t : Token) : List Char :=
  t.before ++ t.padding ++ t.written ++ t.lineEnd?.getD []

end Token

/-- How a sequence of tokens ends. -/
inductive Ending
  /-- With the text behind the last tag, and the delimiters then in effect. -/
  | finished (text : List Char) (delimiters : Delimiters)
  /-- With a defect. -/
  | defective (m : Malformed)

/-- The tokens of a template. -/
structure Tokens where
  list : List Token
  ending : Ending

/-- The tokens with one more in front. -/
def Tokens.push (following : Tokens) (t : Token) : Tokens :=
  ⟨t :: following.list, following.ending⟩

/-! ### The text in front of a tag -/

/-- The text in front of a tag, parted where the tag's line has only spaces and tabs before it. -/
structure Lead where
  before : List Char
  padding : List Char
  /-- Whether only the padding is in front of the tag on its line. -/
  startsLine : Bool

/-- Parts the text in front of a tag. The text itself begins at the start of a line or not. -/
def Lead.ofText (atLineStart : Bool) (text : List Char) : Lead :=
  let trimmed := Text.dropRightWhile Text.isInline text
  if trimmed.getLast?.elim atLineStart (· == '\n') then
    ⟨trimmed, Text.takeRightWhile Text.isInline text, true⟩
  else ⟨text, [], false⟩

/-- Parting loses nothing. -/
theorem Lead.before_append_padding (atLineStart : Bool) (text : List Char) :
    (ofText atLineStart text).before ++ (ofText atLineStart text).padding = text := by
  simp only [ofText]
  split
  · exact Text.dropRightWhile_append_takeRightWhile ..
  · exact List.append_nil text

/-! ### Reading -/

/-- A position in a template. -/
structure Cursor where
  /-- The text ahead. -/
  rest : List Char
  /-- The line of the position. -/
  line : Nat
  /-- Whether the position is the start of a line. -/
  atLineStart : Bool
  delimiters : Delimiters

/-- One step of reading. -/
inductive Step
  | token (t : Token) (next : Cursor)
  | stop (e : Ending)

namespace Cursor

/-- The start of a template. -/
def start (template : List Char) : Cursor :=
  ⟨template, 1, true, .standard⟩

/-- The body of a tag whose opening delimiter has just been read, and the text behind the closing
one. A body that starts with a brace ends with the first brace that the closing delimiter
follows. -/
def body? (d : Delimiters) (t : List Char) : Option (List Char × List Char) :=
  if t.head? = some '\x7b' then
    (Text.cut? ('\x7d' :: d.closing) t).map fun parts ↦ (parts.1 ++ ['\x7d'], parts.2)
  else Text.cut? d.closing t

/-- A body loses nothing: with the closing delimiter and the text behind it, it is the text. -/
theorem eq_append_of_body? {d : Delimiters} {t body behind : List Char}
    (h : body? d t = some (body, behind)) : t = body ++ (d.closing ++ behind) := by
  unfold body? at h
  split at h
  · obtain ⟨parts, hparts, heq⟩ := Option.map_eq_some_iff.1 h
    obtain ⟨rfl, rfl⟩ := Prod.mk.inj heq
    simpa using Text.eq_append_of_cut? hparts
  · exact Text.eq_append_of_cut? h

/-- The delimiters in effect behind a tag. -/
def delimitersAfter (c : Cursor) : Directive → Delimiters
  | .delimiters d => d
  | _ => c.delimiters

/-- The line end that a tag takes with it: the remainder of its line, when only its padding is in
front of it, its kind may stand alone, and nothing else follows on the line. -/
def takenLineEnd? (lead : Lead) (body behind : List Char) : Option (List Char × List Char) :=
  if lead.startsLine && mayStandAlone body then Text.lineEnd? behind else none

/-- The token of a tag whose directive is known, and the position behind it. -/
def tagStep (c : Cursor) (lead : Lead) (raw behind : List Char) (line : Nat)
    (directive : Directive) : Step :=
  let written := c.delimiters.opening ++ (raw ++ c.delimiters.closing)
  match takenLineEnd? lead (Text.trim raw) behind with
  | none =>
    .token ⟨lead.before, lead.padding, written, directive, line, none⟩
      ⟨behind, line, false, c.delimitersAfter directive⟩
  | some (ending, rest) =>
    .token ⟨lead.before, lead.padding, written, directive, line, some ending⟩
      ⟨rest, line + Text.lineBreaks ending, true, c.delimitersAfter directive⟩

/-- Reads the text up to the next tag and that tag. -/
def step (c : Cursor) : Step :=
  match Text.cut? c.delimiters.opening c.rest with
  | none => .stop (.finished c.rest c.delimiters)
  | some (text, inside) =>
    match body? c.delimiters inside with
    | none => .stop (.defective ⟨c.line + Text.lineBreaks text, .unmatchedOpen⟩)
    | some (raw, behind) =>
      let line := c.line + Text.lineBreaks text + Text.lineBreaks raw
      if Text.trim raw = [] then .stop (.defective ⟨line, .emptyTag⟩)
      else
        match Directive.ofBody? (Text.trim raw) with
        | none => .stop (.defective ⟨line, .invalidDelimiters⟩)
        | some directive => c.tagStep (Lead.ofText c.atLineStart text) raw behind line directive

/-- The tag of a token starts with the opening delimiter. -/
theorem written_of_tagStep {c next : Cursor} {lead : Lead} {raw behind : List Char} {line : Nat}
    {directive : Directive} {t : Token}
    (h : c.tagStep lead raw behind line directive = .token t next) :
    t.written = c.delimiters.opening ++ (raw ++ c.delimiters.closing) := by
  simp only [tagStep] at h
  split at h <;> obtain ⟨rfl, rfl⟩ := Step.token.inj h <;> rfl

/-- A token and the text behind it are its lead, its tag and the text behind the tag. -/
theorem source_of_tagStep {c next : Cursor} {lead : Lead} {raw behind : List Char} {line : Nat}
    {directive : Directive} {t : Token}
    (h : c.tagStep lead raw behind line directive = .token t next) :
    t.source ++ next.rest =
      lead.before ++ lead.padding ++ (c.delimiters.opening ++ (raw ++ (c.delimiters.closing ++
        behind))) := by
  simp only [tagStep] at h
  split at h
  · obtain ⟨rfl, rfl⟩ := Step.token.inj h
    simp [Token.source]
  · next ending rest hend =>
    obtain ⟨rfl, rfl⟩ := Step.token.inj h
    unfold takenLineEnd? at hend
    split at hend
    · simp [Token.source, Text.append_of_lineEnd? hend]
    · simp at hend

/-- What a step that reads a token has found on its way. -/
theorem exists_tagStep_of_step {c next : Cursor} {t : Token} (h : c.step = .token t next) :
    ∃ text inside raw behind directive,
      Text.cut? c.delimiters.opening c.rest = some (text, inside) ∧
      body? c.delimiters inside = some (raw, behind) ∧
      Text.trim raw ≠ [] ∧
      Directive.ofBody? (Text.trim raw) = some directive ∧
      c.tagStep (Lead.ofText c.atLineStart text) raw behind
        (c.line + Text.lineBreaks text + Text.lineBreaks raw) directive = .token t next := by
  simp only [step] at h
  split at h
  · simp at h
  · next text inside htext =>
    split at h
    · simp at h
    · next raw behind hbody =>
      split at h
      · simp at h
      · next hne =>
        split at h
        · simp at h
        · next directive hdirective =>
          exact ⟨text, inside, raw, behind, directive, htext, hbody, hne, hdirective, h⟩

/-- A step consumes its token and nothing else. -/
theorem rest_of_step {c next : Cursor} {t : Token} (h : c.step = .token t next) :
    c.rest = t.source ++ next.rest := by
  obtain ⟨text, inside, raw, behind, directive, htext, hbody, -, -, htag⟩ :=
    exists_tagStep_of_step h
  rw [source_of_tagStep htag, Lead.before_append_padding, ← eq_append_of_body? hbody]
  exact Text.eq_append_of_cut? htext

/-- The position behind a token is nearer to the end of the template. -/
theorem length_rest_lt_of_step {c next : Cursor} {t : Token} (h : c.step = .token t next) :
    next.rest.length < c.rest.length := by
  obtain ⟨text, inside, raw, behind, directive, -, -, -, -, htag⟩ := exists_tagStep_of_step h
  have hopen := List.length_pos_iff.2 c.delimiters.opening_usable.1
  have hwritten := congrArg List.length (written_of_tagStep htag)
  have hrest := congrArg List.length (rest_of_step h)
  simp only [Token.source, List.length_append] at hwritten hrest
  omega

/-- The tokens from a position on, behind those read before, the latest of which is first. -/
def tokensAfter (read : List Token) (c : Cursor) : Tokens :=
  match _hstep : c.step with
  | .stop e => ⟨read.reverse, e⟩
  | .token t next => next.tokensAfter (t :: read)
termination_by c.rest.length
decreasing_by exact length_rest_lt_of_step _hstep

/-- The tokens from a position on. -/
def tokens (c : Cursor) : Tokens :=
  c.tokensAfter []

theorem tokensAfter_of_stop {c : Cursor} {e : Ending} (h : c.step = .stop e) (read : List Token) :
    c.tokensAfter read = ⟨read.reverse, e⟩ := by
  rw [tokensAfter]
  split
  · next hstep => rw [h] at hstep; cases hstep; rfl
  · next hstep => rw [h] at hstep; cases hstep

theorem tokensAfter_of_token {c next : Cursor} {t : Token} (h : c.step = .token t next)
    (read : List Token) : c.tokensAfter read = next.tokensAfter (t :: read) := by
  rw [tokensAfter]
  split
  · next hstep => rw [h] at hstep; cases hstep
  · next hstep => rw [h] at hstep; cases hstep; rfl

/-- What was read before goes in front of the tokens from here on. -/
theorem tokensAfter_eq (read : List Token) (c : Cursor) :
    c.tokensAfter read = ⟨read.reverse ++ c.tokens.list, c.tokens.ending⟩ := by
  match hstep : c.step with
  | .stop e => simp [tokens, tokensAfter_of_stop hstep]
  | .token t next =>
    have hread := tokensAfter_eq (t :: read) next
    have hfirst := tokensAfter_eq [t] next
    rw [tokens, tokensAfter_of_token hstep, tokensAfter_of_token hstep, hread, hfirst]
    simp
termination_by c.rest.length
decreasing_by all_goals exact length_rest_lt_of_step hstep

theorem tokens_of_stop {c : Cursor} {e : Ending} (h : c.step = .stop e) : c.tokens = ⟨[], e⟩ :=
  tokensAfter_of_stop h []

/-- The first token is followed by those behind it. -/
theorem tokens_of_token {c next : Cursor} {t : Token} (h : c.step = .token t next) :
    c.tokens = next.tokens.push t := by
  rw [tokens, tokensAfter_of_token h, tokensAfter_eq]
  rfl

end Cursor

/-- The tokens of a template. -/
def Tokens.ofTemplate (template : List Char) : Tokens :=
  (Cursor.start template).tokens

end Mustache
