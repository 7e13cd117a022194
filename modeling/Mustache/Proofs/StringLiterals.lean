import Mathlib.Data.Nat.Init
import Mustache.Compiler

/-!
# String literals

A text that has been escaped for JSON stands between double quotes as a string literal, and the
literal is read as the text.

## The other sides

* `Json.readLiteral?` reads a string literal at the start of a text: every escape that JSON has, in
  either case of the digits and with pairs of surrogates, and none of the characters that have to be
  escaped. It finds the end of the literal by itself, so nothing that is escaped can be taken for
  the closing quote, nor anything behind it for a part of an escape.
* `Json.WellEscaped` is the narrower form that is written.

Texts are escaped in two ways, in templates (`EscapeMode.jsonChar`) and by the stringer
(`Json.literalChar`). Both are one function of the characters that are written by their code
(`Json.escapedChar`), and what is read back is shown of that.
-/

namespace Mustache

namespace Json

/-! ### Reading -/

/-- What a hexadecimal digit stands for. -/
def hexValue? (c : Char) : Option Nat :=
  if 48 ≤ c.toNat ∧ c.toNat ≤ 57 then some (c.toNat - 48)
  else if 97 ≤ c.toNat ∧ c.toNat ≤ 102 then some (c.toNat - 87)
  else if 65 ≤ c.toNat ∧ c.toNat ≤ 70 then some (c.toNat - 55)
  else none

/-- What a letter behind a backslash stands for. -/
def letterValue? (c : Char) : Option Char :=
  [('"', '"'), ('\\', '\\'), ('/', '/'), ('b', '\x08'), ('f', '\x0c'), ('n', '\n'), ('r', '\r'),
    ('t', '\t')].lookup c

/-- The code unit that four hexadecimal digits stand for, and the text behind them. -/
def codeUnit? : List Char → Option (Nat × List Char)
  | a :: b :: c :: d :: t => do
    let a ← hexValue? a
    let b ← hexValue? b
    let c ← hexValue? c
    let d ← hexValue? d
    return (((a * 16 + b) * 16 + c) * 16 + d, t)
  | _ => none

/-- The character of the code units behind `\u`, and the text behind them. A code unit that is half
of a pair stands for nothing without the other half. -/
def readCode? (t : List Char) : Option (Char × List Char) := do
  let (high, t) ← codeUnit? t
  if 0xD800 ≤ high ∧ high < 0xDC00 then
    match t with
    | '\\' :: 'u' :: t =>
      let (low, t) ← codeUnit? t
      if 0xDC00 ≤ low ∧ low < 0xE000 then
        return (Char.ofNat (0x10000 + (high - 0xD800) * 0x400 + (low - 0xDC00)), t)
      else none
    | _ => none
  else if 0xDC00 ≤ high ∧ high < 0xE000 then none
  else return (Char.ofNat high, t)

/-- The first character that a text inside a literal stands for, and the text behind it; `none` at
a quote, and at what cannot stand in a literal. -/
def readChar? : List Char → Option (Char × List Char)
  | '\\' :: 'u' :: t => readCode? t
  | '\\' :: c :: t => (letterValue? c).map fun d ↦ (d, t)
  | '\\' :: [] => none
  | c :: t => if c = '"' ∨ c.toNat < 32 then none else some (c, t)
  | [] => none

section

variable {t rest : List Char}

/-- Four digits are read, so less is left. -/
theorem length_lt_of_codeUnit? {n : Nat} (h : codeUnit? t = some (n, rest)) :
    rest.length < t.length := by
  unfold codeUnit? at h
  split at h
  · simp only [Option.bind_eq_bind, Option.bind_eq_some_iff] at h
    obtain ⟨_, -, _, -, _, -, _, -, h⟩ := h
    obtain ⟨-, rfl⟩ := Prod.mk.inj (Option.some.inj h)
    simp only [List.length_cons]
    omega
  · cases h

/-- A code takes one unit of digits or two, a pair of surrogates. -/
theorem length_lt_of_readCode? {c : Char} (h : readCode? t = some (c, rest)) :
    rest.length < t.length := by
  unfold readCode? at h
  obtain ⟨⟨high, behind⟩, hhigh, h⟩ := Option.bind_eq_some_iff.1 h
  have hlt := length_lt_of_codeUnit? hhigh
  dsimp only at h
  split at h
  · split at h
    · obtain ⟨⟨low, last⟩, hlow, h⟩ := Option.bind_eq_some_iff.1 h
      have hlast := length_lt_of_codeUnit? hlow
      simp only [List.length_cons] at hlt
      dsimp only at h
      split at h
      · obtain ⟨-, rfl⟩ := Prod.mk.inj (Option.some.inj h)
        omega
      · cases h
    · cases h
  · split at h
    · cases h
    · obtain ⟨-, rfl⟩ := Prod.mk.inj (Option.some.inj h)
      exact hlt

/-- Every character that is read takes something of the text. This is what the reader of a literal
ends by. -/
theorem length_lt_of_readChar? {c : Char} (h : readChar? t = some (c, rest)) :
    rest.length < t.length := by
  unfold readChar? at h
  split at h
  · have hlt := length_lt_of_readCode? h
    simp only [List.length_cons]
    omega
  · obtain ⟨d, -, heq⟩ := Option.map_eq_some_iff.1 h
    obtain ⟨-, rfl⟩ := Prod.mk.inj heq
    simp only [List.length_cons]
    omega
  · cases h
  · split at h
    · cases h
    · obtain ⟨-, rfl⟩ := Prod.mk.inj (Option.some.inj h)
      exact Nat.lt_succ_self _
  · cases h

end

/-- The text of a literal whose opening quote has been read, and the text behind its closing one. -/
def readRest? (t : List Char) : Option (List Char × List Char) :=
  match _hread : readChar? t with
  | some (c, rest) => (readRest? rest).map fun parts ↦ (c :: parts.1, parts.2)
  | none =>
    match t with
    | '"' :: behind => some ([], behind)
    | _ => none
termination_by t.length
decreasing_by exact length_lt_of_readChar? _hread

/-- The text of the string literal at the start of a text, and the text behind the literal. -/
def readLiteral? : List Char → Option (List Char × List Char)
  | '"' :: t => readRest? t
  | _ => none

/-- A character that is read is put in front of the rest of the literal. -/
theorem readRest?_of_some {t rest : List Char} {c : Char} (h : readChar? t = some (c, rest)) :
    readRest? t = (readRest? rest).map fun parts ↦ (c :: parts.1, parts.2) := by
  rw [readRest?]
  split
  · next heq => rw [h] at heq; cases heq; rfl
  · next heq => rw [h] at heq; cases heq

/-- The closing quote ends a literal. -/
theorem readRest?_quote (behind : List Char) : readRest? ('"' :: behind) = some ([], behind) := by
  rw [readRest?]
  rfl

/-! ### Spelling -/

/-- Whether a text inside a literal is read as a character, whatever is behind it. -/
def Spells (t : List Char) (c : Char) : Prop :=
  ∀ behind, readChar? (t ++ behind) = some (c, behind)

/-- **A literal in which every character is spelled is read as the text**, up to its closing
quote. -/
theorem readLiteral?_of_spells {f : Char → List Char} (hf : ∀ c, Spells (f c) c)
    (t behind : List Char) :
    readLiteral? ('"' :: (t.flatMap f ++ '"' :: behind)) = some (t, behind) := by
  show readRest? (t.flatMap f ++ '"' :: behind) = _
  induction t with
  | nil => exact readRest?_quote behind
  | cons c t ih =>
    rw [List.flatMap_cons, List.append_assoc, readRest?_of_some (hf c _), ih]
    rfl

/-- The characters with an escape of their own, each with its letter. -/
def letterTable : List (Char × Char) :=
  [('"', '"'), ('\\', '\\'), ('\n', 'n'), ('\x08', 'b'), ('\x0c', 'f'), ('\r', 'r'),
    ('\t', 't')]

/-- The escape of a character by its code, which has two digits. -/
def codeEscape (c : Char) : List Char :=
  ['\\', 'u', '0', '0', Nat.digitChar (c.toNat / 16), Nat.digitChar (c.toNat % 16)]

/-- A character inside a literal, where some characters are written by their code. -/
def escapedChar (coded : Char → Bool) (c : Char) : List Char :=
  match letterTable.lookup c with
  | some letter => ['\\', letter]
  | none => if coded c then codeEscape c else [c]

/-- A character without a letter of its own is none of the seven that have one. -/
theorem ne_of_lookup_letterTable {c : Char} (h : letterTable.lookup c = none) :
    c ≠ '"' ∧ c ≠ '\\' ∧ c ≠ '\n' ∧ c ≠ '\x08' ∧ c ≠ '\x0c' ∧ c ≠ '\r' ∧ c ≠ '\t' := by
  have hne : ∀ p ∈ letterTable, c ≠ p.1 := Entries.ne_of_lookup_eq_none h
  simpa only [letterTable, List.forall_mem_cons, List.not_mem_nil, false_imp_iff, implies_true,
    and_true] using hne

/-- Templates write every control character by its code. -/
theorem jsonChar_eq (c : Char) :
    EscapeMode.jsonChar c = escapedChar EscapeMode.isControl c := by
  rw [escapedChar]
  cases h : letterTable.lookup c with
  | some letter =>
    have hletters : ∀ p ∈ letterTable, EscapeMode.jsonChar p.1 = ['\\', p.2] := by decide
    exact hletters _ (Entries.mem_of_lookup h)
  | none =>
    obtain ⟨hquote, hbackslash, hfeed, hback, hform, hreturn, htab⟩ := ne_of_lookup_letterTable h
    rw [EscapeMode.jsonChar, if_neg hquote, if_neg hbackslash, if_neg hfeed, if_neg hback,
      if_neg hform, if_neg hreturn, if_neg htab]
    rfl

/-- The stringer writes those below the space by their code. -/
theorem literalChar_eq (c : Char) :
    literalChar c = escapedChar (fun c ↦ c.toNat < 32) c := by
  rw [escapedChar]
  cases h : letterTable.lookup c with
  | some letter =>
    have hletters : ∀ p ∈ letterTable, literalChar p.1 = ['\\', p.2] := by decide
    exact hletters _ (Entries.mem_of_lookup h)
  | none =>
    obtain ⟨hquote, hbackslash, hfeed, hback, hform, hreturn, htab⟩ := ne_of_lookup_letterTable h
    rw [literalChar, if_neg hquote, if_neg hbackslash, if_neg hfeed, if_neg hreturn, if_neg htab,
      if_neg hback, if_neg hform]
    by_cases hlow : c.toNat < 32
    · have hdigit : hexDigit (c.toNat / 16) = Nat.digitChar (c.toNat / 16) := by
        rw [hexDigit, Nat.mod_eq_of_lt (by omega)]
      rw [if_pos hlow, if_pos (decide_eq_true hlow), hdigit]
      rfl
    · rw [if_neg hlow, if_neg (by simpa using hlow)]

/-- The two-character escapes of the table. -/
theorem spells_letter {c letter : Char} (h : (c, letter) ∈ letterTable) :
    Spells ['\\', letter] c := by
  simp only [letterTable, List.mem_cons, Prod.mk.injEq, List.not_mem_nil, or_false] at h
  intro behind
  rcases h with ⟨rfl, rfl⟩ | ⟨rfl, rfl⟩ | ⟨rfl, rfl⟩ | ⟨rfl, rfl⟩ | ⟨rfl, rfl⟩ | ⟨rfl, rfl⟩ |
    ⟨rfl, rfl⟩ <;> rfl

/-- The four-digit escape of a character below 256, with its two leading zeros. -/
theorem spells_code {c : Char} (h : c.toNat < 256) : Spells (codeEscape c) c := by
  have hdigit : ∀ n < 16, hexValue? (Nat.digitChar n) = some n := by decide
  have hunit (behind : List Char) :
      codeUnit? ('0' :: '0' :: Nat.digitChar (c.toNat / 16) :: Nat.digitChar (c.toNat % 16) ::
        behind) = some (c.toNat, behind) := by
    have hvalue : ((0 * 16 + 0) * 16 + c.toNat / 16) * 16 + c.toNat % 16 = c.toNat := by omega
    rw [codeUnit?, show hexValue? '0' = some 0 from rfl, hdigit _ (by omega),
      hdigit _ (by omega)]
    exact congrArg (fun n ↦ some (n, behind)) hvalue
  intro behind
  show readCode? _ = _
  rw [readCode?]
  show (codeUnit? ('0' :: '0' :: Nat.digitChar (c.toNat / 16) :: Nat.digitChar (c.toNat % 16) ::
        behind)).bind _ = _
  rw [hunit, Option.bind_some]
  dsimp only
  rw [if_neg (by omega), if_neg (by omega), Char.ofNat_toNat]
  rfl

/-- A character that JSON does not ask to be escaped stands for itself. -/
theorem spells_self {c : Char} (hquote : c ≠ '"') (hbackslash : c ≠ '\\')
    (hcontrol : 32 ≤ c.toNat) : Spells [c] c := by
  intro behind
  show readChar? (c :: behind) = _
  unfold readChar?
  split
  · next heq => exact absurd (List.cons.inj heq).1 hbackslash
  · next heq => exact absurd (List.cons.inj heq).1 hbackslash
  · next heq => exact absurd (List.cons.inj heq).1 hbackslash
  · next heq =>
    obtain ⟨rfl, rfl⟩ := List.cons.inj heq
    rw [if_neg (not_or.2 ⟨hquote, Nat.not_lt.2 hcontrol⟩)]
  · next heq => cases heq

/-- Whatever else is written by its code, the characters are spelled if the control characters below
the space are among them. -/
theorem spells_escapedChar {coded : Char → Bool} (hlow : ∀ c, c.toNat < 32 → coded c = true)
    (hcoded : ∀ c, coded c = true → c.toNat < 256) (c : Char) :
    Spells (escapedChar coded c) c := by
  unfold escapedChar
  split
  · next letter h => exact spells_letter (Entries.mem_of_lookup h)
  · next h =>
    obtain ⟨hquote, hbackslash, -⟩ := ne_of_lookup_letterTable h
    split
    · next hc => exact spells_code (hcoded c hc)
    · next hc => exact spells_self hquote hbackslash (Nat.not_lt.1 (mt (hlow c) hc))

/-- The characters below 32, which JSON does not allow in a literal, are control characters. -/
theorem isControl_of_lt {c : Char} (h : c.toNat < 32) : EscapeMode.isControl c = true := by
  rw [EscapeMode.isControl, decide_eq_true h, Bool.true_or]

/-- The last control character is below 160, so that two digits are enough for all of them. -/
theorem lt_of_isControl {c : Char} (h : EscapeMode.isControl c = true) : c.toNat < 160 := by
  simp only [EscapeMode.isControl, Bool.or_eq_true, Bool.and_eq_true, decide_eq_true_eq] at h
  omega

/-- What is written for a character is read as that character. -/
theorem spells_jsonChar (c : Char) : Spells (EscapeMode.jsonChar c) c := by
  rw [jsonChar_eq]
  exact spells_escapedChar (fun _ ↦ isControl_of_lt)
    (fun _ h ↦ Nat.lt_trans (lt_of_isControl h) (by decide)) c

theorem spells_literalChar (c : Char) : Spells (literalChar c) c := by
  rw [literalChar_eq]
  exact spells_escapedChar (fun _ h ↦ decide_eq_true h)
    (fun _ h ↦ Nat.lt_trans (of_decide_eq_true h) (by decide)) c

/-! ### What is written -/

/-- Texts as they stand in a literal: no quote, no backslash and no character below the space but in
an escape, and of escapes only those by a letter other than the slash and those by a code of four
small digits. -/
inductive WellEscaped : List Char → Prop
  | nil : WellEscaped []
  | plain {c : Char} {t : List Char} (hquote : c ≠ '"') (hbackslash : c ≠ '\\')
    (hcontrol : 32 ≤ c.toNat) (ht : WellEscaped t) : WellEscaped (c :: t)
  | letter {c : Char} {t : List Char} (hc : c ∈ ['"', '\\', 'n', 'b', 'f', 'r', 't'])
    (ht : WellEscaped t) : WellEscaped ('\\' :: c :: t)
  | code {digits t : List Char} (hlength : digits.length = 4)
    (hdigits : ∀ d ∈ digits, d ∈ "0123456789abcdef".toList) (ht : WellEscaped t) :
    WellEscaped ('\\' :: 'u' :: (digits ++ t))

theorem wellEscaped_codeEscape_append {c : Char} (hc : c.toNat < 256) {t : List Char}
    (ht : WellEscaped t) : WellEscaped (codeEscape c ++ t) := by
  have hdigit : ∀ n < 16, Nat.digitChar n ∈ "0123456789abcdef".toList := by decide
  show WellEscaped ('\\' :: 'u' ::
    (['0', '0', Nat.digitChar (c.toNat / 16), Nat.digitChar (c.toNat % 16)] ++ t))
  refine .code rfl ?_ ht
  simp only [List.forall_mem_cons, List.not_mem_nil, false_imp_iff, implies_true, and_true]
  exact ⟨by decide, by decide, hdigit _ (by omega), hdigit _ (by omega)⟩

/-- What is written for a character may stand in front of any text that is well escaped. -/
theorem wellEscaped_jsonChar_append (c : Char) {t : List Char} (ht : WellEscaped t) :
    WellEscaped (EscapeMode.jsonChar c ++ t) := by
  rw [jsonChar_eq, escapedChar]
  split
  · next letter h =>
    have hletters : ∀ p ∈ letterTable, p.2 ∈ ['"', '\\', 'n', 'b', 'f', 'r', 't'] := by decide
    exact .letter (hletters _ (Entries.mem_of_lookup h)) ht
  · next h =>
    obtain ⟨hquote, hbackslash, -⟩ := ne_of_lookup_letterTable h
    split
    · next hc =>
      exact wellEscaped_codeEscape_append (Nat.lt_trans (lt_of_isControl hc) (by decide)) ht
    · next hc => exact .plain hquote hbackslash (Nat.not_lt.1 (mt isControl_of_lt hc)) ht

theorem wellEscaped_flatMap_jsonChar (t : List Char) :
    WellEscaped (t.flatMap EscapeMode.jsonChar) := by
  induction t with
  | nil => exact .nil
  | cons c t ih => exact wellEscaped_jsonChar_append c ih

/-! ### Two ways to escape -/

/-- The control characters above the space. -/
def isHighControl (c : Char) : Bool :=
  127 ≤ c.toNat && c.toNat < 160

/-- These are all that the two ways to escape differ in. -/
theorem literalChar_eq_jsonChar {c : Char} (h : isHighControl c = false) :
    literalChar c = EscapeMode.jsonChar c := by
  have hcoded : EscapeMode.isControl c = decide (c.toNat < 32) := by
    rw [EscapeMode.isControl, show (_ && _) = isHighControl c from rfl, h, Bool.or_false]
  rw [literalChar_eq, jsonChar_eq, escapedChar, escapedChar, hcoded]

/-- Templates write them by their code, and the stringer as they are. -/
theorem head?_of_isHighControl {c : Char} (h : isHighControl c = true) :
    (literalChar c).head? = some c ∧ (EscapeMode.jsonChar c).head? = some '\\' := by
  have hnone : letterTable.lookup c = none := by
    have hletters : ∀ p ∈ letterTable, isHighControl p.1 = false := by decide
    cases hlookup : letterTable.lookup c with
    | none => rfl
    | some letter => exact nomatch h.symm.trans (hletters _ (Entries.mem_of_lookup hlookup))
  have hhigh : ¬ c.toNat < 32 := by
    simp only [isHighControl, Bool.and_eq_true, decide_eq_true_eq] at h
    omega
  have hcontrol : EscapeMode.isControl c = true := by
    rw [EscapeMode.isControl, show (_ && _) = isHighControl c from rfl, h, Bool.or_true]
  rw [literalChar_eq, jsonChar_eq, escapedChar, escapedChar, hnone, decide_eq_false hhigh, hcontrol]
  exact ⟨rfl, rfl⟩

/-- The two writers agree on a text exactly if it has none of the control characters from 127 on. -/
theorem flatMap_literalChar_eq_iff (t : List Char) :
    t.flatMap literalChar = t.flatMap EscapeMode.jsonChar ↔
      ∀ c ∈ t, isHighControl c = false := by
  induction t with
  | nil => exact ⟨fun _ _ hc ↦ absurd hc List.not_mem_nil, fun _ ↦ rfl⟩
  | cons c t ih =>
    rw [List.flatMap_cons, List.flatMap_cons, List.forall_mem_cons]
    cases hc : isHighControl c with
    | false =>
      rw [literalChar_eq_jsonChar hc, List.append_cancel_left_eq, ih]
      exact ⟨fun h ↦ ⟨rfl, h⟩, fun h ↦ h.2⟩
    | true =>
      refine ⟨fun heq ↦ ?_, fun h ↦ nomatch h.1⟩
      -- no character is written as two that differ at the start
      obtain ⟨hliteral, hjson⟩ := head?_of_isHighControl hc
      have hheads := congrArg List.head? heq
      rw [List.head?_append, List.head?_append, hliteral, hjson] at hheads
      obtain rfl : c = '\\' := Option.some.inj hheads
      cases hc

end Json

/-- **A text that has been escaped for JSON is a string literal of the same text.** Between double
quotes it is read as the text up to its closing quote, whatever is behind it, and texts are escaped
part by part. The stringer writes a literal of the same text. The two literals are the same one
unless the text has a control character above the space. -/
theorem escaped_text_reads_back (t u : String) :
    Json.WellEscaped (EscapeMode.json.escape t).toList ∧
    (∀ behind, Json.readLiteral? ('"' :: ((EscapeMode.json.escape t).toList ++ '"' :: behind)) =
      some (t.toList, behind)) ∧
    EscapeMode.json.escape (t ++ u) = EscapeMode.json.escape t ++ EscapeMode.json.escape u ∧
    ∃ literal, Stringer.json (.text t) = .ok literal ∧
      (∀ behind, Json.readLiteral? (literal.toList ++ behind) = some (t.toList, behind)) ∧
      (literal.toList = '"' :: ((EscapeMode.json.escape t).toList ++ ['"']) ↔
        ∀ c ∈ t.toList, Json.isHighControl c = false) := by
  have hescape : (EscapeMode.json.escape t).toList = t.toList.flatMap EscapeMode.jsonChar :=
    String.toList_ofList
  have hliteral : (Json.literal t).toList = '"' :: (t.toList.flatMap Json.literalChar ++ ['"']) :=
    String.toList_ofList
  refine ⟨?_, fun behind ↦ ?_, EscapeMode.escape_append .json t u, Json.literal t, rfl,
    fun behind ↦ ?_, ?_⟩
  · rw [hescape]
    exact Json.wellEscaped_flatMap_jsonChar t.toList
  · rw [hescape]
    exact Json.readLiteral?_of_spells Json.spells_jsonChar t.toList behind
  · rw [hliteral, List.cons_append, List.append_assoc]
    exact Json.readLiteral?_of_spells Json.spells_literalChar t.toList behind
  · rw [hliteral, hescape, List.cons_inj_right, List.append_left_inj]
    exact Json.flatMap_literalChar_eq_iff t.toList

end Mustache
