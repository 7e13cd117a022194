import Mustache.Proofs.RunsInSequence
import Mustache.Proofs.SideBySide

/-!
# No markup from data

A template in HTML mode writes two things, the texts of templates and escaped values. Where no
interpolation is raw and no lambda has its say, markup in the output is markup in the texts, and an
ampersand that no text has written starts an entity (`no_markup_from_data`).

What is asked of templates is asked of all that are compiled during the rendering, partials of
partials included. They are known by the notices that a run gives of them, so a run is looked at
notice by notice: `Run.Guarded` says that all it writes is safe up to the first notice of something
else. That is a property of every start of a run too, and so it reaches a sink that fails on the
way (`Run.Guarded.exists_text`).
-/

namespace Mustache

namespace Text

/-- The characters that tags and attributes are marked with. -/
def markup : List Char :=
  ['<', '>', '"', '\x27']

/-- What stands for characters that mean something in markup. -/
def entities : List String :=
  ["&amp;", "&lt;", "&gt;", "&quot;", "&#39;"]

/-- Whether none of these characters is in the text. -/
def Without (marks : List Char) (t : String) : Prop :=
  ∀ c ∈ t.toList, c ∉ marks

/-- Whether every ampersand in the text starts an entity. -/
def AmpersandsEscape (t : String) : Prop :=
  ∀ front behind, t.toList = front ++ '&' :: behind → ∃ e ∈ entities, e.toList <+: '&' :: behind

/-- Decided by a look at each character of the text. -/
instance (marks : List Char) (t : String) : Decidable (Without marks t) :=
  List.decidableBAll (fun c ↦ c ∉ marks) t.toList

/-! ### Characters and bytes -/

/-- A byte below 128 is the character that it encodes. -/
theorem toNat_eq_of_mem_utf8EncodeChar {c : Char} {b : UInt8} (h : b ∈ String.utf8EncodeChar c)
    (hb : b.toNat < 128) : b.toNat = c.toNat := by
  -- the bytes of any other character are at least 128
  have hother {n : Nat} (h : 128 ≤ n ∧ n < 256) : b ≠ UInt8.ofNat n := by
    rintro rfl
    rw [UInt8.toNat_ofNat'] at hb
    omega
  rw [String.utf8EncodeChar] at h
  split at h
  · next hle =>
    have hle : c.toNat ≤ 127 := hle
    rw [List.mem_singleton.1 h, UInt8.toNat_ofNat']
    exact Nat.mod_eq_of_lt (show c.toNat < 2 ^ 8 by omega)
  · refine absurd h ?_
    split
    · simp only [List.mem_cons, List.not_mem_nil, or_false, not_or]
      exact ⟨hother (by omega), hother (by omega)⟩
    · split
      · simp only [List.mem_cons, List.not_mem_nil, or_false, not_or]
        exact ⟨hother (by omega), hother (by omega), hother (by omega)⟩
      · simp only [List.mem_cons, List.not_mem_nil, or_false, not_or]
        exact ⟨hother (by omega), hother (by omega), hother (by omega), hother (by omega)⟩

/-- The text has the characters that its bytes below 128 are. -/
theorem exists_mem_toList_of_mem_toUTF8 {t : String} {b : UInt8} (h : b ∈ t.toUTF8.data)
    (hb : b.toNat < 128) : ∃ c ∈ t.toList, b.toNat = c.toNat := by
  have hbytes := String.toByteArray_ofList (l := t.toList)
  rw [String.ofList_toList] at hbytes
  rw [String.toUTF8_eq_toByteArray, hbytes, List.utf8Encode, List.data_toByteArray,
    List.mem_toArray] at h
  obtain ⟨c, hc, hbc⟩ := List.mem_flatMap.1 h
  exact ⟨c, hc, toNat_eq_of_mem_utf8EncodeChar hbc hb⟩

/-- A text without markup has none of its bytes. -/
theorem Without.toNat_ne_of_mem_toUTF8 {t : String} (h : Without markup t) {b : UInt8}
    (hb : b ∈ t.toUTF8.data) {c : Char} (hc : c ∈ markup) : b.toNat ≠ c.toNat := by
  intro heq
  have hlt : ∀ c ∈ markup, c.toNat < 128 :=
    fun c hc ↦ of_decide_eq_true (List.all_eq_true.1 (rfl : markup.all (·.toNat < 128) = true) c hc)
  obtain ⟨d, hd, hbd⟩ := exists_mem_toList_of_mem_toUTF8 hb (heq ▸ hlt c hc)
  obtain rfl : d = c := Char.toNat_inj.1 (hbd.symm.trans heq)
  exact h d hd hc

/-! ### Escaped texts -/

section

variable {marks : List Char} {t u : String}

theorem Without.append (ht : Without marks t) (hu : Without marks u) : Without marks (t ++ u) := by
  intro c hc
  rw [String.toList_append] at hc
  exact (List.mem_append.1 hc).elim (ht c) (hu c)

theorem AmpersandsEscape.append (ht : AmpersandsEscape t) (hu : AmpersandsEscape u) :
    AmpersandsEscape (t ++ u) := by
  intro front behind h
  rw [String.toList_append] at h
  rcases List.append_eq_append_iff.1 h with ⟨more, -, hmore⟩ | ⟨more, hmore, hu'⟩
  · exact hu more behind hmore
  · rcases more with - | ⟨c, more⟩
    · exact hu [] behind hu'.symm
    · -- the entity is in the first text as a whole
      obtain ⟨rfl, rfl⟩ := List.cons.inj hu'
      obtain ⟨e, he, hprefix⟩ := ht front more hmore
      exact ⟨e, he, hprefix.trans ⟨u.toList, rfl⟩⟩

theorem Without.ampersandsEscape (h : Without ['&'] t) : AmpersandsEscape t := by
  intro front behind heq
  refine absurd (List.mem_singleton_self '&') (h '&' ?_)
  rw [heq]
  exact List.mem_append_right _ List.mem_cons_self

/-- The only ampersand of an entity is where it starts. -/
theorem ampersandsEscape_of_mem_entities {e : String} (he : e ∈ entities) :
    AmpersandsEscape e := by
  have hshape : ∀ e ∈ entities, e.toList.head? = some '&' ∧ '&' ∉ e.toList.tail := by decide
  obtain ⟨-, htail⟩ := hshape e he
  intro front behind h
  rcases front with - | ⟨c, front⟩
  · exact ⟨e, he, h ▸ List.prefix_rfl⟩
  · rw [h] at htail
    exact absurd (List.mem_append_right _ List.mem_cons_self) htail

end

end Text

namespace EscapeMode

/-- A character is escaped as an entity or is left as it is, and then means nothing in markup. -/
theorem htmlChar_eq (c : Char) :
    (∃ e ∈ Text.entities, htmlChar c = e.toList) ∨
      htmlChar c = [c] ∧ c ∉ '&' :: Text.markup := by
  unfold htmlChar
  split
  · exact .inl ⟨"&amp;", by decide, rfl⟩
  · split
    · exact .inl ⟨"&lt;", by decide, rfl⟩
    · split
      · exact .inl ⟨"&gt;", by decide, rfl⟩
      · split
        · exact .inl ⟨"&quot;", by decide, rfl⟩
        · split
          · exact .inl ⟨"&#39;", by decide, rfl⟩
          · next hamp hlt hgt hquote happos =>
            have hapos : c ≠ '\x27' := fun heq ↦ happos (congrArg Char.toNat heq)
            exact .inr ⟨rfl, by simp only [Text.markup, List.mem_cons, List.not_mem_nil]; tauto⟩

/-- What holds of the texts of characters, and of texts put together when it holds of both, holds
of every text. -/
theorem escape_induction {P : String → Prop} (hnil : P "")
    (happend : ∀ t u, P t → P u → P (t ++ u)) (mode : EscapeMode)
    (hchar : ∀ c, P (String.ofList (mode.char c))) (t : String) : P (mode.escape t) := by
  rw [escape]
  induction t.toList with
  | nil => exact hnil
  | cons c cs ih =>
    rw [List.flatMap_cons, String.ofList_append]
    exact happend _ _ (hchar c) ih

/-- A value is written without markup. -/
theorem without_escape_html (t : String) : Text.Without Text.markup (html.escape t) := by
  refine escape_induction (by decide) (fun _ _ ↦ .append) html (fun c ↦ ?_) t
  rcases htmlChar_eq c with ⟨e, he, heq⟩ | ⟨heq, hc⟩
  · have hentities : ∀ e ∈ Text.entities, Text.Without Text.markup e := by decide
    rw [char, heq, String.ofList_toList]
    exact hentities e he
  · rw [char, heq]
    intro d hd
    rw [String.toList_ofList, List.mem_singleton] at hd
    exact hd ▸ fun hmem ↦ hc (List.mem_cons_of_mem _ hmem)

/-- The ampersands in a value are written as entities. -/
theorem ampersandsEscape_escape_html (t : String) : Text.AmpersandsEscape (html.escape t) := by
  refine escape_induction ?_ (fun _ _ ↦ .append) html (fun c ↦ ?_) t
  · exact Text.Without.ampersandsEscape (by decide)
  · rcases htmlChar_eq c with ⟨e, he, heq⟩ | ⟨heq, hc⟩
    · rw [char, heq, String.ofList_toList]
      exact Text.ampersandsEscape_of_mem_entities he
    · rw [char, heq]
      refine Text.Without.ampersandsEscape fun d hd ↦ ?_
      rw [String.toList_ofList, List.mem_singleton] at hd
      rw [hd, List.mem_singleton]
      exact fun heq ↦ hc (heq ▸ List.mem_cons_self)

end EscapeMode

/-! ### Plain templates -/

/-- Whether a piece is no text with one of these characters and no raw interpolation. -/
def Piece.Plain (marks : List Char) : Piece → Prop
  | .text t => Text.Without marks t
  | .interpolation _ raw => raw = false
  | .enter _ _ _ | .leave _ | .inclusion _ _ _ => True

/-- Whether no text of a template has one of these characters and no interpolation is raw. -/
def Tree.Plain (marks : List Char) (tree : Tree) : Prop :=
  ∀ p ∈ Element.piecesOf tree.elements, p.Plain marks

/-- Whether a notice is of no template but a plain one and of no call of a lambda. -/
def Notice.Plain (marks : List Char) : Notice → Prop
  | .compiled tree => tree.Plain marks
  | .calling _ _ => False
  | _ => True

instance (marks : List Char) : (p : Piece) → Decidable (p.Plain marks)
  | .text t => inferInstanceAs (Decidable (Text.Without marks t))
  | .interpolation _ raw => inferInstanceAs (Decidable (raw = false))
  | .enter _ _ _ | .leave _ | .inclusion _ _ _ => inferInstanceAs (Decidable True)

instance (marks : List Char) (tree : Tree) : Decidable (tree.Plain marks) :=
  inferInstanceAs (Decidable (∀ p ∈ Element.piecesOf tree.elements, p.Plain marks))

instance (marks : List Char) : (n : Notice) → Decidable (n.Plain marks)
  | .compiled tree => inferInstanceAs (Decidable (tree.Plain marks))
  | .calling _ _ => inferInstanceAs (Decidable False)
  | .methodFailed _ _ _ | .fetching _ | .found _ _ | .unprovided _ | .skipped _ _ =>
    inferInstanceAs (Decidable True)

/-- What is safe to write, when the texts of templates are without some characters. -/
structure Guard where
  marks : List Char
  Safe : String → Prop
  safe_of_without {t : String} : Text.Without marks t → Safe t
  safe_escape (t : String) : Safe (EscapeMode.html.escape t)
  safe_append {t u : String} : Safe t → Safe u → Safe (t ++ u)

namespace Guard

/-- Texts without markup are safe when the texts of templates are without. -/
def markup : Guard where
  marks := Text.markup
  Safe := Text.Without Text.markup
  safe_of_without := id
  safe_escape := EscapeMode.without_escape_html
  safe_append := Text.Without.append

/-- Texts in which ampersands start entities are safe when the texts of templates have none. -/
def ampersands : Guard where
  marks := ['&']
  Safe := Text.AmpersandsEscape
  safe_of_without := Text.Without.ampersandsEscape
  safe_escape := EscapeMode.ampersandsEscape_escape_html
  safe_append := Text.AmpersandsEscape.append

theorem safe_empty (G : Guard) : G.Safe "" :=
  G.safe_of_without fun _ hc ↦ absurd hc List.not_mem_nil

end Guard

/-! ### Guarded runs -/

/-- A sink takes a start of what an event writes, all of it when it says so. It takes every
notice. -/
theorem Sink.exists_take (s : Sink) (e : Event) :
    ∃ n, (s.take e).1.written = s.written ++ e.text.toUTF8.extract 0 n ∧
      (∀ m, m ∈ s.noted ∨ e.notice? = some m → m ∈ (s.take e).1.noted) ∧
      ((s.take e).2 = true → e.text.toUTF8.size ≤ n) := by
  have hwrite (bytes : ByteArray) : ∃ n,
      (s.write bytes).1.written = s.written ++ bytes.extract 0 n ∧
      (s.write bytes).1.noted = s.noted ∧ ((s.write bytes).2 = true → bytes.size ≤ n) := by
    obtain ⟨written, noted, _ | room⟩ := s
    · exact ⟨bytes.size, by rw [ByteArray.extract_zero_size]; rfl, rfl, fun _ ↦ Nat.le_refl _⟩
    · by_cases hfits : bytes.size ≤ room
      · rw [write_of_le hfits]
        exact ⟨bytes.size, by rw [ByteArray.extract_zero_size], rfl, fun _ ↦ Nat.le_refl _⟩
      · rw [write_of_lt (Nat.lt_of_not_le hfits)]
        exact ⟨room, rfl, rfl, fun h ↦ nomatch h⟩
  have htext (he : e.notice? = none) (htake : s.take e = s.write e.text.toUTF8) :
      ∃ n, (s.take e).1.written = s.written ++ e.text.toUTF8.extract 0 n ∧
        (∀ m, m ∈ s.noted ∨ e.notice? = some m → m ∈ (s.take e).1.noted) ∧
        ((s.take e).2 = true → e.text.toUTF8.size ≤ n) := by
    obtain ⟨n, hwritten, hnoted, hfits⟩ := hwrite e.text.toUTF8
    rw [htake, he, hnoted]
    exact ⟨n, hwritten, fun m hm ↦ hm.resolve_right (fun h ↦ nomatch h), hfits⟩
  rcases e with t | ⟨t, mode⟩ | n
  · exact htext rfl rfl
  · exact htext rfl rfl
  · refine ⟨0, ?_, fun m hm ↦ ?_, fun _ ↦ Nat.le_refl 0⟩
    · rw [ByteArray.extract_same, ByteArray.append_empty]
      rfl
    · refine Array.mem_push.2 (hm.imp_right fun h ↦ ?_)
      exact (Option.some.inj h).symm

namespace Run

variable {α β : Type} {G : Guard} {post : α → Prop}

/-- Whether all that a run writes is safe, and its result as it should be, as long as its notices
are plain. -/
def Guarded (G : Guard) (post : α → Prop) : Run α → Prop
  | .done (.ok a) => post a
  | .done (.error _) => True
  | .emit e rest =>
    (∀ n, e.notice? = some n → n.Plain G.marks) → G.Safe e.text ∧ (rest ()).Guarded G post

theorem guarded_emit_notice {n : Notice} {rest : Unit → Run α}
    (h : n.Plain G.marks → (rest ()).Guarded G post) : (emit (.notice n) rest).Guarded G post :=
  fun hplain ↦ ⟨G.safe_empty, h (hplain n rfl)⟩

theorem Guarded.mono {r : Run α} (h : r.Guarded G post) {other : α → Prop}
    (hpost : ∀ a, post a → other a) : r.Guarded G other := by
  induction r with
  | done outcome =>
    rcases outcome with _ | a
    · trivial
    · exact hpost a h
  | emit e rest ih => exact fun hplain ↦ (h hplain).imp_right (ih ())

/-- **What is guarded is so in sequence.** -/
theorem Guarded.bind {r : Run α} (h : r.Guarded G post) {next : α → Run β} {other : β → Prop}
    (hnext : ∀ a, post a → (next a).Guarded G other) : (r >>= next).Guarded G other := by
  induction r with
  | done outcome =>
    rcases outcome with _ | a
    · trivial
    · exact hnext a h
  | emit e rest ih => exact fun hplain ↦ (h hplain).imp_right (ih ())

/-- A run that writes nothing is guarded. -/
theorem Quiet.guarded {r : Run α} (h : r.Quiet) (G : Guard) : r.Guarded G fun _ ↦ True := by
  induction r with
  | done outcome => rcases outcome with _ | a <;> trivial
  | emit e rest ih =>
    obtain ⟨n, rfl⟩ := h e List.mem_cons_self
    exact guarded_emit_notice fun _ ↦ ih () fun d hd ↦ h d (List.mem_cons_of_mem _ hd)

theorem Guarded.attempt {r : Run α} (h : r.Guarded G post) :
    r.attempt.Guarded G fun result ↦ ∀ a, result = .ok a → post a := by
  induction r with
  | done outcome =>
    rcases outcome with (e | _) | a
    · exact fun _ heq ↦ nomatch heq
    · trivial
    · rintro b heq
      obtain rfl := Except.ok.inj heq
      exact h
  | emit e rest ih => exact fun hplain ↦ (h hplain).imp_right (ih ())

/-- Runs are compared with nothing: being guarded is all that is asked of them. -/
def Comparison.guarded (G : Guard) : Comparison where
  Rel A r _ := r.Guarded G fun a ↦ ∃ b, A a b
  rel_pure h := ⟨_, h⟩
  rel_bind h hnext := h.bind fun a ⟨b, hab⟩ ↦ hnext a b hab

/-! ### What a sink gets -/

theorem noted_subset_deliver (r : Run α) (s : Sink) {n : Notice} (h : n ∈ s.noted) :
    n ∈ (r.deliver s).sink.noted := by
  induction r generalizing s with
  | done outcome => exact h
  | emit e rest ih =>
    obtain ⟨-, -, hnoted, -⟩ := s.exists_take e
    have hn := hnoted n (.inl h)
    rw [deliver_emit]
    generalize s.take e = taken at hn
    rcases taken with ⟨s, _ | _⟩
    · exact hn
    · exact ih () s hn

/-- **A sink gets a start of a safe text**, and all of it if the run ends well, when the notices
that it takes are plain. -/
theorem Guarded.exists_text {r : Run α} (h : r.Guarded G post) (s : Sink)
    (hplain : ∀ n ∈ (r.deliver s).sink.noted, n.Plain G.marks) :
    ∃ text n, G.Safe text ∧
      (r.deliver s).sink.written = s.written ++ text.toUTF8.extract 0 n ∧
      ∀ a, (r.deliver s).outcome = .ok a → text.toUTF8.size ≤ n := by
  induction r generalizing s with
  | done outcome =>
    refine ⟨"", 0, G.safe_empty, ?_, fun _ _ ↦ Nat.le_refl 0⟩
    rw [ByteArray.extract_same, ByteArray.append_empty]
    rfl
  | emit e rest ih =>
    obtain ⟨n, hwritten, hnoted, hfits⟩ := s.exists_take e
    rw [deliver_emit] at hplain ⊢
    generalize s.take e = taken at hwritten hnoted hfits hplain
    rcases taken with ⟨s', _ | _⟩
    · -- the text does not fit, and nothing comes behind it
      obtain ⟨hsafe, -⟩ := h fun n hn ↦ hplain n (hnoted n (.inr hn))
      exact ⟨e.text, n, hsafe, hwritten, fun _ heq ↦ nomatch heq⟩
    · -- what is noted stays noted, so the notices of the first event are plain as well
      obtain ⟨hsafe, hrest⟩ :=
        h fun n hn ↦ hplain n (noted_subset_deliver _ s' (hnoted n (.inr hn)))
      obtain ⟨text, m, htext, hwritten', hfits'⟩ := ih () hrest s' hplain
      have hbytes : (e.text ++ text).toUTF8 = e.text.toUTF8 ++ text.toUTF8 :=
        String.toByteArray_append
      refine ⟨e.text ++ text, e.text.toUTF8.size + m, G.safe_append hsafe htext, ?_, fun a ha ↦ ?_⟩
      · rw [hbytes, extract_append_of_le (Nat.le_add_right _ m), Nat.add_sub_cancel_left,
          ← ByteArray.append_assoc]
        rw [hwritten']
        show s'.written ++ _ = _
        rw [hwritten, extract_of_size_le (hfits rfl)]
      · rw [hbytes, ByteArray.size_append]
        exact Nat.add_le_add_left (hfits' a ha) _

end Run

/-! ### Renderings -/

namespace Compiler

variable {c : Compiler} (files : FileTree) {G : Guard}

/-- A value that is not raw is written as what the mode makes of it. -/
theorem guarded_interpolate (hmode : c.escapeMode = .html) (chain : List Value) (name : String) :
    (c.interpolate chain name false).Guarded G fun _ ↦ True := by
  refine ((c.quiet_valueOf chain name).guarded G).bind fun v? _ ↦ ?_
  rcases v? with - | v
  · trivial
  · refine ((Run.quiet_ofExcept _).guarded G).bind fun text _ ↦ ?_
    rw [hmode]
    exact fun _ ↦ ⟨G.safe_escape text, trivial⟩

theorem guarded_compile (text : String) :
    (c.compile text).Guarded G fun t ↦ t.tree.Plain G.marks :=
  ((Run.quiet_ofExcept _).guarded G).bind fun _ _ ↦ Run.guarded_emit_notice id

theorem guarded_fetch (provider : Provider) (name indent : String) :
    (c.fetch files provider name indent).Guarded G fun t ↦ t.tree.Plain G.marks := by
  refine ((Run.quiet_notice _).guarded G).bind fun _ _ ↦ ?_
  refine ((Run.quiet_report _).guarded G).bind fun _ _ ↦ ?_
  exact ((Run.quiet_ofExcept _).guarded G).bind fun _ _ ↦ guarded_compile _

/-- **A rendering in HTML mode is guarded**, part by part. -/
theorem sideBySide_guarded (hmode : c.escapeMode = .html) :
    c.SideBySide (.guarded G) (Piece.Plain G.marks) (fun _ _ ↦ True) (fun _ _ ↦ True) c files where
  tooDeep := trivial
  write ht := fun _ ↦ ⟨G.safe_of_without ht, (), rfl⟩
  interpolate := by
    rintro name _ rfl chain - -
    exact (guarded_interpolate hmode chain name).mono fun _ _ ↦ ⟨(), rfl⟩
  renderInclusion := by
    intro name indent _ _ reenter _ hreenter chain _ _
    show (c.renderInclusion files reenter chain name indent pure).Guarded G _
    rw [renderInclusion]
    rcases c.provider? with - | provider
    · dsimp only
      split
      · trivial
      · exact Run.guarded_emit_notice fun _ ↦ ⟨(), rfl⟩
    · refine (guarded_fetch files provider name indent).attempt.bind fun result hresult ↦ ?_
      rcases result with e | t
      · dsimp only
        split
        · trivial
        · exact Run.guarded_emit_notice fun _ ↦ ⟨(), rfl⟩
      · exact hreenter _ (hresult t rfl) chain chain trivial
  valueOf := by
    intro name inverted _ _ chain chain' _
    exact ((c.quiet_valueOf chain name).guarded G).mono fun v? _ ↦
      ⟨v?, Visit.paired_self _ chain chain'⟩
  callLambda := by
    intro l _ _ reenter _ _ chain _ _ name source
    show (c.callLambda reenter chain name l source).Guarded G _
    -- the notice of a call is not plain, and behind such a notice nothing is promised
    exact Run.guarded_emit_notice fun hplain ↦ hplain.elim

end Compiler

/-- **HTML mode lets no markup through from data.** A template is rendered into a sink with any
room. Where it and all templates that are compiled on the way are without raw interpolations, and no
lambda is called, the sink gets no byte of markup when their texts have none, however the rendering
ends. When their texts have no ampersand and the rendering ends well, every ampersand that is
written starts an entity. -/
theorem no_markup_from_data (t : Template) (hmode : t.compiler.escapeMode = .html)
    (files : FileTree) (contexts : List Value) (room? : Option Nat) :
    let d := (t.run files contexts).deliver ⟨.empty, #[], room?⟩
    (t.tree.Plain Text.markup → (∀ n ∈ d.sink.noted, n.Plain Text.markup) →
      ∀ b ∈ d.sink.written.data, ∀ c ∈ Text.markup, b.toNat ≠ c.toNat) ∧
    (t.tree.Plain ['&'] → (∀ n ∈ d.sink.noted, n.Plain ['&']) → d.outcome = .ok () →
      ∃ text, d.sink.written = text.toUTF8 ∧ Text.AmpersandsEscape text) := by
  intro d
  have hguarded (G : Guard) (htree : t.tree.Plain G.marks) :
      (t.run files contexts).Guarded G fun u ↦ ∃ v, u = v :=
    (Compiler.sideBySide_guarded files hmode).renderAt Template.maxDepth t.tree.elements htree
      contexts contexts trivial
  constructor
  · intro htree hnoted b hb c hc
    obtain ⟨text, n, hsafe, hwritten, -⟩ := (hguarded .markup htree).exists_text _ hnoted
    refine hsafe.toNat_ne_of_mem_toUTF8 ?_ hc
    rw [hwritten, ByteArray.empty_append, ByteArray.data_extract] at hb
    obtain ⟨i, hi, rfl⟩ := Array.mem_extract_iff_getElem.1 hb
    exact Array.getElem_mem _
  · intro htree hnoted hok
    obtain ⟨text, n, hsafe, hwritten, hfits⟩ := (hguarded .ampersands htree).exists_text _ hnoted
    refine ⟨text, ?_, hsafe⟩
    rw [hwritten, ByteArray.empty_append, extract_of_size_le (hfits _ hok)]

/-- Values with markup, in a template and in its partial. -/
theorem no_markup_from_data_of_partial :
    let c := Compiler.standard.withProvider (Partials.ofList [("p", "b\x7b\x7by\x7d\x7dc")]).provider
    let t : Template :=
      ⟨⟨[.text "a", .interpolation "x" false, .inclusion "p" "" none], .standard⟩, c⟩
    let contexts : List Value := [.map [("x", .text "<&"), ("y", .text "\"")]]
    let d := (t.run .empty contexts).deliver ⟨.empty, #[], none⟩
    t.compiler.escapeMode = .html ∧ d.outcome = .ok () ∧
      (t.tree.Plain Text.markup ∧ ∀ n ∈ d.sink.noted, n.Plain Text.markup) ∧
      (t.tree.Plain ['&'] ∧ ∀ n ∈ d.sink.noted, n.Plain ['&']) ∧
      (∀ b ∈ d.sink.written.data, ∀ c ∈ Text.markup, b.toNat ≠ c.toNat) ∧
      ∃ text, d.sink.written = text.toUTF8 ∧ Text.AmpersandsEscape text := by
  intro c t contexts d
  have hd : d = _ := Run.deliver_unlimited _ _ _
  have hok : d.outcome = .ok () := by
    rw [hd]
    show (t.run .empty contexts).outcome = .ok ()
    decide +kernel
  have hnoted (marks : List Char) (hplain : ∀ n ∈ (t.run .empty contexts).notices, n.Plain marks) :
      ∀ n ∈ d.sink.noted, n.Plain marks := by
    intro n hn
    rw [hd, Array.empty_append, List.mem_toArray] at hn
    exact hplain n hn
  have hmarkup := hnoted Text.markup (by decide +kernel)
  have hampersand := hnoted ['&'] (by decide +kernel)
  obtain ⟨hbytes, hentities⟩ := no_markup_from_data t rfl .empty contexts none
  exact ⟨rfl, hok, ⟨by decide, hmarkup⟩, ⟨by decide, hampersand⟩, hbytes (by decide) hmarkup,
    hentities (by decide) hampersand hok⟩

end Mustache
