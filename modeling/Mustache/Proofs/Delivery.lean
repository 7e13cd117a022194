import Mustache.Proofs.Streaming

/-!
# What reaches a sink

What a run leaves where it is delivered to, by what it writes (`Run.text`) and how it ends.

A sink that takes everything gets all of the text and the run's own end (`Run.deliver_unlimited`). A
sink with room for so many bytes gets that many of them: all, and nothing is different, or the first
ones, and the run ends with the failure of the sink (`Run.deliver_limited`). The bytes are counted
over the whole run, so it is nothing to a sink in how many parts they are written, and the induction
over the run needs no more of a step than `Sink.write_append`.

`streaming_agrees` says this of templates, rendered by the recursion that writes as it goes.
-/

namespace Mustache

/-- The text of a text's bytes is the text. -/
theorem Text.readable_toUTF8 (t : String) : readable t.toUTF8 = t := by
  have hall : t.toUTF8.extract 0 (t.toUTF8.size - 0) = t.toUTF8 := ByteArray.extract_zero_size
  have htext : String.fromUTF8? t.toUTF8 = some t := dif_pos t.isValidUTF8
  have hrange : List.range 4 = [0, 1, 2, 3] := rfl
  rw [readable, hrange, List.findSome?_cons, hall, htext]
  rfl

/-! ### Sinks -/

namespace Sink

variable {written bytes : ByteArray} {noted : Array Notice} {room : Nat}

theorem write_of_le (h : bytes.size ≤ room) :
    write ⟨written, noted, some room⟩ bytes =
      (⟨written ++ bytes, noted, some (room - bytes.size)⟩, true) := by
  rw [write, if_pos h]

theorem write_of_lt (h : room < bytes.size) :
    write ⟨written, noted, some room⟩ bytes =
      (⟨written ++ bytes.extract 0 room, noted, some 0⟩, false) := by
  rw [write, if_neg (Nat.not_le_of_lt h)]

end Sink

/-! ### Runs -/

namespace Run

variable {α : Type}

/-- The bytes a run writes. -/
def bytes (r : Run α) : ByteArray :=
  r.text.toUTF8

theorem text_emit (e : Event) (rest : Unit → Run α) :
    (emit e rest).text = e.text ++ (rest ()).text :=
  String.join_cons

theorem bytes_emit (e : Event) (rest : Unit → Run α) :
    (emit e rest).bytes = e.text.toUTF8 ++ (rest ()).bytes := by
  rw [bytes, text_emit]
  exact String.toByteArray_append

/-- Delivering an event and then the rest. -/
theorem deliver_emit (s : Sink) (e : Event) (rest : Unit → Run α) :
    (emit e rest).deliver s =
      match s.take e with
      | (s, true) => (rest ()).deliver s
      | (s, false) => ⟨s, .error (.error (.io .sinkFull))⟩ := rfl

/-- A sink that takes everything gets all of a run. -/
theorem deliver_unlimited (r : Run α) (written : ByteArray) (noted : Array Notice) :
    r.deliver ⟨written, noted, none⟩ =
      ⟨⟨written ++ r.bytes, noted ++ r.notices.toArray, none⟩, r.outcome⟩ := by
  induction r generalizing written noted with
  | done outcome =>
    show Delivery.mk ⟨written, noted, none⟩ outcome =
      ⟨⟨written ++ .empty, noted ++ #[], none⟩, outcome⟩
    rw [ByteArray.append_empty, Array.append_empty]
  | emit e rest ih =>
    rw [deliver_emit, bytes_emit]
    cases e with
    | notice n =>
      show (rest ()).deliver ⟨written, noted.push n, none⟩ =
        ⟨⟨written ++ (.empty ++ (rest ()).bytes), noted ++ (n :: (rest ()).notices).toArray, none⟩,
          (rest ()).outcome⟩
      rw [ih, List.push_append_toArray, ByteArray.empty_append]
    | write t =>
      show (rest ()).deliver ⟨written ++ t.toUTF8, noted, none⟩ = _
      rw [ih, ByteArray.append_assoc]
      rfl
    | writeValue t mode =>
      show (rest ()).deliver ⟨written ++ (mode.escape t).toUTF8, noted, none⟩ = _
      rw [ih, ByteArray.append_assoc]
      rfl

/-- What is delivered of a run to a sink with room for so many bytes. -/
structure Cut (r : Run α) (written : ByteArray) (noted : Array Notice) (room : Nat)
    (d : Delivery α) : Prop where
  of_le (h : r.bytes.size ≤ room) :
    d = ⟨⟨written ++ r.bytes, noted ++ r.notices.toArray, some (room - r.bytes.size)⟩, r.outcome⟩
  of_lt (h : room < r.bytes.size) :
    d.sink.written = written ++ r.bytes.extract 0 room ∧
      d.outcome = .error (.error (.io .sinkFull))

/-- A sink with room for a text and for what is written behind it has room for both. -/
theorem Cut.emit_text {e : Event} (he : e.notice? = none) {rest : Unit → Run α}
    {written : ByteArray} {noted : Array Notice} {room : Nat}
    (hrest : ∀ {written noted room},
      (rest ()).Cut written noted room ((rest ()).deliver ⟨written, noted, some room⟩)) :
    (emit e rest).Cut written noted room
      (match Sink.write ⟨written, noted, some room⟩ e.text.toUTF8 with
        | (s, true) => (rest ()).deliver s
        | (s, false) => ⟨s, .error (.error (.io .sinkFull))⟩) := by
  have hnotices : (emit e rest).notices = (rest ()).notices := List.filterMap_cons_none he
  have hsize : (emit e rest).bytes.size = e.text.toUTF8.size + (rest ()).bytes.size := by
    rw [bytes_emit, ByteArray.size_append]
  by_cases hfits : e.text.toUTF8.size ≤ room
  · -- the rest goes to what room is left, and fits or not as the whole does
    rw [Sink.write_of_le hfits]
    constructor
    · intro h
      rw [hsize] at h
      refine ((hrest.of_le (by omega)).trans ?_)
      rw [bytes_emit, hnotices, ByteArray.append_assoc, ByteArray.size_append, Nat.sub_sub]
      rfl
    · intro h
      rw [hsize] at h
      have hlt : room - e.text.toUTF8.size < (rest ()).bytes.size := by omega
      obtain ⟨hwritten, houtcome⟩ := hrest.of_lt hlt
      refine ⟨?_, houtcome⟩
      dsimp only
      rw [hwritten, bytes_emit, extract_append_of_le hfits, ByteArray.append_assoc]
  · rw [Sink.write_of_lt (Nat.lt_of_not_le hfits)]
    constructor
    · intro h
      omega
    · intro _
      refine ⟨?_, rfl⟩
      rw [bytes_emit, extract_append_of_lt (Nat.lt_of_not_le hfits)]

/-- **A sink with room for so many bytes gets the run up to there.** -/
theorem deliver_limited (r : Run α) (written : ByteArray) (noted : Array Notice) (room : Nat) :
    r.Cut written noted room (r.deliver ⟨written, noted, some room⟩) := by
  induction r generalizing written noted room with
  | done outcome =>
    constructor
    · intro _
      show Delivery.mk ⟨written, noted, some room⟩ outcome =
        ⟨⟨written ++ .empty, noted ++ #[], some room⟩, outcome⟩
      rw [ByteArray.append_empty, Array.append_empty]
    · intro h
      exact absurd h (Nat.not_lt_zero room)
  | emit e rest ih =>
    rw [deliver_emit]
    cases e with
    | notice n =>
      have hrest := ih () written (noted.push n) room
      have hbytes : (emit (.notice n) rest).bytes = (rest ()).bytes := by
        rw [bytes_emit]
        exact ByteArray.empty_append
      constructor
      · intro h
        rw [hbytes] at h ⊢
        refine (hrest.of_le h).trans ?_
        rw [List.push_append_toArray]
        rfl
      · intro h
        rw [hbytes] at h ⊢
        exact hrest.of_lt h
    | write t => exact Cut.emit_text rfl (ih () _ _ _)
    | writeValue t mode => exact Cut.emit_text rfl (ih () _ _ _)

/-! ### Steps -/

/-- **A run taken step by step goes on in a sink while its texts fit** and is given up with the
first that does not. Nothing is written to the sink after that, and the failure is all that is left
of the outcome. -/
theorem streamed_sink (p : Parting) (r : Run α) (s : Sink) :
    ∃ outcome failure?,
      (r.streamed p) (.sink s none 0) = (outcome, .sink (r.deliver s).sink failure? 0) ∧
      (r.deliver s).outcome = Streaming.settled failure? outcome := by
  have hwrite (t : String) (rest : Unit → Run α)
      (ih : ∀ s, ∃ outcome failure?,
        ((rest ()).streamed p) (.sink s none 0) =
          (outcome, .sink ((rest ()).deliver s).sink failure? 0) ∧
        ((rest ()).deliver s).outcome = Streaming.settled failure? outcome) (s : Sink) :
      ∃ outcome failure?,
        (do Streaming.write t; (rest ()).streamed p : Streaming α) (.sink s none 0) =
          (outcome, .sink ((emit (.write t) rest).deliver s).sink failure? 0) ∧
        ((emit (.write t) rest).deliver s).outcome = Streaming.settled failure? outcome := by
    have htake : s.take (.write t) = s.write t.toUTF8 := rfl
    rw [deliver_emit, htake, Streaming.bind_apply, Streaming.write_sink]
    rcases s.write t.toUTF8 with ⟨s, _ | _⟩
    · exact ⟨_, _, rfl, rfl⟩
    · exact ih s
  induction r generalizing s with
  | done outcome => cases outcome <;> exact ⟨_, none, rfl, rfl⟩
  | emit e rest ih =>
    cases e with
    | notice n => exact ih () _
    | write t => exact hwrite t rest (ih ()) s
    | writeValue t mode =>
      have hparts := hwrite (mode.escape t) rest (ih ()) s
      rw [Streaming.bind_apply, ← p.join_parts, ← Streaming.forM_write_sink, p.join_parts] at hparts
      rw [streamed, Streaming.bind_apply]
      exact hparts

theorem deliver_streamed (p : Parting) (r : Run α) (s : Sink) :
    (r.streamed p).deliver s = r.deliver s := by
  obtain ⟨outcome, failure?, hsteps, houtcome⟩ := r.streamed_sink p s
  rw [Streaming.deliver, hsteps]
  exact congrArg (Delivery.mk (r.deliver s).sink) houtcome.symm

theorem late_streamed (p : Parting) (r : Run α) (s : Sink) : (r.streamed p).late s = 0 := by
  obtain ⟨outcome, failure?, hsteps, -⟩ := r.streamed_sink p s
  rw [Streaming.late, hsteps]
  rfl

/-- A run taken step by step leaves all it writes in memory. -/
theorem streamed_memory (p : Parting) (r : Run α) (text : String) (noted : Array Notice) :
    (r.streamed p) (.memory text noted) =
      (r.outcome, .memory (text ++ r.text) (noted ++ r.notices.toArray)) := by
  induction r generalizing text noted with
  | done outcome =>
    show streamed p (done outcome) (.memory text noted) =
      (outcome, .memory (text ++ "") (noted ++ #[]))
    rw [String.append_empty, Array.append_empty]
    cases outcome <;> rfl
  | emit e rest ih =>
    rw [text_emit]
    cases e with
    | notice n =>
      show (rest ()).streamed p (.memory text (noted.push n)) =
        ((rest ()).outcome,
          .memory (text ++ ("" ++ (rest ()).text)) (noted ++ (n :: (rest ()).notices).toArray))
      rw [ih, List.push_append_toArray, String.empty_append]
    | write t =>
      show (rest ()).streamed p (.memory (text ++ t) noted) = _
      rw [ih, String.append_assoc]
      rfl
    | writeValue t mode =>
      rw [streamed, Streaming.bind_apply, Streaming.writeEscaped, Streaming.forM_write_memory,
        p.join_parts]
      show (rest ()).streamed p (.memory (text ++ mode.escape t) noted) = _
      rw [ih, String.append_assoc]
      rfl

/-- What a run gives if it ends well is what its steps leave in memory. -/
theorem streamed_toText (p : Parting) (r : Run Unit) : (r.streamed p).toText = r.toText := by
  rw [Streaming.toText, streamed_memory, toText, Sink.unlimited, deliver_unlimited]
  show _ = r.outcome.map fun _ ↦ Text.readable (.empty ++ r.text.toUTF8)
  rw [ByteArray.empty_append, Text.readable_toUTF8]
  cases r.outcome with
  | ok _ => exact congrArg Except.ok String.empty_append
  | error h => rfl

end Run

/-! ### Templates -/

/-- **Streaming agrees with buffering, whatever the room.** A template is rendered as it goes, its
escaped text parted in any way. To a sink that takes everything it writes the bytes of a text, which
is what rendering to memory gives if it ends well. A sink with room for `n` bytes gets all of them
and the same end, or the first `n` of them and its own failure. No sink is written to after it has
failed, and all of this is what becomes of the template's run. -/
theorem streaming_agrees (p : Parting) (t : Template) (files : FileTree) (contexts : List Value)
    (n : Nat) :
    let full := (t.streamed p files contexts).deliver .unlimited
    let cut := (t.streamed p files contexts).deliver (.limited n)
    (∃ text : String, full.sink.written = text.toUTF8 ∧
      (t.streamed p files contexts).toText = full.outcome.map fun _ ↦ text) ∧
    (full.sink.written.size ≤ n →
      cut.sink.written = full.sink.written ∧ cut.outcome = full.outcome) ∧
    (n < full.sink.written.size →
      cut.sink.written = full.sink.written.extract 0 n ∧
        cut.outcome = .error (.error (.io .sinkFull))) ∧
    (t.streamed p files contexts).toText = (t.run files contexts).toText ∧
    ∀ s, (t.streamed p files contexts).late s = 0 ∧
      (t.streamed p files contexts).deliver s = (t.run files contexts).deliver s := by
  -- from here on it is a matter of one run, however it has come about
  have hrun : t.streamed p files contexts = (t.run files contexts).streamed p :=
    (t.compiler.streamed_renderAt p files _ _ _).symm
  generalize t.run files contexts = r at hrun
  intro full cut
  have hfull : full = ⟨⟨r.bytes, r.notices.toArray, none⟩, r.outcome⟩ := by
    show (t.streamed p files contexts).deliver .unlimited = _
    rw [hrun, r.deliver_streamed, Sink.unlimited, r.deliver_unlimited, ByteArray.empty_append,
      Array.empty_append]
  have hcut : r.Cut .empty #[] n cut := by
    show r.Cut .empty #[] n ((t.streamed p files contexts).deliver (.limited n))
    rw [hrun, r.deliver_streamed]
    exact r.deliver_limited .empty #[] n
  have htext : (t.streamed p files contexts).toText = r.toText := by
    rw [hrun, r.streamed_toText]
  have hto : r.toText = r.outcome.map fun _ ↦ r.text := by
    rw [Run.toText, Sink.unlimited, r.deliver_unlimited, ByteArray.empty_append]
    show (r.outcome.map fun _ ↦ Text.readable r.text.toUTF8) = _
    rw [Text.readable_toUTF8]
  rw [hfull]
  refine ⟨⟨r.text, rfl, htext.trans hto⟩, ?_, ?_, htext, ?_⟩
  · intro h
    rw [hcut.of_le h]
    exact ⟨ByteArray.empty_append, rfl⟩
  · intro h
    obtain ⟨hwritten, houtcome⟩ := hcut.of_lt h
    rw [ByteArray.empty_append] at hwritten
    exact ⟨hwritten, houtcome⟩
  · intro s
    rw [hrun]
    exact ⟨r.late_streamed p s, r.deliver_streamed p s⟩

end Mustache
