import Mustache.Rendering.Sequence
import Mustache.Sink

/-!
# Rendering that writes as it goes

A run is all that happens, put together before any of it is written. Here is the other way of
rendering: a recursion over the elements that is handed a `Writer` and writes to it on the way.

* **A writer is text in memory or a sink,** and a rendering cannot tell which. A sink that has
  failed looks like any error of formatting from inside; the writer remembers the failure, and
  whoever has set up the sink finds it there (`Streaming.deliver`). The writer also counts what is
  tried after that, which a rendering must never do (`Streaming.late`).
* **Escaped text is written in parts.** Where it is parted is left open (`Parting`): nothing depends
  on it.
* **Errors are caught in two places.** A partial that cannot be fetched may be left out, and a
  lambda sees the errors of what it has rendered. Nothing is written to the sink in either place: a
  partial is fetched before it is rendered (`Run.Quiet`), and a lambda's text is rendered into
  memory.

`streamed_renderAt` puts the two ways together: the recursion is the run of the template with its
steps taken one by one (`Run.streamed`). What is said of the steps of any run is then said of every
write of the recursion, wherever in a template it is.
-/

namespace Mustache

/-! ### Writers -/

/-- How escaped text is parted before it is written. -/
structure Parting where
  parts : EscapeMode → String → List String
  join_parts : ∀ mode t, String.join (parts mode t) = mode.escape t

namespace Parting

/-- Markup text in parts: what needs no entity is written with what follows it, up to the next
character that does. The text in front of the next entity is `read`. -/
def htmlParts (read : List Char) : List Char → List String
  | [] => [String.ofList read]
  | c :: t =>
    if EscapeMode.htmlChar c = [c] then htmlParts (read ++ [c]) t
    else String.ofList read :: String.ofList (EscapeMode.htmlChar c) :: htmlParts [] t

/-- The parts that HTML escaping writes one by one make the escaped text, whatever has been read and
not written yet. -/
theorem join_htmlParts (read t : List Char) :
    String.join (htmlParts read t) = String.ofList (read ++ t.flatMap EscapeMode.htmlChar) := by
  induction t generalizing read with
  | nil => simp [htmlParts, String.join_cons]
  | cons c t ih =>
    rw [htmlParts, List.flatMap_cons]
    split
    · next hc => rw [ih, hc, List.append_assoc]
    · rw [String.join_cons, String.join_cons, ih, List.nil_append, ← String.ofList_append,
        ← String.ofList_append]

/-- The parts of a text inside a JSON string literal are its characters. -/
def jsonParts (t : List Char) : List String :=
  t.map fun c ↦ String.ofList (EscapeMode.jsonChar c)

/-- The parts that JSON escaping writes make the escaped text. -/
theorem join_jsonParts (t : List Char) :
    String.join (jsonParts t) = String.ofList (t.flatMap EscapeMode.jsonChar) :=
  (EscapeMode.ofList_flatMap EscapeMode.jsonChar t).symm

/-- The parts in which the modes write. -/
def standard : Parting where
  parts
    | .html, t => htmlParts [] t.toList
    | .json, t => jsonParts t.toList
    | .raw, t => [t]
  join_parts mode t := by
    cases mode with
    | html => exact join_htmlParts [] t.toList
    | json => exact join_jsonParts t.toList
    | raw => simp [EscapeMode.escape, EscapeMode.char, String.join_cons]

end Parting

/-- What a rendering writes to. -/
inductive Writer
  /-- A text in memory, with the notices given so far. -/
  | memory (text : String) (noted : Array Notice)
  /-- A sink, with its failure if it has failed, and how often it was written to after that. -/
  | sink (s : Sink) (failure? : Option IoError) (late : Nat)

namespace Writer

/-- The notices given so far. -/
def noted : Writer → Array Notice
  | memory _ noted => noted
  | sink s _ _ => s.noted

/-- The writer with other notices. -/
def withNoted (noted : Array Notice) : Writer → Writer
  | memory text _ => memory text noted
  | sink s failure? late => sink { s with noted := noted } failure? late

/-- The text in memory, if it is one. -/
def text : Writer → String
  | memory text _ => text
  | sink _ _ _ => ""

/-- How often a sink was written to after it had failed. -/
def late : Writer → Nat
  | memory _ _ => 0
  | sink _ _ late => late

/-- The writer with a text written to it, and whether it has taken all of it. -/
def put (t : String) : Writer → Writer × Bool
  | memory text noted => (memory (text ++ t) noted, true)
  | sink s failure? late =>
    let late := if failure?.isSome then late + 1 else late
    match s.write t.toUTF8 with
    | (s, true) => (sink s failure? late, true)
    | (s, false) => (sink s (some .sinkFull) late, false)

/-- The notices of a writer are those that it has been given last. -/
theorem noted_withNoted (noted : Array Notice) (w : Writer) :
    (w.withNoted noted).noted = noted := by
  cases w <;> rfl

theorem withNoted_noted (w : Writer) : w.withNoted w.noted = w := by
  cases w <;> rfl

theorem withNoted_withNoted (noted others : Array Notice) (w : Writer) :
    (w.withNoted noted).withNoted others = w.withNoted others := by
  cases w <;> rfl

end Writer

/-- What writes as it goes. -/
abbrev Streaming (α : Type) := ExceptT Halt (StateM Writer) α

namespace Streaming

variable {α β : Type}

/-- Writes a text. A writer that does not take all of it is an error of formatting. -/
def write (t : String) : Streaming Unit := fun w ↦
  match w.put t with
  | (w, true) => (.ok (), w)
  | (w, false) => (.error (.error .noText), w)

/-- Writes a text, escaped and in parts. -/
def writeEscaped (p : Parting) (mode : EscapeMode) (t : String) : Streaming Unit :=
  forM (p.parts mode t) write

/-- Gives notice. -/
def notice (n : Notice) : Streaming Unit := fun w ↦
  (.ok (), w.withNoted (w.noted.push n))

/-- Stops. -/
def halt (h : Halt) : Streaming α := fun w ↦
  (.error h, w)

/-- Fails. -/
def fail (e : Error) : Streaming α :=
  halt (.error e)

/-- The same with its error as a result. -/
def attempt (m : Streaming α) : Streaming (Except Error α) := fun w ↦
  match m w with
  | (.ok a, w) => (.ok (.ok a), w)
  | (.error (.error e), w) => (.ok (.error e), w)
  | (.error .tooDeep, w) => (.error .tooDeep, w)

/-- The same with what it writes behind a text in memory, or its error, as a result. -/
def capturedBehind (text : String) (m : Streaming Unit) : Streaming (Except Error String) := fun w ↦
  match m (.memory text w.noted) with
  | (.ok _, v) => (.ok (.ok v.text), w.withNoted v.noted)
  | (.error (.error e), v) => (.ok (.error e), w.withNoted v.noted)
  | (.error .tooDeep, v) => (.error .tooDeep, w.withNoted v.noted)

/-- The outcome of writing to a sink. A failure of the sink takes its place. -/
def settled (failure? : Option IoError) (outcome : Except Halt α) : Except Halt α :=
  match failure? with
  | some e => .error (.error (.io e))
  | none => outcome

/-- Writes to a sink. -/
def deliver (s : Sink) (m : Streaming α) : Delivery α :=
  match m (.sink s none 0) with
  | (outcome, .sink s failure? _) => ⟨s, settled failure? outcome⟩
  | (outcome, .memory text noted) => ⟨⟨text.toUTF8, noted, none⟩, outcome⟩

/-- How often a sink is written to after it has failed. -/
def late (s : Sink) (m : Streaming α) : Nat :=
  (m (.sink s none 0)).2.late

/-- Writes to memory. -/
def toText (m : Streaming Unit) : Except Halt String :=
  match m (.memory "" #[]) with
  | (.ok _, w) => .ok w.text
  | (.error h, _) => .error h

end Streaming

/-! ### Rendering -/

/-- The steps of a run, taken one by one. -/
def Run.streamed {α : Type} (p : Parting) : Run α → Streaming α
  | .done (.ok a) => pure a
  | .done (.error h) => .halt h
  | .emit (.write t) rest => do
    .write t
    (rest ()).streamed p
  | .emit (.writeValue t mode) rest => do
    .writeEscaped p mode t
    (rest ()).streamed p
  | .emit (.notice n) rest => do
    .notice n
    (rest ()).streamed p

/-- Runs a script, given what becomes of a text it has rendered. -/
def Script.streamed (render : String → Streaming (Except Error String)) : Script → Streaming String
  | .answer text => pure text
  | .fail text => .fail (.lambdaFailed text)
  | .render text next => do
    let outcome ← render text
    (next outcome).streamed render

/-- How to write the elements of another template. -/
abbrev StreamReentry := List Element → List Value → Streaming Unit

namespace Compiler

variable (p : Parting) (c : Compiler) (files : FileTree)

/-- Writes the value of a name. -/
def streamInterpolation (chain : List Value) (name : String) (raw : Bool) : Streaming Unit := do
  match ← (c.valueOf chain name).streamed p with
  | none => pure ()
  | some v =>
    match c.stringify v with
    | .error e => .fail e
    | .ok text => .writeEscaped p (if raw then .raw else c.escapeMode) text

/-- The text of a template rendered where a section stands, or its error. -/
def streamText (reenter : StreamReentry) (chain : List Value) (text : String) :
    Streaming (Except Error String) :=
  Streaming.capturedBehind "" do
    let t ← (c.compile text).streamed p
    reenter t.tree.elements chain

/-- Writes a lambda's answer for the source of its section. -/
def streamLambda (reenter : StreamReentry) (chain : List Value) (name : String) (l : Lambda)
    (source : String) : Streaming Unit := do
  .notice (.calling name source)
  let answer ← (l.script source).streamed (c.streamText p reenter chain)
  .write answer

/-- Writes a partial, or leaves it out. -/
def streamInclusion (reenter : StreamReentry) (chain : List Value) (name indent : String) :
    Streaming Unit :=
  match c.provider? with
  | none => if c.strict then .fail (.noProvider name) else .notice (.unprovided name)
  | some provider => do
    match ← Streaming.attempt ((c.fetch files provider name indent).streamed p) with
    | .ok t => reenter t.tree.elements chain
    | .error e => if c.strict then .fail e else .notice (.skipped name e)

mutual

/-- Writes an element against a chain of scopes. -/
def streamElement (reenter : StreamReentry) : Element → List Value → Streaming Unit
  | .text t, _ => .write t
  | .interpolation name raw, chain => c.streamInterpolation p chain name raw
  | .inclusion name indent _, chain => c.streamInclusion p files reenter chain name indent
  | .block name inverted _ children, chain => do
    let v? ← (c.valueOf chain name).streamed p
    if Value.isEmpty v? != inverted then pure ()
    else if inverted then streamElements reenter children (chain.head?.toList ++ chain)
    else
      let v := v?.getD .null
      match v.unwrapped with
      | .seq items => forM items fun item ↦ streamElements reenter children (item :: chain)
      | .lambda l => c.streamLambda p reenter chain name l (Element.sources children)
      | .object _ o =>
        if o.kind = .seq then
          forM o.items fun item ↦ streamElements reenter children (item :: chain)
        else streamElements reenter children (v :: chain)
      | _ => streamElements reenter children (v :: chain)
termination_by structural e => e

/-- Writes elements one after the other. -/
def streamElements (reenter : StreamReentry) : List Element → List Value → Streaming Unit
  | [], _ => pure ()
  | e :: es, chain => do
    streamElement reenter e chain
    streamElements reenter es chain
termination_by structural es => es

end

/-- Writes elements with templates nested up to a depth. -/
def streamAt : Nat → StreamReentry
  | 0 => fun _ _ ↦ .halt .tooDeep
  | depth + 1 => c.streamElements p files (streamAt depth)

end Compiler

namespace Template

/-- Renders a template against contexts and writes it as it goes. -/
def streamed (p : Parting) (t : Template) (files : FileTree) (contexts : List Value) :
    Streaming Unit :=
  t.compiler.streamAt p files maxDepth t.tree.elements contexts

end Template

/-! ### Steps -/

namespace Streaming

variable {α β : Type}

/-- A computation that fails leaves the writer as it is then, and what follows is not started. -/
theorem bind_apply (m : Streaming α) (f : α → Streaming β) (w : Writer) :
    (m >>= f) w =
      match m w with
      | (.ok a, v) => f a v
      | (.error h, v) => (.error h, v) := by
  show (match m w with | (r, v) => ExceptT.bindCont f r v) = _
  rcases m w with ⟨_ | _, v⟩ <;> rfl

theorem pure_apply (a : α) (w : Writer) : (pure a : Streaming α) w = (.ok a, w) := rfl

/-- Memory takes every part of a text. -/
theorem forM_write_memory (ts : List String) (text : String) (noted : Array Notice) :
    (forM ts write : Streaming Unit) (.memory text noted) =
      (.ok (), .memory (text ++ String.join ts) noted) := by
  induction ts generalizing text with
  | nil => rw [List.forM_nil, pure_apply, String.join_nil, String.append_empty]
  | cons t ts ih =>
    rw [List.forM_cons, bind_apply]
    show (forM ts write : Streaming Unit) (.memory (text ++ t) noted) = _
    rw [ih, String.join_cons, String.append_assoc]

end Streaming

/-- Where there is room enough the whole is taken. -/
theorem extract_of_size_le {a : ByteArray} {room : Nat} (h : a.size ≤ room) :
    a.extract 0 room = a := by
  rw [← Nat.max_eq_left h]
  exact ByteArray.extract_zero_max_size

/-- The bytes that fit of two parts are those of the first and, if it fits, of the second. -/
theorem extract_append_of_le {a b : ByteArray} {room : Nat} (h : a.size ≤ room) :
    (a ++ b).extract 0 room = a ++ b.extract 0 (room - a.size) := by
  rw [ByteArray.extract_append, extract_of_size_le h, Nat.zero_sub]

/-- Where there is no room for the first part, nothing of the second is taken. -/
theorem extract_append_of_lt {a b : ByteArray} {room : Nat} (h : room < a.size) :
    (a ++ b).extract 0 room = a.extract 0 room := by
  rw [ByteArray.extract_append, Nat.zero_sub, Nat.sub_eq_zero_of_le (Nat.le_of_lt h),
    ByteArray.extract_same, ByteArray.append_empty]

namespace Sink

/-- Writing bytes in two parts is writing them at once. -/
theorem write_append (s : Sink) (a b : ByteArray) :
    s.write (a ++ b) =
      match s.write a with
      | (s, true) => s.write b
      | (s, false) => (s, false) := by
  obtain ⟨written, noted, _ | room⟩ := s
  · simp only [write, ByteArray.append_assoc]
  · by_cases ha : a.size ≤ room
    · by_cases hb : b.size ≤ room - a.size
      · have hab : a.size + b.size ≤ room := by omega
        simp only [write, ByteArray.size_append, if_pos ha, if_pos hb, if_pos hab,
          ByteArray.append_assoc, Nat.sub_sub]
      · have hab : ¬ a.size + b.size ≤ room := by omega
        simp only [write, ByteArray.size_append, if_pos ha, if_neg hb, if_neg hab,
          ByteArray.append_assoc, extract_append_of_le ha]
    · have hab : ¬ a.size + b.size ≤ room := by omega
      simp only [write, ByteArray.size_append, if_neg ha, if_neg hab,
        extract_append_of_lt (Nat.lt_of_not_le ha)]

/-- A write of nothing succeeds also where the sink is full. -/
theorem write_empty (s : Sink) : s.write .empty = (s, true) := by
  obtain ⟨written, noted, _ | room⟩ := s <;> simp [write]

end Sink

namespace Streaming

/-- One write to a sink that has not failed: it takes all of the text, or what fits and is full from
then on. -/
theorem write_sink (t : String) (s : Sink) :
    write t (.sink s none 0) =
      match s.write t.toUTF8 with
      | (s, true) => (.ok (), .sink s none 0)
      | (s, false) => (.error (.error .noText), .sink s (some .sinkFull) 0) := by
  rw [write, Writer.put]
  rcases s.write t.toUTF8 with ⟨s, _ | _⟩ <;> rfl

/-- A sink takes the parts of a text as it takes the text: up to the same byte. -/
theorem forM_write_sink (ts : List String) (s : Sink) :
    (forM ts write : Streaming Unit) (.sink s none 0) =
      write (String.join ts) (.sink s none 0) := by
  induction ts generalizing s with
  | nil =>
    have hempty : s.write (String.toUTF8 "") = (s, true) := s.write_empty
    rw [List.forM_nil, pure_apply, String.join_nil, write_sink, hempty]
  | cons t ts ih =>
    have hjoin : (String.join (t :: ts)).toUTF8 = t.toUTF8 ++ (String.join ts).toUTF8 := by
      rw [String.join_cons]
      exact String.toByteArray_append
    rw [List.forM_cons, bind_apply, write_sink, write_sink, hjoin, Sink.write_append]
    rcases s.write t.toUTF8 with ⟨s, _ | _⟩
    · rfl
    · exact (ih s).trans (write_sink _ s)

end Streaming

/-! ### Runs taken step by step -/

namespace Run

variable {α β : Type} (p : Parting)

/-- Streaming goes through a sequence: the events of the first part are written before the second
starts. -/
theorem streamed_bind (r : Run α) (f : α → Run β) :
    (r >>= f).streamed p = r.streamed p >>= fun a ↦ (f a).streamed p := by
  induction r with
  | done outcome =>
    cases outcome with
    | ok a => exact (pure_bind a fun a ↦ (f a).streamed p).symm
    | error h => rfl
  | emit e rest ih =>
    cases e <;>
      rw [emit_bind, streamed, streamed, bind_assoc] <;>
      exact congrArg _ (funext fun _ ↦ ih ())

/-- Whether a run gives notices and writes nothing. -/
def Quiet (r : Run α) : Prop :=
  ∀ e ∈ r.events, ∃ n, e = .notice n

/-- Runs without text follow each other without text. -/
theorem Quiet.bind {r : Run α} (hr : r.Quiet) {f : α → Run β} (hf : ∀ a, (f a).Quiet) :
    (r >>= f).Quiet := by
  induction r with
  | done outcome =>
    cases outcome with
    | ok a => exact hf a
    | error h => exact fun e he ↦ absurd he List.not_mem_nil
  | emit e rest ih =>
    intro d hd
    rcases List.mem_cons.1 hd with rfl | hd
    · exact hr d List.mem_cons_self
    · exact ih () (fun d hd ↦ hr d (List.mem_cons_of_mem e hd)) d hd

theorem quiet_notice (n : Notice) : (notice n).Quiet := by
  intro e he
  exact ⟨n, List.mem_singleton.1 he⟩

/-- The notices of a search write no text. -/
theorem quiet_report (ns : List Notice) : (report ns).Quiet := by
  induction ns with
  | nil => exact fun e he ↦ absurd he List.not_mem_nil
  | cons n ns ih =>
    intro e he
    rcases List.mem_cons.1 he with rfl | he
    · exact ⟨n, rfl⟩
    · exact ih e he

theorem outcome_report (ns : List Notice) : (report ns).outcome = .ok () := by
  induction ns with
  | nil => rfl
  | cons n ns ih => exact ih

theorem quiet_ofExcept (r : Except Error α) : (ofExcept r).Quiet := by
  cases r <;> exact fun e he ↦ absurd he List.not_mem_nil

/-- **Catching the error of a run that writes nothing** catches nothing else. The error of a sink
is none of its errors. -/
theorem streamed_attempt {r : Run α} (hr : r.Quiet) :
    r.attempt.streamed p = (r.streamed p).attempt := by
  induction r with
  | done outcome =>
    rcases outcome with (e | _) | a <;> rfl
  | emit e rest ih =>
    obtain ⟨n, rfl⟩ := hr e List.mem_cons_self
    funext w
    have hrest := congrFun (ih () fun d hd ↦ hr d (List.mem_cons_of_mem _ hd))
      (w.withNoted (w.noted.push n))
    exact hrest

/-- What is captured of a run is what its steps leave in memory. -/
theorem streamed_capturedAfter (text : String) (r : Run Unit) :
    (r.capturedAfter text).streamed p = (r.streamed p).capturedBehind text := by
  induction r generalizing text with
  | done outcome =>
    funext w
    rcases outcome with (e | _) | _ <;> exact congrArg (Prod.mk _) w.withNoted_noted.symm
  | emit e rest ih =>
    funext w
    cases e with
    | notice n =>
      have hrest := congrFun (ih () text) (w.withNoted (w.noted.push n))
      rw [Streaming.capturedBehind, w.noted_withNoted] at hrest
      simp only [w.withNoted_withNoted] at hrest
      exact hrest
    | write t => exact congrFun (ih () (text ++ t)) w
    | writeValue t mode =>
      have hrest := congrFun (ih () (text ++ mode.escape t)) w
      have hwrite := Streaming.forM_write_memory (p.parts mode t) text w.noted
      rw [p.join_parts] at hwrite
      rw [Streaming.capturedBehind, streamed, Streaming.bind_apply, Streaming.writeEscaped, hwrite]
      exact hrest

/-- A captured run is streamed into a memory of its own, of which its text is taken. -/
theorem streamed_captured (r : Run Unit) :
    r.captured.streamed p = (r.streamed p).capturedBehind "" :=
  streamed_capturedAfter p "" r

/-- A result that is there already is streamed as what it is. -/
theorem streamed_ofExcept (r : Except Error α) :
    (ofExcept r).streamed p =
      match r with
      | .ok a => pure a
      | .error e => .fail e := by
  cases r <;> rfl

theorem streamed_write (t : String) : (write t).streamed p = .write t :=
  bind_pure (Streaming.write t)

theorem streamed_notice (n : Notice) : (notice n).streamed p = .notice n :=
  bind_pure (Streaming.notice n)

/-- Items done one after the other. -/
theorem streamed_each (items : List α) (body : α → Rest → Run Unit) :
    (each items body pure).streamed p = forM items fun a ↦ (body a pure).streamed p := by
  match items with
  | [] => rfl
  | [a] =>
    rw [List.forM_cons, List.forM_nil]
    exact (bind_pure _).symm
  | a :: b :: items =>
    rw [List.forM_cons, each, streamed_bind, streamed_each (b :: items) body]

end Run

/-- A script runs the same with either way of rendering. -/
theorem Script.streamed_run (p : Parting) (render : String → Run (Except Error String))
    (s : Script) :
    (s.run render).streamed p = s.streamed fun text ↦ (render text).streamed p := by
  induction s with
  | answer text => rfl
  | fail text => rfl
  | render text next ih =>
    rw [run, Run.streamed_bind, streamed]
    exact congrArg _ (funext ih)

/-! ### Renderings taken step by step -/

/-- Whether the elements of other templates are written as they are rendered, step by step. -/
def Reentry.StreamedAs (p : Parting) (reenter : Reentry) (streamed : StreamReentry) : Prop :=
  ∀ es chain, (reenter es chain pure).streamed p = streamed es chain

namespace Compiler

variable (p : Parting) (c : Compiler) (files : FileTree)

/-- The text of a tag is written part by part and not put together first. -/
theorem streamed_interpolate (chain : List Value) (name : String) (raw : Bool) :
    (c.interpolate chain name raw).streamed p = c.streamInterpolation p chain name raw := by
  rw [interpolate, Run.streamed_bind, streamInterpolation]
  refine congrArg _ (funext fun v? ↦ ?_)
  cases v? with
  | none => rfl
  | some v =>
    dsimp only
    rw [Run.streamed_bind, Run.streamed_ofExcept]
    cases c.stringify v with
    | error e => rfl
    | ok text =>
      rw [pure_bind]
      exact bind_pure _

/-- A value is looked for without writing anything. -/
theorem quiet_valueOf (chain : List Value) (name : String) : (c.valueOf chain name).Quiet := by
  refine (Run.quiet_report _).bind fun _ ↦ ?_
  rcases (Value.lookup chain name).found with segment | v
  · dsimp only
    split <;> exact fun e he ↦ absurd he List.not_mem_nil
  · exact fun e he ↦ absurd he List.not_mem_nil

/-- Compiling writes no text: a defect is an error, and a tree is noted. -/
theorem quiet_compile (text : String) : (c.compile text).Quiet := by
  refine (Run.quiet_ofExcept _).bind fun tree ↦ (Run.quiet_notice _).bind fun _ ↦ ?_
  exact fun e he ↦ absurd he List.not_mem_nil

/-- A partial is fetched without writing anything. -/
theorem quiet_fetch (provider : Provider) (name indent : String) :
    (c.fetch files provider name indent).Quiet := by
  refine (Run.quiet_notice _).bind fun _ ↦ (Run.quiet_report _).bind fun _ ↦ ?_
  exact (Run.quiet_ofExcept _).bind fun _ ↦ c.quiet_compile _

variable {reenter : Reentry} {streamed : StreamReentry}

/-- A text that a lambda asks for is compiled and streamed into a memory of its own. -/
theorem streamed_renderText (h : reenter.StreamedAs p streamed) (chain : List Value)
    (text : String) :
    (c.renderText reenter chain text).streamed p = c.streamText p streamed chain text := by
  rw [renderText, Run.streamed_captured, streamText, Run.streamed_bind]
  exact congrArg _ (congrArg _ (funext fun t ↦ h t.tree.elements chain))

/-- The answer of a lambda is one write, after all that it has asked for. -/
theorem streamed_callLambda (h : reenter.StreamedAs p streamed) (chain : List Value)
    (name : String) (l : Lambda) (source : String) :
    (c.callLambda reenter chain name l source).streamed p =
      c.streamLambda p streamed chain name l source := by
  simp only [callLambda, streamLambda, Run.streamed_bind, Run.streamed_notice,
    Script.streamed_run, c.streamed_renderText p h, Run.streamed_write]

/-- A partial, with its text compiled at every use. -/
theorem streamed_renderInclusion (h : reenter.StreamedAs p streamed) (chain : List Value)
    (name indent : String) :
    (c.renderInclusion files reenter chain name indent pure).streamed p =
      c.streamInclusion p files streamed chain name indent := by
  rw [renderInclusion, streamInclusion]
  cases c.provider? with
  | none =>
    dsimp only
    split
    · rfl
    · exact Run.streamed_notice p _
  | some provider =>
    dsimp only
    rw [Run.streamed_bind, Run.streamed_attempt p (c.quiet_fetch files provider name indent)]
    refine congrArg _ (funext fun fetched ↦ ?_)
    cases fetched with
    | ok t => exact h _ _
    | error e =>
      dsimp only
      split
      · rfl
      · exact Run.streamed_notice p _

mutual

/-- One element, with the next level of nesting streamed by hypothesis. -/
theorem streamed_renderElement (h : reenter.StreamedAs p streamed) (hseq : reenter.Sequential)
    (e : Element) (chain : List Value) :
    (c.renderElement files reenter e chain pure).streamed p =
      c.streamElement p files streamed e chain := by
  match e with
  | .text t => exact Run.streamed_write p t
  | .interpolation name raw =>
    rw [renderElement, streamElement, ← streamed_interpolate]
    exact congrArg (Run.streamed p) (bind_pure (c.interpolate chain name raw))
  | .inclusion name indent lineEnd? =>
    exact c.streamed_renderInclusion p files h chain name indent
  | .block name inverted line children =>
    have hchildren := streamed_renderElements h hseq children
    rw [renderElement, streamElement, Run.streamed_bind]
    refine congrArg _ (funext fun v? ↦ ?_)
    split
    · rfl
    · split
      · exact hchildren _
      · -- what is found decides: items one by one, a lambda, or the value as a scope
        dsimp only
        generalize (v?.getD Value.null).unwrapped = u
        cases u with
        | seq items =>
          dsimp only
          rw [Run.streamed_each]
          exact congrArg (forM items) (funext fun item ↦ hchildren _)
        | lambda l =>
          dsimp only
          rw [← c.streamed_callLambda p h]
          exact congrArg (Run.streamed p) (bind_pure _)
        | object identity o =>
          dsimp only
          split
          · rw [Run.streamed_each]
            exact congrArg (forM o.items) (funext fun item ↦ hchildren _)
          · exact hchildren _
        | _ => exact hchildren _
termination_by structural e

/-- A list of elements is streamed one by one, in its order. -/
theorem streamed_renderElements (h : reenter.StreamedAs p streamed) (hseq : reenter.Sequential)
    (es : List Element) (chain : List Value) :
    (c.renderElements files reenter es chain pure).streamed p =
      c.streamElements p files streamed es chain := by
  match es with
  | [] => rfl
  | e :: es =>
    rw [renderElements, renderElement_eq_bind c files hseq e chain, Run.streamed_bind,
      streamElements, streamed_renderElement h hseq e chain]
    exact congrArg _ (funext fun _ ↦ streamed_renderElements h hseq es chain)
termination_by structural es

end

/-- **Either way of rendering writes the same**, at every depth. -/
theorem streamed_renderAt (depth : Nat) (es : List Element) (chain : List Value) :
    (c.renderAt files depth es chain pure).streamed p = c.streamAt p files depth es chain := by
  induction depth generalizing es chain with
  | zero => rfl
  | succ depth ih =>
    exact c.streamed_renderElements p files ih (renderAt_eq_bind c files depth) es chain

end Compiler

end Mustache
