import Mathlib.Data.List.Induction
import Mustache.Value.Capture

/-!
# Mappings described step by step

A mapping describes itself as a sequence of keys and values, with an entry for a key and its value
at once. This module says what such a description comes to without running it.

* **The pending key** of a value is the latest key, if no value has come since: it is what stands
  right in front of the value (`IsPending`). So a value without a key in front of it fails, a key
  with a key behind it is forgotten, and so is a key at the end.
* **The first step that fails** is the failure of the mapping (`Fails`, `NoneFails`).
* **A text is bound to the last value** whose pending key has that text (`IsLastBound`), whatever
  kinds of keys have it.

The description is run with one pending text and the entries bound so far (`MapRun`). What these are
in terms of the steps already taken is an invariant (`MapRun.Agrees`) that one step preserves, and a
step fails in such a state exactly if it is one that fails behind those steps.
-/

namespace Mustache

/-- A key or a value in the description of a mapping. -/
inductive KeyOrValue (α : Type)
  | key (k : α)
  | value (d : α)

/-- The keys and values of a step. -/
def MapStep.keysAndValues {α : Type} : MapStep α → List (KeyOrValue α)
  | .entry k d => [.key k, .value d]
  | .key k => [.key k]
  | .value d => [.value d]

/-! ### Texts of keys -/

namespace Value

/-- Truth values, numbers and texts. -/
def IsScalar : Value → Prop
  | .bool _ | .int _ | .uint _ | .float _ | .text _ => True
  | _ => False

/-- Sequences, mappings and records. -/
def IsCompound : Value → Prop
  | .seq _ | .map _ | .record _ => True
  | _ => False

theorem exists_of_map_eq_ok {ε α β : Type} {r : Except ε α} {f : α → β} {b : β}
    (h : r.map f = .ok b) : ∃ a, f a = b := by
  cases r with
  | error e => cases h
  | ok a => exact ⟨a, Except.ok.inj h⟩

/-- What is captured is data. -/
theorem isData_of_capture :
    ∀ (d : Datum) {v : Value}, capture d = .ok v → v = .null ∨ v.IsScalar ∨ v.IsCompound
  | .unit, _, h => by cases h; exact .inl rfl
  | .bool _, _, h | .int _, _, h | .uint _, _, h | .float _, _, h | .text _, _, h => by
    cases h; exact .inr (.inl trivial)
  | .bytes _, _, h => by cases h; exact .inr (.inr trivial)
  | .just content, _, h => isData_of_capture content h
  | .record _ _, _, h | .variant _ _, _, h | .sequence _, _, h | .mapping _, _, h => by
    obtain ⟨_, rfl⟩ := exists_of_map_eq_ok h
    exact .inr (.inr trivial)
  | .wide _, _, h | .failing _, _, h => by cases h
termination_by structural d => d

/-- The text of a key is what a scalar is shown as. -/
theorem keyText_eq_ok_iff {v : Value} {t : String} :
    v.keyText = .ok t ↔ v.IsScalar ∧ v.shown? = some t := by
  cases v with
  | text | bool | int | uint | float =>
    exact ⟨fun h ↦ ⟨trivial, congrArg some (Except.ok.inj h)⟩,
      fun h ↦ congrArg Except.ok (Option.some.inj h.2)⟩
  | null | seq | map | record | object | lambda =>
    exact ⟨fun h ↦ (by cases h), fun h ↦ h.1.elim⟩

theorem exists_keyText_of_isScalar {v : Value} (h : v.IsScalar) : ∃ t, v.keyText = .ok t := by
  cases v with
  | text | bool | int | uint | float => exact ⟨_, rfl⟩
  | null | seq | map | record | object | lambda => exact h.elim

/-- Data that is no scalar is no key. -/
theorem keyText_of_isCompound {v : Value} (h : v.IsCompound) : v.keyText = .error .compoundKey := by
  cases v with
  | seq | map | record => rfl
  | _ => exact h.elim

end Value

namespace Datum

/-- Whether host data has a text as a key: it is a truth value, a number or a text, and shown so. -/
def HasKeyText (k : Datum) (t : String) : Prop :=
  ∃ v, Value.capture k = .ok v ∧ v.IsScalar ∧ v.shown? = some t

/-- A key has one text. -/
theorem HasKeyText.unique {k : Datum} {t u : String} (h : k.HasKeyText t) (h' : k.HasKeyText u) :
    t = u := by
  obtain ⟨v, hv, -, ht⟩ := h
  obtain ⟨w, hw, -, hu⟩ := h'
  obtain rfl := Except.ok.inj (hv.symm.trans hw)
  exact Option.some.inj (ht.symm.trans hu)

end Datum

/-! ### What a description says -/

namespace KeyOrValue

variable {history : List (KeyOrValue Datum)}

/-- Whether a key is pending behind a history: it is the latest key, and no value has come since. -/
def IsPending (history : List (KeyOrValue Datum)) (k : Datum) : Prop :=
  ∃ front, history = front ++ [.key k]

/-- Whether the pending key behind a history has a text. -/
def IsPendingText (history : List (KeyOrValue Datum)) (t : String) : Prop :=
  ∃ k, IsPending history k ∧ k.HasKeyText t

/-- Whether a key or a value fails behind a history. -/
inductive Fails (history : List (KeyOrValue Datum)) : KeyOrValue Datum → CaptureError → Prop
  /-- The key itself fails. -/
  | key {k : Datum} {e : CaptureError} (h : Value.capture k = .error e) : Fails history (.key k) e
  | nullKey {k : Datum} (h : Value.capture k = .ok .null) : Fails history (.key k) .nullKey
  | compoundKey {k : Datum} {v : Value} (h : Value.capture k = .ok v) (hv : v.IsCompound) :
    Fails history (.key k) .compoundKey
  /-- There is no key for the value. -/
  | noKey {d : Datum} (h : ∀ k, ¬ IsPending history k) : Fails history (.value d) .valueWithoutKey
  /-- The value itself fails. -/
  | value {k d : Datum} {e : CaptureError} (hk : IsPending history k)
    (h : Value.capture d = .error e) : Fails history (.value d) e

/-- Whether none of the keys and values fails behind those in front of it. -/
def NoneFails (moves : List (KeyOrValue Datum)) : Prop :=
  ∀ front m behind, moves = front ++ m :: behind → ∀ e, ¬ Fails front m e

/-- Whether `v` is the last value whose pending key has the text `t`. -/
def IsLastBound (moves : List (KeyOrValue Datum)) (t : String) (v : Value) : Prop :=
  ∃ front d behind, moves = front ++ .value d :: behind ∧ IsPendingText front t ∧
    Value.capture d = .ok v ∧
    ∀ between d' rest, behind = between ++ .value d' :: rest →
      ¬ IsPendingText (front ++ .value d :: between) t

/-! ### One more key or value -/

/-- What stands in a list with one more at its end is that one or stands in the list. -/
theorem concat_eq_append_cons_iff {α : Type} {as front behind : List α} {a b : α} :
    as ++ [a] = front ++ b :: behind ↔
      (behind = [] ∧ as = front ∧ a = b) ∨
        ∃ between, behind = between ++ [a] ∧ as = front ++ b :: between := by
  constructor
  · intro h
    rcases List.eq_nil_or_concat behind with rfl | ⟨between, c, rfl⟩
    · obtain ⟨rfl, rfl⟩ := List.append_inj' h rfl |>.imp_right List.singleton_inj.1
      exact .inl ⟨rfl, rfl, rfl⟩
    · rw [List.concat_eq_append, ← List.cons_append, ← List.append_assoc] at h
      obtain ⟨rfl, heq⟩ := List.append_inj' h rfl
      exact .inr ⟨between, by rw [List.concat_eq_append, List.singleton_inj.1 heq], rfl⟩
  · rintro (⟨rfl, rfl, rfl⟩ | ⟨between, rfl, rfl⟩)
    · rfl
    · simp

theorem nil_ne_append_cons {α : Type} {front behind : List α} {a : α} :
    [] ≠ front ++ a :: behind :=
  (List.append_ne_nil_of_right_ne_nil front (List.cons_ne_nil a behind)).symm

theorem not_isPending_nil {k : Datum} : ¬ IsPending [] k :=
  fun ⟨_, h⟩ ↦ nil_ne_append_cons h

theorem noneFails_nil : NoneFails [] :=
  fun _ _ _ h ↦ absurd h nil_ne_append_cons

theorem not_isLastBound_nil {t : String} {v : Value} : ¬ IsLastBound [] t v :=
  fun ⟨_, _, _, h, _⟩ ↦ nil_ne_append_cons h

/-- A key is pending if it comes last, whatever was pending before. -/
theorem isPending_concat {m : KeyOrValue Datum} {k : Datum} :
    IsPending (history ++ [m]) k ↔ m = .key k := by
  constructor
  · rintro ⟨front, h⟩
    exact List.singleton_inj.1 (List.append_inj' h rfl).2
  · rintro rfl
    exact ⟨history, rfl⟩

/-- No step fails if none has so far and the last one does not. -/
theorem noneFails_concat {m : KeyOrValue Datum} :
    NoneFails (history ++ [m]) ↔ NoneFails history ∧ ∀ e, ¬ Fails history m e := by
  constructor
  · intro h
    refine ⟨fun front m' behind heq ↦ ?_, h history m [] rfl⟩
    exact h front m' (behind ++ [m]) (concat_eq_append_cons_iff.2 (.inr ⟨behind, rfl, heq⟩))
  · rintro ⟨hfront, hm⟩ front m' behind heq
    rcases concat_eq_append_cons_iff.1 heq with ⟨-, rfl, rfl⟩ | ⟨between, -, rfl⟩
    · exact hm
    · exact hfront front m' between rfl

/-- A further key binds nothing. -/
theorem isLastBound_concat_key {k : Datum} {t : String} {v : Value} :
    IsLastBound (history ++ [.key k]) t v ↔ IsLastBound history t v := by
  constructor
  · rintro ⟨front, d, behind, heq, ht, hv, hlast⟩
    rcases concat_eq_append_cons_iff.1 heq with ⟨-, -, hne⟩ | ⟨between, rfl, rfl⟩
    · cases hne
    · refine ⟨front, d, between, rfl, ht, hv, fun between' d' rest hrest ↦ ?_⟩
      exact hlast between' d' (rest ++ [.key k]) (by rw [hrest]; simp)
  · rintro ⟨front, d, behind, rfl, ht, hv, hlast⟩
    refine ⟨front, d, behind ++ [.key k], by simp, ht, hv, fun between d' rest hrest ↦ ?_⟩
    rcases concat_eq_append_cons_iff.1 hrest with ⟨-, -, hne⟩ | ⟨rest', -, rfl⟩
    · cases hne
    · exact hlast between d' rest' rfl

theorem IsPendingText.unique {t u : String} (h : IsPendingText history t)
    (h' : IsPendingText history u) : t = u := by
  obtain ⟨k, ⟨front, rfl⟩, ht⟩ := h
  obtain ⟨l, hl, hu⟩ := h'
  obtain rfl := KeyOrValue.key.inj (isPending_concat.1 hl)
  exact ht.unique hu

/-- A further value is bound to the pending text. -/
theorem isLastBound_concat_value {d : Datum} {u t : String} {v w : Value}
    (hu : IsPendingText history u) (hd : Value.capture d = .ok w) :
    IsLastBound (history ++ [.value d]) t v ↔
      if t = u then w = v else IsLastBound history t v := by
  constructor
  · rintro ⟨front, d', behind, heq, ht, hv, hlast⟩
    rcases concat_eq_append_cons_iff.1 heq with ⟨-, rfl, hsame⟩ | ⟨between, rfl, rfl⟩
    · obtain rfl := KeyOrValue.value.inj hsame
      rw [if_pos (ht.unique hu)]
      exact Except.ok.inj (hd.symm.trans hv)
    · have hne : t ≠ u := fun htu ↦ hlast between d [] rfl (htu ▸ hu)
      rw [if_neg hne]
      refine ⟨front, d', between, rfl, ht, hv, fun between' d'' rest hrest ↦ ?_⟩
      exact hlast between' d'' (rest ++ [.value d]) (by rw [hrest]; simp)
  · intro h
    split at h
    · next htu =>
      refine ⟨history, d, [], rfl, htu ▸ hu, h ▸ hd, fun between d' rest hrest ↦ ?_⟩
      exact absurd hrest nil_ne_append_cons
    · next hne =>
      obtain ⟨front, d', behind, rfl, ht, hv, hlast⟩ := h
      refine ⟨front, d', behind ++ [.value d], by simp, ht, hv, fun between d'' rest hrest ↦ ?_⟩
      rcases concat_eq_append_cons_iff.1 hrest with ⟨-, rfl, -⟩ | ⟨rest', -, rfl⟩
      · exact fun hpending ↦ hne (hpending.unique hu)
      · exact hlast between d'' rest' rfl

end KeyOrValue

/-! ### Running a description -/

/-- Where a run of keys and values has come to. -/
structure MapRun where
  /-- The text of the pending key. -/
  pending? : Option String
  /-- The entries bound so far. -/
  bound : List (String × Value)

namespace MapRun

open KeyOrValue

def start : MapRun :=
  ⟨none, []⟩

/-- One more key or value. -/
def step (s : MapRun) : KeyOrValue Datum → Except CaptureError MapRun
  | .key k => do
    let t ← (← Value.capture k).keyText
    return { s with pending? := some t }
  | .value d =>
    match s.pending? with
    | none => .error .valueWithoutKey
    | some t => do
      let v ← Value.capture d
      return ⟨none, Entries.insert t v s.bound⟩

/-- The steps of a mapping are captured key by key and value by value. -/
theorem captureSteps_eq (pending? : Option String) (bound : List (String × Value))
    (steps : List (MapStep Datum)) :
    Value.captureSteps pending? bound steps =
      MapRun.bound <$> (steps.flatMap MapStep.keysAndValues).foldlM step ⟨pending?, bound⟩ := by
  induction steps generalizing pending? bound with
  | nil => rfl
  | cons first steps ih =>
    cases first with
    | entry k d | key k =>
      simp only [Value.captureSteps, ih, List.flatMap_cons, MapStep.keysAndValues, List.cons_append,
        List.nil_append, List.foldlM_cons, step, bind_assoc, pure_bind, map_bind]
    | value d =>
      cases pending? with
      | none => rfl
      | some t =>
        simp only [Value.captureSteps, ih, List.flatMap_cons, MapStep.keysAndValues,
          List.cons_append, List.nil_append, List.foldlM_cons, step, bind_assoc, pure_bind,
          map_bind]

/-- Whether a run agrees with what the keys and values behind it say. -/
structure Agrees (s : MapRun) (history : List (KeyOrValue Datum)) : Prop where
  pendingText : ∀ t, s.pending? = some t → IsPendingText history t
  noKey : s.pending? = none → ∀ k, ¬ IsPending history k
  sorted : Entries.Sorted s.bound
  isLastBound : ∀ t v, s.bound.lookup t = some v ↔ IsLastBound history t v

/-- Nothing is pending and nothing is bound before the first step. -/
theorem agrees_start : start.Agrees [] where
  pendingText _ h := by cases h
  noKey _ _ := not_isPending_nil
  sorted := .nil
  isLastBound _ _ := ⟨fun h ↦ (by cases h), fun h ↦ absurd h not_isLastBound_nil⟩

variable {s s' : MapRun} {history : List (KeyOrValue Datum)} {m : KeyOrValue Datum}

/-- A key that has a text takes the place of the pending one. -/
theorem step_key {k : Datum} {v : Value} (h : Value.capture k = .ok v) :
    s.step (.key k) = v.keyText.map fun t ↦ { s with pending? := some t } := by
  rw [step, h]
  rfl

/-- A value is bound to the pending key, which is used up. -/
theorem step_value {d : Datum} {t : String} (ht : s.pending? = some t) :
    s.step (.value d) =
      (Value.capture d).map fun v ↦ ⟨none, Entries.insert t v s.bound⟩ := by
  rw [step, ht]
  rfl

/-- A step fails exactly if the key or value fails behind those in front of it. -/
theorem Agrees.step_eq_error_iff (h : s.Agrees history) {e : CaptureError} :
    s.step m = .error e ↔ Fails history m e := by
  constructor
  · intro hstep
    cases m with
    | key k =>
      rcases hk : Value.capture k with e' | v
      · rw [step, hk] at hstep
        cases hstep
        exact .key hk
      · -- what has been captured is null, a scalar with a text, or compound
        rw [step_key hk] at hstep
        rcases Value.isData_of_capture k hk with rfl | hscalar | hcompound
        · cases hstep
          exact .nullKey hk
        · obtain ⟨t, ht⟩ := Value.exists_keyText_of_isScalar hscalar
          rw [ht] at hstep
          cases hstep
        · rw [Value.keyText_of_isCompound hcompound] at hstep
          cases hstep
          exact .compoundKey hk hcompound
    | value d =>
      rcases hpending : s.pending? with - | t
      · rw [step, hpending] at hstep
        cases hstep
        exact .noKey (h.noKey hpending)
      · rw [step_value hpending] at hstep
        obtain ⟨k, hk, -⟩ := h.pendingText t hpending
        rcases hd : Value.capture d with e' | v
        · rw [hd] at hstep
          cases hstep
          exact .value hk hd
        · rw [hd] at hstep
          cases hstep
  · intro hfails
    cases hfails with
    | key hk => rw [step, hk]; rfl
    | nullKey hk => rw [step_key hk]; rfl
    | compoundKey hk hv => rw [step_key hk, Value.keyText_of_isCompound hv]; rfl
    | noKey hk =>
      -- a state that has a pending text has got it from a key
      rcases hpending : s.pending? with - | t
      · rw [step, hpending]
      · obtain ⟨k, hpendingKey, -⟩ := h.pendingText t hpending
        exact absurd hpendingKey (hk k)
    | value hk hd =>
      rcases hpending : s.pending? with - | t
      · exact absurd hk (h.noKey hpending _)
      · rw [step_value hpending, hd]
        rfl

/-- What a step that does not fail can do. -/
theorem step_cases (h : s.step m = .ok s') :
    (∃ k v t, m = .key k ∧ Value.capture k = .ok v ∧ v.keyText = .ok t ∧
      s' = { s with pending? := some t }) ∨
    (∃ d v t, m = .value d ∧ s.pending? = some t ∧ Value.capture d = .ok v ∧
      s' = ⟨none, Entries.insert t v s.bound⟩) := by
  cases m with
  | key k =>
    rcases hk : Value.capture k with e | v
    · rw [step, hk] at h
      cases h
    · rw [step_key hk] at h
      rcases ht : v.keyText with e | t
      · rw [ht] at h
        cases h
      · rw [ht] at h
        exact .inl ⟨k, v, t, rfl, hk, ht, (Except.ok.inj h).symm⟩
  | value d =>
    rcases hpending : s.pending? with - | t
    · rw [step, hpending] at h
      cases h
    · rw [step_value hpending] at h
      rcases hd : Value.capture d with e | v
      · rw [hd] at h
        cases h
      · rw [hd] at h
        exact .inr ⟨d, v, t, rfl, rfl, hd, (Except.ok.inj h).symm⟩

/-- What a run comes to agrees with one more key or value. -/
theorem Agrees.step (h : s.Agrees history) (hstep : s.step m = .ok s') :
    s'.Agrees (history ++ [m]) := by
  obtain ⟨k, v, t, rfl, hk, ht, rfl⟩ | ⟨d, v, t, rfl, hpending, hd, rfl⟩ := step_cases hstep
  · refine ⟨fun u hu ↦ ?_, fun hnone ↦ (by cases hnone), h.sorted, fun u w ↦ ?_⟩
    · obtain rfl := Option.some.inj hu
      exact ⟨k, isPending_concat.2 rfl, v, hk, Value.keyText_eq_ok_iff.1 ht⟩
    · exact (h.isLastBound u w).trans isLastBound_concat_key.symm
  · refine ⟨fun u hu ↦ (by cases hu), fun _ k hk ↦ ?_, Entries.sorted_insert t v h.sorted,
      fun u w ↦ ?_⟩
    · cases isPending_concat.1 hk
    · rw [isLastBound_concat_value (h.pendingText t hpending) hd, Entries.lookup_insert]
      split
      · exact Option.some_inj
      · exact h.isLastBound u w

/-! ### Whole runs -/

theorem foldlM_concat (moves : List (KeyOrValue Datum)) (m : KeyOrValue Datum) :
    (moves ++ [m]).foldlM MapRun.step start = moves.foldlM MapRun.step start >>= (·.step m) := by
  simp only [List.foldlM_append, List.foldlM_cons, List.foldlM_nil, bind_pure]

theorem agrees_of_run {moves : List (KeyOrValue Datum)}
    (h : moves.foldlM MapRun.step start = .ok s) : s.Agrees moves := by
  -- the history grows at its end, and so does the induction
  induction moves using List.reverseRecOn generalizing s with
  | nil =>
    cases h
    exact agrees_start
  | append_singleton moves m ih =>
    rw [foldlM_concat] at h
    rcases hrun : moves.foldlM MapRun.step start with e | s₀
    · rw [hrun] at h
      cases h
    · rw [hrun] at h
      exact (ih hrun).step h

/-- A run gets to the end exactly if nothing fails. -/
theorem exists_run_iff {moves : List (KeyOrValue Datum)} :
    (∃ s, moves.foldlM MapRun.step start = .ok s) ↔ NoneFails moves := by
  induction moves using List.reverseRecOn with
  | nil => exact ⟨fun _ ↦ noneFails_nil, fun _ ↦ ⟨start, rfl⟩⟩
  | append_singleton moves m ih =>
    rw [noneFails_concat, foldlM_concat, ← ih]
    rcases hrun : moves.foldlM MapRun.step start with e | s₀
    · exact ⟨fun ⟨_, h⟩ ↦ (by cases h), fun ⟨⟨_, h⟩, _⟩ ↦ (by cases h)⟩
    · have hagrees := agrees_of_run hrun
      show (∃ s, s₀.step m = .ok s) ↔ _
      rcases hstep : s₀.step m with e | s₁
      · exact ⟨fun ⟨_, h⟩ ↦ (by cases h),
          fun ⟨_, h⟩ ↦ absurd (hagrees.step_eq_error_iff.1 hstep) (h e)⟩
      · refine ⟨fun _ ↦ ⟨⟨s₀, rfl⟩, fun e hfails ↦ ?_⟩, fun _ ↦ ⟨s₁, rfl⟩⟩
        cases hstep.symm.trans (hagrees.step_eq_error_iff.2 hfails)

/-- A run fails as the first key or value that fails. -/
theorem run_eq_error_iff {moves : List (KeyOrValue Datum)} {e : CaptureError} :
    moves.foldlM MapRun.step start = .error e ↔
      ∃ front m behind, moves = front ++ m :: behind ∧ NoneFails front ∧ Fails front m e := by
  induction moves using List.reverseRecOn with
  | nil =>
    exact ⟨fun h ↦ (by cases h), fun ⟨_, _, _, h, _⟩ ↦ absurd h nil_ne_append_cons⟩
  | append_singleton moves m ih =>
    rw [foldlM_concat]
    constructor
    · intro h
      rcases hrun : moves.foldlM MapRun.step start with e' | s₀
      · rw [hrun] at h
        cases h
        obtain ⟨front, m', behind, rfl, hnone, hfails⟩ := ih.1 hrun
        exact ⟨front, m', behind ++ [m], by simp, hnone, hfails⟩
      · rw [hrun] at h
        exact ⟨moves, m, [], rfl, exists_run_iff.1 ⟨s₀, hrun⟩,
          (agrees_of_run hrun).step_eq_error_iff.1 h⟩
    · rintro ⟨front, m', behind, heq, hnone, hfails⟩
      rcases concat_eq_append_cons_iff.1 heq with ⟨-, rfl, rfl⟩ | ⟨between, -, rfl⟩
      · obtain ⟨s₀, hrun⟩ := exists_run_iff.2 hnone
        rw [hrun]
        exact (agrees_of_run hrun).step_eq_error_iff.2 hfails
      · rw [ih.2 ⟨front, m', between, rfl, hnone, hfails⟩]
        rfl

/-- Capturing a mapping is running through its keys and values and taking what is bound then. -/
theorem capture_mapping (steps : List (MapStep Datum)) :
    Value.capture (.mapping steps) =
      ((steps.flatMap MapStep.keysAndValues).foldlM MapRun.step start).map
        fun s ↦ Value.map s.bound := by
  rw [Value.capture, captureSteps_eq, ← start]
  rcases (steps.flatMap MapStep.keysAndValues).foldlM MapRun.step start with e | s <;> rfl

end MapRun

open KeyOrValue in
/-- **A mapping binds each text to the last value of a key with that text.** The description of a
mapping fails as the first of its keys and values that fails: one that fails itself, a key that is
null or compound, or a value behind which no key is pending. If none fails, the result is the
mapping in which a text is bound to the last value whose pending key has the text, and other texts
are not bound. Texts, characters and alternatives without data have themselves as text, and truth
values and numbers what they are shown as. -/
theorem mapping_binds_last_values (steps : List (MapStep Datum)) :
    let moves := steps.flatMap MapStep.keysAndValues
    (∀ e, Value.capture (.mapping steps) = .error e ↔
      ∃ front m behind, moves = front ++ m :: behind ∧ NoneFails front ∧ Fails front m e) ∧
    (NoneFails moves →
      ∃ es, Value.capture (.mapping steps) = .ok (.map es) ∧ Entries.Sorted es ∧
        ∀ t v, es.lookup t = some v ↔ IsLastBound moves t v) ∧
    (∀ t, (Datum.text t).HasKeyText t) ∧ (∀ c, (Datum.character c).HasKeyText (String.singleton c)) ∧
      ∀ name, (Datum.bareVariant name).HasKeyText name := by
  intro moves
  have htext (t : String) : (Datum.text t).HasKeyText t := ⟨.text t, rfl, trivial, rfl⟩
  refine ⟨fun e ↦ ?_, fun hnone ↦ ?_, htext, fun c ↦ htext _, htext⟩
  · rw [← MapRun.run_eq_error_iff, MapRun.capture_mapping]
    rcases moves.foldlM MapRun.step MapRun.start with e' | s
    · exact ⟨fun h ↦ congrArg _ (Except.error.inj h), fun h ↦ congrArg _ (Except.error.inj h)⟩
    · exact ⟨fun h ↦ (by cases h), fun h ↦ (by cases h)⟩
  · obtain ⟨s, hrun⟩ := MapRun.exists_run_iff.2 hnone
    have hagrees := MapRun.agrees_of_run hrun
    refine ⟨s.bound, ?_, hagrees.sorted, hagrees.isLastBound⟩
    rw [MapRun.capture_mapping, hrun]
    rfl

open KeyOrValue in
/-- A key that is forgotten, keys of two kinds with one text, and a key without a value. -/
theorem mapping_binds_last_values_of_collision :
    let steps : List (MapStep Datum) := [.key (.text "lost"), .entry (.bool true) (.text "early"),
      .key (.text "true"), .value (.just (.character 'x')), .key (.bareVariant "open")]
    let moves := steps.flatMap MapStep.keysAndValues
    NoneFails moves ∧ Value.capture (.mapping steps) = .ok (.map [("true", .text "x")]) ∧
      IsLastBound moves "true" (.text "x") ∧ ∀ v, ¬ IsLastBound moves "lost" v := by
  intro steps moves
  have hnone : NoneFails moves := MapRun.exists_run_iff.1 ⟨_, rfl⟩
  have hcapture : Value.capture (.mapping steps) = .ok (.map [("true", .text "x")]) := rfl
  obtain ⟨es, hes, -, hlookup⟩ := (mapping_binds_last_values steps).2.1 hnone
  obtain rfl := Value.map.inj (Except.ok.inj (hcapture.symm.trans hes))
  exact ⟨hnone, hcapture, (hlookup _ _).1 rfl, fun v hv ↦ (by cases (hlookup _ v).2 hv)⟩

end Mustache
