import Mathlib.Data.List.Basic
import DeviceCode.Assembly.Reading
import DeviceCode.Proofs.Module.WellFormed

/-!
# The trace of a scan

What a scan leaves on the trace is determined by what it reads.  `Yields P x` says that a success of
`x` adds acts to the trace that stand in the relation `P` with its result; it composes along `>>=`,
and most scans satisfy it in the form `Tells acts good`: the added acts are `acts` of the result,
and the result is `good`.

This file has the rules of composition and the scans of single tokens.
-/

namespace DeviceCode.Assembly

/-- What the trace says so far, in the order of the text. -/
def Cursor.acts (c : Cursor) : List Act := c.trace.reverse.map (·.act)

namespace Scan

variable {α β : Type}

/-- Where a scan succeeds, it adds acts to the trace that stand in the relation `P` with its
result. -/
def Yields (P : α → List Act → Prop) (x : Scan α) : Prop :=
  ∀ c a c', x c = .ok a c' → ∃ t, c'.acts = c.acts ++ t ∧ P a t

/-- Successes add nothing to the trace. -/
abbrev Silent (x : Scan α) : Prop := Yields (fun _ t => t = []) x

/-- Successes add what the result says, and the result is good. -/
abbrev Tells (acts : α → List Act) (good : α → Prop) (x : Scan α) : Prop :=
  Yields (fun a t => t = acts a ∧ good a) x

/-- The same for a scan that may decline. -/
abbrev TellsIf (acts : α → List Act) (good : α → Prop) (x : Scan (Option α)) : Prop :=
  Tells (fun o => o.elim [] acts) (fun o => ∀ a ∈ o, good a) x

section Rules

variable {P P' : α → List Act → Prop} {Q : β → List Act → Prop}

theorem Yields.mono {x : Scan α} (hx : Yields P x) (h : ∀ a t, P a t → P' a t) : Yields P' x := by
  intro c a c' e
  obtain ⟨t, ht, hp⟩ := hx c a c' e
  exact ⟨t, ht, h a t hp⟩

theorem Yields.pure {a : α} (h : P a []) : Yields P (pure a : Scan α) := by
  intro c b c' e
  cases e
  exact ⟨[], by simp, h⟩

/-- The acts of the second scan are added behind those of the first. -/
theorem Yields.bind {x : Scan α} {f : α → Scan β} (hx : Yields P x)
    (hf : ∀ a t, P a t → Yields (fun b u => Q b (t ++ u)) (f a)) : Yields Q (x >>= f) := by
  intro c b c'' e
  obtain ⟨a, c', h₁, h₂⟩ := bind_eq_ok.mp e
  obtain ⟨t, ht, hp⟩ := hx c a c' h₁
  obtain ⟨u, hu, hq⟩ := hf a t hp c' b c'' h₂
  exact ⟨t ++ u, by rw [hu, ht, List.append_assoc], hq⟩

/-- A silent scan in front changes nothing. -/
theorem Silent.then {x : Scan α} {f : α → Scan β} (hx : Silent x)
    (hf : ∀ a, Yields Q (f a)) : Yields Q (x >>= f) := by
  refine Yields.bind hx ?_
  rintro a t rfl
  exact (hf a).mono fun b u h => h

theorem Yields.map {x : Scan α} {g : α → β} (hx : Yields P x) (h : ∀ a t, P a t → Q (g a) t) :
    Yields Q (g <$> x) := by
  intro c b c' e
  change EStateM.map g x c = _ at e
  unfold EStateM.map at e
  split at e
  · rename_i a d hax
    cases e
    obtain ⟨t, ht, hp⟩ := hx _ _ _ hax
    exact ⟨t, ht, h a t hp⟩
  · cases e

/-- Choosing by a condition on the result so far. -/
theorem Yields.ite {p : Prop} [Decidable p] {x y : Scan α} (hx : p → Yields P x)
    (hy : ¬p → Yields P y) : Yields P (if p then x else y) := by
  split
  · exact hx ‹_›
  · exact hy ‹_›

theorem yields_fail (cause : Cause) : Yields P (fail cause : Scan α) := by
  intro c a c' e
  cases e

theorem yields_failAt (p : Place) (cause : Cause) : Yields P (failAt p cause : Scan α) := by
  intro c a c' e
  cases e

/-- A list tells what its items tell, in order, by induction on the items. -/
theorem tells_many {item : Scan (Option α)} {h : Shrinks perItem item} {acts : α → List Act}
    {good : α → Prop} (hi : TellsIf acts good item) :
    Tells (List.flatMap acts) (fun as => ∀ a ∈ as, good a) (many item h : Scan (List α)) := by
  intro c
  fun_induction many item h c with
  | case1 c f c' e => intro _ _ e'; cases e'
  | case2 c c' e =>
      intro _ _ e'
      cases e'
      obtain ⟨t, ht, hp, -⟩ := hi _ _ _ e
      exact ⟨t, ht, hp, by simp⟩
  | case3 c a c' e f c'' e' ih => intro _ _ e''; cases e''
  | case4 c a c' e as c'' e' ih =>
      intro _ _ e''
      cases e''
      obtain ⟨t, ht, rfl, ha⟩ := hi _ _ _ e
      obtain ⟨u, hu, rfl, has⟩ := ih _ _ e'
      refine ⟨acts a ++ as.flatMap acts, ?_, rfl, ?_⟩
      · rw [hu, ht, List.append_assoc]
        rfl
      · intro b hb
        rcases List.mem_cons.mp hb with rfl | hb
        · exact ha b rfl
        · exact has b hb

end Rules

/-! ## Tokens -/

/-- A scan is silent if it never touches the trace. -/
theorem silent_of_trace_eq {x : Scan α} (h : ∀ c a c', x c = .ok a c' → c'.trace = c.trace) :
    Silent x := by
  intro c a c' e
  exact ⟨[], by rw [Cursor.acts, h c a c' e, List.append_nil]; rfl, rfl⟩

theorem silent_place : Silent place :=
  silent_of_trace_eq fun c a c' e => by cases e; rfl

theorem silent_next? : Silent next? :=
  silent_of_trace_eq fun c a c' e => by cases e; rfl

theorem silent_advance : Silent advance :=
  silent_of_trace_eq fun c a c' e => by cases e; rfl

theorem silent_takeWhile (p : Char → Bool) : Silent (takeWhile p) :=
  silent_of_trace_eq fun c a c' e => by cases e; rfl

theorem silent_blanks (across : Bool) : Silent (blanks across) :=
  silent_of_trace_eq fun c a c' e => by cases e; rfl

/-- A character is tried without a note, whether it is there or not. -/
theorem silent_tryChar (ch : Char) : Silent (tryChar ch) := by
  refine silent_of_trace_eq fun c b c' e => ?_
  unfold tryChar at e
  split at e
  · cases e; rfl
  · split at e <;> cases e <;> rfl

theorem silent_peek? : Silent peek? := (silent_blanks _).then fun _ => silent_next?

theorem silent_expect (ch : Char) : Silent (expect ch) := by
  refine (silent_tryChar ch).then fun b => ?_
  cases b with
  | false => exact silent_next?.then fun _ => yields_fail _
  | true => exact Yields.pure rfl

theorem silent_isAtLineEnd : Silent isAtLineEnd := silent_peek?.then fun _ => Yields.pure rfl

theorem silent_expectLineEnd : Silent expectLineEnd := by
  refine silent_isAtLineEnd.then fun b => ?_
  cases b with
  | false => exact silent_next?.then fun _ => yields_fail _
  | true => exact Yields.pure rfl

theorem silent_name : Silent name :=
  (silent_takeWhile _).then fun _ =>
    Yields.ite (fun _ => silent_next?.then fun _ => yields_fail _) fun _ => Yields.pure rfl

theorem silent_keyword : Silent keyword := by
  refine silent_peek?.then fun c => ?_
  cases c with
  | none => exact yields_fail _
  | some c => exact Yields.ite (fun _ => silent_name) fun _ => yields_fail _

/-- Strings are read without notes. -/
theorem silent_string : Silent string := by
  refine (silent_expect _).then fun _ => silent_of_trace_eq fun c a c' e => ?_
  split at e
  · cases e; rfl
  · cases e

/-- Numbers are noted only by the scans that use them. -/
theorem silent_number : Silent number := by
  refine (silent_blanks _).then fun _ => silent_place.then fun _ => (silent_takeWhile _).then
    fun _ => Yields.ite (fun _ => yields_fail _) fun _ => ?_
  exact Yields.ite (fun _ => Yields.pure rfl) fun _ => yields_failAt _ _

theorem silent_valueType : Silent valueType := by
  refine silent_place.then fun _ => silent_keyword.then fun w => ?_
  cases h : ValueType.ofName? w with
  | none => exact yields_failAt _ _
  | some type => exact Yields.pure rfl

/-- Integers are no floats. -/
theorem isFloat_of_map_int {o : Option Int64} {l : Literal} (h : o.map .int = some l) :
    l.isFloat = false := by
  obtain ⟨v, -, rfl⟩ := Option.map_eq_some_iff.mp h
  rfl

theorem hasType_of_readLiteral? {type : ValueType} {word : List Char} {l : Literal}
    (h : readLiteral? type word = some l) : l.HasType type := by
  cases type with
  | void => cases h
  | f32 | f64 =>
      obtain ⟨x, -, rfl⟩ := Option.map_eq_some_iff.mp h
      exact ⟨by decide, rfl⟩
  | i8 | i16 | i32 | i64 => exact ⟨by decide, isFloat_of_map_int h⟩
  | i1 =>
      refine ⟨by decide, ?_⟩
      rw [readLiteral?] at h
      split at h
      · cases h; rfl
      · split at h
        · cases h; rfl
        · exact isFloat_of_map_int h
  | ptr =>
      refine ⟨by decide, ?_⟩
      rw [readLiteral?] at h
      split at h
      · cases h; rfl
      · exact isFloat_of_map_int h

/-- A literal names nothing, and it is of its type. -/
theorem tells_literal (type : ValueType) :
    Tells (fun _ => []) (fun l => l.HasType type) (literal type) := by
  refine (silent_blanks _).then fun _ => silent_place.then fun _ => (silent_takeWhile _).then
    fun word => ?_
  cases h : readLiteral? type word with
  | none => exact yields_failAt _ _
  | some l => exact Yields.pure ⟨rfl, hasType_of_readLiteral? h⟩

theorem yields_note (act : Act) (p : Place) : Yields (fun _ t => t = [act]) (note act p) := by
  intro c a c' e
  cases e
  exact ⟨[act], by simp [Cursor.acts], rfl⟩

theorem yields_noted (act : String → Act) : Yields (fun n t => t = [act n]) (noted act) := by
  refine silent_place.then fun p => silent_name.then fun n => (yields_note _ _).bind ?_
  rintro - t rfl
  exact Yields.pure rfl

/-- A use of a debug record adds one act, with its number. -/
theorem yields_metadataUse : Yields (fun id t => t = [.useMetadata id]) metadataUse := by
  refine (silent_expect _).then fun _ => silent_place.then fun _ => silent_number.then fun id =>
    (yields_note _ _).bind ?_
  rintro - t rfl
  exact Yields.pure rfl

end Scan

end DeviceCode.Assembly
