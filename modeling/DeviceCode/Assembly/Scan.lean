import DeviceCode.Assembly.Scope

/-!
# Scanning

A scan consumes a text from the left and leaves a trace of the names it meets. `Shrinks cost x` says
that a success of `x` with result `a` consumes at least `cost a` characters; it composes along `>>=`
and lets `many` repeat a scan until it declines.
-/

namespace DeviceCode.Assembly

/-- The rest of the text, and the trace so far with the newest occurrence first. -/
structure Cursor where
  rest : List Char
  trace : List Occurrence

/-- A scan keeps the cursor when it fails, so that the trace up to the fault is known. -/
abbrev Scan := EStateM Fault Cursor

namespace Scan

variable {α β : Type}

/-- The place of the cursor. -/
def place : Scan Place := fun c => .ok c.rest c

/-- A failure that is about something read before. -/
def failAt (place : Place) (cause : Cause) : Scan α := fun c => .error ⟨cause, place⟩ c

/-- A failure that is about what stands next. -/
def fail (cause : Cause) : Scan α := fun c => .error ⟨cause, c.rest⟩ c

/-- Records what the text does with a name. -/
def note (act : Act) (place : Place) : Scan Unit :=
  fun c => .ok () { c with trace := ⟨act, place⟩ :: c.trace }

/-- The next character, which stays; `none` at the end of the text. -/
def next? : Scan (Option Char) := fun c => .ok c.rest.head? c

/-- Passes over the next character. -/
def advance : Scan Unit := fun c => .ok () { c with rest := c.rest.tail }

/-- Takes the characters in front that satisfy `p`. -/
def takeWhile (p : Char → Bool) : Scan (List Char) :=
  fun c => .ok (c.rest.takeWhile p) { c with rest := c.rest.dropWhile p }

/-- Success with result `a` consumes at least `cost a` characters. -/
def Shrinks (cost : α → Nat) (x : Scan α) : Prop :=
  ∀ c a c', x c = .ok a c' → c'.rest.length + cost a ≤ c.rest.length

/-- The cost of an item of a repetition: one if there is an item. -/
def perItem : Option α → Nat
  | none => 0
  | some _ => 1

theorem bind_eq_ok {x : Scan α} {f : α → Scan β} {c c'' : Cursor} {b : β} :
    (x >>= f) c = .ok b c'' ↔ ∃ a c', x c = .ok a c' ∧ f a c' = .ok b c'' := by
  change EStateM.bind x f c = _ ↔ _
  unfold EStateM.bind
  cases x c with
  | ok a c' => exact ⟨fun h => ⟨a, c', rfl, h⟩, fun ⟨_, _, h₁, h₂⟩ => by cases h₁; exact h₂⟩
  | error f c' => simp

/-- The second scan owes only what the first one has not consumed. -/
theorem Shrinks.bind {k : α → Nat} {cost : β → Nat} {x : Scan α} {f : α → Scan β}
    (hx : Shrinks k x) (hf : ∀ a, Shrinks (fun b => cost b - k a) (f a)) :
    Shrinks cost (x >>= f) := by
  intro c b c'' h
  obtain ⟨a, c', h₁, h₂⟩ := bind_eq_ok.1 h
  have h₃ := hx _ _ _ h₁
  have h₄ := hf _ _ _ _ h₂
  dsimp only at h₄
  omega

theorem Shrinks.pure {cost : α → Nat} {a : α} (h : cost a = 0) :
    Shrinks cost (pure a : Scan α) := by
  intro c b c' e
  cases e
  omega

theorem Shrinks.mono {k cost : α → Nat} {x : Scan α} (hx : Shrinks k x)
    (h : ∀ a, cost a ≤ k a) : Shrinks cost x := by
  intro c a c' e
  have := hx _ _ _ e
  have := h a
  omega

theorem Shrinks.map {k : α → Nat} {cost : β → Nat} {x : Scan α} {g : α → β}
    (hx : Shrinks k x) (h : ∀ a, cost (g a) ≤ k a) : Shrinks cost (g <$> x) := by
  intro c b c' e
  change EStateM.map g x c = _ at e
  unfold EStateM.map at e
  split at e
  · rename_i a d hax
    cases e
    have := hx _ _ _ hax
    have := h a
    omega
  · cases e

theorem shrinks_place : Shrinks (fun _ => 0) place := by
  intro c a c' e; cases e; exact Nat.le_refl _

theorem shrinks_failAt {cost : α → Nat} (p : Place) (cause : Cause) :
    Shrinks cost (failAt p cause : Scan α) := by
  intro c a c' e; cases e

theorem shrinks_fail {cost : α → Nat} (cause : Cause) : Shrinks cost (fail cause : Scan α) := by
  intro c a c' e; cases e

theorem shrinks_note (act : Act) (p : Place) : Shrinks (fun _ => 0) (note act p) := by
  intro c a c' e; cases e; exact Nat.le_refl _

theorem shrinks_next? : Shrinks (fun _ => 0) next? := by
  intro c a c' e; cases e; exact Nat.le_refl _

theorem shrinks_advance : Shrinks (fun _ => 0) advance := by
  intro c a c' e; cases e; simp

theorem shrinks_takeWhile (p : Char → Bool) : Shrinks List.length (takeWhile p) := by
  intro c a c' e
  cases e
  have h := congrArg List.length (List.takeWhile_append_dropWhile (p := p) (l := c.rest))
  rw [List.length_append] at h
  dsimp only
  omega

/-- Collects items until `item` declines with `none`. -/
def many (item : Scan (Option α)) (h : Shrinks perItem item) (c : Cursor) :
    EStateM.Result Fault Cursor (List α) :=
  match _e : item c with
  | .error f c' => .error f c'
  | .ok none c' => .ok [] c'
  | .ok (some a) c' =>
    match many item h c' with
    | .error f c'' => .error f c''
    | .ok as c'' => .ok (a :: as) c''
termination_by c.rest.length
decreasing_by exact h _ _ _ _e

theorem shrinks_many {item : Scan (Option α)} (h : Shrinks perItem item) :
    Shrinks (fun _ => 0) (many item h : Scan (List α)) := by
  intro c
  fun_induction many item h c with
  | case1 => intro _ _ e; cases e
  | case2 c c' e =>
    intro _ _ e'
    cases e'
    exact h _ _ _ e
  | case3 => intro _ _ e; cases e
  | case4 c a c' e as c'' e' ih =>
    intro _ _ e''
    cases e''
    have h₁ := ih _ _ e'
    have h₂ := h _ _ _ e
    dsimp only at h₁ ⊢
    omega

end Scan

end DeviceCode.Assembly
