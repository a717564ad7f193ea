import DeviceCode.Assembly.Instruction

/-!
# Initializers

Arrays nest to any depth. The arrays that are open are kept in a list, so that reading goes forward
through the text piece by piece.
-/

namespace DeviceCode.Assembly.Scan

/-- The beginning of an initializer: an array with elements to come, or the whole of it. -/
inductive Piece where
  | opening
  | whole (value : Initializer)

/-- The front of an initializer: all of it, or the bracket of an array that has elements. -/
def piece : Scan Piece := do
  if ← tryChar '@' then (fun n => .whole (.symbol n)) <$> noted .useSymbol
  else if ← tryChar '[' then
    if ← tryChar ']' then pure (.whole (.array [])) else pure .opening
  else if (← peek?) = some '"' then (fun s => .whole (.string s)) <$> string
  else
    let start ← place
    let word ← keyword
    if word = "zeroinitializer" then pure (.whole .zero)
    else match ValueType.ofName? word with
      | some type => (fun v => .whole (.scalar type v)) <$> literal type
      | none => failAt start (.expectedInitializer word)

theorem shrinks_piece : Shrinks (fun _ => 1) piece := by
  refine (shrinks_tryChar _).bind fun b => ?_
  cases b
  · refine (shrinks_tryChar _).bind fun b => ?_
    cases b
    · refine shrinks_peek?.bind fun c => ?_
      split
      · exact shrinks_string.map fun _ => Nat.le_refl _
      · refine shrinks_place.bind fun _ => shrinks_keyword.bind fun word => ?_
        split
        · exact Shrinks.pure rfl
        · split
          · exact (shrinks_literal _).map fun _ => Nat.le_refl _
          · exact shrinks_failAt _ _
    · refine ((shrinks_tryChar _).mono fun _ => Nat.zero_le _).bind fun b => ?_
      cases b <;> exact Shrinks.pure rfl
  · exact (shrinks_noted _).map fun _ => Nat.zero_le _

/-- Behind an element of an array: whether another one follows. -/
def separator : Scan Bool := do
  if ← tryChar ',' then pure true
  else
    expect ']'
    pure false

theorem shrinks_separator : Shrinks (fun _ => 1) separator := by
  refine (shrinks_tryChar _).bind fun b => ?_
  cases b
  · exact (shrinks_expect _).bind fun _ => Shrinks.pure rfl
  · exact Shrinks.pure rfl

mutual

/-- Reads an initializer inside the arrays `outer`, the innermost first, each with the elements read
so far in reverse. -/
def readWithin (outer : List (List Initializer)) (c : Cursor) :
    EStateM.Result Fault Cursor Initializer :=
  match _e : piece c with
  | .error f c' => .error f c'
  | .ok .opening c' => readWithin ([] :: outer) c'
  | .ok (.whole value) c' => resumeWithin outer value c'
termination_by c.rest.length
decreasing_by all_goals exact shrinks_piece _ _ _ _e

/-- Goes on behind `value`, an element of the innermost array. -/
def resumeWithin (outer : List (List Initializer)) (value : Initializer) (c : Cursor) :
    EStateM.Result Fault Cursor Initializer :=
  match outer with
  | [] => .ok value c
  | elements :: outer =>
    match _e : separator c with
    | .error f c' => .error f c'
    | .ok true c' => readWithin ((value :: elements) :: outer) c'
    | .ok false c' => resumeWithin outer (.array (value :: elements).reverse) c'
termination_by c.rest.length
decreasing_by all_goals exact shrinks_separator _ _ _ _e

end

mutual

theorem length_readWithin {outer : List (List Initializer)} {c c' : Cursor} {v : Initializer}
    (h : readWithin outer c = .ok v c') : c'.rest.length ≤ c.rest.length := by
  rw [readWithin] at h
  split at h
  · cases h
  · rename_i d e
    have := shrinks_piece _ _ _ e
    have := length_readWithin h
    omega
  · rename_i w d e
    have := shrinks_piece _ _ _ e
    have := length_resumeWithin h
    omega
termination_by c.rest.length

theorem length_resumeWithin {outer : List (List Initializer)} {value : Initializer}
    {c c' : Cursor} {v : Initializer} (h : resumeWithin outer value c = .ok v c') :
    c'.rest.length ≤ c.rest.length := by
  cases outer with
  | nil =>
    rw [resumeWithin] at h
    cases h
    exact Nat.le_refl _
  | cons elements outer =>
    rw [resumeWithin] at h
    split at h
    · cases h
    · rename_i d e
      have := shrinks_separator _ _ _ e
      have := length_readWithin h
      omega
    · rename_i d e
      have := shrinks_separator _ _ _ e
      have := length_resumeWithin h
      omega
termination_by c.rest.length

end

/-- At the start no array is open. -/
def initializer : Scan Initializer := readWithin []

theorem shrinks_initializer : Shrinks (fun _ => 0) initializer :=
  fun _ _ _ h => length_readWithin h

end DeviceCode.Assembly.Scan
