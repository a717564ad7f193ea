import Mathlib.Data.List.Forall2
import Mathlib.Data.List.Nodup
import Mathlib.Data.List.Pairwise

/-!
# Lists, texts, numbers and results
-/

namespace DeviceCode

/-- Looking a key up finds the one member that has it. -/
theorem find?_eq_some_iff_of_nodup {α β : Type} [BEq β] [LawfulBEq β] {key : α → β} {l : List α}
    (h : (l.map key).Nodup) {k : β} {a : α} :
    l.find? (key · == k) = some a ↔ a ∈ l ∧ key a = k := by
  constructor
  · exact fun hf => ⟨List.mem_of_find?_eq_some hf, by simpa using List.find?_some hf⟩
  · rintro ⟨ha, rfl⟩
    obtain ⟨b, hb⟩ : ∃ b, l.find? (key · == key a) = some b :=
      Option.isSome_iff_exists.mp (List.find?_isSome.mpr ⟨a, ha, BEq.rfl⟩)
    have hk : key b = key a := by simpa using List.find?_some hb
    rw [hb, List.inj_on_of_nodup_map h (List.mem_of_find?_eq_some hb) ha hk]

/-- Of members that give distinct values, no two give one. -/
theorem eq_of_nodup_filterMap {α β : Type} {f : α → Option β} {l : List α}
    (h : (l.filterMap f).Nodup) {a a' : α} {b : β} (ha : a ∈ l) (ha' : a' ∈ l)
    (hb : f a = some b) (hb' : f a' = some b) : a = a' := by
  rw [List.nodup_iff_pairwise_ne, List.pairwise_filterMap] at h
  have hsymm : Std.Symm fun x y : α => ∀ c, f x = some c → ∀ d, f y = some d → c ≠ d :=
    ⟨fun _ _ hxy c hc d hd he => hxy d hd c hc he.symm⟩
  by_contra hne
  exact h.forall ha ha' hne b hb b hb' rfl

/-- Of the members with a property one is the first. -/
theorem exists_first {α : Type} {p : α → Prop} {l : List α} (h : ∃ a ∈ l, p a) :
    ∃ front a back, l = front ++ a :: back ∧ p a ∧ ∀ b ∈ front, ¬ p b := by
  induction l with
  | nil =>
      obtain ⟨a, ha, -⟩ := h
      cases ha
  | cons b l ih =>
      by_cases hb : p b
      · exact ⟨[], b, l, rfl, hb, List.forall_mem_nil _⟩
      · obtain ⟨a, ha, hpa⟩ := h
        have hal : a ∈ l := by
          rcases List.mem_cons.mp ha with rfl | ha
          · exact absurd hpa hb
          · exact ha
        obtain ⟨front, c, back, rfl, hc, hfront⟩ := ih ⟨a, hal, hpa⟩
        exact ⟨b :: front, c, back, rfl, hc, List.forall_mem_cons.mpr ⟨hb, hfront⟩⟩

/-- Members that contribute nothing may be left out. -/
theorem flatMap_filter_eq {α β : Type} {f : α → List β} {p : α → Bool} {l : List α}
    (h : ∀ a ∈ l, p a = false → f a = []) : (l.filter p).flatMap f = l.flatMap f := by
  induction l with
  | nil => rfl
  | cons a l ih =>
      obtain ⟨ha, hl⟩ := List.forall_mem_cons.mp h
      cases hp : p a with
      | true => rw [List.filter_cons_of_pos hp, List.flatMap_cons, List.flatMap_cons, ih hl]
      | false =>
          rw [List.filter_cons_of_neg (by simp [hp]), List.flatMap_cons, ha hp, List.nil_append,
            ih hl]

/-- A text is divided behind the members that satisfy `p` and in front of one that does not. -/
theorem span_append {α : Type} {p : α → Bool} {l r : List α} (hl : ∀ a ∈ l, p a)
    (hr : ∀ a ∈ r.head?, p a = false) :
    (l ++ r).takeWhile p = l ∧ (l ++ r).dropWhile p = r := by
  rw [List.takeWhile_append_of_pos hl, List.dropWhile_append_of_pos hl]
  cases r with
  | nil => simp
  | cons a r =>
      have ha : ¬ p a = true := by simp [hr a rfl]
      rw [List.takeWhile_cons_of_neg ha, List.dropWhile_cons_of_neg ha, List.append_nil]
      exact ⟨rfl, rfl⟩

/-- What is there under a condition is there or not. -/
theorem ite_singleton_sublist {α : Type} (p : Prop) [Decidable p] (a : α) :
    (if p then [a] else []).Sublist [a] := by
  split
  · exact List.Sublist.refl _
  · exact List.nil_sublist _

/-- The pieces of a list are made of its members, but for those it is divided at. -/
theorem mem_splitOn {α : Type} [BEq α] [LawfulBEq α] {x : α} {l piece : List α}
    (h : piece ∈ l.splitOn x) : x ∉ piece ∧ piece ⊆ l := by
  induction l generalizing piece with
  | nil =>
      rw [List.splitOn_nil, List.mem_singleton] at h
      rw [h]
      exact ⟨List.not_mem_nil, List.Subset.refl _⟩
  | cons a l ih =>
      rw [List.splitOn_cons_eq_if_modifyHead] at h
      split at h
      case isTrue =>
        rcases List.mem_cons.mp h with rfl | h
        · exact ⟨List.not_mem_nil, List.nil_subset _⟩
        · exact ⟨(ih h).1, List.subset_cons_of_subset _ (ih h).2⟩
      case isFalse ha =>
        obtain ⟨first, rest, hl⟩ := List.exists_cons_of_ne_nil (List.splitOn_ne_nil x l)
        rw [hl] at ih h
        rw [List.modifyHead_cons] at h
        rcases List.mem_cons.mp h with rfl | h
        · obtain ⟨hx, hsub⟩ := ih List.mem_cons_self
          refine ⟨?_, List.cons_subset_cons _ hsub⟩
          rw [List.mem_cons, not_or]
          refine ⟨?_, hx⟩
          rintro rfl
          exact ha BEq.rfl
        · obtain ⟨hx, hsub⟩ := ih (List.mem_cons_of_mem _ h)
          exact ⟨hx, List.subset_cons_of_subset _ hsub⟩

/-- Going through some lists one by one is going through all that is in them. -/
theorem foldlM_flatMap {m : Type → Type} [Monad m] [LawfulMonad m] {α β σ : Type} {g : α → List β}
    {f : σ → β → m σ} (s : σ) (l : List α) :
    (l.flatMap g).foldlM f s = l.foldlM (fun s a => (g a).foldlM f s) s := by
  induction l generalizing s with
  | nil => rfl
  | cons a l ih =>
      rw [List.flatMap_cons, List.foldlM_append, List.foldlM_cons]
      exact bind_congr ih

/-- A list of texts is the first of them, and each other one behind a separator. -/
theorem intercalate_cons (sep t : String) (ts : List String) :
    sep.intercalate (t :: ts) = t ++ String.join (ts.map (sep ++ ·)) := by
  induction ts generalizing t with
  | nil => rw [String.intercalate_singleton, List.map_nil, String.join_nil, String.append_empty]
  | cons u ts ih =>
      rw [String.intercalate_cons_cons, ih, List.map_cons, String.join_cons, String.append_assoc,
        String.append_assoc]

/-- A number is told from its digits. -/
theorem toList_repr_inj {m n : Nat} : m.repr.toList = n.repr.toList ↔ m = n := by
  refine ⟨fun h => ?_, fun h => by rw [h]⟩
  rw [Nat.toList_repr, Nat.toList_repr] at h
  rw [← Nat.ofDigitChars_ten_toDigits (n := m), h, Nat.ofDigitChars_ten_toDigits]

theorem eq_mk_of_snd_eq {α β : Type} {p : α × β} {b : β} (h : p.2 = b) : p = (p.1, b) := by
  rw [← h]

theorem Except.bind_eq_ok {ε β γ : Type} {x : Except ε β} {f : β → Except ε γ} {c : γ} :
    x >>= f = .ok c ↔ ∃ b, x = .ok b ∧ f b = .ok c := by
  cases x with
  | error e => exact ⟨nofun, fun ⟨_, h, _⟩ => nomatch h⟩
  | ok b => exact ⟨fun h => ⟨b, rfl, h⟩, fun ⟨_, h, h'⟩ => by cases h; exact h'⟩

theorem Except.bind_eq_error {ε β γ : Type} {x : Except ε β} {f : β → Except ε γ} {e : ε} :
    x >>= f = .error e ↔ x = .error e ∨ ∃ b, x = .ok b ∧ f b = .error e := by
  cases x with
  | error e' =>
      refine ⟨fun h => .inl (by cases h; rfl), fun h => ?_⟩
      cases h.resolve_right fun ⟨_, h, _⟩ => nomatch h
      rfl
  | ok b =>
      refine ⟨fun h => .inr ⟨b, rfl, h⟩, fun h => ?_⟩
      obtain ⟨_, h, h'⟩ := h.resolve_left nofun
      cases h
      exact h'

/-- A change of errors does not change what succeeds. -/
theorem Except.mapError_eq_ok {ε ε' β : Type} {x : Except ε β} {f : ε → ε'} {b : β} :
    x.mapError f = .ok b ↔ x = .ok b := by
  cases x with
  | error e => exact iff_of_false nofun nofun
  | ok b' => simp [Except.mapError]

theorem Except.mapError_eq_error {ε ε' β : Type} {x : Except ε β} {f : ε → ε'} {e : ε'} :
    x.mapError f = .error e ↔ ∃ e', x = .error e' ∧ f e' = e := by
  cases x with
  | error e' => simp [Except.mapError]
  | ok b => exact iff_of_false nofun fun ⟨_, h, _⟩ => nomatch h

/-- A list is mapped if each of its elements is. -/
theorem mapM_eq_ok {ε α β : Type} {f : α → Except ε β} {l : List α} {bs : List β} :
    l.mapM f = .ok bs ↔ List.Forall₂ (fun a b => f a = .ok b) l bs := by
  induction l generalizing bs with
  | nil =>
      rw [List.mapM_nil, List.forall₂_nil_left_iff]
      exact ⟨fun h => (Except.ok.inj h).symm, fun h => by rw [h]; rfl⟩
  | cons a l ih =>
      rw [List.mapM_cons, Except.bind_eq_ok, List.forall₂_cons_left_iff]
      constructor
      · rintro ⟨b, hb, h⟩
        obtain ⟨bs', hbs, h⟩ := Except.bind_eq_ok.mp h
        cases h
        exact ⟨b, bs', hb, ih.mp hbs, rfl⟩
      · rintro ⟨b, bs', hb, hbs, rfl⟩
        exact ⟨b, hb, Except.bind_eq_ok.mpr ⟨bs', ih.mpr hbs, rfl⟩⟩

end DeviceCode
