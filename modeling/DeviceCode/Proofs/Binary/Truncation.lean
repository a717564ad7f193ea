import DeviceCode.Proofs.Binary.Encoding

/-!
# Cut-off modules

Bytes that go along with those of a module are read as a module only if they have all of them in
front, and then as that module (`eq_of_along`).  So no beginning of the bytes of a module is read,
wherever they are cut: inside a number, a text or the signature, between the members of a list, or
in front of the end (`ofBytes_of_prefix`).
-/

namespace DeviceCode.Module

open Binary

/-- The bytes of a module begin with the signature and the version. -/
theorem toBytes_eq (m : Module) : m.toBytes = magic ++ (putFixed 2 version ++ putModule m) :=
  List.append_assoc _ _ _

theorem pins_takeVersion : Pins (takeFixed 2) (putFixed 2 version) version :=
  (decodes_takeFixed 2 (by decide)).pins

/-- What is read as a module has the signature and the version in front. -/
theorem ofBytes_eq_ok {bytes : Bytes} {m : Module} (h : ofBytes bytes = .ok m) :
    ∃ body rest r, bytes = magic ++ body ∧ takeFixed 2 body = .ok (version, rest) ∧
      takeModule rest = .ok (m, r) := by
  unfold ofBytes at h
  split at h
  case isTrue => cases h
  case isFalse hb =>
    obtain ⟨body, rfl⟩ : magic <+: bytes := by
      rw [Bool.not_eq_true', Bool.not_eq_false] at hb
      exact List.isPrefixOf_iff_prefix.mp hb
    rw [List.drop_left] at h
    split at h
    case h_1 => cases h
    case h_2 found rest hversion =>
      split at h
      case isTrue => cases h
      case isFalse hfound =>
        obtain rfl := not_not.mp hfound
        split at h
        case h_1 => cases h
        case h_2 m' r hm =>
          cases h
          exact ⟨body, rest, r, rfl, hversion, hm⟩

/-- If one of two sequences of bytes is the beginning of the other, they cannot be read as different
modules. -/
theorem eq_of_along {m m' : Module} {bytes : Bytes} (h : ofBytes bytes = .ok m')
    (ha : Along m.toBytes bytes) : m' = m ∧ m.toBytes <+: bytes := by
  obtain ⟨body, rest, r, rfl, hversion, hm⟩ := ofBytes_eq_ok h
  rw [toBytes_eq] at ha ⊢
  have hbody := ha.right
  obtain ⟨-, rfl⟩ := pins_takeVersion _ _ _ hversion hbody.left
  obtain ⟨rfl, rfl⟩ := (decodes_takeModule m).pins _ _ _ hm hbody.right
  refine ⟨rfl, r, ?_⟩
  simp only [List.append_assoc]

/-- The signature tells whether bytes are binary, and the version is not mistaken for another one.
What is missing of a module is missed behind them. -/
theorem ofBytes_of_prefix {m : Module} {p : Bytes} (hp : p <+: m.toBytes) (hne : p ≠ m.toBytes) :
    (p.length < magic.length ∧ ofBytes p = .error .noSignature) ∨
      magic.length ≤ p.length ∧ ∃ fault, ofBytes p = .error (.malformed fault) := by
  have hnot : ∀ m', ofBytes p ≠ .ok m' := fun m' h =>
    hne (hp.eq_of_length (Nat.le_antisymm hp.length_le (eq_of_along h (.inr hp)).2.length_le))
  rw [toBytes_eq] at hp
  rcases Nat.lt_or_ge p.length magic.length with hlength | hlength
  · refine .inl ⟨hlength, ?_⟩
    rw [ofBytes, if_pos]
    rw [Bool.not_eq_true', isBinary, Bool.eq_false_iff, ne_eq, List.isPrefixOf_iff_prefix]
    exact fun h => absurd h.length_le (Nat.not_le.mpr hlength)
  · refine .inr ⟨hlength, ?_⟩
    obtain ⟨body, rfl⟩ := List.prefix_of_prefix_length_le (List.prefix_append _ _) hp hlength
    have hbody := (List.prefix_append_right_inj magic).mp hp
    have hb : isBinary (magic ++ body) := List.isPrefixOf_iff_prefix.mpr (List.prefix_append _ _)
    unfold ofBytes at hnot ⊢
    rw [hb, List.drop_left] at hnot ⊢
    cases hversion : takeFixed 2 body with
    | error fault => exact ⟨fault, by simp⟩
    | ok result =>
        obtain ⟨found, rest⟩ := result
        obtain ⟨rfl, -⟩ := pins_takeVersion _ _ _ hversion (Along.left (.inr hbody))
        rw [hversion] at hnot
        cases hm : takeModule rest with
        | error fault => exact ⟨fault, by simp [hm]⟩
        | ok result => exact (hnot result.1 (by simp [hm])).elim

/-- Cut in the signature, in a character of the source name, and in front of the last byte. -/
theorem oddities_cut :
    (oddities.toBytes.take 3 <+: oddities.toBytes ∧ oddities.toBytes.take 3 ≠ oddities.toBytes ∧
      ofBytes (oddities.toBytes.take 3) = .error .noSignature) ∧
    (oddities.toBytes.take 9 <+: oddities.toBytes ∧ oddities.toBytes.take 9 ≠ oddities.toBytes ∧
      ∃ fault, ofBytes (oddities.toBytes.take 9) = .error (.malformed fault)) ∧
    (oddities.toBytes.dropLast <+: oddities.toBytes ∧
      oddities.toBytes.dropLast ≠ oddities.toBytes ∧
      ∃ fault, ofBytes oddities.toBytes.dropLast = .error (.malformed fault)) := by
  have hshort : oddities.toBytes.take 3 ≠ oddities.toBytes := by decide +kernel
  have hname : oddities.toBytes.take 9 ≠ oddities.toBytes := by decide +kernel
  have hlast : oddities.toBytes.dropLast ≠ oddities.toBytes := by decide +kernel
  refine ⟨⟨List.take_prefix _ _, hshort, ?_⟩, ⟨List.take_prefix _ _, hname, ?_⟩,
    List.dropLast_prefix _, hlast, ?_⟩
  · rcases ofBytes_of_prefix (List.take_prefix _ _) hshort with ⟨-, h⟩ | ⟨h, -⟩
    · exact h
    · exact absurd h (by decide +kernel)
  · rcases ofBytes_of_prefix (List.take_prefix _ _) hname with ⟨h, -⟩ | ⟨-, h⟩
    · exact absurd h (by decide +kernel)
    · exact h
  · rcases ofBytes_of_prefix (List.dropLast_prefix _) hlast with ⟨h, -⟩ | ⟨-, h⟩
    · exact absurd h (by decide +kernel)
    · exact h

end DeviceCode.Module
