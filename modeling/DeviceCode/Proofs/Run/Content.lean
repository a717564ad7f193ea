import DeviceCode.Proofs.Assembly.Reads
import DeviceCode.Proofs.Text.Utf8
import DeviceCode.Run.Plan

/-!
# Modules in files

What is written to a file is a module in binary, or a text.  A text is never taken for a binary
module unless it begins with the letter of its signature, and a text that begins with a bracket is
no module at all.
-/

namespace DeviceCode

/-! ## Texts in bytes -/

/-- The first byte of a character is that of the letter `D` only for this letter. -/
theorem eq_of_utf8EncodeChar {c : Char} (h : (String.utf8EncodeChar c).head? = some 0x44) :
    c = 'D' := by
  have hbyte : ∀ n : Nat, UInt8.ofNat n = 0x44 → n % 256 = 0x44 := fun n hn =>
    (UInt8.toNat_ofNat' (n := n)).symm.trans (congrArg UInt8.toNat hn)
  have hval : c.val.toNat = 0x44 := by
    simp only [String.utf8EncodeChar] at h
    split at h
    case isTrue hone =>
      have hc := hbyte _ (Option.some.inj h)
      omega
    case isFalse =>
      exfalso
      split at h
      · have hc := hbyte _ (Option.some.inj h)
        omega
      · split at h
        · have hc := hbyte _ (Option.some.inj h)
          omega
        · have hc := hbyte _ (Option.some.inj h)
          omega
  exact Char.ext (UInt32.toNat_inj.mp hval)

/-- The signature of binary modules begins with a letter. -/
theorem head?_of_isBinary {text : String} (h : Binary.isBinary (utf8 text)) :
    text.toList.head? = some 'D' := by
  rw [utf8, toUTF8_eq_flatMap, Binary.isBinary, List.isPrefixOf_iff_prefix] at h
  cases hc : text.toList with
  | nil =>
      rw [hc] at h
      cases List.prefix_nil.mp h
  | cons c r =>
      obtain ⟨rest, hrest⟩ := h
      have hfirst := congrArg List.head? hrest
      rw [hc, List.flatMap_cons,
        List.head?_append_of_ne_nil _ String.utf8EncodeChar_ne_nil] at hfirst
      exact congrArg some (eq_of_utf8EncodeChar hfirst.symm)

/-! ## Texts of modules -/

/-- A text that does not begin like a binary module is read as a text. -/
theorem Module.ofContent_utf8 {text : String} (hd : text.toList.head? ≠ some 'D') (path : String) :
    Module.ofContent path (utf8 text) = (Module.read text).mapError (.syntaxError path) := by
  have hbinary : ¬ Binary.isBinary (utf8 text) := fun hb => hd (head?_of_isBinary hb)
  rw [Module.ofContent, if_neg hbinary, utf8, Utf8.fault?_toUTF8, fromUTF8?_toUTF8]

namespace Assembly.Scan

variable (r : List Char) (t : List Occurrence)

theorem entityItem_bracket : ∃ fault c, entityItem ⟨'[' :: r, t⟩ = .error fault c := ⟨_, _, rfl⟩

/-- No entity begins with a bracket, so a text that does is not read. -/
theorem entities_bracket : ∃ fault c, entities ⟨'[' :: r, t⟩ = .error fault c := by
  obtain ⟨fault, c, h⟩ := entityItem_bracket r t
  refine ⟨fault, c, ?_⟩
  change many entityItem shrinks_entityItem ⟨'[' :: r, t⟩ = _
  rw [many]
  split
  case h_1 e =>
    rw [h] at e
    cases e
    rfl
  case h_2 e =>
    rw [h] at e
    cases e
  case h_3 e =>
    rw [h] at e
    cases e

end Assembly.Scan

theorem Module.read_bracket {text : String} (h : text.toList.head? = some '[') (m : Module) :
    Module.read text ≠ .ok m := by
  obtain ⟨r, hr⟩ := List.head?_eq_some_iff.mp h
  obtain ⟨fault, c, he⟩ := Assembly.Scan.entities_bracket r []
  intro hm
  have hm := Except.mapError_eq_ok.mp hm
  rw [Assembly.readChars, hr, he] at hm
  dsimp only at hm
  obtain ⟨_, _, hm⟩ := Except.bind_eq_ok.mp hm
  cases hm

/-- A text that begins with a bracket is no module. -/
theorem Module.ofContent_bracket {text : String} (h : text.toList.head? = some '[') (path : String)
    (m : Module) : Module.ofContent path (utf8 text) ≠ .ok m := by
  intro hm
  rw [Module.ofContent_utf8 (by rw [h]; decide)] at hm
  exact Module.read_bracket h m (Except.mapError_eq_ok.mp hm)

end DeviceCode
