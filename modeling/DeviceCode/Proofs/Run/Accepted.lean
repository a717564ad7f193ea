import DeviceCode.Proofs.Run.Definitions

/-!
# Modules that are accepted

A text is accepted only if its names are told apart and stand for something.  Reading the binary
form checks nothing of this: it accepts every module.  Of those whose names are words, the texts of
the well-formed ones and no others are accepted (`accepted_modules`).
-/

namespace DeviceCode

variable {m : Module} {path : String}

namespace Module

theorem wellFormed_of_ofContent {content : List UInt8} (hc : ¬ Binary.isBinary content)
    (h : Module.ofContent path content = .ok m) : m.WellFormed := by
  obtain ⟨text, ht⟩ := exists_text_of_ofContent hc h
  exact wellFormed_of_read ht

/-- The text of a module whose names are words is accepted as this module exactly if the module is
well-formed. -/
theorem ofContent_text_iff (hn : m.WellNamed) (path : String) :
    Module.ofContent path (utf8 m.text) = .ok m.canonical ↔ m.WellFormed := by
  constructor
  · intro h
    rw [ofContent_text_eq] at h
    exact m.wellFormed_canonical_iff.mp (wellFormed_of_read (Except.mapError_eq_ok.mp h))
  · exact fun hw => ofContent_text hw hn path

/-- What is accepted as a text is linked.  Any module is accepted in its binary form, and in its
written form a module whose names are words exactly if it is well-formed. -/
theorem accepted_modules (path : String) (m : Module) :
    (∀ content, ¬ Binary.isBinary content → Module.ofContent path content = .ok m → m.IsLinked) ∧
      (m.toBytes.length < 2 ^ 64 → Module.ofContent path m.toBytes = .ok m) ∧
      (m.WellNamed → (Module.ofContent path (utf8 m.text) = .ok m.canonical ↔ m.WellFormed)) :=
  ⟨fun _ hc h => (wellFormed_of_ofContent hc h).isLinked,
    fun hsize => Options.ofContent_toBytes hsize path, fun hn => ofContent_text_iff hn path⟩

/-- A call of a function that is not there. -/
def dangling : Module where
  sourceName := none
  globals := []
  functions := [
    { Function.declaration "f" .void [] with
      body := some [⟨"entry", [⟨none, .call .void (.direct "g") [], []⟩]⟩] }]
  debugRecords := []

/-- A function and a global variable of the same name. -/
def clashing : Module :=
  ⟨none, [⟨"f", .external, false, none⟩], [Function.declaration "f" .void []], []⟩

/-- A global variable that holds itself. -/
def selfish : Module := ⟨none, [⟨"f", .external, false, some (.symbol "f")⟩], [], []⟩

/-- The first two are accepted in binary and refused as texts; the text of the third is accepted. -/
theorem unlinked_accepted :
    (¬ dangling.IsLinked ∧ Module.ofContent "in.bc" dangling.toBytes = .ok dangling ∧
        Module.ofContent "in.bc" (utf8 dangling.text) ≠ .ok dangling.canonical) ∧
      (¬ clashing.IsLinked ∧ Module.ofContent "in.bc" clashing.toBytes = .ok clashing ∧
        Module.ofContent "in.bc" (utf8 clashing.text) ≠ .ok clashing.canonical) ∧
      selfish.IsLinked ∧ Module.ofContent "in.bc" (utf8 selfish.text) = .ok selfish.canonical := by
  have hdangling : ¬ dangling.IsLinked := fun h =>
    absurd (h.functionSymbols _ List.mem_cons_self "g" (by decide)) (by decide)
  have hclashing : ¬ clashing.IsLinked := fun h => absurd h.names (by decide)
  obtain ⟨-, dbytes, dtext⟩ := accepted_modules "in.bc" dangling
  obtain ⟨-, cbytes, ctext⟩ := accepted_modules "in.bc" clashing
  obtain ⟨slinked, -, stext⟩ := accepted_modules "in.bc" selfish
  have hread := (stext (by decide +kernel)).mpr (by decide)
  exact ⟨⟨hdangling, dbytes (by decide +kernel),
      fun h => hdangling ((dtext (by decide +kernel)).mp h).isLinked⟩,
    ⟨hclashing, cbytes (by decide +kernel),
      fun h => hclashing ((ctext (by decide +kernel)).mp h).isLinked⟩,
    slinked _ (by decide +kernel) hread, hread⟩

end Module

end DeviceCode
