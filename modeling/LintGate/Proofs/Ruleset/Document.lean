import LintGate.Proofs.Json.Printing
import LintGate.Ruleset.Document
/-! The configuration document can be read back from its text, whatever the options of its rules
are, and so can those of the presets. -/
namespace LintGate.Ruleset
open LintGate.Json (Value)
open LintGate.Json.Value (Lawful lawfulFields lawfulNat)

def OptionsLawful (rules : List Rule) : Prop := ∀ r ∈ rules, ∀ v ∈ r.options, Lawful v

theorem mappedLawful {α : Type} {xs : List α} {name : α → String} {value : α → Value}
    (values : ∀ x ∈ xs, Lawful (value x)) :
    Lawful (.ofFields (xs.map fun x => (name x, value x))) := by
  refine lawfulFields ?_
  intro f member
  obtain ⟨x, there, rfl⟩ := List.mem_map.mp member
  exact values x there

theorem ruleLawful {r : Rule} (options : ∀ v ∈ r.options, Lawful v) : Lawful r.value := by
  unfold Rule.value
  split
  · exact .text
  · refine .array ?_
    simpa [Lawful.text] using options

theorem pluginsLawful (s : Ruleset) : ∀ f ∈ s.pluginsField, Lawful f.2 := by
  unfold pluginsField
  split
  · simp
  · have names : Lawful (.array (s.plugins.map Value.text)) := by
      refine .array ?_
      intro v member
      obtain ⟨plugin, _, rfl⟩ := List.mem_map.mp member
      exact .text
    simpa using names

theorem documentLawful {s : Ruleset} (options : OptionsLawful s.rules) : Lawful s.document := by
  refine lawfulFields ?_
  intro f member
  simp only [List.mem_append, List.mem_cons, List.not_mem_nil, or_false] at member
  rcases member with ((rfl | rfl) | plugin) | (rfl | rfl)
  · exact mappedLawful fun _ _ => .boolean
  · exact mappedLawful fun _ _ => .text
  · exact pluginsLawful s f plugin
  · exact mappedLawful fun r there => ruleLawful (options r there)
  · exact lawfulFields (by simp [lawfulNat])

theorem readConfig {s : Ruleset} (options : OptionsLawful s.rules) :
    Value.read? s.configText = some s.document := by
  have spelt := Value.readValue (Value.prettySpells (documentLawful options) 0)
  rwa [String.ofList_toList] at spelt

/-! ### Presets -/

theorem essentialLawful : OptionsLawful essentialRules := by
  have unused : Lawful (.ofFields [("vars", .text "all"), ("args", .text "none")]) :=
    lawfulFields (by simp [Lawful.text])
  simp [OptionsLawful, essentialRules, unused, Lawful.text]

theorem equalityLawful : OptionsLawful [strictEquality] := by
  simp [OptionsLawful, strictEquality, Lawful.text]

theorem styleLawful : OptionsLawful styleRules := by
  have width : Lawful (.ofFields [("code", .ofNat 120)]) := lawfulFields (by simp [lawfulNat])
  simp [OptionsLawful, styleRules, strictEquality, width, lawfulNat, Lawful.text]

theorem presetLawful (p : Preset) (localConfig : Bool) :
    OptionsLawful (ofPreset p localConfig).rules := by
  intro r member
  cases p with
  | strict => exact (List.mem_append.mp member).elim (essentialLawful r) (styleLawful r)
  | minimal => exact (List.mem_append.mp member).elim (essentialLawful r) (equalityLawful r)

end LintGate.Ruleset
