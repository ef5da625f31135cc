import LintGate.Selection
/-! A selection parts the names as filters would: each part keeps the order of the names and their
repetitions, and every occurrence of a name is in just one of the parts. -/
namespace LintGate.Selection

variable {probe : String → Except Fault Bool} {paths : List String} {path : String}

def tells (there : Bool) : Except Fault Bool → Bool
  | .ok answer => answer == there
  | .error _ => false

theorem tellsAnswer {there : Bool} {answer : Except Fault Bool} :
    tells there answer = true ↔ answer = .ok there := by
  cases answer with
  | error fault => simp [tells]
  | ok answer => simp [tells]

def presentIn (probe : String → Except Fault Bool) (paths : List String) : List String :=
  paths.filter fun path => tells true (probe path)

def missingIn (probe : String → Except Fault Bool) (paths : List String) : List String :=
  paths.filter fun path => tells false (probe path)

def refusal? (probe : String → Except Fault Bool) (path : String) : Option (String × Fault) :=
  match probe path with
  | .error fault => some (path, fault)
  | .ok _ => none

def inaccessibleIn (probe : String → Except Fault Bool) (paths : List String) :
    List (String × Fault) :=
  paths.filterMap (refusal? probe)

theorem ofParts (probe : String → Except Fault Bool) (paths : List String) :
    of probe paths =
      ⟨presentIn probe paths, missingIn probe paths, inaccessibleIn probe paths⟩ := by
  unfold of presentIn missingIn inaccessibleIn
  induction paths with
  | nil => rfl
  | cons path paths ih =>
    rw [List.foldr_cons, ih]
    cases answer : probe path with
    | error fault => simp [add, tells, refusal?, answer]
    | ok there => cases there <;> simp [add, tells, refusal?, answer]

theorem memPresent : path ∈ presentIn probe paths ↔ path ∈ paths ∧ probe path = .ok true := by
  rw [presentIn, List.mem_filter, tellsAnswer]

theorem memMissing : path ∈ missingIn probe paths ↔ path ∈ paths ∧ probe path = .ok false := by
  rw [missingIn, List.mem_filter, tellsAnswer]

theorem memInaccessible {fault : Fault} :
    (path, fault) ∈ inaccessibleIn probe paths ↔ path ∈ paths ∧ probe path = .error fault := by
  unfold inaccessibleIn
  rw [List.mem_filterMap]
  constructor
  · intro found
    obtain ⟨other, member, refused⟩ := found
    unfold refusal? at refused
    split at refused <;> try contradiction
    rename_i answer
    cases Option.some.inj refused
    exact ⟨member, answer⟩
  · intro found
    obtain ⟨member, answer⟩ := found
    exact ⟨path, member, by simp [refusal?, answer]⟩

theorem presentNone : presentIn probe paths = [] ↔ ∀ path ∈ paths, probe path ≠ .ok true := by
  rw [presentIn, List.filter_eq_nil_iff]
  simp only [tellsAnswer, ne_eq]

/-! ### Nothing lost -/

def names (s : Selection) : List String :=
  s.present ++ (s.missing ++ s.inaccessible.map Prod.fst)

theorem addNames (s : Selection) (path : String) (answer : Except Fault Bool) :
    (s.add path answer).names.Perm (path :: s.names) := by
  unfold add names
  cases answer with
  | error fault =>
    show (s.present ++ (s.missing ++ path :: s.inaccessible.map Prod.fst)).Perm _
    rw [← List.append_assoc, ← List.append_assoc]
    exact List.perm_middle
  | ok there =>
    cases there with
    | true => exact List.Perm.refl _
    | false => exact List.perm_middle

theorem ofNames (probe : String → Except Fault Bool) (paths : List String) :
    (of probe paths).names.Perm paths := by
  induction paths with
  | nil => exact List.Perm.refl []
  | cons path paths ih => exact (addNames _ path (probe path)).trans (ih.cons path)

end LintGate.Selection
