import Mathlib.Data.List.Forall2
/-! Work in stages, of which each may fail: where the whole has a result, so has each stage. -/
namespace LintGate

variable {ε α β : Type}

theorem bindOk {x : Except ε α} {next : α → Except ε β} {y : β} (done : (x >>= next) = .ok y) :
    ∃ a, x = .ok a ∧ next a = .ok y := by
  cases x with
  | error e => cases done
  | ok a => exact ⟨a, rfl, done⟩

theorem bindError {x : Except ε α} {next : α → Except ε β} {e : ε}
    (failed : (x >>= next) = .error e) : x = .error e ∨ ∃ a, x = .ok a ∧ next a = .error e := by
  cases x with
  | error e' => cases failed; exact .inl rfl
  | ok a => exact .inr ⟨a, rfl, failed⟩

theorem mapMOk {stage : α → Except ε β} {xs : List α} {ys : List β}
    (done : xs.mapM stage = .ok ys) : List.Forall₂ (fun x y => stage x = .ok y) xs ys := by
  induction xs generalizing ys with
  | nil =>
    cases done
    exact .nil
  | cons x xs ih =>
    rw [List.mapM_cons] at done
    obtain ⟨y, head, rest⟩ := bindOk done
    obtain ⟨tail, remaining, whole⟩ := bindOk rest
    cases whole
    exact .cons head (ih remaining)

theorem mapMEach {stage : α → Except ε β} {xs : List α} {ys : List β}
    (done : xs.mapM stage = .ok ys) : ∀ x ∈ xs, ∃ y, stage x = .ok y := by
  have rows := mapMOk done
  clear done
  induction rows with
  | nil => simp
  | cons first _ ih => exact List.forall_mem_cons.mpr ⟨⟨_, first⟩, ih⟩

/- The first element that fails gives its error to the whole; those before it have a result. -/
theorem mapMError {stage : α → Except ε β} {xs : List α} {e : ε}
    (failed : xs.mapM stage = .error e) :
    ∃ before x after, xs = before ++ x :: after ∧ (∃ ys, before.mapM stage = .ok ys) ∧
      stage x = .error e := by
  induction xs with
  | nil => cases failed
  | cons x xs ih =>
    rw [List.mapM_cons] at failed
    rcases bindError failed with first | ⟨y, first, rest⟩
    · exact ⟨[], x, xs, rfl, ⟨[], rfl⟩, first⟩
    · rcases bindError rest with later | ⟨ys, _, none⟩
      · obtain ⟨before, z, after, rfl, ⟨ys, done⟩, last⟩ := ih later
        refine ⟨x :: before, z, after, rfl, ⟨y :: ys, ?_⟩, last⟩
        rw [List.mapM_cons, first, done]
        rfl
      · cases none

/- What holds of each element holds of the list, in any monad. -/
theorem elementsGive {γ : Type} {m : Type → Type} [Monad m] [LawfulMonad m] {write : α → β}
    {read : β → m γ} {result : α → γ} {xs : List α}
    (h : ∀ x ∈ xs, read (write x) = pure (result x)) :
    (xs.map write).mapM read = pure (xs.map result) := by
  induction xs with
  | nil => rfl
  | cons x xs ih =>
    have tail := ih fun y member => h y (by simp [member])
    rw [List.map_cons, List.mapM_cons, h x (by simp), pure_bind, tail, pure_bind]
    rfl

/- Reading undoes writing in a list if it does so in each element. -/
theorem elementsRead {m : Type → Type} [Monad m] [LawfulMonad m] {write : α → β}
    {read : β → m α} {xs : List α} (h : ∀ x ∈ xs, read (write x) = pure x) :
    (xs.map write).mapM read = pure xs := by
  have given : (xs.map write).mapM read = pure (xs.map id) := elementsGive h
  rwa [List.map_id] at given

end LintGate
