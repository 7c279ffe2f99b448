import Mathlib.Data.List.Basic

universe u v w x

-- Each step of the one system is seen as some steps of the other, maybe none, which are as `label` says.
structure Simulates {σ : Type u} {τ : Type v} {α : Type w} {β : Type x} (step : σ → α → σ)
    (step' : τ → β → τ) (view : σ → τ) (label : α → β → Prop) : Prop where
  step : ∀ s a, ∃ bs : List β, view (step s a) = bs.foldl step' (view s) ∧ ∀ b ∈ bs, label a b

namespace Simulates

variable {σ : Type u} {τ : Type v} {α : Type w} {β : Type x} {step : σ → α → σ} {step' : τ → β → τ}
         {view : σ → τ} {label : α → β → Prop}

-- Then so is each run.
theorem run (h : Simulates step step' view label) (s : σ) (as : List α) :
    ∃ bs : List β, view (as.foldl step s) = bs.foldl step' (view s) ∧ ∀ b ∈ bs, ∃ a ∈ as, label a b := by
  induction as generalizing s
  case nil => exact ⟨[], rfl, by simp⟩
  case cons a as hi =>
    obtain ⟨bs₁, h₁, hl₁⟩ := h.step s a
    obtain ⟨bs₂, h₂, hl₂⟩ := hi (step s a)
    refine ⟨bs₁ ++ bs₂, ?_, fun b hb => ?_⟩
    · rw [List.foldl_append, ← h₁]
      exact h₂
    · obtain hb | hb := List.mem_append.mp hb
      · exact ⟨a, List.mem_cons_self, hl₁ b hb⟩
      · obtain ⟨a', ha', hl⟩ := hl₂ b hb
        exact ⟨a', List.mem_cons_of_mem _ ha', hl⟩

end Simulates
