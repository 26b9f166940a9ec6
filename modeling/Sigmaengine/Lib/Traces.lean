import Mathlib.Data.List.Induction

/-!
# Runs of a deterministic system

A system goes from a state to the next by `next`, whatever comes.  A property holds along a run if it holds in every
state the run passes through; a condition on the single steps is met in a run if every step meets it in the state it
is taken in.
-/

namespace Traces

variable {σ ε : Type} (next : σ → ε → σ)

/-- The state that a run ends in. -/
def run (s : σ) (es : List ε) : σ := es.foldl next s

/-- The property holds in every state of the run; it may look at what has come so far. -/
def Along (P : List ε → σ → Prop) (s : σ) (es : List ε) : Prop := ∀ past, past <+: es → P past (run next s past)

/-- Every step of the run meets the condition. -/
def Each (Good : σ → ε → Prop) (s : σ) (es : List ε) : Prop :=
  ∀ past e, past ++ [e] <+: es → Good (run next s past) e

variable {next} {s : σ} {es : List ε} {e : ε} {P I : List ε → σ → Prop} {Good : σ → ε → Prop}

@[simp] theorem run_nil : run next s [] = s := List.foldl_nil

@[simp] theorem run_concat : run next s (es ++ [e]) = next (run next s es) e := by
  simp [run]

/-- What holds at the start and is kept by every step holds in every state reached. -/
theorem always (h₀ : I [] s) (hstep : ∀ past s e, I past s → I (past ++ [e]) (next s e)) (es : List ε) :
    I es (run next s es) := by
  induction es using List.reverseRecOn with
  | nil => exact h₀
  | append_singleton es e ih =>
    rw [run_concat]
    exact hstep es _ e ih

theorem each_nil : Each next Good s [] := by
  intro past e hpast
  simp at hpast

theorem each_cons : Each next Good s (e :: es) ↔ Good s e ∧ Each next Good (next s e) es := by
  constructor
  · intro h
    refine ⟨h [] e (by simp), fun past e' hpast => ?_⟩
    exact h (e :: past) e' (by simpa using hpast)
  · rintro ⟨hhead, htail⟩ past e' hpast
    cases past with
    | nil =>
      have he : e' = e := by simpa using hpast
      rw [he]
      exact hhead
    | cons e₀ past =>
      obtain ⟨rfl, hrest⟩ := List.cons_prefix_cons.mp hpast
      exact htail past e' hrest

theorem Each.ofPrefix {es' : List ε} (h : Each next Good s es) (hes : es' <+: es) : Each next Good s es' :=
  fun past e hpast => h past e (hpast.trans hes)

/-- What holds at the start and is kept by every step that meets the condition holds along every run whose steps all
meet it; `I` is what holds in every state anyway. -/
theorem Each.along (h : Each next Good s es) (hI : ∀ es, I es (run next s es)) (h₀ : P [] s)
    (hstep : ∀ past s e, I past s → P past s → Good s e → P (past ++ [e]) (next s e)) : Along next P s es := by
  intro past hpast
  replace h := h.ofPrefix hpast
  clear hpast
  induction past using List.reverseRecOn with
  | nil => exact h₀
  | append_singleton past e ih =>
    rw [run_concat]
    exact hstep past _ e (hI past) (ih (h.ofPrefix (List.prefix_append past [e]))) (h past e List.prefix_rfl)

/-- Where a step that does not meet the condition breaks the property at once, the two say the same of a run. -/
theorem along_iff_each (hI : ∀ es, I es (run next s es)) (h₀ : P [] s)
    (hstep : ∀ past s e, I past s → P past s → Good s e → P (past ++ [e]) (next s e))
    (hbreak : ∀ past s e, I past s → P past s → P (past ++ [e]) (next s e) → Good s e) :
    Along next P s es ↔ Each next Good s es := by
  constructor
  · intro h past e hpast
    have hafter := h _ hpast
    rw [run_concat] at hafter
    exact hbreak past _ e (hI past) (h past ((List.prefix_append past [e]).trans hpast)) hafter
  · intro h
    exact h.along hI h₀ hstep

end Traces
