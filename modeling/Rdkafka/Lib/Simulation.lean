import Mathlib.Logic.Basic

/-!
# Runs of partial machines and forward simulation

A machine with states `σ`, inputs `ι` and outputs `ρ` is given by a partial step
`call : σ → ι → Option (ρ × σ)`: `none` is an input the machine refuses or a step that fails.
`runCalls` feeds it a list of inputs and collects the outputs.

A relation `R` between the states of a concrete and an abstract machine is a forward
simulation (`IsSimulation`) when every step the abstract machine takes from a state related
to a concrete one, the concrete machine takes too, with the same output, to a related state.
Then the same holds of every run (`IsSimulation.run`): whatever the abstract machine allows,
the concrete one does, and it answers the same.
-/

set_option autoImplicit false

namespace Simulation

variable {σ τ ι ρ : Type*}

/-- The inputs fed to the machine one after the other: its outputs and its last state, or
`none` when a step fails. -/
def runCalls (call : σ → ι → Option (ρ × σ)) : σ → List ι → Option (List ρ × σ)
  | s, [] => some ([], s)
  | s, i :: is =>
    match call s i with
    | none => none
    | some r => (runCalls call r.2 is).map fun res => (r.1 :: res.1, res.2)

@[simp] theorem runCalls_nil (call : σ → ι → Option (ρ × σ)) (s : σ) :
    runCalls call s [] = some ([], s) := rfl

/-- A run goes on from the state the first step reaches. -/
theorem runCalls_cons_of_eq {call : σ → ι → Option (ρ × σ)} {s s' : σ} {i : ι} {r : ρ}
    (h : call s i = some (r, s')) (is : List ι) :
    runCalls call s (i :: is) = (runCalls call s' is).map fun res => (r :: res.1, res.2) := by
  rw [runCalls, h]

/-- A run that succeeds took its first step. -/
theorem runCalls_cons_eq_some {call : σ → ι → Option (ρ × σ)} {s t : σ} {i : ι}
    {is : List ι} {rs : List ρ} (h : runCalls call s (i :: is) = some (rs, t)) :
    ∃ r s' rs', call s i = some (r, s') ∧ runCalls call s' is = some (rs', t) ∧ rs = r :: rs' := by
  rw [runCalls] at h
  split at h
  · cases h
  · next r hr =>
    obtain ⟨res, hres, heq⟩ := Option.map_eq_some_iff.1 h
    cases heq
    exact ⟨r.1, r.2, res.1, hr, hres, rfl⟩

/-- `R` relates the states of the concrete machine `callC` to those of the abstract machine
`callA` so that the concrete machine matches every step of the abstract one. -/
def IsSimulation (callC : σ → ι → Option (ρ × σ)) (callA : τ → ι → Option (ρ × τ))
    (R : σ → τ → Prop) : Prop :=
  ∀ ⦃s t i r t'⦄, R s t → callA t i = some (r, t') → ∃ s', callC s i = some (r, s') ∧ R s' t'

/-- **Run.**  A forward simulation matches whole runs: every run of the abstract machine is
a run of the concrete one, with the same outputs, ending in related states. -/
theorem IsSimulation.run {callC : σ → ι → Option (ρ × σ)} {callA : τ → ι → Option (ρ × τ)}
    {R : σ → τ → Prop} (hsim : IsSimulation callC callA R) :
    ∀ (is : List ι) {s : σ} {t t' : τ} {rs : List ρ}, R s t → runCalls callA t is = some (rs, t') →
      ∃ s', runCalls callC s is = some (rs, s') ∧ R s' t'
  | [], s, t, t', rs, hR, h => by
    rw [runCalls_nil, Option.some.injEq, Prod.mk.injEq] at h
    obtain ⟨rfl, rfl⟩ := h
    exact ⟨s, rfl, hR⟩
  | i :: is, s, t, t', rs, hR, h => by
    obtain ⟨r, t₁, rs', hstep, hrun, rfl⟩ := runCalls_cons_eq_some h
    obtain ⟨s₁, hstep', hR₁⟩ := hsim hR hstep
    obtain ⟨s', hrun', hR'⟩ := hsim.run is hR₁ hrun
    refine ⟨s', ?_, hR'⟩
    rw [runCalls_cons_of_eq hstep', hrun']
    rfl

end Simulation
