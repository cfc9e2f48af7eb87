import Mathlib.Logic.Basic
import Mathlib.Data.Nat.Notation

/-!
# Runs of a partial labelled step

A system is given by a partial step function: in a state, under an event,
it moves to one state or it has no next state at all. A `Run` is a finite
sequence of events it performs one after the other, each of them meeting a
condition on the event and the state it is performed in.

The condition is a parameter of the run and not a hypothesis of the theorems
about it: a property of the runs "whose every step meets `P`" is then a
property of `Run step P`, and restricting a system to some of its events is
the case of a `P` that does not read the state.

Five rules carry the proofs. `Run.invariant` is induction over the run,
`Run.simulation` carries a relation to a second system along it,
`Run.exists_first_not` cuts a run at the first step that leaves a condition,
and `Run.always_iff` turns what one step needs to keep a property into what
a run needs to have it all the way; `Run.steps_iff` does the same for a
property of the steps. `Run.exists_of_rank` is the rule for what must come:
a rank that every step pays from runs out, or the run gets where it should.
-/

variable {σ τ α : Type*}

/-- **The runs of `step`** whose steps all meet `P`: the state they start
in, the events they perform in order, the state they end in. -/
inductive Run (step : σ → α → Option σ) (P : σ → α → Prop) : σ → List α → σ → Prop
  | nil (s : σ) : Run step P s [] s
  | snoc {s t u : σ} {as : List α} {a : α} :
      Run step P s as t → P t a → step t a = some u → Run step P s (as ++ [a]) u

namespace Run

variable {step : σ → α → Option σ} {P Q : σ → α → Prop}

/-- One step is a run. -/
theorem single {s t : σ} {a : α} (hP : P s a) (hs : step s a = some t) :
    Run step P s [a] t := by
  rw [← List.nil_append [a]]
  exact Run.snoc (Run.nil s) hP hs

/-- Runs compose. -/
theorem append {s t u : σ} {as bs : List α} (h₁ : Run step P s as t)
    (h₂ : Run step P t bs u) : Run step P s (as ++ bs) u := by
  induction h₂ with
  | nil => rwa [List.append_nil]
  | snoc _ hP hs ih =>
    rw [← List.append_assoc]
    exact Run.snoc ih hP hs

/-- A run under a condition is a run under every weaker one. -/
theorem mono (hPQ : ∀ s a, P s a → Q s a) {s t : σ} {as : List α}
    (h : Run step P s as t) : Run step Q s as t := by
  induction h with
  | nil => exact Run.nil _
  | snoc _ hP hs ih => exact Run.snoc ih (hPQ _ _ hP) hs

/-- **The invariant rule.** What holds at the start and is preserved by
every step that meets the condition holds at the end of every run. -/
theorem invariant {I : σ → Prop}
    (hstep : ∀ s a t, I s → P s a → step s a = some t → I t)
    {s t : σ} {as : List α} (h : Run step P s as t) (hs : I s) : I t := by
  induction h with
  | nil => exact hs
  | snoc _ hP hst ih => exact hstep _ _ _ ih hP hst

/-- **The simulation rule.** A second system follows the first one step by
step, reading the state the first one steps from; a relation that every
such pair of steps preserves holds at the end. -/
theorem simulation {R : σ → τ → Prop} {astep : σ → τ → α → τ}
    (hstep : ∀ s x a t, R s x → P s a → step s a = some t → R t (astep s x a))
    {s t : σ × τ} {as : List α}
    (h : Run (fun p a => (step p.1 a).map (fun u => (u, astep p.1 p.2 a)))
      (fun p a => P p.1 a) s as t)
    (hs : R s.1 s.2) : R t.1 t.2 := by
  refine h.invariant (I := fun p => R p.1 p.2) (fun p a q hR hP hst => ?_) hs
  obtain ⟨u, hu, rfl⟩ := Option.map_eq_some_iff.mp hst
  exact hstep p.1 p.2 a u hR hP hu

/-- **The first step that leaves a condition.** A run either meets `Q`
throughout or has a first step that does not, with a run that does before
it and the rest of the run after it. -/
theorem exists_first_not {s t : σ} {as : List α} (h : Run step P s as t) :
    Run step (fun u a => P u a ∧ Q u a) s as t ∨
      ∃ bs a cs u v, as = bs ++ a :: cs
        ∧ Run step (fun w b => P w b ∧ Q w b) s bs u
        ∧ P u a ∧ ¬ Q u a ∧ step u a = some v ∧ Run step P v cs t := by
  induction h with
  | nil => exact Or.inl (Run.nil _)
  | @snoc t u as a hrun hP hst ih =>
    rcases ih with hgood | ⟨bs, b, cs, v, w, rfl, hpre, hPv, hQv, hvw, hpost⟩
    · by_cases hQ : Q t a
      · exact Or.inl (Run.snoc hgood ⟨hP, hQ⟩ hst)
      · exact Or.inr ⟨as, a, [], t, u, rfl, hgood, hP, hQ, hst, Run.nil _⟩
    · refine Or.inr ⟨bs, b, cs ++ [a], v, w, ?_, hpre, hPv, hQv, hvw, ?_⟩
      · rw [List.append_assoc]
        rfl
      · exact Run.snoc hpost hP hst

/-- **A condition that follows where the run is.** What the steps of a run
meet may be weakened with all that is known of the states they are taken
in. -/
theorem weaken {s t : σ} {as : List α} (h : Run step P s as t)
    (hPQ : ∀ bs u a v, Run step P s bs u → step u a = some v → P u a → Q u a) :
    Run step Q s as t := by
  induction h with
  | nil => exact Run.nil _
  | snoc hrun hP hst ih => exact Run.snoc ih (hPQ _ _ _ _ hrun hst hP) hst

/-- **A run with more kept beside it.** A system that adds to the states of
another one, and reads its steps, can follow all its runs. -/
theorem lift {f : τ → σ} {tstep : τ → α → Option τ}
    (hf : ∀ x a, (tstep x a).map f = step (f x) a) {x : τ} {t : σ} {as : List α}
    (h : Run step P (f x) as t) :
    ∃ y, f y = t ∧ Run tstep (fun y a => P (f y) a) x as y := by
  generalize hs : f x = s at h
  induction h with
  | nil => exact ⟨x, hs, Run.nil x⟩
  | @snoc t u as a _ hP hst ih =>
    obtain ⟨y, rfl, hrun⟩ := ih
    rw [← hf] at hst
    obtain ⟨z, hz, hu⟩ := Option.map_eq_some_iff.mp hst
    exact ⟨z, hu, hrun.snoc hP hz⟩

/-- The last step of a run. -/
theorem snoc_iff {s u : σ} {as : List α} {a : α} :
    Run step P s (as ++ [a]) u ↔ ∃ t, Run step P s as t ∧ P t a ∧ step t a = some u := by
  constructor
  · intro h
    generalize hl : as ++ [a] = l at h
    cases h with
    | nil => exact absurd hl (by simp)
    | snoc hrun hP hst =>
      obtain ⟨rfl, ha⟩ := List.append_inj' hl rfl
      obtain rfl : a = _ := List.singleton_inj.mp ha
      exact ⟨_, hrun, hP, hst⟩
  · rintro ⟨t, hrun, hP, hst⟩
    exact Run.snoc hrun hP hst

/-- A condition on the events alone is one on the list of them. -/
theorem and_iff {R : α → Prop} {s t : σ} {as : List α} :
    Run step (fun u a => P u a ∧ R a) s as t ↔ Run step P s as t ∧ ∀ a ∈ as, R a := by
  constructor
  · intro h
    induction h with
    | nil => exact ⟨Run.nil _, fun a ha => absurd ha List.not_mem_nil⟩
    | snoc _ hP hst ih =>
      refine ⟨ih.1.snoc hP.1 hst, fun b hb => ?_⟩
      rcases List.mem_append.mp hb with hb | hb
      · exact ih.2 b hb
      · rw [List.mem_singleton.mp hb]
        exact hP.2
  · rintro ⟨h, hR⟩
    induction h with
    | nil => exact Run.nil _
    | @snoc t u as a _ hP hst ih =>
      have hmem : a ∈ as ++ [a] := List.mem_append_right as (List.mem_singleton_self a)
      exact (ih (fun b hb => hR b (List.mem_append_left _ hb))).snoc ⟨hP, hR a hmem⟩ hst

/-- The events of a run decide the state it ends in. -/
theorem state_eq {s t u : σ} {as : List α} (h : Run step P s as t) (h' : Run step Q s as u) :
    u = t := by
  induction h generalizing u with
  | nil =>
    generalize hl : ([] : List α) = l at h'
    cases h' with
    | nil => rfl
    | snoc => exact absurd hl (by simp)
  | snoc _ _ hst ih =>
    obtain ⟨v, hrun, -, hst'⟩ := snoc_iff.mp h'
    rw [ih hrun, hst] at hst'
    exact (Option.some_inj.mp hst').symm

/-- A run can be cut anywhere. -/
theorem split {s u : σ} {as bs : List α} (h : Run step P s (as ++ bs) u) :
    ∃ t, Run step P s as t ∧ Run step P t bs u := by
  generalize hl : as ++ bs = l at h
  induction h generalizing bs with
  | nil =>
    obtain ⟨rfl, rfl⟩ := List.append_eq_nil_iff.mp hl
    exact ⟨s, Run.nil s, Run.nil s⟩
  | @snoc v w ls a hrun hP hst ih =>
    rcases List.eq_nil_or_concat bs with rfl | ⟨cs, b, rfl⟩
    · rw [List.append_nil] at hl
      rw [hl]
      exact ⟨w, hrun.snoc hP hst, Run.nil w⟩
    · rw [List.concat_eq_append, ← List.append_assoc] at hl
      obtain ⟨hl', hab⟩ := List.append_inj' hl rfl
      obtain rfl : b = a := List.singleton_inj.mp hab
      obtain ⟨t, has, hcs⟩ := ih hl'
      rw [List.concat_eq_append]
      exact ⟨t, has, hcs.snoc hP hst⟩

/-- The first step of a run. -/
theorem exists_step {s u : σ} {a : α} {as : List α} (h : Run step P s (a :: as) u) :
    ∃ t, P s a ∧ step s a = some t ∧ Run step P t as u := by
  rw [← List.singleton_append] at h
  obtain ⟨t, hfirst, hrest⟩ := h.split
  obtain ⟨s', hnil, hP, hst⟩ := snoc_iff.mp (show Run step P s ([] ++ [a]) t from hfirst)
  have hs : s' = s := (Run.nil (P := P) s).state_eq hnil
  subst hs
  exact ⟨t, hP, hst, hrest⟩

/-- **The exact condition of an invariant.** Where a step from a state with
`J` leads to a state with `J` exactly if it meets `Q`, a run has `J` all the
way exactly if all its steps meet `Q`. -/
theorem always_iff {I J : σ → Prop}
    (hI : ∀ s a t, I s → P s a → step s a = some t → I t)
    (hJ : ∀ s a t, I s → J s → P s a → step s a = some t → (J t ↔ Q s a))
    {s t : σ} {as : List α} (h : Run step P s as t) (hs : I s) (hs' : J s) :
    (∀ bs cs u, as = bs ++ cs → Run step P s bs u → J u)
      ↔ Run step (fun u a => P u a ∧ Q u a) s as t := by
  induction h with
  | nil =>
    refine iff_of_true (fun bs cs u hl hrun => ?_) (Run.nil s)
    rw [(List.append_eq_nil_iff.mp hl.symm).1] at hrun
    have hnil : Run step P s [] s := Run.nil s
    rwa [hnil.state_eq hrun]
  | @snoc t u as a hrun hP hst ih =>
    have hIt := hrun.invariant hI hs
    constructor
    · intro hall
      have hgood := ih.mp (fun bs cs v hl hv =>
        hall bs (cs ++ [a]) v (by rw [hl, List.append_assoc]) hv)
      have hJt : J t := hall as [a] t rfl hrun
      have hJu : J u := hall (as ++ [a]) [] u (List.append_nil _).symm (hrun.snoc hP hst)
      exact hgood.snoc ⟨hP, (hJ t a u hIt hJt hP hst).mp hJu⟩ hst
    · intro hgood bs cs v hl hv
      obtain ⟨t', hrun', hPQ, -⟩ := snoc_iff.mp hgood
      obtain rfl := hrun.state_eq hrun'
      have hpre := ih.mpr hrun'
      rcases List.eq_nil_or_concat cs with rfl | ⟨cs', b, rfl⟩
      · -- the whole run
        rw [List.append_nil] at hl
        subst hl
        rw [(hrun.snoc hP hst).state_eq hv]
        exact (hJ _ a u hIt (hpre as [] _ (List.append_nil _).symm hrun) hP hst).mpr hPQ.2
      · rw [List.concat_eq_append, ← List.append_assoc] at hl
        exact hpre bs cs' v (List.append_inj' hl rfl).1 hv

/-- **The exact condition of a property with a side invariant** that only
good states keep: as `always_iff`, where what is known of a state besides `J`
is known because the states before it had `J`. -/
theorem always_iff_of_side {I J : σ → Prop}
    (hI : ∀ s a t, I s → J s → J t → P s a → step s a = some t → I t)
    (hJ : ∀ s a t, I s → J s → P s a → step s a = some t → (J t ↔ Q s a))
    {s t : σ} {as : List α} (h : Run step P s as t) (hs : I s) (hs' : J s) :
    (∀ bs cs u, as = bs ++ cs → Run step P s bs u → J u)
      ↔ Run step (fun u a => P u a ∧ Q u a) s as t := by
  have hboth : ∀ u a v, True → J u ∧ I u → P u a → step u a = some v →
      (J v ∧ I v ↔ Q u a) := by
    intro u a v _ hu hP hst
    refine ⟨fun hv => (hJ u a v hu.2 hu.1 hP hst).mp hv.1, fun hQ => ?_⟩
    have hv : J v := (hJ u a v hu.2 hu.1 hP hst).mpr hQ
    exact ⟨hv, hI u a v hu.2 hu.1 hv hP hst⟩
  rw [← always_iff (I := fun _ => True) (J := fun u => J u ∧ I u) (fun _ _ _ _ _ _ => trivial)
    hboth h trivial ⟨hs', hs⟩]
  constructor
  · intro hall bs cs u hl hrun
    refine ⟨hall bs cs u hl hrun, ?_⟩
    induction hrun generalizing cs with
    | nil => exact hs
    | @snoc v w bs a hrun hP hst ih =>
      have hl' : as = bs ++ ([a] ++ cs) := by rw [hl, List.append_assoc]
      have hJv := hall bs _ v hl' hrun
      exact hI v a w (ih _ hl') hJv (hall _ cs w hl (hrun.snoc hP hst)) hP hst
  · exact fun hall bs cs u hl hrun => (hall bs cs u hl hrun).1

/-- **The exact condition of a property of steps.** Where a step from a state
with `I` has the property exactly if it meets `Q`, and the steps that meet
`Q` keep `I`, all the steps of a run have the property exactly if they all
meet `Q`. -/
theorem steps_iff {I : σ → Prop} {T : σ → α → σ → Prop}
    (hI : ∀ s a t, I s → P s a → Q s a → step s a = some t → I t)
    (hT : ∀ s a t, I s → P s a → step s a = some t → (T s a t ↔ Q s a))
    {s t : σ} {as : List α} (h : Run step P s as t) (hs : I s) :
    (∀ bs a cs u v, as = bs ++ a :: cs → Run step P s bs u → step u a = some v → T u a v)
      ↔ Run step (fun u a => P u a ∧ Q u a) s as t := by
  have hgood : ∀ {bs u}, Run step (fun u a => P u a ∧ Q u a) s bs u → I u :=
    fun hrun => hrun.invariant (fun _ _ _ hI' hPQ hst => hI _ _ _ hI' hPQ.1 hPQ.2 hst) hs
  constructor
  · intro hall
    rcases h.exists_first_not (Q := Q) with hrun | ⟨bs, a, cs, u, v, hl, hpre, hP, hQ, hst, -⟩
    · exact hrun
    · have hTu := hall bs a cs u v hl (hpre.mono fun _ _ hPQ => hPQ.1) hst
      exact absurd ((hT u a v (hgood hpre) hP hst).mp hTu) hQ
  · intro hrun bs a cs u v hl hbs hst
    subst hl
    obtain ⟨u', hpre, hpost⟩ := hrun.split
    obtain rfl := hpre.state_eq hbs
    obtain ⟨v', hPQ, -, -⟩ := hpost.exists_step
    exact (hT u a v (hgood hpre) hPQ.1 hst).mpr hPQ.2

end Run
