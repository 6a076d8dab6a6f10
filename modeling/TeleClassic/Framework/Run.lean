/-!
# Runs of a partial step function

A system is given by a step function `step : S → E → Option S`: `step s e` is
the state after the event `e`, or `none` if `e` cannot happen in `s`. `run`
takes a list of events; `Along G` says that each event of a run satisfies `G`
in the state it happens in. The invariant rules are `run_inv`, for every run,
and `run_inv_along`, for the runs along which `G` holds; `run_iff_along` is exact,
and `run_total` is the rule for systems in which every event can happen.
`run_refines` is the rule for a refinement of a total system.
`run_filter` takes steps out of a run that do not matter to the rest. `collect`
is what is observed along a run, and `run_collect` the invariant rule for
properties of the state and of what was observed so far.
-/

namespace TC

variable {S E : Type} {step : S → E → Option S} {es : List E} {G : S → E → Prop} {s : S}

/-- The state after the events `es`, if each of them can happen in its turn. -/
def run (step : S → E → Option S) (s : S) : List E → Option S
  | [] => some s
  | e :: es => (step s e).bind fun s' => run step s' es

/-- Each of the events `es`, run from `s`, satisfies `G` where it happens. -/
def Along (step : S → E → Option S) (G : S → E → Prop) (s : S) : List E → Prop
  | [] => True
  | e :: es => G s e ∧ ∀ s', step s e = some s' → Along step G s' es

theorem run_cons {t : S} {e : E} :
    run step s (e :: es) = some t ↔ ∃ s', step s e = some s' ∧ run step s' es = some t := by
  simp [run, Option.bind_eq_some_iff]

theorem run_append {t : S} {es' : List E} :
    run step s (es ++ es') = some t ↔ ∃ u, run step s es = some u ∧ run step u es' = some t := by
  induction es generalizing s with
  | nil => simp [run]
  | cons e es ih =>
    simp only [List.cons_append, run_cons, ih]
    constructor
    · rintro ⟨s', he, u, hu, ht⟩
      exact ⟨u, ⟨s', he, hu⟩, ht⟩
    · rintro ⟨u, ⟨s', he, hu⟩, ht⟩
      exact ⟨s', he, u, hu, ht⟩

/-- What every step keeps along which `G` holds is kept by a run along which
`G` holds. -/
theorem run_inv_along {G : S → E → Prop} {Inv : S → Prop}
    (hstep : ∀ s e s', G s e → Inv s → step s e = some s' → Inv s') {s t : S} {es : List E}
    (hG : Along step G s es) (hs : Inv s) (h : run step s es = some t) : Inv t := by
  induction es generalizing s with
  | nil => exact Option.some.inj h ▸ hs
  | cons e es ih =>
    obtain ⟨s', he, h'⟩ := run_cons.mp h
    exact ih (hG.2 s' he) (hstep s e s' hG.1 hs he) h'

theorem along_cons {s' : S} {e : E} (hG : G s e) (he : step s e = some s') (h : Along step G s' es) :
    Along step G s (e :: es) :=
  ⟨hG, fun _ he' => Option.some.inj (he.symm.trans he') ▸ h⟩

theorem along_cons_iff {s' : S} {e : E} (he : step s e = some s') :
    Along step G s (e :: es) ↔ G s e ∧ Along step G s' es :=
  ⟨fun h => ⟨h.1, h.2 s' he⟩, fun h => along_cons h.1 he h.2⟩

instance decidableAlong (G : S → E → Prop) [∀ s e, Decidable (G s e)] : ∀ s es, Decidable (Along step G s es)
  | _, [] => .isTrue trivial
  | s, e :: es =>
    match he : step s e with
    | none => decidable_of_iff (G s e) ⟨fun hG => ⟨hG, fun s' he' => by cases he.symm.trans he'⟩, fun h => h.1⟩
    | some s' =>
      have := decidableAlong G s' es
      decidable_of_iff (G s e ∧ Along step G s' es) (along_cons_iff he).symm

/-- What each step keeps if and only if it satisfies `G` holds after a run if and
only if it held before and `G` holds along it. -/
theorem run_iff_along {G : S → E → Prop} {Inv P : S → Prop}
    (hstep : ∀ s e s', Inv s → step s e = some s' → Inv s' ∧ (P s' ↔ P s ∧ G s e)) {s t : S} {es : List E}
    (hs : Inv s) (h : run step s es = some t) : P t ↔ P s ∧ Along step G s es := by
  induction es generalizing s with
  | nil =>
    obtain rfl := Option.some.inj h
    exact (and_iff_left trivial).symm
  | cons e es ih =>
    obtain ⟨s', he, h'⟩ := run_cons.mp h
    obtain ⟨hs', hP⟩ := hstep s e s' hs he
    rw [ih hs' h', hP, along_cons_iff he, and_assoc]

theorem Along.imp {G' : S → E → Prop} (himp : ∀ s e, G s e → G' s e) (h : Along step G s es) :
    Along step G' s es := by
  induction es generalizing s with
  | nil => trivial
  | cons e es ih => exact ⟨himp s e h.1, fun s' he => ih (h.2 s' he)⟩

theorem Along.and {G' : S → E → Prop} (h : Along step G s es) (h' : Along step G' s es) :
    Along step (fun s e => G s e ∧ G' s e) s es := by
  induction es generalizing s with
  | nil => trivial
  | cons e es ih => exact ⟨⟨h.1, h'.1⟩, fun s' he => ih (h.2 s' he) (h'.2 s' he)⟩

theorem along_of_forall (h : ∀ e ∈ es, ∀ s, G s e) : Along step G s es := by
  induction es generalizing s with
  | nil => trivial
  | cons e es ih =>
    exact ⟨h e List.mem_cons_self s, fun _ _ => ih fun e' he' => h e' (List.mem_cons_of_mem _ he')⟩

theorem along_true : Along step (fun _ _ => True) s es :=
  along_of_forall fun _ _ _ => trivial

/-- What every step keeps holds wherever a step of a run happens. -/
theorem along_inv {Inv : S → Prop} (hstep : ∀ s e s', Inv s → step s e = some s' → Inv s') {s : S} {es : List E}
    (hs : Inv s) : Along step (fun s _ => Inv s) s es := by
  induction es generalizing s with
  | nil => trivial
  | cons e es ih => exact ⟨hs, fun s' he => ih (hstep s e s' hs he)⟩

/-- A run without its silent steps: if a silent step keeps `R` and any other is
matched by the same step on the other side, then the other steps are a run. -/
theorem run_filter {G : S → E → Prop} {R : S → S → Prop} {silent : E → Bool}
    (hsilent : ∀ s s' r e, G s e → R s r → silent e = true → step s e = some s' → R s' r)
    (hother : ∀ s s' r e, G s e → R s r → silent e = false → step s e = some s' →
      ∃ r', step r e = some r' ∧ R s' r') {s t r : S} {es : List E}
    (hG : Along step G s es) (hs : R s r) (h : run step s es = some t) :
    ∃ r', run step r (es.filter fun e => !silent e) = some r' ∧ R t r' := by
  induction es generalizing s r with
  | nil =>
    obtain rfl := Option.some.inj h
    exact ⟨r, rfl, hs⟩
  | cons e es ih =>
    obtain ⟨s', he, h'⟩ := run_cons.mp h
    cases hsil : silent e with
    | true =>
      rw [List.filter_cons_of_neg (by simp [hsil])]
      exact ih (hG.2 s' he) (hsilent s s' r e hG.1 hs hsil he) h'
    | false =>
      obtain ⟨r₁, hr₁, hs₁⟩ := hother s s' r e hG.1 hs hsil he
      obtain ⟨r', hr', ht⟩ := ih (hG.2 s' he) hs₁ h'
      rw [List.filter_cons_of_pos (by simp [hsil])]
      exact ⟨r', run_cons.mpr ⟨r₁, hr₁, hr'⟩, ht⟩

/-- If every step can happen and keeps `R` to what it does on the other side, every run can,
and does. -/
theorem run_refines {A : Type} {R : S → A → Prop} {abstractStep : A → E → A}
    (hstep : ∀ s a e, R s a → ∃ s', step s e = some s' ∧ R s' (abstractStep a e)) {a : A} (hs : R s a)
    (es : List E) : ∃ s', run step s es = some s' ∧ R s' (es.foldl abstractStep a) := by
  induction es generalizing s a with
  | nil => exact ⟨s, rfl, hs⟩
  | cons e es ih =>
    obtain ⟨s₁, he, hs₁⟩ := hstep s a e hs
    obtain ⟨s₂, hrun, hs₂⟩ := ih hs₁
    exact ⟨s₂, run_cons.mpr ⟨s₁, he, hrun⟩, hs₂⟩

/-- What is observed along a run, as long as it goes on. -/
def collect {O : Type} (step : S → E → Option S) (observe : S → E → S → List O) (s : S) : List E → List O
  | [] => []
  | e :: es => (step s e).elim [] fun s' => observe s e s' ++ collect step observe s' es

theorem collect_cons {O : Type} {observe : S → E → S → List O} {s' : S} {e : E} (he : step s e = some s') :
    collect step observe s (e :: es) = observe s e s' ++ collect step observe s' es := by
  rw [collect, he]
  rfl

theorem collect_append {O : Type} {observe : S → E → S → List O} {u : S} {es' : List E}
    (h : run step s es = some u) :
    collect step observe s (es ++ es') = collect step observe s es ++ collect step observe u es' := by
  induction es generalizing s with
  | nil =>
    obtain rfl := Option.some.inj h
    rfl
  | cons e es ih =>
    obtain ⟨s', he, h'⟩ := run_cons.mp h
    rw [List.cons_append, collect_cons he, collect_cons he, ih h', List.append_assoc]

/-- A property of the state and of what was observed so far, by key. -/
theorem run_collect {K O : Type} (observe : K → S → E → S → List O) {G : S → E → Prop}
    {Inv : (K → List O) → S → Prop}
    (hstep : ∀ log s e s', G s e → Inv log s → step s e = some s' →
      Inv (fun k => log k ++ observe k s e s') s') {log : K → List O} {s t : S} {es : List E}
    (hG : Along step G s es) (hs : Inv log s) (h : run step s es = some t) :
    Inv (fun k => log k ++ collect step (observe k) s es) t := by
  induction es generalizing s log with
  | nil =>
    obtain rfl := Option.some.inj h
    simpa [collect] using hs
  | cons e es ih =>
    obtain ⟨s', he, h'⟩ := run_cons.mp h
    have ht := ih (hG.2 s' he) (hstep log s e s' hG.1 hs he) h'
    simpa [collect_cons he, List.append_assoc] using ht

/-- What every step keeps is kept by every run. -/
theorem run_inv {Inv : S → Prop} (hstep : ∀ s e s', Inv s → step s e = some s' → Inv s')
    {s t : S} {es : List E} (hs : Inv s) (h : run step s es = some t) : Inv t :=
  run_inv_along (G := fun _ _ => True) (fun s e s' _ => hstep s e s') along_true hs h

/-- Where every step is possible from a state with `Inv`, and leads to one, every
sequence of events is. -/
theorem run_total {Inv : S → Prop} (hstep : ∀ s e, Inv s → ∃ s', step s e = some s' ∧ Inv s') {s : S} (hs : Inv s)
    (es : List E) : ∃ t, run step s es = some t ∧ Inv t := by
  induction es generalizing s with
  | nil => exact ⟨s, rfl, hs⟩
  | cons e es ih =>
    obtain ⟨s', he, hs'⟩ := hstep s e hs
    obtain ⟨t, hrun, ht⟩ := ih hs'
    exact ⟨t, run_cons.mpr ⟨s', he, hrun⟩, ht⟩

/-! ## Runs that are evaluated -/

theorem exists_of_decide {P : S → Prop} [DecidablePred P] {o : Option S}
    (h : o.map (fun s => decide (P s)) = some true) : ∃ s, o = some s ∧ P s := by
  obtain ⟨s, hs, hP⟩ := Option.map_eq_some_iff.mp h
  exact ⟨s, hs, of_decide_eq_true hP⟩

/-- The same of two runs, of which the second may go on from the first. -/
theorem exists_of_decide₂ {P : S → S → Prop} [DecidableRel P] {o : Option S} {o' : S → Option S}
    (h : o.bind (fun s => (o' s).map fun s' => decide (P s s')) = some true) :
    ∃ s s', o = some s ∧ o' s = some s' ∧ P s s' := by
  obtain ⟨s, hs, h'⟩ := Option.bind_eq_some_iff.mp h
  obtain ⟨s', hs', hP⟩ := exists_of_decide h'
  exact ⟨s, s', hs, hs', hP⟩

end TC
