import Mathlib.Logic.Relation

/-!
# Programs that act on a state

A `Prog` reads an input, changes a state, and returns a value or stops.
`Does E r s p Q` is a specification of it from the state `s`: everything it
does, also when it stops, is a sequence of moves of `E`, and what it returns
satisfies `Q`. The rules go through a program from its start; a property that
each move of `E` keeps is then kept by the program (`inv_of_moves`). `Meets r s p Q R`
is about the end only: `Q` if the program returns, `R` if it stops. That a program
keeps a property, however it ends, is `Preserves`. `Shows` compares a program with one
on a part of its state.
-/

namespace TC

/-- A program: `none` if it stops. -/
def Prog (ρ σ α : Type) := ρ → σ → Option α × σ

namespace Prog

variable {ρ σ α β : Type} {s' : σ} {a : α}

instance : Monad (Prog ρ σ) where
  pure a := fun _ s => (some a, s)
  bind p f := fun r s =>
    match p r s with
    | (some a, s') => f a r s'
    | (none, s') => (none, s')

def ask : Prog ρ σ ρ := fun r s => (some r, s)

def get : Prog ρ σ σ := fun _ s => (some s, s)

def modify (f : σ → σ) : Prog ρ σ Unit := fun _ s => (some (), f s)

def stop : Prog ρ σ α := fun _ s => (none, s)

/-- From `s`, the program only makes moves of `E`, and what it returns
satisfies `Q`. -/
def Does (E : σ → σ → Prop) (r : ρ) (s : σ) (p : Prog ρ σ α) (Q : α → σ → Prop) : Prop :=
  Relation.ReflTransGen E s (p r s).2 ∧ ∀ a, (p r s).1 = some a → Q a (p r s).2

variable {E : σ → σ → Prop} {r : ρ} {s : σ} {p : Prog ρ σ α} {f : α → Prog ρ σ β}
  {Q Q' : α → σ → Prop} {Q₂ : β → σ → Prop}

theorem does_pure (h : Q a s) : Does E r s (pure a) Q :=
  ⟨.refl, fun _ ha => Option.some.inj ha ▸ h⟩

theorem bind_of_some (h : p r s = (some a, s')) : (p >>= f) r s = f a r s' := by
  show (match p r s with
    | (some a, s') => f a r s'
    | (none, s') => (none, s')) = _
  rw [h]

theorem bind_of_none (h : p r s = (none, s')) : (p >>= f) r s = (none, s') := by
  show (match p r s with
    | (some a, s') => f a r s'
    | (none, s') => (none, s')) = _
  rw [h]

theorem bind_ask {f : ρ → Prog ρ σ β} : (ask >>= f) r s = f r r s := rfl

theorem bind_get {f : σ → Prog ρ σ β} : (get >>= f) r s = f s r s := rfl

/-- Only the input that a program gets matters. -/
theorem bind_congr_right {f' : α → Prog ρ σ β} (h : ∀ a s', f a r s' = f' a r s') :
    (p >>= f) r s = (p >>= f') r s := by
  rcases hps : p r s with ⟨_ | a, s'⟩
  · rw [bind_of_none hps, bind_of_none hps]
  · rw [bind_of_some hps, bind_of_some hps]
    exact h a s'

theorem does_bind (hp : Does E r s p Q) (hf : ∀ a s', Q a s' → Does E r s' (f a) Q₂) :
    Does E r s (p >>= f) Q₂ := by
  obtain ⟨hmoves, hret⟩ := hp
  rcases hps : p r s with ⟨_ | a, s'⟩
  · rw [hps] at hmoves
    rw [Does, bind_of_none hps]
    exact ⟨hmoves, fun b hb => by cases hb⟩
  · rw [hps] at hmoves hret
    obtain ⟨hmoves', hret'⟩ := hf a s' (hret a rfl)
    rw [Does, bind_of_some hps]
    exact ⟨hmoves.trans hmoves', hret'⟩

/-- A program that leaves the state as it is comes first. -/
theorem does_read (hp : Does E r s p fun _ s' => s' = s) (hf : ∀ a, Does E r s (f a) Q₂) : Does E r s (p >>= f) Q₂ :=
  does_bind hp fun a _ hs => hs ▸ hf a

theorem does_get {f : σ → Prog ρ σ β} (h : Does E r s (f s) Q₂) : Does E r s (get >>= f) Q₂ := h

theorem does_ask {f : ρ → Prog ρ σ β} (h : Does E r s (f r) Q₂) : Does E r s (ask >>= f) Q₂ := h

theorem does_modify {g : σ → σ} {Q : Unit → σ → Prop} (hE : E s (g s)) (h : Q () (g s)) :
    Does E r s (modify g) Q :=
  ⟨.single hE, fun _ _ => h⟩

theorem does_stop : Does E r s (stop : Prog ρ σ α) Q :=
  ⟨.refl, fun _ h => nomatch h⟩

theorem Does.mono (h : Does E r s p Q) (hQ : ∀ a s', Q a s' → Q' a s') : Does E r s p Q' :=
  ⟨h.1, fun a ha => hQ a _ (h.2 a ha)⟩

theorem Does.acts (h : Does E r s p Q) : Does E r s p fun _ _ => True := h.mono fun _ _ _ => trivial

/-- A program that does after some moves what another does from there. -/
theorem Does.of_moves {p' : Prog ρ σ α} (hmoves : Relation.ReflTransGen E s s') (h : Does E r s' p' Q)
    (hp : p r s = p' r s') : Does E r s p Q := by
  unfold Does at h ⊢
  rw [hp]
  exact ⟨hmoves.trans h.1, h.2⟩

theorem inv_of_moves {I : σ → Prop} (hI : ∀ s s', E s s' → I s → I s') {s : σ}
    (h : Relation.ReflTransGen E s s') (hs : I s) : I s' := by
  induction h with
  | refl => exact hs
  | tail _ hE ih => exact hI _ _ hE ih

/-! ## How a program ends -/

/-- From `s`, the program returns with `Q` or stops with `R`. -/
def Meets (r : ρ) (s : σ) (p : Prog ρ σ α) (Q : α → σ → Prop) (R : σ → Prop) : Prop :=
  (∀ a, (p r s).1 = some a → Q a (p r s).2) ∧ ((p r s).1 = none → R (p r s).2)

variable {R : σ → Prop}

theorem meets_of_some (h : p r s = (some a, s')) (hQ : Q a s') : Meets r s p Q R := by
  rw [Meets, h]
  exact ⟨fun _ ha => Option.some.inj ha ▸ hQ, nofun⟩

theorem meets_of_none (h : p r s = (none, s')) (hR : R s') : Meets r s p Q R := by
  rw [Meets, h]
  exact ⟨nofun, fun _ => hR⟩

theorem meets_pure (h : Q a s) : Meets r s (pure a) Q R := meets_of_some rfl h

theorem meets_bind_of_some (h : p r s = (some a, s')) (hf : Meets r s' (f a) Q₂ R) :
    Meets r s (p >>= f) Q₂ R := by
  rw [Meets, bind_of_some h]
  exact hf

theorem meets_bind (hp : Meets r s p Q R) (hf : ∀ a s', Q a s' → Meets r s' (f a) Q₂ R) :
    Meets r s (p >>= f) Q₂ R := by
  rcases hps : p r s with ⟨_ | a, s'⟩
  · rw [Meets, hps] at hp
    exact meets_of_none (bind_of_none hps) (hp.2 rfl)
  · rw [Meets, hps] at hp
    exact meets_bind_of_some hps (hf a s' (hp.1 a rfl))

theorem prog_assoc {γ : Type} (p : Prog ρ σ α) (f : α → Prog ρ σ β) (k : β → Prog ρ σ γ) :
    (p >>= f) >>= k = p >>= fun a => f a >>= k := by
  funext r s
  rcases hp : p r s with ⟨_ | a, s'⟩
  · exact (bind_of_none (bind_of_none hp)).trans (bind_of_none hp).symm
  · rcases hf : f a r s' with ⟨_ | b, s''⟩
    · exact (bind_of_none ((bind_of_some hp).trans hf)).trans ((bind_of_some hp).trans (bind_of_none hf)).symm
    · exact (bind_of_some ((bind_of_some hp).trans hf)).trans ((bind_of_some hp).trans (bind_of_some hf)).symm

theorem prog_bind_pure (p : Prog ρ σ α) : p >>= pure = p := by
  funext r s
  rcases hp : p r s with ⟨_ | a, s'⟩
  · exact bind_of_none hp
  · exact bind_of_some hp

/-- The first of two programs in a row, of which the first is itself two. -/
theorem meets_assoc {γ : Type} {k : β → Prog ρ σ γ} {Q : γ → σ → Prop}
    (h : Meets r s (p >>= fun a => f a >>= k) Q R) : Meets r s ((p >>= f) >>= k) Q R := by
  rw [prog_assoc]
  exact h

/-- A program that is the last one of its kind. -/
theorem meets_last (h : Meets r s (p >>= pure) Q R) : Meets r s p Q R := by
  rw [prog_bind_pure] at h
  exact h

theorem meets_get {f : σ → Prog ρ σ β} (h : Meets r s (f s) Q₂ R) : Meets r s (get >>= f) Q₂ R := h

theorem meets_ask {f : ρ → Prog ρ σ β} (h : Meets r s (f r) Q₂ R) : Meets r s (ask >>= f) Q₂ R := h

theorem Meets.imp {R' : σ → Prop} (h : Meets r s p Q R) (hQ : ∀ a s', Q a s' → Q' a s')
    (hR : ∀ s', R s' → R' s') : Meets r s p Q' R' :=
  ⟨fun a ha => hQ a _ (h.1 a ha), fun ha => hR _ (h.2 ha)⟩

theorem Meets.mono (h : Meets r s p Q R) (hQ : ∀ a s', Q a s' → Q' a s') : Meets r s p Q' R :=
  h.imp hQ fun _ hR => hR

/-- A program that does not stop. -/
theorem Meets.returns (h : Meets r s p Q fun _ => False) : ∃ a s', p r s = (some a, s') ∧ Q a s' := by
  rcases hps : p r s with ⟨_ | a, s'⟩
  · rw [Meets, hps] at h
    exact (h.2 rfl).elim
  · rw [Meets, hps] at h
    exact ⟨a, s', rfl, h.1 a rfl⟩

/-- What holds however the program ends. -/
theorem Meets.ends {P : σ → Prop} (h : Meets r s p Q R) (hQ : ∀ a s', Q a s' → P s') (hR : ∀ s', R s' → P s') :
    P (p r s).2 := by
  rcases hps : (p r s).1 with _ | a
  · exact hR _ (h.2 hps)
  · exact hQ a _ (h.1 a hps)

/-! ## Programs that keep a property -/

/-- Whatever the program is given, and also when it stops, it keeps the property. That
a program does so is found by instances, from what it is made of. -/
class Preserves (I : σ → Prop) (p : Prog ρ σ α) : Prop where
  preserves : ∀ r s, I s → I (p r s).2

section

variable {I : σ → Prop}

instance preserves_pure (a : α) : Preserves I (pure a : Prog ρ σ α) := ⟨fun _ _ h => h⟩

instance preserves_ask : Preserves I (ask : Prog ρ σ ρ) := ⟨fun _ _ h => h⟩

instance preserves_get : Preserves I (get : Prog ρ σ σ) := ⟨fun _ _ h => h⟩

instance preserves_stop : Preserves I (stop : Prog ρ σ α) := ⟨fun _ _ h => h⟩

theorem Preserves.bind {p : Prog ρ σ α} {f : α → Prog ρ σ β} (hp : Preserves I p) (hf : ∀ a, Preserves I (f a)) :
    Preserves I (p >>= f) := by
  refine ⟨fun r s h => ?_⟩
  have hs := hp.preserves r s h
  rcases hps : p r s with ⟨_ | a, s'⟩
  · rw [hps] at hs
    rw [bind_of_none hps]
    exact hs
  · rw [hps] at hs
    rw [bind_of_some hps]
    exact (hf a).preserves r s' hs

instance preserves_bind (p : Prog ρ σ α) (f : α → Prog ρ σ β) [hp : Preserves I p] [hf : ∀ a, Preserves I (f a)] :
    Preserves I (p >>= f) := hp.bind hf

instance preserves_ite (c : Prop) [Decidable c] (p q : Prog ρ σ α) [Preserves I p] [Preserves I q] :
    Preserves I (if c then p else q) := by
  split
  · assumption
  · assumption

theorem preserves_modify {f : σ → σ} (hf : ∀ s, I s → I (f s)) : Preserves I (modify f : Prog ρ σ Unit) :=
  ⟨fun _ s h => hf s h⟩

end

/-! ## Programs on a part of the state -/

variable {τ : Type}

/-- A program that leaves the second part of the state alone. -/
def within (p : Prog ρ σ α) : Prog ρ (σ × τ) α := fun r s => ((p r s.1).1, (p r s.1).2, s.2)

theorem meets_within {s : σ} {t : τ} {p : Prog ρ σ α} {Q : α → σ × τ → Prop} {R : σ × τ → Prop}
    (h : Meets r s p (fun a s' => Q a (s', t)) fun s' => R (s', t)) : Meets r (s, t) (within p) Q R := h

theorem meets_withinThen {s : σ} {t : τ} {p : Prog ρ σ α} {f : α → Prog ρ (σ × τ) β} {Q : β → σ × τ → Prop}
    {R : σ × τ → Prop} (h : p r s = (some a, s')) (hf : Meets r (s', t) (f a) Q R) :
    Meets r (s, t) (within p >>= f) Q R := by
  have hwithin : within p r (s, t) = (some a, s', t) := by rw [within, h]
  exact meets_bind_of_some hwithin hf

/-- What the first program does to the first part of the state is what the second
does. -/
def Shows (r : ρ) (s : σ × τ) (p : Prog ρ (σ × τ) α) (q : Prog ρ σ α) : Prop :=
  (p r s).1 = (q r s.1).1 ∧ (p r s).2.1 = (q r s.1).2

theorem shows_within {s : σ × τ} {p : Prog ρ σ α} : Shows r s (within p) p := ⟨rfl, rfl⟩

theorem shows_bind {s : σ × τ} {p : Prog ρ (σ × τ) α} {q : Prog ρ σ α} {f : α → Prog ρ (σ × τ) β}
    {g : α → Prog ρ σ β} (hp : Shows r s p q) (hf : ∀ a s', Shows r s' (f a) (g a)) :
    Shows r s (p >>= f) (q >>= g) := by
  obtain ⟨hreturns, hstate⟩ := hp
  rcases hps : p r s with ⟨_ | a, s'⟩
  · rw [hps] at hreturns hstate
    have hqs : q r s.1 = (none, s'.1) := Prod.ext hreturns.symm hstate.symm
    rw [Shows, bind_of_none hps, bind_of_none hqs]
    exact ⟨rfl, rfl⟩
  · rw [hps] at hreturns hstate
    have hqs : q r s.1 = (some a, s'.1) := Prod.ext hreturns.symm hstate.symm
    rw [Shows, bind_of_some hps, bind_of_some hqs]
    exact hf a s'

theorem shows_ask {s : σ × τ} {f : ρ → Prog ρ (σ × τ) β} {g : ρ → Prog ρ σ β} (h : Shows r s (f r) (g r)) :
    Shows r s (ask >>= f) (ask >>= g) := h

/-- A step that only changes the second part of the state is not seen. -/
theorem shows_skip {s s' : σ × τ} {p : Prog ρ (σ × τ) α} {f : α → Prog ρ (σ × τ) β} {q : Prog ρ σ β}
    (hp : p r s = (some a, s')) (hs : s'.1 = s.1) (hf : Shows r s' (f a) q) : Shows r s (p >>= f) q := by
  rw [Shows, hs] at hf
  rw [Shows, bind_of_some hp]
  exact hf

end Prog

end TC
