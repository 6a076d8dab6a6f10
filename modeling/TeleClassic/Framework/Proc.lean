import TeleClassic.Framework.Run
import Mathlib.Data.List.Forall2

/-!
# Processes that share a state

A `Proc` is a program as a tree: it performs an operation, and goes on as the
answer says. A `Protocol` says in which phase of a process which operations are
allowed, and what phase follows; `Follows R Q ph p` says that from the phase
`ph` the process keeps to it whatever the answers are, and ends in a phase that
satisfies `Q`. It has the rules of a program logic (`follows_bind`). What the
operations do to a state is a `Semantics`; `Ends` is about a process that runs
alone.

`Threads` are processes that run at the same time, one operation at a time in
any order. `Typed R I` says that each thread is in a phase from which it follows
`R`, and that `I` holds of the shared state and of these phases. What is to be
shown of an operation is then about phases only, and no more about programs
(`Typed.act`).
-/

namespace TC

/-- A process: it performs operations of `Op`, each with an answer. -/
inductive Proc (Op : Type) (Ans : Op → Type) (α : Type) where
  | ret (a : α)
  | perform (op : Op) (next : Ans op → Proc Op Ans α)

/-- What is allowed in a phase, and the phases that may follow an answer. -/
structure Protocol (Op : Type) (Ans : Op → Type) (P : Type) where
  allowed : P → Op → Prop
  after : P → (op : Op) → Ans op → P → Prop

namespace Proc

variable {Op : Type} {Ans : Op → Type} {P α β : Type} {p : Proc Op Ans α}

def bind (p : Proc Op Ans α) (f : α → Proc Op Ans β) : Proc Op Ans β :=
  match p with
  | .ret a => f a
  | .perform op next => .perform op fun ans => (next ans).bind f

instance : Monad (Proc Op Ans) where
  pure := .ret
  bind := bind

/-- One operation. -/
def op (o : Op) : Proc Op Ans (Ans o) := .perform o .ret

/-! ## Keeping to a protocol -/

variable {R : Protocol Op Ans P} {Q Q' : α → P → Prop} {Q₂ : β → P → Prop} {ph : P}

/-- Whatever the answers are, the process does only what `R` allows, and ends
in a phase that satisfies `Q`. -/
def Follows (R : Protocol Op Ans P) (Q : α → P → Prop) (ph : P) : Proc Op Ans α → Prop
  | .ret a => Q a ph
  | .perform op next => R.allowed ph op ∧ ∀ ans ph', R.after ph op ans ph' → Follows R Q ph' (next ans)

theorem follows_pure {a : α} (h : Q a ph) : Follows R Q ph (pure a : Proc Op Ans α) := h

theorem follows_bind {f : α → Proc Op Ans β} (hp : Follows R Q ph p)
    (hf : ∀ a ph', Q a ph' → Follows R Q₂ ph' (f a)) : Follows R Q₂ ph (p >>= f) := by
  induction p generalizing ph with
  | ret a => exact hf a ph hp
  | perform op next ih => exact ⟨hp.1, fun ans ph' h => ih ans (hp.2 ans ph' h)⟩

theorem Follows.mono (hp : Follows R Q ph p) (hQ : ∀ a ph', Q a ph' → Q' a ph') : Follows R Q' ph p := by
  induction p generalizing ph with
  | ret a => exact hQ a ph hp
  | perform op next ih => exact ⟨hp.1, fun ans ph' h => ih ans (hp.2 ans ph' h)⟩

/-- A process that keeps to a protocol keeps to one that is coarser: what is
allowed in the finer one is allowed in it, and each of its phases comes from one
of the finer one. -/
theorem Follows.map {P' : Type} {R' : Protocol Op Ans P'} {ρ : P → P' → Prop}
    (hallowed : ∀ ph ph' o, ρ ph ph' → R.allowed ph o → R'.allowed ph' o)
    (hafter : ∀ ph₁ ph₁' o ans ph₂', ρ ph₁ ph₁' → R.allowed ph₁ o → R'.after ph₁' o ans ph₂' →
      ∃ ph₂, R.after ph₁ o ans ph₂ ∧ ρ ph₂ ph₂') (hp : Follows R Q ph p) {ph' : P'} (hρ : ρ ph ph') :
    Follows R' (fun a ph' => ∃ ph, ρ ph ph' ∧ Q a ph) ph' p := by
  induction p generalizing ph ph' with
  | ret a => exact ⟨ph, hρ, hp⟩
  | perform o next ih =>
    refine ⟨hallowed ph ph' o hρ hp.1, fun ans ph₂' h => ?_⟩
    obtain ⟨ph₂, hafter₂, hρ₂⟩ := hafter ph ph' o ans ph₂' hρ hp.1 h
    exact ih ans (hp.2 ans ph₂ hafter₂) hρ₂

end Proc

/-! ## Threads -/

/-- What an operation of a thread does to the shared state, given a choice of
the environment, and the tasks that it starts; `none` if it has to wait. -/
structure Semantics (Op : Type) (Ans : Op → Type) (σ C T : Type) where
  program : T → Proc Op Ans Unit
  perform : Nat → (op : Op) → C → σ → Option (Ans op × σ × List T)

/-! ## A process alone -/

namespace Proc

section

variable {Op : Type} {Ans : Op → Type} {σ C T α β : Type} {M : Semantics Op Ans σ C T} {F : σ → Prop}
  {thread : Nat} {s s' : σ} {Q : α → σ → Prop} {Q₂ : β → σ → Prop} {p : Proc Op Ans α} {choices : List C}

/-- What a process returns that runs alone, with a choice for each operation,
and the state then. -/
def exec (M : Semantics Op Ans σ C T) (thread : Nat) (p : Proc Op Ans α) (choices : List C) (s : σ) :
    Option (α × σ) :=
  match p, choices with
  | .ret a, [] => some (a, s)
  | .perform op next, c :: choices =>
    (M.perform thread op c s).bind fun (ans, s', _) => exec M thread (next ans) choices s'
  | _, _ => none

theorem exec_ret {a a' : α} :
    exec M thread (.ret a : Proc Op Ans α) choices s = some (a', s') ↔ choices = [] ∧ a = a' ∧ s = s' := by
  cases choices <;> simp [exec]

theorem exec_perform {o : Op} {next : Ans o → Proc Op Ans α} {a : α} :
    exec M thread (.perform o next) choices s = some (a, s') ↔ ∃ c rest ans s₁ tasks, choices = c :: rest ∧
      M.perform thread o c s = some (ans, s₁, tasks) ∧ exec M thread (next ans) rest s₁ = some (a, s') := by
  cases choices <;> simp [exec, Option.bind_eq_some_iff]

theorem exec_bind {f : α → Proc Op Ans β} {b : β} :
    exec M thread (p >>= f) choices s = some (b, s') ↔ ∃ first rest a s₁, choices = first ++ rest ∧
      exec M thread p first s = some (a, s₁) ∧ exec M thread (f a) rest s₁ = some (b, s') := by
  induction p generalizing s choices with
  | ret a =>
    constructor
    · intro h
      exact ⟨[], choices, a, s, rfl, rfl, h⟩
    · rintro ⟨first, rest, a', s₁, rfl, hfirst, hrest⟩
      obtain ⟨rfl, rfl, rfl⟩ := exec_ret.mp hfirst
      exact hrest
  | perform o next ih =>
    constructor
    · intro h
      obtain ⟨c, choices, ans, s₁, tasks, rfl, hperform, hnext⟩ := exec_perform.mp h
      obtain ⟨first, rest, a, s₂, rfl, hfirst, hrest⟩ := (ih ans).mp hnext
      exact ⟨c :: first, rest, a, s₂, rfl, exec_perform.mpr ⟨c, first, ans, s₁, tasks, rfl, hperform, hfirst⟩, hrest⟩
    · rintro ⟨first, rest, a, s₂, rfl, hfirst, hrest⟩
      obtain ⟨c, first, ans, s₁, tasks, rfl, hperform, hnext⟩ := exec_perform.mp hfirst
      exact exec_perform.mpr ⟨c, first ++ rest, ans, s₁, tasks, rfl, hperform,
        (ih ans).mpr ⟨first, rest, a, s₂, rfl, hnext, hrest⟩⟩

/-- However a process ends that runs alone from `s`, if `F` holds then, `Q`
does. -/
def Ends (M : Semantics Op Ans σ C T) (F : σ → Prop) (thread : Nat) (s : σ) (p : Proc Op Ans α)
    (Q : α → σ → Prop) : Prop :=
  ∀ choices a s', exec M thread p choices s = some (a, s') → F s' → Q a s'

theorem ends_pure {a : α} (h : Q a s) : Ends M F thread s (pure a : Proc Op Ans α) Q := by
  intro choices a' s' hexec _
  obtain ⟨-, rfl, rfl⟩ := exec_ret.mp hexec
  exact h

/-- `F` is a property of what has happened so far: what holds after an operation
has held before it. -/
def Lasting (M : Semantics Op Ans σ C T) (thread : Nat) (F : σ → Prop) : Prop :=
  ∀ o c s ans s₁ tasks, M.perform thread o c s = some (ans, s₁, tasks) → F s₁ → F s

theorem Lasting.of_exec (hF : Lasting M thread F) {a : α} (h : exec M thread p choices s = some (a, s'))
    (hs' : F s') : F s := by
  induction p generalizing s choices with
  | ret a =>
    obtain ⟨-, -, rfl⟩ := exec_ret.mp h
    exact hs'
  | perform o next ih =>
    obtain ⟨c, rest, ans, s₁, tasks, -, hperform, hnext⟩ := exec_perform.mp h
    exact hF o c s ans s₁ tasks hperform (ih ans hnext)

theorem ends_op (hF : Lasting M thread F) {o : Op} {f : Ans o → Proc Op Ans β}
    (h : ∀ c ans s₁ tasks, M.perform thread o c s = some (ans, s₁, tasks) → F s₁ →
      Ends M F thread s₁ (f ans) Q₂) : Ends M F thread s (op o >>= f) Q₂ := by
  intro choices b s' hexec hs'
  obtain ⟨c, rest, ans, s₁, tasks, -, hperform, hnext⟩ := exec_perform.mp hexec
  exact h c ans s₁ tasks hperform (hF.of_exec hnext hs') rest b s' hnext hs'

theorem ends_bind (hF : Lasting M thread F) {f : α → Proc Op Ans β} (hp : Ends M F thread s p Q)
    (hf : ∀ a s₁, Q a s₁ → Ends M F thread s₁ (f a) Q₂) : Ends M F thread s (p >>= f) Q₂ := by
  intro choices b s' hexec hs'
  obtain ⟨first, rest, a, s₁, -, hfirst, hrest⟩ := exec_bind.mp hexec
  exact hf a s₁ (hp first a s₁ hfirst (hF.of_exec hrest hs')) rest b s' hrest hs'

theorem Ends.mono {Q' : α → σ → Prop} (h : Ends M F thread s p Q) (hQ : ∀ a s', Q a s' → Q' a s') :
    Ends M F thread s p Q' :=
  fun choices a s' hexec hs' => hQ a s' (h choices a s' hexec hs')

/-- One operation at the end. -/
theorem ends_last {o : Op} {Q : Ans o → σ → Prop}
    (h : ∀ c ans s₁ tasks, M.perform thread o c s = some (ans, s₁, tasks) → Q ans s₁) :
    Ends M F thread s (op o) Q := by
  intro choices b s' hexec _
  obtain ⟨c, rest, ans, s₁, tasks, -, hperform, hnext⟩ := exec_perform.mp hexec
  obtain ⟨-, rfl, rfl⟩ := exec_ret.mp hnext
  exact h c ans s₁ tasks hperform

end

end Proc

/-! ## Threads at the same time -/

structure Threads (Op : Type) (Ans : Op → Type) (σ : Type) where
  shared : σ
  procs : List (Proc Op Ans Unit)

namespace Threads

variable {Op : Type} {Ans : Op → Type} {σ C T P : Type}

/-- A new thread that runs a task. -/
def start (M : Semantics Op Ans σ C T) (s : Threads Op Ans σ) (t : T) : Threads Op Ans σ :=
  { s with procs := s.procs ++ [M.program t] }

/-- The operation that a thread is about to perform. -/
def op? (s : Threads Op Ans σ) (thread : Nat) : Option Op :=
  match s.procs[thread]? with
  | some (.perform op _) => some op
  | _ => none

/-- A thread performs its operation. -/
def act (M : Semantics Op Ans σ C T) (s : Threads Op Ans σ) (thread : Nat) (c : C) : Option (Threads Op Ans σ) :=
  match s.procs[thread]? with
  | some (.perform op next) =>
    (M.perform thread op c s.shared).map fun (ans, shared, tasks) =>
      { shared, procs := s.procs.set thread (next ans) ++ tasks.map M.program }
  | _ => none

theorem act_eq_some {M : Semantics Op Ans σ C T} {s s' : Threads Op Ans σ} {thread : Nat} {c : C} :
    act M s thread c = some s' ↔ ∃ op next ans shared tasks, s.procs[thread]? = some (.perform op next) ∧
      M.perform thread op c s.shared = some (ans, shared, tasks) ∧
      s' = { shared, procs := s.procs.set thread (next ans) ++ tasks.map M.program } := by
  unfold act
  split
  · rename_i op next hat
    simp only [Option.map_eq_some_iff, Prod.exists]
    constructor
    · rintro ⟨ans, shared, tasks, hperform, rfl⟩
      exact ⟨op, next, ans, shared, tasks, hat, hperform, rfl⟩
    · rintro ⟨op', next', ans, shared, tasks, hat', hperform, rfl⟩
      cases hat.symm.trans hat'
      exact ⟨ans, shared, tasks, hperform, rfl⟩
  · rename_i hnot
    constructor
    · intro h
      cases h
    · rintro ⟨op, next, ans, shared, tasks, hat, -⟩
      exact absurd hat (hnot op next)

theorem op?_eq_some {s : Threads Op Ans σ} {thread : Nat} {op : Op} {next : Ans op → Proc Op Ans Unit}
    (h : s.procs[thread]? = some (.perform op next)) : s.op? thread = some op := by
  rw [op?, h]

end Threads

/-! ## Typed threads -/

section

variable {Op : Type} {Ans : Op → Type} {σ C T P : Type} {M : Semantics Op Ans σ C T} {R : Protocol Op Ans P}
  {I : σ → List P → Prop} {s s' : Threads Op Ans σ}

/-- The process keeps to the protocol to its end. -/
abbrev Keeps (R : Protocol Op Ans P) (ph : P) (p : Proc Op Ans Unit) : Prop := p.Follows R (fun _ _ => True) ph

/-- Each thread follows the protocol from its phase, and the shared state
agrees with the phases. -/
def Typed (R : Protocol Op Ans P) (I : σ → List P → Prop) (s : Threads Op Ans σ) : Prop :=
  ∃ phases, List.Forall₂ (Keeps R) phases s.procs ∧ I s.shared phases

theorem getElem?_of_forall₂ {A B : Type} {r : A → B → Prop} {as : List A} {bs : List B}
    (h : List.Forall₂ r as bs) {i : Nat} {b : B} (hb : bs[i]? = some b) : ∃ a, as[i]? = some a ∧ r a b := by
  induction h generalizing i with
  | nil => cases hb
  | @cons a b as bs hab _ ih =>
    cases i with
    | zero =>
      cases hb
      exact ⟨a, rfl, hab⟩
    | succ i => exact ih hb

theorem forall₂_set {A B : Type} {r : A → B → Prop} {as : List A} {bs : List B} (h : List.Forall₂ r as bs)
    (i : Nat) {a : A} {b : B} (hab : r a b) : List.Forall₂ r (as.set i a) (bs.set i b) := by
  induction h generalizing i with
  | nil => exact .nil
  | cons hab' h' ih =>
    cases i with
    | zero => exact .cons hab h'
    | succ i => exact .cons hab' (ih i)

theorem Typed.start (h : Typed R I s) {t : T} {ph : P} (ht : Keeps R ph (M.program t))
    (hI : ∀ phases, I s.shared phases → I s.shared (phases ++ [ph])) : Typed R I (s.start M t) := by
  obtain ⟨phases, hprocs, hs⟩ := h
  exact ⟨phases ++ [ph], List.rel_append hprocs (.cons ht .nil), hI phases hs⟩

/-- An operation that keeps `I` keeps the threads typed. -/
theorem Typed.act {thread : Nat} {c : C} (h : Typed R I s) (hact : s.act M thread c = some s')
    (hI : ∀ phases ph op ans shared tasks, I s.shared phases → phases[thread]? = some ph →
      s.op? thread = some op → R.allowed ph op → M.perform thread op c s.shared = some (ans, shared, tasks) →
      ∃ ph' news, R.after ph op ans ph' ∧ List.Forall₂ (Keeps R) news (tasks.map M.program) ∧
        I shared (phases.set thread ph' ++ news)) : Typed R I s' := by
  obtain ⟨phases, hprocs, hs⟩ := h
  obtain ⟨op, next, ans, shared, tasks, hat, hperform, rfl⟩ := Threads.act_eq_some.mp hact
  obtain ⟨ph, hph, hallowed, hnext⟩ := getElem?_of_forall₂ hprocs hat
  obtain ⟨ph', news, hafter, hnews, hI'⟩ := hI phases ph op ans shared tasks hs hph
    (Threads.op?_eq_some hat) hallowed hperform
  exact ⟨_, List.rel_append (forall₂_set hprocs thread (hnext ans ph' hafter)) hnews, hI'⟩

end

end TC
