import Mathlib.Data.List.Nodup
import Mathlib.Data.List.Perm.Basic

/-!
# Blocks of memory

A heap counts the blocks that were made and lists those that were freed. A block is
known by its number, so that none is made twice; `free` of a block that is not live,
which is a second free or the free of a stray address, has no result. `Owns before h as`
says that `as` are the blocks made since `before` that are still live: it is kept when
a block is made and joins them, and `freeAll` on them leaves every such block freed
once and all others alone (`Balanced`).
-/

namespace TC

structure BlockHeap where
  made : Nat
  freed : List Nat
  freed_lt : ∀ a ∈ freed, a < made
  nodup : freed.Nodup

namespace BlockHeap

variable {h h' before : BlockHeap} {a b : Nat} {as bs : List Nat}

def Live (h : BlockHeap) (a : Nat) : Prop := a < h.made ∧ a ∉ h.freed

instance (h : BlockHeap) (a : Nat) : Decidable (h.Live a) := inferInstanceAs (Decidable (_ ∧ _))

/-- The heap with one block more, whose number is `h.made`. -/
def make (h : BlockHeap) : BlockHeap where
  made := h.made + 1
  freed := h.freed
  freed_lt a ha := Nat.lt_succ_of_lt (h.freed_lt a ha)
  nodup := h.nodup

/-- The heap after a live block is freed. -/
def release (h : BlockHeap) (a : Nat) (ha : h.Live a) : BlockHeap where
  made := h.made
  freed := a :: h.freed
  freed_lt := List.forall_mem_cons.mpr ⟨ha.1, h.freed_lt⟩
  nodup := List.nodup_cons.mpr ⟨ha.2, h.nodup⟩

def free (a : Nat) (h : BlockHeap) : Option BlockHeap := if ha : h.Live a then some (h.release a ha) else none

/-- A read of a block. -/
def access (a : Nat) (h : BlockHeap) : Option BlockHeap := if h.Live a then some h else none

def freeAll : List Nat → BlockHeap → Option BlockHeap
  | [], h => some h
  | a :: as, h => (free a h).bind (freeAll as)

theorem live_make : h.make.Live a ↔ h.Live a ∨ a = h.made := by
  have hfreed : h.made ∉ h.freed := fun hmem => Nat.lt_irrefl _ (h.freed_lt _ hmem)
  constructor
  · rintro ⟨hlt, hnot⟩
    have hlt : a < h.made + 1 := hlt
    rcases Nat.lt_succ_iff_lt_or_eq.mp hlt with hlt | heq
    · exact .inl ⟨hlt, hnot⟩
    · exact .inr heq
  · rintro (hlive | rfl)
    · exact ⟨Nat.lt_succ_of_lt hlive.1, hlive.2⟩
    · exact ⟨Nat.lt_succ_self _, hfreed⟩

theorem live_release {ha : h.Live a} : (h.release a ha).Live b ↔ h.Live b ∧ b ≠ a := by
  simp only [Live, release, List.mem_cons, not_or]
  tauto

theorem free_of_live (ha : h.Live a) : free a h = some (h.release a ha) := dif_pos ha

theorem live_of_freeAll (hfree : freeAll as h = some h') (hb : b ∈ as) : h.Live b := by
  induction as generalizing h with
  | nil => cases hb
  | cons a as ih =>
    rw [freeAll, free] at hfree
    split at hfree
    · rename_i ha
      rcases List.mem_cons.mp hb with rfl | hb
      · exact ha
      · exact (live_release.mp (ih hfree hb)).1
    · cases hfree

theorem freeAll_append (as bs : List Nat) : freeAll (as ++ bs) = fun h => (freeAll as h).bind (freeAll bs) := by
  funext h
  induction as generalizing h with
  | nil => rfl
  | cons a as ih =>
    rw [List.cons_append, freeAll, freeAll, Option.bind_assoc]
    exact Option.bind_congr fun h' _ => ih h'

@[simp] theorem freeAll_singleton : freeAll [a] = free a := by
  funext h
  exact Option.bind_fun_some (free a h)

/-- A block that is freed later need not be checked before. -/
theorem access_freeAll (ha : a ∈ as) : (access a h).bind (freeAll as) = freeAll as h := by
  rw [access]
  split
  · rfl
  · rename_i hdead
    cases hfree : freeAll as h with
    | none => rfl
    | some h' => exact absurd (live_of_freeAll hfree ha) hdead

theorem freeAll_of_live (hnodup : as.Nodup) (hlive : ∀ a ∈ as, h.Live a) :
    ∃ h', freeAll as h = some h' ∧ h'.made = h.made ∧ ∀ b, h'.Live b ↔ h.Live b ∧ b ∉ as := by
  induction as generalizing h with
  | nil => exact ⟨h, rfl, rfl, by simp⟩
  | cons a as ih =>
    obtain ⟨hnot, hnodup⟩ := List.nodup_cons.mp hnodup
    have ha : h.Live a := hlive a List.mem_cons_self
    have hrest : ∀ b ∈ as, (h.release a ha).Live b := by
      intro b hb
      exact live_release.mpr ⟨hlive b (List.mem_cons_of_mem a hb), fun heq => hnot (heq ▸ hb)⟩
    obtain ⟨h', hfree, hmade, hlive'⟩ := ih hnodup hrest
    refine ⟨h', ?_, hmade, fun b => ?_⟩
    · rw [freeAll, free_of_live ha]
      exact hfree
    · rw [hlive', live_release, List.mem_cons, not_or, and_assoc]

/-! ## Ownership -/

/-- The live blocks that were made since `before`, each once; the others are as they
were. -/
structure Owns (before h : BlockHeap) (as : List Nat) : Prop where
  le : before.made ≤ h.made
  fresh : ∀ a ∈ as, before.made ≤ a
  nodup : as.Nodup
  live : ∀ a, h.Live a ↔ before.Live a ∨ a ∈ as

/-- Every block that was made since `before` is freed once, and the others are as they
were. -/
structure Balanced (before h : BlockHeap) : Prop where
  once : ∀ a, before.made ≤ a → a < h.made → h.freed.count a = 1
  others : ∀ a, h.Live a ↔ before.Live a

theorem owns_refl : Owns h h [] where
  le := Nat.le_refl _
  fresh := nofun
  nodup := List.nodup_nil
  live a := by simp

theorem Owns.perm (ho : Owns before h as) (hp : as.Perm bs) : Owns before h bs where
  le := ho.le
  fresh a ha := ho.fresh a (hp.mem_iff.mpr ha)
  nodup := hp.nodup_iff.mp ho.nodup
  live a := by rw [ho.live, hp.mem_iff]

theorem Owns.make (ho : Owns before h as) : Owns before h.make (h.made :: as) where
  le := Nat.le_succ_of_le ho.le
  fresh := List.forall_mem_cons.mpr ⟨ho.le, ho.fresh⟩
  nodup := by
    refine List.nodup_cons.mpr ⟨fun hmem => ?_, ho.nodup⟩
    have hlive : h.Live h.made := (ho.live _).mpr (.inr hmem)
    exact Nat.lt_irrefl _ hlive.1
  live a := by
    rw [live_make, ho.live, List.mem_cons]
    tauto

/-- Blocks that were made since, and blocks that were made since then. -/
theorem Owns.trans {mid : BlockHeap} (ho : Owns before mid as) (ho' : Owns mid h bs) : Owns before h (bs ++ as) where
  le := Nat.le_trans ho.le ho'.le
  fresh a ha := by
    rcases List.mem_append.mp ha with ha | ha
    · exact Nat.le_trans ho.le (ho'.fresh a ha)
    · exact ho.fresh a ha
  nodup := by
    refine List.nodup_append.mpr ⟨ho'.nodup, ho.nodup, fun a ha b hb heq => ?_⟩
    have hlive : mid.Live b := (ho.live b).mpr (.inr hb)
    exact absurd (ho'.fresh a ha) (Nat.not_le.mpr (heq ▸ hlive.1))
  live a := by
    rw [ho'.live, ho.live, List.mem_append]
    tauto

theorem flatten_set_perm {slots : List (List Nat)} {i : Nat} {as as' : List Nat} (hi : slots[i]? = some as)
    (hp : as'.Perm (bs ++ as)) : (slots.set i as').flatten.Perm (bs ++ slots.flatten) := by
  induction slots generalizing i with
  | nil => cases hi
  | cons slot slots ih =>
    cases i with
    | zero =>
      obtain rfl : slot = as := Option.some.inj hi
      rw [List.flatten_cons, ← List.append_assoc]
      exact hp.append_right slots.flatten
    | succ i =>
      have htail := (ih hi).append_left slot
      exact htail.trans (List.perm_append_comm_assoc slot bs slots.flatten)

/-- A block is made and joins those of one slot. -/
theorem Owns.grow {slots : List (List Nat)} {i : Nat} {as as' : List Nat} (ho : Owns before h slots.flatten)
    (hi : slots[i]? = some as) (hp : as'.Perm (h.made :: as)) : Owns before h.make (slots.set i as').flatten := by
  have hperm : (slots.set i as').flatten.Perm ([h.made] ++ slots.flatten) := flatten_set_perm hi hp
  exact ho.make.perm hperm.symm

theorem Owns.freeAll (ho : Owns before h (as ++ bs)) : ∃ h', BlockHeap.freeAll as h = some h' ∧ Owns before h' bs := by
  obtain ⟨hnodup, hnodup', hdisjoint⟩ := List.nodup_append.mp ho.nodup
  have hlive : ∀ a ∈ as, h.Live a := fun a ha => (ho.live a).mpr (.inr (List.mem_append_left bs ha))
  obtain ⟨h', hfree, hmade, hlive'⟩ := freeAll_of_live hnodup hlive
  refine ⟨h', hfree, hmade ▸ ho.le, fun a ha => ho.fresh a (List.mem_append_right as ha), hnodup', fun a => ?_⟩
  -- a freed block is neither older than `before` nor one of the rest
  have hold : before.Live a → a ∉ as := fun hb ha =>
    absurd (ho.fresh a (List.mem_append_left bs ha)) (Nat.not_le.mpr hb.1)
  have hrest : a ∈ bs → a ∉ as := fun hb ha => hdisjoint a ha a hb rfl
  rw [hlive', ho.live, List.mem_append]
  tauto

theorem Owns.freeAll_owned (ho : Owns before h as) : ∃ h', BlockHeap.freeAll as h = some h' ∧ Owns before h' [] := by
  have hall : Owns before h (as ++ []) := by
    rw [List.append_nil]
    exact ho
  exact hall.freeAll

theorem Owns.balanced (ho : Owns before h []) : Balanced before h where
  once a hle hlt := by
    have hdead : ¬ h.Live a := by
      rw [ho.live]
      rintro (hb | hb)
      · exact absurd hb.1 (Nat.not_lt.mpr hle)
      · cases hb
    have hfreed : a ∈ h.freed := by
      by_contra hnot
      exact hdead ⟨hlt, hnot⟩
    exact List.count_eq_one_of_mem h.nodup hfreed
  others a := by simp [ho.live]

/-- A block that is still live was not freed. -/
theorem Owns.balanced_iff (ho : Owns before h as) : Balanced before h ↔ as = [] := by
  constructor
  · intro hbalanced
    refine List.eq_nil_iff_forall_not_mem.mpr fun a ha => ?_
    have hlive : before.Live a := (hbalanced.others a).mp ((ho.live a).mpr (.inr ha))
    exact absurd (ho.fresh a ha) (Nat.not_le.mpr hlive.1)
  · rintro rfl
    exact ho.balanced

end BlockHeap

end TC
