import TeleClassic.Proof.Cache.Index

/-!
# Each load is for one request

With the index empty no open finds an entry. So no call is ever in
`tc_map_cache_open_from_entry`, and the backlog of every entry is the one request
it was made for (`alone_of_run`): what a load answers is the map of a chain that
sends it, or of whoever else has asked, and nobody shares it. This is the cache
as `Impl.SendMap` has it.
-/

namespace TC.Proof.Cache

open TC.Impl.TaskBacklog TC.Impl.MapCache

variable {s s' : Cache} {sizes : Sizes}

/-- The calls that have found an entry, and the backlogs. -/
def calls (s : Cache) : List Invoking × (Nat → Option (List Request)) :=
  (s.invoking, fun e => (s.entries e).map Entry.backlog)

/-- No call has found an entry, and each entry has one request. -/
structure Alone (s : Cache) : Prop where
  idle : (calls s).1 = []
  single : ∀ e backlog, (calls s).2 e = some backlog → ∃ r, backlog = [r]

theorem Alone.congr (h : Alone s) (hcalls : calls s' = calls s) : Alone s' where
  idle := hcalls ▸ h.idle
  single := hcalls ▸ h.single

theorem calls_setEntry {e : Nat} {en en' : Entry} (h : s.entries e = some en)
    (hbacklog : en'.backlog = en.backlog) : calls (s.setEntry e (some en')) = calls s :=
  Prod.ext rfl (map_setEntry h hbacklog)

theorem calls_calm (s : Cache) : calls (calm s) = calls s := by
  simp only [calls, calm, Option.map_map]
  rfl

theorem Alone.createEntry (h : Alone s) (sizes : Sizes) (call : Open) (c : Creation) :
    Alone (createEntry sizes call c s) := by
  cases c with
  | scheduled =>
    refine ⟨h.idle, fun e backlog hbacklog => ?_⟩
    by_cases he : e = s.nextEntry
    · subst he
      have hnew : some [call.request] = some backlog := by
        rw [← hbacklog]
        exact (congrArg (Option.map Entry.backlog) (setEntry_self s s.nextEntry (newEntry sizes call))).symm
      exact ⟨call.request, (Option.some.inj hnew).symm⟩
    · have hold : (calls s).2 e = some backlog := by
        rw [← hbacklog]
        exact (congrArg (Option.map Entry.backlog) (setEntry_of_ne s (newEntry sizes call) he)).symm
      exact h.single e backlog hold
  | _ => exact h.congr rfl

theorem Alone.evictMoves (h : Alone s) (hmoves : EvictMoves s s') : Alone s' := by
  induction hmoves with
  | refl => exact h
  | tail _ hmove ih =>
    cases hmove with
    | flags isReferenced locked live => exact ih.congr (calls_setEntry live rfl)
    | hand => exact ih.congr rfl
    | @drop e en live =>
      refine ⟨ih.idle, fun e' backlog hbacklog => ?_⟩
      by_cases he : e' = e
      · subst he
        have hgone := hbacklog.symm.trans (congrArg (Option.map Entry.backlog) (setEntry_self _ e' none))
        cases hgone
      · have hold := (congrArg (Option.map Entry.backlog) (setEntry_of_ne _ none he)).symm.trans hbacklog
        exact ih.single e' backlog hold

theorem Alone.step {l : Label} (h : Alone s) (hindex : (store s).Unindexed) (hstep : Step sizes s l s') :
    Alone s' := by
  cases hstep with
  | wait => exact h.congr rfl
  | found at_ => cases (hindex _).symm.trans at_
  | upgraded _ at_ => cases (hindex _).symm.trans at_
  | @create i c _ call =>
    have h' : Alone { s with upgrading := s.upgrading.eraseIdx i } := h.congr rfl
    exact h'.createEntry sizes call c
  | invoke waiting =>
    rw [show s.invoking = [] from h.idle] at waiting
    cases waiting
  | loadFailed => exact h.congr ((of_calm calls_calm calm_backlogFailed).trans rfl)
  | loaded pending live =>
    refine Alone.congr ?_ (of_calm calls_calm calm_backlogLoaded)
    exact h.congr (calls_setEntry live rfl)
  | check _ moves =>
    have h' : Alone { s with checking := s.checking - 1 } := h.congr rfl
    exact (h'.evictMoves moves).congr rfl
  | @ref e => exact (h.congr (of_calm calls_calm ((counting_ref e).calm s))).congr rfl
  | @unref e => exact (h.congr (of_calm calls_calm ((counting_unref e).calm s))).congr rfl
  | write live => exact h.congr (calls_setEntry live rfl)

theorem alone_of_run {threshold : BitVec 64} {ls : List Label}
    (hrun : run (cacheStep sizes) (tcMapCacheInit threshold) ls = some s) : Alone s := by
  have hstep : ∀ s l s', (store s).Unindexed ∧ Alone s → cacheStep sizes s l = some s' →
      (store s').Unindexed ∧ Alone s' := by
    rintro s l s' ⟨hindex, halone⟩ hstep
    have hperforms := step_of_cacheStep hstep
    exact ⟨hindex.performs (store_step hperforms), halone.step hindex hperforms⟩
  have hinit : Alone (tcMapCacheInit threshold) := ⟨rfl, fun _ _ h => by cases h⟩
  exact (run_inv hstep ⟨fun _ => rfl, hinit⟩ hrun).2

/-- The load task of an entry answers one request. -/
theorem load_answers_one {threshold : BitVec 64} {ls : List Label} {e : Nat} {en : Entry}
    (hrun : run (cacheStep sizes) (tcMapCacheInit threshold) ls = some s) (hlive : s.entries e = some en) :
    ∃ r, en.backlog = [r] :=
  (alone_of_run hrun).single e en.backlog (congrArg (Option.map Entry.backlog) hlive)

end TC.Proof.Cache
