import TeleClassic.Proof.Cache.Index

/-!
# No map is ever evicted

`tc_map_cache_evict` leaves the lock of an entry held whose `is_referenced` flag
it clears, and no later pass gets past a held lock. The one lock that it returns
by mistake is that of the entry before one that is not loaded. `Held` is what
then holds between the steps: an entry that is not referenced is locked, and so
is every older entry that is not loaded. So no pass meets an entry to evict
(`evictLoop_held`), and in no run from `tc_map_cache_init` a map is dropped
(`nothing_dropped`).
-/

namespace TC.Proof.Cache

open TC.Impl.TaskBacklog TC.Impl.MapCache

variable {s s' : Cache} {e : Nat} {sizes : Sizes}

/-- What a pass looks at. -/
structure Mark where
  loaded : Bool
  referenced : Bool
  locked : Bool

def mark (en : Entry) : Mark := { loaded := en.isLoaded, referenced := en.isReferenced, locked := en.locked }

def marks (s : Cache) (e : Nat) : Option Mark := (s.entries e).map mark

def Mark.Settled (a : Mark) : Prop := a.referenced = false → a.loaded = true ∧ a.locked = true

/-- What holds of an entry `a` and an older one `b`. -/
def Mark.Passed (a b : Mark) : Prop := a.referenced = false → b.loaded = false → b.locked = true

/-- Entries are numbered as they are linked, so an older entry has a smaller
number. -/
structure Held (s : Cache) : Prop where
  ordered : s.linked.Pairwise (· > ·)
  settled : ∀ e a, marks s e = some a → a.Settled
  passed : ∀ e e' a b, marks s e = some a → marks s e' = some b → e' < e → a.Passed b

/-! ## Marks -/

theorem marks_of_live {en : Entry} (h : s.entries e = some en) : marks s e = some (mark en) := by
  rw [marks, h]
  rfl

theorem marks_setEntry (s : Cache) (e : Nat) (en : Entry) (e' : Nat) :
    marks (s.setEntry e (some en)) e' = if e' = e then some (mark en) else marks s e' := by
  by_cases he : e' = e
  · subst he
    rw [if_pos rfl]
    exact marks_of_live (setEntry_self s e' _)
  · rw [if_neg he, marks, setEntry_of_ne s _ he, marks]

theorem marks_modify_of_ne (s : Cache) (f : Entry → Entry) {e' : Nat} (h : e' ≠ e) :
    marks (s.modify e f) e' = marks s e' := by
  rw [marks, Cache.modify, setEntry_of_ne s _ h, marks]

/-- Where nothing changes that a pass looks at. -/
theorem Held.congr (h : Held s) (hlinked : s'.linked = s.linked) (hmarks : marks s' = marks s) :
    Held s' where
  ordered := hlinked ▸ h.ordered
  settled := hmarks ▸ h.settled
  passed := hmarks ▸ h.passed

variable {a : Mark}

/-- Where the mark of one entry changes, or a new entry gets one. -/
theorem Held.update (h : Held s) (hordered : s'.linked.Pairwise (· > ·))
    (hmarks : ∀ e', marks s' e' = if e' = e then some a else marks s e') (hsettled : a.Settled)
    (holder : ∀ e' b, marks s e' = some b → e' < e → a.Passed b)
    (hnewer : ∀ e' b, marks s e' = some b → e < e' → b.Passed a) : Held s' where
  ordered := hordered
  settled := by
    intro e₁ b hb
    rw [hmarks] at hb
    split at hb
    · cases hb
      exact hsettled
    · exact h.settled e₁ b hb
  passed := by
    intro e₁ e₂ b c hb hc hlt
    rw [hmarks] at hb hc
    split at hb
    · rename_i he₁
      subst he₁
      cases hb
      rw [if_neg (Nat.ne_of_lt hlt)] at hc
      exact holder e₂ c hc hlt
    · split at hc
      · rename_i he₂
        subst he₂
        cases hc
        exact hnewer e₁ b hb hlt
      · exact h.passed e₁ e₂ b c hb hc hlt

/-- An entry with more of its flags set. -/
theorem Held.raise (h : Held s) (hlinked : s'.linked = s.linked) {a' : Mark} (ha : marks s e = some a)
    (hmarks : ∀ e', marks s' e' = if e' = e then some a' else marks s e')
    (hreferenced : a.referenced = true → a'.referenced = true)
    (hloaded : a.loaded = true → a'.loaded = true) (hlocked : a.locked = true → a'.locked = true) :
    Held s' := by
  have hreferenced' : a'.referenced = false → a.referenced = false := by
    intro hr
    by_contra hne
    rw [hreferenced (by simpa using hne)] at hr
    cases hr
  have hloaded' : a'.loaded = false → a.loaded = false := by
    intro hl
    by_contra hne
    rw [hloaded (by simpa using hne)] at hl
    cases hl
  refine h.update (hlinked ▸ h.ordered) hmarks (fun hr => ?_) (fun e' b hb hlt hr => ?_) (fun e' b hb hlt hr hl => ?_)
  · obtain ⟨hl, hk⟩ := h.settled e a ha (hreferenced' hr)
    exact ⟨hloaded hl, hlocked hk⟩
  · exact h.passed e e' a b ha hb hlt (hreferenced' hr)
  · exact hlocked (h.passed e' e b a hb ha hlt hr (hloaded' hl))

/-! ## The way of a pass -/

theorem prevOf_spec {l : List Nat} (hl : l.Pairwise (· > ·)) {p : Nat} (h : prevOf l e = some p) :
    p ∈ l ∧ e < p ∧ ∀ x ∈ l, x < p → x ≤ e := by
  induction l with
  | nil => cases h
  | cons a l ih =>
    obtain ⟨ha, hrest⟩ := List.pairwise_cons.mp hl
    cases l with
    | nil => cases h
    | cons b l =>
      rw [prevOf] at h
      split at h
      · rename_i hb
        subst hb
        obtain rfl := Option.some.inj h
        refine ⟨List.mem_cons_self, ha b List.mem_cons_self, fun x hx hlt => ?_⟩
        obtain rfl | hx := List.mem_cons.mp hx
        · exact absurd hlt (Nat.lt_irrefl x)
        · obtain rfl | hx := List.mem_cons.mp hx
          · exact Nat.le_refl x
          · exact Nat.le_of_lt ((List.pairwise_cons.mp hrest).1 x hx)
      · obtain ⟨hp, hlt, hbetween⟩ := ih hrest h
        refine ⟨List.mem_cons_of_mem a hp, hlt, fun x hx hxp => ?_⟩
        obtain rfl | hx := List.mem_cons.mp hx
        · exact absurd (ha p hp) (Nat.lt_asymm hxp)
        · exact hbetween x hx hxp

theorem getLast_le {l : List Nat} (hl : l.Pairwise (· > ·)) (h : l.getLast? = some e) {x : Nat} (hx : x ∈ l) :
    e ≤ x := by
  obtain ⟨l', rfl⟩ := List.getLast?_eq_some_iff.mp h
  obtain hx | hx := List.mem_append.mp hx
  · exact Nat.le_of_lt ((List.pairwise_append.mp hl).2.2 x hx e List.mem_cons_self)
  · exact Nat.le_of_eq (List.mem_singleton.mp hx).symm

/-- The entries older than `e` are loaded or locked. -/
def SweptBelow (s : Cache) (e : Nat) : Prop :=
  ∀ x b, marks s x = some b → x < e → b.loaded = false → b.locked = true

def Swept (s : Cache) (current : Option Nat) : Prop := ∀ e ∈ current, SweptBelow s e

theorem linked_of_marks (hwf : (store s).Wf) (h : marks s e = some a) : e ∈ s.linked := by
  obtain ⟨en, hen, -⟩ := Option.map_eq_some_iff.mp h
  exact (hwf.linked_iff e).mpr (by simp [store, hen])

/-- The entry that comes next, after one that is loaded or locked. -/
theorem swept_prev (hwf : (store s).Wf) (h : Held s) (hbelow : SweptBelow s e)
    (hself : ∀ b, marks s e = some b → b.loaded = false → b.locked = true) :
    Swept s (prevOf s.linked e) := by
  intro p hp x b hb hlt
  obtain ⟨-, -, hbetween⟩ := prevOf_spec h.ordered hp
  obtain hlt | rfl := Nat.lt_or_eq_of_le (hbetween x (linked_of_marks hwf hb) hlt)
  · exact hbelow x b hb hlt
  · exact hself b hb

/-- A pass that has come to its end begins anew with the oldest entry. -/
theorem swept_current (hwf : (store s).Wf) (h : Held s) {current : Option Nat} (hc : Swept s current)
    (he : (current <|> s.linked.getLast?) = some e) : SweptBelow s e := by
  cases current with
  | some c =>
    obtain rfl := Option.some.inj he
    exact hc c rfl
  | none =>
    intro x b hb hlt
    exact absurd hlt (Nat.not_lt.mpr (getLast_le h.ordered he (linked_of_marks hwf hb)))

/-! ## A pass -/

section

variable (h : Held s) {en : Entry}

include h

/-- `is_referenced` is cleared, and the lock stays held. -/
theorem Held.clear (hloaded : en.isLoaded = true) (hbelow : SweptBelow s e) :
    Held (s.setEntry e (some { en with isReferenced := false, locked := true })) :=
  h.update h.ordered (marks_setEntry s e _) (fun _ => ⟨hloaded, rfl⟩) (fun x b hb hlt _ => hbelow x b hb hlt)
    (fun _ _ _ _ _ _ => rfl)

variable (live : s.entries e = some en)

include live

/-- All entries newer than one that is not loaded and not locked are referenced. -/
theorem Held.referenced_of_free (hloaded : en.isLoaded = false) (hfree : en.locked = false) {x : Nat} {b : Mark}
    (hb : marks s x = some b) (hlt : e < x) : b.referenced = true := by
  by_contra hne
  have hlocked := h.passed x e b (mark en) hb (marks_of_live live) hlt (by simpa using hne) hloaded
  rw [show (mark en).locked = false from hfree] at hlocked
  cases hlocked

/-- The lock of an entry that is not loaded stays held, and the one before is
returned. -/
theorem Held.skip (hloaded : en.isLoaded = false) (hfree : en.locked = false) {p : Nat} (hp : e < p) :
    Held ((s.setEntry e (some { en with locked := true })).modify p fun en => { en with locked := false }) := by
  have hlocked : Held (s.setEntry e (some { en with locked := true })) :=
    h.raise rfl (marks_of_live live) (marks_setEntry s e _) id id fun _ => rfl
  have hreferenced : ∀ x b, marks (s.setEntry e (some { en with locked := true })) x = some b → e < x →
      b.referenced = true := by
    intro x b hb hlt
    rw [marks_setEntry, if_neg (Nat.ne_of_gt hlt)] at hb
    exact h.referenced_of_free live hloaded hfree hb hlt
  generalize s.setEntry e (some { en with locked := true }) = t at hlocked hreferenced ⊢
  cases hentry : t.entries p with
  | none =>
    rw [modify_of_none hentry]
    exact hlocked
  | some pn =>
    rw [modify_eq hentry]
    have hmark := hreferenced p (mark pn) (marks_of_live hentry) hp
    refine hlocked.update hlocked.ordered (marks_setEntry t p _) (fun hr => ?_) (fun x b _ _ hr => ?_) (fun x b hb hlt hr => ?_)
    · exact absurd (hmark.symm.trans hr) Bool.noConfusion
    · exact absurd (hmark.symm.trans hr) Bool.noConfusion
    · exact absurd ((hreferenced x b hb (Nat.lt_trans hp hlt)).symm.trans hr) Bool.noConfusion

omit h in
theorem store_skip (p : Nat) :
    store ((s.setEntry e (some { en with locked := true })).modify p fun en => { en with locked := false }) = store s := by
  refine (store_modify ?_).trans (store_setEntry_of_stored live ?_)
  · exact fun _ => rfl
  · rfl

/-! The pass goes on with the entry before. -/

variable (hwf : (store s).Wf) (hbelow : SweptBelow s e)

include hwf hbelow

theorem Held.swept_skip (hloaded : en.isLoaded = false) (hfree : en.locked = false) {p : Nat}
    (hp : prevOf s.linked e = some p) :
    Swept ((s.setEntry e (some { en with locked := true })).modify p fun en => { en with locked := false }) (some p) := by
  have hprev := (prevOf_spec h.ordered hp).2.1
  have hwf' := (store_skip live p).symm ▸ hwf
  refine hp ▸ swept_prev hwf' (h.skip live hloaded hfree hprev) (e := e) (fun x b hb hlt => ?_) (fun b hb _ => ?_)
  · rw [marks_modify_of_ne _ _ (Nat.ne_of_lt (Nat.lt_trans hlt hprev)), marks_setEntry,
      if_neg (Nat.ne_of_lt hlt)] at hb
    exact hbelow x b hb hlt
  · rw [marks_modify_of_ne _ _ (Nat.ne_of_lt hprev), marks_setEntry, if_pos rfl] at hb
    cases hb
    rfl

theorem Held.swept_clear (hloaded : en.isLoaded = true) :
    Swept (s.setEntry e (some { en with isReferenced := false, locked := true })) (prevOf s.linked e) := by
  have hstore : store (s.setEntry e (some { en with isReferenced := false, locked := true })) = store s :=
    store_setEntry_of_stored live rfl
  refine swept_prev (hstore.symm ▸ hwf) (h.clear hloaded hbelow) (e := e) (fun x b hb hlt => ?_) (fun b hb _ => ?_)
  · rw [marks_setEntry, if_neg (Nat.ne_of_lt hlt)] at hb
    exact hbelow x b hb hlt
  · rw [marks_setEntry, if_pos rfl] at hb
    cases hb
    rfl

theorem Held.swept_loaded (hloaded : en.isLoaded = true) : Swept s (prevOf s.linked e) := by
  refine swept_prev hwf h hbelow fun b hb hnot => ?_
  rw [marks_of_live live] at hb
  cases hb
  exact absurd (hloaded.symm.trans hnot) Bool.noConfusion

end

/-- A pass drops nothing. -/
theorem evictLoop_held (n : Nat) (current : Option Nat) (s : Cache) (hwf : (store s).Wf) (h : Held s)
    (hc : Swept s current) :
    Held (evictLoop n current s).1 ∧ store (evictLoop n current s).1 = store s := by
  induction n generalizing current s with
  | zero => exact ⟨h, rfl⟩
  | succ n ih =>
    rw [evictLoop]
    split
    · exact ⟨h, rfl⟩
    rename_i e hcurrent
    have hbelow := swept_current hwf h hc hcurrent
    split
    · exact ⟨h, rfl⟩
    rename_i en live
    split
    · exact ⟨h, rfl⟩
    rename_i hlocked
    have hfree : en.locked = false := by simpa using hlocked
    split
    · rename_i hnot
      have hloaded : en.isLoaded = false := by simpa using hnot
      dsimp only
      split
      · exact ⟨h.raise rfl (marks_of_live live) (marks_setEntry s e _) id id fun _ => rfl,
          store_setEntry_of_stored live rfl⟩
      · rename_i p hp
        have hstore := store_skip live p
        have hnext := ih (some p) _ (hstore.symm ▸ hwf) (h.skip live hloaded hfree (prevOf_spec h.ordered hp).2.1)
          (h.swept_skip live hwf hbelow hloaded hfree hp)
        exact ⟨hnext.1, hnext.2.trans hstore⟩
    rename_i hnot
    have hloaded : en.isLoaded = true := by simpa using hnot
    split
    · rename_i hclosed
      split
      · have hstore : store (s.setEntry e (some { en with isReferenced := false, locked := true })) = store s :=
          store_setEntry_of_stored live rfl
        have hnext := ih (prevOf s.linked e) _ (hstore.symm ▸ hwf) (h.clear hloaded hbelow)
          (h.swept_clear live hwf hbelow hloaded)
        exact ⟨hnext.1, hnext.2.trans hstore⟩
      · -- an entry to evict would be locked
        rename_i hreferenced
        have hsettled := h.settled e (mark en) (marks_of_live live) (by simpa [mark] using hreferenced)
        exact absurd (hsettled.2.symm.trans hfree) Bool.noConfusion
    · exact ih (prevOf s.linked e) s hwf h (h.swept_loaded live hwf hbelow hloaded)

theorem evict_held (hwf : (store s).Wf) (h : Held s) :
    Held (tcMapCacheEvict s) ∧ store (tcMapCacheEvict s) = store s ∧ (tcMapCacheEvict s).invoking = s.invoking := by
  rw [tcMapCacheEvict]
  split
  · exact ⟨h, rfl, rfl⟩
  · rename_i head _ _
    dsimp only
    -- no entry is older than the last
    have hnone : Swept s none := fun _ h => by cases h
    have hswept : Swept s s.linked.getLast? := fun e he => swept_current hwf h hnone he
    have hpass := evictLoop_held (maxIters s.numEntries) s.linked.getLast? { s with clockHand := s.clockHand <|> some head }
      hwf (h.congr rfl rfl) hswept
    have hcalls := (calls_of_evictMoves (evictLoop_moves (maxIters s.numEntries) s.linked.getLast?
      { s with clockHand := s.clockHand <|> some head })).1
    split
    · rename_i s' he
      rw [he] at hpass hcalls
      exact ⟨hpass.1, hpass.2, hcalls⟩
    · rename_i s' he
      rw [he] at hpass hcalls
      exact ⟨hpass.1.congr rfl rfl, hpass.2, hcalls⟩
    · rename_i s' he
      rw [he] at hpass hcalls
      exact ⟨hpass.1.congr rfl rfl, hpass.2, hcalls⟩

/-! ## Runs -/

theorem marks_ref (ha : marks s e = some a) (hr : a.referenced = true) :
    marks (tcMapNolockRef e s) = marks s := by
  funext e'
  by_cases he : e' = e
  · subst he
    obtain ⟨en, hen, rfl⟩ := Option.map_eq_some_iff.mp ha
    rw [tcMapNolockRef, modify_eq hen, marks_setEntry, if_pos rfl, ha]
    exact congrArg (fun r => some { mark en with referenced := r }) hr.symm
  · exact marks_modify_of_ne s _ he

theorem marks_unref (e : Nat) (s : Cache) : marks (tcMapNolockUnref e s) = marks s := by
  funext e'
  by_cases he : e' = e
  · subst he
    rw [marks, tcMapNolockUnref, Cache.modify, setEntry_self, Option.map_map, marks]
    rfl
  · exact marks_modify_of_ne s _ he

theorem Store.Performs.dropped {v v' : Store} {l : Label} (h : Store.Performs sizes v v' l)
    (hl : l ≠ .check) : v'.dropped = v.dropped := by
  cases l with
  | check => exact absurd rfl hl
  | upgrade i c alloc =>
    obtain rfl | ⟨name, -, -, rfl⟩ := h <;> rfl
  | load e result outcomes =>
    cases result with
    | none => rw [h.2]; rfl
    | some m =>
      obtain ⟨x, -, -, rfl⟩ := h
      rfl
  | setBlock e w =>
    obtain ⟨x, m, m', -, -, -, rfl⟩ := h
    rfl
  | open_ | invoke | ref | unref => rw [show v' = v from h]

/-- What holds in every state: no call finds an entry, and no map is dropped. -/
structure Unevicted (s : Cache) : Prop where
  wf : (store s).Wf
  unindexed : (store s).Unindexed
  calls : s.invoking = []
  held : Held s
  dropped : (store s).dropped = []

theorem Held.create (hwf : (store s).Wf) (h : Held s) (sizes : Sizes) (call : Open) (c : Creation) :
    Held (createEntry sizes call c s) := by
  cases c with
  | scheduled =>
    have hold : ∀ e a, marks s e = some a → e < s.nextEntry := fun e a ha => hwf.fresh e (linked_of_marks hwf ha)
    refine h.update (List.pairwise_cons.mpr ⟨hwf.fresh, h.ordered⟩) (marks_setEntry s s.nextEntry (newEntry sizes call))
      (fun hr => ?_) (fun _ _ _ _ hr => ?_) (fun e b hb hlt => ?_)
    · cases hr
    · cases hr
    · exact absurd hlt (Nat.lt_asymm (hold e b hb))
  | notScheduled | noEntry | noLock | noKey | noArgs | noBlock => exact h.congr rfl rfl

/-- Nothing changes that a pass looks at. -/
def Unmarked (s t : Cache) : Prop := marks t = marks s ∧ t.linked = s.linked ∧ t.invoking = s.invoking

theorem unmarked_failBacklog (s : Cache) (e : Nat) (outcomes : Nat → Dispatch) (rs : List Request) :
    Unmarked s (tcTaskScheduleBacklog (handlers e id id) false .blocking outcomes 0 false rs s) :=
  scheduleBacklog_rule (P := fun _ t => Unmarked s t) (fun _ _ _ _ ht => ht)
    (fun _ _ _ _ _ hresult => absurd hresult Bool.false_ne_true) 0 false rs ⟨rfl, rfl, rfl⟩

/-- The backlog of an entry that is referenced. -/
theorem unmarked_scheduleBacklog (ha : marks s e = some a) (hr : a.referenced = true)
    (outcomes : Nat → Dispatch) (rs : List Request) :
    Unmarked s (tcTaskScheduleBacklog (handlers e (tcMapNolockRef e) (tcMapNolockUnref e)) true .blocking outcomes
      0 false rs s) := by
  refine scheduleBacklog_rule (P := fun _ t => Unmarked s t) (fun _ _ _ _ ht => ht)
    (fun q _ t next o _ ht => ?_) 0 false rs ⟨rfl, rfl, rfl⟩
  have hheld : marks (tcMapNolockRef e t) = marks s := (marks_ref ((congrFun ht.1 e).trans ha) hr).trans ht.1
  cases o with
  | noArgs => exact ht
  | refused => exact ⟨(marks_unref e _).trans hheld, ht.2⟩
  | accepted => exact ⟨hheld, ht.2⟩

/-- A step other than the check for an eviction. -/
theorem Unevicted.held_step {l : Label} (h : Unevicted s) (hl : l ≠ .check) (hstep : Step sizes s l s') :
    Held s' ∧ s'.invoking = [] := by
  cases hstep with
  | wait absent => exact ⟨h.held.congr rfl rfl, h.calls⟩
  | @found name _ _ _ _ _ at_ => exact absurd (at_.symm.trans (h.unindexed name)) (by simp)
  | @upgraded _ _ _ call _ _ _ at_ => exact absurd (at_.symm.trans (h.unindexed call.name)) (by simp)
  | @create i c _ call waiting absent =>
    refine ⟨Held.create (s := { s with upgrading := s.upgrading.eraseIdx i }) h.wf (h.held.congr rfl rfl) sizes call c, ?_⟩
    cases c <;> exact h.calls
  | invoke waiting =>
    rw [h.calls] at waiting
    cases waiting
  | @loadFailed e outcomes en pending live =>
    obtain ⟨hmarks, hlinked, hcalls⟩ := unmarked_failBacklog { s with pendingLoads := s.pendingLoads.erase e } e
      outcomes en.backlog
    exact ⟨h.held.congr hlinked hmarks, hcalls.trans h.calls⟩
  | @loaded e m outcomes en pending live =>
    have hnot := isLoaded_of_pending h.wf pending live
    have hreferenced : en.isReferenced = true := by
      by_contra hne
      have hsettled := h.held.settled e (mark en) (marks_of_live live) (by simpa [mark] using hne)
      exact absurd (hsettled.1.symm.trans hnot) Bool.noConfusion
    have hmarks := marks_setEntry s e { en with
      map := some m, memoryUsage := en.memoryUsage + tcMapGetMemoryUsage sizes m }
    have hpublished : Held (published sizes e en m s) :=
      h.held.raise rfl (marks_of_live live) hmarks id (fun _ => rfl) id
    obtain ⟨hsame, hlinked, hcalls⟩ := unmarked_scheduleBacklog (s := published sizes e en m s)
      ((hmarks e).trans (if_pos rfl)) hreferenced outcomes en.backlog
    exact ⟨hpublished.congr hlinked hsame, hcalls.trans h.calls⟩
  | check => exact absurd rfl hl
  | @ref e en live =>
    refine ⟨?_, h.calls⟩
    rw [tcMapNolockRef, modify_eq live]
    exact h.held.raise rfl (marks_of_live live) (marks_setEntry s e { en with
      openCount := en.openCount + 1, isReferenced := true }) (fun _ => rfl) id id
  | @unref e en live => exact ⟨h.held.congr rfl (marks_unref e s), h.calls⟩
  | @write e w en m m' live loaded =>
    refine ⟨h.held.raise rfl (marks_of_live live) (marks_setEntry s e { en with map := some m' }) id
      (fun _ => rfl) id, h.calls⟩

theorem Unevicted.step {l : Label} (h : Unevicted s) (hstep : cacheStep sizes s l = some s') :
    Unevicted s' := by
  by_cases hl : l = .check
  · subst hl
    unfold cacheStep at hstep
    split at hstep
    · cases hstep
    simp only [checkEviction] at hstep
    split at hstep
    · cases hstep
      split
      · obtain ⟨hheld, hstore, hcalls⟩ := evict_held (s := { s with checking := s.checking - 1 }) h.wf
          (h.held.congr rfl rfl)
        exact ⟨by rw [hstore]; exact h.wf, by rw [hstore]; exact h.unindexed, hcalls.trans h.calls, hheld,
          by rw [hstore]; exact h.dropped⟩
      · exact ⟨h.wf, h.unindexed, h.calls, h.held.congr rfl rfl, h.dropped⟩
    · cases hstep
  · obtain ⟨hheld, hcalls⟩ := h.held_step hl (step_of_cacheStep hstep)
    have hperforms := store_step (step_of_cacheStep hstep)
    exact ⟨h.wf.performs hperforms, h.unindexed.performs hperforms, hcalls, hheld,
      (hperforms.dropped hl).trans h.dropped⟩

theorem unevicted_init (threshold : BitVec 64) : Unevicted (tcMapCacheInit threshold) where
  wf := wf_init threshold
  unindexed := fun _ => rfl
  calls := rfl
  held := ⟨List.Pairwise.nil, fun _ _ h => (nomatch h), fun _ _ _ _ h => (nomatch h)⟩
  dropped := rfl

/-- No run of the cache drops a map, dirty or not. -/
theorem nothing_dropped {threshold : BitVec 64} {ls : List Label}
    (hrun : run (cacheStep sizes) (tcMapCacheInit threshold) ls = some s) : (store s).dropped = [] := by
  have hstep : ∀ s l s', Unevicted s → cacheStep sizes s l = some s' → Unevicted s' := fun _ _ _ h hstep => h.step hstep
  exact (run_inv hstep (unevicted_init threshold) hrun).dropped

end TC.Proof.Cache
