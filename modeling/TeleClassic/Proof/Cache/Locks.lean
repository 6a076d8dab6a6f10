import TeleClassic.Proof.Cache.Refines

/-!
# The locks of an eviction

A pass of `tc_map_cache_evict` goes through the list once, from its tail to its
head: with `l₁` before it and `l₂` behind it, an iteration comes to the last of
`l₁`, and what is behind is not touched again (`Iteration.around`,
`evictLoop_around`). Two of the four branches do not return the lock they took:
an entry that is not loaded and one whose `is_referenced` flag is cleared. So an
eviction that finds all locks free keeps to the discipline (`Disciplined`) if and
only if it comes to no such entry (`Returned`, `discipline_iff`).
-/

namespace TC.Proof.Cache

open TC.Impl TC.Impl.MapCache
open TC.Impl.CacheList (LinkedCache Act Next linkedStep)

variable {s s' : LinkedCache} {e n : Nat} {en : Entry} {l₁ l₂ : List Nat}

/-! ## The way of a pass -/

theorem Visit.eq {e' : Nat} (h : Visit s (some e) e' en) : e' = e :=
  (Option.some.inj h.at_).symm

/-- What happens to the locks and to the entries `m`, `e` and `l₂` when an
iteration comes to `e`. -/
structure Around (s : LinkedCache) (m : List Nat) (e : Nat) (l₂ : List Nat) (next : Next) (s' : LinkedCache) : Prop where
  next : ∀ c, next = .go c → c = m.getLast?
  linked : s'.linked = m ++ e :: l₂ ∨ s'.linked = m ++ l₂
  behind : ∀ x ∈ l₂, s'.entries x = s.entries x
  acts : ∃ more, s'.acts = s.acts ++ more

theorem entries_setEntry_of_ne {x : Nat} (en : Option Entry) (h : x ≠ e) :
    (s.setEntry e en).entries x = s.entries x := Function.update_of_ne h ..

theorem entries_lockEntry_of_ne {x : Nat} (en : Entry) (h : x ≠ e) :
    (lockEntry s e en).entries x = s.entries x := entries_setEntry_of_ne _ h

theorem entries_pinned_of_ne {x : Nat} (en : Entry) (h : x ≠ e) :
    (((lockEntry s e en).setEntry e (some { en with locked := false })).act (.unlock e)).entries x = s.entries x :=
  (entries_setEntry_of_ne _ h).trans (entries_lockEntry_of_ne en h)

theorem Dropped.entries_of_ne {x : Nat} (h : Dropped s e en s') (hx : x ≠ e) :
    s'.entries x = s.entries x := by
  rw [h.toCache]
  exact Function.update_of_ne hx ..

theorem Dropped.linked (h : Dropped s e en s') : s'.linked = s.linked.erase e := by
  rw [h.toCache]
  rfl

theorem Dropped.memoryUsage (h : Dropped s e en s') :
    s'.memoryUsage = s.memoryUsage - en.memoryUsage ∧ s'.memoryUsageThreshold = s.memoryUsageThreshold := by
  rw [h.toCache]
  exact ⟨rfl, rfl⟩

section

variable (h : WellLinked s) {m : List Nat} (hl : s.linked = m ++ e :: l₂)

include h hl

theorem WellLinked.apart : e ∉ m ∧ e ∉ l₂ ∧ ∀ x ∈ m, x ∉ l₂ := by
  have hnodup := h.threads.nodup
  rw [hl] at hnodup
  obtain ⟨-, hright, happart⟩ := List.nodup_append.mp hnodup
  exact ⟨fun he => happart e he e List.mem_cons_self rfl, (List.nodup_cons.mp hright).1,
    fun x hx hx' => happart x hx x (List.mem_cons_of_mem e hx') rfl⟩

theorem WellLinked.before : prevOf s.linked e = m.getLast? := by
  have hnodup := h.threads.nodup
  rw [hl] at hnodup ⊢
  exact prevOf_append hnodup

theorem WellLinked.without : s.linked.erase e = m ++ l₂ := by
  rw [hl, List.erase_append_right _ (h.apart hl).1, List.erase_cons_head]

theorem Iteration.around {next : Next} (hi : Iteration s (some e) next s') : Around s m e l₂ next s' := by
  obtain ⟨hem, hel, hml⟩ := h.apart hl
  have hbefore := h.before hl
  have hne : ∀ x ∈ l₂, x ≠ e := fun x hx hxe => hel (hxe ▸ hx)
  cases hi with
  | empty at_ => cases at_
  | blocked visit => exact ⟨fun c hc => (by cases hc), .inl hl, fun _ _ => rfl, ⟨[], (List.append_nil _).symm⟩⟩
  | @unloadedHead e' en visit =>
    obtain rfl := visit.eq
    exact ⟨fun c hc => (by cases hc), .inl hl, fun x hx => entries_lockEntry_of_ne en (hne x hx), ⟨_, rfl⟩⟩
  | @unloaded e' prev en prevEn visit free unloaded before live =>
    obtain rfl := visit.eq
    have hprev : prev ∈ m := List.mem_of_getLast? (hbefore.symm.trans before)
    refine ⟨fun c hc => ?_, .inl hl, fun x hx => ?_, ⟨[.lock e', .unlock prev], ?_⟩⟩
    · cases hc
      rw [← hbefore, before]
    · refine (entries_setEntry_of_ne _ fun hxp : x = prev => hml prev hprev (hxp ▸ hx)).trans ?_
      exact entries_lockEntry_of_ne en (hne x hx)
    · simp [lockEntry, LinkedCache.act, LinkedCache.setEntry]
  | @referenced e' en visit =>
    obtain rfl := visit.eq
    refine ⟨fun c hc => ?_, .inl hl, fun x hx => ?_, ⟨_, rfl⟩⟩
    · cases hc
      exact hbefore
    · exact (entries_setEntry_of_ne _ (hne x hx)).trans (entries_lockEntry_of_ne en (hne x hx))
  | @pinned e' en visit =>
    obtain rfl := visit.eq
    refine ⟨fun c hc => ?_, .inl hl, fun x hx => ?_, ⟨[.lock e', .unlock e'], ?_⟩⟩
    · cases hc
      exact hbefore
    · exact entries_pinned_of_ne en (hne x hx)
    · simp [lockEntry, LinkedCache.act, LinkedCache.setEntry]
  | dropped visit free loaded closed unreferenced drop =>
    obtain rfl := visit.eq
    refine ⟨fun c hc => ?_, .inr (drop.linked.trans (h.without hl)), fun x hx => drop.entries_of_ne (hne x hx), ⟨_, drop.acts⟩⟩
    cases hc
    exact hbefore
  | droppedLast visit free loaded closed unreferenced drop =>
    obtain rfl := visit.eq
    exact ⟨fun c hc => (by cases hc), .inr (drop.linked.trans (h.without hl)), fun x hx => drop.entries_of_ne (hne x hx),
      ⟨_, drop.acts⟩⟩

end

/-- The entries behind a pass stay linked and are not touched, and what was done
to the locks stays done. -/
theorem evictLoop_around (h : WellLinked s) (hl : s.linked = l₁ ++ l₂) (hn : n ≤ l₁.length) :
    (∃ l, (CacheList.evictLoop n l₁.getLast? s).2.linked = l ++ l₂) ∧
      (∀ x ∈ l₂, (CacheList.evictLoop n l₁.getLast? s).2.entries x = s.entries x) ∧
      ∃ more, (CacheList.evictLoop n l₁.getLast? s).2.acts = s.acts ++ more := by
  induction n generalizing s l₁ l₂ with
  | zero => exact ⟨⟨l₁, hl⟩, fun _ _ => rfl, ⟨[], (List.append_nil _).symm⟩⟩
  | succ n ih =>
    obtain ⟨m, e, rfl⟩ := List.eq_nil_or_concat' l₁ |>.resolve_left (by rintro rfl; simp at hn)
    have hl' : s.linked = m ++ e :: l₂ := by rw [hl, List.append_assoc]; rfl
    obtain ⟨next, s', hi, hwell, hloop⟩ := evictLoop_iteration h hl' n
    obtain ⟨hnext, hlinked, hbehind, more, hacts⟩ := hi.around h hl'
    rw [hloop]
    cases next with
    | stop pass =>
      refine ⟨?_, hbehind, more, hacts⟩
      rcases hlinked with hlinked | hlinked
      · exact ⟨m ++ [e], hlinked.trans (by simp)⟩
      · exact ⟨m, hlinked⟩
    | go c =>
      obtain rfl := hnext c rfl
      have hlen : n ≤ m.length := by simpa using hn
      dsimp only [goOnLinked]
      rcases hlinked with hlinked | hlinked
      · obtain ⟨⟨l, hl₃⟩, hkept, more', hacts'⟩ := ih hwell hlinked hlen
        refine ⟨⟨l ++ [e], hl₃.trans (by simp)⟩, fun x hx => ?_, more ++ more', ?_⟩
        · exact (hkept x (List.mem_cons_of_mem e hx)).trans (hbehind x hx)
        · rw [hacts', hacts, List.append_assoc]
      · obtain ⟨hl₃, hkept, more', hacts'⟩ := ih hwell hlinked hlen
        refine ⟨hl₃, fun x hx => (hkept x hx).trans (hbehind x hx), more ++ more', ?_⟩
        rw [hacts', hacts, List.append_assoc]

/-! ## Locks -/

/-- The locks held after some acts, if none is returned that is not held. -/
def holding : List Nat → List Act → Option (List Nat)
  | held, [] => some held
  | held, .lock e :: acts => holding (e :: held) acts
  | held, .unlock e :: acts => if e ∈ held then holding (held.erase e) acts else none
  | held, .free _ :: acts => holding held acts

theorem holding_append (held : List Nat) (acts acts' : List Act) :
    holding held (acts ++ acts') = (holding held acts).bind fun held => holding held acts' := by
  induction acts generalizing held with
  | nil => rfl
  | cons act acts ih =>
    cases act with
    | lock e => exact ih (e :: held)
    | free e => exact ih held
    | unlock e =>
      simp only [List.cons_append, holding]
      split
      · exact ih (held.erase e)
      · rfl

/-- An eviction returns, so it does not use `NULL`, it only returns locks that it
holds, and the locks of the entries that are left are free. -/
structure Disciplined (r : CacheList.Pass × LinkedCache) : Prop where
  returns : r.1 = .done
  owned : holding [] r.2.acts ≠ none
  released : ∀ e ∈ r.2.linked, ∀ en, r.2.entries e = some en → en.locked = false

/-- The entries that a pass comes to, with the memory used at the first of them:
it returns the locks of all of them. -/
def Returned (threshold : BitVec 64) : BitVec 64 → List Entry → Prop
  | _, [] => True
  | usage, en :: ens => en.isLoaded = true ∧
      (en.openCount ≠ 0 ∧ Returned threshold usage ens ∨
        en.openCount = 0 ∧ en.isReferenced = false ∧
          (¬ usage - en.memoryUsage < threshold → Returned threshold (usage - en.memoryUsage) ens))

/-- The entries from the tail on, as far as there are iterations. -/
def ahead (s : LinkedCache) (n : Nat) (l₁ : List Nat) : List Entry := (l₁.reverse.take n).filterMap s.entries

theorem ahead_concat {m : List Nat} (live : s.entries e = some en) :
    ahead s (n + 1) (m ++ [e]) = en :: ahead s n m := by
  simp [ahead, live]

theorem ahead_congr {m : List Nat} (h : ∀ x ∈ m, s'.entries x = s.entries x) : ahead s' n m = ahead s n m :=
  List.filterMap_congr fun x hx => h x (List.mem_reverse.mp (List.mem_of_mem_take hx))

/-- All locks of the entries are free, and the pass holds none. -/
structure Free (s : LinkedCache) : Prop where
  entries : ∀ e ∈ s.linked, ∀ en, s.entries e = some en → en.locked = false
  acts : holding [] s.acts = some []

theorem Free.pinned (h : Free s) (en : Entry) :
    Free (((lockEntry s e en).setEntry e (some { en with locked := false })).act (.unlock e)) := by
  refine ⟨fun x hx en' hen' => ?_, ?_⟩
  · by_cases hxe : x = e
    · subst hxe
      obtain rfl := Option.some.inj ((setEntry_self ..).symm.trans hen')
      rfl
    · exact h.entries x hx en' ((entries_pinned_of_ne en hxe).symm.trans hen')
  · show holding [] ((s.acts ++ [.lock e]) ++ [.unlock e]) = _
    rw [holding_append, holding_append, h.acts]
    simp [holding]

theorem Free.dropped (h : Free s) (hs : WellLinked s) (drop : Dropped s e en s') : Free s' := by
  refine ⟨fun x hx en' hen' => ?_, ?_⟩
  · rw [drop.linked] at hx
    obtain ⟨hxe, hx⟩ := hs.threads.nodup.mem_erase_iff.mp hx
    exact h.entries x hx en' ((drop.entries_of_ne hxe).symm.trans hen')
  · rw [drop.acts, holding_append, h.acts]
    simp [holding]

/-- Where the lock of an entry behind the pass is held, it stays held. -/
theorem not_disciplined_of_held (h : WellLinked s) (hl : s.linked = l₁ ++ l₂) (hn : n ≤ l₁.length)
    (he : e ∈ l₂) (live : s.entries e = some en) (held : en.locked = true) :
    ¬ Disciplined (CacheList.evictLoop n l₁.getLast? s) := by
  intro hd
  obtain ⟨⟨l, hlinked⟩, hkept, -⟩ := evictLoop_around h hl hn
  have hfree := hd.released e (by rw [hlinked]; exact List.mem_append_right l he) en ((hkept e he).trans live)
  rw [held] at hfree
  cases hfree

/-- A lock that was returned without being held is not undone. -/
theorem not_disciplined_of_acts (h : WellLinked s) (hl : s.linked = l₁ ++ l₂) (hn : n ≤ l₁.length)
    (hacts : holding [] s.acts = none) : ¬ Disciplined (CacheList.evictLoop n l₁.getLast? s) := by
  intro hd
  obtain ⟨-, -, more, hmore⟩ := evictLoop_around h hl hn
  exact hd.owned (by rw [hmore, holding_append, hacts]; rfl)

theorem evictLoop_disciplined_iff (h : WellLinked s) (hfree : Free s) (hl : s.linked = l₁ ++ l₂)
    (hn : n ≤ l₁.length) :
    Disciplined (CacheList.evictLoop n l₁.getLast? s) ↔
      Returned s.memoryUsageThreshold s.memoryUsage (ahead s n l₁) := by
  induction n generalizing s l₁ l₂ with
  | zero => exact ⟨fun _ => trivial, fun _ => ⟨rfl, by simp [CacheList.evictLoop, hfree.acts], hfree.entries⟩⟩
  | succ n ih =>
    obtain ⟨m, e, rfl⟩ := List.eq_nil_or_concat' l₁ |>.resolve_left (by rintro rfl; simp at hn)
    have hl' : s.linked = m ++ e :: l₂ := by rw [hl, List.append_assoc]; rfl
    have hlen : n ≤ m.length := by simpa using hn
    have hem := (h.apart hl').1
    have hne : ∀ x ∈ m, x ≠ e := fun x hx hxe => hem (hxe ▸ hx)
    have hbefore := h.before hl'
    obtain ⟨next, s', hi, hwell, hloop⟩ := evictLoop_iteration h hl' n
    rw [hloop]
    cases hi with
    | empty at_ => cases at_
    | blocked visit held =>
      obtain rfl := visit.eq
      exact absurd ((hfree.entries _ visit.linked _ visit.live).symm.trans held) Bool.noConfusion
    | unloadedHead visit free unloaded first =>
      obtain rfl := visit.eq
      rw [ahead_concat visit.live]
      exact iff_of_false (fun hd => by cases hd.returns) fun hr => absurd (hr.1.symm.trans unloaded) Bool.noConfusion
    | @unloaded e' prev en prevEn visit free unloaded before live =>
      -- the lock of the entry before is returned, which was not taken
      obtain rfl := visit.eq
      have hprev : m.getLast? = some prev := hbefore.symm.trans before
      have hpe : prev ≠ e' := hne prev (List.mem_of_getLast? hprev)
      have hacts : holding [] (s.acts ++ [.lock e', .unlock prev]) = none := by
        rw [holding_append, hfree.acts]
        simp [holding, hpe]
      rw [ahead_concat visit.live, ← hprev]
      refine iff_of_false (not_disciplined_of_acts hwell hl' hlen ?_) fun hr =>
        absurd (hr.1.symm.trans unloaded) Bool.noConfusion
      rw [← hacts]
      simp [lockEntry, LinkedCache.act, LinkedCache.setEntry]
    | referenced visit free loaded closed referenced =>
      -- the lock stays held
      obtain rfl := visit.eq
      rw [ahead_concat visit.live, hbefore]
      refine iff_of_false (not_disciplined_of_held hwell hl' hlen List.mem_cons_self (setEntry_self ..) rfl) ?_
      rintro ⟨-, ⟨hopened, -⟩ | ⟨-, hunreferenced, -⟩⟩
      · exact hopened closed
      · exact absurd (referenced.symm.trans hunreferenced) Bool.noConfusion
    | @pinned e' en visit free loaded opened =>
      obtain rfl := visit.eq
      rw [ahead_concat visit.live, hbefore]
      have hsame := ahead_congr (n := n) fun x hx => entries_pinned_of_ne (s := s) en (hne x hx)
      refine (ih hwell (hfree.pinned en) hl' hlen).trans ?_
      rw [hsame]
      simp only [Returned, loaded, opened, ne_eq, not_false_eq_true, true_and, false_and, or_false]
      rfl
    | dropped visit free loaded closed unreferenced drop above =>
      obtain rfl := visit.eq
      obtain ⟨husage, hthreshold⟩ := drop.memoryUsage
      rw [husage, hthreshold] at above
      rw [ahead_concat visit.live, hbefore]
      refine (ih hwell (hfree.dropped h drop) (drop.linked.trans (h.without hl')) hlen).trans ?_
      rw [ahead_congr fun x hx => drop.entries_of_ne (hne x hx), husage, hthreshold]
      simp only [Returned, loaded, closed, unreferenced, above, ne_eq, not_true_eq_false, not_false_eq_true, true_and,
        false_and, false_or, true_implies]
    | droppedLast visit free loaded closed unreferenced drop below =>
      obtain rfl := visit.eq
      obtain ⟨husage, hthreshold⟩ := drop.memoryUsage
      rw [husage, hthreshold] at below
      rw [ahead_concat visit.live]
      have hdropped := hfree.dropped h drop
      refine iff_of_true ⟨rfl, by simp [goOnLinked, hdropped.acts], hdropped.entries⟩ ⟨loaded, .inr ⟨closed, unreferenced, ?_⟩⟩
      exact fun habove => absurd below habove

/-! ## Evictions -/

theorem maxIters_le (n : Nat) : maxIters n ≤ n := by
  simp only [maxIters, BitVec.toInt_eq_toNat_cond, BitVec.toNat_ofNat]
  omega

/-- An eviction that finds the locks of all entries free keeps to the discipline
if and only if it comes to no entry that is not loaded and to none that is
referenced and that nobody has open. -/
theorem discipline_iff {s : LinkedCache} (h : InOrder s)
    (hfree : ∀ e ∈ s.linked, ∀ en, s.entries e = some en → en.locked = false) :
    Disciplined (CacheList.tcMapCacheEvict s) ↔
      Returned s.memoryUsageThreshold s.memoryUsage (ahead s (maxIters s.numEntries) s.linked) := by
  have hs := inOrder_iff.mp h
  have hhead := hs.threads.head
  rw [CacheList.tcMapCacheEvict]
  cases hlinked : s.linked with
  | nil =>
    rw [hlinked] at hhead
    simp only [hhead, List.head?_nil]
    refine iff_of_true ⟨rfl, by simp [holding], hfree⟩ ?_
    simp [ahead, Returned]
  | cons head rest =>
    rw [hlinked] at hhead
    simp only [hhead, List.head?_cons]
    rw [← hlinked, hs.threads.tail]
    have hn : maxIters s.numEntries ≤ s.linked.length := hs.count ▸ maxIters_le s.numEntries
    have hiff := evictLoop_disciplined_iff (hs.start hhead) (s := { s with acts := [], clockHand := s.clockHand <|> some head })
      ⟨hfree, rfl⟩ (List.append_nil _).symm hn
    exact hiff

/-- An entry that is loaded, and that nobody has open or has referenced. -/
def idle : Entry where
  key := "lobby.cw"
  map := some Map.oneBlock
  backlog := []
  memoryUsage := 640
  openCount := 0
  isReferenced := false
  locked := false

/-- Three entries are linked. -/
def threeOpens : List Label :=
  [openLobby, .upgrade 0 .scheduled true, openLobby, .upgrade 0 .scheduled true, openLobby, .upgrade 0 .scheduled true]

/-- From the tail on: an entry that can be removed, one that is as given, and one that
is open. -/
def mixed (s : LinkedCache) (en : Entry) : LinkedCache :=
  { ((s.setEntry 0 (some idle)).setEntry 1 (some en)).setEntry 2 (some { idle with openCount := 1 }) with acts := [] }

theorem exists_threeOpens :
    ∃ s, run (linkedStep someSizes) (CacheList.tcMapCacheInit 0) threeOpens = some s ∧ s.linked = [2, 1, 0] ∧
      s.numEntries = 3 ∧ ∀ en, InOrder (mixed s en) := by
  obtain ⟨s, hs⟩ : ∃ s, run (linkedStep someSizes) (CacheList.tcMapCacheInit 0) threeOpens = some s := ⟨_, rfl⟩
  have hlinked := (run_toCache hs).2
  obtain rfl := Option.some.inj hs
  exact ⟨_, rfl, rfl, rfl, fun en =>
    inOrder_iff.mpr (((hlinked.setEntry 0 idle []).setEntry 1 en []).setEntry 2 { idle with openCount := 1 } [])⟩

theorem free_mixed (hlinked : s.linked = [2, 1, 0]) (hfree : en.locked = false) :
    ∀ e ∈ (mixed s en).linked, ∀ en', (mixed s en).entries e = some en' → en'.locked = false := by
  intro e he en' hen'
  rw [show (mixed s en).linked = [2, 1, 0] from hlinked] at he
  simp only [List.mem_cons, List.not_mem_nil, or_false] at he
  rcases he with rfl | rfl | rfl <;> cases hen'
  · rfl
  · exact hfree
  · rfl

/-- An eviction that removes an entry keeps to the discipline where the others are open,
and not where it clears a flag. -/
theorem discipline_iff_opened :
    ∃ s, run (linkedStep someSizes) (CacheList.tcMapCacheInit 0) threeOpens = some s ∧
      (CacheList.tcMapCacheEvict (mixed s { idle with openCount := 1 })).2.linked = [2, 1] ∧
      Disciplined (CacheList.tcMapCacheEvict (mixed s { idle with openCount := 1 })) ∧
      ¬ Disciplined (CacheList.tcMapCacheEvict (mixed s { idle with isReferenced := true })) := by
  obtain ⟨s, hs, hlinked, -, horder⟩ := exists_threeOpens
  have hopened := discipline_iff (horder { idle with openCount := 1 }) (free_mixed hlinked rfl)
  have hreferenced := discipline_iff (horder { idle with isReferenced := true }) (free_mixed hlinked rfl)
  obtain rfl := Option.some.inj hs
  refine ⟨_, rfl, rfl, hopened.mpr ⟨rfl, .inr ⟨rfl, rfl, fun _ => ?_⟩⟩, fun h => ?_⟩
  · exact ⟨rfl, .inl ⟨by decide, rfl, .inl ⟨by decide, trivial⟩⟩⟩
  · obtain ⟨-, ⟨hopen, -⟩ | ⟨-, -, hrest⟩⟩ := hreferenced.mp h
    · exact hopen rfl
    · obtain ⟨-, ⟨hopen, -⟩ | ⟨-, hcleared, -⟩⟩ := hrest (by decide)
      · exact hopen rfl
      · cases hcleared

/-- A cache with one entry that is still being loaded: the entry before it, which
there is not, is used. A cache with an entry that is still being loaded and one
that is open: the lock of the open one is returned, which was not taken, and that
of the other is kept. -/
theorem evict_unloaded :
    (∃ s, run (linkedStep someSizes) (CacheList.tcMapCacheInit 0) [openLobby, .upgrade 0 .scheduled true] = some s ∧
      (∀ e ∈ s.linked, ∀ en, s.entries e = some en → en.locked = false) ∧
      (CacheList.tcMapCacheEvict s).1 = .null) ∧
    ∃ s, run (linkedStep someSizes) (CacheList.tcMapCacheInit 0) [openLobby, .upgrade 0 .scheduled true, openLobby,
        .upgrade 0 .scheduled true, .load 1 (some Map.oneBlock) fun _ => .accepted] = some s ∧
      s.linked = [1, 0] ∧ (∀ e ∈ s.linked, ∀ en, s.entries e = some en → en.locked = false) ∧
      (CacheList.tcMapCacheEvict s).1 = .done ∧
      (CacheList.tcMapCacheEvict s).2.acts = [.lock 0, .unlock 1, .lock 1, .unlock 1] ∧
      ((CacheList.tcMapCacheEvict s).2.entries 0).map Entry.locked = some true ∧
      ¬ Disciplined (CacheList.tcMapCacheEvict s) := by
  refine ⟨⟨_, rfl, fun e he en hen => ?_, rfl⟩, _, rfl, rfl, fun e he en hen => ?_, rfl, rfl, rfl, fun hd => ?_⟩
  · obtain rfl := List.mem_singleton.mp he
    obtain rfl := Option.some.inj hen
    rfl
  · rcases List.mem_cons.mp he with rfl | he
    · obtain rfl := Option.some.inj hen
      rfl
    · obtain rfl := List.mem_singleton.mp he
      obtain rfl := Option.some.inj hen
      rfl
  · exact hd.owned rfl

end TC.Proof.Cache
