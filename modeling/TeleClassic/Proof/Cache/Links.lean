import TeleClassic.Impl.CacheList
import TeleClassic.Proof.Cache.Index

/-!
# The linked list of the map cache

`WellLinked` is what holds of the list in memory: the links of the entries thread
the list `linked`, whose entries all exist and are counted, and the clock hand
is on one of them. `Iteration` says what an iteration of `tc_map_cache_evict` can
do to such a cache (`iteration_evictIter`). That the list stays well linked, that
the loop finds the entry before each in the list, and that no link to a freed
entry is followed are read off it (`evict_links`).
-/

namespace TC.Proof.Cache

open TC.Impl TC.Impl.Map TC.Impl.MapCache
open TC.Impl.CacheList (LinkedCache Act Pass Next evictIter)

variable {s : LinkedCache} {e : Nat} {current : Option Nat}

/-- The entries are linked with each other, they exist and are counted, and the
clock hand is on one of them. -/
structure WellLinked (s : LinkedCache) : Prop where
  threads : s.list.Threads s.linked
  live : ∀ e ∈ s.linked, ∃ en, s.entries e = some en
  count : s.numEntries = s.linked.length
  hand : ∀ e, s.clockHand = some e → e ∈ s.linked

/-! ## The entry before -/

theorem prevOf_of_not_mem {l : List Nat} (h : e ∉ l.tail) : prevOf l e = none := by
  induction l with
  | nil => rfl
  | cons a l ih =>
    cases l with
    | nil => rfl
    | cons b l =>
      rw [List.tail_cons, List.mem_cons, not_or] at h
      rw [prevOf, if_neg (Ne.symm h.1)]
      exact ih h.2

theorem prevOf_append {l₁ l₂ : List Nat} (h : (l₁ ++ e :: l₂).Nodup) :
    prevOf (l₁ ++ e :: l₂) e = l₁.getLast? := by
  induction l₁ with
  | nil => exact prevOf_of_not_mem (List.nodup_cons.mp h).1
  | cons a l₁ ih =>
    cases l₁ with
    | nil => exact if_pos rfl
    | cons b l₁ =>
      have hb : b ≠ e := by
        rintro rfl
        simp at h
      rw [List.cons_append, List.cons_append, prevOf, if_neg hb, List.getLast?_cons_cons]
      exact ih (List.nodup_cons.mp h).2

theorem mem_of_prevOf {l : List Nat} {p : Nat} (h : prevOf l e = some p) (hnodup : l.Nodup) :
    p ∈ l.erase e := by
  by_cases he : e ∈ l
  · obtain ⟨l₁, l₂, rfl⟩ := List.append_of_mem he
    rw [prevOf_append hnodup] at h
    have hp := List.mem_of_getLast? h
    refine (hnodup.mem_erase_iff).mpr ⟨?_, List.mem_append_left _ hp⟩
    rintro rfl
    exact (List.nodup_append.mp hnodup).2.2 p hp p List.mem_cons_self rfl
  · rw [prevOf_of_not_mem fun h => he (List.mem_of_mem_tail h)] at h
    cases h

theorem WellLinked.cell (h : WellLinked s) (he : e ∈ s.linked) :
    ∃ next, s.list.cells e = some { prev := prevOf s.linked e, next := next } := by
  obtain ⟨l₁, l₂, hl⟩ := List.append_of_mem he
  have hnodup := h.threads.nodup
  rw [hl] at hnodup
  exact ⟨l₂.head?, by rw [h.threads.cell l₁ e l₂ hl, hl, prevOf_append hnodup]⟩

/-! ## Linking and unlinking -/

/-- Other fields of the entries. -/
theorem WellLinked.congr {s' : LinkedCache} (h : WellLinked s) (hlist : s'.list = s.list)
    (hlinked : s'.linked = s.linked) (hcount : s'.numEntries = s.numEntries)
    (hhand : ∀ e, s'.clockHand = some e → e ∈ s.linked)
    (hlive : ∀ e, s.entries e ≠ none → s'.entries e ≠ none) : WellLinked s' where
  threads := by rw [hlist, hlinked]; exact h.threads
  live e he := by
    obtain ⟨en, hen⟩ := h.live e (hlinked ▸ he)
    exact Option.ne_none_iff_exists'.mp (hlive e (by simp [hen]))
  count := by rw [hcount, hlinked]; exact h.count
  hand e he := hlinked ▸ hhand e he

theorem WellLinked.setEntry (h : WellLinked s) (e : Nat) (en : Entry) (acts : List Act) :
    WellLinked { s.setEntry e (some en) with acts := acts } := by
  refine h.congr rfl rfl rfl h.hand fun x hx => ?_
  show Function.update s.entries e (some en) x ≠ none
  by_cases hxe : x = e
  · rw [hxe, Function.update_self]
    exact Option.some_ne_none en
  · rwa [Function.update_of_ne hxe]

/-- An entry in memory of its own, without links. -/
theorem WellLinked.alloc (h : WellLinked s) (he : e ∉ s.linked) (en : Entry) :
    WellLinked { s.setEntry e (some en) with list := s.list.alloc e } := by
  have hentry := h.setEntry e en s.acts
  exact ⟨h.threads.alloc he, hentry.live, hentry.count, hentry.hand⟩

/-- An entry that is not linked is linked. -/
theorem WellLinked.link (h : WellLinked s) (he : e ∉ s.linked) {en : Entry} (live : s.entries e = some en)
    (hnew : s.list.cells e = some { prev := none, next := none }) :
    ∃ s', CacheList.tcMapCacheLinkEntry e s = some s' ∧ WellLinked s' ∧
      s'.toCache = { s.toCache with
        linked := e :: s.linked
        memoryUsage := s.memoryUsage + en.memoryUsage
        numEntries := s.numEntries + 1 } ∧ s'.acts = s.acts := by
  obtain ⟨list, hpush, hthreads⟩ := h.threads.pushFront he hnew
  refine ⟨{ s with
      list := list
      linked := e :: s.linked
      memoryUsage := s.memoryUsage + en.memoryUsage
      numEntries := s.numEntries + 1 }, by simp only [CacheList.tcMapCacheLinkEntry, hpush, live]; rfl,
    ⟨hthreads, fun x hx => ?_, ?_, fun x hx => List.mem_cons_of_mem e (h.hand x hx)⟩, rfl, rfl⟩
  · obtain rfl | hx := List.mem_cons.mp hx
    · exact ⟨en, live⟩
    · exact h.live x hx
  · show s.numEntries + 1 = (e :: s.linked).length
    rw [h.count, List.length_cons]

/-- A linked entry is unlinked. The clock hand is left where it is. -/
theorem WellLinked.unlink (h : WellLinked s) (he : e ∈ s.linked) {en : Entry} (live : s.entries e = some en) :
    ∃ s', CacheList.tcMapCacheUnlinkEntry e s = some s' ∧
      (∀ hand, (∀ x, hand = some x → x ∈ s.linked.erase e) → WellLinked { s' with clockHand := hand }) ∧
      s'.toCache = tcMapCacheUnlinkEntry e en s.toCache ∧ s'.acts = s.acts := by
  obtain ⟨l₁, l₂, hl⟩ := List.append_of_mem he
  have hnodup := h.threads.nodup
  have hthreads := h.threads
  rw [hl] at hthreads
  obtain ⟨list, hremove, hthreads'⟩ := hthreads.remove
  have herase : s.linked.erase e = l₁ ++ l₂ := by
    rw [hl] at hnodup ⊢
    rw [List.erase_append_right _ fun hmem => (List.nodup_append.mp hnodup).2.2 e hmem e List.mem_cons_self rfl,
      List.erase_cons_head]
  refine ⟨{ s.setEntry e none with
      list := list
      linked := s.linked.erase e
      memoryUsage := s.memoryUsage - en.memoryUsage
      numEntries := s.numEntries - 1 }, by simp only [CacheList.tcMapCacheUnlinkEntry, hremove, live]; rfl,
    fun hand hhand => ⟨?_, fun x hx => ?_, ?_, hhand⟩, rfl, rfl⟩
  · show list.Threads (s.linked.erase e)
    rw [herase]
    exact hthreads'
  · obtain ⟨hne, hx⟩ := hnodup.mem_erase_iff.mp hx
    obtain ⟨en', hen'⟩ := h.live x hx
    exact ⟨en', (Function.update_of_ne hne ..).trans hen'⟩
  · show s.numEntries - 1 = (s.linked.erase e).length
    rw [h.count, List.length_erase_of_mem he]

/-! ## An iteration -/

/-- The cache with the lock of an entry taken. -/
def lockEntry (s : LinkedCache) (e : Nat) (en : Entry) : LinkedCache :=
  (s.setEntry e (some { en with locked := true })).act (.lock e)

/-- An iteration comes to the entry `e`. -/
structure Visit (s : LinkedCache) (current : Option Nat) (e : Nat) (en : Entry) : Prop where
  at_ : (current <|> s.list.tail) = some e
  linked : e ∈ s.linked
  live : s.entries e = some en

/-- The entry `e` has been evicted. -/
structure Dropped (s : LinkedCache) (e : Nat) (en : Entry) (s' : LinkedCache) : Prop where
  wellLinked : WellLinked s'
  toCache : s'.toCache = dropEntry e en s.toCache
  acts : s'.acts = s.acts ++ [.lock e, .unlock e, .free e]

/-- What an iteration does, with what comes next. -/
inductive Iteration (s : LinkedCache) (current : Option Nat) : Next → LinkedCache → Prop where
  /-- There is no entry left. -/
  | empty (at_ : (current <|> s.list.tail) = none) : Iteration s current (.stop .null) s
  | blocked {e : Nat} {en : Entry} (visit : Visit s current e en) (held : en.locked = true) :
      Iteration s current (.stop .blocked) s
  /-- There is no entry before whose lock could be returned. -/
  | unloadedHead {e : Nat} {en : Entry} (visit : Visit s current e en) (free : en.locked = false)
      (unloaded : en.isLoaded = false) (first : prevOf s.linked e = none) :
      Iteration s current (.stop .null) (lockEntry s e en)
  | unloaded {e prev : Nat} {en prevEn : Entry} (visit : Visit s current e en) (free : en.locked = false)
      (unloaded : en.isLoaded = false) (before : prevOf s.linked e = some prev)
      (live : (lockEntry s e en).entries prev = some prevEn) :
      Iteration s current (.go (some prev))
        (((lockEntry s e en).setEntry prev (some { prevEn with locked := false })).act (.unlock prev))
  | referenced {e : Nat} {en : Entry} (visit : Visit s current e en) (free : en.locked = false)
      (loaded : en.isLoaded = true) (closed : en.openCount = 0) (referenced : en.isReferenced = true) :
      Iteration s current (.go (prevOf s.linked e))
        ((lockEntry s e en).setEntry e (some { en with isReferenced := false, locked := true }))
  | pinned {e : Nat} {en : Entry} (visit : Visit s current e en) (free : en.locked = false)
      (loaded : en.isLoaded = true) (opened : en.openCount ≠ 0) :
      Iteration s current (.go (prevOf s.linked e))
        (((lockEntry s e en).setEntry e (some { en with locked := false })).act (.unlock e))
  | dropped {e : Nat} {en : Entry} {s' : LinkedCache} (visit : Visit s current e en) (free : en.locked = false)
      (loaded : en.isLoaded = true) (closed : en.openCount = 0) (unreferenced : en.isReferenced = false)
      (drop : Dropped s e en s') (above : ¬ s'.memoryUsage < s'.memoryUsageThreshold) :
      Iteration s current (.go (prevOf s.linked e)) s'
  | droppedLast {e : Nat} {en : Entry} {s' : LinkedCache} (visit : Visit s current e en)
      (free : en.locked = false) (loaded : en.isLoaded = true) (closed : en.openCount = 0)
      (unreferenced : en.isReferenced = false) (drop : Dropped s e en s')
      (below : s'.memoryUsage < s'.memoryUsageThreshold) :
      Iteration s current (.stop .done) { s' with clockHand := s'.clockHand <|> s'.list.tail }

theorem WellLinked.visited (h : WellLinked s) (hc : ∀ e, current = some e → e ∈ s.linked)
    (he : (current <|> s.list.tail) = some e) : e ∈ s.linked := by
  cases current with
  | some c =>
    obtain rfl := Option.some.inj he
    exact hc c rfl
  | none =>
    have htail : s.list.tail = some e := he
    rw [h.threads.tail] at htail
    exact List.mem_of_getLast? htail

/-- The branch that evicts a map. The clock hand is moved off the entry. -/
theorem WellLinked.drop (h : WellLinked s) (he : e ∈ s.linked) (en : Entry) :
    ∃ s', CacheList.dropEntry e en (prevOf s.linked e) (lockEntry s e en) = some s' ∧ Dropped s e en s' := by
  have hlocked := h.setEntry e { en with locked := true } (s.acts ++ [.lock e])
  obtain ⟨s', hs', hlinked, htoCache, hacts⟩ := WellLinked.unlink (e := e) (s := { lockEntry s e en with
      idToIndex := fun name => if name = en.key then none else s.idToIndex name })
    ⟨hlocked.threads, hlocked.live, hlocked.count, hlocked.hand⟩ he (setEntry_self ..)
  have hhand : s'.clockHand = s.clockHand := by rw [htoCache]; rfl
  have hdrop := hlinked (if s.clockHand = some e then prevOf s.linked e else s.clockHand) fun x hx => by
    split at hx
    · exact mem_of_prevOf hx h.threads.nodup
    · rename_i hne
      exact h.threads.nodup.mem_erase_iff.mpr ⟨fun hxe => hne (hxe ▸ hx), h.hand x hx⟩
  refine ⟨{ s' with
      clockHand := if s'.clockHand = some e then prevOf s.linked e else s'.clockHand
      trace := s'.trace ++ [.evicted e (en.map.any TcMap.isDirty)]
      acts := s'.acts ++ [.unlock e, .free e] }, ?_, ?_, ?_, ?_⟩
  · rw [CacheList.dropEntry, show (lockEntry s e en).idToIndex = s.idToIndex from rfl, hs']
    rfl
  · rw [hhand]
    exact ⟨hdrop.threads, hdrop.live, hdrop.count, hdrop.hand⟩
  · rw [htoCache]
    simp [dropEntry, tcMapCacheUnlinkEntry, lockEntry, Cache.note, Cache.setEntry, LinkedCache.setEntry,
      LinkedCache.act]
  · show s'.acts ++ _ = _
    rw [hacts]
    simp [lockEntry, LinkedCache.act, LinkedCache.setEntry]

theorem iteration_evictIter (h : WellLinked s) (hc : ∀ e, current = some e → e ∈ s.linked) :
    Iteration s current (evictIter current s).1 (evictIter current s).2 := by
  rw [evictIter]
  split
  · rename_i hnone
    exact .empty hnone
  rename_i e he
  have hlinked := h.visited hc he
  obtain ⟨en, live⟩ := h.live e hlinked
  obtain ⟨next, hcell⟩ := h.cell hlinked
  have visit : Visit s current e en := ⟨he, hlinked, live⟩
  simp only [live, hcell]
  cases hlocked : en.locked with
  | true => exact .blocked visit hlocked
  | false =>
    simp only [Bool.false_eq_true, if_false]
    cases hloaded : en.isLoaded with
    | false =>
      simp only [Bool.not_false, if_true]
      split
      · rename_i hprev
        exact .unloadedHead visit hlocked hloaded hprev
      · rename_i prev hprev
        have hmem := List.mem_of_mem_erase (mem_of_prevOf hprev h.threads.nodup)
        obtain ⟨prevEn, hlive⟩ := (h.setEntry e { en with locked := true } []).live prev hmem
        have hlive' : ((s.setEntry e (some { en with locked := true })).act (.lock e)).entries prev = some prevEn :=
          hlive
        simp only [hlive']
        exact .unloaded visit hlocked hloaded hprev hlive'
    | true =>
      simp only [Bool.not_true, Bool.false_eq_true, if_false]
      split
      · rename_i hclosed
        split
        · rename_i hreferenced
          exact .referenced visit hlocked hloaded hclosed hreferenced
        · rename_i hreferenced
          have hunreferenced := Bool.not_eq_true _ |>.mp hreferenced
          obtain ⟨s', hs', hdrop⟩ := h.drop hlinked en
          rw [lockEntry] at hs'
          simp only [hs']
          split
          · rename_i hbelow
            exact .droppedLast visit hlocked hloaded hclosed hunreferenced hdrop hbelow
          · rename_i habove
            exact .dropped visit hlocked hloaded hclosed hunreferenced hdrop habove
      · rename_i hopened
        exact .pinned visit hlocked hloaded hopened

theorem iteration_at (h : WellLinked s) (he : e ∈ s.linked) :
    Iteration s (some e) (evictIter (some e) s).1 (evictIter (some e) s).2 :=
  iteration_evictIter h fun _ hx => Option.some.inj hx ▸ he

section

variable {s' : LinkedCache} {next : Next} (h : WellLinked s) (hi : Iteration s current next s')

include h hi

theorem Iteration.wellLinked : WellLinked s' := by
  cases hi with
  | empty | blocked => exact h
  | unloadedHead => exact h.setEntry ..
  | unloaded | referenced | pinned => exact (h.setEntry ..).setEntry ..
  | dropped visit free loaded closed unreferenced drop => exact drop.wellLinked
  | droppedLast visit free loaded closed unreferenced drop =>
    exact drop.wellLinked.congr rfl rfl rfl (fun _ hx => drop.wellLinked.visited drop.wellLinked.hand hx)
      fun _ hx => hx

/-- The next iteration begins with a linked entry, too. -/
theorem Iteration.current_linked {c : Option Nat} (hnext : next = .go c) : ∀ e, c = some e → e ∈ s'.linked := by
  subst hnext
  intro x hx
  have hnodup := h.threads.nodup
  cases hi with
  | unloaded visit free unloaded before live =>
    obtain rfl := Option.some.inj hx
    exact List.mem_of_mem_erase (mem_of_prevOf before hnodup)
  | referenced | pinned => exact List.mem_of_mem_erase (mem_of_prevOf hx hnodup)
  | dropped visit free loaded closed unreferenced drop =>
    rw [drop.toCache]
    exact mem_of_prevOf hx hnodup

end

/-! ## A pass -/

def Ends : CacheList.Pass → MapCache.Pass
  | .done => .done
  | .blocked => .blocked
  | .null => .crashed
  | .dangling => .crashed

/-- What the loop over a list does after an iteration. -/
def goOn (n : Nat) (s : Cache) : Next → Cache × MapCache.Pass
  | .go current => evictLoop n current s
  | .stop pass => (s, Ends pass)

/-- What the loop over the entries in memory does after an iteration. -/
def goOnLinked (n : Nat) (s : LinkedCache) : Next → CacheList.Pass × LinkedCache
  | .go current => CacheList.evictLoop n current s
  | .stop pass => (pass, s)

/-- The loop at a linked entry: an iteration, and what follows it. -/
theorem evictLoop_iteration (h : WellLinked s) {m l : List Nat} (hl : s.linked = m ++ e :: l) (n : Nat) :
    ∃ next s', Iteration s (some e) next s' ∧ WellLinked s' ∧
      CacheList.evictLoop (n + 1) (m ++ [e]).getLast? s = goOnLinked n s' next := by
  have hi := iteration_at h (e := e) (by simp [hl])
  refine ⟨_, _, hi, hi.wellLinked h, ?_⟩
  rw [List.getLast?_concat, CacheList.evictLoop]
  generalize evictIter (some e) s = r
  obtain ⟨_ | _, _⟩ := r <;> rfl

theorem setEntry_setEntry (s : Cache) (e : Nat) (en en' : Option Entry) :
    (s.setEntry e en).setEntry e en' = s.setEntry e en' := by
  rw [Cache.setEntry, Cache.setEntry, Cache.setEntry, Function.update_idem]

theorem setEntry_eq_self {s : Cache} {en : Option Entry} (h : s.entries e = en) : s.setEntry e en = s := by
  rw [Cache.setEntry, ← h, Function.update_eq_self]

theorem linked_setEntry (s : Cache) (e : Nat) (en : Option Entry) : (s.setEntry e en).linked = s.linked := rfl

/-- An iteration is one of the loop over a list. -/
theorem Iteration.toCache {s' : LinkedCache} {next : Next} (h : WellLinked s)
    (hi : Iteration s current next s') (n : Nat) :
    evictLoop (n + 1) current s.toCache = goOn n s'.toCache next := by
  have htail := h.threads.tail
  rw [evictLoop, ← htail]
  cases hi with
  | empty at_ => simp [at_, goOn, Ends]
  | blocked visit held => simp [visit.at_, visit.live, held, goOn, Ends]
  | @unloadedHead e en visit free unloaded first =>
    simp [visit.at_, visit.live, free, unloaded, linked_setEntry, first, goOn, Ends]
    rfl
  | @unloaded e prev en prevEn visit free unloaded before live =>
    have hmodify := modify_eq live fun en => { en with locked := false }
    simp only [visit.at_, visit.live, free, unloaded, linked_setEntry, before, Bool.false_eq_true, if_false,
      Bool.not_false, if_true, goOn]
    exact congrArg (evictLoop n (some prev)) hmodify
  | referenced visit free loaded closed referenced =>
    simp only [visit.at_, visit.live, free, loaded, closed, referenced, Bool.false_eq_true, if_false, Bool.not_true,
      if_true, goOn]
    exact congrArg (evictLoop n _) (setEntry_setEntry ..).symm
  | @pinned e en visit free loaded opened =>
    simp only [visit.at_, visit.live, free, loaded, opened, Bool.false_eq_true, if_false, Bool.not_true, goOn]
    refine congrArg (evictLoop n _) ?_
    show s.toCache = (s.toCache.setEntry e _).setEntry e _
    rw [setEntry_setEntry]
    exact (setEntry_eq_self (visit.live.trans (by rw [← free]))).symm
  | dropped visit free loaded closed unreferenced drop above =>
    rw [drop.toCache] at above
    simp only [visit.at_, visit.live, free, loaded, closed, unreferenced, Bool.false_eq_true, if_false, Bool.not_true,
      if_true, goOn, above, drop.toCache]
  | droppedLast visit free loaded closed unreferenced drop below =>
    have htail' := drop.wellLinked.threads.tail
    rw [drop.toCache] at below htail'
    simp only [visit.at_, visit.live, free, loaded, closed, unreferenced, Bool.false_eq_true, if_false, Bool.not_true,
      if_true, goOn, below, drop.toCache, htail', Ends]

/-- A pass through the links is a pass through the list, and leaves it well
linked. -/
theorem evictLoop_links (h : WellLinked s) (n : Nat) (hc : ∀ e, current = some e → e ∈ s.linked) :
    WellLinked (CacheList.evictLoop n current s).2 ∧ (CacheList.evictLoop n current s).1 ≠ .dangling ∧
      evictLoop n current s.toCache =
        ((CacheList.evictLoop n current s).2.toCache, Ends (CacheList.evictLoop n current s).1) := by
  induction n generalizing current s with
  | zero => exact ⟨h, by simp [CacheList.evictLoop], rfl⟩
  | succ n ih =>
    have hi := iteration_evictIter h hc
    rw [CacheList.evictLoop, hi.toCache h n]
    generalize hr : evictIter current s = r at hi
    obtain ⟨next, s'⟩ := r
    cases next with
    | go c => exact ih (hi.wellLinked h) (hi.current_linked h rfl)
    | stop pass =>
      refine ⟨hi.wellLinked h, ?_, rfl⟩
      rintro rfl
      cases hi

/-- The cache at the first iteration. -/
theorem WellLinked.start (h : WellLinked s) {head : Nat} (hhead : s.list.head = some head) :
    WellLinked { s with acts := [], clockHand := s.clockHand <|> some head } := by
  refine h.congr rfl rfl rfl (fun x hx => ?_) fun _ hx => hx
  cases hhand : s.clockHand with
  | some y =>
    rw [hhand] at hx
    exact h.hand x (hhand.trans hx)
  | none =>
    rw [hhand] at hx
    obtain rfl := Option.some.inj hx
    exact List.mem_of_head? (h.threads.head.symm.trans hhead)

theorem evict_links (h : WellLinked s) :
    WellLinked (CacheList.tcMapCacheEvict s).2 ∧ (CacheList.tcMapCacheEvict s).1 ≠ .dangling ∧
      (CacheList.settle (CacheList.tcMapCacheEvict s)).toCache = tcMapCacheEvict s.toCache := by
  have hhead := h.threads.head
  have htail := h.threads.tail
  rw [CacheList.tcMapCacheEvict, tcMapCacheEvict]
  cases hlinked : s.linked with
  | nil =>
    rw [hlinked] at hhead
    simp only [hhead, List.head?_nil]
    exact ⟨⟨h.threads, h.live, h.count, h.hand⟩, by simp, rfl⟩
  | cons head rest =>
    rw [hlinked] at hhead
    simp only [hhead, List.head?_cons]
    rw [← hlinked, ← htail]
    have hset := h.start hhead
    have hcurrent : ∀ e, s.list.tail = some e → e ∈ s.linked := fun e he =>
      List.mem_of_getLast? (htail.symm.trans he)
    obtain ⟨hwell, hsafe, hsame⟩ := evictLoop_links hset (maxIters s.numEntries) hcurrent
    refine ⟨hwell, hsafe, ?_⟩
    rw [hsame]
    generalize CacheList.evictLoop _ _ _ = r
    obtain ⟨pass, s'⟩ := r
    cases pass <;> rfl

end TC.Proof.Cache
