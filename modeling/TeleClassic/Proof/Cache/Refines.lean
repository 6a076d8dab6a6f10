import TeleClassic.Proof.Cache.Creation
import TeleClassic.Proof.Map

/-!
# The cache in memory does what the cache with a list does

From a cache that is well linked each step of the two comes to the same, and
leaves it well linked (`linkedStep_simulates`). A step that follows no links leaves
alone what `WellLinked` is about (`outline`), a creation of an entry and an eviction
are those of `Creation.lean` and `Links.lean`. So what is
known of the runs of the cache with a list holds in memory (`run_toCache`), and in
every state the list is in order (`list_in_order`).
-/

namespace TC.Proof.Cache

open TC.Impl TC.Impl.TaskBacklog TC.Impl.MapCache
open TC.Impl.CacheList (LinkedCache evictIter linkedStep afterCall)

/-! ## Steps that follow no links -/

/-- What `WellLinked` looks at, but for the links. -/
def outline (s : Cache) : List Nat × Nat × Option Nat × (Nat → Bool) :=
  (s.linked, s.numEntries, s.clockHand, fun e => (s.entries e).isSome)

theorem isSome_setEntry {s : Cache} {e : Nat} {en : Entry} (live : s.entries e = some en) (en' : Entry) :
    (fun x => ((s.setEntry e (some en')).entries x).isSome) = fun x => (s.entries x).isSome := by
  funext x
  by_cases hx : x = e
  · subst hx
    rw [setEntry_self, live]
    rfl
  · rw [setEntry_of_ne s _ hx]

theorem outline_setEntry {s : Cache} {e : Nat} {en : Entry} (live : s.entries e = some en) (en' : Entry) :
    outline (s.setEntry e (some en')) = outline s :=
  congrArg (fun entries => (s.linked, s.numEntries, s.clockHand, entries)) (isSome_setEntry live en')

theorem outline_calm (s : Cache) : outline (calm s) = outline s := by
  simp [outline, calm]

theorem outline_step {sizes : Sizes} {s s' : Cache} {l : Label} (h : Step sizes s l s')
    (hu : ∀ i c alloc, l ≠ .upgrade i c alloc) (hc : l ≠ .check) : outline s' = outline s := by
  cases h with
  | wait => rfl
  | found at_ live =>
    have hopened := outline_setEntry (s := { s with nextRequest := s.nextRequest + 1 }) live
    exact hopened _
  | upgraded => exact absurd rfl (hu _ _ _)
  | create => exact absurd rfl (hu _ _ _)
  | @invoke i o c waiting =>
    exact (of_calm outline_calm (calm_invokeHandler c o _)).trans rfl
  | @loadFailed e =>
    rw [of_calm outline_calm calm_backlogFailed]
    rfl
  | @loaded e m outcomes en pending live =>
    rw [of_calm outline_calm calm_backlogLoaded]
    exact outline_setEntry (s := { s with pendingLoads := s.pendingLoads.erase e, checking := s.checking + 1 }) live _
  | check => exact absurd rfl hc
  | @ref e => exact (of_calm outline_calm ((counting_ref e).calm s) :)
  | @unref e => exact (of_calm outline_calm ((counting_unref e).calm s) :)
  | write live => exact outline_setEntry live _

theorem WellLinked.of_outline {s : LinkedCache} (h : WellLinked s) {t : Cache}
    (ht : outline t = outline s.toCache) : WellLinked { s with toCache := t } := by
  obtain ⟨hlinked, hcount, hhand, hlive⟩ : t.linked = s.linked ∧ t.numEntries = s.numEntries ∧
      t.clockHand = s.clockHand ∧ (fun e => (t.entries e).isSome) = fun e => (s.entries e).isSome := by
    simpa [outline] using ht
  refine h.congr rfl hlinked hcount (fun e he => h.hand e (hhand.symm.trans he)) fun e he => ?_
  have hsome : (t.entries e).isSome = (s.entries e).isSome := congrFun hlive e
  rw [← Option.isSome_iff_ne_none] at he ⊢
  exact hsome.trans he

/-! ## Steps -/

section

variable {sizes : Sizes} {s : LinkedCache} (h : WellLinked s) (hwf : (store s.toCache).Wf)

include h hwf

/-- The creation of an entry: the list in memory stays well linked, and the cache
with a list does the same. -/
theorem create_toCache (call : Open) (c : Creation) (alloc : Bool) :
    WellLinked (afterCall (CacheList.createEntry sizes call { creation := c, alloc, dispatch := .noArgs }
      (.start s .writing))) ∧
    (afterCall (CacheList.createEntry sizes call { creation := c, alloc, dispatch := .noArgs }
      (.start s .writing))).toCache = createEntry sizes call c s.toCache := by
  have hfresh : s.nextEntry ∉ s.linked := hwf.nextEntry_not_mem_linked
  have hdead : s.entries s.nextEntry = none := by
    have hnot := mt (hwf.linked_iff s.nextEntry).mpr hfresh
    simpa [store] using hnot
  by_cases hs : c = .scheduled
  · subst hs
    obtain ⟨heap, hheap, hlinked, hsame⟩ := publishEntry_scheduled sizes call .writing
      (o := ⟨.scheduled, alloc, .noArgs⟩) rfl h hfresh
    rw [createEntry_allocated sizes call s .writing (.inl rfl), hheap]
    exact ⟨hlinked, hsame⟩
  by_cases hn : c = .notScheduled
  · subst hn
    obtain ⟨heap, hheap, hlinked, hsame⟩ := publishEntry_unlinked sizes call .writing
      (o := ⟨.notScheduled, alloc, .noArgs⟩) rfl h hfresh hdead
    rw [createEntry_allocated sizes call s .writing (.inr rfl), hheap]
    refine ⟨⟨hlinked.threads, hlinked.live, hlinked.count, hlinked.hand⟩, ?_⟩
    show { heap.cache.toCache with crashed := true } = _
    rw [hsame]
    rfl
  · have hundone := createEntry_fails sizes call s .writing (o := ⟨c, alloc, .noArgs⟩) hs hn
    generalize CacheList.createEntry sizes call ⟨c, alloc, .noArgs⟩ (.start s .writing) = r at hundone
    obtain ⟨result, heap⟩ := r
    obtain rfl : result = some () := hundone.returns
    rw [afterCall, show heap.cache = _ from hundone.cache]
    refine ⟨⟨h.threads, h.live, h.count, h.hand⟩, ?_⟩
    cases c with
    | scheduled => exact absurd rfl hs
    | notScheduled => exact absurd rfl hn
    | _ => rfl

/-- What a step of the cache in memory has to do with a step of the cache with a
list. -/
def Simulates (r : Option LinkedCache) (r' : Option Cache) : Prop :=
  r.map LinkedCache.toCache = r' ∧ ∀ t, r = some t → WellLinked t

theorem simulates_upgrade (i : Nat) (c : Creation) (alloc : Bool) :
    Simulates (CacheList.scheduleOpenUpgraded sizes i c alloc s) (scheduleOpenUpgraded sizes i c alloc s.toCache) := by
  rw [CacheList.scheduleOpenUpgraded, scheduleOpenUpgraded]
  split
  · cases hcall : s.upgrading[i]? with
    | none => exact ⟨rfl, fun t ht => by cases ht⟩
    | some call =>
      cases hindex : s.idToIndex call.name with
      | some e =>
        simp only [hindex]
        cases hopen : tcMapCacheOpenFromEntry call e true alloc { s.toCache with upgrading := s.upgrading.eraseIdx i } with
        | none => exact ⟨rfl, fun t ht => by cases ht⟩
        | some t =>
          obtain ⟨en, live, rfl⟩ := openFromEntry_eq hopen
          refine ⟨rfl, fun t ht => ?_⟩
          obtain rfl := Option.some.inj ht
          have hopened := outline_setEntry (s := { s.toCache with upgrading := s.upgrading.eraseIdx i }) live
          exact h.of_outline (hopened _)
      | none =>
        obtain ⟨hlinked, hsame⟩ := create_toCache
          (s := { s with upgrading := s.upgrading.eraseIdx i }) ⟨h.threads, h.live, h.count, h.hand⟩ hwf
          call c alloc
        simp only [hindex]
        refine ⟨congrArg some hsame, fun t' ht' => ?_⟩
        obtain rfl := Option.some.inj ht'
        exact hlinked
  · exact ⟨rfl, fun t ht => by cases ht⟩

omit hwf in
theorem simulates_check : Simulates (CacheList.checkEviction s) (checkEviction s.toCache) := by
  rw [CacheList.checkEviction, checkEviction]
  split
  · dsimp only
    split
    · obtain ⟨hlinked, -, hsame⟩ := evict_links (s := { s with checking := s.checking - 1 })
        ⟨h.threads, h.live, h.count, h.hand⟩
      refine ⟨congrArg some hsame, fun t ht => ?_⟩
      obtain rfl := Option.some.inj ht
      generalize CacheList.tcMapCacheEvict _ = r at hlinked
      obtain ⟨pass, s'⟩ := r
      cases pass <;> exact ⟨hlinked.threads, hlinked.live, hlinked.count, hlinked.hand⟩
    · refine ⟨rfl, fun t ht => ?_⟩
      obtain rfl := Option.some.inj ht
      exact ⟨h.threads, h.live, h.count, h.hand⟩
  · exact ⟨rfl, fun t ht => by cases ht⟩

omit hwf in
theorem simulates_rest {l : Label} (hu : ∀ i c alloc, l ≠ .upgrade i c alloc) (hc : l ≠ .check) :
    Simulates ((cacheStep sizes s.toCache l).map fun t => { s with toCache := t }) (cacheStep sizes s.toCache l) := by
  cases hstep : cacheStep sizes s.toCache l with
  | none => exact ⟨rfl, fun t ht => by cases ht⟩
  | some t =>
    refine ⟨rfl, fun t' ht => ?_⟩
    obtain rfl := Option.some.inj ht
    exact h.of_outline (outline_step (step_of_cacheStep hstep) hu hc)

theorem linkedStep_simulates (l : Label) : Simulates (linkedStep sizes s l) (cacheStep sizes s.toCache l) := by
  unfold linkedStep
  by_cases hcrashed : s.crashed = true
  · unfold cacheStep
    rw [if_pos hcrashed, if_pos hcrashed]
    exact ⟨rfl, fun t ht => by cases ht⟩
  rw [if_neg hcrashed]
  cases l with
  | upgrade i c alloc =>
    unfold cacheStep
    rw [if_neg hcrashed]
    exact simulates_upgrade h hwf i c alloc
  | check =>
    unfold cacheStep
    rw [if_neg hcrashed]
    exact simulates_check h
  | _ => exact simulates_rest h (fun _ _ _ hl => by cases hl) (fun hl => by cases hl)

end

/-! ## Runs -/

theorem wellLinked_init (threshold : BitVec 64) : WellLinked (CacheList.tcMapCacheInit threshold) where
  threads := LinkedList.threads_empty
  live e he := absurd he List.not_mem_nil
  count := rfl
  hand e he := by cases he

/-- A run in memory is a run of the cache with a list, and every state is well
linked. -/
theorem run_toCache {sizes : Sizes} {threshold : BitVec 64} {ls : List Label} {s : LinkedCache}
    (hrun : run (linkedStep sizes) (CacheList.tcMapCacheInit threshold) ls = some s) :
    run (cacheStep sizes) (tcMapCacheInit threshold) ls = some s.toCache ∧ WellLinked s := by
  have hinv : ∀ (ls : List Label) (s₀ s : LinkedCache), WellLinked s₀ → (store s₀.toCache).Wf →
      run (linkedStep sizes) s₀ ls = some s → run (cacheStep sizes) s₀.toCache ls = some s.toCache ∧ WellLinked s := by
    intro ls
    induction ls with
    | nil =>
      intro s₀ s h _ hrun
      obtain rfl := Option.some.inj hrun
      exact ⟨rfl, h⟩
    | cons l ls ih =>
      intro s₀ s h hwf hrun
      obtain ⟨s₁, hstep, hrest⟩ := run_cons.mp hrun
      obtain ⟨hsame, hlinked⟩ := linkedStep_simulates h hwf l
      rw [hstep] at hsame
      have hwf₁ := hwf.performs (store_step (step_of_cacheStep hsame.symm))
      obtain ⟨hcache, hwell⟩ := ih s₁ s (hlinked s₁ hstep) hwf₁ hrest
      exact ⟨run_cons.mpr ⟨s₁.toCache, hsame.symm, hcache⟩, hwell⟩
  exact hinv ls _ s (wellLinked_init threshold) (wf_init threshold) hrun

/-! ## The list -/

/-- Both ways through the list give the linked entries, which are distinct,
exist and are counted, there is nothing before the head and after the tail, and
the clock hand is on a linked entry. -/
structure InOrder (s : LinkedCache) : Prop where
  distinct : s.linked.Nodup
  live : ∀ e ∈ s.linked, s.list.cells e ≠ none ∧ s.entries e ≠ none
  forward : ∀ n, s.linked.length ≤ n → LinkedList.walk s.list.next n s.list.head = s.linked
  backward : ∀ n, s.linked.length ≤ n → LinkedList.walk s.list.prev n s.list.tail = s.linked.reverse
  head : ∀ e, s.list.head = some e → s.list.prev e = none
  tail : ∀ e, s.list.tail = some e → s.list.next e = none
  ends : s.list.head = none ↔ s.list.tail = none
  count : s.numEntries = s.linked.length
  hand : ∀ e, s.clockHand = some e → e ∈ s.linked

theorem inOrder_iff {s : LinkedCache} : InOrder s ↔ WellLinked s := by
  constructor
  · intro h
    exact ⟨LinkedList.threads_iff.mpr ⟨h.distinct, fun e he => (h.live e he).1, h.forward, h.backward⟩,
      fun e he => Option.ne_none_iff_exists'.mp (h.live e he).2, h.count, h.hand⟩
  · intro h
    obtain ⟨hnodup, hcells, hforward, hbackward⟩ := LinkedList.threads_iff.mp h.threads
    refine ⟨hnodup, fun e he => ⟨hcells e he, ?_⟩, hforward, hbackward, fun _ => h.threads.prev_head,
      fun _ => h.threads.next_tail, h.threads.head_eq_none, h.count, h.hand⟩
    obtain ⟨en, hen⟩ := h.live e he
    simp [hen]

/-- The list is in order in every state of every run. It stays so when a new
entry is linked, in every iteration of an eviction, none of which follows a link
of a freed entry, and when an entry is unlinked that the clock hand is not on. -/
theorem list_in_order (sizes : Sizes) (threshold : BitVec 64) :
    (∀ ls s, run (linkedStep sizes) (CacheList.tcMapCacheInit threshold) ls = some s → InOrder s) ∧
    (∀ s e, InOrder s → e ∉ s.linked → s.entries e ≠ none → s.list.cells e = some { prev := none, next := none } →
      ∃ s', CacheList.tcMapCacheLinkEntry e s = some s' ∧ InOrder s') ∧
    (∀ s e, InOrder s → e ∈ s.linked →
      ∃ s', CacheList.tcMapCacheUnlinkEntry e s = some s' ∧ (InOrder s' ↔ s.clockHand ≠ some e)) ∧
    (∀ s current, InOrder s → (∀ e, current = some e → e ∈ s.linked) →
      InOrder (evictIter current s).2 ∧ (evictIter current s).1 ≠ .stop .dangling ∧
        ∀ c, (evictIter current s).1 = .go c → ∀ e, c = some e → e ∈ (evictIter current s).2.linked) ∧
    (∀ s, InOrder s → InOrder (CacheList.tcMapCacheEvict s).2 ∧ (CacheList.tcMapCacheEvict s).1 ≠ .dangling) := by
  simp only [inOrder_iff]
  refine ⟨fun ls s hrun => (run_toCache hrun).2, fun s e h he hlive hnew => ?_, fun s e h he => ?_,
    fun s current h hc => ?_, fun s h => ⟨(evict_links h).1, (evict_links h).2.1⟩⟩
  · obtain ⟨en, hen⟩ := Option.ne_none_iff_exists'.mp hlive
    obtain ⟨s', hs', hlinked, -⟩ := h.link he hen hnew
    exact ⟨s', hs', hlinked⟩
  · obtain ⟨en, hen⟩ := h.live e he
    obtain ⟨s', hs', hlinked, hsame, -⟩ := h.unlink he hen
    have hhand : s'.clockHand = s.clockHand := by rw [hsame]; rfl
    have herased : s'.linked = s.linked.erase e := by rw [hsame]; rfl
    refine ⟨s', hs', fun hwell hon => ?_, fun hoff => hlinked s'.clockHand fun x hx => ?_⟩
    · have hmem := hwell.hand e (hhand.trans hon)
      rw [herased] at hmem
      exact (h.threads.nodup.mem_erase_iff.mp hmem).1 rfl
    · rw [hhand] at hx
      exact h.threads.nodup.mem_erase_iff.mpr ⟨fun hxe => hoff (hxe ▸ hx), h.hand x hx⟩
  · have hi := iteration_evictIter h hc
    refine ⟨hi.wellLinked h, fun hnext => ?_, fun c hnext => hi.current_linked h hnext⟩
    rw [hnext] at hi
    cases hi

/-- An eviction has left the clock hand on the one entry there is. Unlinking it,
by itself, leaves the clock hand on an entry that is freed. -/
theorem unlinked_under_hand :
    ∃ s s', run (linkedStep someSizes) (CacheList.tcMapCacheInit 0)
        [openLobby, .upgrade 0 .scheduled true, .load 0 (some Map.oneBlock) (fun _ => .accepted), .check] = some s ∧
      InOrder s ∧ 0 ∈ s.linked ∧ CacheList.tcMapCacheUnlinkEntry 0 s = some s' ∧ s'.linked = [] ∧
      s'.clockHand = some 0 ∧ ¬ InOrder s' := by
  obtain ⟨s, hs⟩ : ∃ s, run (linkedStep someSizes) (CacheList.tcMapCacheInit 0)
      [openLobby, .upgrade 0 .scheduled true, .load 0 (some Map.oneBlock) (fun _ => .accepted), .check] = some s :=
    ⟨_, rfl⟩
  have hlinked := (run_toCache hs).2
  obtain rfl := Option.some.inj hs
  refine ⟨_, _, rfl, inOrder_iff.mpr hlinked, List.mem_cons_self, rfl, rfl, rfl, fun h => ?_⟩
  exact absurd (h.hand 0 rfl) List.not_mem_nil

end TC.Proof.Cache
