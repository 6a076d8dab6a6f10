import TeleClassic.Proof.Cache.Links

/-!
# Creating an entry

What the program of `createEntry` comes to, by how far the creation gets. Where
an allocation or the push to the backlog fails, everything is as it was before
and the request has failed (`createEntry_fails`). Where the load task is
scheduled, the entry is linked (`publishEntry_scheduled`). Where the pool refuses
the load task, the entry is linked and unlinked, which frees it, and then the
lock of the freed entry is returned: the program stops (`publishEntry_refused`).
So a failed open leaves the cache as it was if and only if it does not come to
the pool (`failed_open_undone_iff`).
-/

namespace TC.Proof.Cache

open TC.Impl TC.Impl.TaskBacklog TC.Impl.MapCache
open TC.Impl.CacheList (LinkedCache Heap Outcomes RwLock OpenM onCache publishEntry unlinkNewEntry)

variable {o : Outcomes}

/-- A call that has failed and left nothing behind: it did not use or free what
is not allocated, the cache is as it was and its lock is free, what was allocated
is freed, and the failure handler was invoked once. -/
structure Undone (call : Open) (s : LinkedCache) (r : Option Unit × Heap) : Prop where
  returns : r.1 = some ()
  cache : r.2.cache = { s with trace := s.trace ++ [.failed call.request.id] }
  lock : r.2.lock = .free
  freed : ∀ x, r.2.status x ≠ .live

theorem onCache_of_some {f : LinkedCache → Option LinkedCache} {h : Heap} {s : LinkedCache} (hf : f h.cache = some s)
    (o : Outcomes) : onCache f o h = (some (), { h with cache := s }) := by
  rw [onCache, hf]

/-- A change of the cache, which may not be possible. -/
theorem meets_onCache {f : LinkedCache → Option LinkedCache} {k : Unit → OpenM Unit} {h : Heap}
    {Q : Unit → Heap → Prop} {R : Heap → Prop} (hnone : R h)
    (hsome : ∀ s, f h.cache = some s → Prog.Meets o { h with cache := s } (k ()) Q R) :
    Prog.Meets o h (onCache f >>= k) Q R := by
  cases hf : f h.cache with
  | none => exact Prog.meets_of_none (Prog.bind_of_none (by rw [onCache, hf])) hnone
  | some s => exact Prog.meets_bind_of_some (onCache_of_some hf o) (hsome s hf)

section

variable (sizes : Sizes) (call : Open) (s : LinkedCache) (lock : RwLock)

/-- An allocation or the push to the backlog fails. -/
theorem createEntry_fails (hs : o.creation ≠ .scheduled) (hn : o.creation ≠ .notScheduled) :
    Undone call s (CacheList.createEntry sizes call o (.start s lock)) := by
  obtain ⟨c, alloc, dispatch⟩ := o
  cases c with
  | scheduled => exact absurd rfl hs
  | notScheduled => exact absurd rfl hn
  | noEntry | noLock | noKey | noArgs | noBlock =>
    refine ⟨rfl, rfl, rfl, fun x hx => ?_⟩
    cases x <;> cases hx

/-- Everything is allocated. -/
def allocated : Heap := { Heap.start s lock with status := fun _ => .live }

theorem createEntry_allocated (h : o.creation = .scheduled ∨ o.creation = .notScheduled) :
    CacheList.createEntry sizes call o (.start s lock) =
      publishEntry sizes call s.nextEntry o (allocated s lock) := by
  have hstatus : (Function.update (Function.update (Function.update (Function.update (Function.update
      (fun _ => CacheList.Status.unallocated) .entry .live) .mutex .live) .key .live) .args .live) .block .live) =
        fun _ : CacheList.Resource => CacheList.Status.live := by
    funext x
    cases x <;> rfl
  obtain ⟨c, alloc, dispatch⟩ := o
  rw [allocated, ← hstatus]
  obtain rfl | rfl := h
  · rfl
  · rfl

/-- The pool refuses the load task: the unlinked entry is freed, and then the
program stops. -/
theorem publishEntry_refused (h : o.creation = .notScheduled) (e : Nat) :
    (publishEntry sizes call e o (allocated s lock)).1 = none := by
  have hrefused : ∀ heap, CacheList.scheduleLoad e o heap = (some false, heap) := fun _ => if_pos h
  have hstops : Prog.Meets o (allocated s lock) (publishEntry sizes call e) (fun _ _ => False) fun _ => True := by
    refine Prog.meets_bind_of_some rfl (Prog.meets_bind_of_some rfl (Prog.meets_bind_of_some rfl ?_))
    refine meets_onCache trivial fun s₁ _ => Prog.meets_bind_of_some (hrefused _) ?_
    refine Prog.meets_bind (Q := fun _ heap => heap.status .entry = .freed) ?_ fun _ heap hfreed => ?_
    · refine Prog.meets_bind_of_some rfl (meets_onCache trivial fun s₂ _ => ?_)
      exact Prog.meets_of_some rfl rfl
    · have hstop : CacheList.use .entry o heap = (none, heap) := by
        rw [CacheList.use, hfreed]
        rfl
      exact Prog.meets_of_none (Prog.bind_of_none hstop) trivial
  exact Option.eq_none_iff_forall_ne_some.mpr fun a ha => hstops.1 a ha

/-- The entry, its mutex and its key are freed. -/
def entryFreed : CacheList.Resource → CacheList.Status :=
  Function.update (Function.update (Function.update (fun _ => .live) .mutex .freed) .key .freed) .entry .freed

/-- The pool accepts the load task: the cache is as the one with a list. -/
theorem publishEntry_scheduled (hscheduled : o.creation = .scheduled) {s : LinkedCache} (h : WellLinked s)
    (hfresh : s.nextEntry ∉ s.linked) :
    ∃ heap, publishEntry sizes call s.nextEntry o (allocated s lock) = (some (), heap) ∧ WellLinked heap.cache ∧
      heap.cache.toCache = createEntry sizes call .scheduled s.toCache := by
  have haccepted : ∀ heap, CacheList.scheduleLoad s.nextEntry o heap = (some true, { heap with cache := { heap.cache with
      pendingLoads := heap.cache.pendingLoads ++ [s.nextEntry]
      nextEntry := s.nextEntry + 1 } }) := fun _ => if_neg (by rw [hscheduled]; decide)
  obtain ⟨s₁, hlink, hlinked, htoCache, -⟩ := (h.alloc hfresh { newEntry sizes call with locked := true }).link hfresh
    (setEntry_self ..) (LinkedList.cells_alloc ..)
  have hthen : publishEntry sizes call s.nextEntry o (allocated s lock) = (some (), { allocated s lock with
      cache := { s₁ with
        pendingLoads := s₁.pendingLoads ++ [s.nextEntry]
        nextEntry := s.nextEntry + 1 }.setEntry s.nextEntry (some (newEntry sizes call))
      lock := .free }) := by
    refine Eq.trans (Prog.bind_of_some rfl) (Eq.trans (Prog.bind_of_some rfl) (Eq.trans (Prog.bind_of_some rfl) ?_))
    refine Eq.trans (Prog.bind_of_some (onCache_of_some hlink o)) (Eq.trans (Prog.bind_of_some (haccepted _)) ?_)
    rfl
  refine ⟨_, hthen, ?_, ?_⟩
  · have hnext : WellLinked { s₁ with
        pendingLoads := s₁.pendingLoads ++ [s.nextEntry]
        nextEntry := s.nextEntry + 1 } := ⟨hlinked.threads, hlinked.live, hlinked.count, hlinked.hand⟩
    exact hnext.setEntry s.nextEntry (newEntry sizes call) s₁.acts
  · have hcache : ({ s₁ with
        pendingLoads := s₁.pendingLoads ++ [s.nextEntry]
        nextEntry := s.nextEntry + 1 }.setEntry s.nextEntry (some (newEntry sizes call))).toCache =
      Cache.setEntry { s₁.toCache with
        pendingLoads := s₁.toCache.pendingLoads ++ [s.nextEntry]
        nextEntry := s.nextEntry + 1 } s.nextEntry (some (newEntry sizes call)) := rfl
    rw [hcache, htoCache]
    simp [createEntry, tcMapCacheLinkEntry, Cache.setEntry, LinkedCache.setEntry, newEntry]

/-- The pool refuses the load task: in the end the list is as it was. -/
theorem publishEntry_unlinked (hrefused : o.creation = .notScheduled) {s : LinkedCache} (h : WellLinked s)
    (hfresh : s.nextEntry ∉ s.linked) (hdead : s.entries s.nextEntry = none) :
    ∃ heap, publishEntry sizes call s.nextEntry o (allocated s lock) = (none, heap) ∧ WellLinked heap.cache ∧
      heap.cache.toCache = s.toCache := by
  have hrefuses : ∀ heap, CacheList.scheduleLoad s.nextEntry o heap = (some false, heap) := fun _ => if_pos hrefused
  obtain ⟨s₁, hlink, hlinked, htoCache₁, -⟩ := (h.alloc hfresh { newEntry sizes call with locked := true }).link hfresh
    (setEntry_self ..) (LinkedList.cells_alloc ..)
  have hmem : s.nextEntry ∈ s₁.linked := by
    rw [htoCache₁]
    exact List.mem_cons_self
  have hlive : s₁.entries s.nextEntry = some { newEntry sizes call with locked := true } := by
    rw [htoCache₁]
    exact setEntry_self ..
  obtain ⟨s₂, hunlink, hunlinked, htoCache₂, -⟩ := hlinked.unlink hmem hlive
  have hstops : publishEntry sizes call s.nextEntry o (allocated s lock) =
      (none, { cache := s₂, status := entryFreed, lock := lock }) := by
    refine Eq.trans (Prog.bind_of_some rfl) (Eq.trans (Prog.bind_of_some rfl) (Eq.trans (Prog.bind_of_some rfl) ?_))
    refine Eq.trans (Prog.bind_of_some (onCache_of_some hlink o)) (Eq.trans (Prog.bind_of_some (hrefuses _)) ?_)
    have hfree : unlinkNewEntry s.nextEntry o { allocated s lock with cache := s₁ } =
        (some (), { cache := s₂, status := entryFreed, lock := lock }) :=
      Eq.trans (Prog.bind_of_some rfl) (Prog.bind_of_some (onCache_of_some hunlink o))
    exact Eq.trans (Prog.bind_of_some hfree) rfl
  have hsame : s₂.toCache = s.toCache := by
    have hentries : Function.update s.entries s.nextEntry none = s.entries := by rw [← hdead, Function.update_eq_self]
    rw [htoCache₂, htoCache₁]
    simp [tcMapCacheUnlinkEntry, Cache.setEntry, LinkedCache.setEntry, hentries]
  refine ⟨_, hstops, hunlinked s₂.clockHand fun x hx => ?_, hsame⟩
  rw [hsame] at hx
  rw [htoCache₁]
  simpa [LinkedCache.setEntry, Cache.setEntry] using h.hand x hx

end

/-! ## A call -/

/-- The call as it is where its name has no entry. -/
theorem scheduleOpen_absent {sizes : Sizes} {call : Open} {s : LinkedCache} (habsent : s.idToIndex call.name = none)
    (o : Outcomes) : CacheList.tcMapCacheScheduleOpen sizes call o (.start s .free) =
      CacheList.createEntry sizes call o (.start s .writing) := by
  refine Eq.trans (Prog.bind_of_some rfl) (Eq.trans (Prog.bind_of_some rfl) ?_)
  dsimp only [Heap.start]
  rw [habsent]
  refine Eq.trans (Prog.bind_of_some rfl) (Eq.trans (Prog.bind_of_some rfl) (Eq.trans (Prog.bind_of_some rfl) ?_))
  dsimp only
  rw [habsent]

/-- An open of a name without an entry that fails leaves the cache as it was if
and only if it was not the pool that refused the load task. -/
theorem failed_open_undone_iff {sizes : Sizes} {call : Open} {s : LinkedCache} {o : Outcomes}
    (habsent : s.idToIndex call.name = none) (hfails : o.creation ≠ .scheduled) :
    Undone call s (CacheList.tcMapCacheScheduleOpen sizes call o (.start s .free)) ↔ o.creation ≠ .notScheduled := by
  rw [scheduleOpen_absent habsent]
  constructor
  · intro h hrefused
    have hreturns := h.returns
    rw [createEntry_allocated sizes call s .writing (.inr hrefused), publishEntry_refused sizes call s .writing hrefused]
      at hreturns
    cases hreturns
  · exact createEntry_fails sizes call s .writing hfails

def lobbyCall : Open := { request := { id := 0, priority := .medium }, name := "lobby.cw", current := none }

/-- In a cache of two entries, the backlog of a third one cannot be allocated. -/
theorem failed_open_undone_iff_noBlock :
    ∃ s, run (CacheList.linkedStep someSizes) (CacheList.tcMapCacheInit 0)
        [openLobby, .upgrade 0 .scheduled true, openLobby, .upgrade 0 .scheduled true] = some s ∧ s.linked = [1, 0] ∧
      Undone lobbyCall s (CacheList.tcMapCacheScheduleOpen someSizes lobbyCall ⟨.noBlock, true, .noArgs⟩ (.start s .free)) := by
  obtain ⟨s, hs, hlinked, habsent⟩ : ∃ s, run (CacheList.linkedStep someSizes) (CacheList.tcMapCacheInit 0)
      [openLobby, .upgrade 0 .scheduled true, openLobby, .upgrade 0 .scheduled true] = some s ∧ s.linked = [1, 0] ∧
      s.idToIndex lobbyCall.name = none := ⟨_, rfl, rfl, rfl⟩
  exact ⟨s, hs, hlinked, (failed_open_undone_iff habsent (by decide)).mpr (by decide)⟩

/-- The pool refuses the load task: the entry, its mutex and its key are freed,
the arguments and the block of the backlog are not, the lock of the cache is held,
the failure handler was not invoked, and the call comes to use the freed entry. -/
theorem refused_load_freed :
    ∃ heap, CacheList.tcMapCacheScheduleOpen someSizes lobbyCall ⟨.notScheduled, true, .noArgs⟩
        (.start (CacheList.tcMapCacheInit 0) .free) = (none, heap) ∧
      heap.status .entry = .freed ∧ heap.status .mutex = .freed ∧ heap.status .key = .freed ∧
      heap.status .args = .live ∧ heap.status .block = .live ∧ heap.lock = .writing ∧ heap.cache.trace = [] ∧
      ¬ Undone lobbyCall (CacheList.tcMapCacheInit 0) (none, heap) :=
  ⟨_, rfl, rfl, rfl, rfl, rfl, rfl, rfl, rfl, fun h => by cases h.returns⟩

end TC.Proof.Cache
