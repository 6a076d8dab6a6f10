import TeleClassic.Proof.Cache.Store

/-!
# The index and the list of the map cache

Nothing ever enters a name in `id_to_index`: the only change is the removal in
`tc_map_cache_evict`. So the index stays empty, every open of a name makes an
entry of its own (`opened_twice`), and the index and the list agree only while
no entry is linked (`agrees_iff`). `index_agrees_iff` says which runs these are.
-/

namespace TC.Proof.Cache

open TC.Impl.Map TC.Impl.MapCache

variable {v : Store} {sizes : Sizes} {e : Nat} {s : Cache} {x : Stored} {l : Label} {ls : List Label}
  {v' : Store}

/-- The entries that exist are those that are linked, and the loads to come are
those of entries without a map. -/
structure Store.Wf (v : Store) : Prop where
  nodup : v.linked.Nodup
  linked_iff : ∀ e, e ∈ v.linked ↔ (v.entries e).isSome
  fresh : ∀ e ∈ v.linked, e < v.nextEntry
  pendingNodup : v.pendingLoads.Nodup
  pending : ∀ e ∈ v.pendingLoads, ∃ x, v.entries e = some x ∧ x.map = none

/-- No name is in the index. -/
def Store.Unindexed (v : Store) : Prop := ∀ name, v.idToIndex name = none

namespace Store

theorem set_entries_self (v : Store) (e : Nat) (x : Option Stored) : (v.set e x).entries e = x :=
  Function.update_self ..

theorem set_entries_of_ne (v : Store) {e' : Nat} (x : Option Stored) (h : e' ≠ e) :
    (v.set e x).entries e' = v.entries e' :=
  Function.update_of_ne h ..

theorem isSome_set_entries (h : v.entries e = some x) (x' : Stored) (e' : Nat) :
    ((v.set e (some x')).entries e').isSome = (v.entries e').isSome := by
  by_cases he : e' = e
  · subst he
    rw [set_entries_self, h]
    rfl
  · rw [set_entries_of_ne v _ he]

/-! ## The next entry and the loads to come -/

section

variable (h : v.Wf)

include h

theorem Wf.nextEntry_not_mem_linked : v.nextEntry ∉ v.linked := fun hmem => Nat.lt_irrefl _ (h.fresh _ hmem)

theorem Wf.ne_nextEntry (he : (v.entries e).isSome) : e ≠ v.nextEntry := by
  rintro rfl
  exact h.nextEntry_not_mem_linked ((h.linked_iff _).mpr he)

theorem Wf.nextEntry_not_mem_pendingLoads : v.nextEntry ∉ v.pendingLoads := by
  intro hmem
  obtain ⟨x, hx, -⟩ := h.pending _ hmem
  exact h.ne_nextEntry (by rw [hx]; rfl) rfl

theorem Wf.map_of_pending (he : e ∈ v.pendingLoads) (hx : v.entries e = some x) : x.map = none := by
  obtain ⟨y, hy, hmap⟩ := h.pending e he
  rw [hx] at hy
  cases hy
  exact hmap

end

/-! ## What the steps keep -/

theorem Wf.link (h : v.Wf) (sizes : Sizes) (name : String) : (v.link sizes name).Wf := by
  refine ⟨List.nodup_cons.mpr ⟨h.nextEntry_not_mem_linked, h.nodup⟩, fun e => ?_, fun e he => ?_, ?_, fun e he => ?_⟩
  · show e ∈ v.nextEntry :: v.linked ↔ ((v.set _ _).entries e).isSome
    by_cases he : e = v.nextEntry
    · subst he
      simp [set_entries_self]
    · rw [set_entries_of_ne v _ he, ← h.linked_iff e, List.mem_cons]
      simp [he]
  · obtain rfl | he := List.mem_cons.mp he
    · exact Nat.lt_succ_self _
    · exact Nat.lt_succ_of_lt (h.fresh e he)
  · show (v.pendingLoads ++ [v.nextEntry]).Nodup
    rw [List.nodup_append]
    refine ⟨h.pendingNodup, List.nodup_singleton _, fun a ha b hb => ?_⟩
    rw [List.mem_singleton.mp hb]
    rintro rfl
    exact h.nextEntry_not_mem_pendingLoads ha
  · show ∃ x, (v.set _ _).entries e = some x ∧ _
    obtain he | he := List.mem_append.mp he
    · rw [set_entries_of_ne v _ (by rintro rfl; exact h.nextEntry_not_mem_pendingLoads he)]
      exact h.pending e he
    · rw [List.mem_singleton.mp he, set_entries_self]
      exact ⟨_, rfl, rfl⟩

theorem Wf.unpend (h : v.Wf) (e : Nat) : (v.unpend e).Wf where
  nodup := h.nodup
  linked_iff := h.linked_iff
  fresh := h.fresh
  pendingNodup := h.pendingNodup.erase e
  pending := fun e' he' => h.pending e' (List.mem_of_mem_erase he')

/-- Another map in an entry whose load is not to come. -/
theorem Wf.set (h : v.Wf) (hx : v.entries e = some x) (x' : Stored) (he : e ∉ v.pendingLoads) :
    (v.set e (some x')).Wf where
  nodup := h.nodup
  linked_iff := fun e' => (h.linked_iff e').trans (by rw [isSome_set_entries hx])
  fresh := h.fresh
  pendingNodup := h.pendingNodup
  pending := fun e' he' => by
    rw [set_entries_of_ne v _ (by rintro rfl; exact he he')]
    exact h.pending e' he'

theorem Wf.drop (h : v.Wf) (hx : v.entries e = some x) (hloaded : x.map.isSome) : (v.drop e x).Wf := by
  refine ⟨h.nodup.erase e, fun e' => ?_, fun e' he' => h.fresh e' (List.mem_of_mem_erase he'),
    h.pendingNodup, fun e' he' => ?_⟩
  · show e' ∈ v.linked.erase e ↔ ((v.set e none).entries e').isSome
    rw [h.nodup.mem_erase_iff]
    by_cases he : e' = e
    · subst he
      simp [set_entries_self]
    · rw [set_entries_of_ne v _ he, ← h.linked_iff e']
      simp [he]
  · have he : e' ≠ e := by
      rintro rfl
      rw [h.map_of_pending he' hx] at hloaded
      cases hloaded
    obtain ⟨y, hy, hmap⟩ := h.pending e' he'
    exact ⟨y, (set_entries_of_ne v none he).trans hy, hmap⟩

theorem Wf.drops (h : v.Wf) (hd : Relation.ReflTransGen Drops v v') : v'.Wf := by
  induction hd with
  | refl => exact h
  | tail _ hd ih =>
    cases hd with
    | drop live loaded => exact ih.drop live loaded

theorem Wf.write (h : v.Wf) {m : TcMap} (hx : v.entries e = some x) (hm : x.map = some m) (m' : TcMap)
    (w : BlockWrite) : (v.write e x m' w).Wf := by
  have he : e ∉ v.pendingLoads := by
    intro hmem
    rw [h.map_of_pending hmem hx] at hm
    cases hm
  have hset := h.set hx { x with map := some m' } he
  exact ⟨hset.nodup, hset.linked_iff, hset.fresh, hset.pendingNodup, hset.pending⟩

theorem Wf.performs (h : v.Wf) (hl : Performs sizes v v' l) : v'.Wf := by
  refine hl.keeps h (fun name _ => h.link sizes name) h.unpend (fun e m _ x _ _ hx => ?_)
    (fun u e x hu hx hloaded => hu.drop hx hloaded) (fun e w x m m' _ hx hm _ => h.write hx hm m' w)
  exact (h.unpend e).set hx _ h.pendingNodup.not_mem_erase

theorem Unindexed.performs (h : v.Unindexed) (hl : Performs sizes v v' l) : v'.Unindexed := by
  refine hl.keeps h (fun _ _ => h) (fun _ => h) (fun _ _ _ _ _ _ _ => h) (fun u e x hu _ _ name => ?_)
    (fun _ _ _ _ _ _ _ _ _ => h)
  show (if _ then none else u.idToIndex name) = none
  rw [hu name, ite_self]

end Store

theorem isLoaded_of_pending (hwf : (store s).Wf) {en : Entry} (he : e ∈ s.pendingLoads)
    (live : s.entries e = some en) : en.isLoaded = false := by
  have hstored : (store s).entries e = some (stored en) := congrArg (Option.map stored) live
  have hmap : en.map = none := hwf.map_of_pending he hstored
  rw [Entry.isLoaded, hmap]
  rfl

/-- What every step keeps of the store holds in every state of a run. -/
theorem store_inv {P : Store → Prop} (hP : ∀ v v' l, P v → Store.Performs sizes v v' l → P v') {t : Cache}
    (hs : P (store s)) (hrun : run (cacheStep sizes) s ls = some t) : P (store t) := by
  have hstep : ∀ s l s', P (store s) → cacheStep sizes s l = some s' → P (store s') :=
    fun _ _ _ h hstep => hP _ _ _ h (store_step (step_of_cacheStep hstep))
  exact run_inv hstep hs hrun

theorem wf_init (threshold : BitVec 64) : (store (tcMapCacheInit threshold)).Wf where
  nodup := List.nodup_nil
  linked_iff := fun _ => by simp [store, tcMapCacheInit]
  fresh := fun _ h => absurd h List.not_mem_nil
  pendingNodup := List.nodup_nil
  pending := fun _ h => absurd h List.not_mem_nil

/-! ## Agreement -/

/-- The index maps a name to an entry if and only if the entry is linked with
that key, and no two linked entries have one key. -/
structure Agrees (s : Cache) : Prop where
  index : ∀ name e, s.idToIndex name = some e ↔ e ∈ s.linked ∧ ∃ en, s.entries e = some en ∧ en.key = name
  keys : ∀ e₁ e₂ en₁ en₂, e₁ ∈ s.linked → e₂ ∈ s.linked → s.entries e₁ = some en₁ → s.entries e₂ = some en₂ →
    en₁.key = en₂.key → e₁ = e₂

theorem unindexed_of_run {threshold : BitVec 64}
    (hrun : run (cacheStep sizes) (tcMapCacheInit threshold) ls = some s) (name : String) :
    s.idToIndex name = none :=
  store_inv (P := Store.Unindexed) (fun _ _ _ h hl => h.performs hl) (fun _ => rfl) hrun name

/-- In every state the index and the list agree if and only if there is no
entry. -/
theorem agrees_iff {threshold : BitVec 64}
    (hrun : run (cacheStep sizes) (tcMapCacheInit threshold) ls = some s) : Agrees s ↔ s.linked = [] := by
  have hindex := unindexed_of_run hrun
  have hwf : (store s).Wf := store_inv (fun _ _ _ h hl => h.performs hl) (wf_init threshold) hrun
  constructor
  · intro h
    refine List.eq_nil_iff_forall_not_mem.mpr fun e he => ?_
    obtain ⟨x, hx⟩ := Option.isSome_iff_exists.mp ((hwf.linked_iff e).mp he)
    obtain ⟨en, hen, rfl⟩ := Option.map_eq_some_iff.mp hx
    have := (h.index en.key e).mpr ⟨he, en, hen, rfl⟩
    rw [hindex] at this
    cases this
  · intro h
    refine ⟨fun name e => ?_, fun e₁ e₂ _ _ h₁ => ?_⟩
    · rw [hindex, h]
      simp
    · rw [h] at h₁
      cases h₁

theorem linked_eq_nil_of_step {s' : Cache} (h : Step sizes s l s') (hl : ¬ Store.Links l)
    (hs : s.linked = []) : s'.linked = [] := by
  refine (store_step h).keeps (P := fun v => v.linked = []) hs (fun _ hlinks => absurd hlinks hl) (fun _ => hs)
    (fun _ _ _ _ _ _ _ => hs) (fun u e _ hu _ _ => ?_) (fun _ _ _ _ _ _ _ _ _ => hs)
  show u.linked.erase e = []
  rw [hu, List.erase_nil]

theorem linked_ne_nil_of_links {s' : Cache} (h : Step sizes s l s') (hl : Store.Links l)
    (hindex : ∀ name, s.idToIndex name = none) : s'.linked ≠ [] := by
  cases h with
  | upgraded waiting at_ live =>
    rw [hindex] at at_
    cases at_
  | create waiting absent =>
    obtain rfl := hl
    exact List.cons_ne_nil _ _
  | wait | found | invoke | loadFailed | loaded | check | ref | unref | write => cases hl

/-- The index and the list agree in every state of a run if and only if no open
of the run gives its name an entry. -/
theorem index_agrees_iff {sizes : Sizes} {threshold : BitVec 64} {ls : List Label} {s : Cache}
    (hrun : run (cacheStep sizes) (tcMapCacheInit threshold) ls = some s) :
    (∀ ls₁ ls₂ s₁, ls = ls₁ ++ ls₂ → run (cacheStep sizes) (tcMapCacheInit threshold) ls₁ = some s₁ →
      Agrees s₁) ↔ ∀ l ∈ ls, ¬ Store.Links l := by
  constructor
  · intro h l hl hlinks
    obtain ⟨ls₁, ls₂, rfl⟩ := List.append_of_mem hl
    obtain ⟨s₁, h₁, hrest⟩ := run_append.mp hrun
    obtain ⟨s₂, hstep, -⟩ := run_cons.mp hrest
    have h₂ : run (cacheStep sizes) (tcMapCacheInit threshold) (ls₁ ++ [l]) = some s₂ :=
      run_append.mpr ⟨s₁, h₁, run_cons.mpr ⟨s₂, hstep, rfl⟩⟩
    have hagrees := h (ls₁ ++ [l]) ls₂ s₂ (by simp) h₂
    exact linked_ne_nil_of_links (step_of_cacheStep hstep) hlinks (unindexed_of_run h₁)
      ((agrees_iff h₂).mp hagrees)
  · rintro h ls₁ ls₂ s₁ rfl h₁
    have hkept : ∀ s l s', ¬ Store.Links l → s.linked = [] → cacheStep sizes s l = some s' → s'.linked = [] :=
      fun _ _ _ hl hs hstep => linked_eq_nil_of_step (step_of_cacheStep hstep) hl hs
    refine (agrees_iff h₁).mpr (run_inv_along hkept ?_ rfl h₁)
    exact along_of_forall fun l hl _ => h l (List.mem_append_left _ hl)

def someSizes : Sizes where
  map := 512
  mapCacheEntry := 640
  customBlocks := 16
  envColors := 40
  envAppearance := 32
  envWeather := 8
  blockDefinitions := 16

/-- An open of a name that nobody has asked for before. -/
def openLobby : Label := .open_ "lobby.cw" .medium none true

/-- An open whose entry cannot be allocated. -/
theorem index_agrees_iff_noEntry :
    ∃ s, run (cacheStep someSizes) (tcMapCacheInit 0) [openLobby, .upgrade 0 .noEntry true] = some s ∧
      ((∀ ls₁ ls₂ s₁, [openLobby, .upgrade 0 .noEntry true] = ls₁ ++ ls₂ →
        run (cacheStep someSizes) (tcMapCacheInit 0) ls₁ = some s₁ → Agrees s₁) ↔
          ∀ l ∈ [openLobby, .upgrade 0 .noEntry true], ¬ Store.Links l) :=
  ⟨_, rfl, index_agrees_iff rfl⟩

/-- Two opens of one name: the list has two entries of its key, and the index
none. -/
theorem opened_twice :
    ∃ s, run (cacheStep someSizes) (tcMapCacheInit 0)
        [openLobby, .upgrade 0 .scheduled true, openLobby, .upgrade 0 .scheduled true] = some s ∧
      s.linked = [1, 0] ∧ (s.entries 0).map Entry.key = some "lobby.cw" ∧
      (s.entries 1).map Entry.key = some "lobby.cw" ∧ s.idToIndex "lobby.cw" = none ∧ ¬ Agrees s := by
  refine ⟨_, rfl, rfl, rfl, rfl, rfl, fun h => ?_⟩
  exact absurd (h.keys 0 1 _ _ (by decide) (by decide) rfl rfl rfl) (by decide)

end TC.Proof.Cache
