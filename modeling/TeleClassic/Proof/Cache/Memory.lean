import TeleClassic.Framework.Tally
import TeleClassic.Proof.Cache.Index
import TeleClassic.Proof.Map

/-!
# The memory accounting of the map cache

`cache->memory_usage` counts an entry when it is linked and when it is unlinked.
A load adds the size of its map to `entry->memory_usage` only, so the total is
short of the sum over the entries by the sizes of all maps loaded so far
(`Accounted.performs`), and the two are equal if and only if those come to
nothing (`memory_usage_iff`).
-/

namespace TC.Proof.Cache

open TC.Impl.Map TC.Impl.MapCache

variable {missing : BitVec 64} {v : Store} {e : Nat}

/-- What an entry counts for. -/
def Store.usage (v : Store) (e : Nat) : BitVec 64 := (v.entries e).elim 0 Stored.memoryUsage

/-- What the load with this label adds to its entry. -/
def publishedBy (sizes : Sizes) : Label → BitVec 64
  | .load _ (some m) _ => tcMapGetMemoryUsage sizes m
  | _ => 0

/-- The total is short of the sum over the entries by `missing`. -/
def Store.Accounted (missing : BitVec 64) (v : Store) : Prop :=
  v.memoryUsage + missing = tally v.usage v.linked

namespace Store

theorem usage_set_of_ne (v : Store) {e' : Nat} (x : Option Stored) (h : e' ≠ e) :
    (v.set e x).usage e' = v.usage e' := by
  rw [usage, set_entries_of_ne v x h, usage]

theorem tally_usage_set (v : Store) (x : Option Stored) {l : List Nat} (h : e ∉ l) :
    tally (v.set e x).usage l = tally v.usage l :=
  tally_congr fun _ he' => usage_set_of_ne v x (by rintro rfl; exact h he')

/-- One entry of the list counts for `d` more. -/
theorem tally_usage_add {x x' : Stored} {l : List Nat} (hl : l.Nodup) (he : e ∈ l)
    (hx : v.entries e = some x) {d : BitVec 64} (hx' : x'.memoryUsage = x.memoryUsage + d) :
    tally (v.set e (some x')).usage l = tally v.usage l + d := by
  have hnew : (v.set e (some x')).usage e = v.usage e + d := by
    rw [usage, set_entries_self, usage, hx]
    exact hx'
  rw [← tally_erase _ he, ← tally_erase v.usage he, hnew, tally_usage_set v _ hl.not_mem_erase]
  abel

theorem Accounted.link (hwf : v.Wf) (h : v.Accounted missing) (sizes : Sizes) (name : String) :
    (v.link sizes name).Accounted missing := by
  have hsum : tally (v.link sizes name).usage v.linked = tally v.usage v.linked :=
    tally_usage_set v _ hwf.nextEntry_not_mem_linked
  have hentry : (v.link sizes name).usage v.nextEntry = sizes.mapCacheEntry := by
    show ((v.set _ _).entries v.nextEntry).elim _ _ = _
    rw [set_entries_self]
    rfl
  show v.memoryUsage + sizes.mapCacheEntry + missing = tally (v.link sizes name).usage (v.nextEntry :: v.linked)
  rw [tally_cons, hsum, hentry, ← h]
  abel

theorem Accounted.publish (hwf : v.Wf) (h : v.Accounted missing) (sizes : Sizes) {x : Stored}
    (hx : v.entries e = some x) (m : TcMap) :
    (v.publish sizes e x m).Accounted (missing + tcMapGetMemoryUsage sizes m) := by
  have he : e ∈ v.linked := (hwf.linked_iff e).mpr (by simp [hx])
  show v.memoryUsage + (missing + _) = tally (v.set e _).usage v.linked
  rw [tally_usage_add hwf.nodup he hx rfl, ← h, add_assoc]

theorem Accounted.drop (hwf : v.Wf) (h : v.Accounted missing) {x : Stored} (hx : v.entries e = some x) :
    (v.drop e x).Accounted missing := by
  have he : e ∈ v.linked := (hwf.linked_iff e).mpr (by simp [hx])
  have husage : v.usage e = x.memoryUsage := by rw [usage, hx]; rfl
  show v.memoryUsage - x.memoryUsage + missing = tally (v.set e none).usage (v.linked.erase e)
  rw [tally_usage_set v _ hwf.nodup.not_mem_erase]
  have hsum := tally_erase v.usage he
  rw [← h, husage] at hsum
  calc v.memoryUsage - x.memoryUsage + missing = v.memoryUsage + missing - x.memoryUsage := by abel
    _ = tally v.usage (v.linked.erase e) := by rw [← hsum]; abel

theorem Accounted.write (h : v.Accounted missing) {x : Stored} (hx : v.entries e = some x) (m : TcMap)
    (w : BlockWrite) : (v.write e x m w).Accounted missing := by
  have husage : (v.write e x m w).usage = v.usage := by
    funext e'
    show ((v.set e _).entries e').elim _ _ = _
    by_cases he : e' = e
    · subst he
      rw [set_entries_self, usage, hx]
      rfl
    · rw [set_entries_of_ne v _ he, usage]
  rw [Accounted, husage]
  exact h

/-- A step adds what it publishes to what is missing. -/
theorem Accounted.performs {sizes : Sizes} {v' : Store} {l : Label} (hwf : v.Wf) (h : v.Accounted missing)
    (hl : Performs sizes v v' l) : v'.Accounted (missing + publishedBy sizes l) := by
  by_cases hload : ∃ e m outcomes, l = .load e (some m) outcomes
  · obtain ⟨e, m, outcomes, rfl⟩ := hload
    obtain ⟨x, -, hx, rfl⟩ := hl
    exact h.publish hwf sizes hx m
  · have hnone : publishedBy sizes l = 0 := by
      unfold publishedBy
      split
      · exact absurd ⟨_, _, _, rfl⟩ hload
      · rfl
    rw [hnone, add_zero]
    refine (hl.keeps (P := fun u => u.Wf ∧ u.Accounted missing) ⟨hwf, h⟩
      (fun name _ => ⟨hwf.link sizes name, h.link hwf sizes name⟩) (fun e => ⟨hwf.unpend e, h⟩)
      (fun e m outcomes _ he _ _ => absurd ⟨e, m, outcomes, he⟩ hload)
      (fun u e x hu hx hloaded => ⟨hu.1.drop hx hloaded, hu.2.drop hu.1 hx⟩)
      (fun e w x m m' _ hx hm _ => ⟨hwf.write hx hm m' w, h.write hx m' w⟩)).2

end Store

/-- What the loads of a run add to their entries. -/
def publishedUsage (sizes : Sizes) (ls : List Label) : BitVec 64 := tally (publishedBy sizes) ls

theorem accounted_of_run {sizes : Sizes} {s t : Cache} {ls : List Label} (hwf : (store s).Wf)
    (hs : (store s).Accounted missing) (hrun : run (cacheStep sizes) s ls = some t) :
    (store t).Accounted (missing + publishedUsage sizes ls) := by
  induction ls generalizing s missing with
  | nil =>
    obtain rfl := Option.some.inj hrun
    rw [publishedUsage, tally_nil, add_zero]
    exact hs
  | cons l ls ih =>
    obtain ⟨s', hstep, hrest⟩ := run_cons.mp hrun
    have hl := store_step (step_of_cacheStep hstep)
    have hsum := ih (hwf.performs hl) (hs.performs hwf hl) hrest
    rw [publishedUsage, tally_cons, ← add_assoc]
    exact hsum

/-- The sum of `entry->memory_usage` over the linked entries. -/
def linkedUsage (s : Cache) : BitVec 64 := tally (fun e => (s.entries e).elim 0 Entry.memoryUsage) s.linked

theorem tally_usage_store (s : Cache) : tally (store s).usage (store s).linked = linkedUsage s := by
  refine tally_congr fun e _ => ?_
  show ((s.entries e).map stored).elim 0 Stored.memoryUsage = (s.entries e).elim 0 Entry.memoryUsage
  cases s.entries e <;> rfl

/-- In every state `cache->memory_usage` is the sum over the linked entries if
and only if the sizes of all maps loaded on the way come to 0. -/
theorem memory_usage_iff {sizes : Sizes} {threshold : BitVec 64} {ls : List Label} {s : Cache}
    (hrun : run (cacheStep sizes) (tcMapCacheInit threshold) ls = some s) :
    s.memoryUsage = linkedUsage s ↔ publishedUsage sizes ls = 0 := by
  have hstart : (store (tcMapCacheInit threshold)).Accounted 0 := rfl
  have h := accounted_of_run (wf_init threshold) hstart hrun
  rw [zero_add, Store.Accounted, tally_usage_store] at h
  rw [← h]
  exact left_eq_add

/-- A load that fails. -/
theorem memory_usage_iff_loadFailed :
    ∃ s, run (cacheStep someSizes) (tcMapCacheInit 0)
        [openLobby, .upgrade 0 .scheduled true, .load 0 none fun _ => .accepted] = some s ∧
      (s.memoryUsage = linkedUsage s ↔ publishedUsage someSizes
        [openLobby, .upgrade 0 .scheduled true, .load 0 none fun _ => .accepted] = 0) :=
  ⟨_, rfl, memory_usage_iff rfl⟩

/-- A map of one block is opened and loaded: its entry counts for more than the
whole cache. -/
theorem entry_exceeds_cache :
    ∃ s, run (cacheStep someSizes) (tcMapCacheInit 10000)
        [openLobby, .upgrade 0 .scheduled true, .load 0 (some Map.oneBlock) (fun _ => .accepted), .check] = some s ∧
      s.linked = [0] ∧ s.checking = 0 ∧ s.memoryUsage = 640 ∧ linkedUsage s = 1203 := by
  refine ⟨_, rfl, rfl, rfl, ?_, ?_⟩
  · decide +kernel
  · decide +kernel

end TC.Proof.Cache
