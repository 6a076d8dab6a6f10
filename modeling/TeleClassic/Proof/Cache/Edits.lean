import TeleClassic.Proof.Cache.Eviction
import TeleClassic.Proof.Map
import TeleClassic.Proof.Map.Blocks

/-!
# Edits of cached maps

A map that is opened again under its name is loaded again from its file, because
the index never has the name, and nothing in the cache ever saves a map: the
edits of the first copy are not in the second (`edit_lost`). `edits_kept` is
about the runs in which a name is not loaded after one of its blocks was
written, and not written while there are two copies. There every copy of a map
reads as its file with all edits, and no map is dropped.
-/

namespace TC.Proof.Cache

open TC.Impl.Map TC.Impl.MapCache
open TC.Proof.Map (edited lastWritten)

variable {files : String → TcMap}

/-- The blocks written to maps of a name, in order. -/
def Store.writesTo (v : Store) (name : String) : List BlockWrite :=
  v.writes.filterMap fun w => if w.1 = name then some w.2 else none

/-- `tc_map_load` returns what the file of the name holds. -/
def LoadsFile (files : String → TcMap) (s : Cache) : Label → Prop
  | .load e (some m) _ => ∀ x ∈ (store s).entries e, m = files x.key
  | _ => True

/-- A name is not loaded after a write to it; a block that is written is one
that the map can hold, and the map is the only copy. -/
def OneCopy (s : Cache) : Label → Prop
  | .load e (some _) _ => ∀ x ∈ (store s).entries e, (store s).writesTo x.key = []
  | .setBlock e w => ∀ x ∈ (store s).entries e, (∀ m ∈ x.map, Map.Blocks.Holds m.blocks w.block) ∧
      ∀ e' x', e' ≠ e → (store s).entries e' = some x' → x'.key = x.key → x'.map = none
  | _ => True

/-- A map that is loaded is its file with all writes to its name, and these are
writes that it can hold. -/
structure Store.Edited (files : String → TcMap) (v : Store) : Prop where
  wf : v.Wf
  current : ∀ e x m, v.entries e = some x → x.map = some m → edited (files x.key) (v.writesTo x.key) = some m
  holds : ∀ name, ∀ w ∈ v.writesTo name, Map.Blocks.Holds (files name).blocks w.block

namespace Store

theorem writesTo_write (v : Store) (e : Nat) (x : Stored) (m : TcMap) (w : BlockWrite) (name : String) :
    (v.write e x m w).writesTo name = if x.key = name then v.writesTo name ++ [w] else v.writesTo name := by
  show (v.writes ++ [(x.key, w)]).filterMap _ = _
  rw [List.filterMap_append, writesTo]
  split <;> rename_i h <;> simp [h]

/-- What a new map in the entry `e` needs. -/
theorem Edited.set {v v' : Store} (h : v.Edited files) (hwf : v'.Wf) {e : Nat} {x : Stored}
    (hentries : v'.entries = Function.update v.entries e (some x)) (hwrites : v'.writes = v.writes)
    (hmap : ∀ m, x.map = some m → edited (files x.key) (v.writesTo x.key) = some m) : v'.Edited files := by
  have hsame : v'.writesTo = v.writesTo := by
    funext name
    rw [writesTo, hwrites, writesTo]
  refine ⟨hwf, fun e' x' m hx' hm => ?_, fun name w hw => h.holds name w (hsame ▸ hw)⟩
  rw [hentries] at hx'
  rw [hsame]
  by_cases he : e' = e
  · subst he
    rw [Function.update_self] at hx'
    cases hx'
    exact hmap m hm
  · rw [Function.update_of_ne he] at hx'
    exact h.current e' x' m hx' hm

theorem Edited.drop {v : Store} (h : v.Edited files) {e : Nat} {x : Stored} (hx : v.entries e = some x)
    (hloaded : x.map.isSome) : (v.drop e x).Edited files := by
  refine ⟨h.wf.drop hx hloaded, fun e' x' m hx' hm => ?_, h.holds⟩
  by_cases he : e' = e
  · subst he
    rw [show (v.drop e' x).entries e' = none from set_entries_self v e' none] at hx'
    cases hx'
  · rw [show (v.drop e x).entries e' = v.entries e' from set_entries_of_ne v none he] at hx'
    exact h.current e' x' m hx' hm

theorem Edited.write {v : Store} (h : v.Edited files) {e : Nat} {w : BlockWrite} {x : Stored} {m m' : TcMap}
    (hx : v.entries e = some x) (hm : x.map = some m)
    (hset : tcMapSetBlockIndex m w.x w.y w.z w.block = some m') (hholds : Map.Blocks.Holds m.blocks w.block)
    (hone : ∀ e' x', e' ≠ e → v.entries e' = some x' → x'.key = x.key → x'.map = none) :
    (v.write e x m' w).Edited files := by
  have hbefore := h.current e x m hx hm
  refine ⟨h.wf.write hx hm m' w, fun e' x' m₁ hx' hm₁ => ?_, fun name w' hw' => ?_⟩
  · rw [writesTo_write]
    by_cases he : e' = e
    · subst he
      rw [show (v.write e' x m' w).entries e' = _ from set_entries_self v e' _] at hx'
      cases hx'
      cases hm₁
      rw [if_pos rfl, Map.edited_append, hbefore]
      exact hset
    · rw [show (v.write e x m' w).entries e' = v.entries e' from set_entries_of_ne v _ he] at hx'
      by_cases hkey : x.key = x'.key
      · rw [hone e' x' he hx' hkey.symm] at hm₁
        cases hm₁
      · rw [if_neg hkey]
        exact h.current e' x' m₁ hx' hm₁
  · rw [writesTo_write] at hw'
    split at hw'
    · rename_i hkey
      obtain hw' | hw' := List.mem_append.mp hw'
      · exact h.holds name w' hw'
      · rw [List.mem_singleton.mp hw', ← hkey, ← (Map.edited_frame hbefore).2]
        exact hholds
    · exact h.holds name w' hw'

end Store

theorem edited_step {sizes : Sizes} {s s' : Cache} {l : Label} (hfiles : LoadsFile files s l)
    (hgood : OneCopy s l) (h : (store s).Edited files) (hstep : Step sizes s l s') :
    (store s').Edited files := by
  refine (store_step hstep).keeps h (fun name hlinks => ?_) (fun e => ?_) (fun e m outcomes x hl hpending hx => ?_)
    (fun u e x hu hx hloaded => hu.drop hx hloaded) (fun e w x m m' hl hx hm hset => ?_)
  · exact h.set (h.wf.link sizes name) rfl rfl fun _ hm => nomatch hm
  · exact ⟨h.wf.unpend e, h.current, h.holds⟩
  · subst hl
    have hwf : ((store s).publish sizes e x m).Wf := (h.wf.unpend e).set hx _ h.wf.pendingNodup.not_mem_erase
    refine h.set hwf rfl rfl fun m' hm' => ?_
    -- the file as it is, since nothing was written to the name
    obtain rfl := Option.some.inj hm'
    obtain rfl := hfiles x hx
    show edited (files x.key) ((store s).writesTo x.key) = _
    rw [hgood x hx]
    rfl
  · subst hl
    obtain ⟨hholds, hone⟩ := hgood x hx
    exact h.write hx hm hset (hholds m hm) hone

/-- Every map that is loaded reads as its file with the blocks written to its
name. -/
def Transparent (files : String → TcMap) (s : Cache) : Prop :=
  ∀ e en m, s.entries e = some en → en.map = some m → ∀ x y z, tcMapGetBlockIndex m x y z =
    (lastWritten (files en.key) ((store s).writesTo en.key) x y z <|> tcMapGetBlockIndex (files en.key) x y z)

theorem Store.Edited.transparent {s : Cache} (h : (store s).Edited files) : Transparent files s := by
  intro e en m hen hm
  have hcurrent := h.current e (stored en) m (by simp [store, hen]) hm
  exact Map.getBlock_edited hcurrent (h.holds en.key)

theorem edited_init (files : String → TcMap) (threshold : BitVec 64) :
    (store (tcMapCacheInit threshold)).Edited files where
  wf := wf_init threshold
  current := fun _ _ _ h => nomatch h
  holds := fun _ _ h => nomatch h

/-- In every run that keeps one copy of the maps that are written, a map that is
loaded reads as its file with all edits, and no map is dropped. -/
theorem edits_kept {sizes : Sizes} {files : String → TcMap} {threshold : BitVec 64} {ls : List Label} {s : Cache}
    (hfiles : Along (cacheStep sizes) (LoadsFile files) (tcMapCacheInit threshold) ls)
    (hgood : Along (cacheStep sizes) OneCopy (tcMapCacheInit threshold) ls)
    (hrun : run (cacheStep sizes) (tcMapCacheInit threshold) ls = some s) :
    Transparent files s ∧ ∀ e dirty, Event.evicted e dirty ∉ s.trace := by
  have hstep : ∀ s l s', LoadsFile files s l ∧ OneCopy s l → (store s).Edited files →
      cacheStep sizes s l = some s' → (store s').Edited files :=
    fun _ _ _ hl h hstep => edited_step hl.1 hl.2 h (step_of_cacheStep hstep)
  refine ⟨?_, fun e dirty hmem => ?_⟩
  · have hend := run_inv_along hstep (hfiles.and hgood) (edited_init files threshold) hrun
    exact hend.transparent
  · have hnone := List.filterMap_eq_nil_iff.mp (nothing_dropped hrun) _ hmem
    cases hnone

/-- Another block in the place of the only one. -/
def lobbyEdit : BlockWrite := { x := 0, y := 0, z := 0, block := 2 }

/-- A map is opened, loaded and edited. -/
def openAndEdit : List Label :=
  [openLobby, .upgrade 0 .scheduled true, .load 0 (some Map.oneBlock) (fun _ => .accepted), .setBlock 0 lobbyEdit]

theorem edits_kept_once :
    ∃ s, run (cacheStep someSizes) (tcMapCacheInit 10000) openAndEdit = some s ∧
      (store s).writesTo "lobby.cw" = [lobbyEdit] ∧ Transparent (fun _ => Map.oneBlock) s ∧
      ∀ e dirty, Event.evicted e dirty ∉ s.trace := by
  have hfiles : Along (cacheStep someSizes) (LoadsFile fun _ => Map.oneBlock) (tcMapCacheInit 10000) openAndEdit :=
    along_cons trivial rfl (along_cons trivial rfl (along_cons (fun _ _ => rfl) rfl (along_cons trivial rfl trivial)))
  have hgood : Along (cacheStep someSizes) OneCopy (tcMapCacheInit 10000) openAndEdit := by
    refine along_cons trivial rfl (along_cons trivial rfl (along_cons (fun _ _ => rfl) rfl
      (along_cons (fun x hx => ?_) rfl trivial)))
    obtain rfl := Option.some.inj hx
    refine ⟨fun m hm => ?_, fun e' x' he' hx' => ?_⟩
    · obtain rfl := Option.some.inj hm
      decide
    · obtain ⟨n, rfl⟩ := Nat.exists_eq_succ_of_ne_zero he'
      cases hx'
  exact ⟨_, rfl, rfl, edits_kept hfiles hgood rfl⟩

/-- The same, and then the name is opened and loaded again: the new copy has the
block of the file. -/
theorem edit_lost :
    ∃ s, run (cacheStep someSizes) (tcMapCacheInit 10000) (openAndEdit ++
        [openLobby, .upgrade 0 .scheduled true, .load 1 (some Map.oneBlock) fun _ => .accepted]) = some s ∧
      (store s).writesTo "lobby.cw" = [lobbyEdit] ∧
      ((s.entries 1).bind Entry.map).bind (fun m => tcMapGetBlockIndex m 0 0 0) = some 1 ∧
      ¬ Transparent (fun _ => Map.oneBlock) s := by
  refine ⟨_, rfl, rfl, rfl, fun h => ?_⟩
  have hread := h 1 _ _ rfl rfl 0 0 0
  exact absurd hread (by decide)

end TC.Proof.Cache
