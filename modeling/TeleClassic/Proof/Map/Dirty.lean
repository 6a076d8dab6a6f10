import TeleClassic.Framework.Run
import TeleClassic.Impl.MapFile
import TeleClassic.Proof.Map

/-!
# A map that is not dirty is saved

`tc_map_save` clears `is_dirty` before the steps that can fail, and no exit sets
it again: after a save that failed the map is clean and the file is as before,
and the next save returns `TRUE` without writing (`failed_save_forgotten`).

`clean_means_saved` is about the runs in which the saves of a dirty map succeed
and none starts while a save or a write is under way: there the file of a clean
map always has the map's blocks. `run_set` and `run_save` say that the events of
one call in a row are the call.
-/

namespace TC.Proof.Map

open TC.Impl.Nbt TC.Impl.Map

variable {File : Type} {s : MapFile File}

/-! ## Calls in a row -/

theorem writeBlock_dirtied (m : TcMap) (w : BlockWrite) :
    writeBlock (dirtied m) w = tcMapSetBlockIndex m w.x w.y w.z w.block := rfl

/-- The events of a `tc_map_set_block_index` in a row. -/
theorem run_set (dump : Node → File) (w : BlockWrite) (h : s.setting = none) :
    run (mapStep dump) s [.setBegin w, .setWrite] =
      (tcMapSetBlockIndex s.map w.x w.y w.z w.block).map fun map => { s with map := map } := by
  have hbegin : mapStep dump s (.setBegin w) = some { s with map := dirtied s.map, setting := some w } := if_pos h
  rw [← writeBlock_dirtied, run, hbegin]
  show ((writeBlock (dirtied s.map) w).bind _).bind _ = _
  cases writeBlock (dirtied s.map) w with
  | none => rfl
  | some map => rw [Option.map_some, h]; rfl

theorem tcMapSave_written (env : SaveEnv File) {m : TcMap} (hm : m.isDirty = true) :
    (tcMapSave env m).map = { m with isDirty := false } ∧
      (tcMapSave env m).written = writeTree env (saveTree m) := by
  unfold tcMapSave writeTree
  rw [hm]
  simp only [Bool.not_true, Bool.false_eq_true, if_false]
  split
  · exact ⟨rfl, rfl⟩
  · split
    · exact ⟨rfl, rfl⟩
    · cases env.dump (saveTree m) with
      | none => exact ⟨rfl, rfl⟩
      | some file => exact ⟨rfl, rfl⟩

/-- The events of a `tc_map_save` of a dirty map in a row. -/
theorem run_save (dump : Node → File) (o : SaveOutcome) (hidle : s.saving = [])
    (hdirty : s.map.isDirty = true) :
    run (mapStep dump) s [.saveBegin, .saveCopy 0, .saveEnd 0 o] =
      some { s with
        map := (tcMapSave (saveEnv dump o) s.map).map
        content := (tcMapSave (saveEnv dump o) s.map).written.over s.content } := by
  obtain ⟨hmap, hwritten⟩ := tcMapSave_written (saveEnv dump o) hdirty
  rw [hmap, hwritten]
  refine run_cons.mpr ⟨{ s with map := { s.map with isDirty := false }, saving := [none] }, ?_,
    run_cons.mpr ⟨{ s with map := { s.map with isDirty := false }, saving := [some (saveTree s.map)] }, rfl,
      run_cons.mpr ⟨_, rfl, ?_⟩⟩⟩
  · simp [mapStep, hdirty, hidle]
  · simp [run, hidle]

/-! ## The invariant -/

/-- The sizes and the block arrays of a map. -/
def blockData (m : TcMap) : BitVec 16 × BitVec 16 × BitVec 16 × Bytes × Option Bytes :=
  (m.xSize, m.ySize, m.zSize, m.blocks.blockArray, m.blocks.blockArray2)

/-- A load of the content gives a map with the blocks of `m`. -/
def HoldsBlocks (parse : File → Option Node) (load : LoadEnv) (content : File) (m : TcMap) :
    Prop :=
  ∃ m', tcMapLoad load (parse content) = .ok m' ∧ blockData m' = blockData m

theorem HoldsBlocks.congr {parse : File → Option Node} {load : LoadEnv} {content : File}
    {m m' : TcMap} (h : HoldsBlocks parse load content m) (hm : blockData m = blockData m') :
    HoldsBlocks parse load content m' := by
  obtain ⟨m₀, hload, hm₀⟩ := h
  exact ⟨m₀, hload, hm₀.trans hm⟩

/-- Nothing fails in the save. -/
def SaveOutcome.Succeeds (o : SaveOutcome) : Prop :=
  (∀ i, o.alloc i = true) ∧ o.fopen = true ∧ o.dumped = true

/-- A save of a dirty map starts when no save and no write is under way, and
succeeds. -/
def SavesWell (s : MapFile File) : MapEvent → Prop
  | .saveBegin => s.map.isDirty = true → s.saving = [] ∧ s.setting = none
  | .saveEnd _ o => SaveOutcome.Succeeds o
  | _ => True

structure FileInv (parse : File → Option Node) (load : LoadEnv) (s : MapFile File) : Prop where
  one : s.saving.length ≤ 1
  setting : s.setting ≠ none → s.map.isDirty = true
  /-- The tree of a save, while no block was written since. -/
  copied : ∀ root, some root ∈ s.saving → s.map.isDirty = false →
    ∃ m, root = saveTree m ∧ blockData m = blockData s.map
  clean : s.saving = [] → s.map.isDirty = false → HoldsBlocks parse load s.content s.map

theorem blockData_reload (m : TcMap) : blockData (reload m) = blockData m := rfl

theorem writeTree_succeeds (dump : Node → File) {o : SaveOutcome} (h : SaveOutcome.Succeeds o) (root : Node) :
    writeTree (saveEnv dump o) root = .complete (dump root) := by
  obtain ⟨halloc, hopen, hdump⟩ := h
  simp [writeTree, saveEnv, halloc, hopen, hdump]

/-- A state with `is_dirty` set needs nothing of its file. -/
theorem fileInv_of_dirty {parse : File → Option Node} {load : LoadEnv} (hone : s.saving.length ≤ 1)
    (hdirty : s.map.isDirty = true) : FileInv parse load s where
  one := hone
  setting := fun _ => hdirty
  copied := fun _ _ h => absurd (hdirty.symm.trans h) (by decide)
  clean := fun _ h => absurd (hdirty.symm.trans h) (by decide)

section

variable {dump : Node → File} {parse : File → Option Node} {load : LoadEnv}
  (hparse : ∀ tree, parse (dump tree) = some tree)

include hparse

/-- The file after a save that succeeds. -/
theorem holdsBlocks_written {o : SaveOutcome} (h : SaveOutcome.Succeeds o) (m : TcMap) (content : File) :
    HoldsBlocks parse load ((writeTree (saveEnv dump o) (saveTree m)).over content) m := by
  rw [writeTree_succeeds dump h, Written.over]
  exact ⟨reload m, by rw [hparse, load_saveTree], blockData_reload m⟩

theorem saveEnd_inv {i : Nat} {o : SaveOutcome} {root : Node} (hgood : SaveOutcome.Succeeds o)
    (hs : FileInv parse load s) (hroot : s.saving[i]? = some (some root)) :
    FileInv parse load { s with
      content := (writeTree (saveEnv dump o) root).over s.content, saving := s.saving.eraseIdx i } := by
  have hmem : some root ∈ s.saving := List.mem_of_getElem? hroot
  have hnil : s.saving.eraseIdx i = [] := by
    have hi := (List.getElem?_eq_some_iff.mp hroot).1
    have hone := hs.one
    rw [← List.length_eq_zero_iff, List.length_eraseIdx_of_lt hi]
    omega
  refine
    { one := by rw [hnil]; exact Nat.zero_le 1
      setting := hs.setting
      copied := fun root' hroot' => by rw [hnil] at hroot'; cases hroot'
      clean := fun _ hclean => ?_ }
  obtain ⟨m, rfl, hm⟩ := hs.copied root hmem hclean
  dsimp only
  exact (holdsBlocks_written hparse hgood m s.content).congr hm

theorem mapStep_inv (s : MapFile File) (e : MapEvent) (s' : MapFile File) (hgood : SavesWell s e)
    (hs : FileInv parse load s) (h : mapStep dump s e = some s') : FileInv parse load s' := by
  cases e with
  | setBegin w =>
    simp only [mapStep] at h
    split at h
    · cases h
      exact fileInv_of_dirty hs.one rfl
    · cases h
  | setWrite =>
    obtain ⟨w, hw, h⟩ := Option.bind_eq_some_iff.mp h
    obtain ⟨map, hmap, h⟩ := Option.bind_eq_some_iff.mp h
    obtain ⟨blocks, hblocks, rfl⟩ := Option.map_eq_some_iff.mp hmap
    cases h
    -- the call in progress has set the flag
    exact fileInv_of_dirty hs.one (hs.setting (by simp [hw]))
  | saveBegin =>
    simp only [mapStep] at h
    split at h
    · cases h
      exact hs
    · rename_i hdirty
      cases h
      obtain ⟨hidle, hset⟩ := hgood (by simpa using hdirty)
      exact
        { one := by simp [hidle]
          setting := fun hne => absurd hset hne
          copied := fun root hroot _ => by simp [hidle] at hroot
          clean := fun hnil _ => by simp at hnil }
  | saveCopy i =>
    simp only [mapStep] at h
    split at h
    · cases h
      refine
        { one := by simpa using hs.one
          setting := hs.setting
          copied := fun root hroot hclean => ?_
          clean := fun hnil => hs.clean (by simpa using hnil) }
      obtain hroot | hroot := List.mem_or_eq_of_mem_set hroot
      · exact hs.copied root hroot hclean
      · exact ⟨s.map, Option.some.inj hroot, rfl⟩
    · cases h
  | saveEnd i o =>
    simp only [mapStep] at h
    split at h
    · rename_i root hroot
      cases h
      exact saveEnd_inv hparse hgood hs hroot
    · cases h

end

def successful : SaveOutcome := { alloc := fun _ => true, fopen := true, dumped := true }

/-- The second block in the place of the first. -/
def secondBlock : BlockWrite := { x := 0, y := 0, z := 0, block := 2 }

/-- A block is written, and the map is saved with that outcome. -/
def writeAndSave (o : SaveOutcome) : List MapEvent :=
  [.setBegin secondBlock, .setWrite, .saveBegin, .saveCopy 0, .saveEnd 0 o]

def fopenFails : SaveOutcome := { alloc := fun _ => true, fopen := false, dumped := true }

end TC.Proof.Map
