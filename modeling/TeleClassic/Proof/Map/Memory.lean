import TeleClassic.Impl.MapMemory

/-!
# The memory of a failed load

The finalizer frees the blocks of a map (`owned`), each once. A load that has begun to
fill the map owns, at every point where it can stop, exactly the blocks it has made
and not freed (`Holding`): the pointers are filled one after the other (`slots`), and
those that come later are still `NULL` (`Built`). So the finalizer frees what the load
has made, and nothing else.
-/

namespace TC.Proof.MapMemory

open TC.Prog TC.Impl.Nbt TC.Impl.MapMemory
open TC.Impl.Map (LoadM)
open TC.BlockHeap (freeAll freeAll_append access_freeAll Owns Balanced)

variable {nodes : List ListNode} {before : BlockHeap} {as : List Address} {i : Nat} {s : Memory}
  {h : BlockHeap} {map : TcMap} {a : Address}

/-! ## Finalizing -/

section

variable {α : Type}

/-- The block of a pointer. -/
def block (p : Ptr α) : List Address := p.toList.map Prod.fst

/-- The block of a structure, after those of its members. -/
def structBlocks (members : α → List Address) : Ptr α → List Address
  | none => []
  | some (a, e) => members e ++ [a]

def definitionBlocks (nodes : List ListNode) : List Address :=
  nodes.flatMap fun node => block node.definition.2.blockName ++ [node.definition.1]

def listBlocks (bd : BlockDefinitions) : List Address :=
  definitionBlocks bd.blockDefinitions ++ bd.blockDefinitions.map ListNode.address

/-- The blocks of a map, in the order they are freed. -/
def owned (map : TcMap) : List Address :=
  block map.name ++ (block map.createdByService ++ (block map.createdByUsername ++ (block map.mapGenSoftware ++
    (block map.mapGenName ++ (block map.blockArray ++ (block map.blockArray2 ++ (block map.lock ++
    (structBlocks (fun cb => block cb.fallbackBlocks) map.customBlocksExtension ++ (block map.envColorsExtension ++
    (structBlocks (fun ea => block ea.textureUrl) map.envAppearanceExtension ++ (block map.envWeatherExtension ++
    (block map.envAspectExtension ++ structBlocks listBlocks map.blockDefinitionExtensions))))))))))))

theorem pFree_eq (p : Ptr α) : pFree p = freeAll (block p) := by
  rcases p with _ | ⟨a, v⟩
  · rfl
  · exact BlockHeap.freeAll_singleton.symm

theorem pFreeStruct_eq {members : α → BlockHeap → Option BlockHeap} {blocks : α → List Address}
    (h : ∀ e, members e = freeAll (blocks e)) (p : Ptr α) : pFreeStruct members p = freeAll (structBlocks blocks p) := by
  funext heap
  rcases p with _ | ⟨a, e⟩
  · rfl
  · rw [structBlocks, ← access_freeAll (List.mem_append_right (blocks e) (List.mem_singleton.mpr rfl)), freeAll_append,
      BlockHeap.freeAll_singleton, ← h e]
    rfl

theorem freeBlockDefinition_eq (definition : Address × BlockDefinition) :
    freeBlockDefinition definition = freeAll (block definition.2.blockName ++ [definition.1]) := by
  funext h
  rw [← access_freeAll (List.mem_append_right _ (List.mem_singleton.mpr rfl)), freeAll_append, BlockHeap.freeAll_singleton,
    ← pFree_eq]
  rfl

/-- The nodes of the list are read before they are freed. -/
theorem freeDefinitions_eq {rest : List Address} (h : ∀ node ∈ nodes, node.address ∈ rest)
    (heap : BlockHeap) :
    (freeDefinitions nodes heap).bind (freeAll rest) = freeAll (definitionBlocks nodes ++ rest) heap := by
  induction nodes generalizing heap with
  | nil => rfl
  | cons node nodes ih =>
    have hmem : node.address ∈ definitionBlocks (node :: nodes) ++ rest :=
      List.mem_append_right _ (h node List.mem_cons_self)
    have htail := ih fun node hnode => h node (List.mem_cons_of_mem _ hnode)
    have hstep (h : BlockHeap) : ((freeBlockDefinition node.definition h).bind (freeDefinitions nodes)).bind (freeAll rest) =
        freeAll (definitionBlocks (node :: nodes) ++ rest) h := by
      rw [Option.bind_assoc, definitionBlocks, List.flatMap_cons, List.append_assoc, freeAll_append,
        freeBlockDefinition_eq]
      exact Option.bind_congr fun h' _ => htail h'
    rw [← access_freeAll hmem]
    exact (Option.bind_assoc ..).trans (Option.bind_congr fun h _ => hstep h)

theorem pListFree_eq (nodes : List ListNode) : pListFree nodes = freeAll (nodes.map ListNode.address) := by
  funext h
  induction nodes generalizing h with
  | nil => rfl
  | cons node nodes ih => exact Option.bind_congr fun h' _ => ih h'

theorem tcMapFinalize_eq (map : TcMap) : tcMapFinalize map = freeAll (owned map) := by
  have hlist (bd : BlockDefinitions) : (fun h => (freeDefinitions bd.blockDefinitions h).bind
      fun h => pListFree bd.blockDefinitions h) = freeAll (listBlocks bd) := by
    funext h
    rw [pListFree_eq, listBlocks]
    exact freeDefinitions_eq (fun node hnode => List.mem_map_of_mem hnode) h
  have hcustom : pFreeStruct (fun cb => pFree cb.fallbackBlocks) map.customBlocksExtension =
      freeAll (structBlocks (fun cb => block cb.fallbackBlocks) map.customBlocksExtension) :=
    pFreeStruct_eq (fun _ => pFree_eq _) _
  have happearance : pFreeStruct (fun ea => pFree ea.textureUrl) map.envAppearanceExtension =
      freeAll (structBlocks (fun ea => block ea.textureUrl) map.envAppearanceExtension) :=
    pFreeStruct_eq (fun _ => pFree_eq _) _
  funext h
  simp only [owned, freeAll_append, ← pFreeStruct_eq hlist, ← hcustom, ← happearance, ← pFree_eq]
  rfl

end

/-! ## Filling -/

/-- The blocks of the pointers, in the order they are filled. -/
def slots (map : TcMap) : List (List Address) :=
  [block map.lock, block map.name, block map.createdByService, block map.createdByUsername, block map.mapGenSoftware,
    block map.mapGenName, block map.blockArray, block map.blockArray2,
    structBlocks (fun cb => block cb.fallbackBlocks) map.customBlocksExtension, block map.envColorsExtension,
    block map.envAspectExtension, structBlocks (fun ea => block ea.textureUrl) map.envAppearanceExtension,
    block map.envWeatherExtension, structBlocks listBlocks map.blockDefinitionExtensions]

theorem slots_perm (map : TcMap) : (slots map).flatten.Perm (owned map) := by
  rw [List.perm_iff_count]
  intro a
  simp only [slots, owned, List.flatten_cons, List.flatten_nil, List.count_append, List.count_nil]
  omega

/-- Where a load can stop: the map has the blocks that were made and not freed. -/
abbrev Holding (before : BlockHeap) (s : Memory) : Prop := Owns before s.heap (slots s.map).flatten

/-- The pointers from the `i`th on are `NULL`. -/
structure Built (before : BlockHeap) (i : Nat) (s : Memory) : Prop where
  owns : Holding before s
  later : ∀ j, i ≤ j → j < 14 → (slots s.map)[j]? = some []

theorem Built.mono {j : Nat} (h : Built before i s) (hij : i ≤ j) : Built before j s :=
  ⟨h.owns, fun k hk => h.later k (Nat.le_trans hij hk)⟩

/-- A part of the load that fills the pointers from the `i`th up to the `j`th. -/
def Builds {α : Type} (i j : Nat) (p : LoadP α) : Prop :=
  ∀ before env s, Built before i s → Meets env s p (fun _ s' => Built before j s') (Holding before)

section

variable {α β : Type} {j k : Nat} {set : Ptr α → TcMap → TcMap} {f : α → LoadP β} {v : α}

theorem Builds.bind {p : LoadP α} (hp : Builds i j p) (hf : ∀ a, Builds j k (f a)) : Builds i k (p >>= f) :=
  fun before env s hs => meets_bind (hp before env s hs) fun a s' hs' => hf a before env s' hs'

theorem builds_pure (hij : i ≤ j) (a : α) : Builds i j (pure a) :=
  fun _ _ _ hs => meets_pure (hs.mono hij)

theorem builds_ask : Builds i i (ask : LoadP Env) := fun _ _ _ hs => meets_of_some rfl hs

/-- A value is loaded, or the load stops as it is. -/
theorem meets_value {env : Env} {x : LoadM α} {Q : β → Memory → Prop} (hs : Holding before s)
    (hf : ∀ a, Meets env s (f a) Q (Holding before)) : Meets env s (value x >>= f) Q (Holding before) := by
  cases x with
  | ok a => exact meets_bind_of_some rfl (hf a)
  | error e =>
    cases e with
    | fail => exact meets_of_none rfl hs
    | badRead => exact meets_of_none rfl hs

theorem builds_value {x : LoadM α} (hf : ∀ a, Builds i j (f a)) : Builds i j (value x >>= f) :=
  fun before env s hs => meets_value hs.owns fun a => hf a before env s hs

theorem builds_check (x : LoadM α) : Builds i i (value x) :=
  fun _ _ _ hs => meets_last (meets_value hs.owns fun _ => meets_pure hs)

theorem builds_setMap {f : TcMap → TcMap} (hf : ∀ map, slots (f map) = slots map) : Builds i i (setMap f) := by
  intro before env s hs
  refine meets_of_some rfl ⟨?_, fun j hij hj => ?_⟩
  · show Owns before s.heap (slots (f s.map)).flatten
    rw [hf]
    exact hs.owns
  · exact (hf s.map).symm ▸ hs.later j hij hj

theorem builds_set {g : TcMap → TcMap} {f : Unit → LoadP β} (hg : ∀ map, slots (g map) = slots map)
    (hf : Builds i j (f ())) : Builds i j (setMap g >>= f) :=
  (builds_setMap hg).bind fun _ => hf

theorem set_of_getElem? {slots : List (List Address)} (h : slots[i]? = some as) :
    slots.set i as = slots := by
  obtain ⟨hlt, rfl⟩ := List.getElem?_eq_some_iff.mp h
  exact List.set_getElem_self hlt

/-- Only the `i`th slot has changed. -/
theorem later_set {slots slots' : List (List Address)} (hset : slots' = slots.set i as)
    (h : ∀ j, i + 1 ≤ j → j < 14 → slots[j]? = some []) (j : Nat) (hij : i + 1 ≤ j) (hj : j < 14) :
    slots'[j]? = some [] := by
  rw [hset, List.getElem?_set_ne (by omega)]
  exact h j hij hj

/-- A pointer is stored in a slot that has the blocks `as`. -/
theorem meets_assign {env : Env} (hs : Built before (i + 1) s) (hi : (slots s.map)[i]? = some as)
    (hset : ∀ p, slots (set p s.map) = (slots s.map).set i (block p ++ as)) :
    Meets env s (assign v set) (fun _ s' => Built before (i + 1) s' ∧ ∃ p, s'.map = set p s.map)
      (Holding before) := by
  by_cases h : env.alloc s.allocations = true
  · refine meets_bind_of_some (if_pos h) (meets_bind_of_some rfl (meets_of_some rfl ⟨⟨?_, ?_⟩, _, rfl⟩))
    · show Owns before s.heap.make (slots (set (some (s.heap.made, v)) s.map)).flatten
      rw [hset]
      exact hs.owns.grow hi (.refl _)
    · exact later_set (hset _) hs.later
  · -- nothing is stored, and the load stops
    refine meets_bind_of_some (if_neg h) (meets_bind_of_some rfl (meets_of_none rfl ?_))
    show Owns before s.heap (slots (set none s.map)).flatten
    rw [(hset none).trans (set_of_getElem? hi)]
    exact hs.owns

/-- A structure without members that point to blocks is stored in an empty slot. -/
theorem meets_create {env : Env} (hs : Built before i s) (hi : i < 14)
    (hset : ∀ a, slots (set (some (a, v)) s.map) = (slots s.map).set i [a]) :
    Meets env s (create v set) (fun _ s' => Built before (i + 1) s' ∧ ∃ a, s'.map = set (some (a, v)) s.map)
      (Holding before) := by
  have hempty := hs.later i (Nat.le_refl i) hi
  by_cases h : env.alloc s.allocations = true
  · refine meets_bind_of_some (if_pos h) (meets_bind_of_some rfl (meets_of_some rfl ⟨⟨?_, ?_⟩, _, rfl⟩))
    · show Owns before s.heap.make (slots (set (some (s.heap.made, v)) s.map)).flatten
      rw [hset]
      exact hs.owns.grow hempty (.refl _)
    · exact later_set (hset _) (hs.mono (Nat.le_succ i)).later
  · exact meets_bind_of_some (if_neg h) (meets_of_none rfl hs.owns)

theorem builds_assign (hi : i < 14) (hset : ∀ p map, slots (set p map) = (slots map).set i (block p)) :
    Builds i (i + 1) (assign v set) := by
  intro before env s hs
  refine (meets_assign (hs.mono (Nat.le_succ i)) (hs.later i (Nat.le_refl i) hi) fun p => ?_).mono
    fun _ _ h => h.1
  rw [List.append_nil]
  exact hset p s.map

theorem builds_assignSome {o : Option α} (hi : i < 14)
    (hset : ∀ p map, slots (set p map) = (slots map).set i (block p)) :
    Builds i (i + 1) (assignSome o set) := by
  cases o with
  | none => exact builds_pure (Nat.le_succ i) ()
  | some v => exact builds_assign hi hset

theorem builds_create (hi : i < 14) (hset : ∀ a map, slots (set (some (a, v)) map) = (slots map).set i [a]) :
    Builds i (i + 1) (create v set) :=
  fun _ _ s hs => (meets_create hs hi fun a => hset a s.map).mono fun _ _ h => h.1

end

theorem builds_loadString (root : Node) (compound tag : String) (hi : i < 14)
    {set : Ptr String → TcMap → TcMap} (hset : ∀ p map, slots (set p map) = (slots map).set i (block p)) :
    Builds i (i + 1) (loadString root compound tag set) :=
  builds_ask.bind fun _ => builds_value fun _ => builds_assignSome hi hset

theorem builds_loadTime (root : Node) (tag : String) (now : Impl.Map.Clock → BitVec 64) :
    Builds i i (loadTime root tag now) :=
  builds_ask.bind fun _ => builds_check _

theorem builds_loadName (root : Node) : Builds 1 2 (loadName root) :=
  builds_ask.bind fun _ => builds_value fun _ => builds_assign (by decide) fun _ _ => rfl

theorem builds_loadBlocks (root : Node) (x y z : BitVec 16) : Builds 6 8 (loadBlocks root x y z) := by
  refine builds_value fun blockArray => builds_set (fun _ => rfl) ?_
  refine Builds.bind (builds_assign (by decide) fun _ _ => rfl) fun _ => ?_
  exact builds_value fun blockArray2 => builds_set (fun _ => rfl) (builds_assignSome (by decide) fun _ _ => rfl)

/-! ## Extensions -/

section

variable {env : Env}

theorem builds_loadExtension (root : Node) (name : String) {load : Node → LoadP Unit}
    (hload : ∀ ext, Builds i (i + 1) (load ext)) : Builds i (i + 1) (loadExtension root name load) := by
  rw [loadExtension]
  split
  · exact builds_pure (Nat.le_succ i) ()
  · exact hload _

theorem builds_loadCustomBlocks (ext : Node) : Builds 8 9 (loadCustomBlocks ext) := by
  intro before env s hs
  refine meets_bind (meets_create hs (by decide) fun _ => rfl) fun _ s' h => ?_
  obtain ⟨hs', a, hmap⟩ := h
  have hslot : (slots s'.map)[8]? = some [a] := by
    rw [hmap]
    rfl
  refine meets_value hs'.owns fun loaded => ?_
  refine (meets_assign hs' hslot fun p => ?_).mono fun _ _ h => h.1
  rw [hmap]
  rfl

theorem builds_loadStruct {α : Type} {set : Ptr Unit → TcMap → TcMap} (hi : i < 14)
    (hset : ∀ a map, slots (set (some (a, ())) map) = (slots map).set i [a]) (x : LoadM α) :
    Builds i (i + 1) (loadStruct x set) :=
  (builds_create hi hset).bind fun _ => builds_value fun _ => builds_pure (Nat.le_refl _) ()

theorem builds_loadEnvAppearance (ySize : BitVec 16) (ext : Node) : Builds 11 12 (loadEnvAppearance ySize ext) := by
  intro before env s hs
  refine meets_bind (meets_create hs (by decide) fun _ => rfl) fun _ s' h => ?_
  obtain ⟨hs', a, hmap⟩ := h
  have hslot : (slots s'.map)[11]? = some [a] := by
    rw [hmap]
    rfl
  refine meets_value hs'.owns fun extensionVersion => meets_value hs'.owns fun textureUrl => ?_
  have hset (p : Ptr String) : slots { s'.map with
      envAppearanceExtension := write (fun ea => { ea with textureUrl := p }) s'.map.envAppearanceExtension } =
      (slots s'.map).set 11 (block p ++ [a]) := by
    rw [hmap]
    rfl
  refine meets_bind (meets_assign hs' hslot hset) fun _ s'' h => ?_
  exact meets_value h.1.owns fun _ => meets_pure h.1

/-! ## Definitions -/

/-- The extension is there, with its list. -/
structure Listing (before : BlockHeap) (s : Memory) : Prop where
  built : Built before 14 s
  list : ∃ a nodes, s.map.blockDefinitionExtensions = some (a, ⟨nodes⟩)

/-- The definition at the head of the list has no name yet. -/
structure Unnamed (before : BlockHeap) (s : Memory) : Prop where
  built : Built before 14 s
  list : ∃ a node nodes, s.map.blockDefinitionExtensions = some (a, ⟨node :: nodes⟩) ∧
    node.definition.2.blockName = none

theorem slot_definitions (h : map.blockDefinitionExtensions = some (a, ⟨nodes⟩)) :
    (slots map)[13]? = some (listBlocks ⟨nodes⟩ ++ [a]) := by
  show some (structBlocks listBlocks map.blockDefinitionExtensions) = _
  rw [h]
  rfl

theorem slots_setDefinitions (h : map.blockDefinitionExtensions = some (a, ⟨nodes⟩))
    (f : List ListNode → List ListNode) :
    slots (setDefinitions f map) = (slots map).set 13 (listBlocks ⟨f nodes⟩ ++ [a]) := by
  simp only [setDefinitions, h, write, Option.map_some]
  rfl

theorem setDefinitions_list (h : map.blockDefinitionExtensions = some (a, ⟨nodes⟩))
    (f : List ListNode → List ListNode) :
    (setDefinitions f map).blockDefinitionExtensions = some (a, ⟨f nodes⟩) := by
  simp only [setDefinitions, h, write, Option.map_some]
  rfl

theorem listBlocks_cons (node : ListNode) (nodes : List ListNode) (hname : node.definition.2.blockName = none) :
    (listBlocks ⟨node :: nodes⟩).Perm ([node.address, node.definition.1] ++ listBlocks ⟨nodes⟩) := by
  rw [List.perm_iff_count]
  intro a
  simp only [listBlocks, definitionBlocks, hname, block, Option.toList_none, List.map_nil, List.nil_append,
    List.flatMap_cons, List.map_cons, List.count_append, List.count_cons, List.count_nil]
  omega

theorem meets_newDefinition (hs : Listing before s) :
    Meets env s newDefinition (fun _ s' => Unnamed before s') (Holding before) := by
  obtain ⟨hs, a, nodes, hlist⟩ := hs
  by_cases h : env.alloc s.allocations = true
  · refine meets_bind_of_some (if_pos h) ?_
    by_cases h' : env.alloc (s.allocations + 1) = true
    · refine meets_bind_of_some (if_pos h') ?_
      let node : ListNode := { address := s.heap.made + 1, definition := (s.heap.made, { blockName := none }) }
      have hslots := slots_setDefinitions hlist (node :: ·)
      have hblocks : (listBlocks ⟨node :: nodes⟩ ++ [a]).Perm
          ([s.heap.made + 1, s.heap.made] ++ (listBlocks ⟨nodes⟩ ++ [a])) := by
        rw [← List.append_assoc]
        exact (listBlocks_cons node nodes rfl).append_right [a]
      have howns : Owns before s.heap.make.make (slots (setDefinitions (node :: ·) s.map)).flatten := by
        rw [hslots]
        exact hs.owns.make.make.perm (BlockHeap.flatten_set_perm (slot_definitions hlist) hblocks).symm
      exact meets_of_some rfl
        ⟨⟨howns, later_set hslots hs.later⟩, a, node, nodes, setDefinitions_list hlist _, rfl⟩
    · -- the definition is freed, and the list is as it was
      refine meets_bind_of_some (if_neg h') ?_
      have howns : Owns before s.heap.make ([s.heap.made] ++ (slots s.map).flatten) := hs.owns.make
      obtain ⟨h', hfree, howns'⟩ := howns.freeAll
      rw [BlockHeap.freeAll_singleton] at hfree
      have hfreed (s' : Memory) (hs' : s'.heap = s.heap.make) :
          freeNow s.heap.made env s' = (some (), { s' with heap := h' }) := by
        simp only [freeNow, hs', hfree]
      exact meets_bind_of_some (hfreed _ rfl) (meets_of_none rfl howns')
  · exact meets_bind_of_some (if_neg h) (meets_of_none rfl hs.owns)

theorem meets_loadBlockDefinition (child : Node) (hs : Listing before s) :
    Meets env s (loadBlockDefinition child) (fun _ s' => Listing before s') (Holding before) := by
  refine meets_bind (meets_newDefinition hs) fun _ s' h => ?_
  obtain ⟨hs', a, node, nodes, hlist, hname⟩ := h
  refine meets_value hs'.owns fun loaded => ?_
  have hset (p : Ptr String) : slots (setDefinitions (nameHead p) s'.map) =
      (slots s'.map).set 13 (block p ++ (listBlocks ⟨node :: nodes⟩ ++ [a])) := by
    rw [slots_setDefinitions hlist]
    congr 1
    simp [nameHead, listBlocks, definitionBlocks, hname, block]
  refine meets_bind (meets_assign hs' (slot_definitions hlist) hset) fun _ s'' h => ?_
  obtain ⟨hs'', p, hmap⟩ := h
  have hlisting : Listing before s'' := ⟨hs'', a, nameHead p (node :: nodes), hmap ▸ setDefinitions_list hlist _⟩
  exact meets_value hs''.owns fun _ => meets_pure hlisting

theorem meets_loadDefinitions (children : List Node) (hs : Listing before s) :
    Meets env s (loadDefinitions children) (fun _ s' => Listing before s') (Holding before) := by
  induction children generalizing s with
  | nil => exact meets_pure hs
  | cons child children ih =>
    rw [loadDefinitions]
    split
    · exact meets_bind (meets_loadBlockDefinition child hs) fun _ s' hs' => ih hs'
    · exact ih hs

theorem builds_loadBlockDefinitions (ext : Node) : Builds 13 14 (loadBlockDefinitions ext) := by
  intro before env s hs
  refine meets_bind (meets_create hs (by decide) fun _ => rfl) fun _ s' h => ?_
  obtain ⟨hs', a, hmap⟩ := h
  have hlisting : Listing before s' := ⟨hs', a, [], by rw [hmap]⟩
  refine meets_value hs'.owns fun entries => ?_
  refine meets_bind (meets_loadDefinitions entries.2 hlisting) fun _ s'' h => ?_
  obtain ⟨hs'', a, nodes, hlist⟩ := h
  have hslots := slots_setDefinitions hlist List.reverse
  have hblocks : (listBlocks ⟨nodes.reverse⟩ ++ [a]).Perm ([] ++ (listBlocks ⟨nodes⟩ ++ [a])) := by
    have hreverse := List.reverse_perm nodes
    exact ((hreverse.flatMap_right _).append (hreverse.map _)).append_right [a]
  have howns : Owns before s''.heap (slots (setDefinitions List.reverse s''.map)).flatten := by
    rw [hslots]
    exact hs''.owns.perm (BlockHeap.flatten_set_perm (slot_definitions hlist) hblocks).symm
  exact meets_of_some rfl ⟨howns, later_set hslots hs''.later⟩

/-! ## The load -/

theorem builds_loadFields (root : Node) : Builds 0 14 (loadFields root) := by
  refine builds_set (fun _ => rfl) ?_
  refine Builds.bind (builds_assign (by decide) fun _ _ => rfl) fun _ => ?_
  refine builds_value fun formatVersion => builds_set (fun _ => rfl) ?_
  refine (builds_loadName root).bind fun _ => ?_
  refine builds_value fun uuid => builds_set (fun _ => rfl) ?_
  refine builds_value fun xSize => builds_set (fun _ => rfl) ?_
  refine builds_value fun ySize => builds_set (fun _ => rfl) ?_
  refine builds_value fun zSize => builds_set (fun _ => rfl) ?_
  refine Builds.bind (builds_loadString root _ _ (by decide) fun _ _ => rfl) fun _ => ?_
  refine Builds.bind (builds_loadString root _ _ (by decide) fun _ _ => rfl) fun _ => ?_
  refine Builds.bind (builds_loadString root _ _ (by decide) fun _ _ => rfl) fun _ => ?_
  refine Builds.bind (builds_loadString root _ _ (by decide) fun _ _ => rfl) fun _ => ?_
  refine (builds_loadTime root _ _).bind fun timeCreated => builds_set (fun _ => rfl) ?_
  refine (builds_loadTime root _ _).bind fun lastAccessed => builds_set (fun _ => rfl) ?_
  refine (builds_loadTime root _ _).bind fun lastModified => builds_set (fun _ => rfl) ?_
  refine builds_value fun spawnPosition => builds_set (fun _ => rfl) ?_
  refine (builds_loadBlocks root xSize ySize zSize).bind fun _ => ?_
  refine (builds_loadExtension root _ builds_loadCustomBlocks).bind fun _ => ?_
  refine (builds_loadExtension root _ fun _ => builds_loadStruct (by decide) (fun _ _ => rfl) _).bind fun _ => ?_
  refine (builds_loadExtension root _ fun _ => builds_loadStruct (by decide) (fun _ _ => rfl) _).bind fun _ => ?_
  refine (builds_loadExtension root _ (builds_loadEnvAppearance ySize)).bind fun _ => ?_
  refine (builds_loadExtension root _ fun _ => builds_loadStruct (by decide) (fun _ _ => rfl) _).bind fun _ => ?_
  exact builds_loadExtension root _ builds_loadBlockDefinitions

/-- From `memset` on, whatever was in the map before. -/
theorem meets_loadTree (root : Node) (hs : Owns before s.heap []) :
    Meets env s (loadTree root) (fun _ s' => Built before 14 s') (Holding before) := by
  have hnull : ∀ j < 14, (slots zeroMap)[j]? = some [] := by decide
  have hzero : Built before 0 { s with map := zeroMap } := ⟨hs, fun j _ hj => hnull j hj⟩
  exact meets_bind_of_some rfl (builds_loadFields root before env _ hzero)

/-- The tree is freed after all that was made while it was there. -/
theorem freeTree_eq (hs : Owns h.make s.heap as) (returned : Bool) :
    ∃ h', freeTree h.made returned s = some (returned, { s with heap := h' }) ∧ Owns h h' as := by
  have htree : Owns h h.make [h.made] := BlockHeap.owns_refl.make
  have hall : Owns h s.heap ([h.made] ++ as) := (htree.trans hs).perm List.perm_append_comm
  obtain ⟨h', hfree, howns⟩ := hall.freeAll
  rw [BlockHeap.freeAll_singleton] at hfree
  exact ⟨h', by rw [freeTree, hfree]; rfl, howns⟩

theorem failed_eq (hs : Owns before s.heap (slots s.map).flatten) :
    ∃ h', failed s = some { s with heap := h', map := zeroMap } ∧ Owns before h' [] := by
  obtain ⟨h', hfree, howns⟩ := (hs.perm (slots_perm s.map)).freeAll_owned
  exact ⟨h', by rw [failed, tcMapFinalize_eq, hfree]; rfl, howns⟩

theorem endLoad_some (hs : Built h.make 14 s) (u : Unit) :
    ∃ h', endLoad h.made (some u, s) = some (true, { s with heap := h' }) ∧ Owns h h' (owned s.map) :=
  freeTree_eq (hs.owns.perm (slots_perm s.map)) true

theorem endLoad_none (hs : Holding h.make s) (hrunning : s.crashed = false) :
    ∃ s', endLoad h.made (none, s) = some (false, s') ∧ Owns h s'.heap [] ∧ s'.map = zeroMap := by
  obtain ⟨h₁, hfailed, howns⟩ := failed_eq hs
  obtain ⟨h', hfree, howns'⟩ := freeTree_eq (s := { s with heap := h₁, map := zeroMap }) howns false
  refine ⟨{ s with heap := h', map := zeroMap }, ?_, howns', rfl⟩
  rw [endLoad, if_neg (by simp [hrunning]), hfailed]
  exact hfree

/-- The memory with the tree that `nbt_parse_path` has made. -/
def withTree (leaked : Nat) (s : Memory) : Memory :=
  { parse leaked s with heap := (parse leaked s).heap.make }

/-- The tree of a map. -/
def IsCompound (file : Option Node) : Prop := ∃ root, file = some root ∧ nodeType root = .compound

/-- A file without the tree of a map is refused, and the map is as it was. -/
theorem tcMapLoad_refused {parsed : Parsed} (hroot : ¬ IsCompound parsed.root) (env : Env) (s : Memory) :
    ∃ s', tcMapLoad parsed env s = some (false, s') ∧ Owns (parse parsed.leaked s).heap s'.heap [] ∧ s'.map = s.map := by
  obtain ⟨_ | root, leaked⟩ := parsed
  · exact ⟨_, rfl, BlockHeap.owns_refl, rfl⟩
  · have htype : nodeType root ≠ .compound := fun htype => hroot ⟨root, rfl, htype⟩
    have howns : Owns (parse leaked s).heap.make (withTree leaked s).heap [] := BlockHeap.owns_refl
    obtain ⟨h', hfree, howns'⟩ := freeTree_eq howns false
    exact ⟨_, (if_pos htype).trans hfree, howns', rfl⟩

theorem tcMapLoad_compound {root : Node} (hroot : nodeType root = .compound) (leaked : Nat) (env : Env) (s : Memory) :
    tcMapLoad ⟨some root, leaked⟩ env s = endLoad (parse leaked s).heap.made (loadTree root env (withTree leaked s)) :=
  if_neg (not_not_intro hroot)

theorem meets_withTree (root : Node) (leaked : Nat) (env : Env) (s : Memory) :
    Meets env (withTree leaked s) (loadTree root) (fun _ s' => Built (parse leaked s).heap.make 14 s')
      (Holding (parse leaked s).heap.make) :=
  meets_loadTree root BlockHeap.owns_refl

/-- What `tc_map_load` does to the memory: the blocks that are left are those of the
map, besides what the parser has left. -/
theorem tcMapLoad_memory (parsed : Parsed) (env : Env) (s : Memory) :
    tcMapLoad parsed env s = none ∨
      (∃ s', tcMapLoad parsed env s = some (true, s') ∧ Owns (parse parsed.leaked s).heap s'.heap (owned s'.map)) ∨
      ∃ s', tcMapLoad parsed env s = some (false, s') ∧ Owns (parse parsed.leaked s).heap s'.heap [] ∧
        (IsCompound parsed.root → s'.map = zeroMap) ∧ (¬ IsCompound parsed.root → s'.map = s.map) := by
  by_cases hcompound : IsCompound parsed.root
  · obtain ⟨_, leaked⟩ := parsed
    obtain ⟨root, rfl, hroot⟩ := hcompound
    have hmeets := meets_withTree root leaked env s
    rw [tcMapLoad_compound hroot]
    rcases hend : loadTree root env (withTree leaked s) with ⟨_ | u, s₁⟩
    · have hholding : Holding (parse leaked s).heap.make s₁ := by simpa [hend] using hmeets.2
      by_cases hcrashed : s₁.crashed = true
      · exact .inl (if_pos hcrashed)
      · obtain ⟨s', hload, howns, hmap⟩ := endLoad_none hholding (by simpa using hcrashed)
        exact .inr (.inr ⟨s', hload, howns, fun _ => hmap, fun hnot => absurd ⟨root, rfl, hroot⟩ hnot⟩)
    · have hbuilt : Built (parse leaked s).heap.make 14 s₁ := by simpa [hend] using hmeets.1
      obtain ⟨h', hload, howns⟩ := endLoad_some hbuilt u
      exact .inr (.inl ⟨_, hload, howns⟩)
  · obtain ⟨s', hload, howns, hmap⟩ := tcMapLoad_refused hcompound env s
    exact .inr (.inr ⟨s', hload, howns, fun hc => absurd hc hcompound, fun _ => hmap⟩)

theorem owns_parse (leaked : Nat) (s : Memory) :
    ∃ as : List Address, as.length = leaked ∧ Owns s.heap (parse leaked s).heap as := by
  induction leaked with
  | zero => exact ⟨[], rfl, BlockHeap.owns_refl⟩
  | succ leaked ih =>
    obtain ⟨as, hlength, howns⟩ := ih
    have hmake : (parse (leaked + 1) s).heap = (parse leaked s).heap.make := Function.iterate_succ_apply' ..
    rw [hmake]
    exact ⟨_ :: as, congrArg Nat.succ hlength, howns.make⟩

/-- A load that fails frees every block it has made once, if and only if the parser has.
It leaves an empty map, which there is nothing to free of, if and only if the file is a
compound, or the map was empty before. -/
theorem failed_load_empty_iff {parsed : Parsed} {s' : Memory} (h : tcMapLoad parsed env s = some (false, s')) :
    (Balanced s.heap s'.heap ↔ parsed.leaked = 0) ∧
      ((s'.map = zeroMap ∧ ∀ heap, tcMapFinalize s'.map heap = some heap) ↔
        IsCompound parsed.root ∨ s.map = zeroMap) := by
  have hzero (heap : BlockHeap) : tcMapFinalize zeroMap heap = some heap := by
    rw [tcMapFinalize_eq]
    rfl
  rcases tcMapLoad_memory parsed env s with hnone | ⟨s₁, htrue, -⟩ | ⟨s₁, hfalse, howns, hcompound, hother⟩
  · rw [hnone] at h
    cases h
  · rw [htrue] at h
    cases h
  · rw [hfalse] at h
    obtain rfl : s₁ = s' := by
      simpa using h
    constructor
    · obtain ⟨as, hlength, hleft⟩ := owns_parse parsed.leaked s
      rw [(hleft.trans howns).balanced_iff, List.nil_append, ← hlength, List.length_eq_zero_iff]
    · have hempty : s₁.map = zeroMap ↔ IsCompound parsed.root ∨ s.map = zeroMap := by
        by_cases hc : IsCompound parsed.root
        · simp [hc, hcompound hc]
        · simp [hc, hother hc]
      rw [← hempty]
      exact ⟨And.left, fun hmap => ⟨hmap, fun heap => hmap ▸ hzero heap⟩⟩

end

/-- Every allocation succeeds. -/
def enough : Env where
  path := "one.cw"
  clock := { timeCreated := 0, lastAccessed := 0, lastModified := 0 }
  misread := Impl.Map.strict
  alloc _ := true

/-- Four blocks: those of an entry and its key and lock, and one of something else. -/
def fourBlocks : BlockHeap where
  made := 4
  freed := []
  freed_lt := nofun
  nodup := List.nodup_nil

/-- What `p_malloc` leaves in an entry, here with a name that points to `a`. -/
def uninitialised (a : Address) : Memory where
  heap := fourBlocks
  map := { zeroMap with name := some (a, "") }
  allocations := 0
  crashed := false

/-- An entry of the cache with that map. -/
def entryOf (map : TcMap) : Entry where
  address := 0
  key := some (1, "one")
  lock := some (2, ())
  map := map

/-- A tree without a single field of a map. -/
def emptyWorld : Parsed := { root := some (.compound (some "ClassicWorld") []), leaked := 0 }

/-- The tree is a compound, and the load fails after it has made a lock. -/
theorem failed_load_empty_iff_compound :
    ∃ s', tcMapLoad emptyWorld enough (uninitialised 3) = some (false, s') ∧
      s'.heap.made = 6 ∧ Balanced fourBlocks s'.heap ∧ s'.map = zeroMap := by
  have hload : ∃ s', tcMapLoad emptyWorld enough (uninitialised 3) = some (false, s') ∧ s'.heap.made = 6 :=
    ⟨_, rfl, rfl⟩
  obtain ⟨s', hload, hmade⟩ := hload
  obtain ⟨hbalanced, hempty⟩ := failed_load_empty_iff hload
  exact ⟨s', hload, hmade, hbalanced.mpr rfl, (hempty.mpr (.inl ⟨_, rfl, rfl⟩)).1⟩

/-- A file that cannot be parsed, of which that many blocks are left. -/
def unparsable (leaked : Nat) : Parsed := { root := none, leaked := leaked }

/-- A file that cannot be parsed leaves the entry as it was. When the cache is finalized
it frees a block of something else, or crashes. A block that the parser has left is
never freed. -/
theorem uninitialised_finalized :
    tcMapLoad (unparsable 0) enough (uninitialised 3) = some (false, uninitialised 3) ∧
      (uninitialised 3).map ≠ zeroMap ∧
      (∃ h, tcMapCacheFinalize [entryOf (uninitialised 3).map] fourBlocks = some h ∧ 3 ∈ h.freed) ∧
      tcMapLoad (unparsable 0) enough (uninitialised 9) = some (false, uninitialised 9) ∧
      tcMapCacheFinalize [entryOf (uninitialised 9).map] fourBlocks = none ∧
      ∃ s', tcMapLoad (unparsable 1) enough (uninitialised 3) = some (false, s') ∧ s'.heap.Live 4 := by
  refine ⟨rfl, fun h => ?_, ⟨_, rfl, by decide⟩, rfl, rfl, _, rfl, by decide⟩
  exact absurd (congrArg TcMap.name h) (by decide)

end TC.Proof.MapMemory
