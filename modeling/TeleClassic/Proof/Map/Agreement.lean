import TeleClassic.Proof.Map.Dimensions
import TeleClassic.Proof.Map.Memory

/-!
# The load in memory and the loader

`tc_map_load` in memory does what the loader of `Impl.Map` does (`tcMapLoad_returns`):
it returns `TRUE` with the map that the loader makes of the tree (`Represents`), and
crashes where the loader ends in a bad read. It returns `FALSE` on what the loader
refuses, and when an allocation fails.
-/

namespace TC.Proof.MapMemory

open TC.Prog TC.Impl.Nbt TC.Impl.MapMemory
open TC.Impl.Map (LoadM)
open TC.Proof.Map (bind_ok)

variable {root : Node}

/-! ## Maps in memory -/

/-- What is stored where a pointer points to. -/
def stored {α : Type} (p : Ptr α) : Option α := p.map Prod.snd

/-- The names in a list of definitions. -/
def names (nodes : List ListNode) : List (Option String) := nodes.map fun node => stored node.definition.2.blockName

/-- The map in memory has the values of `m`; of the extensions, what their pointers
point to. -/
structure Represents (m : Impl.Map.TcMap) (map : TcMap) : Prop where
  uuid : map.uuid = m.uuid
  times : map.timeCreated = m.timeCreated ∧ map.lastAccessed = m.lastAccessed ∧ map.lastModified = m.lastModified
  name : stored map.name = some m.name
  createdBy : stored map.createdByService = m.createdByService ∧ stored map.createdByUsername = m.createdByUsername
  mapGen : stored map.mapGenSoftware = m.mapGenSoftware ∧ stored map.mapGenName = m.mapGenName
  sizes : map.xSize = m.xSize ∧ map.ySize = m.ySize ∧ map.zSize = m.zSize
  blockArray : stored map.blockArray = some m.blocks.blockArray.val
  blockArray2 : stored map.blockArray2 = m.blocks.blockArray2.map Subtype.val
  counts : map.blockArrayCount = BitVec.ofNat 64 m.blocks.blockArray.val.length ∧
    map.blockArray2Count = BitVec.ofNat 64 ((m.blocks.blockArray2.map Subtype.val).getD []).length
  customBlocks : (stored map.customBlocksExtension).map (fun cb => stored cb.fallbackBlocks) =
    m.customBlocksExtension.map fun cb => some cb.fallbackBlocks
  envColors : (stored map.envColorsExtension) = m.envColorsExtension.map fun _ => ()
  envAspect : (stored map.envAspectExtension) = m.envAspectExtension.map fun _ => ()
  envAppearance : (stored map.envAppearanceExtension).map (fun ea => stored ea.textureUrl) =
    m.envAppearanceExtension.map fun ea => some ea.textureUrl
  envWeather : (stored map.envWeatherExtension) = m.envWeatherExtension.map fun _ => ()
  blockDefinitions : (stored map.blockDefinitionExtensions).map (fun bd => names bd.blockDefinitions) =
    m.blockDefinitionExtensions.map fun bd => bd.blockDefinitions.map fun d => some d.blockName
  spawnPosition : map.spawnPosition = m.spawnPosition
  formatVersion : map.formatVersion = m.formatVersion
  isDirty : map.isDirty = m.isDirty

/-! ## Parts of the load -/

section

variable {α β γ : Type} {env : Env} {map : TcMap} {q : Unit → LoadP β} {set : Ptr γ → TcMap → TcMap}

/-- How a part of the load stops that does what `x` does: by a crash, at a check, or when
an allocation has failed. -/
def Stops (env : Env) (x : LoadM α) (s : Memory) : Prop :=
  (s.crashed = true ∧ x = .error .badRead) ∨
    s.crashed = false ∧ (x = .error .fail ∨ ∃ i < s.allocations, env.alloc i = false)

/-- From the map `map`, the part `p` of the load does what `x` does, and leaves a map in
the relation `Q` to its result. -/
def Agrees (env : Env) (map : TcMap) (x : LoadM α) (p : LoadP β) (Q : α → TcMap → Prop) : Prop :=
  ∀ s, s.map = map → s.crashed = false →
    Meets env s p (fun _ s' => s'.crashed = false ∧ ∃ a, x = .ok a ∧ Q a s'.map) (Stops env x)

variable {x : LoadM α} {Q : α → TcMap → Prop}

theorem agrees_pure {a : α} (b : β) (h : Q a map) : Agrees env map (pure a) (pure b) Q :=
  fun _ hmap hs => meets_pure ⟨hs, a, rfl, hmap ▸ h⟩

theorem Agrees.bind {p : LoadP β} {f : α → LoadM γ} {g : β → LoadP Unit} {Q' : γ → TcMap → Prop}
    (hp : Agrees env map x p Q) (hf : ∀ a b map', Q a map' → Agrees env map' (f a) (g b) Q') :
    Agrees env map (x >>= f) (p >>= g) Q' := by
  intro s hmap hs
  have hend := hp s hmap hs
  rcases hps : p env s with ⟨_ | b, s'⟩
  · rw [Meets, hps] at hend
    refine meets_of_none (bind_of_none hps) ?_
    rcases hend.2 rfl with ⟨hcrashed, rfl⟩ | ⟨hcrashed, rfl | halloc⟩
    · exact .inl ⟨hcrashed, rfl⟩
    · exact .inr ⟨hcrashed, .inl rfl⟩
    · exact .inr ⟨hcrashed, .inr halloc⟩
  · rw [Meets, hps] at hend
    obtain ⟨hcrashed, a, rfl, hQ⟩ := hend.1 b rfl
    exact meets_bind_of_some hps (hf a b s'.map hQ s' rfl hcrashed)

/-- The last part of a load, of which the loader returns the value with others. -/
theorem Agrees.last {p : LoadP β} {f : α → γ} {Q' : γ → TcMap → Prop} (hp : Agrees env map x p Q)
    (hf : ∀ a map', Q a map' → Q' (f a) map') : Agrees env map (f <$> x) p Q' := by
  intro s hmap hs
  refine (hp s hmap hs).imp (fun _ s' h => ?_) fun s' h => ?_
  · obtain ⟨hcrashed, a, rfl, hQ⟩ := h
    exact ⟨hcrashed, f a, rfl, hf a _ hQ⟩
  · rcases h with ⟨hcrashed, rfl⟩ | ⟨hcrashed, rfl | halloc⟩
    · exact .inl ⟨hcrashed, rfl⟩
    · exact .inr ⟨hcrashed, .inl rfl⟩
    · exact .inr ⟨hcrashed, .inr halloc⟩

/-- The same value is loaded in both. -/
theorem agrees_value {y : LoadM γ} {f : γ → LoadM α} {g : γ → LoadP β}
    (h : ∀ c, y = .ok c → Agrees env map (f c) (g c) Q) : Agrees env map (y >>= f) (value y >>= g) Q := by
  intro s hmap hs
  cases y with
  | ok c => exact meets_bind_of_some rfl (h c rfl s hmap hs)
  | error e =>
    cases e with
    | fail => exact meets_of_none rfl (.inr ⟨hs, .inl rfl⟩)
    | badRead => exact meets_of_none rfl (.inl ⟨rfl, rfl⟩)

/-- The last value that is loaded. -/
theorem agrees_last {g : α → LoadP β} (h : ∀ a, x = .ok a → Agrees env map (pure a) (g a) Q) :
    Agrees env map x (value x >>= g) Q := by
  have hvalue := agrees_value h
  rw [bind_pure] at hvalue
  exact hvalue

theorem agrees_set {f : TcMap → TcMap} (h : Agrees env (f map) x (q ()) Q) :
    Agrees env map x (setMap f >>= q) Q :=
  fun s hmap hs => meets_bind_of_some rfl (h { s with map := f s.map } (congrArg f hmap) hs)

/-- An allocation succeeds, or the load stops after it. -/
theorem agrees_new {v : γ} {g : Ptr γ → LoadP β} (h : ∀ a, Agrees env map x (g (some (a, v))) Q)
    (hnull : ∀ s, ∃ s', g none env s = (none, s') ∧ s'.crashed = s.crashed ∧ s'.allocations = s.allocations) :
    Agrees env map x (pNew v >>= g) Q := by
  intro s hmap hs
  by_cases halloc : env.alloc s.allocations = true
  · exact meets_bind_of_some (if_pos halloc) (h _ _ hmap hs)
  · obtain ⟨s', hstop, hcrashed, hcount⟩ := hnull { s with allocations := s.allocations + 1 }
    refine meets_bind_of_some (if_neg halloc) (meets_of_none hstop (.inr ⟨hcrashed.trans hs, .inr ⟨s.allocations, ?_, ?_⟩⟩))
    · rw [hcount]
      exact Nat.lt_succ_self _
    · simpa using halloc

theorem agrees_assign {v : γ} (h : ∀ a, Agrees env (set (some (a, v)) map) x (q ()) Q) :
    Agrees env map x (assign v set >>= q) Q := by
  rw [assign, prog_assoc]
  exact agrees_new (fun a => agrees_set (h a)) fun s => ⟨_, rfl, rfl, rfl⟩

theorem agrees_create {v : γ} (h : ∀ a, Agrees env (set (some (a, v)) map) x (q ()) Q) :
    Agrees env map x (create v set >>= q) Q := by
  rw [create, prog_assoc]
  exact agrees_new (fun a => agrees_set (h a)) fun s => ⟨_, rfl, rfl, rfl⟩

theorem agrees_assignSome {o : Option γ} (hnull : set none map = map)
    (h : ∀ p, stored p = o → Agrees env (set p map) x (q ()) Q) :
    Agrees env map x (assignSome o set >>= q) Q := by
  cases o with
  | none =>
    have hq := h none rfl
    rw [hnull] at hq
    exact hq
  | some v => exact agrees_assign fun a => h _ rfl

theorem agrees_time {tag : String} {now : Impl.Map.Clock → BitVec 64} {f : BitVec 64 → LoadM α}
    {g : BitVec 64 → LoadP β} (h : ∀ time, Agrees env map (f time) (g time) Q) :
    Agrees env map (Impl.Map.loadTime env.toLoadEnv root tag now >>= f) (loadTime root tag now >>= g) Q :=
  fun s => agrees_value (fun time _ => h time) s

theorem agrees_string {compound tag : String} {set : Ptr String → TcMap → TcMap}
    {f : Option String → LoadM α} (hnull : set none map = map)
    (h : ∀ p, Agrees env (set p map) (f (stored p)) (q ()) Q) :
    Agrees env map (Impl.Map.loadString env.toLoadEnv root compound tag >>= f)
      (loadString root compound tag set >>= q) Q := by
  simp only [loadString, prog_assoc]
  refine fun s => agrees_value (g := fun v => assignSome v set >>= q) (fun o _ => ?_) s
  refine agrees_assignSome hnull fun p hp => ?_
  rw [← hp]
  exact h p

/-- An extension, with what is stored in it of a value. -/
theorem agrees_extension {ε δ : Type} {name : String} {load : Node → LoadM γ} {load' : Node → LoadP Unit}
    (set : Ptr ε → TcMap → TcMap) (view : ε → δ) (of : γ → δ) (hnull : set none map = map)
    (hload : ∀ ext, Agrees env map (load ext) (load' ext) fun c map' => ∃ a e, view e = of c ∧ map' = set (some (a, e)) map) :
    Agrees env map (Impl.Map.loadExtension root name load) (loadExtension root name load') fun o map' =>
      ∃ p, (stored p).map view = o.map of ∧ map' = set p map := by
  rw [Impl.Map.loadExtension, loadExtension]
  cases Impl.Map.extension root name with
  | none => exact agrees_pure () ⟨none, rfl, hnull.symm⟩
  | some ext =>
    refine (hload ext).last fun c map' hmap' => ?_
    obtain ⟨a, e, he, rfl⟩ := hmap'
    exact ⟨some (a, e), congrArg some he, rfl⟩

theorem agrees_name {f : String → LoadM α}
    (h : ∀ v a, Agrees env { map with name := some (a, v) } (f v) (q ()) Q) :
    Agrees env map (Impl.Map.loadName env.path root >>= f) (loadName root >>= q) Q := by
  simp only [loadName, prog_assoc]
  exact fun s => agrees_value (g := fun v => assign v _ >>= q) (fun v _ => agrees_assign (h v)) s

theorem agrees_blocks {xSize ySize zSize : BitVec 16} {f : Impl.Map.Blocks xSize ySize zSize → LoadM α}
    (hnull : map.blockArray2 = none)
    (h : ∀ b a p, stored p = b.blockArray2.map Subtype.val → Agrees env { map with
      blockArrayCount := BitVec.ofNat 64 b.blockArray.val.length
      blockArray := some (a, b.blockArray.val)
      blockArray2Count := BitVec.ofNat 64 ((b.blockArray2.map Subtype.val).getD []).length
      blockArray2 := p } (f b) (q ()) Q) :
    Agrees env map (Impl.Map.loadBlocks root xSize ySize zSize >>= f) (loadBlocks root xSize ySize zSize >>= q) Q := by
  simp only [Impl.Map.loadBlocks, loadBlocks, prog_assoc, bind_assoc, pure_bind]
  refine agrees_value fun b _ => agrees_set (agrees_assign fun a => agrees_value fun b2 _ => agrees_set ?_)
  refine agrees_assignSome ?_ fun p hp => h ⟨b.val, b2.val, _, _, _, _⟩ a p hp
  rw [← hnull]

/-! ## Extensions -/

theorem agrees_loadCustomBlocks (ext : Node) :
    Agrees env map (Impl.Map.loadCustomBlocks ext) (loadCustomBlocks ext) fun cb map' =>
      ∃ a e, stored e.fallbackBlocks = some cb.fallbackBlocks ∧
        map' = { map with customBlocksExtension := some (a, e) } := by
  refine agrees_create fun a => ?_
  refine agrees_last fun cb _ => ?_
  rw [← prog_bind_pure (assign _ _)]
  exact agrees_assign fun b => agrees_pure () ⟨a, _, rfl, rfl⟩

theorem agrees_loadStruct {x : LoadM γ} {set : Ptr Unit → TcMap → TcMap} :
    Agrees env map x (loadStruct x set) fun _ map' => ∃ a e, e = () ∧ map' = set (some (a, e)) map :=
  agrees_create fun a => agrees_last fun _ _ => agrees_pure () ⟨a, (), rfl, rfl⟩

theorem textureUrl_eq {ySize : BitVec 16} {ext : Node} {version : BitVec 32} {url : String}
    {e : Impl.Map.EnvAppearance ySize} (h : Impl.Map.loadLevels ySize ext version url = .ok e) : e.textureUrl = url := by
  simp only [Impl.Map.loadLevels, bind_ok] at h
  obtain ⟨_, -, _, -, _, -, h⟩ := h
  split at h
  · simp only [bind_ok] at h
    obtain ⟨_, -, _, -, h⟩ := h
    exact Except.ok.inj h ▸ rfl
  · exact Except.ok.inj h ▸ rfl

theorem agrees_loadEnvAppearance (ySize : BitVec 16) (ext : Node) :
    Agrees env map (Impl.Map.loadEnvAppearance ySize ext) (loadEnvAppearance ySize ext) fun ea map' =>
      ∃ a e, stored e.textureUrl = some ea.textureUrl ∧ map' = { map with envAppearanceExtension := some (a, e) } := by
  refine agrees_create fun a => agrees_value fun version _ => agrees_value fun url _ => agrees_assign fun b => ?_
  refine agrees_last fun ea hea => agrees_pure () ⟨a, ⟨some (b, url)⟩, ?_, rfl⟩
  rw [textureUrl_eq hea]
  rfl

theorem agrees_newDefinition (h : ∀ a b, Agrees env (setDefinitions (⟨a, b, ⟨none⟩⟩ :: ·) map) x (q ()) Q) :
    Agrees env map x (newDefinition >>= q) Q := by
  rintro s rfl hs
  rw [newDefinition, prog_assoc]
  by_cases hfirst : env.alloc s.allocations = true
  · refine meets_bind_of_some (if_pos hfirst) ?_
    dsimp only
    rw [prependDefinition, prog_assoc]
    by_cases hsecond : env.alloc (s.allocations + 1) = true
    · exact meets_bind_of_some (if_pos hsecond) (meets_bind_of_some rfl (h _ _ _ rfl hs))
    · -- the definition is live, and is freed before the load stops
      have hlive : s.heap.make.Live s.heap.made := BlockHeap.live_make.mpr (.inr rfl)
      have hfree (s' : Memory) (hs' : s'.heap = s.heap.make) :
          freeNow s.heap.made env s' = (some (), { s' with heap := s.heap.make.release _ hlive }) := by
        simp only [freeNow, hs', BlockHeap.free_of_live hlive]
      refine meets_bind_of_some (if_neg hsecond) (meets_assoc (meets_bind_of_some (hfree _ rfl) ?_))
      exact meets_of_none rfl (.inr ⟨hs, .inr ⟨s.allocations + 1, Nat.lt_succ_self _, by simpa using hsecond⟩⟩)
  · refine meets_bind_of_some (if_neg hfirst) (meets_of_none rfl (.inr ⟨hs, .inr ⟨s.allocations, ?_, ?_⟩⟩))
    · exact Nat.lt_succ_self _
    · simpa using hfirst

theorem blockName_eq {child : Node} {id : BitVec 8} {name : String} {d : Impl.Map.BlockDefinition}
    (h : Impl.Map.loadBlockFields child id name = .ok d) : d.blockName = name := by
  simp only [Impl.Map.loadBlockFields, bind_ok] at h
  obtain ⟨_, -, _, -, _, -, _, -, _, -, _, -, _, -, _, -, _, -, _, -, _, -, _, -, _, -, h⟩ := h
  exact Except.ok.inj h ▸ rfl

/-- The definitions in memory are those loaded so far, the last first. -/
def Lists (map : TcMap) (definitions : List Impl.Map.BlockDefinition) (map' : TcMap) : Prop :=
  ∃ a nodes, map' = { map with blockDefinitionExtensions := some (a, ⟨nodes⟩) } ∧
    names nodes = definitions.map fun d => some d.blockName

theorem agrees_loadBlockDefinition {map₀ : TcMap} {acc : List Impl.Map.BlockDefinition} (hmap : Lists map₀ acc map)
    (child : Node) : Agrees env map (Impl.Map.loadBlockDefinition child) (loadBlockDefinition child) fun d map' =>
      Lists map₀ (d :: acc) map' := by
  obtain ⟨a, nodes, rfl, hnames⟩ := hmap
  refine agrees_newDefinition fun b c => agrees_value fun loaded _ => agrees_assign fun e => ?_
  refine agrees_last fun d hd => agrees_pure () ⟨a, ⟨b, c, ⟨some (e, loaded.2)⟩⟩ :: nodes, rfl, ?_⟩
  rw [List.map_cons, ← hnames, blockName_eq hd]
  rfl

theorem agrees_loadDefinitions {map₀ : TcMap} {acc : List Impl.Map.BlockDefinition} (hmap : Lists map₀ acc map)
    (children : List Node) : Agrees env map (Impl.Map.loadDefinitions acc children) (loadDefinitions children)
      fun ds map' => Lists map₀ ds.reverse map' := by
  induction children generalizing acc map with
  | nil => exact agrees_pure () (acc.reverse_reverse.symm ▸ hmap)
  | cons child children ih =>
    rw [Impl.Map.loadDefinitions, loadDefinitions]
    by_cases hblock : Impl.Map.isBlock child = true
    · rw [if_pos hblock, if_pos hblock]
      exact (agrees_loadBlockDefinition hmap child).bind fun d _ map' hmap' => ih hmap'
    · rw [if_neg hblock, if_neg hblock]
      exact ih hmap

theorem agrees_loadBlockDefinitions (ext : Node) :
    Agrees env map (Impl.Map.loadBlockDefinitions ext) (loadBlockDefinitions ext) fun bd map' =>
      ∃ a e, names e.blockDefinitions = bd.blockDefinitions.map (fun d => some d.blockName) ∧
        map' = { map with blockDefinitionExtensions := some (a, e) } := by
  refine agrees_create fun a => agrees_value fun loaded _ => ?_
  have hempty : Lists { map with blockDefinitionExtensions := some (a, ⟨[]⟩) } []
      { map with blockDefinitionExtensions := some (a, ⟨[]⟩) } := ⟨a, [], rfl, rfl⟩
  refine (agrees_loadDefinitions hempty loaded.2).bind fun ds _ map' hmap' => ?_
  obtain ⟨b, nodes, rfl, hnames⟩ := hmap'
  rw [← prog_bind_pure (setMap _)]
  refine agrees_set (agrees_pure () ⟨b, ⟨nodes.reverse⟩, ?_, rfl⟩)
  rw [names, List.map_reverse]
  exact (congrArg List.reverse hnames).trans (by simp)

/-! ## The load -/

theorem agrees_loadFields (env : Env) (hroot : nodeType root = .compound) :
    Agrees env zeroMap (Impl.Map.tcMapLoad env.toLoadEnv (some root)) (loadFields root) Represents := by
  have hload : Impl.Map.loadRoot (some root) = .ok root := (Proof.Map.loadRoot_ok).mpr ⟨rfl, hroot⟩
  rw [Impl.Map.tcMapLoad, hload]
  refine agrees_set (agrees_assign fun lock => ?_)
  refine agrees_value fun formatVersion _ => agrees_set (agrees_name fun name aname => ?_)
  refine agrees_value fun uuid _ => agrees_set ?_
  refine agrees_value fun xSize _ => agrees_set ?_
  refine agrees_value fun ySize _ => agrees_set ?_
  refine agrees_value fun zSize _ => agrees_set ?_
  refine agrees_string rfl fun service => agrees_string rfl fun username => ?_
  refine agrees_string rfl fun software => agrees_string rfl fun generator => ?_
  refine agrees_time fun timeCreated => agrees_set ?_
  refine agrees_time fun lastAccessed => agrees_set ?_
  refine agrees_time fun lastModified => agrees_set ?_
  refine agrees_value fun spawnPosition _ => agrees_set ?_
  refine agrees_blocks rfl fun blocks ablocks ablocks2 hblocks2 => ?_
  dsimp only
  refine (agrees_extension (fun p map => { map with customBlocksExtension := p }) (fun cb => stored cb.fallbackBlocks)
    (fun cb => some cb.fallbackBlocks) rfl agrees_loadCustomBlocks).bind fun custom _ _ h => ?_
  obtain ⟨pcustom, hcustom, rfl⟩ := h
  dsimp only
  refine (agrees_extension (fun p map => { map with envColorsExtension := p }) id (fun _ => ()) rfl
    fun _ => agrees_loadStruct).bind fun colors _ _ h => ?_
  obtain ⟨pcolors, hcolors, rfl⟩ := h
  dsimp only
  refine (agrees_extension (fun p map => { map with envAspectExtension := p }) id (fun _ => ()) rfl
    fun _ => agrees_loadStruct).bind fun aspect _ _ h => ?_
  obtain ⟨paspect, haspect, rfl⟩ := h
  dsimp only
  refine (agrees_extension (fun p map => { map with envAppearanceExtension := p }) (fun ea => stored ea.textureUrl)
    (fun ea => some ea.textureUrl) rfl (agrees_loadEnvAppearance ySize)).bind fun appearance _ _ h => ?_
  obtain ⟨pappearance, happearance, rfl⟩ := h
  dsimp only
  refine (agrees_extension (fun p map => { map with envWeatherExtension := p }) id (fun _ => ()) rfl
    fun _ => agrees_loadStruct).bind fun weather _ _ h => ?_
  obtain ⟨pweather, hweather, rfl⟩ := h
  dsimp only
  refine (agrees_extension (fun p map => { map with blockDefinitionExtensions := p })
    (fun bd => names bd.blockDefinitions) (fun bd => bd.blockDefinitions.map fun d => some d.blockName) rfl
    agrees_loadBlockDefinitions).last fun definitions _ h => ?_
  obtain ⟨pdefinitions, hdefinitions, rfl⟩ := h
  simp only [id_eq, Option.map_id] at hcolors haspect hweather
  exact
    { uuid := rfl, times := ⟨rfl, rfl, rfl⟩, name := rfl, createdBy := ⟨rfl, rfl⟩, mapGen := ⟨rfl, rfl⟩
      sizes := ⟨rfl, rfl, rfl⟩, blockArray := rfl, blockArray2 := hblocks2, counts := ⟨rfl, rfl⟩
      customBlocks := hcustom, envColors := hcolors, envAspect := haspect, envAppearance := happearance
      envWeather := hweather, blockDefinitions := hdefinitions, spawnPosition := rfl, formatVersion := rfl
      isDirty := rfl }

end

/-- `tc_map_load` returns `TRUE` with the map that the loader makes of the tree, crashes
where the loader ends in a bad read, and returns `FALSE` on what it refuses or after an
allocation has failed. -/
theorem tcMapLoad_returns (parsed : Parsed) (env : Env) (s : Memory) :
    (∀ s', tcMapLoad parsed env s = some (true, s') →
      ∃ m, Impl.Map.tcMapLoad env.toLoadEnv parsed.root = .ok m ∧ Represents m s'.map) ∧
      (tcMapLoad parsed env s = none → Impl.Map.tcMapLoad env.toLoadEnv parsed.root = .error .badRead) ∧
      ∀ s', tcMapLoad parsed env s = some (false, s') →
        Impl.Map.tcMapLoad env.toLoadEnv parsed.root = .error .fail ∨ ∃ i, env.alloc i = false := by
  by_cases hcompound : IsCompound parsed.root
  · obtain ⟨_, leaked⟩ := parsed
    obtain ⟨root, rfl, hroot⟩ := hcompound
    have hagrees := agrees_loadFields env hroot { withTree leaked s with map := zeroMap } rfl rfl
    have hmeets : Meets env { withTree leaked s with map := zeroMap } (loadFields root) _ _ :=
      meets_withTree root leaked env s
    have hstart : loadTree root env (withTree leaked s) =
        loadFields root env { withTree leaked s with map := zeroMap } := rfl
    rw [tcMapLoad_compound hroot, hstart]
    rcases hend : loadFields root env { withTree leaked s with map := zeroMap } with ⟨_ | u, s₁⟩
    · rw [Meets, hend] at hagrees hmeets
      rcases hagrees.2 rfl with ⟨hcrashed, hbad⟩ | ⟨hrunning, hfail⟩
      · rw [endLoad, if_pos hcrashed]
        exact ⟨by simp, fun _ => hbad, by simp⟩
      · obtain ⟨s', hload, -⟩ := endLoad_none (hmeets.2 rfl) hrunning
        rw [hload]
        refine ⟨by simp, by simp, fun _ _ => ?_⟩
        obtain hfail | ⟨i, -, hi⟩ := hfail
        · exact .inl hfail
        · exact .inr ⟨i, hi⟩
    · rw [Meets, hend] at hagrees hmeets
      obtain ⟨-, m, hm, hrepresents⟩ := hagrees.1 u rfl
      obtain ⟨h', hload, -⟩ := endLoad_some (hmeets.1 u rfl) u
      rw [hload]
      refine ⟨fun s' hs' => ⟨m, hm, ?_⟩, by simp, by simp⟩
      simp only [Option.some.injEq, Prod.mk.injEq, true_and] at hs'
      exact hs' ▸ hrepresents
  · obtain ⟨s', hload, -, -⟩ := tcMapLoad_refused hcompound env s
    have hroot : Impl.Map.loadRoot parsed.root = .error .fail := by
      cases hfound : parsed.root.filter fun root => nodeType root = .compound with
      | none => rw [Impl.Map.loadRoot, hfound]; rfl
      | some root => exact absurd ⟨root, by simpa [Option.filter_eq_some_iff] using hfound⟩ hcompound
    have hrefused : Impl.Map.tcMapLoad env.toLoadEnv parsed.root = .error .fail := by
      rw [Impl.Map.tcMapLoad, hroot]
      rfl
    rw [hload]
    exact ⟨by simp, by simp, fun _ _ => .inl hrefused⟩

section

variable {env : Env}

/-- With enough memory the load returns `TRUE` on what the loader makes a map of. -/
theorem tcMapLoad_ok (halloc : ∀ i, env.alloc i = true) {parsed : Parsed} {m : Impl.Map.TcMap}
    (h : Impl.Map.tcMapLoad env.toLoadEnv parsed.root = .ok m) (s : Memory) :
    ∃ s', tcMapLoad parsed env s = some (true, s') ∧ Represents m s'.map := by
  obtain ⟨htrue, hnone, hfalse⟩ := tcMapLoad_returns parsed env s
  rcases hload : tcMapLoad parsed env s with _ | ⟨_ | _, s'⟩
  · have hbad := hnone hload
    rw [h] at hbad
    cases hbad
  · rcases hfalse s' hload with hfail | ⟨i, hi⟩
    · rw [h] at hfail
      cases hfail
    · rw [halloc i] at hi
      cases hi
  · obtain ⟨m', hm', hrepresents⟩ := htrue s' hload
    obtain rfl := Except.ok.inj (h.symm.trans hm')
    exact ⟨s', rfl, hrepresents⟩

/-! ## Dimensions -/

/-- The dimensions of a map in memory are sound. -/
abbrev Sound (map : TcMap) : Prop :=
  Proof.Map.SoundDimensions map.xSize map.ySize map.zSize map.blockArrayCount.toNat
    (map.blockArray2.map fun _ => map.blockArray2Count.toNat)

theorem toNat_length (b : Bytes) : (BitVec.ofNat 64 b.val.length).toNat = b.val.length := by
  have hlength := b.property
  rw [BitVec.toNat_ofNat, Nat.mod_eq_of_lt (by omega)]

theorem Represents.sound {m : Impl.Map.TcMap} {map : TcMap} (h : Represents m map) :
    Sound map ↔ Proof.Map.Sound m := by
  obtain ⟨hx, hy, hz⟩ := h.sizes
  obtain ⟨hcount, hcount2⟩ := h.counts
  have hlength2 : (map.blockArray2.map fun _ => map.blockArray2Count.toNat) =
      m.blocks.blockArray2.map (·.val.length) := by
    have hstored := h.blockArray2
    rw [hcount2]
    rcases hp : map.blockArray2 with _ | ⟨a, bytes⟩
    · rw [hp] at hstored
      cases hb : m.blocks.blockArray2 with
      | none => rfl
      | some b => simp [stored, hb] at hstored
    · rw [hp] at hstored
      obtain ⟨b, hb, rfl⟩ := Option.map_eq_some_iff.mp hstored.symm
      rw [hb]
      exact congrArg some (toNat_length b)
  rw [Sound, hx, hy, hz, hcount, toNat_length, hlength2]

/-- A map that is accepted is sound if and only if the sizes in its tree are positive and
their product fits in an `int`, whatever was read of nodes of another type. -/
theorem sound_dimensions_iff {root : Node} {leaked : Nat} {s s' : Memory}
    (h : tcMapLoad ⟨some root, leaked⟩ env s = some (true, s')) : Sound s'.map ↔ Proof.Map.SmallSizes root := by
  obtain ⟨m, hm, hrepresents⟩ := (tcMapLoad_returns ⟨some root, leaked⟩ env s).1 s' h
  rw [hrepresents.sound, Proof.Map.sound_iff hm]

end

open TC.Impl.Map (nbtMakeCompound nbtMakeByte nbtMakeByteArray nbtMakeShort saveSpawn saveTree)
open TC.Proof.Map (oneBlock minusOne)

/-- A world of one block with a byte as its `TimeCreated`. -/
def byteTime : Node :=
  nbtMakeCompound "ClassicWorld"
    [nbtMakeByte "FormatVersion" 1, nbtMakeByteArray "UUID" (.ofVector (.replicate 16 0) (.refl true)),
      nbtMakeShort "X" 1, nbtMakeShort "Y" 1, nbtMakeShort "Z" 1, nbtMakeByte "TimeCreated" 7,
      saveSpawn oneBlock.spawnPosition, nbtMakeByteArray "BlockArray" oneBlock.blocks.blockArray]

/-- What is read of a node of another type is zero. -/
def zeros : Env where
  path := "one.cw"
  clock := enough.clock
  misread
    | .long, _ => .ok 0
    | _, _ => .error .badRead
  alloc _ := true

/-- The load reads the byte as a time, and leaves a sound map. -/
theorem sound_dimensions_iff_byteTime :
    ∃ s', tcMapLoad ⟨some byteTime, 0⟩ zeros (uninitialised 3) = some (true, s') ∧ s'.map.timeCreated = 0 ∧
      (Sound s'.map ↔ Proof.Map.SmallSizes byteTime) := by
  have hload : ∃ s', tcMapLoad ⟨some byteTime, 0⟩ zeros (uninitialised 3) = some (true, s') ∧ s'.map.timeCreated = 0 :=
    ⟨_, rfl, rfl⟩
  obtain ⟨s', hload, htime⟩ := hload
  exact ⟨s', hload, htime, sound_dimensions_iff hload⟩

/-- The tree of `minusOne` is accepted, with sizes that are not positive. -/
theorem negative_sizes_accepted :
    ∃ s', tcMapLoad ⟨some (saveTree minusOne), 0⟩ enough (uninitialised 3) = some (true, s') ∧ ¬ Sound s'.map := by
  obtain ⟨s', hload, hrepresents⟩ : ∃ s', tcMapLoad ⟨some (saveTree minusOne), 0⟩ enough (uninitialised 3) =
      some (true, s') ∧ Represents (Proof.Map.reload minusOne) s'.map :=
    tcMapLoad_ok (fun _ => rfl) (Proof.Map.load_saveTree _ minusOne) (uninitialised 3)
  refine ⟨s', hload, fun hs => ?_⟩
  have hX : ¬ 1 ≤ (-1 : BitVec 16).toInt := by decide
  exact hX (hrepresents.sound.mp hs).sizes.1

end TC.Proof.MapMemory
