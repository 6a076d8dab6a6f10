import TeleClassic.Proof.Map.Dimensions

/-!
# Which payloads a load reads

Every lookup that goes through `nbt_expect` reads the member of the type it was
checked for (`required_eq`, `ifExpected_eq`). Seven lookups do not: the four
strings of `CreatedBy` and `MapGenerator` and the three times go through
`nbt_find_by_path` and are read as they are. The load is type safe if and only
if it fails before those lookups, or each of the seven nodes that is there has
the type it is read as (`type_safe_iff`).
-/

namespace TC.Proof.Map

open TC.Impl.Nbt TC.Impl.Map

variable {α : Type} {type : NbtType} {root : Node}

/-! ## Parts of the loader that read what they have checked -/

def Safe {α : Type} (x : LoadM α) : Prop := x ≠ .error .badRead

@[simp]
theorem safe_bind {β : Type} {x : LoadM α} {f : α → LoadM β} :
    Safe (x >>= f) ↔ Safe x ∧ ∀ a, x = .ok a → Safe (f a) := by
  cases x with
  | error e => simp [Safe, bind, Except.bind]
  | ok a => simp [Safe, bind, Except.bind]

@[simp]
theorem safe_map {β : Type} {x : LoadM α} (f : α → β) : Safe (f <$> x) ↔ Safe x := by
  cases x with
  | error e => simp [Safe, Functor.map, Except.map]
  | ok a => simp [Safe, Functor.map, Except.map]

@[simp]
theorem safe_ok (a : α) : Safe (.ok a : LoadM α) := by simp [Safe]

@[simp]
theorem safe_pure (a : α) : Safe (pure a : LoadM α) := safe_ok a

@[simp]
theorem safe_fail : Safe (.error .fail : LoadM α) := by simp [Safe]

@[simp]
theorem safe_throw : Safe (throw .fail : LoadM α) := safe_fail

@[simp]
theorem safe_need (o : Option α) : Safe (need o) := by
  cases o with
  | none => exact safe_fail
  | some a => exact safe_ok a

@[simp]
theorem safe_firstBytes (n : Nat) (bytes : Bytes) : Safe (firstBytes n bytes) := by
  rw [firstBytes]
  split
  · exact safe_ok _
  · exact safe_fail

@[simp]
theorem safe_allBytes (n : Nat) (bytes : Bytes) : Safe (allBytes n bytes) := by
  rw [allBytes]
  split
  · exact safe_fail
  · exact safe_firstBytes n bytes

theorem safe_member {n : Node} (h : nodeType n = type) (misread : Misread) :
    Safe (member misread type n) := by
  obtain ⟨v, -, hread⟩ := member_of_type h misread
  rw [hread]
  exact safe_ok v

theorem safe_loadExtension {name : String} {load : Node → LoadM α}
    (h : ∀ ext, nodeType ext = .compound → Safe (load ext)) : Safe (loadExtension root name load) := by
  rw [loadExtension]
  split
  · exact safe_ok _
  · rename_i ext hext
    exact (safe_map some).mpr (h ext (nodeType_expect hext))

theorem safe_loadBlocks (root : Node) (x y z : BitVec 16) : Safe (loadBlocks root x y z) := by
  have harray : Safe (loadBlockArray root x y z) := by
    rw [loadBlockArray, required_eq]
    refine safe_bind.mpr ⟨safe_need _, fun b _ => ?_⟩
    split
    · exact safe_pure _
    · exact safe_throw
  have harray2 (n : Nat) : Safe (loadBlockArray2 root n) := by
    rw [loadBlockArray2, ifExpected_eq, ok_bind]
    split
    · exact safe_pure _
    · exact safe_throw
  exact safe_bind.mpr ⟨harray, fun _ _ => safe_bind.mpr ⟨harray2 _, fun _ _ => safe_pure _⟩⟩

theorem safe_loadVersion (ext : Node) : Safe (loadVersion ext) := by simp [loadVersion, ifExpected_eq]

theorem safe_loadColor (parent : Node) (tag : String) : Safe (loadColor parent tag) := by
  rw [loadColor]
  split
  · exact safe_pure _
  · rename_i compound _
    split
    · exact safe_throw
    · refine safe_bind.mpr ⟨safe_need _, fun r hr => safe_bind.mpr ⟨safe_need _, fun g hg => ?_⟩⟩
      refine safe_bind.mpr ⟨safe_need _, fun b hb => ?_⟩
      have hred := safe_member (nodeType_expect (need_ok.mp hr)) strict
      have hgreen := safe_member (nodeType_expect (need_ok.mp hg)) strict
      have hblue := safe_member (nodeType_expect (need_ok.mp hb)) strict
      simp [hred, hgreen, hblue]

theorem safe_loadLevels (ySize : BitVec 16) (ext : Node) (version : BitVec 32) (url : String) :
    Safe (loadLevels ySize ext version url) := by
  simp only [loadLevels, required_eq, safe_bind, safe_need, true_and]
  intro _ _ _ _ _ _
  split
  · simp
  · exact safe_pure _

theorem safe_loadBlockDefinition (child : Node) : Safe (loadBlockDefinition child) := by
  simp [loadBlockDefinition, loadBlockName, loadBlockFields, loadAllow, required_eq, ifExpected_eq]

theorem safe_loadDefinitions (acc : List BlockDefinition) (children : List Node) :
    Safe (loadDefinitions acc children) := by
  induction children generalizing acc with
  | nil => exact safe_ok _
  | cons child children ih =>
    rw [loadDefinitions]
    split
    · exact safe_bind.mpr ⟨safe_loadBlockDefinition child, fun _ _ => ih _⟩
    · exact ih acc

theorem safe_loadBlockDefinitions {ext : Node} (h : nodeType ext = .compound) : Safe (loadBlockDefinitions ext) := by
  simp [loadBlockDefinitions, loadEntries, safe_loadVersion, safe_member h, safe_loadDefinitions]

/-- The part of the load after the seven lookups. -/
theorem safe_loadExtensions (root : Node) (ySize : BitVec 16) :
    Safe (loadExtension root "CustomBlocks" loadCustomBlocks) ∧
      Safe (loadExtension root "EnvColors" loadEnvColors) ∧
      Safe (loadExtension root "EnvAspect" loadEnvAspect) ∧
      Safe (loadExtension root "EnvMapAppearance" (loadEnvAppearance ySize)) ∧
      Safe (loadExtension root "EnvWeatherType" loadEnvWeather) ∧
      Safe (loadExtension root "BlockDefinitions" loadBlockDefinitions) := by
  refine ⟨safe_loadExtension fun ext _ => ?_, safe_loadExtension fun ext _ => ?_, safe_loadExtension fun ext _ => ?_,
    safe_loadExtension fun ext _ => ?_, safe_loadExtension fun ext _ => ?_, safe_loadExtension fun ext hext => ?_⟩
  · simp [loadCustomBlocks, safe_loadVersion, required_eq]
  · simp [loadEnvColors, safe_loadVersion, safe_loadColor]
  · simp [loadEnvAspect, safe_loadVersion, required_eq]
  · simp [loadEnvAppearance, loadAppearanceVersion, loadTextureUrl, safe_loadLevels, required_eq, ifExpected_eq]
  · simp [loadEnvWeather, safe_loadVersion, required_eq]
  · exact safe_loadBlockDefinitions hext

/-! ## Type safety -/

/-- The nodes that are read as strings without a check. -/
def stringPaths : List (List String) :=
  [["ClassicWorld", "CreatedBy", "Service"], ["ClassicWorld", "CreatedBy", "Username"],
    ["ClassicWorld", "MapGenerator", "Software"], ["ClassicWorld", "MapGenerator", "MapGeneratorName"]]

/-- The nodes that are read as longs without a check. -/
def longPaths : List (List String) :=
  [["ClassicWorld", "TimeCreated"], ["ClassicWorld", "LastAccessed"], ["ClassicWorld", "LastModified"]]

/-- The nodes that are read without a check are what they are read as. -/
def WellTyped (root : Node) : Prop :=
  (∀ path ∈ stringPaths, ∀ n, nbtFindByPath path root = some n → nodeType n = .string) ∧
    ∀ path ∈ longPaths, ∀ n, nbtFindByPath path root = some n → nodeType n = .long

/-- What a tree has if its load gets as far as those nodes. -/
structure HasHead (root : Node) : Prop where
  compound : nodeType root = .compound
  formatVersion : (expect .byte root ["ClassicWorld", "FormatVersion"]).isSome
  uuid : ∃ uuid, expect .byteArray root ["ClassicWorld", "UUID"] = some uuid ∧ uuid.val.length = 16
  xSize : (expect .short root ["ClassicWorld", "X"]).isSome
  ySize : (expect .short root ["ClassicWorld", "Y"]).isSome
  zSize : (expect .short root ["ClassicWorld", "Z"]).isSome

/-- A node of the right type is read as what it is, whatever a misread gives. -/
theorem unchecked_eq {path : List String} (h : ∀ n, nbtFindByPath path root = some n → nodeType n = type)
    (misread : Misread) :
    unchecked misread type root path = .ok ((nbtFindByPath path root).bind (Node.member? type)) := by
  rw [unchecked]
  cases hn : nbtFindByPath path root with
  | none => rfl
  | some n =>
    obtain ⟨v, hv, hread⟩ := member_of_type (h n hn) misread
    rw [ifFound, hread, Option.bind_some, hv]
    rfl

theorem safe_unchecked (type : NbtType) (root : Node) (path : List String) :
    Safe (unchecked strict type root path) ↔ ∀ n, nbtFindByPath path root = some n → nodeType n = type := by
  constructor
  · intro hsafe n hn
    rw [← isSome_member?, ← Option.ne_none_iff_isSome]
    intro hnone
    rw [unchecked, hn, ifFound, member, hnone] at hsafe
    exact hsafe rfl
  · intro h
    rw [unchecked_eq h]
    exact safe_ok _

theorem ok_of_safe_unchecked {path : List String} (h : Safe (unchecked strict type root path)) :
    ∃ a, unchecked strict type root path = .ok a :=
  ⟨_, unchecked_eq ((safe_unchecked type root path).mp h) strict⟩

theorem allBytes_ok {n : Nat} {bytes : Bytes} {v : Vector Byte n} (h : allBytes n bytes = .ok v) :
    bytes.val.length = n := by
  rw [allBytes] at h
  split at h
  · cases h
  · rename_i hn
    exact Decidable.not_not.mp hn

theorem allBytes_of_length {n : Nat} {bytes : Bytes} (h : bytes.val.length = n) :
    ∃ v, allBytes n bytes = .ok v := by
  rw [allBytes, if_neg (not_not_intro h), firstBytes, dif_pos (by omega)]
  exact ⟨_, rfl⟩

/-- A load that has its head goes on to the seven lookups. -/
theorem hasHead_iff (root : Node) : HasHead root ↔
    loadRoot (some root) = .ok root ∧ (∃ v, loadFormatVersion root = .ok v) ∧ (∃ v, loadUuid root = .ok v) ∧
      (∃ x, loadSize root "X" = .ok x) ∧ (∃ y, loadSize root "Y" = .ok y) ∧ ∃ z, loadSize root "Z" = .ok z := by
  have huuid : (∃ v, loadUuid root = .ok v) ↔
      ∃ uuid, expect .byteArray root ["ClassicWorld", "UUID"] = some uuid ∧ uuid.val.length = 16 := by
    simp only [loadUuid, required_eq, bind_ok, need_ok]
    constructor
    · rintro ⟨v, bytes, hbytes, hv⟩
      exact ⟨bytes, hbytes, allBytes_ok hv⟩
    · rintro ⟨bytes, hbytes, hlength⟩
      obtain ⟨v, hv⟩ := allBytes_of_length hlength
      exact ⟨v, bytes, hbytes, hv⟩
  rw [huuid]
  simp only [loadRoot_ok, true_and, loadFormatVersion, loadSize, required_eq, need_ok, ← Option.isSome_iff_exists]
  constructor
  · intro h
    exact ⟨h.compound, h.formatVersion, h.uuid, h.xSize, h.ySize, h.zSize⟩
  · rintro ⟨hc, hf, hu, hx, hy, hz⟩
    exact ⟨hc, hf, hu, hx, hy, hz⟩

theorem loadName_ok (path : String) (root : Node) : ∃ name, loadName path root = .ok name := by
  rw [loadName, ifExpected_eq]
  exact ⟨_, rfl⟩

/-- The reads of the seven nodes are the only ones that can go wrong. -/
theorem safe_of_unchecked (env : LoadEnv) (root : Node)
    (h : HasHead root → (∀ path ∈ stringPaths, Safe (unchecked env.misread .string root path)) ∧
      ∀ path ∈ longPaths, Safe (unchecked env.misread .long root path)) : Safe (tcMapLoad env (some root)) := by
  simp only [tcMapLoad, safe_bind, safe_pure, and_true, implies_true, loadString, loadTime]
  refine ⟨safe_need _, fun r hr => ?_⟩
  obtain rfl := Option.some.inj (loadRoot_ok.mp hr).1
  refine ⟨by simp [loadFormatVersion, required_eq], fun version hversion => ?_⟩
  refine ⟨by simp [loadName, ifExpected_eq], fun _ _ => ⟨by simp [loadUuid, required_eq], fun uuid huuid => ?_⟩⟩
  refine ⟨by simp [loadSize, required_eq], fun x hx => ⟨by simp [loadSize, required_eq], fun y hy => ?_⟩⟩
  refine ⟨by simp [loadSize, required_eq], fun z hz => ?_⟩
  have hreads := h ((hasHead_iff root).mpr ⟨hr, ⟨_, hversion⟩, ⟨_, huuid⟩, ⟨_, hx⟩, ⟨_, hy⟩, _, hz⟩)
  simp only [stringPaths, longPaths, List.forall_mem_cons] at hreads
  obtain ⟨⟨hs₁, hs₂, hs₃, hs₄, -⟩, hl₁, hl₂, hl₃, -⟩ := hreads
  obtain ⟨hcustom, hcolors, haspect, happearance, hweather, hdefinitions⟩ := safe_loadExtensions root y
  simp [hs₁, hs₂, hs₃, hs₄, hl₁, hl₂, hl₃, hcustom, hcolors, haspect, happearance, hweather, hdefinitions,
    safe_loadBlocks, loadSpawn, required_eq]

theorem safe_load (path : String) (clock : Clock) (root : Node) :
    Safe (tcMapLoad ⟨path, clock, strict⟩ (some root)) ↔ (HasHead root → WellTyped root) := by
  constructor
  · intro h head
    simp only [tcMapLoad, safe_bind, safe_pure, and_true, implies_true, loadString, loadTime] at h
    obtain ⟨hroot, ⟨version, hversion⟩, ⟨uuid, huuid⟩, ⟨x, hx⟩, ⟨y, hy⟩, ⟨z, hz⟩⟩ := (hasHead_iff root).mp head
    obtain ⟨name, hname⟩ := loadName_ok path root
    obtain ⟨-, h⟩ := h.2 root hroot
    obtain ⟨-, h⟩ := h version hversion
    obtain ⟨-, h⟩ := h name hname
    obtain ⟨-, h⟩ := h uuid huuid
    obtain ⟨-, h⟩ := h x hx
    obtain ⟨-, h⟩ := h y hy
    obtain ⟨hs₁, h⟩ := h z hz
    obtain ⟨_, hs⟩ := ok_of_safe_unchecked hs₁
    obtain ⟨hs₂, h⟩ := h _ hs
    obtain ⟨_, hs⟩ := ok_of_safe_unchecked hs₂
    obtain ⟨hs₃, h⟩ := h _ hs
    obtain ⟨_, hs⟩ := ok_of_safe_unchecked hs₃
    obtain ⟨hs₄, h⟩ := h _ hs
    obtain ⟨_, hs⟩ := ok_of_safe_unchecked hs₄
    obtain ⟨hl₁, h⟩ := h _ hs
    obtain ⟨_, hs⟩ := ok_of_safe_unchecked hl₁
    obtain ⟨hl₂, h⟩ := h _ (by rw [hs]; rfl)
    obtain ⟨_, hs⟩ := ok_of_safe_unchecked hl₂
    obtain ⟨hl₃, -⟩ := h _ (by rw [hs]; rfl)
    simp only [WellTyped, stringPaths, longPaths, List.forall_mem_cons, ← safe_unchecked]
    exact ⟨⟨hs₁, hs₂, hs₃, hs₄, List.forall_mem_nil _⟩, hl₁, hl₂, hl₃, List.forall_mem_nil _⟩
  · intro h
    refine safe_of_unchecked ⟨path, clock, strict⟩ root fun head => ?_
    obtain ⟨hs, hl⟩ := h head
    exact ⟨fun path hpath => (safe_unchecked _ _ _).mpr (hs path hpath),
      fun path hpath => (safe_unchecked _ _ _).mpr (hl path hpath)⟩

/-- A load reads every payload as what it is if and only if the tree has not
what the load needs before it reads the seven nodes, or those have the types
that they are read as. -/
theorem type_safe_iff (path : String) (clock : Clock) (file : Option Node) :
    tcMapLoad ⟨path, clock, strict⟩ file ≠ .error .badRead ↔
      ∀ root, file = some root → HasHead root → WellTyped root := by
  cases file with
  | none => simp [tcMapLoad, loadRoot, need, bind, Except.bind]
  | some root =>
    simp only [Option.some.injEq, forall_eq']
    exact safe_load path clock root

/-- A world whose `CreatedBy` has a byte as its `Service`. -/
def byteService : Node :=
  nbtMakeCompound "ClassicWorld"
    [nbtMakeByte "FormatVersion" 1, nbtMakeByteArray "UUID" (.ofVector (.replicate 16 0) (.refl true)),
      nbtMakeShort "X" 1, nbtMakeShort "Y" 1, nbtMakeShort "Z" 1,
      nbtMakeCompound "CreatedBy" [nbtMakeByte "Service" 7]]

/-- The load of `byteService` reads a byte as a string. -/
theorem byteService_read_as_string :
    nbtFindByPath ["ClassicWorld", "CreatedBy", "Service"] byteService = some (nbtMakeByte "Service" 7) ∧
      tcMapLoad midnight (some byteService) = .error .badRead :=
  ⟨rfl, rfl⟩

end TC.Proof.Map
