import TeleClassic.Impl.Nbt

/-!
# Maps (`map.c`)

A map in memory, `tc_map_load`, which reads it from an NBT tree, and
`tc_map_save`, which builds the tree again and writes it. What the loader
checks of a map is part of its type: the block arrays fit its dimensions
(`Blocks`), and the appearance of a version below 2 has the defaults of that
version (`EnvAppearance`).

`tc_map_load` is the loader on the parsed tree when its allocations succeed; a
`p_malloc` of no bytes gives `NULL`, so an empty array fails. The lookup of a
node, the check of `node->type` and the read of a member of `node->payload` are
steps of their own. Floats are their bits. `int` arithmetic wraps around.
-/

namespace TC.Impl.Map

open TC.Impl.Nbt

/-! ## Maps -/

structure CustomBlocks where
  fallbackBlocks : Vector Byte 256
  extensionVersion : BitVec 32
  supportLevel : BitVec 16
deriving DecidableEq

structure ColorConfig where
  red : BitVec 16
  green : BitVec 16
  blue : BitVec 16
deriving DecidableEq

structure EnvColors where
  sky : ColorConfig
  cloud : ColorConfig
  fog : ColorConfig
  ambient : ColorConfig
  sunlight : ColorConfig
  extensionVersion : BitVec 32
deriving DecidableEq

structure EnvAspect where
  sideBlock : BitVec 8
  edgeBlock : BitVec 8
  cloudsHeight : BitVec 32
  cloudsSpeed : BitVec 32
  edgeHeight : BitVec 32
  useExponentialFog : BitVec 8
  sideOffset : BitVec 32
  weatherFade : BitVec 32
  weatherSpeed : BitVec 32
  extensionVersion : BitVec 32
deriving DecidableEq

/-- The appearance of a map of height `ySize`. -/
structure EnvAppearance (ySize : BitVec 16) where
  textureUrl : String
  sideBlock : BitVec 8
  edgeBlock : BitVec 8
  sideLevel : BitVec 16
  cloudLevel : BitVec 16
  maximumViewDistance : BitVec 16
  extensionVersion : BitVec 32
  version1 : extensionVersion.toInt < 2 → cloudLevel = ySize + 2 ∧ maximumViewDistance = 0

structure EnvWeather where
  extensionVersion : BitVec 32
  weatherType : BitVec 8
deriving DecidableEq

structure BlockDefinition where
  textures : Vector Byte 6
  coords : Vector Byte 6
  fog : Vector Byte 4
  blockName : String
  speed : BitVec 32
  allowPlacement : Bool
  allowDeletion : Bool
  transmitsLight : BitVec 8
  walkSound : BitVec 8
  shape : BitVec 8
  blockDraw : BitVec 8
  blockId : BitVec 8
deriving DecidableEq

structure BlockDefinitions where
  extensionVersion : BitVec 32
  blockDefinitions : List BlockDefinition
deriving DecidableEq

/-- `x_size * y_size * z_size`, as an `int` that is compared with a `psize`. -/
def volume (xSize ySize zSize : BitVec 16) : BitVec 64 :=
  (xSize.signExtend 32 * ySize.signExtend 32 * zSize.signExtend 32).signExtend 64

/-- The block arrays of a map of that size. -/
structure Blocks (xSize ySize zSize : BitVec 16) where
  blockArray : Bytes
  blockArray2 : Option Bytes
  dimensions : BitVec.ofNat 64 blockArray.val.length = volume xSize ySize zSize
  nonempty : blockArray.val ≠ []
  enough2 : ∀ b ∈ blockArray2, blockArray.val.length ≤ b.val.length * 4
  nonempty2 : ∀ b ∈ blockArray2, b.val ≠ []

structure SpawnPosition where
  x : BitVec 16
  y : BitVec 16
  z : BitVec 16
  heading : BitVec 8
  pitch : BitVec 8
deriving DecidableEq

/-- `tc_map_t`, less its lock. -/
structure TcMap where
  uuid : Vector Byte 16
  timeCreated : BitVec 64
  lastAccessed : BitVec 64
  lastModified : BitVec 64
  name : String
  createdByService : Option String
  createdByUsername : Option String
  mapGenSoftware : Option String
  mapGenName : Option String
  xSize : BitVec 16
  ySize : BitVec 16
  zSize : BitVec 16
  blocks : Blocks xSize ySize zSize
  customBlocksExtension : Option CustomBlocks
  envColorsExtension : Option EnvColors
  envAppearanceExtension : Option (EnvAppearance ySize)
  envWeatherExtension : Option EnvWeather
  envAspectExtension : Option EnvAspect
  blockDefinitionExtensions : Option BlockDefinitions
  spawnPosition : SpawnPosition
  formatVersion : BitVec 8
  isDirty : Bool

/-! ## Loading -/

/-- Why a load gives no map: it returns `FALSE`, or it reads a payload as what
it is not, and does not survive that. -/
inductive LoadError where
  | fail
  | badRead
deriving DecidableEq, Repr

abbrev LoadM := Except LoadError

/-- `if (!n) { goto fail; }` -/
def need {α : Type} : Option α → LoadM α
  | some a => .ok a
  | none => .error .fail

/-- What the read of a member gives that is not the one of the node's type. -/
abbrev Misread := (type : NbtType) → Node → LoadM (Member type)

/-- No such read is survived. -/
def strict : Misread := fun _ _ => .error .badRead

/-- The read of a member of `node->payload`, whatever was checked before. -/
def member (misread : Misread) (type : NbtType) (node : Node) : LoadM (Member type) :=
  match node.member? type with
  | some v => .ok v
  | none => misread type node

def nbtExpect (parent : Node) (path : List String) (type : NbtType) : Option Node :=
  let n := match path with
    | [name] => nbtFindByName name parent
    | _ => nbtFindByPath path parent
  n.filter fun n => nodeType n = type

/-- `n = nbt_expect(..); if (!n) { goto fail; }` with the type `check`, and the
member `type` of `n`. -/
def required (check type : NbtType) (parent : Node) (path : List String) : LoadM (Member type) := do
  let n ← need (nbtExpect parent path check)
  member strict type n

/-- A member of `n`, if there is an `n`. -/
def ifFound (misread : Misread) (type : NbtType) : Option Node → LoadM (Option (Member type))
  | none => .ok none
  | some n => some <$> member misread type n

/-- `n = nbt_expect(..); if (n) { .. }`. -/
def ifExpected (check type : NbtType) (parent : Node) (path : List String) : LoadM (Option (Member type)) :=
  ifFound strict type (nbtExpect parent path check)

/-- `n = nbt_find_by_path(..); if (n) { .. }`, of whatever type. -/
def unchecked (misread : Misread) (type : NbtType) (parent : Node) (path : List String) :
    LoadM (Option (Member type)) :=
  ifFound misread type (nbtFindByPath path parent)

/-- The first `n` bytes of an array of at least `n`. -/
def firstBytes (n : Nat) (bytes : Bytes) : LoadM (Vector Byte n) :=
  if h : n ≤ bytes.val.length then
    .ok ⟨(bytes.val.take n).toArray, by rw [List.size_toArray, List.length_take, Nat.min_eq_left h]⟩
  else .error .fail

/-- The bytes of an array of exactly `n`. -/
def allBytes (n : Nat) (bytes : Bytes) : LoadM (Vector Byte n) :=
  if bytes.val.length ≠ n then .error .fail else firstBytes n bytes

/-- The stem of the file name in a path. -/
def nameFromPath (path : String) : String :=
  let base := (path.toList.reverse.takeWhile (· ≠ '/')).reverse
  if '.' ∈ base then String.ofList ((base.reverse.dropWhile (· ≠ '.')).drop 1).reverse
  else String.ofList base

/-- What `time` returns for each time that is not in the tree. -/
structure Clock where
  timeCreated : BitVec 64
  lastAccessed : BitVec 64
  lastModified : BitVec 64

/-- What a load depends on, besides the tree. -/
structure LoadEnv where
  path : String
  clock : Clock
  misread : Misread

def loadFormatVersion (root : Node) : LoadM (BitVec 8) := required .byte .byte root ["ClassicWorld", "FormatVersion"]

def loadName (path : String) (root : Node) : LoadM String := do
  let name ← ifExpected .string .string root ["ClassicWorld", "Name"]
  return name.getD (nameFromPath path)

def loadUuid (root : Node) : LoadM (Vector Byte 16) := do
  let uuid ← required .byteArray .byteArray root ["ClassicWorld", "UUID"]
  allBytes 16 uuid

def loadSize (root : Node) (tag : String) : LoadM (BitVec 16) := required .short .short root ["ClassicWorld", tag]

/-- A string of `CreatedBy` or `MapGenerator`. -/
def loadString (env : LoadEnv) (root : Node) (compound tag : String) : LoadM (Option String) :=
  unchecked env.misread .string root ["ClassicWorld", compound, tag]

def loadTime (env : LoadEnv) (root : Node) (tag : String) (now : Clock → BitVec 64) : LoadM (BitVec 64) := do
  let time ← unchecked env.misread .long root ["ClassicWorld", tag]
  return time.getD (now env.clock)

def loadSpawn (root : Node) : LoadM SpawnPosition := do
  let x ← required .short .short root ["ClassicWorld", "Spawn", "X"]
  let y ← required .short .short root ["ClassicWorld", "Spawn", "Y"]
  let z ← required .short .short root ["ClassicWorld", "Spawn", "Z"]
  let heading ← required .byte .byte root ["ClassicWorld", "Spawn", "H"]
  let pitch ← required .byte .byte root ["ClassicWorld", "Spawn", "P"]
  return { x, y, z, heading, pitch }

/-- `block_array`, with what is checked of it. -/
def loadBlockArray (root : Node) (xSize ySize zSize : BitVec 16) :
    LoadM { b : Bytes // BitVec.ofNat 64 b.val.length = volume xSize ySize zSize ∧ b.val ≠ [] } := do
  let blockArray ← required .byteArray .byteArray root ["ClassicWorld", "BlockArray"]
  if h : BitVec.ofNat 64 blockArray.val.length = volume xSize ySize zSize ∧ blockArray.val ≠ [] then
    return ⟨blockArray, h⟩
  else throw .fail

/-- `block_array2`, which is optional. -/
def loadBlockArray2 (root : Node) (count : Nat) :
    LoadM { o : Option Bytes // ∀ b ∈ o, count ≤ b.val.length * 4 ∧ b.val ≠ [] } := do
  let blockArray2 ← ifExpected .byteArray .byteArray root ["ClassicWorld", "BlockArray2"]
  if h : ∀ b ∈ blockArray2, count ≤ b.val.length * 4 ∧ b.val ≠ [] then return ⟨blockArray2, h⟩ else throw .fail

def loadBlocks (root : Node) (xSize ySize zSize : BitVec 16) : LoadM (Blocks xSize ySize zSize) := do
  let blockArray ← loadBlockArray root xSize ySize zSize
  let blockArray2 ← loadBlockArray2 root blockArray.val.val.length
  return {
    blockArray := blockArray.val, blockArray2 := blockArray2.val
    dimensions := blockArray.property.1, nonempty := blockArray.property.2
    enough2 := fun b hb => (blockArray2.property b hb).1, nonempty2 := fun b hb => (blockArray2.property b hb).2 }

/-- The compound of an extension. -/
def extension (root : Node) (name : String) : Option Node :=
  nbtExpect root ["ClassicWorld", "Metadata", "CPE", name] .compound

/-- The extension of that name, if it is there. -/
def loadExtension {α : Type} (root : Node) (name : String) (load : Node → LoadM α) : LoadM (Option α) :=
  match extension root name with
  | none => .ok none
  | some ext => some <$> load ext

def loadVersion (ext : Node) : LoadM (BitVec 32) := do
  let v ← ifExpected .int .int ext ["ExtensionVersion"]
  return v.getD 1

def loadCustomBlocks (ext : Node) : LoadM CustomBlocks := do
  let extensionVersion ← loadVersion ext
  let supportLevel ← required .short .short ext ["SupportLevel"]
  let fallback ← required .byteArray .byteArray ext ["Fallback"]
  let fallbackBlocks ← allBytes 256 fallback
  return { fallbackBlocks, supportLevel, extensionVersion }

/-- `load_color`; a color that is absent stays zero. All three components are
looked up before one is read. -/
def loadColor (parent : Node) (tag : String) : LoadM ColorConfig := do
  match nbtFindByName tag parent with
  | none => return { red := 0, green := 0, blue := 0 }
  | some compound =>
    if nodeType compound ≠ .compound then throw .fail
    else
      let r ← need (nbtExpect compound ["R"] .short)
      let g ← need (nbtExpect compound ["G"] .short)
      let b ← need (nbtExpect compound ["B"] .short)
      let red ← member strict .short r
      let green ← member strict .short g
      let blue ← member strict .short b
      return { red, green, blue }

def loadEnvColors (ext : Node) : LoadM EnvColors := do
  let extensionVersion ← loadVersion ext
  let sky ← loadColor ext "Sky"
  let cloud ← loadColor ext "Cloud"
  let fog ← loadColor ext "Fog"
  let ambient ← loadColor ext "Ambient"
  let sunlight ← loadColor ext "Sunlight"
  return { sky, cloud, fog, ambient, sunlight, extensionVersion }

def loadEnvAspect (ext : Node) : LoadM EnvAspect := do
  let extensionVersion ← loadVersion ext
  let sideBlock ← required .byte .byte ext ["SideBlock"]
  let edgeBlock ← required .byte .byte ext ["EdgeBlock"]
  let cloudsHeight ← required .int .int ext ["CloudsHeight"]
  let cloudsSpeed ← required .float .float ext ["CloudsSpeed"]
  let edgeHeight ← required .int .int ext ["EdgeHeight"]
  let useExponentialFog ← required .byte .byte ext ["UseExponentialFog"]
  let sideOffset ← required .int .int ext ["SideOffset"]
  let weatherFade ← required .float .float ext ["WeatherFade"]
  let weatherSpeed ← required .float .float ext ["WeatherSpeed"]
  return { sideBlock, edgeBlock, cloudsHeight, cloudsSpeed, edgeHeight, useExponentialFog, sideOffset,
           weatherFade, weatherSpeed, extensionVersion }

/-- The version of an appearance; without one it depends on whether a field of
version 2 is there. -/
def loadAppearanceVersion (ext : Node) : LoadM (BitVec 32) := do
  let v ← ifExpected .int .int ext ["ExtensionVersion"]
  let hasV2Fields := (nbtFindByName "CloudLevel" ext).isSome ∨ (nbtFindByName "MaximumViewDistance" ext).isSome
  return v.getD (if hasV2Fields then 2 else 1)

def loadTextureUrl (ext : Node) : LoadM String := required .string .string ext ["TextureURL"]

/-- The fields of an appearance after its URL. -/
def loadLevels (ySize : BitVec 16) (ext : Node) (extensionVersion : BitVec 32) (textureUrl : String) :
    LoadM (EnvAppearance ySize) := do
  let sideBlock ← required .byte .byte ext ["SideBlock"]
  let edgeBlock ← required .byte .byte ext ["EdgeBlock"]
  let sideLevel ← required .short .short ext ["SideLevel"]
  if h : extensionVersion.toInt ≥ 2 then
    let cloudLevel ← required .short .short ext ["CloudLevel"]
    let maximumViewDistance ← required .short .short ext ["MaximumViewDistance"]
    return { textureUrl, sideBlock, edgeBlock, sideLevel, cloudLevel, maximumViewDistance, extensionVersion,
             version1 := fun h' => absurd h' (by omega) }
  else
    return { textureUrl, sideBlock, edgeBlock, sideLevel, cloudLevel := ySize + 2,
             maximumViewDistance := 0, extensionVersion, version1 := fun _ => ⟨rfl, rfl⟩ }

def loadEnvAppearance (ySize : BitVec 16) (ext : Node) : LoadM (EnvAppearance ySize) := do
  let extensionVersion ← loadAppearanceVersion ext
  let textureUrl ← loadTextureUrl ext
  loadLevels ySize ext extensionVersion textureUrl

def loadEnvWeather (ext : Node) : LoadM EnvWeather := do
  let extensionVersion ← loadVersion ext
  let weatherType ← required .byte .byte ext ["WeatherType"]
  return { weatherType, extensionVersion }

/-- `AllowPlacement` and `AllowDeletion`: allowed unless the byte is 1. -/
def loadAllow (child : Node) (tag : String) : LoadM Bool := do
  let v ← ifExpected .byte .byte child [tag]
  return v.all (· ≠ 1)

/-- The fields of a definition up to its name. -/
def loadBlockName (child : Node) : LoadM (BitVec 8 × String) := do
  let blockId ← required .byte .byte child ["ID"]
  let blockName ← required .string .string child ["Name"]
  return (blockId, blockName)

/-- The fields of a definition after its name. -/
def loadBlockFields (child : Node) (blockId : BitVec 8) (blockName : String) : LoadM BlockDefinition := do
  let speed ← required .float .float child ["Speed"]
  let textures ← required .byteArray .byteArray child ["Textures"]
  let textures ← firstBytes 6 textures
  let transmitsLight ← required .byte .byte child ["TransmitsLight"]
  let walkSound ← required .byte .byte child ["WalkSound"]
  let shape ← required .byte .byte child ["Shape"]
  let blockDraw ← required .byte .byte child ["BlockDraw"]
  let fog ← required .byteArray .byteArray child ["Fog"]
  let fog ← firstBytes 4 fog
  let coords ← required .byteArray .byteArray child ["Coords"]
  let coords ← firstBytes 6 coords
  let allowPlacement ← loadAllow child "AllowPlacement"
  let allowDeletion ← loadAllow child "AllowDeletion"
  return { blockId, blockName, speed, textures, transmitsLight, walkSound, shape, blockDraw, fog, coords,
           allowPlacement, allowDeletion }

def loadBlockDefinition (child : Node) : LoadM BlockDefinition := do
  let (blockId, blockName) ← loadBlockName child
  loadBlockFields child blockId blockName

/-- The children that the loop over a `BlockDefinitions` compound does not
skip. -/
def isBlock (child : Node) : Bool :=
  nodeType child = .compound ∧ ∃ name ∈ child.name, name.toList.take 5 = "Block".toList

/-- The loop, with the definitions so far in `acc`, the last first. -/
def loadDefinitions (acc : List BlockDefinition) : List Node → LoadM (List BlockDefinition)
  | [] => .ok acc.reverse
  | child :: children =>
    if isBlock child then do
      let definition ← loadBlockDefinition child
      loadDefinitions (definition :: acc) children
    else loadDefinitions acc children

/-- The version of the definitions, and the entries of their compound. -/
def loadEntries (ext : Node) : LoadM (BitVec 32 × List Node) := do
  let extensionVersion ← loadVersion ext
  let entries ← member strict .compound ext
  return (extensionVersion, entries)

def loadBlockDefinitions (ext : Node) : LoadM BlockDefinitions := do
  let (extensionVersion, entries) ← loadEntries ext
  let blockDefinitions ← loadDefinitions [] entries
  return { blockDefinitions, extensionVersion }

/-- The root of a map. -/
def loadRoot (file : Option Node) : LoadM Node := need (file.filter fun root => nodeType root = .compound)

/-- `tc_map_load` on what `nbt_parse_path` returns. -/
def tcMapLoad (env : LoadEnv) (file : Option Node) : LoadM TcMap := do
  let root ← loadRoot file
  let formatVersion ← loadFormatVersion root
  let name ← loadName env.path root
  let uuid ← loadUuid root
  let xSize ← loadSize root "X"
  let ySize ← loadSize root "Y"
  let zSize ← loadSize root "Z"
  let createdByService ← loadString env root "CreatedBy" "Service"
  let createdByUsername ← loadString env root "CreatedBy" "Username"
  let mapGenSoftware ← loadString env root "MapGenerator" "Software"
  let mapGenName ← loadString env root "MapGenerator" "MapGeneratorName"
  let timeCreated ← loadTime env root "TimeCreated" Clock.timeCreated
  let lastAccessed ← loadTime env root "LastAccessed" Clock.lastAccessed
  let lastModified ← loadTime env root "LastModified" Clock.lastModified
  let spawnPosition ← loadSpawn root
  let blocks ← loadBlocks root xSize ySize zSize
  let customBlocksExtension ← loadExtension root "CustomBlocks" loadCustomBlocks
  let envColorsExtension ← loadExtension root "EnvColors" loadEnvColors
  let envAspectExtension ← loadExtension root "EnvAspect" loadEnvAspect
  let envAppearanceExtension ← loadExtension root "EnvMapAppearance" (loadEnvAppearance ySize)
  let envWeatherExtension ← loadExtension root "EnvWeatherType" loadEnvWeather
  let blockDefinitionExtensions ← loadExtension root "BlockDefinitions" loadBlockDefinitions
  return {
    uuid, name, createdByService, createdByUsername, mapGenSoftware, mapGenName, xSize, ySize, zSize,
    blocks, customBlocksExtension, envColorsExtension, envAspectExtension, envAppearanceExtension,
    envWeatherExtension, blockDefinitionExtensions, spawnPosition, formatVersion, timeCreated, lastAccessed,
    lastModified, isDirty := false }

/-! ## Saving -/

def nbtMakeByte (name : String) (v : BitVec 8) : Node := .leaf (some name) (.byte v)

def nbtMakeShort (name : String) (v : BitVec 16) : Node := .leaf (some name) (.short v)

def nbtMakeInt (name : String) (v : BitVec 32) : Node := .leaf (some name) (.int v)

def nbtMakeLong (name : String) (v : BitVec 64) : Node := .leaf (some name) (.long v)

def nbtMakeFloat (name : String) (v : BitVec 32) : Node := .leaf (some name) (.float v)

def nbtMakeString (name : String) (v : String) : Node := .leaf (some name) (.string v)

def nbtMakeByteArray (name : String) (v : Bytes) : Node := .leaf (some name) (.byteArray v)

/-- `nbt_make_compound`, with what `nbt_put` adds to it. -/
def nbtMakeCompound (name : String) (items : List Node) : Node := .compound (some name) items

/-- A compound of two optional strings, if one of them is there: `CreatedBy`
and `MapGenerator`. -/
def saveStrings (name first second : String) (a b : Option String) : List Node :=
  if a.isSome ∨ b.isSome then
    [nbtMakeCompound name ((a.map (nbtMakeString first)).toList ++ (b.map (nbtMakeString second)).toList)]
  else []

def saveSpawn (p : SpawnPosition) : Node :=
  nbtMakeCompound "Spawn"
    [nbtMakeShort "X" p.x, nbtMakeShort "Y" p.y, nbtMakeShort "Z" p.z, nbtMakeByte "H" p.heading,
      nbtMakeByte "P" p.pitch]

/-- `save_color`. -/
def saveColor (tag : String) (c : ColorConfig) : Node :=
  nbtMakeCompound tag [nbtMakeShort "R" c.red, nbtMakeShort "G" c.green, nbtMakeShort "B" c.blue]

def saveCustomBlocks (e : CustomBlocks) : Node :=
  nbtMakeCompound "CustomBlocks"
    [nbtMakeInt "ExtensionVersion" e.extensionVersion, nbtMakeShort "SupportLevel" e.supportLevel,
      nbtMakeByteArray "Fallback" (.ofVector e.fallbackBlocks (.refl true))]

def saveEnvColors (e : EnvColors) : Node :=
  nbtMakeCompound "EnvColors"
    [nbtMakeInt "ExtensionVersion" e.extensionVersion, saveColor "Sky" e.sky, saveColor "Cloud" e.cloud,
      saveColor "Fog" e.fog, saveColor "Ambient" e.ambient, saveColor "Sunlight" e.sunlight]

def saveEnvAspect (e : EnvAspect) : Node :=
  nbtMakeCompound "EnvMapAspect"
    [nbtMakeInt "ExtensionVersion" e.extensionVersion, nbtMakeByte "SideBlock" e.sideBlock,
      nbtMakeByte "EdgeBlock" e.edgeBlock, nbtMakeInt "CloudsHeight" e.cloudsHeight,
      nbtMakeFloat "CloudsSpeed" e.cloudsSpeed, nbtMakeInt "EdgeHeight" e.edgeHeight,
      nbtMakeByte "UseExponentialFog" e.useExponentialFog, nbtMakeInt "SideOffset" e.sideOffset,
      nbtMakeFloat "WeatherFade" e.weatherFade, nbtMakeFloat "WeatherSpeed" e.weatherSpeed]

def saveEnvAppearance {ySize : BitVec 16} (e : EnvAppearance ySize) : Node :=
  nbtMakeCompound "EnvMapAppearance"
    ([nbtMakeInt "ExtensionVersion" e.extensionVersion, nbtMakeString "TextureURL" e.textureUrl,
      nbtMakeByte "SideBlock" e.sideBlock, nbtMakeByte "EdgeBlock" e.edgeBlock,
      nbtMakeShort "SideLevel" e.sideLevel] ++
      if e.extensionVersion.toInt ≥ 2 then
        [nbtMakeShort "CloudLevel" e.cloudLevel, nbtMakeShort "MaximumViewDistance" e.maximumViewDistance]
      else [])

def saveEnvWeather (e : EnvWeather) : Node :=
  nbtMakeCompound "EnvWeatherType"
    [nbtMakeInt "ExtensionVersion" e.extensionVersion, nbtMakeByte "WeatherType" e.weatherType]

def saveAllow (tag : String) (allow : Bool) : Node := nbtMakeByte tag (if allow then 1 else 0)

/-- The name of a definition: `Block%u`. -/
def blockDefinitionName (d : BlockDefinition) : String := "Block" ++ toString d.blockId.toNat

def saveBlockDefinition (d : BlockDefinition) : Node :=
  nbtMakeCompound (blockDefinitionName d)
    [nbtMakeByte "ID" d.blockId, nbtMakeString "Name" d.blockName, nbtMakeFloat "Speed" d.speed,
      nbtMakeByteArray "Textures" (.ofVector d.textures (.refl true)),
      nbtMakeByte "TransmitsLight" d.transmitsLight, nbtMakeByte "WalkSound" d.walkSound,
      nbtMakeByte "Shape" d.shape, nbtMakeByte "BlockDraw" d.blockDraw,
      nbtMakeByteArray "Fog" (.ofVector d.fog (.refl true)),
      nbtMakeByteArray "Coords" (.ofVector d.coords (.refl true)),
      saveAllow "AllowPlacement" d.allowPlacement, saveAllow "AllowDeletion" d.allowDeletion]

def saveBlockDefinitions (e : BlockDefinitions) : Node :=
  nbtMakeCompound "BlockDefinitions"
    (nbtMakeInt "ExtensionVersion" e.extensionVersion :: e.blockDefinitions.map saveBlockDefinition)

/-- The `CPE` compound is only there if one of these extensions is. -/
def hasCpe (m : TcMap) : Bool :=
  m.customBlocksExtension.isSome || m.envColorsExtension.isSome || m.envAppearanceExtension.isSome ||
    m.envWeatherExtension.isSome || m.blockDefinitionExtensions.isSome

def saveCpe (m : TcMap) : Node :=
  nbtMakeCompound "CPE"
    ((m.customBlocksExtension.map saveCustomBlocks).toList ++
      (m.envColorsExtension.map saveEnvColors).toList ++
      (m.envAspectExtension.map saveEnvAspect).toList ++
      (m.envAppearanceExtension.map saveEnvAppearance).toList ++
      (m.envWeatherExtension.map saveEnvWeather).toList ++
      (m.blockDefinitionExtensions.map saveBlockDefinitions).toList)

/-- The tree `tc_map_save` builds. -/
def saveTree (m : TcMap) : Node :=
  nbtMakeCompound "ClassicWorld"
    ([nbtMakeByte "FormatVersion" m.formatVersion, nbtMakeString "Name" m.name,
        nbtMakeByteArray "UUID" (.ofVector m.uuid (.refl true)), nbtMakeShort "X" m.xSize,
        nbtMakeShort "Y" m.ySize, nbtMakeShort "Z" m.zSize] ++
      saveStrings "CreatedBy" "Service" "Username" m.createdByService m.createdByUsername ++
      saveStrings "MapGenerator" "Software" "MapGeneratorName" m.mapGenSoftware m.mapGenName ++
      [nbtMakeLong "TimeCreated" m.timeCreated, nbtMakeLong "LastAccessed" m.lastAccessed,
        nbtMakeLong "LastModified" m.lastModified, saveSpawn m.spawnPosition,
        nbtMakeByteArray "BlockArray" m.blocks.blockArray] ++
      (m.blocks.blockArray2.map (nbtMakeByteArray "BlockArray2")).toList ++
      [nbtMakeCompound "Metadata" (if hasCpe m then [saveCpe m] else [])])

mutual

/-- The allocations that build a node and enter it in its compound. -/
def allocations : Node → Nat
  | .leaf _ (.string _) => 4
  | .leaf _ (.byteArray v) => if v.val = [] then 3 else 4
  | .leaf _ _ => 3
  | .list _ items => 4 + allocationsIn items
  | .compound _ items => 4 + allocationsIn items

def allocationsIn : List Node → Nat
  | [] => 0
  | item :: items => allocations item + allocationsIn items

end

/-- What `tc_map_save` depends on: whether its `i`th allocation succeeds,
whether the file can be opened, and what `nbt_dump_file` writes, or `none` if it
fails. -/
structure SaveEnv (File : Type) where
  alloc : Nat → Bool
  fopen : Bool
  dump : Node → Option File

/-- What has become of the file. -/
inductive Written (File : Type) where
  | nothing
  | incomplete
  | complete (file : File)

structure SaveResult (File : Type) where
  returned : Bool
  map : TcMap
  written : Written File

def tcMapSave {File : Type} (env : SaveEnv File) (m : TcMap) : SaveResult File :=
  if !m.isDirty then { returned := true, map := m, written := .nothing }
  else
    let map := { m with isDirty := false }
    let root := saveTree m
    -- the root is entered in no compound
    if (List.range (allocations root - 1)).any fun i => !env.alloc i then
      { returned := false, map := map, written := .nothing }
    else if !env.fopen then { returned := false, map := map, written := .nothing }
    else
      match env.dump root with
      | none => { returned := false, map := map, written := .incomplete }
      | some file => { returned := true, map := map, written := .complete file }

end TC.Impl.Map
