import TeleClassic.Impl.Map

/-!
# Saving and loading a map

`load_saveTree` says what a load of a saved tree gives: the map, less its
`EnvAspect` extension and with the two permissions of every block definition
turned around. The first is lost because the saver names its compound
`EnvMapAspect` and the loader looks for `EnvAspect`; the second because the saver
writes 1 for what is allowed and the loader allows what is not 1. Everything
else comes back (`save_load`).

Each lookup of the loader is settled by names alone: what is searched at a path
is what the saver put there, since no other child has the name.
-/

namespace TC.Proof.Map

open TC.Impl.Nbt TC.Impl.Map

variable {q : String} {type : NbtType}

/-! ## Checked reads -/

theorem isSome_member? (type : NbtType) (n : Node) : (n.member? type).isSome ↔ nodeType n = type := by
  cases n with
  | leaf name p => cases type <;> cases p <;> simp [Node.member?, nodeType, payloadType]
  | list name items => cases type <;> simp [Node.member?, nodeType]
  | compound name items => cases type <;> simp [Node.member?, nodeType]

theorem member?_eq_none {n : Node} (h : nodeType n ≠ type) : n.member? type = none := by
  simpa using mt (isSome_member? type n).mp h

theorem ok_bind {α β : Type} (a : α) (f : α → LoadM β) : ((.ok a : LoadM α) >>= f) = f a := rfl

/-- The member of a node that was checked for its type. -/
def expect (type : NbtType) (parent : Node) (path : List String) : Option (Member type) :=
  (nbtExpect parent path type).bind (Node.member? type)

/-- The member is there in every node that passed the check. -/
theorem member_of_type {n : Node} (h : nodeType n = type) (misread : Misread) :
    ∃ v, n.member? type = some v ∧ member misread type n = .ok v := by
  obtain ⟨v, hv⟩ := Option.isSome_iff_exists.mp ((isSome_member? type n).mpr h)
  exact ⟨v, hv, by rw [member, hv]⟩

theorem nodeType_expect {parent n : Node} {path : List String} (h : nbtExpect parent path type = some n) :
    nodeType n = type := by
  simpa using (Option.filter_eq_some_iff.mp h).2

section

variable (type : NbtType) (parent : Node) (path : List String)

theorem required_eq : required type type parent path = need (expect type parent path) := by
  rw [required, expect]
  cases hn : nbtExpect parent path type with
  | none => rfl
  | some n =>
    obtain ⟨v, hv, hread⟩ := member_of_type (nodeType_expect hn) strict
    rw [Option.bind_some, hv]
    exact hread

theorem ifExpected_eq : ifExpected type type parent path = .ok (expect type parent path) := by
  rw [ifExpected, expect]
  cases hn : nbtExpect parent path type with
  | none => rfl
  | some n =>
    obtain ⟨v, hv, hread⟩ := member_of_type (nodeType_expect hn) strict
    rw [Option.bind_some, hv, ifFound, hread]
    rfl

end

theorem filter_bind_member (type : NbtType) (o : Option Node) :
    (o.filter fun n => nodeType n = type).bind (Node.member? type) = o.bind (Node.member? type) := by
  cases o with
  | none => rfl
  | some n =>
    by_cases hn : nodeType n = type
    · rw [Option.filter_some, if_pos (by simpa using hn)]
    · rw [Option.filter_some, if_neg (by simpa using hn)]
      exact (member?_eq_none hn).symm

theorem expect_path (type : NbtType) (parent : Node) (p q : String) (ps : List String) :
    expect type parent (p :: q :: ps) = (nbtFindByPath (p :: q :: ps) parent).bind (Node.member? type) :=
  filter_bind_member type _

theorem expect_name (type : NbtType) (parent : Node) (k : String) :
    expect type parent [k] = (nbtFindByName k parent).bind (Node.member? type) :=
  filter_bind_member type _

/-! ## Searches by path -/

/-- A node of that name. -/
def named (p : String) (n : Node) : Bool := n.name = some p

/-- A search by path only looks at the children of the name it is at. -/
theorem findSome?_named (p : String) (ps : List String) (items : List Node) :
    items.findSome? (nbtFindByPath (p :: ps)) =
      (items.filter (named p)).findSome? (nbtFindByPath (p :: ps)) := by
  induction items with
  | nil => rfl
  | cons n items ih =>
    rw [List.findSome?_cons, List.filter_cons]
    by_cases h : n.name = some p
    · rw [if_pos (by simpa [named] using h), List.findSome?_cons, ih]
    · have hnone : nbtFindByPath (p :: ps) n = none := by
        cases ps with
        | nil => exact if_neg h
        | cons p' ps => exact if_neg h
      rw [if_neg (by simpa [named] using h), hnone, ih]

theorem nbtFindByPath_compound (q p : String) (ps : List String) (items : List Node) :
    nbtFindByPath (q :: p :: ps) (nbtMakeCompound q items) =
      (items.filter (named p)).findSome? (nbtFindByPath (p :: ps)) := by
  rw [← findSome?_named]
  exact if_pos rfl

/-- Nodes that all have the name `q`. -/
theorem filter_named {l : List Node} (hl : ∀ n ∈ l, n.name = some q) (p : String) :
    l.filter (named p) = if q = p then l else [] := by
  split
  · rename_i h
    exact List.filter_eq_self.mpr fun n hn => by rw [named, hl n hn, h]; simp
  · rename_i h
    refine List.filter_eq_nil_iff.mpr fun n hn => ?_
    rw [named, hl n hn]
    simpa using h

theorem filter_singleton {n : Node} (hn : n.name = some q) (p : String) :
    [n].filter (named p) = if q = p then [n] else [] :=
  filter_named (by simpa using hn) p

theorem filter_toList {α : Type} {f : α → Node} (hf : ∀ a, (f a).name = some q) (o : Option α) (p : String) :
    (o.map f).toList.filter (named p) = if q = p then (o.map f).toList else [] := by
  refine filter_named (fun n hn => ?_) p
  simp only [Option.mem_toList, Option.map_eq_some_iff] at hn
  obtain ⟨a, -, rfl⟩ := hn
  exact hf a

theorem findSome?_toList {α : Type} {f : α → Node} (hf : ∀ a, (f a).name = some q) (o : Option α) :
    (o.map f).toList.findSome? (nbtFindByPath [q]) = o.map f := by
  cases o with
  | none => rfl
  | some a =>
    show [f a].findSome? _ = some (f a)
    rw [List.findSome?_singleton]
    exact if_pos (hf a)

theorem filter_saveStrings (q s t : String) (a b : Option String) (p : String) :
    (saveStrings q s t a b).filter (named p) = if q = p then saveStrings q s t a b else [] := by
  refine filter_named (fun n hn => ?_) p
  rw [saveStrings] at hn
  split at hn
  · rw [List.mem_singleton.mp hn]; rfl
  · cases hn

/-- The fields before `CreatedBy`. -/
def headItems (m : TcMap) : List Node :=
  [nbtMakeByte "FormatVersion" m.formatVersion, nbtMakeString "Name" m.name,
    nbtMakeByteArray "UUID" (.ofVector m.uuid (.refl true)), nbtMakeShort "X" m.xSize,
    nbtMakeShort "Y" m.ySize, nbtMakeShort "Z" m.zSize]

/-- The fields between `MapGenerator` and `BlockArray2`. -/
def middleItems (m : TcMap) : List Node :=
  [nbtMakeLong "TimeCreated" m.timeCreated, nbtMakeLong "LastAccessed" m.lastAccessed,
    nbtMakeLong "LastModified" m.lastModified, saveSpawn m.spawnPosition,
    nbtMakeByteArray "BlockArray" m.blocks.blockArray]

def metadata (m : TcMap) : Node := nbtMakeCompound "Metadata" (if hasCpe m then [saveCpe m] else [])

/-- The children of the root that have the name `p`. -/
def rootNamed (m : TcMap) (p : String) : List Node :=
  (headItems m).filter (named p) ++
    (if "CreatedBy" = p then
      saveStrings "CreatedBy" "Service" "Username" m.createdByService m.createdByUsername else []) ++
    (if "MapGenerator" = p then
      saveStrings "MapGenerator" "Software" "MapGeneratorName" m.mapGenSoftware m.mapGenName else []) ++
    (middleItems m).filter (named p) ++
    (if "BlockArray2" = p then
      (m.blocks.blockArray2.map (nbtMakeByteArray "BlockArray2")).toList else []) ++
    (if "Metadata" = p then [metadata m] else [])

theorem nbtFindByPath_saveTree (m : TcMap) (p : String) (ps : List String) :
    nbtFindByPath ("ClassicWorld" :: p :: ps) (saveTree m) =
      (rootNamed m p).findSome? (nbtFindByPath (p :: ps)) := by
  rw [saveTree, nbtFindByPath_compound]
  simp only [List.filter_append, filter_saveStrings,
    filter_toList (f := nbtMakeByteArray "BlockArray2") (fun _ => rfl),
    filter_singleton (n := nbtMakeCompound "Metadata" _) rfl]
  rfl

theorem expect_saveTree (type : NbtType) (m : TcMap) (p : String) (ps : List String) :
    expect type (saveTree m) ("ClassicWorld" :: p :: ps) =
      ((rootNamed m p).findSome? (nbtFindByPath (p :: ps))).bind (Node.member? type) := by
  rw [expect_path, nbtFindByPath_saveTree]

/-- What is read without a check is found as the saver has put it there. -/
theorem unchecked_saveTree {misread : Misread} {m : TcMap} {p : String} {ps : List String}
    {v : Option (Member type)} (make : Member type → Node) (hmake : ∀ v, (make v).member? type = some v)
    (h : (rootNamed m p).findSome? (nbtFindByPath (p :: ps)) = v.map make) :
    unchecked misread type (saveTree m) ("ClassicWorld" :: p :: ps) = .ok v := by
  rw [unchecked, nbtFindByPath_saveTree, h]
  cases v with
  | none => rfl
  | some v =>
    simp only [Option.map_some, ifFound, member, hmake]
    rfl

/-! ## The core of a map -/

theorem firstBytes_ofVector {n : Nat} (v : Vector Byte n) (h : n.ble 256 = true) :
    firstBytes n (.ofVector v h) = .ok v := by
  have hl : n ≤ (Bytes.ofVector v h).val.length := by
    show n ≤ v.toList.length
    rw [Vector.length_toList]
  rw [firstBytes, dif_pos hl]
  refine congrArg Except.ok (Vector.toList_inj.mp ?_)
  show (v.toList.take n).toArray.toList = v.toList
  rw [List.toList_toArray, List.take_of_length_le (by rw [Vector.length_toList])]

theorem allBytes_ofVector {n : Nat} (v : Vector Byte n) (h : n.ble 256 = true) :
    allBytes n (.ofVector v h) = .ok v := by
  have hl : (Bytes.ofVector v h).val.length = n := Vector.length_toList
  rw [allBytes, if_neg (not_not.mpr hl), firstBytes_ofVector]

/-- Of two strings that are saved together each is found under its own name. -/
theorem findSome?_saveStrings {s t : String} (hst : s ≠ t) (a b : Option String) :
    (saveStrings q s t a b).findSome? (nbtFindByPath [q, s]) = a.map (nbtMakeString s) ∧
      (saveStrings q s t a b).findSome? (nbtFindByPath [q, t]) = b.map (nbtMakeString t) := by
  have hs : ∀ v, (nbtMakeString s v).name = some s := fun _ => rfl
  have ht : ∀ v, (nbtMakeString t v).name = some t := fun _ => rfl
  rw [saveStrings]
  split
  · simp only [List.findSome?_singleton, nbtFindByPath_compound, List.filter_append, filter_toList hs,
      filter_toList ht, if_pos, if_neg hst, if_neg hst.symm, List.append_nil, List.nil_append]
    exact ⟨findSome?_toList hs a, findSome?_toList ht b⟩
  · rename_i h
    rw [not_or, Option.not_isSome_iff_eq_none, Option.not_isSome_iff_eq_none] at h
    rw [h.1, h.2]
    exact ⟨rfl, rfl⟩

theorem rootNamed_createdBy (m : TcMap) : rootNamed m "CreatedBy" =
    saveStrings "CreatedBy" "Service" "Username" m.createdByService m.createdByUsername := by
  have hhead : (headItems m).filter (named "CreatedBy") = [] := rfl
  have hmiddle : (middleItems m).filter (named "CreatedBy") = [] := rfl
  simp [rootNamed, hhead, hmiddle]

theorem rootNamed_mapGenerator (m : TcMap) : rootNamed m "MapGenerator" =
    saveStrings "MapGenerator" "Software" "MapGeneratorName" m.mapGenSoftware m.mapGenName := by
  have hhead : (headItems m).filter (named "MapGenerator") = [] := rfl
  have hmiddle : (middleItems m).filter (named "MapGenerator") = [] := rfl
  simp [rootNamed, hhead, hmiddle]

theorem loadSpawn_saveTree (m : TcMap) : loadSpawn (saveTree m) = .ok m.spawnPosition := by
  simp only [loadSpawn, required_eq, expect_saveTree]
  rfl

theorem loadBlocks_eq {root : Node} {x y z : BitVec 16} (b : Blocks x y z)
    (h : expect .byteArray root ["ClassicWorld", "BlockArray"] = some b.blockArray)
    (h2 : expect .byteArray root ["ClassicWorld", "BlockArray2"] = b.blockArray2) :
    loadBlocks root x y z = .ok b := by
  have harray : loadBlockArray root x y z = .ok ⟨b.blockArray, b.dimensions, b.nonempty⟩ := by
    rw [loadBlockArray, required_eq, h]
    exact dif_pos ⟨b.dimensions, b.nonempty⟩
  have henough : ∀ a ∈ b.blockArray2, b.blockArray.val.length ≤ a.val.length * 4 ∧ a.val ≠ [] :=
    fun a ha => ⟨b.enough2 a ha, b.nonempty2 a ha⟩
  have harray2 : loadBlockArray2 root b.blockArray.val.length = .ok ⟨b.blockArray2, henough⟩ := by
    rw [loadBlockArray2, ifExpected_eq, h2]
    exact dif_pos henough
  rw [loadBlocks, harray]
  show (loadBlockArray2 root b.blockArray.val.length >>= _) = _
  rw [harray2]
  rfl

theorem loadBlocks_saveTree (m : TcMap) :
    loadBlocks (saveTree m) m.xSize m.ySize m.zSize = .ok m.blocks := by
  refine loadBlocks_eq m.blocks ?_ ?_
  · rw [expect_saveTree]; rfl
  · rw [expect_saveTree, rootNamed]
    cases m.blocks.blockArray2 <;> rfl

/-! ## Extensions -/

/-- The extensions of the name `p` in the `CPE` compound. -/
def cpeNamed (m : TcMap) (p : String) : List Node :=
  [if "CustomBlocks" = p then (m.customBlocksExtension.map saveCustomBlocks).toList else [],
    if "EnvColors" = p then (m.envColorsExtension.map saveEnvColors).toList else [],
    if "EnvMapAspect" = p then (m.envAspectExtension.map saveEnvAspect).toList else [],
    if "EnvMapAppearance" = p then (m.envAppearanceExtension.map saveEnvAppearance).toList else [],
    if "EnvWeatherType" = p then (m.envWeatherExtension.map saveEnvWeather).toList else [],
    if "BlockDefinitions" = p then (m.blockDefinitionExtensions.map saveBlockDefinitions).toList else []].flatten

theorem nbtFindByPath_saveCpe (m : TcMap) (p : String) :
    nbtFindByPath ["CPE", p] (saveCpe m) = (cpeNamed m p).findSome? (nbtFindByPath [p]) := by
  rw [saveCpe, nbtFindByPath_compound]
  simp only [List.filter_append, filter_toList (f := saveCustomBlocks) (fun _ => rfl),
    filter_toList (f := saveEnvColors) (fun _ => rfl), filter_toList (f := saveEnvAspect) (fun _ => rfl),
    filter_toList (f := saveEnvAppearance) (fun _ => rfl),
    filter_toList (f := saveEnvWeather) (fun _ => rfl),
    filter_toList (f := saveBlockDefinitions) (fun _ => rfl)]
  simp only [cpeNamed, List.flatten_cons, List.flatten_nil, List.append_nil, List.append_assoc]

/-- What is found of an extension, if the `CPE` compound is there. -/
theorem extension_saveTree (m : TcMap) (p : String) :
    extension (saveTree m) p =
      if hasCpe m then
        ((cpeNamed m p).findSome? (nbtFindByPath [p])).filter fun n => nodeType n = .compound
      else none := by
  have hroot : rootNamed m "Metadata" = [metadata m] := rfl
  show (nbtFindByPath ["ClassicWorld", "Metadata", "CPE", p] (saveTree m)).filter _ = _
  rw [nbtFindByPath_saveTree, hroot, List.findSome?_singleton, metadata, nbtFindByPath_compound]
  cases hasCpe m with
  | false => rfl
  | true =>
    have hcpe : [saveCpe m].filter (named "CPE") = [saveCpe m] := rfl
    rw [if_pos rfl, if_pos rfl, hcpe, List.findSome?_singleton, nbtFindByPath_saveCpe]

/-- An extension that the saver names `p` and for which the `CPE` compound is
there comes back, if its own loader gives it back. -/
theorem loadExtension_saveTree {α : Type} (m : TcMap) {p : String} (items : α → List Node) {e : Option α}
    {load : Node → LoadM α} (hp : cpeNamed m p = (e.map fun a => nbtMakeCompound p (items a)).toList)
    (hcpe : e.isSome → hasCpe m = true) {f : α → α} (hload : ∀ a, load (nbtMakeCompound p (items a)) = .ok (f a)) :
    loadExtension (saveTree m) p load = .ok (e.map f) := by
  rw [loadExtension, extension_saveTree, hp, findSome?_toList fun _ => rfl]
  cases e with
  | none => simp
  | some a =>
    have hfound : (some (nbtMakeCompound p (items a))).filter (fun n => nodeType n = .compound) =
        some (nbtMakeCompound p (items a)) := rfl
    rw [if_pos (hcpe rfl), Option.map_some, hfound]
    dsimp only
    rw [hload]
    rfl

theorem loadCustomBlocks_save (e : CustomBlocks) : loadCustomBlocks (saveCustomBlocks e) = .ok e := by
  show (allBytes 256 (.ofVector e.fallbackBlocks (.refl true))).bind _ = _
  rw [allBytes_ofVector]
  rfl

theorem loadEnvColors_save (e : EnvColors) : loadEnvColors (saveEnvColors e) = .ok e := rfl

theorem loadEnvWeather_save (e : EnvWeather) : loadEnvWeather (saveEnvWeather e) = .ok e := rfl

theorem loadEnvAppearance_save {ySize : BitVec 16} (e : EnvAppearance ySize) :
    loadEnvAppearance ySize (saveEnvAppearance e) = .ok e := by
  show (if h : e.extensionVersion.toInt ≥ 2 then _ else _) = _
  by_cases h : e.extensionVersion.toInt ≥ 2
  · rw [dif_pos h]
    simp only [saveEnvAppearance, if_pos h]
    rfl
  · -- the fields that are not saved are those of version 1
    obtain ⟨hcloud, hview⟩ := e.version1 (by omega)
    rw [dif_neg h]
    obtain ⟨_, _, _, _, cloudLevel, maximumViewDistance, _, _⟩ := e
    subst hcloud hview
    rfl

/-! ## Block definitions -/

/-- A name of the form `Block%u`. -/
def isBlockTag (s : String) : Bool := s.toList.take 5 = "Block".toList ∧ (s.toList.drop 5).all Char.isDigit

theorem toList_blockDefinitionName (d : BlockDefinition) :
    (blockDefinitionName d).toList = "Block".toList ++ Nat.toDigits 10 d.blockId.toNat := by
  rw [blockDefinitionName, String.toList_append, Nat.toString_eq_repr, Nat.toList_repr]

theorem isBlockTag_blockDefinitionName (d : BlockDefinition) : isBlockTag (blockDefinitionName d) = true := by
  have hdigits : (Nat.toDigits 10 d.blockId.toNat).all Char.isDigit = true :=
    List.all_eq_true.mpr fun c hc => Nat.isDigit_of_mem_toDigits (by decide) (by decide) hc
  rw [isBlockTag, toList_blockDefinitionName, decide_eq_true_eq]
  exact ⟨rfl, hdigits⟩

theorem isBlock_save (d : BlockDefinition) : isBlock (saveBlockDefinition d) = true := by
  have hname : (blockDefinitionName d).toList.take 5 = "Block".toList := by
    rw [toList_blockDefinitionName]
    rfl
  simp [isBlock, saveBlockDefinition, nbtMakeCompound, nodeType, Node.name, hname]

/-- The fields of a saved definition. -/
def definitionItems (d : BlockDefinition) : List Node :=
  [nbtMakeByte "ID" d.blockId, nbtMakeString "Name" d.blockName, nbtMakeFloat "Speed" d.speed,
    nbtMakeByteArray "Textures" (.ofVector d.textures (.refl true)),
    nbtMakeByte "TransmitsLight" d.transmitsLight, nbtMakeByte "WalkSound" d.walkSound,
    nbtMakeByte "Shape" d.shape, nbtMakeByte "BlockDraw" d.blockDraw,
    nbtMakeByteArray "Fog" (.ofVector d.fog (.refl true)),
    nbtMakeByteArray "Coords" (.ofVector d.coords (.refl true)),
    saveAllow "AllowPlacement" d.allowPlacement, saveAllow "AllowDeletion" d.allowDeletion]

/-- The name of the definition is none of those searched in it, not even
`BlockDraw`. -/
theorem expect_saveBlockDefinition (type : NbtType) (d : BlockDefinition) (tag : String)
    (h : isBlockTag tag = false) : expect type (saveBlockDefinition d) [tag] =
      (nbtFindInItems tag (definitionItems d)).bind (Node.member? type) := by
  have hne : some (blockDefinitionName d) ≠ some tag := by
    rintro he
    rw [← Option.some.inj he, isBlockTag_blockDefinitionName] at h
    cases h
  rw [expect_name]
  show (nbtFindByName tag (.compound (some (blockDefinitionName d)) (definitionItems d))).bind _ = _
  rw [nbtFindByName, if_neg hne]

/-- What comes back of a definition: both permissions are turned around. -/
def turned (d : BlockDefinition) : BlockDefinition :=
  { d with allowPlacement := !d.allowPlacement, allowDeletion := !d.allowDeletion }

theorem loadAllow_save (d : BlockDefinition) :
    loadAllow (saveBlockDefinition d) "AllowPlacement" = .ok !d.allowPlacement ∧
      loadAllow (saveBlockDefinition d) "AllowDeletion" = .ok !d.allowDeletion := by
  simp only [loadAllow, ifExpected_eq, expect_saveBlockDefinition _ d "AllowPlacement" (by decide),
    expect_saveBlockDefinition _ d "AllowDeletion" (by decide)]
  constructor
  · show Except.ok (decide ((if d.allowPlacement then 1 else 0 : BitVec 8) ≠ 1)) = _
    cases d.allowPlacement <;> rfl
  · show Except.ok (decide ((if d.allowDeletion then 1 else 0 : BitVec 8) ≠ 1)) = _
    cases d.allowDeletion <;> rfl

theorem loadBlockDefinition_save (d : BlockDefinition) :
    loadBlockDefinition (saveBlockDefinition d) = .ok (turned d) := by
  obtain ⟨hplace, hdelete⟩ := loadAllow_save d
  have hfound (type : NbtType) {tag : String} (h : isBlockTag tag = false) :
      required type type (saveBlockDefinition d) [tag] =
        need ((nbtFindInItems tag (definitionItems d)).bind (Node.member? type)) := by
    rw [required_eq, expect_saveBlockDefinition _ d _ h]
  rw [loadBlockDefinition, loadBlockName, hfound .byte (by decide), hfound .string (by decide)]
  show loadBlockFields (saveBlockDefinition d) d.blockId d.blockName = _
  rw [loadBlockFields, hfound .float (by decide), hfound .byteArray (by decide), hfound .byte (by decide),
    hfound .byte (by decide), hfound .byte (by decide), hfound .byte (by decide), hfound .byteArray (by decide),
    hfound .byteArray (by decide), hplace, hdelete]
  -- one array after the other, each after the scalars before it
  show (firstBytes 6 (.ofVector d.textures _) >>= _) = _
  rw [firstBytes_ofVector]
  show (firstBytes 4 (.ofVector d.fog _) >>= _) = _
  rw [firstBytes_ofVector]
  show (firstBytes 6 (.ofVector d.coords _) >>= _) = _
  rw [firstBytes_ofVector]
  rfl

theorem loadDefinitions_save (acc ds : List BlockDefinition) :
    loadDefinitions acc (ds.map saveBlockDefinition) = .ok (acc.reverse ++ ds.map turned) := by
  induction ds generalizing acc with
  | nil => exact congrArg Except.ok (List.append_nil _).symm
  | cons d ds ih =>
    rw [List.map_cons, loadDefinitions, if_pos (isBlock_save d), loadBlockDefinition_save]
    show loadDefinitions (turned d :: acc) (ds.map saveBlockDefinition) = _
    rw [ih, List.reverse_cons, List.append_assoc, List.map_cons, List.singleton_append]

/-- The definitions as they come back. -/
def turnedAll (e : BlockDefinitions) : BlockDefinitions :=
  { e with blockDefinitions := e.blockDefinitions.map turned }

theorem loadBlockDefinitions_save (e : BlockDefinitions) :
    loadBlockDefinitions (saveBlockDefinitions e) = .ok (turnedAll e) := by
  -- the version is not a compound, and is skipped
  show (loadDefinitions [] (e.blockDefinitions.map saveBlockDefinition) >>= _) = _
  rw [loadDefinitions_save]
  rfl

/-! ## The whole map -/

/-- What a load gives of a saved map. -/
def reload (m : TcMap) : TcMap :=
  { m with
    isDirty := false
    envAspectExtension := none
    blockDefinitionExtensions := m.blockDefinitionExtensions.map turnedAll }

/-- Nothing of the name `EnvAspect` is saved. -/
theorem loadEnvAspect_saveTree (m : TcMap) :
    loadExtension (saveTree m) "EnvAspect" loadEnvAspect = .ok none := by
  have hp : cpeNamed m "EnvAspect" = [] := by simp [cpeNamed]
  rw [loadExtension, extension_saveTree, hp]
  simp

theorem load_saveTree (env : LoadEnv) (m : TcMap) : tcMapLoad env (some (saveTree m)) = .ok (reload m) := by
  have hby := findSome?_saveStrings (q := "CreatedBy") (s := "Service") (t := "Username") (by decide)
    m.createdByService m.createdByUsername
  have hgen := findSome?_saveStrings (q := "MapGenerator") (s := "Software") (t := "MapGeneratorName")
    (by decide) m.mapGenSoftware m.mapGenName
  rw [← rootNamed_createdBy] at hby
  rw [← rootNamed_mapGenerator] at hgen
  have hstring {c t : String} {a : Option String}
      (h : (rootNamed m c).findSome? (nbtFindByPath [c, t]) = a.map (nbtMakeString t)) :
      loadString env (saveTree m) c t = .ok a := unchecked_saveTree (nbtMakeString t) (fun _ => rfl) h
  have htime {t : String} {v : BitVec 64} (now : Clock → BitVec 64) (h : rootNamed m t = [nbtMakeLong t v]) :
      loadTime env (saveTree m) t now = .ok v := by
    have hfound : unchecked env.misread .long (saveTree m) ["ClassicWorld", t] = .ok (some v) := by
      refine unchecked_saveTree (nbtMakeLong t) (fun _ => rfl) ?_
      rw [h, List.findSome?_singleton]
      exact if_pos rfl
    rw [loadTime, hfound]
    rfl
  have hroot : loadRoot (some (saveTree m)) = .ok (saveTree m) := rfl
  have hversion : loadFormatVersion (saveTree m) = .ok m.formatVersion := rfl
  have hname : loadName env.path (saveTree m) = .ok m.name := rfl
  have huuid : loadUuid (saveTree m) = .ok m.uuid := allBytes_ofVector _ _
  have hx : loadSize (saveTree m) "X" = .ok m.xSize := rfl
  have hy : loadSize (saveTree m) "Y" = .ok m.ySize := rfl
  have hz : loadSize (saveTree m) "Z" = .ok m.zSize := rfl
  have hcustom := loadExtension_saveTree m (p := "CustomBlocks") _ (e := m.customBlocksExtension)
    (by simp [cpeNamed]; rfl) (fun h => by simp [hasCpe, h]) loadCustomBlocks_save
  have hcolors := loadExtension_saveTree m (p := "EnvColors") _ (e := m.envColorsExtension)
    (by simp [cpeNamed]; rfl) (fun h => by simp [hasCpe, h]) loadEnvColors_save
  have happearance := loadExtension_saveTree m (p := "EnvMapAppearance") _ (e := m.envAppearanceExtension)
    (by simp [cpeNamed]; rfl) (fun h => by simp [hasCpe, h]) loadEnvAppearance_save
  have hweather := loadExtension_saveTree m (p := "EnvWeatherType") _ (e := m.envWeatherExtension)
    (by simp [cpeNamed]; rfl) (fun h => by simp [hasCpe, h]) loadEnvWeather_save
  have hdefinitions := loadExtension_saveTree m (p := "BlockDefinitions") _ (e := m.blockDefinitionExtensions)
    (by simp [cpeNamed]; rfl) (fun h => by simp [hasCpe, h]) loadBlockDefinitions_save
  rw [tcMapLoad, hroot, ok_bind, hversion, ok_bind, hname, ok_bind, huuid, ok_bind, hx, ok_bind, hy, ok_bind, hz,
    ok_bind, hstring hby.1, ok_bind, hstring hby.2, ok_bind, hstring hgen.1, ok_bind, hstring hgen.2, ok_bind,
    htime _ rfl, ok_bind, htime _ rfl, ok_bind, htime _ rfl, ok_bind, loadSpawn_saveTree, ok_bind,
    loadBlocks_saveTree, ok_bind, hcustom, ok_bind, hcolors, ok_bind, loadEnvAspect_saveTree, ok_bind, happearance,
    ok_bind, hweather, ok_bind, hdefinitions, ok_bind]
  simp only [Option.map_id']
  rfl

/-! ## A save and a load -/

/-- `m` after a change that is not saved yet. -/
def dirtied (m : TcMap) : TcMap := { m with isDirty := true }

/-- What a load reads back of the file that a save of `m` has written. -/
def saveThenLoad {File : Type} (parse : File → Option Node) (env : SaveEnv File) (load : LoadEnv)
    (m : TcMap) : Option TcMap :=
  match (tcMapSave env (dirtied m)).written with
  | .complete file => (tcMapLoad load (parse file)).toOption
  | _ => none

/-- A save that returns `TRUE` has written the whole tree. -/
theorem written_of_returned {File : Type} {env : SaveEnv File} {m : TcMap} (hm : m.isDirty = true)
    (h : (tcMapSave env m).returned = true) :
    ∃ file, (tcMapSave env m).written = .complete file ∧ env.dump (saveTree m) = some file := by
  unfold tcMapSave at h ⊢
  rw [hm] at h ⊢
  simp only [Bool.not_true, Bool.false_eq_true, if_false] at h ⊢
  split at h
  · cases h
  · rename_i halloc
    rw [if_neg halloc]
    split at h
    · cases h
    · rename_i hopen
      rw [if_neg hopen]
      split at h
      · cases h
      · rename_i file hdump
        rw [hdump]
        exact ⟨file, rfl, rfl⟩

/-- A file system that writes trees as they are. -/
def reliable : SaveEnv Node := { alloc := fun _ => true, fopen := true, dump := some }

theorem reliable_returns (m : TcMap) : (tcMapSave reliable m).returned = true := by
  unfold tcMapSave
  cases m.isDirty with
  | false => rfl
  | true => simp [reliable]

/-- A load of `one.cw` at the start of the epoch. -/
def midnight : LoadEnv where
  path := "one.cw"
  clock := { timeCreated := 0, lastAccessed := 0, lastModified := 0 }
  misread := strict

theorem nonempty_of_none : ∀ b ∈ (none : Option Bytes), b.val ≠ [] := by simp

def oneBlock : TcMap where
  uuid := Vector.replicate 16 7
  timeCreated := 1
  lastAccessed := 2
  lastModified := 3
  name := "one"
  createdByService := some "service"
  createdByUsername := none
  mapGenSoftware := none
  mapGenName := some "flat"
  xSize := 1
  ySize := 1
  zSize := 1
  blocks := {
    blockArray := .ofList [1] (.refl true)
    blockArray2 := none
    dimensions := by decide
    nonempty := by decide
    enough2 := by simp
    nonempty2 := nonempty_of_none }
  customBlocksExtension := none
  envColorsExtension := none
  envAppearanceExtension := some {
    textureUrl := ""
    sideBlock := 7
    edgeBlock := 8
    sideLevel := 0
    cloudLevel := 3
    maximumViewDistance := 0
    extensionVersion := 1
    version1 := by decide }
  envWeatherExtension := some { extensionVersion := 1, weatherType := 2 }
  envAspectExtension := none
  blockDefinitionExtensions := none
  spawnPosition := { x := 0, y := 32, z := 0, heading := 0, pitch := 0 }
  formatVersion := 1
  isDirty := false

section

variable {File : Type} {parse : File → Option Node} {env : SaveEnv File}

theorem saveThenLoad_eq (hparse : ∀ tree file, env.dump tree = some file → parse file = some tree)
    (load : LoadEnv) {m : TcMap} (h : (tcMapSave env (dirtied m)).returned = true) :
    saveThenLoad parse env load m = some (reload m) := by
  obtain ⟨file, hwritten, hdump⟩ := written_of_returned rfl h
  rw [saveThenLoad, hwritten]
  show (tcMapLoad load (parse file)).toOption = _
  rw [hparse _ _ hdump, load_saveTree]
  rfl

/-- A map without `EnvAspect` and block definitions comes back as it was. -/
theorem save_load (hparse : ∀ tree file, env.dump tree = some file → parse file = some tree)
    (load : LoadEnv) (m : TcMap) (haspect : m.envAspectExtension = none)
    (hdefinitions : m.blockDefinitionExtensions = none)
    (h : (tcMapSave env (dirtied m)).returned = true) :
    saveThenLoad parse env load m = some { m with isDirty := false } := by
  rw [saveThenLoad_eq hparse load h, reload, hdefinitions, ← haspect]
  rfl

theorem save_load_oneBlock :
    saveThenLoad some reliable midnight oneBlock = some { oneBlock with isDirty := false } :=
  save_load (fun _ _ h => h.symm) midnight oneBlock rfl rfl (reliable_returns _)

theorem turned_ne (d : BlockDefinition) : turned d ≠ d := by
  intro h
  have hplace : (!d.allowPlacement) = d.allowPlacement := congrArg BlockDefinition.allowPlacement h
  revert hplace
  cases d.allowPlacement <;> decide

theorem turnedAll_eq_iff (e : BlockDefinitions) : turnedAll e = e ↔ e.blockDefinitions = [] := by
  constructor
  · intro h
    have hmap : e.blockDefinitions.map turned = e.blockDefinitions :=
      congrArg BlockDefinitions.blockDefinitions h
    cases hl : e.blockDefinitions with
    | nil => rfl
    | cons d ds =>
      rw [hl] at hmap
      exact absurd (List.cons.inj hmap).1 (turned_ne d)
  · intro h
    obtain ⟨version, definitions⟩ := e
    subst h
    rfl

/-- No list of definitions but the empty one comes back as it was. -/
theorem definitions_kept_iff (hparse : ∀ tree file, env.dump tree = some file → parse file = some tree)
    (load : LoadEnv) (m : TcMap) (e : BlockDefinitions)
    (he : m.blockDefinitionExtensions = some e) (h : (tcMapSave env (dirtied m)).returned = true) :
    (saveThenLoad parse env load m).map (·.blockDefinitionExtensions) = some (some e) ↔
      e.blockDefinitions = [] := by
  rw [saveThenLoad_eq hparse load h, ← turnedAll_eq_iff]
  show some (m.blockDefinitionExtensions.map turnedAll) = some (some e) ↔ _
  rw [he, Option.map_some, Option.some_inj, Option.some_inj]

/-- A definition that may be placed and deleted. -/
def stone : BlockDefinition where
  textures := Vector.replicate 6 1
  coords := Vector.replicate 6 0
  fog := Vector.replicate 4 0
  blockName := "Stone"
  speed := 0
  allowPlacement := true
  allowDeletion := true
  transmitsLight := 0
  walkSound := 0
  shape := 16
  blockDraw := 0
  blockId := 1

/-- `oneBlock` with definitions. -/
def withDefinitions (ds : List BlockDefinition) : TcMap :=
  { oneBlock with blockDefinitionExtensions := some { extensionVersion := 1, blockDefinitions := ds } }

theorem definitions_kept_iff_nil :
    (saveThenLoad some reliable midnight (withDefinitions [])).map (·.blockDefinitionExtensions) =
      some (some { extensionVersion := 1, blockDefinitions := [] }) :=
  (definitions_kept_iff (fun _ _ h => h.symm) midnight (withDefinitions []) _ rfl
    (reliable_returns _)).mpr rfl

/-- What may be placed and deleted may be neither after a save and a load. -/
theorem stone_not_allowed :
    (tcMapSave reliable (dirtied (withDefinitions [stone]))).returned = true ∧
      (saveThenLoad some reliable midnight (withDefinitions [stone])).map
          (·.blockDefinitionExtensions) =
        some (some {
          extensionVersion := 1
          blockDefinitions := [{ stone with allowPlacement := false, allowDeletion := false }] }) := by
  refine ⟨reliable_returns _, ?_⟩
  rw [saveThenLoad_eq (fun _ _ h => h.symm) midnight (reliable_returns _)]
  rfl

/-- The same extensions, and the same `EnvAspect` extension. -/
def KeepsExtensions (m m' : TcMap) : Prop :=
  m'.customBlocksExtension.isSome = m.customBlocksExtension.isSome ∧
    m'.envColorsExtension.isSome = m.envColorsExtension.isSome ∧
    m'.envAppearanceExtension.isSome = m.envAppearanceExtension.isSome ∧
    m'.envWeatherExtension.isSome = m.envWeatherExtension.isSome ∧
    m'.blockDefinitionExtensions.isSome = m.blockDefinitionExtensions.isSome ∧
    m'.envAspectExtension = m.envAspectExtension

/-- An `EnvAspect` extension never comes back, alone or with others; the other
extensions always do. -/
theorem extensions_kept_iff (hparse : ∀ tree file, env.dump tree = some file → parse file = some tree)
    (load : LoadEnv) (m : TcMap) (h : (tcMapSave env (dirtied m)).returned = true) :
    (∃ m', saveThenLoad parse env load m = some m' ∧ KeepsExtensions m m') ↔
      m.envAspectExtension = none := by
  rw [saveThenLoad_eq hparse load h]
  constructor
  · rintro ⟨m', hm', -, -, -, -, -, haspect⟩
    rw [← haspect, ← Option.some.inj hm']
    rfl
  · intro haspect
    exact ⟨reload m, rfl, rfl, rfl, rfl, rfl, Option.isSome_map, haspect.symm⟩

def aspect : EnvAspect where
  sideBlock := 7
  edgeBlock := 8
  cloudsHeight := 3
  cloudsSpeed := 0
  edgeHeight := 0
  useExponentialFog := 0
  sideOffset := 0
  weatherFade := 0
  weatherSpeed := 0
  extensionVersion := 1

theorem extensions_kept_iff_oneBlock :
    ∃ m', saveThenLoad some reliable midnight oneBlock = some m' ∧ KeepsExtensions oneBlock m' :=
  (extensions_kept_iff (fun _ _ h => h.symm) midnight oneBlock (reliable_returns _)).mpr rfl

theorem aspect_lost :
    (tcMapSave reliable (dirtied { oneBlock with envAspectExtension := some aspect })).returned = true ∧
      (saveThenLoad some reliable midnight
        { oneBlock with envAspectExtension := some aspect }).map (·.envAspectExtension) = some none := by
  refine ⟨reliable_returns _, ?_⟩
  rw [saveThenLoad_eq (fun _ _ h => h.symm) midnight (reliable_returns _)]
  rfl

end

end TC.Proof.Map
