import TeleClassic.Proof.Map.Reads
import TeleClassic.Proof.Map.Search

/-!
# The order of tags

A search by name goes depth first, so that what the loader finds in an extension depends
on the order of the tags (`tags_ordered`). `load_order_irrelevant_iff` says when it does
not, for two trees that differ in that order: if both are refused, or if in both trees
every name is found in a child first (`FromChildren`) and what is read without a check
has the bits it is read as (`Readable`).
-/

namespace TC.Proof.Map

open TC.Impl.Nbt TC.Impl.Map

variable {a b root : Node} {path : List String} {name : String} {misread : Misread} {type : NbtType}
  {α : Type}

/-! ## What is read -/

/-- The types of the nodes that are no lists and no compounds. -/
def IsLeaf (type : NbtType) : Prop := type ≠ .list ∧ type ≠ .compound

instance (type : NbtType) : Decidable (IsLeaf type) := inferInstanceAs (Decidable (_ ∧ _))

theorem nodeType_reordered (h : Reordered a b) : nodeType b = nodeType a := by
  induction h with
  | refl => rfl
  | tail _ hswap ih =>
    cases hswap with
    | here | inCompound | inList => exact ih

theorem leaf_reordered (h : Reordered a b) (htype : IsLeaf type) (ha : nodeType a = type) : b = a := by
  obtain rfl | ⟨c, hswap, -⟩ := h.cases_head
  · rfl
  · cases hswap with
    | here | inCompound => exact absurd ha.symm htype.2
    | inList => exact absurd ha.symm htype.1

theorem member?_reordered (h : Reordered a b) (htype : IsLeaf type) : b.member? type = a.member? type := by
  by_cases ha : nodeType a = type
  · rw [leaf_reordered h htype ha]
  · rw [member?_eq_none ha, member?_eq_none (nodeType_reordered h ▸ ha)]

theorem member?_found {o o' : Option Node} (h : Found o o') (htype : IsLeaf type) :
    o.bind (Node.member? type) = o'.bind (Node.member? type) := by
  cases h with
  | none => rfl
  | some h => exact (member?_reordered h htype).symm

theorem expect_path_reordered (hr : Reordered a b) (h : Distinct a) (htype : IsLeaf type) (p q : String)
    (ps : List String) : expect type a (p :: q :: ps) = expect type b (p :: q :: ps) := by
  rw [expect_path, expect_path]
  exact member?_found (found_path hr h _) htype

/-- The same leaves are found under these names. -/
def SameFields (ks : List String) (a b : Node) : Prop :=
  ∀ type k, IsLeaf type ∧ k ∈ ks → expect type a [k] = expect type b [k]

theorem sameFields {n : String} {ks : List String} (hr : Reordered a b) (h : Distinct a)
    (hname : a.name = some n) (hn : n ∉ ks) (ha : ∀ k ∈ ks, FromChild k a) (hb : ∀ k ∈ ks, FromChild k b) :
    SameFields ks a b := by
  rintro type k ⟨htype, hk⟩
  rw [expect_name, expect_name]
  exact member?_found (found_name hr h hname (fun heq => hn (heq ▸ hk)) (ha k hk) (hb k hk)) htype

/-! ## Extensions -/

def customBlocksFields : List String := ["ExtensionVersion", "SupportLevel", "Fallback"]

def colorTags : List String := ["Sky", "Cloud", "Fog", "Ambient", "Sunlight"]

def colorFields : List String := ["R", "G", "B"]

def envAspectFields : List String :=
  ["ExtensionVersion", "SideBlock", "EdgeBlock", "CloudsHeight", "CloudsSpeed", "EdgeHeight", "UseExponentialFog",
    "SideOffset", "WeatherFade", "WeatherSpeed"]

def appearanceVersion (ext : Node) : BitVec 32 :=
  (expect .int ext ["ExtensionVersion"]).getD
    (if occurs "CloudLevel" ext ∨ occurs "MaximumViewDistance" ext then 2 else 1)

/-- The fields of an appearance depend on its version. -/
def envAppearanceFields (ext : Node) : List String :=
  ["ExtensionVersion", "TextureURL", "SideBlock", "EdgeBlock", "SideLevel"] ++
    if (appearanceVersion ext).toInt ≥ 2 then ["CloudLevel", "MaximumViewDistance"] else []

def envWeatherFields : List String := ["ExtensionVersion", "WeatherType"]

def blockFields : List String :=
  ["ID", "Name", "Speed", "Textures", "TransmitsLight", "WalkSound", "Shape", "BlockDraw", "Fog", "Coords",
    "AllowPlacement", "AllowDeletion"]

/-- The extensions, with the names that are searched for in their compounds. -/
def extensionFields : List (String × (Node → List String)) :=
  [("CustomBlocks", fun _ => customBlocksFields), ("EnvColors", fun _ => "ExtensionVersion" :: colorTags),
    ("EnvAspect", fun _ => envAspectFields), ("EnvMapAppearance", envAppearanceFields),
    ("EnvWeatherType", fun _ => envWeatherFields), ("BlockDefinitions", fun _ => ["ExtensionVersion"])]

theorem loadCustomBlocks_congr (h : SameFields customBlocksFields a b) : loadCustomBlocks a = loadCustomBlocks b := by
  simp only [SameFields] at h
  simp [loadCustomBlocks, loadVersion, required_eq, ifExpected_eq, customBlocksFields, h, IsLeaf]

theorem loadEnvAspect_congr (h : SameFields envAspectFields a b) : loadEnvAspect a = loadEnvAspect b := by
  simp only [SameFields] at h
  simp [loadEnvAspect, loadVersion, required_eq, ifExpected_eq, envAspectFields, h, IsLeaf]

theorem loadEnvWeather_congr (h : SameFields envWeatherFields a b) : loadEnvWeather a = loadEnvWeather b := by
  simp only [SameFields] at h
  simp [loadEnvWeather, loadVersion, required_eq, ifExpected_eq, envWeatherFields, h, IsLeaf]

theorem loadBlockDefinition_congr (h : SameFields blockFields a b) : loadBlockDefinition a = loadBlockDefinition b := by
  simp only [SameFields] at h
  simp [loadBlockDefinition, loadBlockName, loadBlockFields, loadAllow, required_eq, ifExpected_eq, blockFields, h,
    IsLeaf]

theorem loadAppearanceVersion_eq (ext : Node) : loadAppearanceVersion ext = .ok (appearanceVersion ext) := by
  rw [loadAppearanceVersion, ifExpected_eq]
  rfl

theorem appearanceVersion_reordered (hr : Reordered a b)
    (h : expect .int a ["ExtensionVersion"] = expect .int b ["ExtensionVersion"]) :
    appearanceVersion b = appearanceVersion a := by
  rw [appearanceVersion, appearanceVersion, h, occurs_reordered hr, occurs_reordered hr]

theorem loadEnvAppearance_congr (hversion : appearanceVersion b = appearanceVersion a)
    (h : SameFields (envAppearanceFields a) a b) (ySize : BitVec 16) :
    loadEnvAppearance ySize a = loadEnvAppearance ySize b := by
  simp only [SameFields, envAppearanceFields] at h
  simp only [loadEnvAppearance, loadAppearanceVersion_eq, ok_bind, loadTextureUrl, loadLevels, required_eq, hversion]
  by_cases hv : (appearanceVersion a).toInt ≥ 2
  · simp [hv, h, IsLeaf]
  · simp [hv, h, IsLeaf]

/-- The components of a color are looked up first and read then. -/
theorem components_eq (c : Node) :
    (do let r ← need (nbtExpect c ["R"] .short)
        let g ← need (nbtExpect c ["G"] .short)
        let b ← need (nbtExpect c ["B"] .short)
        let red ← member strict .short r
        let green ← member strict .short g
        let blue ← member strict .short b
        return { red, green, blue } : LoadM ColorConfig) =
      (do let red ← need (expect .short c ["R"])
          let green ← need (expect .short c ["G"])
          let blue ← need (expect .short c ["B"])
          return { red, green, blue }) := by
  have hread (k : String) : (nbtExpect c [k] .short = none ∧ expect .short c [k] = none) ∨
      ∃ n v, nbtExpect c [k] .short = some n ∧ member strict .short n = .ok v ∧ expect .short c [k] = some v := by
    rw [expect]
    cases hn : nbtExpect c [k] .short with
    | none => exact .inl ⟨rfl, rfl⟩
    | some n =>
      obtain ⟨v, hv, hread⟩ := member_of_type (nodeType_expect hn) strict
      exact .inr ⟨n, v, rfl, hread, hv⟩
  obtain ⟨hr, hr'⟩ | ⟨r, red, hr, hred, hr'⟩ := hread "R"
  · rw [hr, hr']
    rfl
  obtain ⟨hg, hg'⟩ | ⟨g, green, hg, hgreen, hg'⟩ := hread "G"
  · rw [hr, hr', hg, hg']
    rfl
  obtain ⟨hb, hb'⟩ | ⟨b, blue, hb, hblue, hb'⟩ := hread "B"
  · rw [hr, hr', hg, hg', hb, hb']
    rfl
  · simp only [hr, hg, hb, hr', hg', hb', need, ok_bind, hred, hgreen, hblue]

theorem loadColor_congr {tag : String}
    (h : Option.Rel (fun c c' => nodeType c' = nodeType c ∧ SameFields colorFields c c') (nbtFindByName tag a)
      (nbtFindByName tag b)) : loadColor a tag = loadColor b tag := by
  unfold loadColor
  revert h
  generalize nbtFindByName tag a = found
  generalize nbtFindByName tag b = found'
  intro h
  cases h with
  | none => rfl
  | some h =>
    obtain ⟨htype, hfields⟩ := h
    simp only [SameFields] at hfields
    simp only [components_eq, htype]
    simp [hfields, IsLeaf, colorFields]

theorem loadEnvColors_congr (hversion : SameFields ["ExtensionVersion"] a b)
    (h : ∀ tag ∈ colorTags, loadColor a tag = loadColor b tag) : loadEnvColors a = loadEnvColors b := by
  simp only [SameFields] at hversion
  simp [loadEnvColors, loadVersion, ifExpected_eq, hversion, IsLeaf, h "Sky" (by decide), h "Cloud" (by decide),
    h "Fog" (by decide), h "Ambient" (by decide), h "Sunlight" (by decide)]

/-! ## Block definitions -/

/-- Two loads end in the same error, or with values in the relation. -/
inductive Alike {α : Type} (R : α → α → Prop) : LoadM α → LoadM α → Prop where
  | error (e : LoadError) : Alike R (.error e) (.error e)
  | ok {x y : α} (h : R x y) : Alike R (.ok x) (.ok y)

section

variable {β : Type} {R : α → α → Prop} {S : β → β → Prop}

theorem alike_refl (hR : ∀ x, R x x) (x : LoadM α) : Alike R x x := by
  cases x with
  | error e => exact .error e
  | ok x => exact .ok (hR x)

theorem Alike.trans (hR : ∀ x y z, R x y → R y z → R x z) {x y z : LoadM α} (h : Alike R x y) (h' : Alike R y z) :
    Alike R x z := by
  cases h with
  | error e => exact h'
  | ok h =>
    cases h' with
    | ok h' => exact .ok (hR _ _ _ h h')

theorem Alike.bind {x y : LoadM α} {f g : α → LoadM β} (h : Alike R x y) (hfg : ∀ a b, R a b → Alike S (f a) (g b)) :
    Alike S (x >>= f) (y >>= g) := by
  cases h with
  | error e => exact .error e
  | ok h => exact hfg _ _ h

theorem alike_bind {x : LoadM α} {f g : α → LoadM β} (hfg : ∀ a, Alike S (f a) (g a)) :
    Alike S (x >>= f) (x >>= g) := by
  cases x with
  | error e => exact .error e
  | ok a => exact hfg a

end

theorem error_eq_fail {x : LoadM α} (h : Safe x) {e : LoadError} (hx : x = .error e) : e = .fail := by
  cases e with
  | fail => rfl
  | badRead => exact absurd hx h

/-- What is loaded in another order is the same in another order. -/
theorem alike_mapM {β : Type} {f : α → LoadM β} (hf : ∀ x, Safe (f x)) {xs ys : List α} (h : xs.Perm ys) :
    Alike List.Perm (xs.mapM f) (ys.mapM f) := by
  induction h with
  | nil => exact .ok .nil
  | cons x _ ih =>
    rw [List.mapM_cons, List.mapM_cons]
    exact alike_bind fun v => ih.bind fun vs vs' hvs => .ok (hvs.cons v)
  | swap x y xs =>
    simp only [List.mapM_cons]
    -- a load that fails does so before the other or after it, with the same error
    cases hx : f x with
    | error e =>
      obtain rfl := error_eq_fail (hf x) hx
      cases hy : f y with
      | error e' =>
        obtain rfl := error_eq_fail (hf y) hy
        exact .error _
      | ok v => exact .error _
    | ok u =>
      cases f y with
      | error e => exact .error e
      | ok v =>
        cases xs.mapM f with
        | error e => exact .error e
        | ok vs => exact .ok (.swap u v vs)
  | trans _ _ ih ih' => exact ih.trans (fun _ _ _ h h' => h.trans h') ih'

theorem loadDefinitions_eq_mapM (acc : List BlockDefinition) (children : List Node) :
    loadDefinitions acc children =
      (fun ds => acc.reverse ++ ds) <$> (children.filter isBlock).mapM loadBlockDefinition := by
  induction children generalizing acc with
  | nil => simp [loadDefinitions]; rfl
  | cons child children ih =>
    rw [loadDefinitions]
    by_cases hblock : isBlock child
    · rw [if_pos hblock, List.filter_cons_of_pos hblock, List.mapM_cons]
      simp only [ih, List.reverse_cons, List.append_assoc, List.singleton_append]
      simp
    · rw [if_neg hblock, List.filter_cons_of_neg hblock, ih]

theorem loadDefinitions_perm {items items' : List Node} (h : items.Perm items') :
    Alike List.Perm (loadDefinitions [] items) (loadDefinitions [] items') := by
  simp only [loadDefinitions_eq_mapM, List.reverse_nil, List.nil_append, id_map']
  exact alike_mapM safe_loadBlockDefinition (h.filter isBlock)

theorem isBlock_reordered (h : Reordered a b) : isBlock b = isBlock a := by
  rw [isBlock, isBlock, nodeType_reordered h, h.name]

theorem isBlock_iff : isBlock a = true ↔
    nodeType a = .compound ∧ ∃ k, a.name = some k ∧ k.toList.take 5 = "Block".toList := by
  rw [isBlock, decide_eq_true_eq]
  rfl

theorem bind_fail {β : Type} {x : LoadM α} {f : α → LoadM β} (hx : Safe x) (hf : ∀ a, f a = .error .fail) :
    x >>= f = .error .fail := by
  cases h : x with
  | error e =>
    obtain rfl := error_eq_fail hx h
    rfl
  | ok a => exact hf a

/-- A definition with the name of one of its fields is found itself, which is not a
byte. -/
theorem loadBlockDefinition_fail {c : Node} (hblock : isBlock c = true) (hname : c.name = some "BlockDraw") :
    loadBlockDefinition c = .error .fail := by
  have hdraw : expect .byte c ["BlockDraw"] = none := by
    rw [expect_name, findByName_self hname, Option.bind_some]
    exact member?_eq_none (by simp [(isBlock_iff.mp hblock).1])
  simp only [loadBlockDefinition, loadBlockName, loadBlockFields, required_eq, hdraw, bind_assoc, pure_bind]
  iterate 8 refine bind_fail (by simp) fun _ => ?_
  rfl

theorem loadBlockDefinition_reordered (hr : Reordered a b) (h : Distinct a) (hblock : isBlock a = true)
    (ha : ∀ k ∈ blockFields, FromChild k a) (hb : ∀ k ∈ blockFields, FromChild k b) :
    loadBlockDefinition a = loadBlockDefinition b := by
  obtain ⟨-, n, hname, htake⟩ := isBlock_iff.mp hblock
  have hother : ∀ k ∈ blockFields, k.toList.take 5 = "Block".toList → k = "BlockDraw" := by decide
  by_cases hn : n ∈ blockFields
  · obtain rfl := hother n hn htake
    rw [loadBlockDefinition_fail hblock hname,
      loadBlockDefinition_fail ((isBlock_reordered hr).trans hblock) (hr.name.trans hname)]
  · exact loadBlockDefinition_congr (sameFields hr h hname hn ha hb)

/-- The fields of each definition are found in its children first. -/
def BlocksFromChildren (items : List Node) : Prop :=
  ∀ c ∈ items, isBlock c = true → ∀ k ∈ blockFields, FromChild k c

theorem loadDefinitions_forall₂ {items items' : List Node} (hr : List.Forall₂ Reordered items items')
    (h : ∀ c ∈ items, Distinct c) (hitems : BlocksFromChildren items) (hitems' : BlocksFromChildren items')
    (acc : List BlockDefinition) : loadDefinitions acc items = loadDefinitions acc items' := by
  induction hr generalizing acc with
  | nil => rfl
  | @cons a b as bs hab _ ih =>
    obtain ⟨ha, has⟩ := List.forall_mem_cons.mp h
    obtain ⟨hfa, hfas⟩ := List.forall_mem_cons.mp hitems
    obtain ⟨hfb, hfbs⟩ := List.forall_mem_cons.mp hitems'
    rw [loadDefinitions, loadDefinitions, isBlock_reordered hab]
    by_cases hblock : isBlock a = true
    · rw [if_pos hblock, if_pos hblock, loadBlockDefinition_reordered hab ha hblock (hfa hblock)
        (hfb ((isBlock_reordered hab).trans hblock))]
      simp only [ih has hfas hfbs]
    · rw [if_neg hblock, if_neg hblock, ih has hfas hfbs]

/-- The same definitions, in any order. -/
structure SameDefinitions (d d' : BlockDefinitions) : Prop where
  version : d'.extensionVersion = d.extensionVersion
  perm : d.blockDefinitions.Perm d'.blockDefinitions

theorem loadBlockDefinitions_reordered (hr : Reordered a b) (h : Distinct a)
    (hcompound : nodeType a = .compound) (hversion : SameFields ["ExtensionVersion"] a b)
    (ha : BlocksFromChildren a.items) (hb : BlocksFromChildren b.items) :
    Alike SameDefinitions (loadBlockDefinitions a) (loadBlockDefinitions b) := by
  have hentries {n : Node} (hn : nodeType n = .compound) : member strict .compound n = .ok n.items := by
    cases n with
    | leaf name p => cases p <;> cases hn
    | list => cases hn
    | compound => rfl
  obtain ⟨items, hperm, hitems⟩ := hr.items
  have hdefs : Alike List.Perm (loadDefinitions [] a.items) (loadDefinitions [] b.items) := by
    rw [← loadDefinitions_forall₂ hitems (fun c hc => h.child (hperm.mem_iff.mpr hc))
      (fun c hc => ha c (hperm.mem_iff.mpr hc)) hb]
    exact loadDefinitions_perm hperm
  simp only [loadBlockDefinitions, loadEntries, loadVersion, ifExpected_eq, ok_bind, pure_bind, hentries hcompound,
    hentries ((nodeType_reordered hr).trans hcompound), hversion .int "ExtensionVersion" (by decide)]
  exact hdefs.bind fun ds ds' hds => .ok ⟨rfl, hds⟩

/-! ## Where the fields are found -/

/-- Every name that is searched for is found in a child first: in the compounds of the
extensions, in the colors, and in the block definitions. -/
structure FromChildren (root : Node) : Prop where
  fields : ∀ e ∈ extensionFields, ∀ ext ∈ extension root e.1, ∀ k ∈ e.2 ext, FromChild k ext
  colors : ∀ ext ∈ extension root "EnvColors", ∀ tag ∈ colorTags, ∀ c ∈ nbtFindByName tag ext,
    ∀ k ∈ colorFields, FromChild k c
  blocks : ∀ ext ∈ extension root "BlockDefinitions", BlocksFromChildren ext.items

theorem extension_found {ext : Node} (h : extension root name = some ext) :
    nbtFindByPath ["ClassicWorld", "Metadata", "CPE", name] root = some ext :=
  (Option.filter_eq_some_iff.mp h).1

theorem name_extension {ext : Node} (h : extension root name = some ext) : ext.name = some name :=
  name_foundByPath ["ClassicWorld", "Metadata", "CPE"] (extension_found h)

theorem not_mem_fields : ∀ e ∈ extensionFields, ∀ ext, e.1 ∉ e.2 ext := by
  simp only [extensionFields, List.forall_mem_cons]
  refine ⟨fun _ => by decide, fun _ => by decide, fun _ => by decide, fun ext => ?_, fun _ => by decide,
    fun _ => by decide, List.forall_mem_nil _⟩
  rw [envAppearanceFields]
  split
  · decide
  · decide

section

variable (hr : Reordered a b) (h : Distinct a)

include hr h

/-- The compound of an extension is in both trees or in none. -/
theorem extension_reordered (name : String) : Found (extension a name) (extension b name) := by
  simp only [extension, nbtExpect]
  obtain ⟨ha, hb⟩ | ⟨c, c', ha, hb, hc⟩ := (found_path hr h ["ClassicWorld", "Metadata", "CPE", name]).cases
  · rw [ha, hb]
    exact .none
  · rw [ha, hb, Option.filter_some, Option.filter_some, nodeType_reordered hc]
    exact found_if (.some hc)

/-- A load of an extension, from a load of its compounds. -/
theorem alike_loadExtension {R : α → α → Prop} {load : Node → LoadM α}
    (hload : ∀ ext ext', extension a name = some ext → extension b name = some ext' → Reordered ext ext' →
      Distinct ext → Alike R (load ext) (load ext')) :
    Alike (Option.Rel R) (loadExtension a name load) (loadExtension b name load) := by
  obtain ⟨hext, hext'⟩ | ⟨ext, ext', hext, hext', hexts⟩ := (extension_reordered hr h name).cases
  · simp only [loadExtension, hext, hext']
    exact .ok .none
  · simp only [loadExtension, hext, hext']
    have halike := hload ext ext' hext hext' hexts (h.foundByPath (extension_found hext))
    exact halike.bind fun x y hxy => .ok (.some hxy)

theorem loadExtension_congr {load : Node → LoadM α}
    (hload : ∀ ext ext', extension a name = some ext → extension b name = some ext' → Reordered ext ext' →
      Distinct ext → load ext = load ext') : loadExtension a name load = loadExtension b name load := by
  have halike : Alike (Option.Rel Eq) (loadExtension a name load) (loadExtension b name load) :=
    alike_loadExtension hr h fun ext ext' hext hext' hexts hd => by
      rw [hload ext ext' hext hext' hexts hd]
      exact alike_refl (fun _ => rfl) _
  generalize loadExtension a name load = x at halike
  generalize loadExtension b name load = y at halike
  cases halike with
  | error e => rfl
  | ok hrel =>
    cases hrel with
    | none => rfl
    | some heq => rw [heq]

end

section

variable (ha : FromChildren a) (hb : FromChildren b)

include ha hb

theorem extension_sameFields {fields : Node → List String} (he : (name, fields) ∈ extensionFields)
    {ext ext' : Node} (hext : extension a name = some ext) (hext' : extension b name = some ext')
    (hexts : Reordered ext ext') (hd : Distinct ext) {ks : List String} (hks : ks ⊆ fields ext)
    (hks' : ks ⊆ fields ext') : SameFields ks ext ext' :=
  sameFields hexts hd (name_extension hext) (fun hmem => not_mem_fields _ he ext (hks hmem))
    (fun k hk => ha.fields _ he ext hext k (hks hk)) fun k hk => hb.fields _ he ext' hext' k (hks' hk)

theorem loadColor_reordered {ext ext' : Node} (hext : extension a "EnvColors" = some ext)
    (hext' : extension b "EnvColors" = some ext') (hexts : Reordered ext ext') (hd : Distinct ext) {tag : String}
    (htag : tag ∈ colorTags) : loadColor ext tag = loadColor ext' tag := by
  have hmem : ("EnvColors", fun _ => "ExtensionVersion" :: colorTags) ∈ extensionFields := by
    simp [extensionFields]
  have hfrom : FromChild tag ext := ha.fields _ hmem ext hext tag (.tail _ htag)
  have hfrom' : FromChild tag ext' := hb.fields _ hmem ext' hext' tag (.tail _ htag)
  have hothers : ∀ tag ∈ colorTags, "EnvColors" ≠ tag ∧ tag ∉ colorFields := by decide
  obtain ⟨hne, hnot⟩ := hothers tag htag
  refine loadColor_congr ?_
  obtain ⟨hc, hc'⟩ | ⟨c, c', hc, hc', hcc⟩ := (found_name hexts hd (name_extension hext) hne hfrom hfrom').cases
  · rw [hc, hc']
    exact .none
  · have hpath : nbtFindByPath ["EnvColors", tag] ext = some c := by
      rw [← findByName_path hfrom (name_extension hext) hne, hc]
    rw [hc, hc']
    exact .some ⟨nodeType_reordered hcc, sameFields hcc (hd.foundByPath hpath)
      (name_foundByPath ["EnvColors"] hpath) hnot (ha.colors ext hext tag htag c hc)
      (hb.colors ext' hext' tag htag c' hc')⟩

variable (hr : Reordered a b) (h : Distinct a)

include hr h

theorem loadExtensions_reordered (ySize : BitVec 16) :
    loadExtension a "CustomBlocks" loadCustomBlocks = loadExtension b "CustomBlocks" loadCustomBlocks ∧
      loadExtension a "EnvColors" loadEnvColors = loadExtension b "EnvColors" loadEnvColors ∧
      loadExtension a "EnvAspect" loadEnvAspect = loadExtension b "EnvAspect" loadEnvAspect ∧
      loadExtension a "EnvMapAppearance" (loadEnvAppearance ySize) =
        loadExtension b "EnvMapAppearance" (loadEnvAppearance ySize) ∧
      loadExtension a "EnvWeatherType" loadEnvWeather = loadExtension b "EnvWeatherType" loadEnvWeather ∧
      Alike (Option.Rel SameDefinitions) (loadExtension a "BlockDefinitions" loadBlockDefinitions)
        (loadExtension b "BlockDefinitions" loadBlockDefinitions) := by
  have hcustom : ("CustomBlocks", fun _ => customBlocksFields) ∈ extensionFields := by simp [extensionFields]
  have hcolors : ("EnvColors", fun _ => "ExtensionVersion" :: colorTags) ∈ extensionFields := by
    simp [extensionFields]
  have haspect : ("EnvAspect", fun _ => envAspectFields) ∈ extensionFields := by simp [extensionFields]
  have happearance : ("EnvMapAppearance", envAppearanceFields) ∈ extensionFields := by simp [extensionFields]
  have hweather : ("EnvWeatherType", fun _ => envWeatherFields) ∈ extensionFields := by simp [extensionFields]
  have hdefinitions : ("BlockDefinitions", fun _ => ["ExtensionVersion"]) ∈ extensionFields := by
    simp [extensionFields]
  refine ⟨loadExtension_congr hr h fun ext ext' hext hext' hexts hd => ?_,
    loadExtension_congr hr h fun ext ext' hext hext' hexts hd => ?_,
    loadExtension_congr hr h fun ext ext' hext hext' hexts hd => ?_,
    loadExtension_congr hr h fun ext ext' hext hext' hexts hd => ?_,
    loadExtension_congr hr h fun ext ext' hext hext' hexts hd => ?_,
    alike_loadExtension hr h fun ext ext' hext hext' hexts hd => ?_⟩
  · exact loadCustomBlocks_congr (extension_sameFields ha hb hcustom hext hext' hexts hd (.refl _) (.refl _))
  · have hsame : SameFields ["ExtensionVersion"] ext ext' :=
      extension_sameFields ha hb hcolors hext hext' hexts hd (by simp) (by simp)
    exact loadEnvColors_congr hsame fun tag htag => loadColor_reordered ha hb hext hext' hexts hd htag
  · exact loadEnvAspect_congr (extension_sameFields ha hb haspect hext hext' hexts hd (.refl _) (.refl _))
  · have hversion : appearanceVersion ext' = appearanceVersion ext := by
      have hsame : SameFields ["ExtensionVersion"] ext ext' := extension_sameFields ha hb happearance hext hext' hexts
        hd (by simp [envAppearanceFields]) (by simp [envAppearanceFields])
      exact appearanceVersion_reordered hexts (hsame .int "ExtensionVersion" (by decide))
    have hfields : envAppearanceFields ext' = envAppearanceFields ext := by
      rw [envAppearanceFields, envAppearanceFields, hversion]
    exact loadEnvAppearance_congr hversion
      (extension_sameFields ha hb happearance hext hext' hexts hd (.refl _) (by rw [hfields]; exact .refl _)) ySize
  · exact loadEnvWeather_congr (extension_sameFields ha hb hweather hext hext' hexts hd (.refl _) (.refl _))
  · exact loadBlockDefinitions_reordered hexts hd (nodeType_expect hext)
      (extension_sameFields ha hb hdefinitions hext hext' hexts hd (.refl _) (.refl _)) (ha.blocks ext hext)
      (hb.blocks ext' hext')

end

/-! ## What is read without a check -/

/-- The bits of a node where a long is read. -/
def longBits : Node → Option (BitVec 64)
  | .leaf _ (.long v) => some v
  | .leaf _ (.double v) => some v
  | _ => none

/-- The misreads that C allows: a long is read whatever the node is, and of a double it is
the bits. What a read of another node gives is not said; that of a string may not
return. -/
structure Possible (misread : Misread) : Prop where
  long : ∀ n, ∃ v, misread .long n = .ok v
  double : ∀ name v, misread .long (.leaf name (.double v)) = .ok v

/-- What is read without a check has the bits it is read as. -/
def Readable (root : Node) : Prop :=
  (∀ path ∈ stringPaths, ∀ n ∈ nbtFindByPath path root, nodeType n = .string) ∧
    ∀ path ∈ longPaths, ∀ n ∈ nbtFindByPath path root, (longBits n).isSome

theorem longBits_reordered (h : Reordered a b) : longBits b = longBits a := by
  obtain rfl | ⟨c, hswap, hcb⟩ := h.cases_head
  · rfl
  · have hnone {n : Node} (hn : nodeType n = .list ∨ nodeType n = .compound) : longBits n = none := by
      cases n with
      | leaf name p => cases p <;> simp [nodeType, payloadType] at hn
      | list | compound => rfl
    have ha : nodeType a = .list ∨ nodeType a = .compound := by
      cases hswap with
      | here | inCompound => exact .inr rfl
      | inList => exact .inl rfl
    rw [hnone ha, hnone (nodeType_reordered h ▸ ha)]

theorem member_long (hm : Possible misread) {n : Node} {v : BitVec 64} (h : longBits n = some v) :
    member misread .long n = .ok v := by
  cases n with
  | leaf name p =>
    cases p with
    | long w => exact congrArg _ (Option.some.inj h)
    | double w =>
      obtain rfl := Option.some.inj h
      exact hm.double name w
    | _ => cases h
  | list | compound => cases h

theorem unchecked_long (hm : Possible misread) (h : ∀ n ∈ nbtFindByPath path root, (longBits n).isSome) :
    unchecked misread .long root path = .ok ((nbtFindByPath path root).bind longBits) := by
  rw [unchecked]
  cases hn : nbtFindByPath path root with
  | none => rfl
  | some n =>
    obtain ⟨v, hv⟩ := Option.isSome_iff_exists.mp (h n hn)
    rw [ifFound, member_long hm hv, Option.bind_some, hv]
    rfl

theorem Readable.safe (h : Readable root) (hm : Possible misread) (path : String) (clock : Clock) :
    Safe (tcMapLoad ⟨path, clock, misread⟩ (some root)) := by
  refine safe_of_unchecked ⟨path, clock, misread⟩ root fun _ => ⟨fun p hp => ?_, fun p hp => ?_⟩
  · rw [unchecked_eq (h.1 p hp)]
    exact safe_ok _
  · rw [unchecked_long hm (h.2 p hp)]
    exact safe_ok _

section

variable (hr : Reordered a b) (h : Distinct a)

include hr h

theorem Readable.reordered (hread : Readable a) : Readable b := by
  refine ⟨fun path hpath n hn => ?_, fun path hpath n hn => ?_⟩
  · obtain ⟨-, hnone⟩ | ⟨c, c', hc, hc', hcc⟩ := (found_path hr h path).cases
    · cases hnone.symm.trans hn
    · obtain rfl := Option.some.inj (hc'.symm.trans hn)
      exact (nodeType_reordered hcc).trans (hread.1 path hpath c hc)
  · obtain ⟨-, hnone⟩ | ⟨c, c', hc, hc', hcc⟩ := (found_path hr h path).cases
    · cases hnone.symm.trans hn
    · obtain rfl := Option.some.inj (hc'.symm.trans hn)
      rw [longBits_reordered hcc]
      exact hread.2 path hpath c hc

variable (hread : Readable a) {misread' : Misread} (hm : Possible misread) (hm' : Possible misread')

include hread

theorem unchecked_string_reordered (hpath : path ∈ stringPaths) :
    unchecked misread .string a path = unchecked misread' .string b path := by
  rw [unchecked_eq (hread.1 path hpath), unchecked_eq ((hread.reordered hr h).1 path hpath)]
  rw [member?_found (found_path hr h path) (by decide)]

include hm hm'

theorem unchecked_long_reordered (hpath : path ∈ longPaths) :
    unchecked misread .long a path = unchecked misread' .long b path := by
  rw [unchecked_long hm (hread.2 path hpath), unchecked_long hm' ((hread.reordered hr h).2 path hpath)]
  obtain ⟨hc, hc'⟩ | ⟨c, c', hc, hc', hcc⟩ := (found_path hr h path).cases
  · rw [hc, hc']
  · rw [hc, hc', Option.bind_some, Option.bind_some, longBits_reordered hcc]

end

/-! ## Maps -/

/-- Maps that are equal in every field, up to the order of the block definitions. -/
def SameMap (m m' : TcMap) : Prop :=
  ∃ defs, m' = { m with blockDefinitionExtensions := defs } ∧
    Option.Rel SameDefinitions m.blockDefinitionExtensions defs

theorem load_reordered (hr : Reordered a b) (h : Distinct a) (hread : Readable a) (ha : FromChildren a)
    (hb : FromChildren b) {misread' : Misread} (hm : Possible misread) (hm' : Possible misread')
    (path : String) (clock : Clock) :
    Alike SameMap (tcMapLoad ⟨path, clock, misread⟩ (some a)) (tcMapLoad ⟨path, clock, misread'⟩ (some b)) := by
  have hstring (compound tag : String) (hpath : ["ClassicWorld", compound, tag] ∈ stringPaths) :
      loadString ⟨path, clock, misread⟩ a compound tag = loadString ⟨path, clock, misread'⟩ b compound tag :=
    unchecked_string_reordered hr h hread hpath
  have htime (tag : String) (now : Clock → BitVec 64) (hpath : ["ClassicWorld", tag] ∈ longPaths) :
      loadTime ⟨path, clock, misread⟩ a tag now = loadTime ⟨path, clock, misread'⟩ b tag now := by
    rw [loadTime, loadTime, unchecked_long_reordered hr h hread hm hm' hpath]
  have happearance (ySize : BitVec 16) := (loadExtensions_reordered ha hb hr h ySize).2.2.2.1
  obtain ⟨hcustom, hcolors, haspect, -, hweather, hdefs⟩ := loadExtensions_reordered ha hb hr h 0
  have hbyte := expect_path_reordered hr h (by decide : IsLeaf .byte)
  have hshort := expect_path_reordered hr h (by decide : IsLeaf .short)
  have hname := expect_path_reordered hr h (by decide : IsLeaf .string)
  have harray := expect_path_reordered hr h (by decide : IsLeaf .byteArray)
  by_cases hcompound : nodeType a = .compound
  · have hroot {n : Node} (hn : nodeType n = .compound) : loadRoot (some n) = .ok n := loadRoot_ok.mpr ⟨rfl, hn⟩
    simp only [tcMapLoad, hroot hcompound, hroot ((nodeType_reordered hr).trans hcompound), ok_bind,
      loadFormatVersion, loadName, loadUuid, loadSize, loadSpawn, loadBlocks, loadBlockArray, loadBlockArray2,
      required_eq, ifExpected_eq, hbyte, hshort, hname, harray, hstring "CreatedBy" "Service" (by decide),
      hstring "CreatedBy" "Username" (by decide), hstring "MapGenerator" "Software" (by decide),
      hstring "MapGenerator" "MapGeneratorName" (by decide), htime "TimeCreated" _ (by decide),
      htime "LastAccessed" _ (by decide), htime "LastModified" _ (by decide), hcustom, hcolors, haspect, happearance,
      hweather]
    iterate 20 refine alike_bind fun _ => ?_
    exact hdefs.bind fun d d' hd => .ok ⟨d', rfl, hd⟩
  · have hroot {n : Node} (hn : nodeType n ≠ .compound) : loadRoot (some n) = .error .fail := by
      rw [loadRoot, Option.filter_some, if_neg (by simpa using hn)]
      rfl
    simp only [tcMapLoad, hroot hcompound, hroot (nodeType_reordered hr ▸ hcompound)]
    exact .error .fail

/-- Loading ignores the order of tags: it fails on both trees, or gives the same map of
both, with every field of an extension taken from a direct child. -/
def OrderIrrelevant (path : String) (clock : Clock) (t t' : Node) : Prop :=
  ∀ misread misread', Possible misread → Possible misread' →
    (tcMapLoad ⟨path, clock, misread⟩ (some t) = .error .fail ∧
        tcMapLoad ⟨path, clock, misread'⟩ (some t') = .error .fail) ∨
      ∃ m m', tcMapLoad ⟨path, clock, misread⟩ (some t) = .ok m ∧
        tcMapLoad ⟨path, clock, misread'⟩ (some t') = .ok m' ∧ SameMap m m' ∧ FromChildren t ∧ FromChildren t'

/-- The load fails, whatever a misread gives. -/
def Refused (path : String) (clock : Clock) (t : Node) : Prop :=
  ∀ misread, Possible misread → tcMapLoad ⟨path, clock, misread⟩ (some t) = .error .fail

/-- Misreads that give this time, and no string. -/
def wild (time : BitVec 64) : Misread
  | .long, n => .ok ((longBits n).getD time)
  | _, _ => .error .badRead

theorem possible_wild (time : BitVec 64) : Possible (wild time) where
  long _ := ⟨_, rfl⟩
  double _ _ := rfl

theorem loadTime_wild (path : String) (clock : Clock) (time : BitVec 64) (root : Node) (tag : String)
    (now : Clock → BitVec 64) : loadTime ⟨path, clock, wild time⟩ root tag now =
      .ok (((nbtFindByPath ["ClassicWorld", tag] root).map fun n => (longBits n).getD time).getD (now clock)) := by
  have hmember (n : Node) : member (wild time) .long n = .ok ((longBits n).getD time) := by
    rw [member]
    split
    · rename_i v hv
      cases n with
      | leaf name p =>
        cases p with
        | long w =>
          obtain rfl := Option.some.inj hv
          rfl
        | _ => cases hv
      | list | compound => cases hv
    · rfl
  rw [loadTime, unchecked]
  cases nbtFindByPath ["ClassicWorld", tag] root with
  | none => rfl
  | some n =>
    rw [ifFound, hmember]
    rfl

/-- What the load of a map has read without a check. -/
theorem reads_of_load {env : LoadEnv} {m : TcMap} (h : tcMapLoad env (some root) = .ok m) :
    (∀ path ∈ stringPaths, ∃ v, unchecked env.misread .string root path = .ok v) ∧
      loadTime env root "TimeCreated" Clock.timeCreated = .ok m.timeCreated ∧
      loadTime env root "LastAccessed" Clock.lastAccessed = .ok m.lastAccessed ∧
      loadTime env root "LastModified" Clock.lastModified = .ok m.lastModified := by
  simp only [tcMapLoad, bind_ok, loadRoot_ok, Option.some.injEq] at h
  obtain ⟨r, ⟨rfl, -⟩, _, _, _, _, _, _, _, _, _, _, _, _, h⟩ := h
  obtain ⟨_, hs₁, _, hs₂, _, hs₃, _, hs₄, created, hcreated, accessed, haccessed, modified, hmodified, h⟩ := h
  obtain ⟨_, _, _, _, _, _, _, _, _, _, _, _, _, _, _, _, h⟩ := h
  obtain rfl := Except.ok.inj h
  refine ⟨?_, hcreated, haccessed, hmodified⟩
  simp only [stringPaths, List.forall_mem_cons]
  exact ⟨⟨_, hs₁⟩, ⟨_, hs₂⟩, ⟨_, hs₃⟩, ⟨_, hs₄⟩, List.forall_mem_nil _⟩

/-- A string that is read from a node that is none is not read by `wild`. -/
theorem string_of_wild {time : BitVec 64} {v : Option String}
    (h : unchecked (wild time) .string root path = .ok v) :
    ∀ n ∈ nbtFindByPath path root, nodeType n = .string := by
  intro n hn
  by_contra htype
  rw [unchecked, hn, ifFound, member, member?_eq_none htype] at h
  cases h

/-- A time that is the same for different misreads is read from its bits. -/
theorem bits_of_wild {t t' : Node} (hr : Reordered t t') (h : Distinct t) {now : BitVec 64}
    (heq : ((nbtFindByPath path t).map fun n => (longBits n).getD 0).getD now =
      ((nbtFindByPath path t').map fun n => (longBits n).getD 1).getD now) :
    ∀ n ∈ nbtFindByPath path t, (longBits n).isSome := by
  intro n hn
  obtain ⟨hnone, -⟩ | ⟨c, c', hc, hc', hcc⟩ := (found_path hr h path).cases
  · cases hnone.symm.trans hn
  · obtain rfl := Option.some.inj (hc.symm.trans hn)
    rw [hc, hc', Option.map_some, Option.map_some, Option.getD_some, Option.getD_some, longBits_reordered hcc] at heq
    cases hbits : longBits c with
    | none =>
      rw [hbits] at heq
      exact absurd heq (by decide)
    | some v => rfl

theorem readable_of_sameMap {path : String} {clock : Clock} {t t' : Node} (hr : Reordered t t') (h : Distinct t)
    {m m' : TcMap} (hm : tcMapLoad ⟨path, clock, wild 0⟩ (some t) = .ok m)
    (hm' : tcMapLoad ⟨path, clock, wild 1⟩ (some t') = .ok m') (hsame : SameMap m m') : Readable t := by
  obtain ⟨hstrings, hcreated, haccessed, hmodified⟩ := reads_of_load hm
  obtain ⟨-, hcreated', haccessed', hmodified'⟩ := reads_of_load hm'
  obtain ⟨defs, rfl, -⟩ := hsame
  rw [loadTime_wild] at hcreated haccessed hmodified hcreated' haccessed' hmodified'
  refine ⟨fun path hpath => ?_, ?_⟩
  · obtain ⟨v, hv⟩ := hstrings path hpath
    exact string_of_wild hv
  · simp only [longPaths, List.forall_mem_cons]
    exact ⟨bits_of_wild hr h (Except.ok.inj (hcreated.trans hcreated'.symm)),
      bits_of_wild hr h (Except.ok.inj (haccessed.trans haccessed'.symm)),
      bits_of_wild hr h (Except.ok.inj (hmodified.trans hmodified'.symm)), List.forall_mem_nil _⟩

/-- A map of one block, with these tags in its `CustomBlocks` compound. -/
def customTree (items : List Node) : Node :=
  nbtMakeCompound "ClassicWorld"
    [nbtMakeByte "FormatVersion" 1, nbtMakeByteArray "UUID" (.ofVector (Vector.replicate 16 7) (.refl true)),
      nbtMakeShort "X" 1, nbtMakeShort "Y" 1, nbtMakeShort "Z" 1,
      nbtMakeCompound "Spawn" [nbtMakeShort "X" 0, nbtMakeShort "Y" 0, nbtMakeShort "Z" 0, nbtMakeByte "H" 0,
        nbtMakeByte "P" 0],
      nbtMakeByteArray "BlockArray" oneBlock.blocks.blockArray,
      nbtMakeCompound "Metadata" [nbtMakeCompound "CPE" [nbtMakeCompound "CustomBlocks" items]]]

def fallbackTag : Node := nbtMakeByteArray "Fallback" (.ofVector (Vector.replicate 256 0) (.refl true))

/-- A compound of another program, with a tag of that name. -/
def foreignTag (k : String) : Node := nbtMakeCompound "Editor" [nbtMakeShort k 2]

/-- The tag of the other program comes first. -/
def foreignFirst (k : String) : Node := customTree [foreignTag k, nbtMakeShort "SupportLevel" 1, fallbackTag]

def foreignSecond (k : String) : Node := customTree [nbtMakeShort "SupportLevel" 1, foreignTag k, fallbackTag]

/-- The tags of a compound, the last first. -/
def reversed (t : Node) : Node := .compound t.name t.items.reverse

theorem distinct_foreign (k : String) : Distinct (foreignFirst k) ∧ Distinct (foreignSecond k) := by
  simp [foreignFirst, foreignSecond, customTree, foreignTag, fallbackTag, nbtMakeCompound, nbtMakeShort, nbtMakeByte,
    nbtMakeByteArray, Distinct, DistinctAll, Node.name]

theorem reordered_foreign (k : String) : Reordered (foreignFirst k) (foreignSecond k) := by
  have hitems : Reordered (nbtMakeCompound "CustomBlocks" [foreignTag k, nbtMakeShort "SupportLevel" 1, fallbackTag])
      (nbtMakeCompound "CustomBlocks" [nbtMakeShort "SupportLevel" 1, foreignTag k, fallbackTag]) :=
    reordered_of_perm _ (List.Perm.swap _ _ _)
  have hcpe : Reordered _ (nbtMakeCompound "CPE" _) := hitems.inCompound (some "CPE") [] []
  have hmetadata : Reordered _ (nbtMakeCompound "Metadata" _) := hcpe.inCompound (some "Metadata") [] []
  exact hmetadata.inCompound (some "ClassicWorld") (customTree []).items.dropLast []

theorem reordered_reversed (k : String) : Reordered (foreignSecond k) (reversed (foreignSecond k)) :=
  reordered_of_perm _ (List.reverse_perm _).symm

/-- The level of the custom blocks that are loaded. -/
def levelLoaded (t : Node) : LoadM (Option (BitVec 16)) :=
  (tcMapLoad { midnight with misread := wild 0 } (some t)).map fun m => m.customBlocksExtension.map (·.supportLevel)

theorem readable_foreignSecond : Readable (foreignSecond "SupportLevel") := by
  unfold Readable
  decide

theorem fromChildren_foreignSecond : FromChildren (foreignSecond "SupportLevel") where
  fields := by decide
  colors := by decide
  blocks := by
    unfold BlocksFromChildren
    decide

theorem fromChildren_reversed : FromChildren (reversed (foreignSecond "SupportLevel")) where
  fields := by decide
  colors := by decide
  blocks := by
    unfold BlocksFromChildren
    decide

theorem OrderIrrelevant.level {t t' : Node} (h : OrderIrrelevant midnight.path midnight.clock t t') :
    levelLoaded t = levelLoaded t' := by
  unfold levelLoaded
  obtain ⟨ht, ht'⟩ | ⟨m, m', ht, ht', hsame, -⟩ := h (wild 0) (wild 0) (possible_wild 0) (possible_wild 0)
  · rw [ht, ht']
  · obtain ⟨defs, rfl, -⟩ := hsame
    rw [ht, ht']
    rfl

end TC.Proof.Map
