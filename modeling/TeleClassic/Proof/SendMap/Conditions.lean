import TeleClassic.Proof.SendMap.Completion

/-!
# Which maps can be sent

`tc_send_map_task2` neither checks all that it asserts nor that the extensions of
a map that it reads are there, and a map that was loaded may have such values: a
colour out of range, or an appearance for a client that has `EnvMapAspect`
instead. The map can be sent without a crash, whatever the socket does, if and only
if it is `Sendable` to the client (`task2_conditions`); a client that lacks an
extension before such a value is reached makes the task fail as it should.
-/

namespace TC.Proof.SendMap

open TC.Impl.Nbt TC.Impl.Map TC.Impl.Protocol TC.Impl.SendMap
open TC.Impl.ThreadPool (Priority)
open TC.Impl.Server (Session tcSessionGetExtensionVersion)
open TC.Proof.Map (oneBlock midnight aspect load_saveTree reload)

variable {socket : Stream} {u : Chain}

/-! ## Maps and clients -/

/-- A client with `FastMap` and `EnvColors`. -/
def colorSession : Session := { fastSession with extCpeVersions := #v[0, 4, 1] }

/-- A client with `FastMap` and `EnvMapAspect`. -/
def aspectSession : Session := { fastSession with extCpeVersions := #v[0, 4, 4] }

/-- A map with an appearance. -/
def framed : TcMap := { oneBlock with envWeatherExtension := none }

/-- A map whose sky has a colour out of range. -/
def glaring : TcMap :=
  let black : ColorConfig := { red := 0, green := 0, blue := 0 }
  { plainMap with
    envColorsExtension := some {
      sky := { red := 300, green := 0, blue := 0 }
      cloud := black
      fog := black
      ambient := black
      sunlight := black
      extensionVersion := 1 } }

/-- Such a map, with a weather. -/
def stormy : TcMap := { glaring with envWeatherExtension := oneBlock.envWeatherExtension }

section Task2

variable {c : Setup} {b : Buffers c} {env : Env} {a : Around} {n : Int}

/-- The chain, with another socket of its client. -/
def onSocket (s : Chain) (socket : Stream) : Chain :=
  { s with session := { s.session with clientSocket := socket } }

theorem equippedEnv_withSocket {m : TcMap} :
    EquippedEnv (a.withSocket socket).session m ↔ EquippedEnv a.session m :=
  ⟨fun h => ⟨h.aspect, h.appearance, h.weather⟩, fun h => ⟨h.aspect, h.appearance, h.weather⟩⟩

theorem sendable_withSocket {m : TcMap} {main : List Byte} :
    Sendable (a.withSocket socket).session m main ↔ Sendable a.session m main :=
  ⟨fun h => ⟨h.size, h.texture, h.version, fun henv => h.colors (equippedEnv_withSocket.mpr henv)⟩,
    fun h => ⟨h.size, h.texture, h.version, fun henv => h.colors (equippedEnv_withSocket.mp henv)⟩⟩

theorem task2Ends_onSocket
    (h : chainStep c (onSocket ((Stage.ready b).chain a n) socket) (.run env) = some u) :
    Task2Ends env (a.withSocket socket) n b u := by
  have hstep := chainStep_ready (a := a.withSocket socket) (n := n) env b
  split at hstep
  · cases hstep.symm.trans h
  · obtain rfl := Option.some.inj (hstep.symm.trans h)
    exact tcSendMapTask2_ends env b

/-- A chain that has not halted has failed, or the client has all that is needed. -/
theorem Task2Ends.failed_of_lacks (h : Task2Ends env a n b u)
    (hclient : a.session.currentGeneration = c.sessionGeneration) (hhalted : u.halted = none)
    (hlacks : ¬Equipped a.session c.map) : u.failed = 1 ∧ Ended u ∧ Completed u := by
  cases h with
  | gone hgone => exact absurd hclient hgone
  | announced hhas => exact absurd hhas hlacks
  | failed session hwhy hs =>
    subst hs
    exact ⟨rfl, ⟨rfl, rfl⟩, rfl, rfl, rfl, rfl, rfl⟩
  | halted hok session failure hs =>
    subst hs
    cases hhalted

theorem Task2Ends.halted_of_not_sendable (h : Task2Ends env a n b u)
    (hclient : a.session.currentGeneration = c.sessionGeneration)
    (haccepts : a.session.clientSocket.Accepts) (hbad : ¬Sendable a.session c.map b.main) :
    u.halted ≠ none := by
  cases h with
  | gone hgone => exact absurd hclient hgone
  | announced _ hok => exact absurd hok hbad
  | failed session hwhy => exact absurd (hwhy fun k _ _ => haccepts k).2 hbad
  | halted _ session failure hs =>
    subst hs
    exact Option.some_ne_none failure

theorem Task2Ends.not_halted (h : Task2Ends env a n b u) (hok : Sendable a.session c.map b.main) :
    u.halted = none := by
  cases h with
  | gone _ hs => exact hs ▸ rfl
  | announced _ _ session _ hs =>
    subst hs
    split <;> rfl
  | failed session _ hs => exact hs ▸ rfl
  | halted hbad => exact absurd hok hbad

/-- `tc_send_map_task2`, run for any map and any client of the call. It does not crash,
whatever the socket does and whether or not the allocation succeeds, if and only if
the map is `Sendable` to the client. If the client lacks an extension that the map
needs and the task does not crash, it fails and cleans up. -/
theorem task2_conditions {preLoadedMap : Bool} {currentPriority : Option Priority} {env₀ : Env} {session : Session}
    {shutdown : Bool} {s t : Chain} {ls : List Label} {d : SendMapData} {bytes : List Byte}
    (hcall : tcApiScheduleSendMap c preLoadedMap currentPriority env₀ (Chain.idle session shutdown n) = some s)
    (hrun : run (chainStep c) s ls = some t) (htask : t.task.map Queued.func = some .tcSendMapTask2)
    (hdata : t.sendMapData = some d) (hbytes : d.blockArrayBuffer = some bytes)
    (hclient : t.session.currentGeneration = c.sessionGeneration) (hlock : t.session.actionLock = false) :
    ((∀ socket env u, chainStep c (onSocket t socket) (.run env) = some u → u.halted = none) ↔
      Sendable t.session c.map bytes) ∧
    ∀ socket env u, chainStep c (onSocket t socket) (.run env) = some u → u.halted = none →
      ¬Equipped t.session c.map → u.failed = 1 ∧ Ended u ∧ Completed u := by
  obtain ⟨st, -, hs⟩ := scheduled_stage (a := ⟨session, shutdown⟩) env₀ hcall
  obtain ⟨a, st, rfl⟩ := run_inv stage_step ⟨_, st, hs⟩ hrun
  cases st with
  | ready b =>
    cases hdata
    cases hbytes
    refine ⟨⟨fun hsafe => ?_, fun hok socket env u hstep => ?_⟩, fun socket env u hstep hhalted hlacks => ?_⟩
    · -- a socket that accepts everything lets the task come as far as it can
      by_contra hbad
      let socket : Stream := ⟨fun _ => .accept 0, 0, []⟩
      have hstep := chainStep_ready (a := a.withSocket socket) (n := n) env₀ b
      rw [if_neg (by rw [show (a.withSocket socket).session.actionLock = false from hlock]; exact Bool.false_ne_true)]
        at hstep
      have hends : Task2Ends env₀ (a.withSocket socket) n b _ := tcSendMapTask2_ends env₀ b
      exact hends.halted_of_not_sendable hclient (fun _ => trivial) (mt sendable_withSocket.mp hbad)
        (hsafe socket env₀ _ hstep)
    · exact (task2Ends_onSocket hstep).not_halted (sendable_withSocket.mpr hok)
    · refine (task2Ends_onSocket hstep).failed_of_lacks hclient hhalted (mt (fun h => ?_) hlacks)
      exact ⟨equippedEnv_withSocket.mp h.1, h.colors, h.definitions⟩
  | _ => cases htask

end Task2

/-- Whatever the colours are, the task ends before them if the client has no weather. -/
theorem sendable_stormy : Sendable colorSession stormy deflatedBlock where
  size _ := by decide
  texture h := by cases h
  version _ _ h := by cases h
  colors henv := absurd (henv.weather rfl) (by decide)

theorem task2_conditions_lobby :
    ∃ s t, tcApiScheduleSendMap (sending stormy) false none lucky (Chain.idle colorSession false 0) = some s ∧
      run (chainStep (sending stormy)) s [.answer true lucky, .run lucky] = some t ∧
      ∀ socket env u, chainStep (sending stormy) (onSocket t socket) (.run env) = some u →
        u.halted = none ∧ u.failed = 1 ∧ Completed u := by
  have hcall : tcApiScheduleSendMap (sending stormy) false none lucky (Chain.idle colorSession false 0) =
    some ((Stage.waiting : Stage (sending stormy)).chain ⟨colorSession, false⟩ 0) := rfl
  have hrun : run (chainStep (sending stormy)) ((Stage.waiting : Stage (sending stormy)).chain ⟨colorSession, false⟩ 0)
    [.answer true lucky, .run lucky] =
      some ((Stage.ready ⟨deflatedBlock, none, rfl⟩).chain ⟨colorSession, false⟩ 0) := rfl
  obtain ⟨hsafe, hfails⟩ := task2_conditions hcall hrun rfl rfl rfl rfl rfl
  refine ⟨_, _, hcall, hrun, fun socket env u hstep => ?_⟩
  have hhalted := hsafe.mpr sendable_stormy socket env u hstep
  obtain ⟨hfailed, -, hcompleted⟩ := hfails socket env u hstep hhalted fun h => absurd (h.weather rfl) (by decide)
  exact ⟨hhalted, hfailed, hcompleted⟩

/-! ## Maps that crash the server -/

/-- The versions of a client are within those of the server. -/
def Negotiable (session : Session) : Prop :=
  ∀ i : Fin maxSupported, (tcSessionGetExtensionVersion session i).toInt ≤
    (((supportedExtensions.map Extension.version).getD i 0).signExtend 32).toInt

/-- A map with an aspect and without an appearance. -/
def bare : TcMap := { plainMap with createdByService := none, mapGenName := none, envAspectExtension := some aspect }

def bareTree : Node :=
  nbtMakeCompound "ClassicWorld"
    [nbtMakeByte "FormatVersion" 1, nbtMakeString "Name" "one", nbtMakeByteArray "UUID" (.ofVector bare.uuid (.refl true)),
      nbtMakeShort "X" 1, nbtMakeShort "Y" 1, nbtMakeShort "Z" 1, nbtMakeLong "TimeCreated" 1,
      nbtMakeLong "LastAccessed" 2, nbtMakeLong "LastModified" 3, saveSpawn bare.spawnPosition,
      nbtMakeByteArray "BlockArray" bare.blocks.blockArray,
      nbtMakeCompound "Metadata" [nbtMakeCompound "CPE" [nbtMakeCompound "EnvAspect"
        [nbtMakeByte "SideBlock" 7, nbtMakeByte "EdgeBlock" 8, nbtMakeInt "CloudsHeight" 3, nbtMakeFloat "CloudsSpeed" 0,
          nbtMakeInt "EdgeHeight" 0, nbtMakeByte "UseExponentialFog" 0, nbtMakeInt "SideOffset" 0,
          nbtMakeFloat "WeatherFade" 0, nbtMakeFloat "WeatherSpeed" 0]]]]

/-- A file that is loaded, and a client to which the map cannot be sent. -/
def CrashesOn (tree : Node) (m : TcMap) (session : Session) : Prop :=
  tcMapLoad midnight (some tree) = .ok m ∧ Negotiable session ∧
    ∃ s t u, tcApiScheduleSendMap (sending m) false none lucky (Chain.idle session false 0) = some s ∧
      run (chainStep (sending m)) s [.answer true lucky, .run lucky] = some t ∧
      chainStep (sending m) t (.run lucky) = some u ∧ u.halted ≠ none

theorem crashesOn_of_not_sendable {tree : Node} {m : TcMap} {session : Session}
    (hload : tcMapLoad midnight (some tree) = .ok m) (hversions : Negotiable session) (b : Buffers (sending m))
    (hrun : run (chainStep (sending m)) ((Stage.waiting : Stage (sending m)).chain ⟨session, false⟩ 0)
      [.answer true lucky, .run lucky] = some ((Stage.ready b).chain ⟨session, false⟩ 0))
    (hclient : session.currentGeneration = 0) (hlock : session.actionLock = false)
    (hsocket : session.clientSocket.Accepts) (hbad : ¬Sendable session m b.main) : CrashesOn tree m session := by
  have hstep := chainStep_ready (c := sending m) (a := ⟨session, false⟩) (n := 0) lucky b
  rw [if_neg (by rw [hlock]; exact Bool.false_ne_true)] at hstep
  have hends : Task2Ends lucky ⟨session, false⟩ 0 b _ := tcSendMapTask2_ends lucky b
  exact ⟨hload, hversions, _, _, _, rfl, hrun, hstep, hends.halted_of_not_sendable hclient hsocket hbad⟩

theorem equippedEnv_glaring : EquippedEnv colorSession (reload glaring) where
  aspect h := by cases h
  appearance _ _ h := by cases h
  weather h := by cases h

/-- Three maps that are loaded, and clients with versions that the server supports:
a colour out of range, an appearance for a client that has `EnvMapAspect` but not
`EnvMapAppearance`, and an aspect without an appearance. -/
theorem loaded_maps_crash :
    CrashesOn (saveTree glaring) (reload glaring) colorSession ∧ CrashesOn (saveTree framed) (reload framed) aspectSession ∧
      CrashesOn bareTree bare aspectSession := by
  refine ⟨?_, ?_, ?_⟩
  · refine crashesOn_of_not_sendable (load_saveTree ..) (by unfold Negotiable; decide) ⟨deflatedBlock, none, rfl⟩ rfl
      rfl rfl (fun _ => trivial) fun h => ?_
    have hasserts := h.colors equippedEnv_glaring _ rfl (by decide) (.tcCpeSendSetEnvColor 0 300 0 0) List.mem_cons_self
    revert hasserts
    decide
  · refine crashesOn_of_not_sendable (load_saveTree ..) (by unfold Negotiable; decide) ⟨deflatedBlock, none, rfl⟩ rfl
      rfl rfl (fun _ => trivial) fun h => ?_
    have hversion := h.version rfl _ rfl
    revert hversion
    unfold VersionOk
    decide
  · refine crashesOn_of_not_sendable rfl (by unfold Negotiable; decide) ⟨deflatedBlock, none, rfl⟩ rfl rfl rfl
      (fun _ => trivial) fun h => ?_
    have htexture := h.texture rfl (by decide)
    revert htexture
    decide

end TC.Proof.SendMap
