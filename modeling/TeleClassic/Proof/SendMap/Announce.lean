import TeleClassic.Proof.Protocol
import TeleClassic.Proof.SendMap.Stages

/-!
# Announcing a level

While `tc_send_map_task2` has the lock it sends one packet after the other. It
goes on to the next one, or it has failed and cleaned up, or it has halted.
`Settles` says so of a part of it: it goes on only if the client has what is
needed (`has`) and nothing is asserted or read in vain (`ok`); it halts only if not
`ok`; and it returns while the client accepts what it is sent only if `ok`, and not
`has`. In a row of two parts, the second is reached only if the client has what the
first needs (`settles_bind`). `settles_announceLevel` says it of all parts, where the
conditions are `Equipped` and `Sendable`.
-/

namespace TC.Proof.SendMap

open TC.Impl.Map TC.Impl.Protocol TC.Impl.SendMap
open TC.Impl.Server (Session supports tcSessionGetExtensionVersion)
open TC.Proof.Protocol (send_eq_sendAll)
open Prog

variable {c : Setup} (env : Env) {a : Around} {n : Int} {d : SendMapData} {m : TcMap} {p : Packet}

/-- It has returned or halted. -/
def GaveUp (a : Around) (n : Int) (d : SendMapData) (has ok : Prop) (socket : Stream) (s : Chain) : Prop :=
  (∃ session : Session, (socket.Between Outcome.Accepted session.clientSocket → ¬has ∧ ok) ∧
    s = released { a with session } (n - 1) 0 1 Args.none) ∨
    (¬ok ∧ ∃ session failure, s = { busy { a with session } n d true Args.none none with halted := some failure })

/-- A part of `tc_send_map_task2` that goes on, returns or halts. -/
def Settles (env : Env) (a : Around) (n : Int) (d : SendMapData) (has ok : Prop) (q : SendM Unit) : Prop :=
  ∀ socket : Stream, Meets env (busy (a.withSocket socket) n d true Args.none none) q
    (fun _ s => has ∧ ok ∧ ∃ socket', socket.Later socket' ∧ s = busy (a.withSocket socket') n d true Args.none none)
    (GaveUp a n d has ok socket)

variable {q q' : SendM Unit} {has has' ok ok' : Prop}

theorem GaveUp.later {socket socket' : Stream} {s : Chain} (h : GaveUp a n d has ok socket' s)
    (hlater : socket.Later socket') (hreturned : ¬has ∧ ok → ¬has' ∧ ok') (hhalted : ok' → ok) :
    GaveUp a n d has' ok' socket s := by
  rcases h with ⟨session, hwhy, hs⟩ | ⟨hbad, hs⟩
  · exact .inl ⟨session, fun hsent => hreturned (hwhy (hsent.later hlater)), hs⟩
  · exact .inr ⟨mt hhalted hbad, hs⟩

theorem Settles.congr (h : Settles env a n d has ok q) (hhas : has ↔ has') (hok : ok ↔ ok') :
    Settles env a n d has' ok' q := by
  rw [← hhas, ← hok]
  exact h

theorem settles_return : Settles env a n d True True (return) :=
  fun socket => meets_pure ⟨trivial, trivial, socket, ⟨rfl, Nat.le_refl _⟩, rfl⟩

/-- Two parts in a row: the second is reached only if the client has what the first
needs. -/
theorem settles_bind (hq : Settles env a n d has ok q) (hq' : Settles env a n d has' ok' q') :
    Settles env a n d (has ∧ has') (ok ∧ (has → ok')) (q >>= fun _ => q') := by
  intro socket
  refine meets_bind ((hq socket).imp (fun _ _ hs => hs) fun s hs => ?_) ?_
  · exact hs.later ⟨rfl, Nat.le_refl _⟩ (fun h => ⟨fun hboth => h.1 hboth.1, h.2, fun hhas => absurd hhas h.1⟩) And.left
  · rintro _ s ⟨hhas, hok, socket', hlater, rfl⟩
    refine (hq' socket').imp ?_ fun s hs => ?_
    · rintro _ s ⟨hhas', hok', socket'', hlater', rfl⟩
      exact ⟨⟨hhas, hhas'⟩, ⟨hok, fun _ => hok'⟩, socket'', hlater.trans hlater', rfl⟩
    · exact hs.later hlater (fun h => ⟨fun hboth => h.1 hboth.2, hok, fun _ => h.2⟩) fun h => h.2 hhas

/-- The clean-up of `tc_send_map_task2`. -/
theorem fail_busy {α : Type} (hm : d.map = some m) (socket : Stream) :
    fail c env (busy (a.withSocket socket) n d true Args.none none) =
      ((none : Option α), released ((a.withSocket socket).unlock true) (n - 1) 0 1 Args.none) :=
  bind_of_some (handleFailure_busy env hm true)

theorem settles_tcAssert (condition : Bool) : Settles env a n d True (condition = true) (tcAssert condition) := by
  intro socket
  cases condition with
  | true => exact meets_pure ⟨trivial, rfl, socket, ⟨rfl, Nat.le_refl _⟩, rfl⟩
  | false => exact meets_of_none rfl (.inr ⟨by simp, _, _, rfl⟩)

theorem settles_sendOrFail (hm : d.map = some m) : Settles env a n d True (p.asserts = true) (sendOrFail c p) := by
  intro socket
  cases hasserts : p.asserts with
  | false => exact meets_of_none (bind_of_none (send_of_not_asserts env hasserts)) (.inr ⟨by simp, _, _, rfl⟩)
  | true =>
    obtain ⟨sent, socket', hsend⟩ := send_of_asserts hasserts socket
    have hrun := send_eq env (s := busy (a.withSocket socket) n d true Args.none none) hsend
    rw [send_eq_sendAll p hasserts, Prod.mk.injEq, Option.some.injEq] at hsend
    obtain ⟨hsent, rfl⟩ := hsend
    refine meets_bind_of_some hrun ?_
    cases sent with
    | true => exact meets_pure ⟨trivial, rfl, _, sendAll_later _ _, rfl⟩
    | false =>
      refine meets_of_none (fail_busy env hm _) (.inl ⟨_, fun haccepted => ?_, rfl⟩)
      cases hsent.symm.trans (sendAll_of_between (fun x _ => not_stops_of_accepted x) haccepted)

theorem settles_sendEach (hm : d.map = some m) (packets : List Packet) :
    Settles env a n d True (∀ p ∈ packets, p.asserts = true) (sendEach c packets) := by
  induction packets with
  | nil => exact (settles_return env).congr env Iff.rfl (by simp)
  | cons p packets ih =>
    exact (settles_bind env (settles_sendOrFail env hm) ih).congr env and_self_iff (by simp)

/-- The session is read; its extensions do not change. -/
theorem settles_get {f : Chain → SendM Unit}
    (hf : ∀ socket, Settles env a n d has ok (f (busy (a.withSocket socket) n d true Args.none none))) :
    Settles env a n d has ok (get >>= f) :=
  fun socket => hf socket socket

theorem settles_needs (hm : d.map = some m) (extensionIndex : Fin maxSupported) :
    Settles env a n d (supports a.session extensionIndex = true) True (needs c extensionIndex) := by
  refine settles_get env fun _ socket => ?_
  show Meets env _ (if !supports a.session extensionIndex then fail c else return : SendM Unit) _ _
  cases supports a.session extensionIndex with
  | false => exact meets_of_none (fail_busy env hm socket) (.inl ⟨_, fun _ => ⟨by simp, trivial⟩, rfl⟩)
  | true => exact (settles_return env).congr env (by simp) Iff.rfl socket

theorem settles_deref {α : Type} {y : Option α} {f : α → SendM Unit}
    (hf : ∀ v, y = some v → Settles env a n d True True (f v)) :
    Settles env a n d True (y.isSome = true) (deref y >>= f) := by
  cases y with
  | some v => exact (hf v rfl).congr env Iff.rfl (by simp)
  | none => exact fun socket => meets_of_none rfl (.inr ⟨by simp, _, _, rfl⟩)

theorem asserts_aspectPackets (textureUrl : String) (aspect : EnvAspect) :
    ∀ p ∈ aspectPackets env textureUrl aspect, p.asserts = true := by
  simp [aspectPackets, setProperty, Packet.asserts]

theorem asserts_fallbackPackets {ySize : BitVec 16} (appearance : EnvAppearance ySize) :
    ∀ p ∈ fallbackPackets appearance, p.asserts = true := by
  simp [fallbackPackets, setProperty, Packet.asserts]

theorem settles_sendAspect (hm : d.map = some m) (aspect : EnvAspect) :
    Settles env a n d (supports a.session envMapAspect = true)
      (supports a.session envMapAspect = true → m.envAppearanceExtension.isSome = true) (sendAspect c m aspect) := by
  refine (settles_bind env (settles_needs env hm envMapAspect) (settles_deref env fun appearance _ => ?_)).congr env
    (by simp) (by simp)
  have hpackets := settles_sendEach (c := c) (a := a) (n := n) env hm (aspectPackets env appearance.textureUrl aspect)
  exact fun socket => meets_ask (hpackets.congr env Iff.rfl (iff_true_intro (asserts_aspectPackets env _ _)) socket)

theorem settles_sendAppearancePacket (hm : d.map = some m) {ySize : BitVec 16} (appearance : EnvAppearance ySize)
    (version : BitVec 32) :
    Settles env a n d True (version = 1 ∨ version = 2) (sendAppearancePacket c appearance version) := by
  unfold sendAppearancePacket
  split
  · rename_i h
    exact (settles_sendOrFail env hm).congr env Iff.rfl (iff_of_true rfl (.inr h))
  · rename_i h
    refine (settles_bind env (settles_tcAssert env _) (settles_sendOrFail env hm)).congr env and_self_iff ?_
    rw [or_iff_left h]
    simp [Packet.asserts]

theorem settles_sendAppearance (hm : d.map = some m) {ySize : BitVec 16} (appearance : EnvAppearance ySize) :
    Settles env a n d
      ((tcSessionGetExtensionVersion a.session envMapAppearance).toInt < appearance.extensionVersion.toInt →
        supports a.session envMapAspect = true)
      (VersionOk a.session appearance) (sendAppearance c appearance) := by
  refine settles_get env fun socket => ?_
  have hpacket := settles_sendAppearancePacket (c := c) (a := a) (n := n) env hm appearance
    (tcSessionGetExtensionVersion a.session envMapAppearance)
  unfold VersionOk
  show Settles env a n d _ _ (if (tcSessionGetExtensionVersion a.session envMapAppearance).toInt <
    appearance.extensionVersion.toInt then _ else _)
  split
  · rename_i hversion
    -- the fallback does not replace the packet of the extension
    have hfallback := settles_bind env (settles_sendEach (c := c) env hm (fallbackPackets appearance)) hpacket
    refine (settles_bind env (settles_needs env hm envMapAspect) hfallback).congr env (by simp [hversion]) ?_
    rw [and_iff_right (asserts_fallbackPackets appearance)]
    cases supports a.session envMapAspect <;> simp [hversion]
  · rename_i hversion
    exact hpacket.congr env (by simp [hversion]) (by simp [hversion])

variable {main : List Byte}

theorem settles_sendEnv (hm : d.map = some m) :
    Settles env a n d
      ((m.envAspectExtension.isSome → supports a.session envMapAspect = true) ∧
        (m.envAspectExtension = none → ∀ appearance, m.envAppearanceExtension = some appearance →
          (tcSessionGetExtensionVersion a.session envMapAppearance).toInt < appearance.extensionVersion.toInt →
          supports a.session envMapAspect = true))
      ((m.envAspectExtension.isSome → supports a.session envMapAspect = true → m.envAppearanceExtension.isSome) ∧
        (m.envAspectExtension = none → ∀ appearance, m.envAppearanceExtension = some appearance →
          VersionOk a.session appearance))
      (sendEnv c m) := by
  unfold sendEnv
  cases haspect : m.envAspectExtension with
  | some aspect => exact (settles_sendAspect env hm aspect).congr env (by simp) (by simp)
  | none =>
    cases happearance : m.envAppearanceExtension with
    | some appearance => exact (settles_sendAppearance env hm appearance).congr env (by simp) (by simp)
    | none => exact (settles_return env).congr env (by simp) (by simp)

theorem settles_sendWeather (hm : d.map = some m) :
    Settles env a n d (m.envWeatherExtension.isSome → supports a.session envMapWeatherType = true) True
      (sendWeather c m) := by
  unfold sendWeather
  cases m.envWeatherExtension with
  | none => exact (settles_return env).congr env (by simp) Iff.rfl
  | some weather =>
    refine (settles_bind env (settles_needs env hm envMapWeatherType) (settles_sendOrFail env hm)).congr env (by simp) ?_
    simp [Packet.asserts]

theorem settles_sendColors (hm : d.map = some m) :
    Settles env a n d (m.envColorsExtension.isSome → supports a.session envMapColors = true)
      (∀ colors, m.envColorsExtension = some colors → supports a.session envMapColors = true →
        ∀ p ∈ colorPackets colors, p.asserts = true) (sendColors c m) := by
  unfold sendColors
  cases m.envColorsExtension with
  | none => exact (settles_return env).congr env (by simp) (by simp)
  | some colors =>
    refine (settles_bind env (settles_needs env hm envMapColors) (settles_sendEach env hm _)).congr env (by simp) ?_
    simp

theorem settles_checkBlockDefinitions (hm : d.map = some m) :
    Settles env a n d (m.blockDefinitionExtensions.isSome → supports a.session blockDefinitions = true) True
      (checkBlockDefinitions c m) := by
  unfold checkBlockDefinitions
  split
  · rename_i h
    exact (settles_needs env hm blockDefinitions).congr env (by simp [h]) Iff.rfl
  · rename_i h
    exact (settles_return env).congr env (by simp [h]) Iff.rfl

theorem settles_sendInitialize (hm : d.map = some m) (hd : d.blockArrayBuffer = some main) :
    Settles env a n d True (supports a.session fastMap = true → main.length ≤ int32Max) (sendInitialize c m) := by
  refine settles_get env fun socket => ?_
  show Settles env a n d _ _ (if supports a.session fastMap then _ else _)
  split
  · rename_i hext
    have hassert := settles_bind (a := a) (n := n) env
      (settles_tcAssert env (decide ((d.blockArrayBuffer.getD []).length ≤ int32Max)))
      (settles_sendOrFail (c := c) (p := .tcProtocolSendLevelInitialize2 (BitVec.ofNat 32 m.blocks.blockArray.val.length))
        env hm)
    exact fun socket => hassert.congr env and_self_iff (by simp [hd, hext, Packet.asserts]) socket
  · rename_i hext
    exact (settles_sendOrFail env hm).congr env Iff.rfl (by simp [hext, Packet.asserts])

/-- All packets before the blocks. -/
theorem settles_announceLevel (b : Buffers c) :
    Settles env a n b.data (Equipped a.session c.map) (Sendable a.session c.map b.main) (announceLevel c c.map) := by
  refine (settles_bind env (settles_sendInitialize env rfl rfl) (settles_bind env (settles_sendEnv env rfl)
    (settles_bind env (settles_sendWeather env rfl) (settles_bind env (settles_sendColors env rfl)
      (settles_checkBlockDefinitions env rfl))))).congr env ?_ ?_
  · constructor
    · rintro ⟨-, ⟨haspect, happearance⟩, hweather, hcolors, hdefinitions⟩
      exact ⟨⟨haspect, happearance, hweather⟩, hcolors, hdefinitions⟩
    · intro h
      exact ⟨trivial, ⟨h.aspect, h.appearance⟩, h.weather, h.colors, h.definitions⟩
  · constructor
    · rintro ⟨hsize, henv⟩
      obtain ⟨⟨htexture, hversion⟩, hrest⟩ := henv trivial
      refine ⟨hsize, htexture, hversion, fun h => ?_⟩
      exact ((hrest ⟨h.aspect, h.appearance⟩).2 h.weather).1
    · intro h
      exact ⟨h.size, fun _ => ⟨⟨h.texture, h.version⟩, fun henv =>
        ⟨trivial, fun hweather => ⟨h.colors ⟨henv.1, henv.2, hweather⟩, fun _ => trivial⟩⟩⟩⟩

end TC.Proof.SendMap
