import TeleClassic.Impl.SendMap
import TeleClassic.Proof.Protocol
import TeleClassic.Proof.Server.Continuations

/-!
# The negotiated versions

`ext_cpe_versions` packs a version of two bits for each extension, and an
ExtEntry packet is counted by or-ing its version in. So the version of an
extension is the or of what was declared for it, and no entry for another
extension changes it. It is one of the declared versions if and only if they all
come to the same (`version_declared`): a client that declares EnvMapAppearance
in version 1 and in version 2 gets version 3 (`version_exceeds`).
-/

namespace TC.Proof.Server

open TC.Impl.Server TC.Impl.ThreadPool TC.Impl.Protocol TC.Proof.ThreadPool Prog
open TC.Impl.SendMap (envMapAppearance)
open TC.Proof.Protocol (sentInt decodeInt_of_nonneg)

variable {s s' : Session} {i : Nat} {call : Call}

/-! ## Packed versions -/

/-- A version at its place in a byte, read from a place. -/
theorem read_bits (k l : Fin 4) (y : BitVec 2) :
    (((y.setWidth 32 <<< (l.val * 2)).setWidth 8 : Byte).signExtend 32).sshiftRight (k.val * 2) &&& 3 =
      if k = l then y.setWidth 32 else 0 := by
  revert k l y
  decide

theorem and_three (x : BitVec 32) : x &&& 3 = (x.setWidth 2).setWidth 32 := by
  apply BitVec.eq_of_toNat_eq
  rw [BitVec.toNat_and, BitVec.toNat_setWidth, BitVec.toNat_setWidth]
  have hmask : x.toNat &&& 3 = x.toNat % 4 := Nat.and_two_pow_sub_one_eq_mod x.toNat 2
  have hthree : (3 : BitVec 32).toNat = 3 := rfl
  rw [hthree, hmask]
  omega

theorem version_setExtensionVersion (s : Session) (i : Fin maxSupported) (j : Nat) (v : BitVec 32) :
    tcSessionGetExtensionVersion (setExtensionVersion s j v) i =
      if i.val = j then tcSessionGetExtensionVersion s i ||| (v &&& 3) else tcSessionGetExtensionVersion s i := by
  have hbyte : i.val / 4 < (maxSupported + 3) / 4 := by
    have := i.isLt
    simp only [maxSupported] at this ⊢
    omega
  have hget : (setExtensionVersion s j v).extCpeVersions.get ⟨i / 4, hbyte⟩ =
      if i.val / 4 = j / 4 then s.extCpeVersions.get ⟨i / 4, hbyte⟩ |||
        ((v &&& 3) <<< (j % 4 * 2)).setWidth 8 else s.extCpeVersions.get ⟨i / 4, hbyte⟩ :=
    Vector.getElem_mapIdx hbyte
  have hbits := read_bits ⟨i % 4, Nat.mod_lt _ (by decide)⟩ ⟨j % 4, Nat.mod_lt _ (by decide)⟩ (v.setWidth 2)
  rw [← and_three] at hbits
  simp only [Fin.mk.injEq] at hbits
  rw [tcSessionGetExtensionVersion, hget, tcSessionGetExtensionVersion]
  by_cases hsame : i.val / 4 = j / 4
  · rw [if_pos hsame, BitVec.signExtend_or, BitVec.sshiftRight_or_distrib, BitVec.and_or_distrib_right, hbits]
    by_cases hplace : i.val % 4 = j % 4
    · rw [if_pos hplace, if_pos (by omega)]
    · rw [if_neg hplace, if_neg (by omega)]
      exact BitVec.or_zero
  · rw [if_neg hsame, if_neg (by omega)]

/-! ## Declared versions -/

/-- The version that an ExtEntry packet declares. -/
def sentVersion (packet : List Byte) : BitVec 32 :=
  let bytes := (packet.drop maxStrLen).take 4
  sentInt (bytes.getD 0 0) (bytes.getD 1 0) (bytes.getD 2 0) (bytes.getD 3 0)

/-- No server version is above 2. -/
theorem server_version_le (i : Nat) :
    (((supportedExtensions.map Extension.version).getD i 0).signExtend 32).toInt ≤ 2 := by
  rcases Nat.lt_or_ge i maxSupported with h | h
  · have hall : ∀ i : Fin maxSupported,
        (((supportedExtensions.map Extension.version).getD i 0).signExtend 32).toInt ≤ 2 := by decide
    exact hall ⟨i, h⟩
  · rw [List.getD_eq_getElem?_getD, List.getElem?_eq_none (by simpa [supportedExtensions, maxSupported] using h)]
    decide

theorem effective_eq {v : BitVec 32} (h : isValid (effective v i)) :
    effective v i = 1 ∨ effective v i = 2 := by
  have hle : (effective v i).toInt ≤ 2 := by
    have hserver := server_version_le i
    rw [effective, minVersion]
    split
    · omega
    · exact hserver
  rcases (by have := h.1; omega : (effective v i).toInt = 1 ∨ (effective v i).toInt = 2) with h1 | h2
  · exact .inl (BitVec.eq_of_toInt_eq h1)
  · exact .inr (BitVec.eq_of_toInt_eq h2)

/-- A version that is accepted is decoded as it was sent. -/
theorem entryVersion_eq {packet : List Byte} (h : isValid (effective (entryVersion packet) i)) :
    entryVersion packet = sentVersion packet := by
  refine decodeInt_of_nonneg ?_
  have hvalid : 1 ≤ (effective (entryVersion packet) i).toInt := h.1
  rw [effective, minVersion] at hvalid
  show 0 ≤ (entryVersion packet).toInt
  split at hvalid
  · omega
  · rename_i hge
    omega

/-- What a turn declares: an extension that the server has, and the version that
was sent for it. -/
def declaration (t : Taken) : List (Nat × BitVec 32) :=
  if t.func = .handleCpeExtentry then
    (t.before.pendingPacketBuffer.bind fun packet =>
      (entryIndex packet).map fun i => (i, sentVersion packet)).toList
  else []

/-- The versions that were declared for an extension. -/
def declaredFor (i : Nat) (log : List Taken) : List (BitVec 32) :=
  (log.flatMap declaration).filterMap fun d => if d.1 = i then some d.2 else none

theorem declaredFor_snoc (i : Nat) (log : List Taken) (t : Taken) :
    declaredFor i (log ++ [t]) = declaredFor i log ++ declaredFor i [t] := by
  rw [declaredFor, List.flatMap_append, List.filterMap_append]
  rfl

/-- The or of what both sides have. -/
def joint (i : Nat) (versions : List (BitVec 32)) : BitVec 32 :=
  (versions.map (effective · i)).foldl (· ||| ·) 0

theorem joint_snoc (i : Nat) (versions : List (BitVec 32)) (v : BitVec 32) :
    joint i (versions ++ [v]) = joint i versions ||| effective v i := by
  rw [joint, List.map_append, List.foldl_append]
  rfl

/-! ## Turns -/

/-- What a turn of a session that stays does to the versions. -/
theorem Turn.versions {w : World} {slot : Slot} {f : Func} {fin : Bool} {next : Option Func}
    (h : Turn call w slot s f fin next s') (hstays : s'.currentGeneration = s.currentGeneration) :
    (∃ packet i, f = .handleCpeExtentry ∧ Declares s packet i ∧
      s'.extCpeVersions = (declared s packet i).extCpeVersions) ∨
    s'.extCpeVersions = s.extCpeVersions ∧ (f = .handleCpeExtentry →
      ∃ packet, s.pendingPacketBuffer = some packet ∧ entryIndex packet = none) := by
  cases h with
  | gone later => omega
  | waits _ same | begins _ _ _ _ same | stores _ _ _ _ same | dispatches _ _ _ _ _ same | negotiates _ same
  | joins same => exact .inr ⟨same.versions, fun hf => by cases hf⟩
  | listens handles same =>
    cases handles with
    | unknown cpe buffer expected index => exact .inr ⟨same.versions, fun _ => ⟨_, buffer, index⟩⟩
    | known declares more => exact .inl ⟨_, _, rfl, declares, same.versions⟩
    | negotiation | extinfo | setBlock | position => exact .inr ⟨same.versions, fun hf => by cases hf⟩
  | finalizes finishes same =>
    cases finishes with
    | entry declares last plain => exact .inl ⟨_, _, rfl, declares, same.versions⟩
    | identification | level => exact .inr ⟨same.versions, fun hf => by cases hf⟩

theorem version_congr (h : s'.extCpeVersions = s.extCpeVersions) (i : Fin maxSupported) :
    tcSessionGetExtensionVersion s' i = tcSessionGetExtensionVersion s i := by
  rw [tcSessionGetExtensionVersion, tcSessionGetExtensionVersion, h]

/-- The versions of a session are those declared so far, and each of these was
valid. -/
structure Versions (log : List Taken) (s : Session) : Prop where
  version : ∀ i : Fin maxSupported, tcSessionGetExtensionVersion s i = joint i (declaredFor i log)
  valid : ∀ i : Fin maxSupported, ∀ v ∈ declaredFor i log, isValid (effective v i)

theorem declaredFor_declares {fin : Bool} {packet : List Byte} (h : Declares s packet i) (j : Nat) :
    declaredFor j [⟨call, .handleCpeExtentry, s, s', fin⟩] = if i = j then [sentVersion packet] else [] := by
  have hdeclaration : declaration ⟨call, .handleCpeExtentry, s, s', fin⟩ = [(i, sentVersion packet)] := by
    simp [declaration, h.buffer, h.index]
  rw [declaredFor, List.flatMap_singleton, hdeclaration]
  by_cases hij : i = j
  · simp [hij]
  · simp [hij]

theorem declaredFor_other {fin : Bool} {f : Func}
    (h : f = .handleCpeExtentry → ∃ packet, s.pendingPacketBuffer = some packet ∧ entryIndex packet = none)
    (j : Nat) : declaredFor j [⟨call, f, s, s', fin⟩] = [] := by
  have hdeclaration : declaration ⟨call, f, s, s', fin⟩ = [] := by
    rw [declaration]
    split
    · rename_i hf
      obtain ⟨packet, hbuffer, hindex⟩ := h hf
      simp [hbuffer, hindex]
    · rfl
  rw [declaredFor, List.flatMap_singleton, hdeclaration]
  rfl

theorem Versions.turn {w : World} {slot : Slot} {log : List Taken} {f : Func} {fin : Bool}
    {next : Option Func} (h : Versions log (w.sessionBuffer slot))
    (ht : Turn call w slot (w.sessionBuffer slot) f fin next s')
    (hstays : s'.currentGeneration = generation w slot) :
    Versions (log ++ [⟨call, f, w.sessionBuffer slot, s', fin⟩]) s' := by
  rcases ht.versions hstays with ⟨packet, j, rfl, hdeclares, hversions⟩ | ⟨hversions, hother⟩
  · have hsent := entryVersion_eq hdeclares.valid
    refine ⟨fun i => ?_, fun i v hv => ?_⟩
    · rw [version_congr hversions, declaredFor_snoc, declaredFor_declares hdeclares]
      show tcSessionGetExtensionVersion (setExtensionVersion (w.sessionBuffer slot) j
        (effective (entryVersion packet) j)) i = _
      rw [version_setExtensionVersion, h.version i]
      by_cases hij : i.val = j
      · rw [if_pos hij, if_pos hij.symm, joint_snoc, ← hsent, hij]
        rcases effective_eq hdeclares.valid with hone | htwo
        · rw [hone]
          rfl
        · rw [htwo]
          rfl
      · rw [if_neg hij, if_neg (Ne.symm hij), List.append_nil]
    · rw [declaredFor_snoc, declaredFor_declares hdeclares] at hv
      rcases List.mem_append.mp hv with hv | hv
      · exact h.valid i v hv
      · split at hv
        · rename_i hij
          rw [List.mem_singleton.mp hv, ← hsent, ← hij]
          exact hdeclares.valid
        · cases hv
  · refine ⟨fun i => ?_, fun i v hv => ?_⟩
    · rw [version_congr hversions, declaredFor_snoc, declaredFor_other hother, List.append_nil]
      exact h.version i
    · rw [declaredFor_snoc, declaredFor_other hother, List.append_nil] at hv
      exact h.valid i v hv

theorem versions_new {clientSocket : Stream} (h : Same (newSession s clientSocket) s') :
    Versions [] s' := by
  refine ⟨fun i => ?_, fun _ => List.forall_mem_nil _⟩
  rw [tcSessionGetExtensionVersion, h.versions]
  have hzero : ∀ j, (newSession s clientSocket).extCpeVersions.get j = 0 :=
    fun j => Vector.getElem_replicate j.isLt
  rw [hzero]
  simp [declaredFor, joint]

theorem lawful_versions : Lawful (fun _ _ => True) fun log _ s => Versions log s :=
  ⟨fun _ _ _ h => versions_new h, fun _ _ _ _ _ _ _ _ h => versions_new h,
    fun _ _ _ _ _ _ _ _ _ h htook => h.turn htook.turn htook.stays⟩

/-! ## Runs -/

/-- A version is agreed on: none without a declaration, and otherwise what both
sides have of one that was declared. -/
def Agreed (i : Nat) (versions : List (BitVec 32)) (version : BitVec 32) : Prop :=
  if versions = [] then version = 0 else ∃ v ∈ versions, version = effective v i

/-- Every declared version is part of the or. -/
theorem or_joint {versions : List (BitVec 32)} {v : BitVec 32} (h : v ∈ versions) :
    effective v i ||| joint i versions = joint i versions := by
  induction versions using List.reverseRecOn with
  | nil => cases h
  | append_singleton versions v' ih =>
    rw [joint_snoc]
    rcases List.mem_append.mp h with h | h
    · rw [← BitVec.or_assoc, ih h]
    · rw [List.mem_singleton.mp h, BitVec.or_comm, BitVec.or_assoc, BitVec.or_self]

theorem joint_of_agree {versions : List (BitVec 32)} {e : BitVec 32} (hne : versions ≠ [])
    (h : ∀ v ∈ versions, effective v i = e) : joint i versions = e := by
  induction versions using List.reverseRecOn with
  | nil => exact absurd rfl hne
  | append_singleton versions v ih =>
    rw [joint_snoc, h v (by simp)]
    by_cases hnil : versions = []
    · rw [hnil]
      exact BitVec.zero_or
    · rw [ih hnil fun v' hv' => h v' (List.mem_append_left _ hv'), BitVec.or_self]

theorem agreed_joint {versions : List (BitVec 32)} (hvalid : ∀ v ∈ versions, isValid (effective v i)) :
    Agreed i versions (joint i versions) ↔
      ∀ v ∈ versions, ∀ v' ∈ versions, effective v i = effective v' i := by
  unfold Agreed
  by_cases hnil : versions = []
  · subst hnil
    exact ⟨fun _ => List.forall_mem_nil _, fun _ => rfl⟩
  · rw [if_neg hnil]
    constructor
    · rintro ⟨v₀, hv₀, hjoint⟩
      have hsame : ∀ v ∈ versions, effective v i = effective v₀ i := by
        intro v hv
        have hor := or_joint (i := i) hv
        rw [hjoint] at hor
        rcases effective_eq (hvalid v hv) with h | h <;> rcases effective_eq (hvalid v₀ hv₀) with h₀ | h₀ <;>
          rw [h, h₀] at hor ⊢ <;> exact absurd hor (by decide)
      intro v hv v' hv'
      rw [hsame v hv, hsame v' hv']
    · intro h
      obtain ⟨v, hv⟩ := List.exists_mem_of_ne_nil versions hnil
      exact ⟨v, hv, joint_of_agree hnil fun v' hv' => h v' hv' v hv⟩

section

variable {config : Config} {numThreads maxBlockingThreads : Nat}
  {tasks : Priority → Nat → Context Func Arg} {sessions : Slot → Session}

/-- After every run, the version that a session has of an extension is the or of
what was declared for it, and it is agreed on if and only if all declarations
of the extension come to the same version. -/
theorem version_declared {ls : List Label} {w : World} {slot : Slot}
    (h : run Impl.Server.step (start config numThreads maxBlockingThreads tasks sessions) ls = some w)
    (hh : w.halted = none) (hlive : Live w slot) (i : Fin maxSupported) (versions : List (BitVec 32))
    (hversions : versions = declaredFor i (turns slot (generation w slot)
      (start config numThreads maxBlockingThreads tasks sessions) ls)) :
    tcSessionGetExtensionVersion (w.sessionBuffer slot) i = joint i versions ∧
      (Agreed i versions (tcSessionGetExtensionVersion (w.sessionBuffer slot) i) ↔
        ∀ v ∈ versions, ∀ v' ∈ versions, effective v i = effective v' i) := by
  obtain ⟨-, -, hP, -⟩ := serving_run lawful_versions (along_of_forall fun _ _ _ => trivial) h hh hlive
  subst hversions
  rw [hP.version i]
  exact ⟨rfl, agreed_joint (hP.valid i)⟩

end

/-- The payload of an ExtInfo packet. -/
def extInfo (appname : List Byte) (count : BitVec 16) : List Byte :=
  stringField appname ++ Protocol.Field.encoding (.short count)

/-- The payload of an ExtEntry packet. -/
def extEntry (extensionName : List Byte) (version : BitVec 32) : List Byte :=
  stringField extensionName ++ Protocol.Field.encoding (.int version)

/-- A client asks for CPE, and declares extensions. -/
def negotiation (entries : List (List Byte × BitVec 32)) : List (List Byte) :=
  [[0x00], identification 0x42, [0x10], extInfo (ascii "client") (BitVec.ofNat 16 entries.length)] ++
    entries.flatMap fun (name, version) => [[0x11], extEntry name version]

/-- A client that declares three extensions, one of them in a version that the
server does not have and one that the server does not know. -/
def threeExtensions : List Label :=
  talk listening (worldWithDefault "lobby") (negotiation [(ascii "ExtendedBlocks", 1), (ascii "TwoWayPing", 1),
    (ascii "EnvMapAppearance", 3)]) 36

/-- The server keeps to its own version of EnvMapAppearance. -/
theorem version_declared_threeExtensions : ∃ w, run Impl.Server.step (worldWithDefault "lobby") threeExtensions = some w ∧
    declaredFor envMapAppearance (turns first (generation w first) (worldWithDefault "lobby") threeExtensions) = [3] ∧
    Agreed envMapAppearance [3] (tcSessionGetExtensionVersion (w.sessionBuffer first) envMapAppearance) := by
  obtain ⟨w, hw, hh, hlive, hdeclared⟩ : ∃ w,
      run Impl.Server.step (worldWithDefault "lobby") threeExtensions = some w ∧ w.halted = none ∧
      Live w first ∧
      declaredFor envMapAppearance (turns first (generation w first) (worldWithDefault "lobby") threeExtensions) =
        [3] := exists_of_decide (by decide +kernel)
  exact ⟨w, hw, hdeclared, (version_declared hw hh hlive envMapAppearance [3] hdeclared.symm).2.mpr (by simp)⟩

/-- A client declares EnvMapAppearance in both versions. -/
def bothVersions : List Label :=
  talk listening (worldWithDefault "lobby") (negotiation [(ascii "EnvMapAppearance", 1),
    (ascii "EnvMapAppearance", 2)]) 32

/-- The server then takes it to have version 3, which neither side has. -/
theorem version_exceeds : ∃ w, run Impl.Server.step (worldWithDefault "lobby") bothVersions = some w ∧
    w.halted = none ∧ Live w first ∧
    declaredFor envMapAppearance (turns first (generation w first) (worldWithDefault "lobby") bothVersions) = [1, 2] ∧
    tcSessionGetExtensionVersion (w.sessionBuffer first) envMapAppearance = 3 ∧
    ¬ Agreed envMapAppearance [1, 2] (tcSessionGetExtensionVersion (w.sessionBuffer first) envMapAppearance) := by
  obtain ⟨w, hw, hh, hlive, hdeclared, hversion⟩ : ∃ w,
      run Impl.Server.step (worldWithDefault "lobby") bothVersions = some w ∧ w.halted = none ∧
      Live w first ∧
      declaredFor envMapAppearance (turns first (generation w first) (worldWithDefault "lobby") bothVersions) =
        [1, 2] ∧ tcSessionGetExtensionVersion (w.sessionBuffer first) envMapAppearance = 3 :=
    exists_of_decide (by decide +kernel)
  have hone : effective 1 envMapAppearance = 1 := by decide +kernel
  have htwo : effective 2 envMapAppearance = 2 := by decide +kernel
  refine ⟨w, hw, hh, hlive, hdeclared, hversion, ?_⟩
  rw [hversion, Agreed, if_neg (by simp)]
  rintro ⟨v, hv, hthree⟩
  simp only [List.mem_cons, List.not_mem_nil, or_false] at hv
  rcases hv with rfl | rfl
  · cases hthree.trans hone
  · cases hthree.trans htwo

end TC.Proof.Server
