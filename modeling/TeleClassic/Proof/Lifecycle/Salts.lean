import TeleClassic.Proof.Lifecycle.Joins

/-!
# Salts of this life

A salt is what was in the memory until the first cycle of `heartbeat_worker`, and
`tc_server_start` schedules the listener before it starts that thread. A client that
comes in between is let in with the digest of what was in the memory (`forged`); no
key is accepted so, if and only if no client presents such a digest before the first
cycle (`salts_generated_iff`).
-/

namespace TC.Proof.Lifecycle

open TC.Impl.Heartbeat TC.Impl.Lifecycle
open TC.Impl.Protocol (maxStrLen)
open TC.Proof.Heartbeat (zeroHash oneService zeros visitor strncmp_digest take_strnlen)

variable {md5 : List Byte → HexDigest} {s s' t : State} {l : Label} {username : List Byte}
  {key : StringBuffer} {manager : Manager}

/-! ## Cycles -/

/-- The key starts with the digest of the name for the salt of a service, which can be
computed, and no dummy comes before the service. -/
def Fits (md5 : List Byte → HexDigest) (env : Env) (username : List Byte) (key : StringBuffer) (i : Nat)
    (services : List Service) : Prop :=
  ∃ k service, services[k]? = some service ∧ (∀ earlier ∈ services.take (k + 1), earlier.dummyService = false) ∧
    env.hashNew (i + k) = true ∧ env.hashString (i + k) = true ∧
    key.toList.take 32 = (digest md5 service username).chars

/-- The call presents a key that was not used, which fits a salt in the memory. -/
def Presents (md5 : List Byte → HexDigest) (manager : Manager) (call : Call) : Prop :=
  ∃ username key, call.username = some username ∧ call.key = some key ∧
    KeyTree.lookup stringSame manager.authTree key.toList = none ∧
    Fits md5 call.env (nameOf username) key 0 manager.services

/-- Before the first cycle of `heartbeat_worker`, no client presents such a key. -/
def Patient (md5 : List Byte → HexDigest) (s : State) : Label → Prop
  | .validate call => s.cycles = 0 → ¬ Presents md5 s.manager call
  | _ => True

theorem fits_cons {env : Env} {i : Nat} {service : Service} {services : List Service} :
    Fits md5 env username key i (service :: services) ↔
      service.dummyService = false ∧ ((env.hashNew i = true ∧ env.hashString i = true ∧
        key.toList.take 32 = (digest md5 service username).chars) ∨
          Fits md5 env username key (i + 1) services) := by
  constructor
  · rintro ⟨k, service', hservice, hdummy, hfits⟩
    refine ⟨hdummy service (by simp), ?_⟩
    cases k with
    | zero =>
      obtain rfl := Option.some.inj hservice
      exact .inl hfits
    | succ k =>
      refine .inr ⟨k, service', hservice, fun earlier he => hdummy earlier (List.mem_cons_of_mem _ he), ?_⟩
      rw [Nat.add_right_comm]
      exact hfits
  · rintro ⟨hdummy, hfits | ⟨k, service', hservice, hrest, hfits⟩⟩
    · exact ⟨0, service, rfl, by simpa using hdummy, hfits⟩
    · refine ⟨k + 1, service', hservice, List.forall_mem_cons.mpr ⟨hdummy, hrest⟩, ?_⟩
      rw [Nat.add_right_comm] at hfits
      exact hfits

theorem le_of_validateFrom {env : Env} {i j : Nat} {services : List Service}
    (h : (validateFrom md5 env manager username key i services).1 = some j) : i ≤ j := by
  induction services generalizing i with
  | nil => cases h
  | cons service services ih =>
    have hrest (h : (validateFrom md5 env manager username key (i + 1) services).1 = some j) : i ≤ j :=
      Nat.le_of_succ_le (ih h)
    simp only [validateFrom] at h
    split at h
    · exact Nat.le_of_eq (Option.some.inj h)
    · split at h
      · exact hrest h
      · split at h
        · exact hrest h
        · split at h
          · exact Nat.le_of_eq (Option.some.inj h)
          · exact hrest h

/-- The loop returns a service that is no dummy if and only if the key fits. -/
theorem validateFrom_iff (env : Env) (manager : Manager) (username : List Byte) (key : StringBuffer) (i : Nat)
    (services : List Service) :
    (∃ k, (validateFrom md5 env manager username key i services).1 = some (i + k) ∧
      services[k]?.any (!·.dummyService) = true) ↔ Fits md5 env username key i services := by
  induction services generalizing i with
  | nil => simp [Fits]
  | cons service services ih =>
    -- the rest of the loop, which starts one further
    have hrest : (∃ k, (validateFrom md5 env manager username key (i + 1) services).1 = some (i + k) ∧
        (service :: services)[k]?.any (!·.dummyService) = true) ↔ Fits md5 env username key (i + 1) services := by
      rw [← ih]
      constructor
      · rintro ⟨k, hresult, hservice⟩
        have hle := le_of_validateFrom hresult
        obtain ⟨k, rfl⟩ := Nat.exists_eq_add_of_le' (Nat.le_of_add_le_add_left hle)
        exact ⟨k, by rw [hresult, Nat.add_right_comm, Nat.add_assoc], hservice⟩
      · rintro ⟨k, hresult, hservice⟩
        exact ⟨k + 1, by rw [hresult, Nat.add_right_comm, Nat.add_assoc], hservice⟩
    rw [fits_cons, ← hrest]
    cases hdummy : service.dummyService with
    | true => simp [validateFrom, hdummy]
    | false =>
      simp only [validateFrom, hdummy, strncmp_digest, Bool.false_eq_true, if_false, Bool.not_eq_true', true_and]
      cases env.hashNew i <;> cases env.hashString i <;>
        by_cases hkey : key.toList.take 32 = (digest md5 service username).chars <;> simp [hkey, hdummy]

theorem presents_iff (manager : Manager) (call : Call) : Presents md5 manager call ↔
    ∃ i, (tcHeartbeatManagerValidate md5 call.env manager call.username call.key).1 = some i ∧
      manager.services[i]?.any (!·.dummyService) = true := by
  obtain ⟨username, key, env⟩ := call
  cases username with
  | none => simp [Presents, tcHeartbeatManagerValidate]
  | some username =>
    cases key with
    | none => simp [Presents, tcHeartbeatManagerValidate]
    | some key =>
      have hiff : (∃ i, (validateFrom md5 env manager (nameOf username) key 0 manager.services).1 = some (0 + i) ∧
          manager.services[i]?.any (!·.dummyService) = true) ↔ _ :=
        validateFrom_iff env manager (nameOf username) key 0 manager.services
      simp only [Nat.zero_add] at hiff
      simp only [Presents, tcHeartbeatManagerValidate, take_strnlen, Option.some.injEq, exists_and_left,
        exists_eq_left', ← hiff]
      cases hlookup : KeyTree.lookup stringSame manager.authTree key.toList <;> simp [nameOf]

/-- A cycle makes the salts of all services. -/
structure Salted (s : State) : Prop where
  before : s.cycles = 0 → s.salted = []
  after : 0 < s.cycles → s.salted = List.range s.manager.services.length

theorem salted_start (life : Life) (manager : Manager) : Salted (State.start life manager) :=
  ⟨fun _ => rfl, fun h => absurd h (Nat.lt_irrefl 0)⟩

theorem services_validateFrom {env : Env} (i : Nat) (services : List Service) :
    (validateFrom md5 env manager username key i services).2.services = manager.services := by
  induction services generalizing i with
  | nil => rfl
  | cons service services ih =>
    simp only [validateFrom]
    split
    · rfl
    · split
      · exact ih _
      · split
        · exact ih _
        · split
          · rfl
          · exact ih _

theorem services_validate {env : Env} {username key : Option StringBuffer} :
    (tcHeartbeatManagerValidate md5 env manager username key).2.services = manager.services := by
  unfold tcHeartbeatManagerValidate
  repeat' split
  · rfl
  · exact services_validateFrom 0 _
  · rfl

theorem Salted.of_eq (hs : Salted s) (hcycles : s'.cycles = s.cycles) (hsalted : s'.salted = s.salted)
    (hservices : s'.manager.services.length = s.manager.services.length) : Salted s' :=
  ⟨fun h => hsalted.trans (hs.before (hcycles ▸ h)), fun h => by rw [hsalted, hservices]; exact hs.after (hcycles ▸ h)⟩

theorem salted_workerLoop (rand : Nat → Nat → Nat) (hs : Salted s) : Salted (workerLoop rand s) := by
  unfold workerLoop
  split
  · exact hs.of_eq rfl rfl rfl
  · refine ⟨fun h => absurd h (Nat.succ_ne_zero _), fun _ => ?_⟩
    simp [heartbeatCycle]

theorem salted_step (hs : Salted s) (h : step md5 s l = some s') : Salted s' := by
  cases l with
  | main =>
    obtain ⟨op, todo, -, ⟨-, -, rfl⟩ | ⟨-, -, rfl⟩ | ⟨-, -, rfl⟩⟩ := mainStep_cases h
    · exact hs.of_eq rfl rfl rfl
    · exact hs.of_eq rfl rfl rfl
    · exact hs.of_eq rfl rfl rfl
  | worker rand =>
    obtain rfl | rfl := workerStep_cases h
    · exact hs
    · exact salted_workerLoop rand hs
  | validate call =>
    rw [clientStep_eq h]
    exact hs.of_eq rfl rfl (congrArg List.length services_validate)
  | poolReturns =>
    simp only [step] at h
    split at h
    · cases h
      exact hs.of_eq rfl rfl rfl
    · cases h

/-- Each service that was returned had a salt of this life. -/
def AllSalted (s : State) : Prop := ∀ a ∈ s.accepted, a.salted = true

theorem accepted_of_not_validate (h : step md5 s l = some s') (hl : ∀ call, l ≠ .validate call) :
    s'.accepted = s.accepted := by
  cases l with
  | main =>
    obtain ⟨op, todo, -, ⟨-, -, rfl⟩ | ⟨-, -, rfl⟩ | ⟨-, -, rfl⟩⟩ := mainStep_cases h <;> rfl
  | worker rand =>
    obtain rfl | rfl := workerStep_cases h
    · rfl
    · unfold workerLoop
      split <;> rfl
  | validate call => exact absurd rfl (hl call)
  | poolReturns =>
    simp only [step] at h
    split at h
    · cases h
      rfl
    · cases h

/-- The salt of a service is of this life if and only if there was a cycle. -/
theorem newlyAccepted_salted (hs : Salted s) (call : Call) :
    (∀ a ∈ newlyAccepted md5 s call, a.salted = true) ↔ (s.cycles = 0 → ¬ Presents md5 s.manager call) := by
  rw [presents_iff, newlyAccepted]
  cases hresult : (tcHeartbeatManagerValidate md5 call.env s.manager call.username call.key).1 with
  | none => simp
  | some i =>
    cases hservice : s.manager.services[i]?.any (!·.dummyService) with
    | false => simp [hservice]
    | true =>
      have hlt : i < s.manager.services.length := by
        by_contra hge
        rw [List.getElem?_eq_none (Nat.not_lt.mp hge)] at hservice
        cases hservice
      simp only [Option.elim, hservice, if_true, List.mem_singleton, forall_eq, decide_eq_true_eq,
        Option.some.injEq, exists_eq_left']
      rcases Nat.eq_zero_or_pos s.cycles with h0 | hpos
      · simp [hs.before h0, h0]
      · simp [hs.after hpos, hpos.ne', hlt]

theorem allSalted_step (hs : Salted s) (h : step md5 s l = some s') :
    Salted s' ∧ (AllSalted s' ↔ AllSalted s ∧ Patient md5 s l) := by
  refine ⟨salted_step hs h, ?_⟩
  by_cases hl : ∃ call, l = .validate call
  · obtain ⟨call, rfl⟩ := hl
    have hnew : (∀ a ∈ newlyAccepted md5 s call, a.salted = true) ↔ (s.cycles = 0 → ¬ Presents md5 s.manager call) :=
      newlyAccepted_salted hs call
    rw [clientStep_eq h]
    simp only [AllSalted, List.forall_mem_append, hnew, Patient]
  · have hother : ∀ call, l ≠ .validate call := fun call hcall => hl ⟨call, hcall⟩
    have hpatient : Patient md5 s l := by
      cases l with
      | validate call => exact absurd rfl (hother call)
      | _ => trivial
    simp [AllSalted, accepted_of_not_validate h hother, hpatient]

/-- For every life, every interleaving and whatever is in the memory of the salts:
no key was compared with a digest of a salt that was not made in this life and
accepted, if and only if no client presents an unused key that fits a salt in the
memory before the first cycle of the heartbeat thread. -/
theorem salts_generated_iff {life : Life} {manager : Manager} {ls : List Label}
    (h : run (step md5) (State.start life manager) ls = some t) :
    (∀ a ∈ t.accepted, a.salted = true) ↔ Along (step md5) (Patient md5) (State.start life manager) ls := by
  have hiff := run_iff_along (fun _ _ _ hs h => allSalted_step hs h) (salted_start life manager) h
  have hnone : AllSalted (State.start life manager) := fun a ha => absurd ha List.not_mem_nil
  exact hiff.trans (and_iff_right hnone)

/-- A server that is started. -/
def running : Life := { started := false, init := reliable, start := some { listen := true, schedule := true }, stop := false }

/-- A client presents a key of three zeros before the heartbeat thread is started, and
another presents the digest when the thread has made a salt. -/
def visits : List Label :=
  List.replicate 4 .main ++ .validate (visitor 3) :: .main :: .main :: [.worker fun _ _ => 0, .validate (visitor 32)]

theorem salts_generated_iff_running : ∃ t,
    run (step zeroHash) (State.start running oneService) visits = some t ∧ t.accepted = [⟨0, true⟩] ∧
      Along (step zeroHash) (Patient zeroHash) (State.start running oneService) visits := by
  have hrun : ∃ t, run (step zeroHash) (State.start running oneService) visits = some t ∧ t.accepted = [⟨0, true⟩] :=
    ⟨_, rfl, by decide⟩
  obtain ⟨t, ht, haccepted⟩ := hrun
  refine ⟨t, ht, haccepted, (salts_generated_iff ht).mp fun a ha => ?_⟩
  rw [haccepted, List.mem_singleton] at ha
  rw [ha]

/-- The key of a digest, as a client sends it. -/
def keyOf (d : HexDigest) : StringBuffer := Vector.ofFn fun i => d.chars.getD i 0

theorem take_keyOf (d : HexDigest) : (keyOf d).toList.take 32 = d.chars := by
  refine List.ext_getElem ?_ fun i hi hi' => ?_
  · rw [d.length, List.length_take, Vector.length_toList]
    decide
  · simp [keyOf, List.getD_eq_getElem?_getD, hi']

/-- A service whose salt was never made, in memory that was zeroed. -/
def unsalted : Service := { currentSalt := Vector.replicate saltLength 0, dummyService := false }

/-- A name, with its digest for that salt as the key. -/
def forger (md5 : List Byte → HexDigest) (name : StringBuffer) : Call :=
  ⟨some name, some (keyOf (digest md5 unsalted (name.toList.take (strnlen name.toList maxStrLen)))), .ok⟩

theorem validate_forger (md5 : List Byte → HexDigest) (name : StringBuffer) :
    (tcHeartbeatManagerValidate md5 .ok oneService (forger md5 name).username (forger md5 name).key).1 = some 0 := by
  let hex := digest md5 unsalted (name.toList.take (strnlen name.toList maxStrLen))
  have hkey : strncmp (keyOf hex).toList hex.chars hex.chars.length = 0 := (strncmp_digest _ _).mpr (take_keyOf hex)
  have hvalidate : tcHeartbeatManagerValidate md5 .ok oneService (forger md5 name).username (forger md5 name).key =
    if strncmp (keyOf hex).toList hex.chars hex.chars.length = 0 then
      (some 0, { oneService with authTree := treeInsert .ok [] hex.chars 0 })
    else (none, oneService) := rfl
  rw [hvalidate, if_pos hkey]

/-- Whatever the hash is: once the listener is scheduled, and before
`tc_heartbeat_manager_start` is called, a client is let in under any name with the
digest for the salt that was in the memory. -/
theorem forger_accepted (md5 : List Byte → HexDigest) (name : StringBuffer) : ∃ t,
    run (step md5) (State.start running oneService) (List.replicate 4 .main ++ [.validate (forger md5 name)]) = some t ∧
      t.accepted = [⟨0, false⟩] ∧ t.cycles = 0 := by
  obtain ⟨s, hrun, hmanager, hsalted, haccepted, hcycles, hlistening, hpool⟩ : ∃ s,
      run (step md5) (State.start running oneService) (List.replicate 4 .main) = some s ∧ s.manager = oneService ∧
        s.salted = [] ∧ s.accepted = [] ∧ s.cycles = 0 ∧ s.flags.listening = true ∧ s.poolReturned = false :=
    ⟨_, rfl, rfl, rfl, rfl, rfl, rfl, rfl⟩
  obtain ⟨t, hstep⟩ : ∃ t, clientStep md5 (forger md5 name) s = some t := by
    unfold clientStep
    rw [if_neg (by simp [hlistening, hpool])]
    exact ⟨_, rfl⟩
  refine ⟨t, run_append.mpr ⟨s, hrun, run_cons.mpr ⟨t, hstep, rfl⟩⟩, ?_, ?_⟩
  · rw [clientStep_eq hstep]
    show s.accepted ++ newlyAccepted md5 s (forger md5 name) = _
    have hresult := validate_forger md5 name
    rw [haccepted, newlyAccepted, hmanager, hsalted]
    simp only [forger] at hresult ⊢
    rw [hresult]
    rfl
  · rw [clientStep_eq hstep]
    exact hcycles

theorem forged : ∃ t,
    run (step zeroHash) (State.start running oneService)
      (List.replicate 4 .main ++ [.validate (forger zeroHash (zeros 3))]) = some t ∧
      t.accepted = [⟨0, false⟩] ∧ t.cycles = 0 :=
  forger_accepted zeroHash (zeros 3)

end TC.Proof.Lifecycle
