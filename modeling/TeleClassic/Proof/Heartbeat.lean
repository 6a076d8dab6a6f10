import TeleClassic.Framework.Run
import TeleClassic.Impl.Heartbeat

/-!
# Keys are used once

`tc_heartbeat_manager_validate` looks the presented key up in `auth_tree`,
accepts it by its first 32 bytes, and inserts the digest. A key that is the
digest and nothing more is thus accepted once in a cycle (`accepted_once`);
a key that goes on after the digest is accepted as often as it is presented
(`replay_accepted`).
-/

namespace TC.Proof.Heartbeat

open TC.Impl.Heartbeat
open TC.Impl.Protocol (maxStrLen)

variable {md5 : List Byte → HexDigest} {key : StringBuffer}

/-! ## Keys and digests -/

theorem isLowerHex_ne_zero {b : Byte} (h : IsLowerHex b) : b ≠ 0 := by
  rintro rfl
  revert h
  unfold IsLowerHex
  decide

theorem HexDigest.strn_eq (d : HexDigest) {n : Nat} (h : 32 ≤ n) : strn n d.chars = d.chars := by
  rw [strn, List.take_of_length_le (by rw [d.length]; exact h)]
  exact cstr_eq_self fun b hb => isLowerHex_ne_zero (d.hex b hb)

theorem stringSame_iff (a b : List Byte) : stringSame a b = true ↔ strn maxStrLen a = strn maxStrLen b := by
  rw [stringSame, beq_iff_eq, strncmp_eq_zero_iff]

/-- The text of a string is what stands before its terminator. -/
theorem take_strnlen (s : List Byte) (n : Nat) : s.take (strnlen s n) = strn n s := by
  have hw : strn n s <+: s.take n := List.takeWhile_prefix _
  have ht : s.take n <+: s := List.take_prefix n s
  exact (List.prefix_iff_eq_take.mp (hw.trans ht)).symm

/-- A key is accepted by its first 32 bytes. -/
theorem strncmp_digest (key : StringBuffer) (d : HexDigest) :
    strncmp key.toList d.chars d.chars.length = 0 ↔ key.toList.take 32 = d.chars := by
  rw [strncmp_eq_zero_iff, d.length, HexDigest.strn_eq d le_rfl]
  constructor
  · intro h
    have hp : strn 32 key.toList <+: key.toList.take 32 := List.takeWhile_prefix _
    have hl : (strn 32 key.toList).length = (key.toList.take 32).length := by
      rw [h, d.length, List.length_take, Vector.length_toList]
      decide
    rw [← hp.eq_of_length hl, h]
  · intro h
    rw [strn, h]
    exact cstr_eq_self fun b hb => isLowerHex_ne_zero (d.hex b hb)

/-- The key is the digest with its terminator. -/
theorem strn_key {d : HexDigest} (hd : key.toList.take 32 = d.chars) (h0 : key.toList.getD 32 0 = 0) :
    strn maxStrLen key.toList = d.chars := by
  have hsplit : key.toList.take maxStrLen = d.chars ++ key.toList.drop 32 := by
    rw [← hd, List.take_append_drop, List.take_of_length_le (by rw [Vector.length_toList])]
  obtain ⟨b, rest, hrest⟩ : ∃ b rest, key.toList.drop 32 = b :: rest := by
    refine List.exists_cons_of_length_pos ?_
    rw [List.length_drop, Vector.length_toList]
    decide
  have hb : b = 0 := by
    rw [List.getD_eq_getElem?_getD, ← List.head?_drop, hrest] at h0
    exact h0
  rw [strn, hsplit, hrest, hb, cstr, List.takeWhile_append_of_pos]
  · simp
  · intro c hc
    simpa using isLowerHex_ne_zero (d.hex c hc)

/-! ## One call -/

/-- What a call that returns a service has found, if no service is a dummy. -/
theorem validateFrom_eq_some {env : Env} {manager manager' : Manager} {username : List Byte} {i j : Nat}
    {services : List Service} (hdummy : ∀ service ∈ services, service.dummyService = false)
    (h : validateFrom md5 env manager username key i services = (some j, manager')) :
    ∃ k service, j = i + k ∧ services[k]? = some service ∧
      key.toList.take 32 = (digest md5 service username).chars ∧
      manager' = { manager with
        authTree := treeInsert env manager.authTree (digest md5 service username).chars j } := by
  induction services generalizing i with
  | nil => cases h
  | cons service services ih =>
    have hrest : validateFrom md5 env manager username key (i + 1) services = (some j, manager') →
        ∃ k service', j = i + k ∧ (service :: services)[k]? = some service' ∧
          key.toList.take 32 = (digest md5 service' username).chars ∧
          manager' = { manager with
            authTree := treeInsert env manager.authTree (digest md5 service' username).chars j } := by
      intro h
      obtain ⟨k, service', hj, hk, hs⟩ := ih (fun s hs => hdummy s (List.mem_cons_of_mem _ hs)) h
      exact ⟨k + 1, service', by omega, hk, hs⟩
    simp only [validateFrom, hdummy service List.mem_cons_self, Bool.false_eq_true, if_false] at h
    split at h
    · exact hrest h
    split at h
    · exact hrest h
    split at h
    · rename_i hkey
      obtain ⟨hj, rfl⟩ := Prod.mk.inj h
      obtain rfl := Option.some.inj hj
      exact ⟨0, service, rfl, rfl, (strncmp_digest _ _).mp hkey, rfl⟩
    · exact hrest h

/-- A call that returns no service changes nothing. -/
theorem validateFrom_eq_none {env : Env} {manager manager' : Manager} {username : List Byte} {i : Nat}
    {services : List Service} (h : validateFrom md5 env manager username key i services = (none, manager')) :
    manager' = manager := by
  induction services generalizing i with
  | nil => exact (Prod.mk.inj h).2.symm
  | cons service services ih =>
    simp only [validateFrom] at h
    split at h
    · cases h
    split at h
    · exact ih h
    split at h
    · exact ih h
    split at h
    · cases h
    · exact ih h

/-- The history after a call that returned the service `j`. -/
def accept (md5 : List Byte → HexDigest) (h : History) (env : Env) (service : Service)
    (u : List Byte) (j : Nat) : History where
  manager := { h.manager with
    authTree := treeInsert env h.manager.authTree (digest md5 service u).chars j }
  returned := h.returned ++ [(u, j)]

/-- What a call can do: nothing, or return a service whose digest the key
starts with and was not found. -/
theorem validateStep_cases {h h' : History} {call : Call}
    (hdummy : ∀ service ∈ h.manager.services, service.dummyService = false)
    (hs : validateStep md5 h call = some h') :
    h' = h ∨ ∃ username key j service, call.username = some username ∧ call.key = some key ∧
      h.manager.services[j]? = some service ∧
      (KeyTree.lookup stringSame h.manager.authTree key.toList).isSome = false ∧
      key.toList.take 32 = (digest md5 service (nameOf username)).chars ∧
      h' = accept md5 h call.env service (nameOf username) j := by
  obtain ⟨username, key, env⟩ := call
  cases username with
  | none => exact .inl (Option.some.inj hs).symm
  | some username =>
    cases key with
    | none => exact .inl (Option.some.inj hs).symm
    | some key =>
      simp only [validateStep, tcHeartbeatManagerValidate, take_strnlen] at hs
      split at hs
      · exact .inl (Option.some.inj hs).symm
      rename_i hfresh
      generalize hv : validateFrom md5 env h.manager _ key 0 h.manager.services = r at hs
      obtain ⟨result, manager'⟩ := r
      cases result with
      | none =>
        rw [validateFrom_eq_none hv] at hs
        exact .inl (Option.some.inj hs).symm
      | some j =>
        obtain ⟨k, service, hj, hk, hkey, rfl⟩ := validateFrom_eq_some hdummy hv
        rw [Nat.zero_add] at hj
        subst hj
        exact .inr ⟨username, key, j, service, rfl, rfl, hk, Bool.not_eq_true _ |>.mp hfresh, hkey,
          (Option.some.inj hs).symm⟩

/-! ## A cycle -/

/-- If the key starts with the username's digest at some service, it ends
there, and the digest can be recorded. -/
def SafeCall (md5 : List Byte → HexDigest) (h : History) (call : Call) : Prop :=
  ∀ username key service, call.username = some username → call.key = some key →
    service ∈ h.manager.services →
      key.toList.take 32 = (digest md5 service (nameOf username)).chars →
        key.toList.getD 32 0 = 0 ∧ call.env.treeNode = true

/-- What was returned is recorded, and was returned once. -/
structure Recorded (md5 : List Byte → HexDigest) (h : History) : Prop where
  dummy : ∀ service ∈ h.manager.services, service.dummyService = false
  recorded : ∀ u j service, (u, j) ∈ h.returned → h.manager.services[j]? = some service →
    (KeyTree.lookup stringSame h.manager.authTree (digest md5 service u).chars).isSome = true
  nodup : h.returned.Nodup

theorem Recorded.step {h h' : History} {call : Call} (hr : Recorded md5 h) (safe : SafeCall md5 h call)
    (hs : validateStep md5 h call = some h') : Recorded md5 h' := by
  obtain rfl | ⟨username, key, j, service, hu, hk, hj, hfresh, hkey, rfl⟩ :=
    validateStep_cases hr.dummy hs
  · exact hr
  obtain ⟨h0, hnode⟩ := safe username key service hu hk (List.mem_of_getElem? hj) hkey
  have hinsert : ∀ k, (KeyTree.lookup stringSame
      (accept md5 h call.env service (nameOf username) j).manager.authTree k).isSome = true ↔
      strn maxStrLen k = strn maxStrLen (digest md5 service (nameOf username)).chars ∨
        (KeyTree.lookup stringSame h.manager.authTree k).isSome = true := by
    intro k
    simp only [accept, treeInsert, if_pos (Or.inr hnode)]
    exact KeyTree.isSome_lookup_insert stringSame_iff _ _ _ _
  refine ⟨hr.dummy, fun u i service' hmem hi => ?_, ?_⟩
  · rw [hinsert]
    rcases List.mem_append.mp hmem with hmem | hmem
    · exact .inr (hr.recorded u i service' hmem hi)
    · obtain ⟨rfl, rfl⟩ := Prod.mk.inj (List.mem_singleton.mp hmem)
      obtain rfl := Option.some.inj (hj.symm.trans hi)
      exact .inl rfl
  · -- had it been returned before, the lookup would have found the key
    have hnew : (nameOf username, j) ∉ h.returned := by
      intro hmem
      have hfound := hr.recorded _ _ service hmem hj
      have hsame : strn maxStrLen key.toList =
          strn maxStrLen (digest md5 service (nameOf username)).chars := by
        rw [strn_key hkey h0, HexDigest.strn_eq _ (by decide)]
      rw [← KeyTree.lookup_congr stringSame_iff _ hsame, hfresh] at hfound
      cases hfound
    rw [accept, ← List.concat_eq_append]
    exact List.Nodup.concat hnew hr.nodup

/-- In a cycle without dummy services, in which each call is safe, a service
is returned at most once for each username. -/
theorem accepted_once {manager : Manager} {rand : Nat → Nat → Nat} {calls : List Call} {h : History}
    (hdummy : ∀ service ∈ manager.services, service.dummyService = false)
    (safe : Along (validateStep md5) (SafeCall md5) ⟨heartbeatCycle manager rand, []⟩ calls)
    (hrun : run (validateStep md5) ⟨heartbeatCycle manager rand, []⟩ calls = some h) :
    h.returned.Nodup := by
  have hstart : Recorded md5 ⟨heartbeatCycle manager rand, []⟩ := by
    refine ⟨fun service hs => ?_, fun _ _ _ hmem _ => (List.not_mem_nil hmem).elim, List.nodup_nil⟩
    obtain ⟨i, hi, rfl⟩ := List.mem_mapIdx.mp hs
    have h := hdummy _ (List.getElem_mem hi)
    exact h
  exact (run_inv_along (fun _ _ _ hsafe hr hs => hr.step hsafe hs) safe hstart hrun).nodup

/-! ## A key that goes on -/

/-- A hash for examples: every digest is 32 zeros. -/
def zeroHash (_ : List Byte) : HexDigest where
  chars := List.replicate 32 0x30
  length := List.length_replicate
  hex b hb := by rw [List.eq_of_mem_replicate hb]; exact .inl ⟨by decide, by decide⟩

def oneService : Manager :=
  { services := [{ currentSalt := Vector.replicate saltLength 0, dummyService := false }], authTree := [] }

/-- A buffer that holds `n` zeros, and NULs. -/
def zeros (n : Nat) : StringBuffer := Vector.ofFn fun i => if i.val < n then 0x30 else 0

/-- A client presents `n` zeros as the key. -/
def visitor (n : Nat) : Call := ⟨some (zeros 3), some (zeros n), .ok⟩

/-- It presents them twice. -/
def twice (n : Nat) : List Call := [visitor n, visitor n]

/-- The key of 32 zeros is accepted once. -/
theorem accepted_once_zeros : ∃ h,
    run (validateStep zeroHash) ⟨heartbeatCycle oneService fun _ _ => 0, []⟩ (twice 32) = some h ∧
    h.returned = [(nameOf (zeros 3), 0)] ∧ h.returned.Nodup := by
  have safe : ∀ call ∈ twice 32, ∀ h, SafeCall zeroHash h call := by
    rintro call hc h username key service - hkey - -
    simp only [twice, List.mem_cons, List.not_mem_nil, or_false, or_self] at hc
    subst hc
    obtain rfl := Option.some.inj hkey
    exact ⟨by decide, rfl⟩
  refine ⟨_, rfl, by decide, ?_⟩
  have hdummy : ∀ service ∈ oneService.services, service.dummyService = false := by decide
  exact accepted_once hdummy (along_of_forall safe) rfl

/-- The same 33 bytes are accepted twice: the tree holds their first 32. -/
theorem replay_accepted : ∃ h,
    run (validateStep zeroHash) ⟨heartbeatCycle oneService fun _ _ => 0, []⟩ (twice 33) = some h ∧
    (∀ service ∈ oneService.services, service.dummyService = false) ∧ ¬ h.returned.Nodup := by
  refine ⟨_, rfl, by decide, ?_⟩
  decide

end TC.Proof.Heartbeat
