import TeleClassic.Impl.HeartbeatTree
import TeleClassic.Proof.AvlTree.Calls
import TeleClassic.Proof.Lifecycle.Salts

/-!
# The heartbeat manager on its tree

`tc_string_compare` is the comparison of an order (`compares_string`). In any order of calls
and cycles, whatever memory they get, the manager with its tree in memory returns what the one
with a `KeyTree` does (`manager_refines`), so that what is known of the latter is true of the
former. A valid key is accepted unless it was presented before (`valid_key_accepted`).
-/

namespace TC.Proof.AvlTree

open TC.LinkedTree
open TC.Prog
open TC.Impl.AvlTree (PTree TreeCell)
open TC.Impl.Heartbeat (Service StringBuffer HexDigest Env Manager Call stringSame heartbeatCycle digest treeInsert
  nameOf)
open TC.Impl.HeartbeatTree
open TC.Impl.Protocol (maxStrLen)
open TC.Proof.Heartbeat (zeroHash oneService zeros visitor)

theorem compares_string : Compares tcStringCompare (codes maxStrLen) where
  lt _ _ := strncmp_neg_iff
  gt a b := by
    rw [tcStringCompare, strncmp_swap, Int.neg_pos]
    exact strncmp_neg_iff

theorem same_string (a b : List Byte) : stringSame a b = true ↔ codes maxStrLen a = codes maxStrLen b :=
  compares_string.same a b

variable {md5 : List Byte → HexDigest}

/-- The manager with a `KeyTree`, and what its calls returned so far. -/
structure KeyManager where
  manager : Manager
  returned : List (Option Nat)

def keyManagerStep (md5 : List Byte → HexDigest) (m : KeyManager) : Event → KeyManager
  | .validate call =>
    let (result, manager) := Impl.Heartbeat.tcHeartbeatManagerValidate md5 call.env m.manager call.username call.key
    { manager := manager, returned := m.returned ++ [result] }
  | .cycle rand => { m with manager := heartbeatCycle m.manager rand }

/-- The tree `t` is in memory, and is used as the one of the manager. -/
def Holds (s : PTree (List Byte) Nat) (tree : KeyTree (List Byte) Nat) (t : AddrTree (TreeCell (List Byte) Nat)) : Prop :=
  WellFormed (codes maxStrLen) s t ∧ Agree stringSame (entries t) tree

theorem validateFrom_refines {env : Env} {username : List Byte} {key : StringBuffer} {s : PTree (List Byte) Nat}
    {manager : Manager} {t : AddrTree (TreeCell (List Byte) Nat)} (h : Holds s manager.authTree t) (i : Nat)
    (services : List Service) : Meets tcStringCompare s (validateFrom md5 env username key i services)
      (fun result s' => ∃ t', result = (Impl.Heartbeat.validateFrom md5 env manager username key i services).1 ∧
        Holds s' (Impl.Heartbeat.validateFrom md5 env manager username key i services).2.authTree t')
      fun _ => False := by
  induction services generalizing i with
  | nil => exact meets_pure ⟨t, rfl, h⟩
  | cons service services ih =>
    rw [validateFrom, Impl.Heartbeat.validateFrom]
    split_ifs
    · exact meets_pure ⟨t, rfl, h⟩
    · exact ih _
    · exact ih _
    · dsimp only
      split_ifs
      · refine meets_bind (meets_pTreeInsert compares_string h.1 env.treeNode _ i) fun _ s' hs' => ?_
        obtain ⟨t', hwf, hinserts⟩ := hs'
        exact meets_pure ⟨t', rfl, hwf, hinserts.agree same_string h.2⟩
      · exact ih _

theorem validate_refines {s : PTree (List Byte) Nat} {manager : Manager} {t : AddrTree (TreeCell (List Byte) Nat)}
    (h : Holds s manager.authTree t) (env : Env) (username key : Option StringBuffer) :
    Meets tcStringCompare s (tcHeartbeatManagerValidate md5 env manager.services username key)
      (fun result s' => ∃ t', result = (Impl.Heartbeat.tcHeartbeatManagerValidate md5 env manager username key).1 ∧
        Holds s' (Impl.Heartbeat.tcHeartbeatManagerValidate md5 env manager username key).2.authTree t')
      fun _ => False := by
  rcases username with _ | username
  · exact meets_pure ⟨t, rfl, h⟩
  rcases key with _ | key
  · exact meets_pure ⟨t, rfl, h⟩
  simp only [tcHeartbeatManagerValidate, Impl.Heartbeat.tcHeartbeatManagerValidate]
  refine meets_bind_of_some (pTreeLookup_eq compares_string same_string h.1) ?_
  rw [h.2]
  split_ifs
  · exact meets_pure ⟨t, rfl, h⟩
  · exact validateFrom_refines h 0 manager.services

/-- The two managers have the same services, entries and results. -/
structure SameManager (m : TreeManager) (k : KeyManager) : Prop where
  services : m.services = k.manager.services
  returned : m.returned = k.returned
  holds : ∃ t, Holds m.authTree k.manager.authTree t

theorem SameManager.step {m : TreeManager} {k : KeyManager} (h : SameManager m k) (event : Event) :
    ∃ m', treeStep md5 m event = some m' ∧ SameManager m' (keyManagerStep md5 k event) := by
  obtain ⟨t, ht⟩ := h.holds
  cases event with
  | validate call =>
    obtain ⟨result, tree, hrun, t', hresult, hholds⟩ :=
      (validate_refines ht call.env call.username call.key).returns
    rw [← h.services] at hrun
    refine ⟨{ m with authTree := tree, returned := m.returned ++ [result] }, ?_, ?_, ?_, t', hholds⟩
    · rw [treeStep, hrun]
    · exact h.services.trans (Lifecycle.services_validate).symm
    · rw [hresult, h.returned]
      rfl
  | cycle rand =>
    rw [treeStep, pTreeClear_eq ht.1]
    refine ⟨_, rfl, ?_, h.returned, .nil, wellFormed_nil rfl rfl rfl, fun _ => rfl⟩
    rw [h.services]
    rfl

theorem sameManager_of_run (md5 : List Byte → HexDigest) (services : List Service) (events : List Event) :
    ∃ m, TC.run (treeStep md5) ⟨services, .new, []⟩ events = some m ∧
      SameManager m (events.foldl (keyManagerStep md5) ⟨⟨services, []⟩, []⟩) :=
  run_refines (fun _ _ event h => h.step event) ⟨rfl, rfl, .nil, wellFormed_nil rfl rfl rfl, fun _ => rfl⟩ events

/-- In any order of calls and cycles, the manager with its tree in memory follows no pointer
that it should not, and returns what the manager with a `KeyTree` does. -/
theorem manager_refines (md5 : List Byte → HexDigest) (services : List Service) (events : List Event) :
    ∃ m t, TC.run (treeStep md5) ⟨services, .new, []⟩ events = some m ∧
      m.returned = (events.foldl (keyManagerStep md5) ⟨⟨services, []⟩, []⟩).returned ∧
      InMemory m.authTree t ∧ Nat.fib (t.height + 2) ≤ (inorder t).length + 1 := by
  obtain ⟨m, hrun, h⟩ := sameManager_of_run md5 services events
  obtain ⟨t, ht⟩ := h.holds
  refine ⟨m, t, hrun, h.returned, ht.1.toInMemory, ?_⟩
  rw [← numNodes_eq]
  exact ht.1.balanced.fib_le

/-! ## Who is turned away -/

/-- Among the calls is one with a key that is valid for its username at a service, and has these
digits. -/
def Presented (md5 : List Byte → HexDigest) (services : List Service) (calls : List Call) (digits : List Byte) : Prop :=
  ∃ call ∈ calls, ∃ username key service, call.username = some username ∧ call.key = some key ∧ service ∈ services ∧
    key.toList.take 32 = (digest md5 service (nameOf username)).chars ∧
    digits = (digest md5 service (nameOf username)).chars

/-- The manager has an entry for the key. -/
abbrev Finds (manager : Manager) (key : List Byte) : Prop :=
  (KeyTree.lookup stringSame manager.authTree key).isSome = true

section

variable {env : Env} {manager : Manager} {username key' : List Byte} {key : StringBuffer} {i : Nat}
  {services : List Service} {k : KeyManager}

/-- What is found after the loop was there before it, or is the digest that the key starts with. -/
theorem finds_validateFrom (h : Finds (Impl.Heartbeat.validateFrom md5 env manager username key i services).2 key') :
    Finds manager key' ∨ ∃ service ∈ services, key.toList.take 32 = (digest md5 service username).chars ∧
      strn maxStrLen key' = (digest md5 service username).chars := by
  induction services generalizing i with
  | nil => exact .inl h
  | cons service services ih =>
    rw [List.exists_mem_cons_iff]
    simp only [Impl.Heartbeat.validateFrom] at h
    split_ifs at h with _ _ _ hkey
    · exact .inl h
    · exact (ih h).imp_right .inr
    · exact (ih h).imp_right .inr
    · simp only [Finds, treeInsert] at h
      split at h
      · obtain hnew | hold := (KeyTree.isSome_lookup_insert Heartbeat.stringSame_iff _ _ _ _).mp h
        · rw [Heartbeat.HexDigest.strn_eq _ (by decide)] at hnew
          exact .inr (.inl ⟨(Heartbeat.strncmp_digest _ _).mp hkey, hnew⟩)
        · exact .inl hold
      · exact .inl h
    · exact (ih h).imp_right .inr

theorem finds_step {call : Call} (h : Finds (keyManagerStep md5 k (.validate call)).manager key') :
    Finds k.manager key' ∨ Presented md5 k.manager.services [call] (strn maxStrLen key') := by
  obtain ⟨username, key, env⟩ := call
  rcases username with _ | username
  · exact .inl h
  rcases key with _ | key
  · exact .inl h
  simp only [keyManagerStep, Impl.Heartbeat.tcHeartbeatManagerValidate, Heartbeat.take_strnlen] at h
  split at h
  · exact .inl h
  · obtain hbefore | ⟨service, hmem, hkey⟩ := finds_validateFrom h
    · exact .inl hbefore
    · exact .inr ⟨_, List.mem_singleton_self _, username, key, service, rfl, rfl, hmem, hkey⟩

theorem services_calls (calls : List Call) :
    ((calls.map .validate).foldl (keyManagerStep md5) k).manager.services = k.manager.services := by
  induction calls generalizing k with
  | nil => rfl
  | cons call calls ih => exact (ih (k := keyManagerStep md5 k (.validate call))).trans Lifecycle.services_validate

/-- What is found after some calls was there before, or one of them presented it. -/
theorem finds_calls {calls : List Call}
    (h : Finds ((calls.map .validate).foldl (keyManagerStep md5) k).manager key') :
    Finds k.manager key' ∨ Presented md5 k.manager.services calls (strn maxStrLen key') := by
  induction calls generalizing k with
  | nil => exact .inl h
  | cons call calls ih =>
    have hservices : (keyManagerStep md5 k (.validate call)).manager.services = k.manager.services :=
      Lifecycle.services_validate
    obtain hfirst | ⟨later, hmem, hlater⟩ := ih h
    · obtain hbefore | ⟨first, hmem, hfirst⟩ := finds_step hfirst
      · exact .inl hbefore
      · exact .inr ⟨first, List.mem_cons.mpr (.inl (List.mem_singleton.mp hmem)), hfirst⟩
    · rw [hservices] at hlater
      exact .inr ⟨later, List.mem_cons_of_mem _ hmem, hlater⟩

/-- The loop returns a service at which the key is valid, or one before it. -/
theorem validateFrom_accepts {j : Nat} {service : Service} (hj : services[j]? = some service)
    (hnew : env.hashNew (i + j) = true) (hstring : env.hashString (i + j) = true)
    (hkey : key.toList.take 32 = (digest md5 service username).chars) :
    ∃ j' ≤ i + j, (Impl.Heartbeat.validateFrom md5 env manager username key i services).1 = some j' := by
  induction services generalizing i j with
  | nil => cases hj
  | cons first services ih =>
    rw [Impl.Heartbeat.validateFrom]
    cases j with
    | zero =>
      obtain rfl := Option.some.inj hj
      rw [Nat.add_zero] at hnew hstring
      refine ⟨i, Nat.le_refl _, ?_⟩
      simp only [hnew, hstring, (Heartbeat.strncmp_digest _ _).mpr hkey, Bool.not_true, Bool.false_eq_true, if_false,
        if_true]
      split_ifs <;> rfl
    | succ j =>
      rw [← Nat.add_assoc, Nat.add_right_comm] at hnew hstring ⊢
      have hrest := ih hj hnew hstring
      dsimp only
      split_ifs
      · exact ⟨i, by omega, rfl⟩
      · exact hrest
      · exact hrest
      · exact ⟨i, by omega, rfl⟩
      · exact hrest

end

/-- After a cycle and any calls, a key that is valid for its username at the service `j` is
accepted, by that service or by one before it, unless a call of this cycle has presented a valid
key of the same digits. -/
theorem valid_key_accepted {services : List Service} {events : List Event} {rand : Nat → Nat → Nat} {calls : List Call}
    {m : TreeManager} {username key : StringBuffer} {env : Env} {j : Nat} {service : Service}
    (hrun : TC.run (treeStep md5) ⟨services, .new, []⟩ (events ++ .cycle rand :: calls.map .validate) = some m)
    (hj : m.services[j]? = some service) (hkey : key.toList.take 32 = (digest md5 service (nameOf username)).chars)
    (hnew : env.hashNew j = true) (hstring : env.hashString j = true) :
    ∃ m' result, treeStep md5 m (.validate ⟨some username, some key, env⟩) = some m' ∧
      m'.returned = m.returned ++ [result] ∧
      ((∃ j' ≤ j, result = some j') ∨ Presented md5 m.services calls (strn maxStrLen key.toList)) := by
  obtain ⟨m₀, hrun₀, h⟩ := sameManager_of_run md5 services (events ++ .cycle rand :: calls.map .validate)
  obtain rfl := Option.some.inj (hrun₀.symm.trans hrun)
  obtain ⟨m', hstep : treeStep md5 _ _ = _, h'⟩ := h.step (.validate ⟨some username, some key, env⟩)
  rw [List.foldl_append, List.foldl_cons] at h h'
  generalize hcycle : keyManagerStep md5 (events.foldl _ _) (.cycle rand) = start at h h'
  have hservices := h.services.trans (services_calls calls)
  refine ⟨m', (Impl.Heartbeat.tcHeartbeatManagerValidate md5 env _ (some username) (some key)).1, hstep,
    h'.returned.trans (congrArg (· ++ [_]) h.returned.symm), ?_⟩
  rw [Impl.Heartbeat.tcHeartbeatManagerValidate]
  split
  · rename_i hfound
    obtain hbefore | hpresented := finds_calls hfound
    · rw [← hcycle] at hbefore
      cases hbefore
    · rw [hservices]
      exact .inr hpresented
  · rw [h.services] at hj
    rw [Heartbeat.take_strnlen, ← Nat.zero_add j]
    rw [← Nat.zero_add j] at hnew hstring
    exact .inl (validateFrom_accepts hj hnew hstring hkey)

/-- The key was presented in a cycle; in the next one a client presents a key that is too
short. -/
def nextCycle : List Event :=
  [.cycle fun _ _ => 0, .validate (visitor 32)] ++ .cycle (fun _ _ => 0) :: [visitor 5].map .validate

/-- The key of 32 zeros is accepted again. -/
theorem valid_key_accepted_zeros : ∃ m, TC.run (treeStep zeroHash) ⟨oneService.services, .new, []⟩ nextCycle = some m ∧
    m.returned = [some 0, none] ∧
    ∃ m', treeStep zeroHash m (.validate (visitor 32)) = some m' ∧ m'.returned = [some 0, none, some 0] := by
  have hrun : ∃ m, TC.run (treeStep zeroHash) ⟨oneService.services, .new, []⟩ nextCycle = some m ∧
      m.returned = [some 0, none] ∧ m.services.length = 1 := ⟨_, rfl, rfl, rfl⟩
  obtain ⟨m, hm, hreturned, hlength⟩ := hrun
  have hservice : m.services[0]? = some m.services[0] := List.getElem?_eq_getElem _
  have hkey : (zeros 32).toList.take 32 = (digest zeroHash m.services[0] (nameOf (zeros 3))).chars := rfl
  have hhash : (Env.ok).hashNew 0 = true ∧ (Env.ok).hashString 0 = true := ⟨rfl, rfl⟩
  obtain ⟨m', result, hstep, hresult, hverdict⟩ := valid_key_accepted hm hservice hkey hhash.1 hhash.2
  obtain ⟨j', hj, rfl⟩ | ⟨call, hcall, username, key, service, -, hkey, -, hshort, -⟩ := hverdict
  · rw [hreturned, Nat.le_zero.mp hj] at hresult
    exact ⟨m, hm, hreturned, m', hstep, hresult⟩
  · obtain rfl := List.mem_singleton.mp hcall
    cases hkey
    cases hshort

end TC.Proof.AvlTree
