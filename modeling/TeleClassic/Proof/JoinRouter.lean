import TeleClassic.Impl.JoinRouter
import Mathlib.Tactic.Common

/-!
# A stopped join router

As long as it is not stopped, a router answers every lookup and returns with its
lock free (`find_running`), and a first stop frees every joinable once
(`stopAll_running`). After that, a second stop keeps the lock for writing
(`stopAll_stopped`), a lookup by name keeps it for reading (`find_stopped`), and a
lookup of the default address returns the default joinable, which is freed
(`find_default`). So a sequence of calls goes as it should (`Safe`) if and only if
each call after the first stop is a lookup of the default address, on a router that
has no default joinable (`router_safe_iff`).
-/

namespace TC.Proof.JoinRouter

open TC.Impl.JoinRouter

variable {address : Option String}

/-! ## The calls -/

theorem foldl_findJoinableCallback (address : String) (joinables : List Joinable) (bestMatch : Option Joinable) :
    joinables.foldl (findJoinableCallback address) bestMatch =
      bestMatch.or (joinables.find? fun joinable => joinable.name = address) := by
  induction joinables generalizing bestMatch with
  | nil => simp
  | cons joinable joinables ih =>
    rw [List.foldl_cons, ih, findJoinableCallback, List.find?_cons]
    cases bestMatch with
    | some best => simp
    | none =>
      by_cases hname : joinable.name = address
      · simp [hname]
      · simp [hname]

theorem foldl_stopJoinable (joinables : List Joinable) (router : Router) :
    joinables.foldl stopJoinable router = { router with freed := router.freed ++ joinables } := by
  induction joinables generalizing router with
  | nil => simp
  | cons joinable joinables ih =>
    rw [List.foldl_cons, ih, stopJoinable]
    simp

theorem find_default (router : Router) (h : isDefaultAddress address = true) :
    tcFindJoinable router address = some (router.defaultJoinable, router) := if_pos h

section Calls

variable {router : Router} (hlock : router.lock = RwLock.free)

include hlock

theorem find_running (hrunning : router.stopped = false) (h : isDefaultAddress address = false) :
    tcFindJoinable router address =
      some (router.joinables.find? fun joinable => some joinable.name = address, router) := by
  obtain ⟨joinables, lock, defaultJoinable, stopped, freed⟩ := router
  subst hlock hrunning
  cases address with
  | none => cases h
  | some address =>
    simp [tcFindJoinable, h, Router.readerLock, Router.readerUnlock, RwLock.free, foldl_findJoinableCallback]

/-- A lookup by name on a stopped router does not give the lock back. -/
theorem find_stopped (hstopped : router.stopped = true) (h : isDefaultAddress address = false) :
    tcFindJoinable router address = some (none, { router with lock := { readers := 1, writer := false } }) := by
  obtain ⟨joinables, lock, defaultJoinable, stopped, freed⟩ := router
  subst hlock hstopped
  simp [tcFindJoinable, h, Router.readerLock, RwLock.free]

theorem stopAll_running (hrunning : router.stopped = false) :
    tcJoinRouterStopAll router = some { router with stopped := true, freed := router.freed ++ router.joinables } := by
  obtain ⟨joinables, lock, defaultJoinable, stopped, freed⟩ := router
  subst hlock hrunning
  simp [tcJoinRouterStopAll, Router.writerLock, Router.writerUnlock, RwLock.free, foldl_stopJoinable]

/-- Neither does a second stop. -/
theorem stopAll_stopped (hstopped : router.stopped = true) :
    tcJoinRouterStopAll router = some { router with lock := { readers := 0, writer := true } } := by
  obtain ⟨joinables, lock, defaultJoinable, stopped, freed⟩ := router
  subst hlock hstopped
  simp [tcJoinRouterStopAll, Router.writerLock, RwLock.free]

end Calls

/-! ## Sequences of calls -/

/-- What a call should return: no joinable once the router is stopped, and before
that, for a name, the first joinable that has it. -/
def Answers (router : Router) (call : Call) (reply : Option Joinable) : Prop :=
  (router.stopped = true → reply = none) ∧
    (router.stopped = false → ∀ address, call = .find address → isDefaultAddress address = false →
      reply = router.joinables.find? fun joinable => some joinable.name = address)

/-- Each call returns what it should, with the lock free. -/
def Safe : Router → List Call → Prop
  | _, [] => True
  | router, call :: calls => ∃ reply router', router.call call = some (reply, router') ∧
      router'.lock = RwLock.free ∧ Answers router call reply ∧ Safe router' calls

def Call.isDefaultLookup : Call → Bool
  | .find address => isDefaultAddress address
  | .stopAll => false

/-- The calls after the first stop. -/
def afterStop : List Call → List Call
  | [] => []
  | .stopAll :: calls => calls
  | .find _ :: calls => afterStop calls

theorem safe_cons {router router' : Router} {call : Call} {calls : List Call} {reply : Option Joinable}
    (hcall : router.call call = some (reply, router')) :
    Safe router (call :: calls) ↔
      router'.lock = RwLock.free ∧ Answers router call reply ∧ Safe router' calls := by
  constructor
  · rintro ⟨reply₁, router₁, hcall₁, h⟩
    obtain ⟨rfl, rfl⟩ := Prod.mk.inj (Option.some.inj (hcall.symm.trans hcall₁))
    exact h
  · intro h
    exact ⟨reply, router', hcall, h⟩

/-- After a stop: by induction on the calls, each of which changes nothing if it
goes as it should. -/
theorem safe_stopped {router : Router} (hlock : router.lock = RwLock.free) (hstopped : router.stopped = true)
    (calls : List Call) :
    Safe router calls ↔ ∀ call ∈ calls, Call.isDefaultLookup call = true ∧ router.defaultJoinable = none := by
  induction calls with
  | nil => simp [Safe]
  | cons call calls ih =>
    rw [List.forall_mem_cons]
    cases call with
    | stopAll =>
      have hcall : router.call .stopAll = some (none, { router with lock := { readers := 0, writer := true } }) := by
        rw [Router.call, stopAll_stopped hlock hstopped]
        rfl
      rw [safe_cons hcall]
      simp [RwLock.free, Call.isDefaultLookup]
    | find address =>
      by_cases haddress : isDefaultAddress address = true
      · have hcall : router.call (.find address) = some (router.defaultJoinable, router) :=
          find_default router haddress
        rw [safe_cons hcall, ih]
        simp [hlock, Answers, hstopped, Call.isDefaultLookup, haddress]
      · have hcall : router.call (.find address) = _ :=
          find_stopped hlock hstopped (Bool.not_eq_true _ |>.mp haddress)
        rw [safe_cons hcall]
        simp [RwLock.free, Call.isDefaultLookup, haddress]

/-- From a router that is not stopped, the calls up to the first stop go as they should. -/
theorem safe_running {router : Router} (hlock : router.lock = RwLock.free) (hrunning : router.stopped = false)
    (calls : List Call) :
    Safe router calls ↔
      ∀ call ∈ afterStop calls, Call.isDefaultLookup call = true ∧ router.defaultJoinable = none := by
  induction calls with
  | nil => simp [Safe, afterStop]
  | cons call calls ih =>
    cases call with
    | stopAll =>
      let router' := { router with stopped := true, freed := router.freed ++ router.joinables }
      have hcall : router.call .stopAll = some (none, router') := by
        rw [Router.call, stopAll_running hlock hrunning]
        rfl
      have hlock' : router'.lock = RwLock.free := hlock
      rw [safe_cons hcall, safe_stopped hlock' rfl, afterStop]
      simp [hlock, Answers, router']
    | find address =>
      rw [afterStop, ← ih]
      by_cases haddress : isDefaultAddress address = true
      · have hcall : router.call (.find address) = some (router.defaultJoinable, router) :=
          find_default router haddress
        rw [safe_cons hcall]
        simp [hlock, Answers, hrunning, haddress]
      · have hcall : router.call (.find address) = _ :=
          find_running hlock hrunning (Bool.not_eq_true _ |>.mp haddress)
        rw [safe_cons hcall]
        simp [hlock, Answers, hrunning]

theorem init_eq (joinables : List Joinable) (name : Option String) :
    ∃ default_, tcJoinRouterInit joinables name true = some
      { joinables, lock := RwLock.free, defaultJoinable := default_, stopped := false, freed := [] } := by
  simp only [tcJoinRouterInit, Bool.not_true, Bool.false_eq_true, if_false]
  by_cases hname : isDefaultAddress name = true
  · rw [find_default _ hname]
    exact ⟨none, rfl⟩
  · rw [find_running rfl rfl (Bool.not_eq_true _ |>.mp hname)]
    exact ⟨_, rfl⟩

/-- Every sequence of calls on a new router goes as it should if and only if each
call after the first stop is a lookup of the default address and there is no
default joinable. -/
theorem router_safe_iff (joinables : List Joinable) (name : Option String) (calls : List Call) :
    ∃ router, tcJoinRouterInit joinables name true = some router ∧
      (Safe router calls ↔
        ∀ call ∈ afterStop calls, Call.isDefaultLookup call = true ∧ router.defaultJoinable = none) := by
  obtain ⟨default_, hinit⟩ := init_eq joinables name
  exact ⟨_, hinit, safe_running rfl rfl calls⟩

def lobby : Joinable := ⟨1, "lobby"⟩

/-- A router with a lobby, which is also its default joinable. -/
def lobbyRouter : Router :=
  { joinables := [lobby], lock := RwLock.free, defaultJoinable := some lobby, stopped := false, freed := [] }

def stoppedLobby : Router := { lobbyRouter with stopped := true, freed := [lobby] }

/-- After a stop, the default address leads to the freed lobby, and a lookup of the
lobby and another stop both return with the lock held. -/
theorem stopped_router_unsafe :
    tcJoinRouterInit [lobby] (some "lobby") true = some lobbyRouter ∧
    lobbyRouter.call .stopAll = some (none, stoppedLobby) ∧
    stoppedLobby.call (.find none) = some (some lobby, stoppedLobby) ∧
    stoppedLobby.call (.find (some "lobby")) =
      some (none, { stoppedLobby with lock := { readers := 1, writer := false } }) ∧
    stoppedLobby.call .stopAll = some (none, { stoppedLobby with lock := { readers := 0, writer := true } }) ∧
    ¬ Safe lobbyRouter [.stopAll, .find none] ∧ ¬ Safe lobbyRouter [.stopAll, .find (some "lobby")] ∧
    ¬ Safe lobbyRouter [.stopAll, .stopAll] := by
  refine ⟨by decide, by decide, by decide, by decide, by decide, ?_, ?_, ?_⟩
  · exact mt (safe_running rfl rfl _).mp (by decide)
  · exact mt (safe_running rfl rfl _).mp (by decide)
  · exact mt (safe_running rfl rfl _).mp (by decide)

end TC.Proof.JoinRouter
