/-!
# The join router (`joinable.c`)

The joinables of a server, looked up by name. Their list does not change; what
does is whether the router is stopped, and who holds its lock. A lock that cannot
be taken has no result: the call waits. Strings are compared as `strcmp` does.

Of a joinable only its address and its name are kept; `freed` is a ghost, the
joinables that `stop_joinable` was called on.
-/

namespace TC.Impl.JoinRouter

/-- `tc_joinable_interface_t`. -/
structure Joinable where
  pointer : Nat
  name : String
deriving DecidableEq, Repr

/-- `PRWLock`. -/
structure RwLock where
  readers : Nat
  writer : Bool
deriving DecidableEq, Repr

/-- `tc_join_router_t`. -/
structure Router where
  joinables : List Joinable
  lock : RwLock
  defaultJoinable : Option Joinable
  stopped : Bool
  freed : List Joinable
deriving DecidableEq, Repr

/-! ## The lock -/

def RwLock.free : RwLock := { readers := 0, writer := false }

/-- `p_rwlock_reader_lock`. -/
def Router.readerLock (router : Router) : Option Router :=
  if router.lock.writer then none
  else some { router with lock := { router.lock with readers := router.lock.readers + 1 } }

/-- `p_rwlock_reader_unlock`. -/
def Router.readerUnlock (router : Router) : Router :=
  { router with lock := { router.lock with readers := router.lock.readers - 1 } }

/-- `p_rwlock_writer_lock`. -/
def Router.writerLock (router : Router) : Option Router :=
  if router.lock.writer ∨ router.lock.readers ≠ 0 then none
  else some { router with lock := { router.lock with writer := true } }

/-- `p_rwlock_writer_unlock`. -/
def Router.writerUnlock (router : Router) : Router :=
  { router with lock := { router.lock with writer := false } }

/-! ## Lookups and stops -/

/-- What `best_match` is after another joinable. -/
def findJoinableCallback (address : String) (bestMatch : Option Joinable) (joinable : Joinable) : Option Joinable :=
  if bestMatch.isSome then bestMatch
  else if joinable.name = address then some joinable
  else bestMatch

/-- `address == NULL`, `"default"` or `""`. -/
def isDefaultAddress (address : Option String) : Bool :=
  address = none ∨ address = some "default" ∨ address = some ""

def tcFindJoinable (router : Router) (address : Option String) : Option (Option Joinable × Router) :=
  if isDefaultAddress address then some (router.defaultJoinable, router)
  else
    router.readerLock.map fun router =>
      if router.stopped then (none, router)
      else (router.joinables.foldl (findJoinableCallback (address.getD "")) none, router.readerUnlock)

def stopJoinable (router : Router) (joinable : Joinable) : Router :=
  { router with freed := router.freed ++ [joinable] }

def tcJoinRouterStopAll (router : Router) : Option Router :=
  router.writerLock.map fun router =>
    if router.stopped then router
    else (router.joinables.foldl stopJoinable { router with stopped := true }).writerUnlock

/-- `lock` says whether `p_rwlock_new` succeeds; `none` is `return FALSE`. -/
def tcJoinRouterInit (joinables : List Joinable) (defaultJoinableName : Option String) (lock : Bool) : Option Router :=
  let router : Router :=
    { joinables, lock := RwLock.free, stopped := false, defaultJoinable := none, freed := [] }
  if !lock then none
  else
    (tcFindJoinable router defaultJoinableName).map fun found =>
      { found.2 with defaultJoinable := found.1 }

/-- The calls of `tc_join_router_finalize` before the list and the lock are freed. -/
def tcJoinRouterFinalize (router : Router) : Option Router :=
  if !router.stopped then tcJoinRouterStopAll router else some router

/-! ## Sequences of calls -/

inductive Call where
  | find (address : Option String)
  | stopAll
deriving DecidableEq, Repr

/-- What a call returns, and the router afterwards. -/
def Router.call (router : Router) : Call → Option (Option Joinable × Router)
  | .find address => tcFindJoinable router address
  | .stopAll => (tcJoinRouterStopAll router).map fun router => (none, router)

end TC.Impl.JoinRouter
