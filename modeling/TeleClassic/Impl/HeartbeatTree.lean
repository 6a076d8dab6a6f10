import TeleClassic.Impl.AvlTree
import TeleClassic.Impl.Heartbeat

/-!
# The heartbeat manager on its tree (`heartbeat.c`)

`tc_heartbeat_manager_validate` and a cycle of `heartbeat_worker`, with `auth_tree` as the
nodes that plibsys has in memory. The calls happen one after the other, as each holds the
lock of the manager.
-/

namespace TC.Impl.HeartbeatTree

open TC.Impl.AvlTree (PTree TreeM pTreeInsert pTreeLookup pTreeClear)
open TC.Impl.Heartbeat (Service StringBuffer HexDigest Env Call digest heartbeatGenerateSalt)
open TC.Impl.Protocol (maxStrLen)

def tcStringCompare (str1 str2 : List Byte) : Int := strncmp str1 str2 maxStrLen

/-- Programs on `auth_tree`, whose values are indices of services. -/
abbrev AuthM (α : Type) := TreeM (List Byte) Nat α

section

variable (md5 : List Byte → HexDigest)

/-- The loop of `tc_heartbeat_manager_validate` over the services from the `i`th on. -/
def validateFrom (env : Env) (username : List Byte) (key : StringBuffer) : Nat → List Service → AuthM (Option Nat)
  | _, [] => return none
  | i, service :: services => do
    if service.dummyService then return some i
    else if !env.hashNew i then validateFrom env username key (i + 1) services
    else if !env.hashString i then validateFrom env username key (i + 1) services
    else
      let hex := digest md5 service username
      if strncmp key.toList hex.chars hex.chars.length = 0 then
        pTreeInsert env.treeNode hex.chars i
        return some i
      else validateFrom env username key (i + 1) services

/-- The service returned, or `none` for `NULL`. -/
def tcHeartbeatManagerValidate (env : Env) (services : List Service) (username key : Option StringBuffer) :
    AuthM (Option Nat) :=
  match username, key with
  | some username, some key => do
    let usernameLen := strnlen username.toList maxStrLen
    if (← pTreeLookup key.toList).isSome then return none
    else validateFrom md5 env (username.toList.take usernameLen) key 0 services
  | _, _ => return none

/-- What happens to the manager, with the lock held. -/
inductive Event where
  | validate (call : Call)
  /-- A cycle, with what `rand` returns for each service. -/
  | cycle (rand : Nat → Nat → Nat)

/-- The manager, and what its calls returned so far. -/
structure TreeManager where
  services : List Service
  authTree : PTree (List Byte) Nat
  returned : List (Option Nat)

/-- `none` if the call or the cycle follows a pointer to no node. -/
def treeStep (m : TreeManager) : Event → Option TreeManager
  | .validate call =>
    match tcHeartbeatManagerValidate md5 call.env m.services call.username call.key tcStringCompare m.authTree with
    | (some result, tree) => some { m with authTree := tree, returned := m.returned ++ [result] }
    | (none, _) => none
  | .cycle rand =>
    match pTreeClear tcStringCompare m.authTree with
    | (some (), tree) =>
      some { m with
        services := m.services.mapIdx fun i service => { service with currentSalt := heartbeatGenerateSalt (rand i) }
        authTree := tree }
    | (none, _) => none

end

end TC.Impl.HeartbeatTree
