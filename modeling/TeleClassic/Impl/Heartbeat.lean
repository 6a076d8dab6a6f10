import TeleClassic.Framework.KeyTree
import TeleClassic.Impl.Protocol

/-!
# The heartbeat manager (`heartbeat.c`)

A service has a salt that each cycle of `heartbeat_worker` replaces, and a
client proves a username to it with the MD5 digest of the salt and the
username. `auth_tree` holds the keys used in the current cycle, so that no key
is used twice.

MD5 is a parameter: any function that gives 32 lower case hexadecimal digits.
The tree (`PTree`) is a `KeyTree` under `tc_string_compare`. Whether an
allocation inside the libraries succeeds is part of a call (`Env`).
-/

namespace TC.Impl.Heartbeat

open TC.Impl.Protocol (maxStrLen)

/-- `TC_HEARTBEAT_SALT_LENGTH`. -/
def saltLength : Nat := 16

abbrev Salt := Vector Byte saltLength

/-- A buffer for one string of the protocol; it need not hold a NUL. -/
abbrev StringBuffer := Vector Byte maxStrLen

/-- A digit of `0` to `9` or `a` to `f`. -/
def IsLowerHex (b : Byte) : Prop := (0x30 ≤ b ∧ b ≤ 0x39) ∨ (0x61 ≤ b ∧ b ≤ 0x66)

/-- What `p_crypto_hash_get_string` gives for MD5. -/
structure HexDigest where
  chars : List Byte
  length : chars.length = 32
  hex : ∀ b ∈ chars, IsLowerHex b

/-- `tc_heartbeat_service_t`, as far as it matters for authentication. -/
structure Service where
  currentSalt : Salt
  dummyService : Bool

/-- `tc_heartbeat_manager_t`; the values in `auth_tree` are indices of services. -/
structure Manager where
  services : List Service
  authTree : KeyTree (List Byte) Nat

/-- `tc_string_compare`, when it is zero. -/
def stringSame (a b : List Byte) : Bool := strncmp a b maxStrLen == 0

def base62Alphabet : List Byte :=
  "0123456789ABCDEFGHIJKLMNOPQRSTUVWXYZabcdefghijklmnopqrstuvwxyz".toList.map fun c => BitVec.ofNat 8 c.toNat

/-- `heartbeat_generate_salt`, with what `rand` returns. -/
def heartbeatGenerateSalt (rand : Nat → Nat) : Salt :=
  Vector.ofFn fun i => base62Alphabet.getD (rand i % 62) 0

/-- One cycle of `heartbeat_worker` on the state that `tc_heartbeat_manager_validate`
reads: a new salt for each service, and an empty tree. -/
def heartbeatCycle (manager : Manager) (rand : Nat → Nat → Nat) : Manager :=
  { services := manager.services.mapIdx fun i service =>
      { service with currentSalt := heartbeatGenerateSalt (rand i) }
    authTree := [] }

/-- Which allocations succeed during a call: that of the hash and that of its
string for each service, and that of a node of the tree. -/
structure Env where
  hashNew : Nat → Bool
  hashString : Nat → Bool
  treeNode : Bool

/-- Nothing fails. -/
def Env.ok : Env := { hashNew := fun _ => true, hashString := fun _ => true, treeNode := true }

section

variable (md5 : List Byte → HexDigest)

/-- The key of a username at a service. -/
def digest (service : Service) (username : List Byte) : HexDigest :=
  md5 (service.currentSalt.toList ++ username)

/-- `p_tree_insert`: without a node nothing is inserted, unless the key is
there already. -/
def treeInsert (env : Env) (tree : KeyTree (List Byte) Nat) (key : List Byte) (value : Nat) :
    KeyTree (List Byte) Nat :=
  if (KeyTree.lookup stringSame tree key).isSome ∨ env.treeNode then
    KeyTree.insert stringSame tree key value
  else tree

/-- The loop of `tc_heartbeat_manager_validate` over the services from the
`i`th on. -/
def validateFrom (env : Env) (manager : Manager) (username : List Byte) (key : StringBuffer) :
    Nat → List Service → Option Nat × Manager
  | _, [] => (none, manager)
  | i, service :: services =>
    if service.dummyService then (some i, manager)
    else if !env.hashNew i then validateFrom env manager username key (i + 1) services
    else if !env.hashString i then validateFrom env manager username key (i + 1) services
    else
      let hex := digest md5 service username
      if strncmp key.toList hex.chars hex.chars.length = 0 then
        (some i, { manager with authTree := treeInsert env manager.authTree hex.chars i })
      else validateFrom env manager username key (i + 1) services

/-- The service returned, or `none` for `NULL`, and the manager afterwards. -/
def tcHeartbeatManagerValidate (env : Env) (manager : Manager)
    (username key : Option StringBuffer) : Option Nat × Manager :=
  match username, key with
  | some username, some key =>
    let usernameLen := strnlen username.toList maxStrLen
    if (KeyTree.lookup stringSame manager.authTree key.toList).isSome then (none, manager)
    else validateFrom md5 env manager (username.toList.take usernameLen) key 0 manager.services
  | _, _ => (none, manager)

/-- A call, as the caller makes it. -/
structure Call where
  username : Option StringBuffer
  key : Option StringBuffer
  env : Env

/-- The text of a username. -/
def nameOf (username : StringBuffer) : List Byte := strn maxStrLen username.toList

/-- The manager, and for each call so far that returned a service the username
and the service. -/
structure History where
  manager : Manager
  returned : List (List Byte × Nat)

/-- One call, with the lock held. -/
def validateStep (h : History) (call : Call) : Option History :=
  let (result, manager) := tcHeartbeatManagerValidate md5 call.env h.manager call.username call.key
  some
    { manager := manager
      returned := match result, call.username with
        | some i, some username => h.returned ++ [(nameOf username, i)]
        | _, _ => h.returned }

end

end TC.Impl.Heartbeat
