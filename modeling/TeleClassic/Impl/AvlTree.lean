import TeleClassic.Framework.LinkedTree
import TeleClassic.Framework.Prog

/-!
# Balanced search trees (`ptree.c`, `ptree-avl.c`)

The tree of plibsys that `auth_tree` of the heartbeat manager is, on its nodes in memory. A
`Prog` that stops has followed `NULL` or a pointer to a node that is freed. Its input is the
comparison of keys. A loop is limited in its number of turns by an argument that is large
enough for every tree.

The left and the right version of each rotation are one function of a side; `balance_factor`
is the height on the left less the height on the right. The functions of `ptree.c` that
the program does not call are left out. `callStep` is a call from outside.
-/

namespace TC.Impl.AvlTree

open TC.LinkedTree
open TC.Prog

/-- What a node holds besides its pointers. -/
structure TreeCell (K V : Type) where
  key : K
  value : V
  balanceFactor : Int

/-- `PTree`, and what it does to the memory. -/
structure PTree (K V : Type) where
  root : Ptr
  nodes : Memory (TreeCell K V)
  nnodes : BitVec 32
  /-- The number of nodes that were allocated; the next one has this address. -/
  made : Nat
  /-- The keys that `key_destroy_func` was called for. -/
  destroyed : List K

variable {K V : Type}

/-- A tree that `p_tree_new_full` returns. -/
def PTree.new : PTree K V := ⟨none, fun _ => none, 0, 0, []⟩

/-- Programs on a tree, with `compare_func`. -/
abbrev TreeM (K V α : Type) := Prog (K → K → Int) (PTree K V) α

/-- A read of the node at a pointer. -/
def nodeAt (p : Ptr) : TreeM K V (Node (TreeCell K V)) := fun _ s =>
  match p.bind s.nodes with
  | some n => (some n, s)
  | none => (none, s)

/-- The tree with another node at an address. -/
def PTree.put (s : PTree K V) (a : Nat) (n : Node (TreeCell K V)) : PTree K V :=
  { s with nodes := Function.update s.nodes a (some n) }

/-- A write to the node at a pointer. -/
def modifyAt (p : Ptr) (f : Node (TreeCell K V) → Node (TreeCell K V)) : TreeM K V Unit := fun _ s =>
  match p with
  | some a =>
    match s.nodes a with
    | some n => (some (), s.put a (f n))
    | none => (none, s)
  | none => (none, s)

/-- `*root = node`. -/
def setRoot (p : Ptr) : TreeM K V Unit := Prog.modify ({ · with root := p })

def setBalance (v : Int) (n : Node (TreeCell K V)) : Node (TreeCell K V) := n.setCell { n.cell with balanceFactor := v }

/-! ## Rotations -/

/-- `if (child != NULL) child->parent = parent;` -/
def adopt (child parent : Ptr) : TreeM K V Unit :=
  if child ≠ none then modifyAt child (Node.setParent parent) else pure ()

/-- `node` in place of the child `old` of its parent, or as the root. -/
def replaceChild (node old : Ptr) : TreeM K V Unit := do
  let n ← nodeAt node
  if n.parent ≠ none then
    let p ← nodeAt n.parent
    if p.left = old then modifyAt n.parent (Node.setChild .left node)
    else modifyAt n.parent (Node.setChild .right node)
  else setRoot node

/-- The rotation to the side `d` of a node that is on the other side of its parent. -/
def rotate (d : Side) (node : Ptr) : TreeM K V Unit := do
  let n ← nodeAt node
  modifyAt n.parent (Node.setChild d.other (n.child d))
  let n ← nodeAt node
  adopt (n.child d) n.parent
  let n ← nodeAt node
  modifyAt node (Node.setChild d n.parent)
  let n ← nodeAt node
  let p ← nodeAt (n.child d)
  modifyAt node (Node.setParent p.parent)
  let n ← nodeAt node
  modifyAt (n.child d) (Node.setParent node)
  let n ← nodeAt node
  replaceChild node (n.child d)
  -- restore the balance factors
  let n ← nodeAt node
  modifyAt node (setBalance (n.cell.balanceFactor + d.sign))
  let n ← nodeAt node
  modifyAt (n.child d) (setBalance (-n.cell.balanceFactor))

def ppTreeAvlRotateLeft (node : Ptr) : TreeM K V Unit := rotate .left node

def ppTreeAvlRotateRight (node : Ptr) : TreeM K V Unit := rotate .right node

/-- The balance factors of the left and of the right child after a double rotation, by that
of `tmp_node`. -/
def restored (balance : Int) : Int × Int :=
  if balance = 1 then (0, -1) else if balance = -1 then (1, 0) else (0, 0)

/-- The last part of both double rotations. -/
def restoreBalance (tmpNode : Ptr) : TreeM K V Unit := do
  let t ← nodeAt tmpNode
  modifyAt t.left (setBalance (restored t.cell.balanceFactor).1)
  modifyAt t.right (setBalance (restored t.cell.balanceFactor).2)
  modifyAt tmpNode (setBalance 0)

/-- The double rotation of a node that is on the side `d` of its parent: first to the side
`d`, then to the other one. -/
def doubleRotate (d : Side) (node : Ptr) : TreeM K V Unit := do
  let n ← nodeAt node
  let tmpNode := n.child d.other
  let t ← nodeAt tmpNode
  modifyAt node (Node.setChild d.other (t.child d))
  let n ← nodeAt node
  adopt (n.child d.other) node
  let n ← nodeAt node
  let p ← nodeAt n.parent
  modifyAt tmpNode (Node.setParent p.parent)
  let n ← nodeAt node
  replaceChild tmpNode n.parent
  let n ← nodeAt node
  let t ← nodeAt tmpNode
  modifyAt n.parent (Node.setChild d (t.child d.other))
  let n ← nodeAt node
  let p ← nodeAt n.parent
  adopt (p.child d) n.parent
  let n ← nodeAt node
  modifyAt tmpNode (Node.setChild d.other n.parent)
  let t ← nodeAt tmpNode
  modifyAt (t.child d.other) (Node.setParent tmpNode)
  modifyAt tmpNode (Node.setChild d node)
  modifyAt node (Node.setParent tmpNode)
  restoreBalance tmpNode

def ppTreeAvlRotateLeftRight (node : Ptr) : TreeM K V Unit := doubleRotate .left node

def ppTreeAvlRotateRightLeft (node : Ptr) : TreeM K V Unit := doubleRotate .right node

/-! ## Insertion -/

/-- `pp_tree_avl_balance_insert`. -/
def ppTreeAvlBalanceInsert : Nat → Ptr → TreeM K V Unit
  | 0, _ => Prog.stop
  | fuel + 1, node => do
    let n ← nodeAt node
    let parent := n.parent
    if parent = none then return
    else
      let p ← nodeAt parent
      if p.left = node then
        if p.cell.balanceFactor = 1 then
          if n.cell.balanceFactor = -1 then ppTreeAvlRotateLeftRight node else ppTreeAvlRotateRight node
        else if p.cell.balanceFactor = -1 then modifyAt parent (setBalance 0)
        else
          modifyAt parent (setBalance 1)
          ppTreeAvlBalanceInsert fuel parent
      else
        if p.cell.balanceFactor = -1 then
          if n.cell.balanceFactor = 1 then ppTreeAvlRotateRightLeft node else ppTreeAvlRotateLeft node
        else if p.cell.balanceFactor = 1 then modifyAt parent (setBalance 0)
        else
          modifyAt parent (setBalance (-1))
          ppTreeAvlBalanceInsert fuel parent

/-- Where a pointer to a node is: `PTreeBaseNode **`. -/
inductive Link where
  | root
  | child (a : Nat) (d : Side)

def readLink : Link → TreeM K V Ptr
  | .root => do return (← Prog.get).root
  | .child a d => do return (← nodeAt (some a)).child d

def writeLink (l : Link) (v : Ptr) : TreeM K V Unit :=
  match l with
  | .root => setRoot v
  | .child a d => modifyAt (some a) (Node.setChild d v)

/-- The loop that finds where to insert: `cur_node`, what is there, and `parent_node`. -/
def findLink (key : K) : Nat → Link → Ptr → TreeM K V (Link × Ptr × Ptr)
  | 0, _, _ => Prog.stop
  | fuel + 1, curNode, parentNode => do
    match ← readLink curNode with
    | none => return (curNode, none, parentNode)
    | some a =>
      let n ← nodeAt (some a)
      let cmpResult := (← Prog.ask) key n.cell.key
      if cmpResult < 0 then findLink key fuel (.child a .left) (some a)
      else if cmpResult > 0 then findLink key fuel (.child a .right) (some a)
      else return (curNode, some a, parentNode)

/-- `p_tree_avl_insert`; whether `p_malloc0` succeeds is given. -/
def pTreeAvlInsert (malloc : Bool) (key : K) (value : V) : TreeM K V Bool := do
  let made := (← Prog.get).made
  let (curNode, found, parentNode) ← findLink key (made + 1) .root (← Prog.get).root
  match found with
  | some a =>
    let n ← nodeAt (some a)
    -- `key_destroy_func`
    Prog.modify fun s => { s with destroyed := s.destroyed ++ [n.cell.key] }
    modifyAt (some a) fun n => n.setCell { n.cell with key := key, value := value }
    return false
  | none =>
    if !malloc then
      writeLink curNode none
      return false
    else
      Prog.modify fun s => { (s.put made ⟨⟨key, value, 0⟩, none, none, parentNode⟩) with made := made + 1 }
      writeLink curNode (some made)
      ppTreeAvlBalanceInsert (made + 1) (some made)
      return true

def pTreeInsert (malloc : Bool) (key : K) (value : V) : TreeM K V Unit := do
  if ← pTreeAvlInsert malloc key value then Prog.modify fun s => { s with nnodes := s.nnodes + 1 }

/-! ## Lookup -/

/-- The loop of `p_tree_lookup`. -/
def lookupFrom (key : K) : Nat → Ptr → TreeM K V (Option V)
  | 0, _ => Prog.stop
  | fuel + 1, curNode => do
    if curNode = none then return none
    else
      let n ← nodeAt curNode
      let cmpResult := (← Prog.ask) key n.cell.key
      if cmpResult < 0 then lookupFrom key fuel n.left
      else if cmpResult > 0 then lookupFrom key fuel n.right
      else return some n.cell.value

def pTreeLookup (key : K) : TreeM K V (Option V) := do
  let s ← Prog.get
  lookupFrom key (s.made + 1) s.root

/-! ## Clearing -/

/-- The inner loop of `p_tree_clear`: the last node to the right. -/
def rightmost : Nat → Ptr → TreeM K V Ptr
  | 0, _ => Prog.stop
  | fuel + 1, prevNode => do
    let n ← nodeAt prevNode
    if n.right ≠ none then rightmost fuel n.right else return prevNode

/-- `key_destroy_func` and `free_node_func`. -/
def freeNode (p : Ptr) : TreeM K V Unit := do
  let n ← nodeAt p
  Prog.modify fun s =>
    { s with
      destroyed := s.destroyed ++ [n.cell.key]
      nodes := fun a => if p = some a then none else s.nodes a
      nnodes := s.nnodes - 1 }

/-- The loop of `p_tree_clear`. -/
def clearFrom : Nat → Ptr → TreeM K V Unit
  | 0, _ => Prog.stop
  | fuel + 1, curNode => do
    if curNode = none then return
    else
      let n ← nodeAt curNode
      if n.left = none then
        freeNode curNode
        clearFrom fuel n.right
      else
        let prevNode ← rightmost ((← Prog.get).made + 1) n.left
        modifyAt prevNode (Node.setChild .right curNode)
        let nextNode := (← nodeAt curNode).left
        modifyAt curNode (Node.setChild .left none)
        clearFrom fuel nextNode

def pTreeClear : TreeM K V Unit := do
  let s ← Prog.get
  if s.root = none then return
  else
    clearFrom (2 * s.made + 1) s.root
    setRoot none

/-! ## Calls -/

/-- A call on a tree; whether an insertion gets memory is part of it. -/
inductive Call (K V : Type) where
  | insert (malloc : Bool) (key : K) (value : V)
  | lookup (key : K)
  | clear

/-- A tree, and what the lookups returned so far. -/
structure Use (K V : Type) where
  tree : PTree K V
  found : List (Option V)

/-- What a program leaves, if it does not stop. -/
def Use.after {α : Type} (u : Use K V) (cmp : K → K → Int) (p : TreeM K V α) (found : α → List (Option V)) :
    Option (Use K V) :=
  match p cmp u.tree with
  | (some a, tree) => some { tree := tree, found := u.found ++ found a }
  | (none, _) => none

def callStep (cmp : K → K → Int) (u : Use K V) : Call K V → Option (Use K V)
  | .insert malloc key value => u.after cmp (pTreeInsert malloc key value) fun _ => []
  | .lookup key => u.after cmp (pTreeLookup key) fun value => [value]
  | .clear => u.after cmp pTreeClear fun _ => []

end TC.Impl.AvlTree
