import TeleClassic.Impl.BacklogChain
import TeleClassic.Proof.Backlog

/-!
# The blocks of a backlog refine a list

A backlog in memory is a chain of blocks (`Holds`), and a push on it is one on
the list of these blocks (`push_cases`): it fails where that one fails, with
everything left as it was, and no assertion fails and no access is wrong. From
the list of blocks, of which all but the last are full (`Filled`), it is one step
to the list of entries, so that after every sequence of pushes the chain in
memory stands for the entries whose push returned `TRUE` (`backlog_is_list`). On
requests this is the push of `TaskBacklog.lean` (`push_requests`).
-/

namespace TC.Proof.Backlog

open TC.SinglyLinked
open TC.Impl
open TC.Impl.TaskBacklog (bufferSize)
open TC.Impl.BacklogBlocks (Entry Slots Block)
open TC.Impl.BacklogChain

variable {backlog : BacklogChain.Backlog} {cells : List (Nat × Block)}

/-! ## Pushing to a list of blocks -/

/-- All blocks but the last are full, and the last is not empty. -/
def Filled (blocks : List Block) : Prop :=
  ∀ front last, blocks = front ++ [last] →
    (∀ block ∈ front, block.count = bufferSize) ∧ 1 ≤ last.count ∧ last.count ≤ bufferSize

theorem filled_nil : Filled [] := fun _ _ h =>
  absurd h.symm (List.append_ne_nil_of_right_ne_nil _ (List.cons_ne_nil _ _))

theorem filled_append {front : List Block} {last : Block} :
    Filled (front ++ [last]) ↔ (∀ block ∈ front, block.count = bufferSize) ∧ 1 ≤ last.count := by
  constructor
  · intro h
    exact ⟨(h front last rfl).1, (h front last rfl).2.1⟩
  · intro h front' last' heq
    obtain ⟨rfl, hlast⟩ := List.append_inj' heq rfl
    obtain rfl := List.singleton_inj.mp hlast
    exact ⟨h.1, h.2, last.count_le⟩

/-- A push writes to the last block, or to a new one after it. -/
theorem push_append (entry : Entry) (memory : Option Slots) (front : List Block) (last : Block) :
    BacklogBlocks.tcTaskBacklogPush entry memory (front ++ [last]) =
      if h : last.count < bufferSize then some (front ++ [last.put entry h])
      else memory.map fun entries => front ++ [last] ++ [Block.first entries entry] := by
  induction front with
  | nil => rfl
  | cons block front ih =>
    have hcons : ∃ next blocks, front ++ [last] = next :: blocks := List.exists_cons_of_ne_nil (by simp)
    obtain ⟨next, blocks, hnext⟩ := hcons
    rw [List.cons_append, hnext, BacklogBlocks.tcTaskBacklogPush, ← hnext, ih]
    split
    · rfl
    · rw [Option.map_map]
      rfl

theorem Filled.push {entry : Entry} {memory : Option Slots} {blocks blocks' : List Block} (h : Filled blocks)
    (hpush : BacklogBlocks.tcTaskBacklogPush entry memory blocks = some blocks') : Filled blocks' := by
  rcases List.eq_nil_or_concat blocks with rfl | ⟨front, last, rfl⟩
  · obtain ⟨entries, -, rfl⟩ := Option.map_eq_some_iff.mp hpush
    show Filled ([] ++ [Block.first entries entry])
    exact filled_append.mpr ⟨by simp, Nat.le_refl 1⟩
  · rw [List.concat_eq_append] at h hpush
    obtain ⟨hfront, hlast⟩ := filled_append.mp h
    rw [push_append] at hpush
    split at hpush
    · obtain rfl := Option.some.inj hpush
      exact filled_append.mpr ⟨hfront, Nat.le_add_left 1 _⟩
    · rename_i hfull
      obtain ⟨entries, -, rfl⟩ := Option.map_eq_some_iff.mp hpush
      refine filled_append.mpr ⟨?_, Nat.le_refl 1⟩
      intro block hblock
      rcases List.mem_append.mp hblock with hblock | hblock
      · exact hfront block hblock
      · obtain rfl := List.mem_singleton.mp hblock
        exact Nat.le_antisymm block.count_le (Nat.not_lt.mp hfull)

/-! ## Pushing to the chain -/

def chainOf (backlog : BacklogChain.Backlog) : Chain Nat Block :=
  ⟨backlog.blocks, backlog.headBlock, backlog.tailBlock⟩

/-- The blocks in memory are those of `cells`, each with its address. -/
structure Holds (backlog : BacklogChain.Backlog) (cells : List (Nat × Block)) : Prop where
  chain : (chainOf backlog).Holds cells
  made : ∀ a ∈ cells.map Prod.fst, a < backlog.made

section Push

variable {a : Nat} {last : Block}

theorem Holds.link (h : Holds backlog (cells ++ [(a, last)])) :
    backlog.tailBlock = some a ∧ backlog.blocks a = some ⟨last, none⟩ :=
  ⟨h.chain.tail_append, h.chain.last.2⟩

theorem Holds.head (h : Holds backlog (cells ++ [(a, last)])) : backlog.headBlock.isNone = false := by
  rw [← Bool.not_eq_true, Option.isNone_iff_eq_none]
  exact fun hnone => List.append_ne_nil_of_right_ne_nil _ (List.cons_ne_nil _ _) (h.chain.head_eq_none.mp hnone)

theorem Holds.fresh (h : Holds backlog cells) : backlog.made ∉ cells.map Prod.fst :=
  fun hmem => Nat.lt_irrefl _ (h.made _ hmem)

theorem firstBlock_nil (h : Holds backlog []) : firstBlock backlog none = some (false, backlog) ∧
    ∀ entries, ∃ backlog', firstBlock backlog (some entries) = some (true, backlog') ∧
      Holds backlog' [(backlog.made, emptyBlock entries)] := by
  have hhead : backlog.headBlock = none := h.chain.head_eq_none.mpr rfl
  have htail : backlog.tailBlock = none := h.chain.tail_eq_none.mpr rfl
  constructor
  · simp [firstBlock, hhead, htail, tcTaskBacklogBlockNew]
  · intro entries
    let link : Link Nat Block := ⟨emptyBlock entries, none⟩
    refine ⟨⟨some backlog.made, some backlog.made, Function.update backlog.blocks backlog.made (some link),
      backlog.made + 1⟩, ?_, Chain.Holds.first _ _ _, by simp⟩
    simp [firstBlock, hhead, htail, tcTaskBacklogBlockNew, link]

theorem firstBlock_append (h : Holds backlog (cells ++ [(a, last)])) (memory : Option Slots) :
    firstBlock backlog memory = some (true, backlog) := by
  simp [firstBlock, h.head]

theorem nextBlock_room (h : Holds backlog (cells ++ [(a, last)])) (hroom : last.count < bufferSize)
    (memory : Option Slots) : nextBlock backlog memory = some (true, backlog) := by
  obtain ⟨htail, hlast⟩ := h.link
  simp only [nextBlock, htail, hlast, Option.bind_some]
  rw [if_neg (Nat.ne_of_lt hroom)]

theorem nextBlock_full (h : Holds backlog (cells ++ [(a, last)])) (hfull : ¬ last.count < bufferSize) :
    nextBlock backlog none = some (false, backlog) ∧
    ∀ entries, ∃ backlog', nextBlock backlog (some entries) = some (true, backlog') ∧
      Holds backlog' (cells ++ [(a, last)] ++ [(backlog.made, emptyBlock entries)]) := by
  obtain ⟨htail, hlast⟩ := h.link
  have hcount : last.count = bufferSize := Nat.le_antisymm last.count_le (Nat.not_lt.mp hfull)
  constructor
  · simp [nextBlock, htail, hlast, hcount, tcTaskBacklogBlockNew]
  · intro entries
    let links := Function.update (Function.update backlog.blocks backlog.made (some ⟨emptyBlock entries, none⟩)) a
      (some ⟨last, some backlog.made⟩)
    refine ⟨⟨backlog.headBlock, some backlog.made, links, backlog.made + 1⟩, ?_,
      h.chain.append h.fresh (emptyBlock entries), ?_⟩
    · have ha : a ≠ backlog.made := fun ha => h.fresh (by simp [ha])
      simp [nextBlock, htail, hlast, hcount, tcTaskBacklogBlockNew, Backlog.setNextBlock, ha, links]
    · intro b hb
      rw [List.map_append, List.mem_append] at hb
      rcases hb with hb | hb
      · exact Nat.lt_succ_of_lt (h.made b hb)
      · obtain rfl := List.mem_singleton.mp hb
        exact Nat.lt_succ_self _

theorem putEntry_eq (h : Holds backlog (cells ++ [(a, last)])) (entry : Entry) (hroom : last.count < bufferSize) :
    ∃ backlog', putEntry backlog entry = some backlog' ∧ Holds backlog' (cells ++ [(a, last.put entry hroom)]) := by
  obtain ⟨htail, hlast⟩ := h.link
  let links := Function.update backlog.blocks a (some ⟨last.put entry hroom, none⟩)
  refine ⟨{ backlog with blocks := links }, ?_, h.chain.setLast (last.put entry hroom), ?_⟩
  · simp [putEntry, htail, hlast, hroom, links]
  · intro b hb
    refine h.made b ?_
    rw [List.map_append] at hb ⊢
    exact hb

end Push

/-- The last step of a push for which there is room. -/
theorem push_put {backlog₁ backlog₂ : BacklogChain.Backlog} {memory memory' : Option Slots} {a : Nat}
    {last : Block} (hfirst : firstBlock backlog memory = some (true, backlog₁))
    (hnext : nextBlock backlog₁ memory' = some (true, backlog₂)) (h : Holds backlog₂ (cells ++ [(a, last)]))
    (entry : Entry) (hroom : last.count < bufferSize) :
    ∃ backlog', tcTaskBacklogPush backlog entry memory memory' = some (true, backlog') ∧
      Holds backlog' (cells ++ [(a, last.put entry hroom)]) := by
  obtain ⟨backlog', hput, h'⟩ := putEntry_eq h entry hroom
  exact ⟨backlog', by simp [tcTaskBacklogPush, hfirst, hnext, hput], h'⟩

/-- A push in memory is one on the list of blocks: if it fails, nothing has changed. -/
theorem push_cases (h : Holds backlog cells) (entry : Entry) (memory memory' : Option Slots) :
    (tcTaskBacklogPush backlog entry memory memory' = some (false, backlog) ∧
      BacklogBlocks.tcTaskBacklogPush entry (if cells.isEmpty then memory else memory') (cells.map Prod.snd) = none) ∨
    ∃ backlog' cells', tcTaskBacklogPush backlog entry memory memory' = some (true, backlog') ∧
      Holds backlog' cells' ∧
      BacklogBlocks.tcTaskBacklogPush entry (if cells.isEmpty then memory else memory') (cells.map Prod.snd) =
        some (cells'.map Prod.snd) := by
  rcases List.eq_nil_or_concat cells with rfl | ⟨front, ⟨a, last⟩, rfl⟩
  · obtain ⟨hnone, hsome⟩ := firstBlock_nil h
    cases memory with
    | none => exact .inl ⟨by simp [tcTaskBacklogPush, hnone], rfl⟩
    | some entries =>
      obtain ⟨backlog₁, hfirst, hone⟩ := hsome entries
      have h₁ : Holds backlog₁ ([] ++ [(backlog.made, emptyBlock entries)]) := hone
      have hnext := nextBlock_room h₁ BacklogBlocks.bufferSize_pos memory'
      obtain ⟨backlog', hpush, h'⟩ := push_put hfirst hnext h₁ entry BacklogBlocks.bufferSize_pos
      exact .inr ⟨backlog', _, hpush, h', rfl⟩
  · rw [List.concat_eq_append] at h ⊢
    have hfirst := firstBlock_append h memory
    rw [if_neg (by simp), List.map_append, List.map_singleton, push_append]
    by_cases hroom : last.count < bufferSize
    · obtain ⟨backlog', hpush, h'⟩ := push_put hfirst (nextBlock_room h hroom memory') h entry hroom
      refine .inr ⟨backlog', _, hpush, h', ?_⟩
      rw [dif_pos hroom, List.map_append, List.map_singleton]
    · obtain ⟨hnone, hsome⟩ := nextBlock_full h hroom
      rw [dif_neg hroom]
      cases memory' with
      | none => exact .inl ⟨by simp [tcTaskBacklogPush, hfirst, hnone], rfl⟩
      | some entries =>
        obtain ⟨backlog₂, hnext, h₂⟩ := hsome entries
        obtain ⟨backlog', hpush, h'⟩ := push_put hfirst hnext h₂ entry BacklogBlocks.bufferSize_pos
        refine .inr ⟨backlog', _, hpush, h', ?_⟩
        simp only [Option.map_some, List.map_append, List.map_singleton]
        rfl

/-! ## Every sequence of pushes -/

/-- A push, and what `p_malloc` gives in it. -/
structure ChainPush where
  entry : Entry
  memory : Option Slots
  memory' : Option Slots

/-- A backlog, with the entries whose push returned `TRUE`. -/
structure ChainHistory where
  backlog : BacklogChain.Backlog
  accepted : List Entry

def ChainHistory.push (s : ChainHistory) (p : ChainPush) : Option ChainHistory :=
  (tcTaskBacklogPush s.backlog p.entry p.memory p.memory').map fun result =>
    ⟨result.2, if result.1 then s.accepted ++ [p.entry] else s.accepted⟩

def ChainHistory.start : ChainHistory := ⟨tcTaskBacklogInitialize, []⟩

/-- The blocks that are found from `head_block` on, with their addresses. -/
def blocksOf (backlog : BacklogChain.Backlog) : List (Nat × Block) :=
  walk backlog.blocks backlog.made backlog.headBlock

theorem Holds.blocksOf (h : Holds backlog cells) : blocksOf backlog = cells := by
  refine h.chain.path.walk ?_
  have hsub : cells.map Prod.fst ⊆ List.range backlog.made := fun a ha => List.mem_range.mpr (h.made a ha)
  have hle := (h.chain.nodup.subperm hsub).length_le
  rwa [List.length_map, List.length_range] at hle

/-- The backlog in memory is the list of the entries `accepted`. -/
structure IsList (backlog : BacklogChain.Backlog) (accepted : List Entry) : Prop where
  null_iff : backlog.headBlock = none ↔ backlog.tailBlock = none
  /-- The blocks found are all of the chain: it ends after them. -/
  path : Path backlog.blocks backlog.headBlock (blocksOf backlog) none
  tail_last : backlog.tailBlock = (blocksOf backlog).getLast?.map Prod.fst
  filled : Filled ((blocksOf backlog).map Prod.snd)
  entries : contents ((blocksOf backlog).map Prod.snd) = accepted
  unchanged : ∀ entry memory memory' backlog',
    tcTaskBacklogPush backlog entry memory memory' = some (false, backlog') → backlog' = backlog

/-- What a push keeps: the blocks hold the entries accepted so far. -/
def Keeping (s : ChainHistory) : Prop :=
  ∃ cells, Holds s.backlog cells ∧ Filled (cells.map Prod.snd) ∧ contents (cells.map Prod.snd) = s.accepted

theorem keeping_start : Keeping .start :=
  ⟨[], ⟨Chain.holds_nil _, by simp⟩, filled_nil, rfl⟩

theorem Keeping.push {s : ChainHistory} (h : Keeping s) (p : ChainPush) :
    ∃ s', s.push p = some s' ∧ Keeping s' := by
  obtain ⟨cells, hholds, hfilled, hcontents⟩ := h
  rcases push_cases hholds p.entry p.memory p.memory' with ⟨hpush, -⟩ | ⟨backlog', cells', hpush, hholds', hlist⟩
  · refine ⟨s, ?_, cells, hholds, hfilled, hcontents⟩
    rw [ChainHistory.push, hpush]
    rfl
  · refine ⟨⟨backlog', s.accepted ++ [p.entry]⟩, ?_, cells', hholds', hfilled.push hlist, ?_⟩
    · rw [ChainHistory.push, hpush]
      rfl
    · rw [contents_push hlist, hcontents]

theorem Keeping.isList {s : ChainHistory} (h : Keeping s) : IsList s.backlog s.accepted := by
  obtain ⟨cells, hholds, hfilled, hcontents⟩ := h
  obtain rfl := hholds.blocksOf
  refine ⟨hholds.chain.head_eq_none.trans hholds.chain.tail_eq_none.symm, hholds.chain.path, hholds.chain.tail,
    hfilled, hcontents, ?_⟩
  intro entry memory memory' backlog' hpush
  rcases push_cases hholds entry memory memory' with ⟨hpush', -⟩ | ⟨_, _, hpush', -⟩
  · rw [hpush'] at hpush
    exact (congrArg Prod.snd (Option.some.inj hpush)).symm
  · rw [hpush'] at hpush
    exact absurd (congrArg Prod.fst (Option.some.inj hpush)) Bool.true_eq_false.mp

/-- Whatever is pushed and whichever allocations fail, a backlog is a list of the
entries whose push returned `TRUE`. -/
theorem backlog_is_list (pushes : List ChainPush) : ∃ s,
    run ChainHistory.push .start pushes = some s ∧ IsList s.backlog s.accepted := by
  obtain ⟨s, hrun, hs⟩ := run_total (fun _ p h => Keeping.push h p) keeping_start pushes
  exact ⟨s, hrun, hs.isList⟩

/-! ## On requests -/

theorem requests_append (i : Nat) (es : List Entry) (e : Entry) :
    requests i (es ++ [e]) = requests i es ++ [⟨i + es.length, e.priority⟩] := by
  induction es generalizing i with
  | nil => rfl
  | cons e' es ih =>
    rw [List.cons_append, requests, requests, ih, List.length_cons, Nat.add_assoc, Nat.add_comm 1, List.cons_append]

theorem length_requests (i : Nat) (es : List Entry) : (requests i es).length = es.length := by
  induction es generalizing i with
  | nil => rfl
  | cons e es ih => rw [requests, List.length_cons, ih, List.length_cons]

theorem length_contents_full {front : List Block} (h : ∀ block ∈ front, block.count = bufferSize) :
    (contents front).length = front.length * bufferSize := by
  induction front with
  | nil => rfl
  | cons block front ih =>
    rw [List.forall_mem_cons] at h
    rw [contents_cons, List.length_append, ih h.2, length_blockContents, h.1, List.length_cons, Nat.succ_mul,
      Nat.add_comm]

/-- On the requests that stand for the entries, a push is that of `TaskBacklog.lean`. -/
theorem push_requests {blocks : List Block} (h : Filled blocks) (entry : Entry) (memory : Option Slots) :
    (BacklogBlocks.tcTaskBacklogPush entry memory blocks).map (fun blocks' => requests 0 (contents blocks')) =
      TaskBacklog.tcTaskBacklogPush (requests 0 (contents blocks)) ⟨(contents blocks).length, entry.priority⟩
        memory.isSome := by
  have hsome {blocks' : List Block} (hpush : BacklogBlocks.tcTaskBacklogPush entry memory blocks = some blocks') :
      requests 0 (contents blocks') =
        requests 0 (contents blocks) ++ [⟨(contents blocks).length, entry.priority⟩] := by
    rw [contents_push hpush, requests_append, Nat.zero_add]
  -- a block is needed where the number of entries is a multiple of the size of one
  have hneeded : BacklogBlocks.tcTaskBacklogPush entry memory blocks = none ↔
      (contents blocks).length % bufferSize = 0 ∧ memory = none := by
    rcases List.eq_nil_or_concat blocks with rfl | ⟨front, last, rfl⟩
    · simp [BacklogBlocks.tcTaskBacklogPush, contents]
    · rw [List.concat_eq_append] at h ⊢
      obtain ⟨hfront, hlast⟩ := filled_append.mp h
      have hle := last.count_le
      have hlength : (contents (front ++ [last])).length = front.length * bufferSize + last.count := by
        rw [contents, List.flatMap_append, List.length_append, ← contents, length_contents_full hfront]
        simp [length_blockContents]
      rw [push_append, hlength, Nat.mul_add_mod_self_right]
      split
      · rename_i hroom
        rw [Nat.mod_eq_of_lt hroom]
        simp only [reduceCtorEq, false_iff, not_and]
        omega
      · rename_i hfull
        rw [Nat.le_antisymm hle (Nat.not_lt.mp hfull), Nat.mod_self]
        simp
  rw [TaskBacklog.tcTaskBacklogPush, length_requests]
  cases hpush : BacklogBlocks.tcTaskBacklogPush entry memory blocks with
  | none =>
    obtain ⟨hmod, rfl⟩ := hneeded.mp hpush
    simp [hmod]
  | some blocks' =>
    have hnot := mt hneeded.mpr (hpush ▸ Option.some_ne_none blocks')
    rw [if_neg (by simpa using hnot), Option.map_some, hsome hpush]

end TC.Proof.Backlog
