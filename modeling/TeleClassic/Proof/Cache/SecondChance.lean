import TeleClassic.Proof.Cache.Locks
import TeleClassic.Framework.Tally

/-!
# An eviction is one second-chance pass

For a cache whose entries are all loaded. `Visited` is the invariant of the loop:
what it has come to so far (`visited`, newest first), what is left of that, and
that the entries before it (`rest`) are as they were. Each iteration moves the last
of `rest` to `visited` (`Visited.keep`, `Visited.remove`), so the number of iterations suffices for the
whole list as long as the number of entries is not negative as a `pint`
(`second_chance`). From `2 ^ 31` entries on there may be no iteration at all
(`no_iteration`).
-/

namespace TC.Proof.Cache

open TC.Impl TC.Impl.MapCache
open TC.Impl.CacheList (LinkedCache Act linkedStep)

variable {s s₀ : LinkedCache} {visited : List Nat} {e : Nat}

/-- Nobody has the entry open, and it has not been referenced of late. -/
def Evictable (en : Entry) : Prop := en.openCount = 0 ∧ en.isReferenced = false

instance (en : Entry) : Decidable (Evictable en) := inferInstanceAs (Decidable (_ ∧ _))

/-- The entry `e` is left by a pass that comes to it. -/
def kept (s : LinkedCache) (e : Nat) : Bool := (s.entries e).any fun en => ¬ Evictable en

/-- What a pass takes off the memory usage when it comes to the entry `e`. -/
def taken (s : LinkedCache) (e : Nat) : BitVec 64 :=
  (s.entries e).elim 0 fun en => if Evictable en then en.memoryUsage else 0

/-- The memory usage once a pass has come to some entries. -/
def usageAfter (s : LinkedCache) (visited : List Nat) : BitVec 64 := s.memoryUsage - tally (taken s) visited

def locked? : Act → Option Nat
  | .lock e => some e
  | .unlock _ => none
  | .free _ => none

/-- A pass from `s₀` has come to the entries `visited`, the newest of which stands
first, and not to `rest`. -/
structure Visited (s₀ : LinkedCache) (rest visited : List Nat) (s : LinkedCache) : Prop where
  split : s₀.linked = rest ++ visited
  /-- From the tail to the head, and to each entry once. -/
  visits : s.acts.filterMap locked? = visited.reverse
  linked : s.linked = rest ++ visited.filter (kept s₀)
  cleared : ∀ e ∈ visited, ∀ en, s₀.entries e = some en → en.openCount = 0 → en.isReferenced = true →
    s.entries e = some { en with isReferenced := false, locked := true }
  pinned : ∀ e ∈ visited, ∀ en, s₀.entries e = some en → en.openCount ≠ 0 → s.entries e = some en
  ahead : ∀ e ∈ rest, s.entries e = s₀.entries e
  usage : s.memoryUsage = usageAfter s₀ visited
  threshold : s.memoryUsageThreshold = s₀.memoryUsageThreshold

theorem kept_eq {en : Entry} (live : s.entries e = some en) :
    kept s e = decide (¬ Evictable en) := by rw [kept, live, Option.any_some]

theorem usageAfter_cons {en : Entry} (live : s.entries e = some en) (visited : List Nat) :
    usageAfter s (e :: visited) =
      if Evictable en then usageAfter s visited - en.memoryUsage else usageAfter s visited := by
  rw [usageAfter, tally_cons, taken, live, Option.elim_some]
  split
  · rw [usageAfter, add_comm, sub_add_eq_sub_sub]
  · rw [zero_add, usageAfter]

section

variable {s' : LinkedCache} {m : List Nat} {en : Entry} (h : Visited s₀ (m ++ [e]) visited s) (hs₀ : WellLinked s₀)
  (live : s.entries e = some en)

include h in
theorem Visited.split' : s₀.linked = m ++ e :: visited := by rw [h.split, List.append_assoc]; rfl

include h live in
theorem Visited.live₀ : s₀.entries e = some en := (h.ahead e (by simp)).symm.trans live

include h hs₀ live

/-- The entry `e` is left, with nothing but its own fields changed. -/
theorem Visited.keep (hkept : ¬ Evictable en) (hlinked : s'.linked = s.linked)
    (hentries : ∀ x, x ≠ e → s'.entries x = s.entries x) (husage : s'.memoryUsage = s.memoryUsage)
    (hthreshold : s'.memoryUsageThreshold = s.memoryUsageThreshold)
    (hacts : s'.acts.filterMap locked? = s.acts.filterMap locked? ++ [e])
    (hcleared : en.openCount = 0 → en.isReferenced = true → s'.entries e = some { en with isReferenced := false, locked := true })
    (hpinned : en.openCount ≠ 0 → s'.entries e = some en) : Visited s₀ m (e :: visited) s' := by
  have hlive₀ := h.live₀ live
  obtain ⟨hem, hev, -⟩ := hs₀.apart h.split'
  have hne : ∀ x ∈ visited, x ≠ e := fun x hx hxe => hev (hxe ▸ hx)
  refine ⟨h.split', ?_, ?_, fun x hx en' hen' hclosed hreferenced => ?_, fun x hx en' hen' hopened => ?_,
    fun x hx => ?_, ?_, hthreshold.trans h.threshold⟩
  · rw [hacts, h.visits, List.reverse_cons]
  · rw [hlinked, h.linked, List.filter_cons_of_pos (by simpa [kept_eq hlive₀] using hkept), List.append_assoc]
    rfl
  · rcases List.mem_cons.mp hx with rfl | hx
    · obtain rfl := Option.some.inj (hlive₀.symm.trans hen')
      exact hcleared hclosed hreferenced
    · exact (hentries x (hne x hx)).trans (h.cleared x hx en' hen' hclosed hreferenced)
  · rcases List.mem_cons.mp hx with rfl | hx
    · obtain rfl := Option.some.inj (hlive₀.symm.trans hen')
      exact hpinned hopened
    · exact (hentries x (hne x hx)).trans (h.pinned x hx en' hen' hopened)
  · exact (hentries x fun hxe => hem (hxe ▸ hx)).trans (h.ahead x (by simp [hx]))
  · rw [husage, h.usage, usageAfter_cons hlive₀, if_neg hkept]

/-- The entry `e` is removed. -/
theorem Visited.remove (hs : WellLinked s) (hev : Evictable en) (drop : Dropped s e en s') :
    Visited s₀ m (e :: visited) s' := by
  have hlive₀ := h.live₀ live
  obtain ⟨hem, hev', -⟩ := hs₀.apart h.split'
  have hne : ∀ x ∈ visited, x ≠ e := fun x hx hxe => hev' (hxe ▸ hx)
  have hlinked : s.linked = m ++ e :: visited.filter (kept s₀) := by rw [h.linked, List.append_assoc]; rfl
  refine ⟨h.split', ?_, ?_, fun x hx en' hen' hclosed hreferenced => ?_, fun x hx en' hen' hopened => ?_,
    fun x hx => ?_, ?_, drop.memoryUsage.2.trans h.threshold⟩
  · rw [drop.acts, List.filterMap_append, h.visits, List.reverse_cons]
    rfl
  · rw [drop.linked, hs.without hlinked, List.filter_cons_of_neg (by simpa [kept_eq hlive₀] using hev)]
  · rcases List.mem_cons.mp hx with rfl | hx
    · obtain rfl := Option.some.inj (hlive₀.symm.trans hen')
      exact absurd (hev.2.symm.trans hreferenced) Bool.noConfusion
    · exact (drop.entries_of_ne (hne x hx)).trans (h.cleared x hx en' hen' hclosed hreferenced)
  · rcases List.mem_cons.mp hx with rfl | hx
    · obtain rfl := Option.some.inj (hlive₀.symm.trans hen')
      exact absurd hev.1 hopened
    · exact (drop.entries_of_ne (hne x hx)).trans (h.pinned x hx en' hen' hopened)
  · exact (drop.entries_of_ne fun hxe => hem (hxe ▸ hx)).trans (h.ahead x (by simp [hx]))
  · rw [drop.memoryUsage.1, h.usage, usageAfter_cons hlive₀, if_pos hev]

end

/-! ## The pass -/

/-- A pass that comes to the entry `e` removes it. -/
def Leaves (s : LinkedCache) (e : Nat) : Prop := ∃ en, s.entries e = some en ∧ Evictable en

/-- No removal has brought the memory usage below the threshold. -/
def Above (s : LinkedCache) (visited : List Nat) : Prop :=
  ∀ front e back, visited = front ++ e :: back → Leaves s e → ¬ usageAfter s (e :: back) < s.memoryUsageThreshold

theorem Above.cons (h : Above s visited)
    (he : Leaves s e → ¬ usageAfter s (e :: visited) < s.memoryUsageThreshold) :
    Above s (e :: visited) := by
  intro front x back hsplit hx
  cases front with
  | nil =>
    obtain ⟨rfl, rfl⟩ := List.cons_eq_cons.mp hsplit
    exact he hx
  | cons y front => exact h front x back (List.cons_eq_cons.mp hsplit).2 hx

theorem Above.tail (h : Above s visited) : Above s visited.tail := by
  cases visited with
  | nil => exact h
  | cons x visited =>
    intro front e back hsplit
    exact h (x :: front) e back (by rw [List.cons_append, ← hsplit]; rfl)

/-- What an eviction has done at its end: it has come to the entries `visited`, no
removal but the last has brought the memory usage below the threshold, and it has
ended since there is no entry left, since the last removal did, or it waits for a
lock that was held from the start. -/
structure SecondChance (s₀ : LinkedCache) (rest visited : List Nat) (r : CacheList.Pass × LinkedCache) : Prop
    extends Visited s₀ rest visited r.2 where
  above : Above s₀ visited.tail
  ends : r.1 = .done ∧ rest = [] ∨
    r.1 = .done ∧ (∃ e back, visited = e :: back ∧ Leaves s₀ e ∧ r.2.memoryUsage < s₀.memoryUsageThreshold) ∨
    r.1 = .blocked ∧ ∃ e en, rest.getLast? = some e ∧ s₀.entries e = some en ∧ en.locked = true

theorem evictLoop_secondChance (hs₀ : WellLinked s₀) (hs : WellLinked s)
    (hloaded : ∀ e ∈ s₀.linked, ∀ en, s₀.entries e = some en → en.isLoaded = true) {rest : List Nat}
    (h : Visited s₀ rest visited s) (habove : Above s₀ visited) :
    ∃ rest' visited', SecondChance s₀ rest' visited' (CacheList.evictLoop rest.length rest.getLast? s) := by
  generalize hn : rest.length = n
  induction n generalizing rest visited s with
  | zero =>
    obtain rfl := List.eq_nil_of_length_eq_zero hn
    exact ⟨[], visited, h, habove.tail, .inl ⟨rfl, rfl⟩⟩
  | succ n ih =>
    obtain ⟨m, e, rfl⟩ := List.eq_nil_or_concat' rest |>.resolve_left (by rintro rfl; simp at hn)
    have hm : m.length = n := by simpa using hn
    have hlinked : s.linked = m ++ e :: visited.filter (kept s₀) := by rw [h.linked, List.append_assoc]; rfl
    have hbefore := hs.before hlinked
    have hall {en : Entry} (live : s.entries e = some en) : en.isLoaded = true :=
      hloaded e (by rw [h.split']; simp) en (h.live₀ live)
    have hstays {en : Entry} (live : s.entries e = some en) (hkept : ¬ Evictable en) : ¬ Leaves s₀ e := by
      rintro ⟨en', hen', hev⟩
      obtain rfl := Option.some.inj ((h.live₀ live).symm.trans hen')
      exact hkept hev
    obtain ⟨next, s', hi, hwell, hloop⟩ := evictLoop_iteration hs hlinked n
    rw [hloop]
    cases hi with
    | empty at_ => cases at_
    | @blocked e' en visit held =>
      obtain rfl := visit.eq
      exact ⟨m ++ [e'], visited, h, habove.tail,
        .inr (.inr ⟨rfl, e', en, List.getLast?_concat, h.live₀ visit.live, held⟩)⟩
    | unloadedHead visit free unloaded first =>
      obtain rfl := visit.eq
      exact absurd ((hall visit.live).symm.trans unloaded) Bool.noConfusion
    | unloaded visit free unloaded before live =>
      obtain rfl := visit.eq
      exact absurd ((hall visit.live).symm.trans unloaded) Bool.noConfusion
    | @referenced e' en visit free loaded closed referenced =>
      obtain rfl := visit.eq
      have hkept : ¬ Evictable en := fun hev => absurd (hev.2.symm.trans referenced) Bool.noConfusion
      have hvisited : Visited s₀ m (e' :: visited) ((lockEntry s e' en).setEntry e' (some { en with
          isReferenced := false, locked := true })) := h.keep hs₀ visit.live hkept rfl
        (fun x hx => (entries_setEntry_of_ne _ hx).trans (entries_lockEntry_of_ne en hx)) rfl rfl
        (by simp [lockEntry, LinkedCache.act, LinkedCache.setEntry, locked?]) (fun _ _ => setEntry_self ..)
        (fun hopened => absurd closed hopened)
      rw [hbefore]
      exact ih hwell hvisited (habove.cons fun hleaves => absurd hleaves (hstays visit.live hkept)) hm
    | @pinned e' en visit free loaded opened =>
      obtain rfl := visit.eq
      have hkept : ¬ Evictable en := fun hev => opened hev.1
      have hvisited : Visited s₀ m (e' :: visited) (((lockEntry s e' en).setEntry e' (some { en with
          locked := false })).act (.unlock e')) := h.keep hs₀ visit.live hkept rfl (fun x hx => entries_pinned_of_ne en hx) rfl rfl
        (by simp [lockEntry, LinkedCache.act, LinkedCache.setEntry, locked?]) (fun hclosed => absurd hclosed opened)
        (fun _ => (setEntry_self ..).trans (by rw [← free]))
      rw [hbefore]
      exact ih hwell hvisited (habove.cons fun hleaves => absurd hleaves (hstays visit.live hkept)) hm
    | @dropped e' en s' visit free loaded closed unreferenced drop above =>
      obtain rfl := visit.eq
      have hvisited := h.remove hs₀ visit.live hs ⟨closed, unreferenced⟩ drop
      rw [hvisited.usage, hvisited.threshold] at above
      rw [hbefore]
      exact ih hwell hvisited (habove.cons fun _ => above) hm
    | @droppedLast e' en s' visit free loaded closed unreferenced drop below =>
      obtain rfl := visit.eq
      have hvisited := h.remove hs₀ visit.live hs ⟨closed, unreferenced⟩ drop
      rw [hvisited.threshold] at below
      refine ⟨m, e' :: visited, ⟨hvisited.split, hvisited.visits, hvisited.linked, hvisited.cleared, hvisited.pinned,
        hvisited.ahead, hvisited.usage, hvisited.threshold⟩, habove, .inr (.inl ⟨rfl, e', visited, rfl, ?_, below⟩)⟩
      exact ⟨en, h.live₀ visit.live, closed, unreferenced⟩

/-! ## Evictions -/

theorem maxIters_of_lt {n : Nat} (h : n < 2 ^ 31) : maxIters n = n := by
  simp only [maxIters, BitVec.toInt_eq_toNat_cond, BitVec.toNat_ofNat]
  omega

theorem Visited.removed_iff {rest : List Nat} (h : Visited s₀ rest visited s) (hs₀ : WellLinked s₀)
    (he : e ∈ visited) {en : Entry} (live : s₀.entries e = some en) : e ∉ s.linked ↔ Evictable en := by
  have hnodup := hs₀.threads.nodup
  rw [h.split] at hnodup
  have hrest : e ∉ rest := fun hmem => (List.nodup_append.mp hnodup).2.2 e hmem e he rfl
  rw [h.linked, List.mem_append, List.mem_filter, kept_eq live]
  simp [hrest, he]

theorem Visited.kept_of_linked (h : Visited s₀ [] visited s) (he : e ∈ s.linked) {en : Entry}
    (live : s₀.entries e = some en) : en.openCount ≠ 0 ∨ en.isReferenced = true := by
  rw [h.linked, List.nil_append, List.mem_filter, kept_eq live] at he
  have hkept : ¬ Evictable en := of_decide_eq_true he.2
  by_cases hclosed : en.openCount = 0
  · exact .inr (Bool.not_eq_false _ |>.mp fun hr => hkept ⟨hclosed, hr⟩)
  · exact .inl hclosed

/-- Where a pass begins. -/
theorem Visited.start (s : LinkedCache) (hand : Option Nat) :
    Visited s s.linked [] { s with acts := [], clockHand := hand } where
  split := (List.append_nil _).symm
  visits := rfl
  linked := (List.append_nil _).symm
  cleared e he := absurd he List.not_mem_nil
  pinned e he := absurd he List.not_mem_nil
  ahead e he := rfl
  usage := by simp [usageAfter]
  threshold := rfl

theorem evict_secondChance (hs : WellLinked s)
    (hloaded : ∀ e ∈ s.linked, ∀ en, s.entries e = some en → en.isLoaded = true)
    (hcount : s.numEntries < 2 ^ 31) :
    ∃ rest visited, SecondChance s rest visited (CacheList.tcMapCacheEvict s) := by
  have hnone : Above s [] := fun front e back hsplit => by simp at hsplit
  rw [CacheList.tcMapCacheEvict]
  cases hhead : s.list.head with
  | none =>
    have hnil : s.linked = [] := List.head?_eq_none_iff.mp (hs.threads.head.symm.trans hhead)
    simp only
    exact ⟨s.linked, [], Visited.start s s.clockHand, hnone, .inl ⟨rfl, hnil⟩⟩
  | some head =>
    have hpass := evictLoop_secondChance hs (hs.start hhead) hloaded (Visited.start s (s.clockHand <|> some head)) hnone
    have hiters : maxIters s.numEntries = s.linked.length := (maxIters_of_lt hcount).trans hs.count
    simp only
    rw [hiters, hs.threads.tail]
    exact hpass

/-- An eviction of a cache whose entries are all loaded, and are less than
`2 ^ 31`, is one second-chance pass. It returns if all locks are free. If it does
and the memory usage is not below the threshold, every entry that is left was open
or referenced. -/
theorem second_chance {s : LinkedCache} (h : InOrder s)
    (hloaded : ∀ e ∈ s.linked, ∀ en, s.entries e = some en → en.isLoaded = true) (hcount : s.numEntries < 2 ^ 31) :
    ∃ rest visited, SecondChance s rest visited (CacheList.tcMapCacheEvict s) ∧
      (∀ e ∈ visited, ∀ en, s.entries e = some en →
        (e ∉ (CacheList.tcMapCacheEvict s).2.linked ↔ en.openCount = 0 ∧ en.isReferenced = false)) ∧
      ((∀ e ∈ s.linked, ∀ en, s.entries e = some en → en.locked = false) →
        (CacheList.tcMapCacheEvict s).1 = .done) ∧
      ((CacheList.tcMapCacheEvict s).1 = .done →
        ¬ (CacheList.tcMapCacheEvict s).2.memoryUsage < s.memoryUsageThreshold →
        ∀ e ∈ (CacheList.tcMapCacheEvict s).2.linked, ∀ en, s.entries e = some en →
          en.openCount ≠ 0 ∨ en.isReferenced = true) := by
  have hs := inOrder_iff.mp h
  obtain ⟨rest, visited, hchance⟩ := evict_secondChance hs hloaded hcount
  generalize CacheList.tcMapCacheEvict s = r at hchance
  refine ⟨rest, visited, hchance, fun e he en live => hchance.removed_iff hs he live, fun hfree => ?_, fun hdone hnot => ?_⟩
  · rcases hchance.ends with ⟨hdone, -⟩ | ⟨hdone, -⟩ | ⟨-, e, en, hlast, live, held⟩
    · exact hdone
    · exact hdone
    · have hmem : e ∈ s.linked := by
        rw [hchance.split]
        exact List.mem_append_left _ (List.mem_of_getLast? hlast)
      exact absurd ((hfree e hmem en live).symm.trans held) Bool.noConfusion
  · rcases hchance.ends with ⟨-, rfl⟩ | ⟨-, -, -, -, -, hbelow⟩ | ⟨hblocked, -⟩
    · exact fun e he en live => hchance.kept_of_linked he live
    · exact absurd hbelow hnot
    · rw [hdone] at hblocked
      cases hblocked

/-- The last entry is removed, the flag of the next is cleared, and the first is open. -/
theorem second_chance_opened :
    ∃ s, run (linkedStep someSizes) (CacheList.tcMapCacheInit 0) threeOpens = some s ∧
      ∃ rest visited r, r = CacheList.tcMapCacheEvict (mixed s { idle with isReferenced := true }) ∧
        SecondChance (mixed s { idle with isReferenced := true }) rest visited r ∧ r.1 = .done ∧ r.2.linked = [2, 1] ∧
        (r.2.entries 1).map Entry.isReferenced = some false := by
  obtain ⟨s, hs, hlinked, hcount, horder⟩ := exists_threeOpens
  have hloaded : ∀ e ∈ (mixed s { idle with isReferenced := true }).linked, ∀ en,
      (mixed s { idle with isReferenced := true }).entries e = some en → en.isLoaded = true := by
    intro e he en hen
    rw [show (mixed s { idle with isReferenced := true }).linked = [2, 1, 0] from hlinked] at he
    simp only [List.mem_cons, List.not_mem_nil, or_false] at he
    rcases he with rfl | rfl | rfl <;> cases hen <;> rfl
  obtain ⟨rest, visited, hchance, -, hreturns, -⟩ := second_chance (horder { idle with isReferenced := true }) hloaded
    (by rw [show (mixed s { idle with isReferenced := true }).numEntries = 3 from hcount]; decide)
  have hdone := hreturns (free_mixed hlinked rfl)
  obtain rfl := Option.some.inj hs
  exact ⟨_, rfl, rest, visited, _, rfl, hchance, hdone, rfl, rfl⟩

/-- What the entries of a cache count for. -/
def total (s : LinkedCache) : BitVec 64 := tally (fun e => (s.entries e).elim 0 Entry.memoryUsage) s.linked

/-- There are caches with any number of idle entries. -/
theorem exists_idle (n : Nat) :
    ∃ s : LinkedCache, WellLinked s ∧ s.numEntries = n ∧ (∀ e ∈ s.linked, e < n ∧ s.entries e = some idle) ∧
      s.memoryUsage = total s ∧ s.memoryUsage = BitVec.ofNat 64 (640 * n) ∧ s.memoryUsageThreshold = 0 := by
  induction n with
  | zero =>
    exact ⟨CacheList.tcMapCacheInit 0, wellLinked_init 0, rfl, fun e he => absurd he List.not_mem_nil, rfl, rfl, rfl⟩
  | succ n ih =>
    obtain ⟨s, hs, hcount, hidle, htotal, husage, hthreshold⟩ := ih
    have hfresh : n ∉ s.linked := fun hn => Nat.lt_irrefl n (hidle n hn).1
    obtain ⟨s', -, hlinked, hsame, -⟩ := (hs.alloc hfresh idle).link hfresh (setEntry_self ..) (LinkedList.cells_alloc ..)
    have hne : ∀ x ∈ s.linked, x ≠ n := fun x hx hxn => hfresh (hxn ▸ hx)
    have hentries : ∀ x ∈ s.linked, s'.entries x = s.entries x := fun x hx => by
      rw [hsame]
      exact Function.update_of_ne (hne x hx) ..
    have hnew : s'.entries n = some idle := by
      rw [hsame]
      exact setEntry_self ..
    have hcons : s'.linked = n :: s.linked := by rw [hsame]; rfl
    have hmore : s'.memoryUsage = s.memoryUsage + idle.memoryUsage := by rw [hsame]; rfl
    refine ⟨s', hlinked, ?_, fun x hx => ?_, ?_, ?_, ?_⟩
    · rw [hsame]
      exact congrArg (· + 1) hcount
    · rw [hcons] at hx
      rcases List.mem_cons.mp hx with rfl | hx
      · exact ⟨Nat.lt_succ_self _, hnew⟩
      · exact ⟨Nat.lt_succ_of_lt (hidle x hx).1, (hentries x hx).trans (hidle x hx).2⟩
    · have hrest : tally (fun e => (s'.entries e).elim 0 Entry.memoryUsage) s.linked = total s :=
        tally_congr fun x hx => by rw [hentries x hx]
      rw [total, hcons, tally_cons, hrest, hnew, ← htotal, hmore, Option.elim_some, add_comm]
    · rw [hmore, husage, Nat.mul_succ, BitVec.ofNat_add]
      rfl
    · rw [hsame]
      exact hthreshold

/-- With `2 ^ 31` entries there is no iteration: all of them could be removed, and
none is. -/
theorem no_iteration :
    ∃ s : LinkedCache, InOrder s ∧ s.numEntries = 2 ^ 31 ∧
      (∀ e ∈ s.linked, ∃ en, s.entries e = some en ∧ en.isLoaded = true ∧ en.locked = false ∧ Evictable en) ∧
      s.memoryUsage = total s ∧ s.memoryUsageThreshold < s.memoryUsage ∧
      (CacheList.tcMapCacheEvict s).1 = .done ∧ (CacheList.tcMapCacheEvict s).2.linked = s.linked ∧
      s.linked ≠ [] ∧ ¬ (CacheList.tcMapCacheEvict s).2.memoryUsage < s.memoryUsageThreshold := by
  obtain ⟨s, hs, hcount, hidle, htotal, husage, hthreshold⟩ := exists_idle (2 ^ 31)
  have hzero : maxIters s.numEntries = 0 := by
    rw [hcount]
    decide
  have hne : s.linked ≠ [] := by
    intro hnil
    have hlength := hs.count
    rw [hcount, hnil] at hlength
    cases hlength
  obtain ⟨head, hhead⟩ : ∃ head, s.list.head = some head := by
    rw [hs.threads.head]
    exact Option.ne_none_iff_exists'.mp (mt List.head?_eq_none_iff.mp hne)
  have hevict : CacheList.tcMapCacheEvict s = (.done, { s with acts := [], clockHand := s.clockHand <|> some head }) := by
    simp only [CacheList.tcMapCacheEvict, hhead, hzero]
    rfl
  have hpositive : (0 : BitVec 64) < BitVec.ofNat 64 (640 * 2 ^ 31) := by decide
  refine ⟨s, inOrder_iff.mpr hs, hcount, fun e he => ⟨idle, (hidle e he).2, rfl, rfl, rfl, rfl⟩, htotal, ?_, ?_⟩
  · rw [hthreshold, husage]
    exact hpositive
  · rw [hevict]
    refine ⟨rfl, rfl, hne, ?_⟩
    show ¬ s.memoryUsage < s.memoryUsageThreshold
    rw [hthreshold]
    exact BitVec.not_lt_zero

end TC.Proof.Cache
