import TeleClassic.Framework.CString

/-!
# Sending over a non-blocking stream

A stream answers each offer of a buffer by taking a part of it from the front,
by asking to wait, by reporting the end of the connection, or by failing
(`Outcome`). `sendAll` offers chunks one after another, each once, until one
does not count as sent; a `tolerant` chunk counts as sent also when the stream
asks to wait. What the stream has taken is then exactly the chunks if and only
if it took each of them whole (`sendAll_exact_iff`).
-/

namespace TC

/-- The answer to an offer: `accept n` takes `n + 1` bytes, or all of them if
there are fewer. -/
inductive Outcome where
  | accept (n : Nat)
  | wouldBlock
  | disconnected
  | failed
deriving DecidableEq, Repr

/-- A stream: the answer to each offer, the offers so far, and the bytes taken. -/
structure Stream where
  outcomes : Nat → Outcome
  calls : Nat
  accepted : List Byte

/-- The part of a buffer that is taken. -/
def Outcome.taken (buffer : List Byte) : Outcome → List Byte
  | .accept n => buffer.take (n + 1)
  | _ => []

def Stream.next (s : Stream) : Outcome := s.outcomes s.calls

/-- The stream after it was offered a buffer. -/
def Stream.offer (s : Stream) (buffer : List Byte) : Stream :=
  { s with calls := s.calls + 1, accepted := s.accepted ++ s.next.taken buffer }

/-- A buffer that is offered, and whether to wait counts as having sent it. -/
structure Chunk where
  bytes : List Byte
  tolerant : Bool

/-- The chunk does not count as sent. -/
def Chunk.Stops (c : Chunk) : Outcome → Prop
  | .accept _ => False
  | .wouldBlock => c.tolerant = false
  | .disconnected => True
  | .failed => True

instance (c : Chunk) : DecidablePred c.Stops
  | .accept _ => inferInstanceAs (Decidable False)
  | .wouldBlock => inferInstanceAs (Decidable (c.tolerant = false))
  | .disconnected => inferInstanceAs (Decidable True)
  | .failed => inferInstanceAs (Decidable True)

/-- The chunk is taken whole. -/
def Chunk.Whole (c : Chunk) : Outcome → Prop
  | .accept n => c.bytes.length ≤ n + 1
  | _ => False

/-- Whether all chunks count as sent, and the stream afterwards. -/
def sendAll : List Chunk → Stream → Bool × Stream
  | [], s => (true, s)
  | c :: cs, s => if c.Stops s.next then (false, s.offer c.bytes) else sendAll cs (s.offer c.bytes)

theorem sendAll_append (cs cs' : List Chunk) (s : Stream) :
    sendAll (cs ++ cs') s = if (sendAll cs s).1 then sendAll cs' (sendAll cs s).2 else sendAll cs s := by
  induction cs generalizing s with
  | nil => rfl
  | cons c cs ih =>
    rw [List.cons_append, sendAll, sendAll]
    split
    · rfl
    · exact ih _

/-- An offer of at most `n` bytes is taken whole. -/
def Outcome.Holds (n : Nat) : Outcome → Prop
  | .accept m => n ≤ m + 1
  | _ => False

instance (n : Nat) : DecidablePred (Outcome.Holds n)
  | .accept m => inferInstanceAs (Decidable (n ≤ m + 1))
  | .wouldBlock => inferInstanceAs (Decidable False)
  | .disconnected => inferInstanceAs (Decidable False)
  | .failed => inferInstanceAs (Decidable False)

/-- The next `k` offers of at most `n` bytes are taken whole. -/
def Stream.Takes (n k : Nat) (s : Stream) : Prop := ∀ i < k, (s.outcomes (s.calls + i)).Holds n

instance (n k : Nat) (s : Stream) : Decidable (s.Takes n k) :=
  inferInstanceAs (Decidable (∀ i < k, (s.outcomes (s.calls + i)).Holds n))

variable {s : Stream}

theorem Stream.Takes.mono {n k k' : Nat} (h : s.Takes n k) (hk : k' ≤ k) : s.Takes n k' :=
  fun i hi => h i (by omega)

theorem Stream.Takes.offer {n k : Nat} (h : s.Takes n (k + 1)) (buffer : List Byte) :
    (s.offer buffer).Takes n k := by
  intro i hi
  have hnext := h (i + 1) (by omega)
  show (s.outcomes (s.calls + 1 + i)).Holds n
  rwa [show s.calls + 1 + i = s.calls + (i + 1) by omega]

/-- The bytes of the chunks, one after another. -/
def flatten (cs : List Chunk) : List Byte := cs.flatMap Chunk.bytes

variable {cs : List Chunk}

theorem sendAll_of_takes {n k : Nat} (hcs : ∀ c ∈ cs, c.bytes.length ≤ n) (h : s.Takes n (cs.length + k)) :
    (sendAll cs s).1 = true ∧ (sendAll cs s).2.Takes n k ∧
      (sendAll cs s).2.accepted = s.accepted ++ flatten cs := by
  induction cs generalizing s with
  | nil =>
    rw [List.length_nil, Nat.zero_add] at h
    exact ⟨rfl, h, (List.append_nil _).symm⟩
  | cons c cs ih =>
    rw [List.length_cons, Nat.add_right_comm] at h
    have hlength := hcs c List.mem_cons_self
    have hholds : s.next.Holds n := h 0 (Nat.succ_pos _)
    obtain ⟨m, hnext, hle⟩ : ∃ m, s.next = .accept m ∧ n ≤ m + 1 := by
      rcases hnext : s.next with m | _ | _ | _ <;> rw [hnext] at hholds
      · exact ⟨m, rfl, hholds⟩
      · exact hholds.elim
      · exact hholds.elim
      · exact hholds.elim
    have hgoes : ¬c.Stops s.next := by simp [hnext, Chunk.Stops]
    have htaken : s.next.taken c.bytes = c.bytes := by
      rw [hnext]
      exact List.take_of_length_le (Nat.le_trans hlength hle)
    rw [sendAll, if_neg hgoes]
    obtain ⟨hsent, htakes, haccepted⟩ := ih (fun c' hc' => hcs c' (List.mem_cons_of_mem c hc')) (h.offer c.bytes)
    refine ⟨hsent, htakes, ?_⟩
    rw [haccepted, Stream.offer, htaken, List.append_assoc]
    rfl

@[simp]
theorem sendAll_outcomes (cs : List Chunk) (s : Stream) : (sendAll cs s).2.outcomes = s.outcomes := by
  induction cs generalizing s with
  | nil => rfl
  | cons c cs ih =>
    rw [sendAll]
    split
    · rfl
    · exact ih _

theorem sendAll_calls (h : (sendAll cs s).1 = true) : (sendAll cs s).2.calls = s.calls + cs.length := by
  induction cs generalizing s with
  | nil => rfl
  | cons c cs ih =>
    rw [sendAll] at h ⊢
    split at h
    · cases h
    · rename_i hs
      rw [if_neg hs, ih h, List.length_cons]
      show s.calls + 1 + cs.length = _
      omega

/-- The stream `s'` is `s` after some offers. -/
def Stream.Later (s s' : Stream) : Prop := s'.outcomes = s.outcomes ∧ s.calls ≤ s'.calls

theorem Stream.Later.trans {s' s'' : Stream} (h : s.Later s') (h' : s'.Later s'') : s.Later s'' :=
  ⟨h'.1.trans h.1, h.2.trans h'.2⟩

theorem sendAll_later (cs : List Chunk) (s : Stream) : s.Later (sendAll cs s).2 := by
  refine ⟨sendAll_outcomes cs s, ?_⟩
  induction cs generalizing s with
  | nil => exact Nat.le_refl _
  | cons c cs ih =>
    rw [sendAll]
    split
    · exact Nat.le_succ _
    · exact Nat.le_of_succ_le (ih (s.offer c.bytes))

/-- The answers to the offers from `s` to `s'`. -/
def Stream.Between (P : Outcome → Prop) (s s' : Stream) : Prop := ∀ k, s.calls ≤ k → k < s'.calls → P (s.outcomes k)

theorem Stream.Between.later {P : Outcome → Prop} {s₁ s' : Stream} (h : s.Between P s')
    (hlater : s.Later s₁) : s₁.Between P s' := by
  intro k hk hk'
  rw [hlater.1]
  exact h k (hlater.2.trans hk) hk'

/-- The connection is there. -/
def Outcome.Connected : Outcome → Prop
  | .accept _ | .wouldBlock => True
  | .disconnected | .failed => False

/-- The offer is taken, at least in part. -/
def Outcome.Accepted : Outcome → Prop
  | .accept _ => True
  | _ => False

def Stream.Accepts (s : Stream) : Prop := ∀ k, (s.outcomes k).Accepted

/-- Chunks are sent if no answer stops them. -/
theorem sendAll_of_between {P : Outcome → Prop} (hcs : ∀ c ∈ cs, ∀ o, P o → ¬ c.Stops o)
    (h : s.Between P (sendAll cs s).2) : (sendAll cs s).1 = true := by
  induction cs generalizing s with
  | nil => rfl
  | cons c cs ih =>
    rw [sendAll] at h ⊢
    split at h
    · rename_i hstops
      exact absurd hstops (hcs c List.mem_cons_self _ (h s.calls (Nat.le_refl _) (Nat.lt_succ_self _)))
    · rename_i hgoes
      rw [if_neg hgoes]
      exact ih (fun c' hc' => hcs c' (List.mem_cons_of_mem c hc')) fun k hk => h k (Nat.le_of_succ_le hk)

theorem not_stops_of_connected {c : Chunk} (h : c.tolerant = true) (o : Outcome) (ho : o.Connected) : ¬ c.Stops o := by
  cases o <;> simp_all [Chunk.Stops, Outcome.Connected]

theorem not_stops_of_accepted (c : Chunk) (o : Outcome) (ho : o.Accepted) : ¬ c.Stops o := by
  cases o <;> simp_all [Chunk.Stops, Outcome.Accepted]

theorem sendAll_of_accepts (cs : List Chunk) (h : s.Accepts) :
    (sendAll cs s).1 = true ∧ (sendAll cs s).2.Accepts := by
  refine ⟨sendAll_of_between (fun c _ => not_stops_of_accepted c) fun k _ _ => h k, fun k => ?_⟩
  rw [sendAll_outcomes]
  exact h k

/-- The bytes taken of chunks whose offers have the numbers from `k` on. -/
def takenFrom (outcomes : Nat → Outcome) (cs : List Chunk) (k : Nat) : List Byte :=
  (cs.zipIdx k).flatMap fun p => (outcomes p.2).taken p.1.bytes

theorem sendAll_fst (cs : List Chunk) (s : Stream) :
    (sendAll cs s).1 = true ↔ ∀ p ∈ cs.zipIdx s.calls, ¬ p.1.Stops (s.outcomes p.2) := by
  induction cs generalizing s with
  | nil => simp [sendAll]
  | cons c cs ih =>
    rw [sendAll, List.zipIdx_cons, List.forall_mem_cons]
    split
    · rename_i h
      exact iff_of_false (by simp) fun hn => hn.1 h
    · rename_i h
      rw [ih]
      exact (and_iff_right h).symm

theorem sendAll_accepted (h : (sendAll cs s).1 = true) :
    (sendAll cs s).2.accepted = s.accepted ++ takenFrom s.outcomes cs s.calls := by
  induction cs generalizing s with
  | nil => simp [sendAll, takenFrom]
  | cons c cs ih =>
    rw [sendAll] at h ⊢
    split at h
    · cases h
    · rename_i hs
      rw [if_neg hs, ih h, takenFrom, takenFrom, List.zipIdx_cons, List.flatMap_cons, ← List.append_assoc]
      rfl

theorem taken_front (o : Outcome) (b : List Byte) : o.taken b <+: b := by
  cases o with
  | accept n => exact List.take_prefix _ _
  | _ => exact List.nil_prefix

/-- A non-empty buffer is taken whole, or it is not. -/
theorem taken_eq_iff {c : Chunk} (hc : c.bytes ≠ []) (o : Outcome) : o.taken c.bytes = c.bytes ↔ c.Whole o := by
  cases o with
  | accept n => exact List.take_eq_self_iff c.bytes
  | _ => exact iff_of_false hc.symm id

theorem length_takenFrom_le (outcomes : Nat → Outcome) (cs : List Chunk) (k : Nat) :
    (takenFrom outcomes cs k).length ≤ (flatten cs).length := by
  induction cs generalizing k with
  | nil => exact Nat.le_refl 0
  | cons c cs ih =>
    have hc := (taken_front (outcomes k) c.bytes).length_le
    have hcs := ih (k + 1)
    simp only [takenFrom, flatten, List.zipIdx_cons, List.flatMap_cons, List.length_append] at hcs ⊢
    omega

/-- Nothing is missing only if every chunk was taken whole: what is missing of
one chunk is not made up for by the next. -/
theorem takenFrom_eq_iff (hcs : ∀ c ∈ cs, c.bytes ≠ []) (outcomes : Nat → Outcome) (k : Nat) :
    takenFrom outcomes cs k = flatten cs ↔ ∀ p ∈ cs.zipIdx k, p.1.Whole (outcomes p.2) := by
  induction cs generalizing k with
  | nil => simp [takenFrom, flatten]
  | cons c cs ih =>
    have hhead := taken_eq_iff (hcs c List.mem_cons_self) (outcomes k)
    have htail := ih (fun c hc => hcs c (List.mem_cons_of_mem _ hc)) (k + 1)
    have hle := length_takenFrom_le outcomes cs (k + 1)
    rw [List.zipIdx_cons, List.forall_mem_cons, ← hhead, ← htail]
    simp only [takenFrom, flatten, List.zipIdx_cons, List.flatMap_cons] at hle ⊢
    constructor
    · intro h
      have hl := congrArg List.length h
      have hp := taken_front (outcomes k) c.bytes
      have hpl := hp.length_le
      simp only [List.length_append] at hl
      exact List.append_inj h (by omega)
    · rintro ⟨h, h'⟩
      rw [h, h']

/-- What is sent is exactly the chunks, unless one of them stops the sending,
if and only if the stream takes each of them whole. -/
theorem sendAll_exact_iff (hcs : ∀ c ∈ cs, c.bytes ≠ []) (s : Stream) :
    ((sendAll cs s).1 = true → (sendAll cs s).2.accepted = s.accepted ++ flatten cs) ↔
      (∃ p ∈ cs.zipIdx s.calls, p.1.Stops (s.outcomes p.2)) ∨
        ∀ p ∈ cs.zipIdx s.calls, p.1.Whole (s.outcomes p.2) := by
  by_cases h : (sendAll cs s).1 = true
  · have hstop : ¬ ∃ p ∈ cs.zipIdx s.calls, p.1.Stops (s.outcomes p.2) := by
      rintro ⟨p, hp, hs⟩
      exact (sendAll_fst cs s).mp h p hp hs
    rw [or_iff_right hstop, ← takenFrom_eq_iff hcs, sendAll_accepted h, List.append_cancel_left_eq]
    exact forall_prop_of_true h
  · have hstop : ∃ p ∈ cs.zipIdx s.calls, p.1.Stops (s.outcomes p.2) := by
      by_contra hn
      exact h ((sendAll_fst cs s).mpr fun p hp hs => hn ⟨p, hp, hs⟩)
    exact iff_of_true (fun h' => absurd h' h) (.inl hstop)

end TC
