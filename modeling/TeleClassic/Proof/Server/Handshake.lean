import TeleClassic.Framework.Signed
import TeleClassic.Proof.Server.Extensions

/-!
# The order of the handshake

All that the server remembers of a CPE handshake is `remaining_cpe_ext_packets`,
with -1 before the ExtInfo packet. It keeps the handshake in order (`InOrder`)
for a client that keeps to it in three ways (`Expected`): no ExtEntry packet
comes before the ExtInfo packet, the declared count is not negative, and the
support level is sent once, after all entries. No less is enough. The support
level is not guarded at all: each one finishes the handshake, also of a client
that has declared nothing.
-/

namespace TC.Proof.Server

open TC.Impl.Server TC.Impl.ThreadPool TC.Impl.Protocol TC.Proof.ThreadPool
open TC.Proof.Protocol (sentShort)

/-! ## What a client has declared -/

/-- The number of extensions that an ExtInfo packet declares. -/
def sentCount (packet : List Byte) : BitVec 16 :=
  let bytes := (packet.drop maxStrLen).take 2
  sentShort (bytes.getD 0 0) (bytes.getD 1 0)

/-- The ExtInfo packet of a turn. -/
def infoPacket (t : Taken) : Option (List Byte) :=
  if t.func = .handleCpeExtinfo then t.before.pendingPacketBuffer else none

/-- The counts that were declared. -/
def counts (log : List Taken) : List Int := (log.filterMap infoPacket).map fun packet => (sentCount packet).toInt

/-- The number of ExtEntry packets. -/
def entries (log : List Taken) : Nat := log.countP (·.func = .handleCpeExtentry)

/-- How often the handshake was finished. -/
def finals (log : List Taken) : Nat := log.countP (·.finalizes)

/-- The count of an ExtInfo packet is decoded as it was sent. -/
def Exact (t : Taken) : Prop := ∀ packet, infoPacket t = some packet → shortAt packet maxStrLen = sentCount packet

section

variable (log : List Taken) (t : Taken)

theorem counts_snoc : counts (log ++ [t]) =
    counts log ++ ((infoPacket t).map fun packet => (sentCount packet).toInt).toList := by
  rw [counts, List.filterMap_append, List.map_append]
  rcases hinfo : infoPacket t with _ | packet <;> simp [counts, hinfo]

theorem entries_snoc : entries (log ++ [t]) = entries log + if t.func = .handleCpeExtentry then 1 else 0 := by
  simp [entries, List.countP_append, List.countP_singleton]

theorem finals_snoc : finals (log ++ [t]) = finals log + if t.finalizes then 1 else 0 := by
  simp [finals, List.countP_append, List.countP_singleton]

end

/-! ## The order -/

/-- One ExtInfo packet, then as many ExtEntry packets as it declares, and then
the end of the handshake, which is the support level if it was asked for. -/
structure InOrder (before : List Taken) (t : Taken) : Prop where
  info : t.func = .handleCpeExtinfo → counts before = []
  entry : t.func = .handleCpeExtentry → ∃ n, counts before = [n] ∧ entries before < n
  final : t.finalizes = true → finals before = 0 ∧ counts before = [(entries (before ++ [t]) : Int)] ∧
    (supports t.after customBlocks = true → t.func = .handleCpeCustomBlockSupportLevel)

/-- What a client has to keep to. -/
structure Expected (before : List Taken) (t : Taken) : Prop where
  info : t.func = .handleCpeExtinfo → ∀ n ∈ counts before, 0 ≤ n
  entry : t.func = .handleCpeExtentry → counts before ≠ [] ∧ ∀ n ∈ counts before, 0 ≤ n
  level : t.func = .handleCpeCustomBlockSupportLevel → finals before = 0 ∧ counts before = [(entries before : Int)]

instance (before : List Taken) (t : Taken) : Decidable (Expected before t) :=
  decidable_of_iff ((t.func = .handleCpeExtinfo → ∀ n ∈ counts before, 0 ≤ n) ∧
    (t.func = .handleCpeExtentry → counts before ≠ [] ∧ ∀ n ∈ counts before, 0 ≤ n) ∧
    (t.func = .handleCpeCustomBlockSupportLevel → finals before = 0 ∧ counts before = [(entries before : Int)]))
    ⟨fun h => ⟨h.1, h.2.1, h.2.2⟩, fun h => ⟨h.info, h.entry, h.level⟩⟩

/-- What a turn does for the handshake of a session that stays. -/
inductive Progress (s s' : Session) : Func → Bool → Prop where
  | info {packet : List Byte} (buffer : s.pendingPacketBuffer = some packet)
      (first : s.remainingCpeExtPackets.toInt < 0)
      (remaining : s'.remainingCpeExtPackets = shortAt packet maxStrLen) : Progress s s' .handleCpeExtinfo false
  | entry {fin : Bool} (expected : s.remainingCpeExtPackets ≠ 0)
      (remaining : s'.remainingCpeExtPackets = s.remainingCpeExtPackets - 1)
      (last : fin = true → s'.remainingCpeExtPackets = 0 ∧ supports s' customBlocks = false) :
      Progress s s' .handleCpeExtentry fin
  | level (remaining : s'.remainingCpeExtPackets = s.remainingCpeExtPackets) :
      Progress s s' .handleCpeCustomBlockSupportLevel true
  | other {f : Func} {fin : Bool} (info : f ≠ .handleCpeExtinfo) (entry : f ≠ .handleCpeExtentry)
      (level : f ≠ .handleCpeCustomBlockSupportLevel)
      (remaining : s'.remainingCpeExtPackets = s.remainingCpeExtPackets)
      (plain : fin = true → s'.authenticatedService ≠ none ∧ s'.supportsCpe = false) : Progress s s' f fin

section

variable {call : Call} {w : World} {slot : Slot} {s s' : Session} {f : Func} {fin : Bool} {next : Option Func}

theorem progress_quiet
    (hf : f ≠ .handleCpeExtinfo ∧ f ≠ .handleCpeExtentry ∧ f ≠ .handleCpeCustomBlockSupportLevel)
    (h : s'.remainingCpeExtPackets = s.remainingCpeExtPackets) : Progress s s' f false :=
  .other hf.1 hf.2.1 hf.2.2 h (fun h => by cases h)

theorem Turn.progress (h : Turn call w slot s f fin next s') (hstays : s'.currentGeneration = s.currentGeneration) :
    Progress s s' f fin := by
  cases h with
  | gone later => omega
  | waits _ same | begins _ _ _ _ same | stores _ _ _ _ same | dispatches _ _ _ _ _ same | negotiates _ same
  | joins same => exact progress_quiet (by decide) same.remaining
  | listens handles same =>
    cases handles with
    | extinfo cpe buffer first => exact .info buffer first same.remaining
    | unknown cpe buffer expected index => exact .entry expected same.remaining (fun h => by cases h)
    | known declares more => exact .entry declares.expected same.remaining (fun h => by cases h)
    | negotiation | setBlock | position => exact progress_quiet (by decide) same.remaining
  | finalizes finishes same =>
    cases finishes with
    | entry declares last plain =>
      refine .entry declares.expected same.remaining fun _ => ⟨same.remaining.trans last, ?_⟩
      exact (supports_congr same.versions customBlocks).trans plain
    | identification unknown =>
      refine .other (by decide) (by decide) (by decide) same.remaining fun _ => ⟨?_, same.cpe⟩
      rw [same.service]
      exact Option.some_ne_none _
    | level cpe => exact .level same.remaining

/-- A turn keeps who the client is, or it finds out. -/
theorem Turn.identity (h : Turn call w slot s f fin next s') (hstays : s'.currentGeneration = s.currentGeneration) :
    s'.authenticatedService = s.authenticatedService ∧ s'.supportsCpe = s.supportsCpe ∨
      s.authenticatedService = none ∧ s'.authenticatedService ≠ none := by
  cases h with
  | gone later => omega
  | waits _ same | begins _ _ _ _ same | stores _ _ _ _ same | dispatches _ _ _ _ _ same
  | joins same => exact .inl ⟨same.service, same.cpe⟩
  | negotiates unknown same =>
    refine .inr ⟨unknown, ?_⟩
    rw [same.service]
    exact Option.some_ne_none _
  | listens handles same =>
    cases handles with
    | _ => exact .inl ⟨same.service, same.cpe⟩
  | finalizes finishes same =>
    cases finishes with
    | identification unknown =>
      refine .inr ⟨unknown, ?_⟩
      rw [same.service]
      exact Option.some_ne_none _
    | entry | level => exact .inl ⟨same.service, same.cpe⟩

end

/-! ## The count -/

/-- Where a handshake is, as far as the client has kept to it. -/
inductive Counts (log : List Taken) (s : Session) : Prop where
  | start (counts_ : counts log = []) (entries_ : entries log = 0) (finals_ : finals log = 0)
      (remaining : s.remainingCpeExtPackets.toInt < 0)
  | spoilt {n : Int} (counts_ : counts log = [n]) (negative : n < 0)
  | expecting {n : Int} (counts_ : counts log = [n])
      (remaining : entries log + s.remainingCpeExtPackets.toInt = n)
      (nonneg : 0 ≤ s.remainingCpeExtPackets.toInt)
      (finals_ : finals log ≠ 0 → s.remainingCpeExtPackets = 0)

section

variable {log : List Taken} {s s' : Session} {f : Func} {fin : Bool} {call : Call}

theorem toInt_pred {r : BitVec 16} (h : 0 < r.toInt) : (r - 1).toInt = r.toInt - 1 := by
  have hlt := BitVec.toInt_lt (x := r)
  rw [BitVec.toInt_sub]
  exact Int.bmod_eq_of_le (by simp; omega) (by simp at hlt ⊢; omega)

theorem toInt_pos {r : BitVec 16} (h : 0 ≤ r.toInt) (hne : r ≠ 0) : 0 < r.toInt := by
  rcases Int.lt_or_eq_of_le h with hlt | heq
  · exact hlt
  · exact absurd (BitVec.eq_of_toInt_eq heq.symm) hne

theorem Progress.plain (h : Progress s s' f fin) (hinfo : f ≠ .handleCpeExtinfo) (hentry : f ≠ .handleCpeExtentry)
    (hlevel : f ≠ .handleCpeCustomBlockSupportLevel)
    (hcpe : s'.authenticatedService = none ∨ s'.supportsCpe = true) : fin = false := by
  cases h with
  | info => exact absurd rfl hinfo
  | entry => exact absurd rfl hentry
  | level => exact absurd rfl hlevel
  | other _ _ _ _ plain =>
    by_contra hfin
    obtain ⟨hknown, hplain⟩ := plain (by simpa using hfin)
    rcases hcpe with hnone | hcpe
    · exact hknown hnone
    · exact Bool.false_ne_true (hplain.symm.trans hcpe)

/-- The last entry leaves nothing to wait for. -/
theorem entries_last (call : Call) (fin : Bool) {n : Int}
    (hremaining : entries log + s.remainingCpeExtPackets.toInt = n)
    (hpos : 0 < s.remainingCpeExtPackets.toInt)
    (hcount : s'.remainingCpeExtPackets = s.remainingCpeExtPackets - 1) :
    entries (log ++ [⟨call, .handleCpeExtentry, s, s', fin⟩]) + s'.remainingCpeExtPackets.toInt = n := by
  rw [entries_snoc, if_pos rfl, hcount, toInt_pred hpos]
  push_cast
  omega

/-- For a handshake in order, the next turn is in order if and only if it was
expected. -/
theorem Counts.inOrder_iff (h : Counts log s) (hp : Progress s s' f fin)
    (hcpe : s'.authenticatedService = none ∨ s'.supportsCpe = true) :
    InOrder log ⟨call, f, s, s', fin⟩ ↔ Expected log ⟨call, f, s, s', fin⟩ := by
  cases hp with
  | info buffer first remaining =>
    constructor
    · intro ho
      refine ⟨fun _ n hn => ?_, (fun hf => by cases hf), (fun hf => by cases hf)⟩
      rw [ho.info rfl] at hn
      cases hn
    · intro he
      refine ⟨fun _ => ?_, (fun hf => by cases hf), (fun hf => by cases hf)⟩
      cases h with
      | start counts_ => exact counts_
      | spoilt counts_ negative =>
        have := he.info rfl _ (counts_ ▸ List.mem_singleton_self _)
        omega
      | expecting _ _ nonneg => omega
  | entry expected remaining last =>
    constructor
    · intro ho
      refine ⟨(fun hf => by cases hf), fun _ => ?_, (fun hf => by cases hf)⟩
      obtain ⟨n, hcounts, hn⟩ := ho.entry rfl
      rw [hcounts]
      refine ⟨List.cons_ne_nil _ _, fun m hm => ?_⟩
      rw [List.mem_singleton.mp hm]
      omega
    · intro he
      obtain ⟨hne, hnonneg⟩ := he.entry rfl
      cases h with
      | start counts_ => exact absurd counts_ hne
      | spoilt counts_ negative =>
        have := hnonneg _ (counts_ ▸ List.mem_singleton_self _)
        omega
      | expecting counts_ left nonneg finals_ =>
        have hpos := toInt_pos nonneg expected
        refine ⟨(fun hf => by cases hf), fun _ => ⟨_, counts_, by omega⟩, fun hfin => ⟨?_, ?_, fun hs => ?_⟩⟩
        · by_contra hfinals
          exact expected (finals_ hfinals)
        · have hlast := entries_last call fin left hpos remaining
          rw [(last hfin).1] at hlast
          rw [counts_, ← hlast]
          simp
        · exact absurd hs (by simp [(last hfin).2])
  | level remaining =>
    have hentries : entries (log ++ [⟨call, .handleCpeCustomBlockSupportLevel, s, s', true⟩]) = entries log := by
      rw [entries_snoc, if_neg (fun hf => by cases hf), Nat.add_zero]
    constructor
    · intro ho
      obtain ⟨hfinals, hcounts, -⟩ := ho.final rfl
      rw [hentries] at hcounts
      exact ⟨(fun hf => by cases hf), (fun hf => by cases hf), fun _ => ⟨hfinals, hcounts⟩⟩
    · intro he
      obtain ⟨hfinals, hcounts⟩ := he.level rfl
      refine ⟨(fun hf => by cases hf), (fun hf => by cases hf), fun _ => ⟨hfinals, ?_, fun _ => rfl⟩⟩
      rw [hentries, hcounts]
  | other info entry level remaining plain =>
    have hfin := (Progress.other info entry level remaining plain).plain info entry level hcpe
    subst hfin
    exact ⟨fun _ => ⟨fun hf => absurd hf info, fun hf => absurd hf entry, fun hf => absurd hf level⟩,
      fun _ => ⟨fun hf => absurd hf info, fun hf => absurd hf entry, (fun hf => by cases hf)⟩⟩

theorem Counts.quiet (h : Counts log s) (hinfo : f ≠ .handleCpeExtinfo) (hentry : f ≠ .handleCpeExtentry)
    (hremaining : s'.remainingCpeExtPackets = s.remainingCpeExtPackets)
    (hfin : fin = true → s.remainingCpeExtPackets = 0) : Counts (log ++ [⟨call, f, s, s', fin⟩]) s' := by
  have hcounts : counts (log ++ [⟨call, f, s, s', fin⟩]) = counts log := by
    rw [counts_snoc, infoPacket, if_neg hinfo]
    exact List.append_nil _
  have hentries : entries (log ++ [⟨call, f, s, s', fin⟩]) = entries log := by
    rw [entries_snoc, if_neg hentry, Nat.add_zero]
  cases h with
  | start counts_ entries_ finals_ remaining =>
    refine .start (hcounts.trans counts_) (hentries.trans entries_) ?_ (hremaining ▸ remaining)
    rw [finals_snoc, finals_, if_neg]
    intro h
    rw [hfin h] at remaining
    exact absurd remaining (by decide)
  | spoilt counts_ negative => exact .spoilt (hcounts.trans counts_) negative
  | expecting counts_ left nonneg finals_ =>
    refine .expecting (hcounts.trans counts_) ?_ (hremaining ▸ nonneg) fun h => ?_
    · rw [hentries, hremaining, left]
    · rw [hremaining]
      rw [finals_snoc] at h
      split at h
      · rename_i hf
        exact hfin hf
      · exact finals_ h

/-- An expected turn keeps the count. -/
theorem Counts.step (h : Counts log s) (hp : Progress s s' f fin)
    (hexact : Exact ⟨call, f, s, s', fin⟩) (hcpe : s'.authenticatedService = none ∨ s'.supportsCpe = true)
    (hexpected : Expected log ⟨call, f, s, s', fin⟩) : Counts (log ++ [⟨call, f, s, s', fin⟩]) s' := by
  have hp' := hp
  cases hp with
  | info buffer first remaining =>
    rename_i packet
    have hinfo : infoPacket ⟨call, .handleCpeExtinfo, s, s', false⟩ = some packet := by
      rw [infoPacket, if_pos rfl, buffer]
    have hcounts := counts_snoc log ⟨call, .handleCpeExtinfo, s, s', false⟩
    have hentries := entries_snoc log ⟨call, .handleCpeExtinfo, s, s', false⟩
    have hfinals := finals_snoc log ⟨call, .handleCpeExtinfo, s, s', false⟩
    rw [hinfo] at hcounts
    rw [hexact packet hinfo] at remaining
    cases h with
    | start counts_ entries_ finals_ _ =>
      rw [counts_] at hcounts
      rw [entries_] at hentries
      rw [finals_] at hfinals
      rcases Int.lt_or_le (sentCount packet).toInt 0 with hneg | hnonneg
      · exact .spoilt hcounts hneg
      · refine .expecting hcounts ?_ (remaining ▸ hnonneg) fun h => absurd hfinals h
        rw [hentries, remaining]
        simp
    | spoilt counts_ negative =>
      have := hexpected.info rfl _ (counts_ ▸ List.mem_singleton_self _)
      omega
    | expecting _ _ nonneg => omega
  | entry expected remaining last =>
    obtain ⟨hne, hnonneg⟩ := hexpected.entry rfl
    have hcounts : counts (log ++ [⟨call, .handleCpeExtentry, s, s', fin⟩]) = counts log := by
      rw [counts_snoc, infoPacket, if_neg (fun hf => by cases hf)]
      exact List.append_nil _
    cases h with
    | start counts_ => exact absurd counts_ hne
    | spoilt counts_ negative => exact .spoilt (hcounts.trans counts_) negative
    | expecting counts_ left nonneg finals_ =>
      have hpos := toInt_pos nonneg expected
      refine .expecting (hcounts.trans counts_) (entries_last call fin left hpos remaining) ?_ fun hfinals => ?_
      · rw [remaining, toInt_pred hpos]
        omega
      · rw [finals_snoc] at hfinals
        split at hfinals
        · rename_i hfin
          exact (last hfin).1
        · exact absurd (finals_ hfinals) expected
  | level remaining =>
    obtain ⟨-, hcounts⟩ := hexpected.level rfl
    refine h.quiet (by decide) (by decide) remaining fun _ => ?_
    cases h with
    | start counts_ =>
      rw [counts_] at hcounts
      cases hcounts
    | spoilt counts_ negative =>
      rw [counts_, List.singleton_inj] at hcounts
      omega
    | expecting counts_ left =>
      rw [counts_, List.singleton_inj] at hcounts
      have hzero : s.remainingCpeExtPackets.toInt = 0 := by omega
      exact BitVec.eq_of_toInt_eq hzero
  | other info entry level remaining plain =>
    have hfin := hp'.plain info entry level hcpe
    exact h.quiet info entry remaining fun h => absurd (hfin.symm.trans h) Bool.false_ne_true

end

/-! ## Runs -/

/-- A handshake is in order if and only if the client has kept to it, and then
it is where its count says. -/
def Keeps (log : List Taken) (s : Session) : Prop :=
  (Causal InOrder log ↔ Causal Expected log) ∧ (Causal Expected log → Counts log s)

theorem Keeps.step {log : List Taken} {s s' : Session} {f : Func} {fin : Bool} {call : Call} (h : Keeps log s)
    (hp : Progress s s' f fin) (hexact : Exact ⟨call, f, s, s', fin⟩)
    (hcpe : s'.authenticatedService = none ∨ s'.supportsCpe = true) :
    Keeps (log ++ [⟨call, f, s, s', fin⟩]) s' := by
  obtain ⟨hiff, hcounts⟩ := h
  constructor
  · rw [causal_snoc, causal_snoc, hiff]
    exact and_congr_right fun hexpected => (hcounts hexpected).inOrder_iff hp hcpe
  · rw [causal_snoc]
    rintro ⟨hexpected, ht⟩
    exact (hcounts hexpected).step hp hexact hcpe ht

theorem lawful_handshake : Lawful (fun _ _ => True) fun log _ s =>
    (s.authenticatedService = none ∨ s.supportsCpe = true) → (∀ t ∈ log, Exact t) → Keeps log s := by
  have hnew : ∀ s clientSocket s', Same (newSession s clientSocket) s' → Keeps [] s' := by
    intro s clientSocket s' hsame
    refine ⟨⟨fun _ => causal_nil, fun _ => causal_nil⟩, fun _ => .start rfl rfl rfl ?_⟩
    rw [hsame.remaining]
    show (-1 : BitVec 16).toInt < 0
    decide
  refine ⟨fun s clientSocket s' h _ _ => hnew s clientSocket s' h,
    fun _ _ s clientSocket s' _ _ _ h _ _ => hnew s clientSocket s' h, ?_⟩
  intro w call slot log f fin next s' _ h htook hcpe hexact
  refine (h ?_ fun t ht => hexact t (List.mem_append_left _ ht)).step (htook.turn.progress htook.stays)
    (hexact _ (by simp)) hcpe
  rcases htook.turn.identity htook.stays with ⟨hservice, hsame⟩ | ⟨hnone, -⟩
  · rwa [hservice, hsame] at hcpe
  · exact .inl hnone

section

variable {config : Config} {numThreads maxBlockingThreads : Nat}
  {tasks : Priority → Nat → Context Func Arg} {sessions : Slot → Session}

/-- After every run, the handshake of a CPE session was in order if and only if
the client has kept to it, as long as counts are decoded as they were sent. -/
theorem handshake_inOrder {ls : List Label} {w : World} {slot : Slot}
    (h : run Impl.Server.step (start config numThreads maxBlockingThreads tasks sessions) ls = some w)
    (hh : w.halted = none) (hlive : Live w slot) (hcpe : (w.sessionBuffer slot).supportsCpe = true)
    (log : List Taken)
    (hlog : log = turns slot (generation w slot)
      (start config numThreads maxBlockingThreads tasks sessions) ls)
    (hexact : ∀ t ∈ log, Exact t) : Causal InOrder log ↔ Causal Expected log := by
  obtain ⟨-, -, hP, -⟩ := serving_run lawful_handshake (along_of_forall fun _ _ _ => trivial) h hh hlive
  rw [← hlog] at hP
  exact (hP (.inr hcpe) hexact).1

end

/-- The client has CustomBlocks, and finishes the handshake when it is asked. -/
def customBlocksClient : List Label :=
  talk listening (worldWithDefault "lobby") (negotiation [(ascii "CustomBlocks", 1), (ascii "TwoWayPing", 1),
    (ascii "ExtendedBlocks", 1)] ++ [[0x13], [1]]) 44

theorem handshake_inOrder_customBlocks : ∃ w log,
    run Impl.Server.step (worldWithDefault "lobby") customBlocksClient = some w ∧
    log = turns first (generation w first) (worldWithDefault "lobby") customBlocksClient ∧
    counts log = [3] ∧ entries log = 3 ∧ finals log = 1 ∧ Causal InOrder log := by
  obtain ⟨w, hw, hh, hlive, hcpe, hexact, hcounts, hentries, hfinals, hexpected⟩ : ∃ w,
      run Impl.Server.step (worldWithDefault "lobby") customBlocksClient = some w ∧
      let log := turns first (generation w first) (worldWithDefault "lobby") customBlocksClient
      w.halted = none ∧ Live w first ∧ (w.sessionBuffer first).supportsCpe = true ∧
      (∀ t ∈ log, (infoPacket t).all fun packet => shortAt packet maxStrLen = sentCount packet) ∧
      counts log = [3] ∧ entries log = 3 ∧ finals log = 1 ∧ Causal Expected log :=
    exists_of_decide (by decide +kernel)
  refine ⟨w, _, hw, rfl, hcounts, hentries, hfinals, ?_⟩
  refine (handshake_inOrder hw hh hlive hcpe _ rfl fun t ht packet hpacket => ?_).mpr hexpected
  have hall := hexact t ht
  rw [hpacket] at hall
  simpa using hall

theorem finals_le_one {log : List Taken} (h : Causal InOrder log) : finals log ≤ 1 := by
  induction log using List.reverseRecOn with
  | nil => exact Nat.zero_le 1
  | append_singleton log t ih =>
    obtain ⟨hlog, ht⟩ := causal_snoc.mp h
    rw [finals_snoc]
    split
    · rename_i hfin
      rw [(ht.final hfin).1]
    · exact ih hlog

/-- The client declares nothing in order: an entry comes first, then a negative
count and another count, and it sends the support level twice. -/
def unordered : List Label :=
  talk listening (worldWithDefault "lobby") [[0x00], identification 0x42, [0x11], extEntry (ascii "ExtendedBlocks") 1,
    [0x10], extInfo (ascii "client") (-1), [0x10], extInfo (ascii "client") 1, [0x13], [1], [0x13], [1]] 48

/-- Everything is accepted, and the handshake is finished twice. -/
theorem finished_twice : ∃ w log,
    run Impl.Server.step (worldWithDefault "lobby") unordered = some w ∧
    log = turns first (generation w first) (worldWithDefault "lobby") unordered ∧
    w.halted = none ∧ Live w first ∧ (w.sessionBuffer first).supportsCpe = true ∧
    (log.map Taken.func).filter (· ∈ [.handleCpeExtinfo, .handleCpeExtentry, .handleCpeCustomBlockSupportLevel]) =
      [.handleCpeExtentry, .handleCpeExtinfo, .handleCpeExtinfo, .handleCpeCustomBlockSupportLevel,
        .handleCpeCustomBlockSupportLevel] ∧
    counts log = [-1, 1] ∧ finals log = 2 ∧ ¬ Causal InOrder log := by
  obtain ⟨w, hw, hh, hlive, hcpe, hfuncs, hcounts, hfinals⟩ : ∃ w,
      run Impl.Server.step (worldWithDefault "lobby") unordered = some w ∧
      let log := turns first (generation w first) (worldWithDefault "lobby") unordered
      w.halted = none ∧ Live w first ∧ (w.sessionBuffer first).supportsCpe = true ∧
      (log.map Taken.func).filter (· ∈ [.handleCpeExtinfo, .handleCpeExtentry, .handleCpeCustomBlockSupportLevel]) =
        [.handleCpeExtentry, .handleCpeExtinfo, .handleCpeExtinfo, .handleCpeCustomBlockSupportLevel,
          .handleCpeCustomBlockSupportLevel] ∧
      counts log = [-1, 1] ∧ finals log = 2 := exists_of_decide (by decide +kernel)
  refine ⟨w, _, hw, rfl, hh, hlive, hcpe, hfuncs, hcounts, hfinals, fun h => ?_⟩
  have hone := finals_le_one h
  rw [hfinals] at hone
  omega

end TC.Proof.Server
