import TeleClassic.Proof.Tasks.Phases
import Mathlib.Data.Finset.Option

/-!
# The discipline of action locks

A task should not take a lock that it holds, should release only locks that it
holds, and hold none when it returns (`Disciplined`). This is so as long as the
answers it gets are `Benign` (`disciplined_of_benign`). When the server's
identification was sent, `finalize_player_identification` releases the lock of
the session and so does its caller after it; and a new session that cannot be
scheduled, or that no joinable lets in, is kicked with `aquire_lock` by a task
that holds its lock.
-/

namespace TC.Proof.Tasks

open TC.Impl.Tasks
open Proc (Follows)
open TC.Impl.Server (Slot JoinRouter maxSessions_pos)

/-! ## Disciplined tasks -/

/-- The locks that are held after an operation. -/
def locksAfter (held : Finset Slot) : Op → Finset Slot
  | .pMutexLock slot => insert slot held
  | .pMutexUnlock slot => held.erase slot
  | _ => held

/-- No lock is taken that is held, and none released that is not, as long as the
answers are as `ok` says. -/
def discipline (ok : (op : Op) → Ans op → Prop) : Protocol Op Ans (Finset Slot) where
  allowed held
    | .pMutexLock slot => slot ∉ held
    | .pMutexUnlock slot => slot ∈ held
    | _ => True
  after held op ans held' := ok op ans ∧ held' = locksAfter held op

/-- The task starts without a lock, is disciplined, and has released all when it
returns. -/
def Disciplined (ok : (op : Op) → Ans op → Prop) (p : TaskM Unit) : Prop :=
  p.Follows (discipline ok) (fun _ held => held = ∅) ∅

/-- A task goes on after any answer. -/
theorem follows_answer {Q : Unit → Finset Slot → Prop} {held : Finset Slot} {op : Op}
    {next : Ans op → TaskM Unit} (h : Follows (discipline fun _ _ => True) Q held (.perform op next))
    (ans : Ans op) : Follows (discipline fun _ _ => True) Q (locksAfter held op) (next ans) :=
  h.2 ans _ ⟨trivial, rfl⟩

theorem discipline_allowed {ph : Phase} {op : Op} (h : Allowed false ph op) :
    (discipline Benign).allowed ph.held.toFinset op := by
  cases op with
  | pMutexLock slot =>
    obtain ⟨g, rfl⟩ | ⟨g, rfl⟩ | ⟨hfalse, -⟩ := h
    · exact Finset.notMem_empty slot
    · exact Finset.notMem_empty slot
    · cases hfalse
  | pMutexUnlock slot =>
    obtain ⟨g, rfl | rfl | rfl | ⟨hfalse, -⟩⟩ := h
    · exact Finset.mem_singleton_self slot
    · exact Finset.mem_singleton_self slot
    · exact Finset.mem_singleton_self slot
    · cases hfalse
  | _ => trivial

/-- An operation that is allowed leads to a phase, with the locks that it
leaves. -/
theorem next_held {ph : Phase} {op : Op} (h : Allowed false ph op) (ans : Ans op) :
    ∃ ph', ph.next op ans = some ph' ∧ ph'.held.toFinset = locksAfter ph.held.toFinset op := by
  cases op with
  | pMutexLock slot =>
    obtain ⟨g, rfl⟩ | ⟨g, rfl⟩ | ⟨hfalse, -⟩ := h
    · exact ⟨_, rfl, rfl⟩
    · exact ⟨_, rfl, rfl⟩
    · cases hfalse
  | pMutexUnlock slot =>
    have herase : (∅ : Finset Slot) = ({slot} : Finset Slot).erase slot := by simp
    obtain ⟨g, rfl | rfl | rfl | ⟨hfalse, -⟩⟩ := h
    · exact ⟨_, rfl, herase⟩
    · exact ⟨_, rfl, herase⟩
    · exact ⟨_, rfl, herase⟩
    · cases hfalse
  | currentGeneration slot =>
    obtain rfl | ⟨g, rfl | rfl⟩ := h
    · exact ⟨_, rfl, rfl⟩
    · refine ⟨_, rfl, ?_⟩
      split <;> rfl
    · refine ⟨_, rfl, ?_⟩
      split <;> rfl
  | advanceGeneration slot =>
    obtain ⟨g, rfl⟩ := h
    exact ⟨_, rfl, rfl⟩
  | takeId =>
    obtain rfl := h
    cases ans <;> exact ⟨_, rfl, rfl⟩
  | returnId slot =>
    obtain ⟨g, rfl⟩ := h
    exact ⟨_, rfl, rfl⟩
  | initialise slot =>
    obtain ⟨g, rfl⟩ := h
    exact ⟨_, rfl, rfl⟩
  | _ => exact ⟨ph, rfl, rfl⟩

/-- A task that gets benign answers is disciplined. -/
theorem disciplined_of_benign (router : JoinRouter) (task : Task) : Disciplined Benign (program router task) := by
  have hfollows : Follows (discipline Benign)
      (fun _ held => ∃ ph : Phase, held = ph.held.toFinset ∧ ph.held = none) ∅ (program router task) := by
    refine (follows_program false router task).map ?_ ?_ ?_
    · rintro ph _ op rfl hallowed
      exact discipline_allowed hallowed
    · rintro ph _ op ans _ rfl hallowed ⟨hok, rfl⟩
      obtain ⟨ph', hnext, hheld⟩ := next_held hallowed ans
      exact ⟨ph', ⟨.inr hok, hnext⟩, hheld.symm⟩
    · cases task <;> rfl
  refine hfollows.mono fun _ held hend => ?_
  obtain ⟨ph, rfl, hph⟩ := hend
  rw [hph, Option.toFinset_none]

/-! ## A handshake -/

def yes : Choice := {}

def no : Choice := { yes := false }

def acts (thread : Nat) (choices : List Choice) : List Label := choices.map (.act thread)

def firstSlot : Slot := ⟨0, maxSessions_pos⟩

/-- A server with one joinable. -/
def hub : JoinRouter := TC.Impl.Server.tcJoinRouterInit ["hub"] "hub"

/-- A client is accepted by the thread `t`, up to the schedule of the task that
listens to it. -/
def accepting (t : Nat) : List Label := .accept :: acts t [yes, yes, yes, yes, yes, yes]

/-- The opcode of the identification, and then its payload is received. -/
def hearing (t : Nat) : List Label :=
  acts t [yes, yes] ++ acts (t + 1) [yes, yes, no, yes, no, no, yes, yes] ++
    acts (t + 2) [yes, yes, no, yes, no, yes, { opcode := 0 }, yes, yes]

/-- The client is identified, up to the answer of the joinable. -/
def identifying (t : Nat) : List Label := acts (t + 3) [yes, yes, no, no, yes, no, yes, no, yes, yes, yes]

/-- The joinable lets the session in, and the lock is released. -/
def entering (t : Nat) : List Label := acts (t + 3) [{ interface := some 0 }, yes, yes]

/-- The joinable refuses, twice, and the session is kicked. -/
def refusing (t : Nat) : List Label := acts (t + 3) [no, yes, no, yes, yes, yes, yes, yes]

/-- The handshake of a client, up to the first release of the lock. -/
def handshake (t : Nat) : List Label := accepting t ++ hearing t ++ identifying t ++ entering t

/-- What a thread is about to do, and who holds the lock of the first session. -/
def about (labels : List Label) (thread : Nat) : Option (Option Op × Option Nat) :=
  (run (step hub) (init fun _ => none) labels).map fun s => (s.op? thread, s.shared.actionLock firstSlot)

/-- In a handshake that succeeds, a lock is released that no thread holds. In
one that the joinable refuses, and when a new session cannot be scheduled, a
thread waits for a lock that it holds itself. -/
theorem lock_released_twice :
    ¬ Disciplined (fun _ _ => True) (program hub (.session .handlePlayerIdentification firstSlot 0)) ∧
    about (handshake 0) 3 = some (some (.pMutexUnlock firstSlot), none) ∧
    about (accepting 0 ++ hearing 0 ++ identifying 0 ++ refusing 0) 3 = some (some (.pMutexLock firstSlot), some 3) ∧
    about (accepting 0 ++ acts 0 [no]) 0 = some (some (.pMutexLock firstSlot), some 0) := by
  refine ⟨fun h => ?_, by decide +kernel⟩
  have hlocked := follows_answer (follows_answer h ()) (0 : Int)
  have hfirst := follows_answer (follows_answer (follows_answer hlocked false) false) ()
  have hvalid := follows_answer (follows_answer (follows_answer hfirst false) ()) false
  have hsent := follows_answer (follows_answer (follows_answer hvalid true) ()) none
  have hjoined := follows_answer (follows_answer hsent (some 0)) ()
  have hreleased := follows_answer hjoined ()
  exact Finset.notMem_erase firstSlot _ hreleased.1

end TC.Proof.Tasks
