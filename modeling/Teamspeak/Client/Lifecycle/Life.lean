import Mathlib.Logic.Relation
import Mathlib.Tactic.SplitIfs
import Teamspeak.Lib.Turns

/-!
# The life of a connection

What connecting and leaving come to, whatever does it: there is one attempt at a time; it
fails, or a session starts; a session ends; and an attempt is over once `disconnected` is
told of it.  `Life.Next` is what can come next, and `Told` what is then true of all that was
told.
-/

namespace Teamspeak.Client

/-- What is told of an attempt. -/
inductive Notice
  | failed (a : Nat)
  | started (a : Nat)
  | connected (a : Nat)
  | ended (a : Nat)
  | disconnected (a : Nat)
  deriving DecidableEq

namespace Notice

def isStarted : Notice → Bool
  | started _ => true
  | _ => false

def isEnded : Notice → Bool
  | ended _ => true
  | _ => false

def isConnected : Notice → Bool
  | connected _ => true
  | _ => false

def isDisconnected : Notice → Bool
  | disconnected _ => true
  | _ => false

end Notice

inductive Stage
  | over
  | connecting
  | connected
  /-- Its session, if it has one, is being left. -/
  | leaving (session : Bool)
  deriving DecidableEq

/-- A session is on. -/
def Stage.inSession : Stage → Bool
  | connected | leaving true => true
  | _ => false

/-- An attempt that connects, or is connected. -/
def Stage.isUp : Stage → Bool
  | connecting | connected => true
  | _ => false

structure Life where
  stage : Stage := .over
  attempt : Nat := 0
  notices : List Notice := []

namespace Life

/-- What can come next. -/
inductive Next : Life → Life → Prop
  | begins (a : Nat) (l : List Notice) : Next ⟨.over, a, l⟩ ⟨.connecting, a + 1, l⟩
  | fails (a : Nat) (l : List Notice) :
    Next ⟨.connecting, a, l⟩ ⟨.over, a, l ++ [.failed a, .disconnected a]⟩
  | givesUp (a : Nat) (l : List Notice) :
    Next ⟨.connecting, a, l⟩ ⟨.leaving false, a, l ++ [.failed a]⟩
  | connects (a : Nat) (l : List Notice) :
    Next ⟨.connecting, a, l⟩ ⟨.connected, a, l ++ [.started a, .connected a]⟩
  | leaves (a : Nat) (l : List Notice) : Next ⟨.connected, a, l⟩ ⟨.leaving true, a, l⟩
  | drops (a : Nat) (l : List Notice) :
    Next ⟨.connected, a, l⟩ ⟨.over, a, l ++ [.ended a, .disconnected a]⟩
  | left (a : Nat) (l : List Notice) :
    Next ⟨.leaving false, a, l⟩ ⟨.over, a, l ++ [.disconnected a]⟩
  | leftSession (a : Nat) (l : List Notice) :
    Next ⟨.leaving true, a, l⟩ ⟨.over, a, l ++ [.ended a, .disconnected a]⟩

/-- The attempts up to this one are no longer waited for. -/
def settledTo (l : Life) : Nat := if l.stage = .connecting then l.attempt - 1 else l.attempt

/-- With the attempts up to this one all is over. -/
def overTo (l : Life) : Nat := if l.stage = .over then l.attempt else l.attempt - 1

/-- What is true of all that was told. -/
structure Told (l : Life) : Prop where
  pos : l.stage ≠ .over → 0 < l.attempt
  settled : ∀ a, l.notices.count (.started a) + l.notices.count (.failed a) =
    if 0 < a ∧ a ≤ l.settledTo then 1 else 0
  ended : ∀ a, l.notices.count (.ended a) + (if a = l.attempt ∧ l.stage.inSession then 1 else 0) =
    l.notices.count (.started a)
  finished : ∀ a, l.notices.count (.disconnected a) =
    if 0 < a ∧ a ≤ l.overTo then 1 else 0
  connections : Log.Turns Notice.isConnected Notice.isDisconnected l.notices
  starts : Log.Turns Notice.isStarted Notice.isEnded l.notices
  ends : Log.Turns Notice.isEnded Notice.isStarted l.notices
  /-- No session is on: nothing is waited for. -/
  shut : l.stage.inSession = false → Log.Shut Notice.isConnected Notice.isDisconnected l.notices ∧
    Log.Shut Notice.isStarted Notice.isEnded l.notices
  running : l.stage.inSession = true → Log.Shut Notice.isEnded Notice.isStarted l.notices

theorem told_init : ({} : Life).Told where
  pos h := absurd rfl h
  settled a := by simp [settledTo]; omega
  ended a := by simp [Stage.inSession]
  finished a := by simp [overTo]; omega
  connections := Log.Founded.nil
  starts := Log.Founded.nil
  ends := Log.Founded.nil
  shut _ := ⟨Log.Shut.nil, Log.Shut.nil⟩
  running h := by cases h

/-- A later point: of a later attempt, or of the same one, which is not up again once it was
not. -/
def Onward (l l' : Life) : Prop :=
  l.attempt < l'.attempt ∨ l.attempt = l'.attempt ∧ (l'.stage.isUp = true → l.stage.isUp = true)

theorem Onward.of_next {l l' : Life} (h : Next l l') : l.Onward l' := by
  cases h with
  | begins a l => exact Or.inl (Nat.lt_succ_self a)
  | connects a l => exact Or.inr ⟨rfl, fun _ => rfl⟩
  | _ => exact Or.inr ⟨rfl, fun h => by cases h⟩

theorem onward_of_reach {l l' : Life} (h : Relation.ReflTransGen Next l l') : l.Onward l' := by
  induction h with
  | refl => exact Or.inr ⟨rfl, id⟩
  | tail _ hn ih =>
    rcases ih with hlt | ⟨heq, hup⟩
    · rcases Onward.of_next hn with hlt' | ⟨heq', -⟩
      · exact Or.inl (Nat.lt_trans hlt hlt')
      · exact Or.inl (heq' ▸ hlt)
    · rcases Onward.of_next hn with hlt' | ⟨heq', hup'⟩
      · exact Or.inl (heq ▸ hlt')
      · exact Or.inr ⟨heq.trans heq', hup ∘ hup'⟩

/-! ### What comes next -/

section Next

variable {a : Nat} {l : List Notice}

theorem Told.begins (h : Told ⟨.over, a, l⟩) : Told ⟨.connecting, a + 1, l⟩ where
  pos _ := Nat.succ_pos a
  settled := h.settled
  ended b := by
    have hb := h.ended b
    simpa [Stage.inSession] using hb
  finished := h.finished
  connections := h.connections
  starts := h.starts
  ends := h.ends
  shut _ := h.shut rfl
  running hs := by cases hs

theorem Told.givesUp (h : Told ⟨.connecting, a, l⟩) :
    Told ⟨.leaving false, a, l ++ [.failed a]⟩ where
  pos _ := h.pos (by simp)
  settled b := by
    have ha := h.pos (by simp)
    have hb := h.settled b
    simp [List.count_append, List.count_cons, settledTo] at ha hb ⊢
    split_ifs at hb ⊢ <;> omega
  ended b := by
    have hb := h.ended b
    simpa [Stage.inSession, List.count_cons] using hb
  finished b := by
    have hb := h.finished b
    simpa [List.count_cons, overTo] using hb
  connections := h.connections.append (by simp [Notice.isConnected])
  starts := h.starts.append (by simp [Notice.isStarted])
  ends := h.ends.append (by simp [Notice.isEnded])
  shut _ :=
    ⟨(h.shut rfl).1.append (by simp [Notice.isConnected]),
      (h.shut rfl).2.append (by simp [Notice.isStarted])⟩
  running hs := by cases hs

theorem Told.left (h : Told ⟨.leaving false, a, l⟩) : Told ⟨.over, a, l ++ [.disconnected a]⟩ where
  pos hs := absurd rfl hs
  settled b := by
    have hb := h.settled b
    simpa [List.count_cons, settledTo] using hb
  ended b := by
    have hb := h.ended b
    simpa [Stage.inSession, List.count_cons] using hb
  finished b := by
    have ha := h.pos (by simp)
    have hb := h.finished b
    simp [List.count_append, List.count_cons, overTo] at ha hb ⊢
    split_ifs at hb ⊢ <;> omega
  connections := h.connections.append (by simp [Notice.isConnected])
  starts := h.starts.append (by simp [Notice.isStarted])
  ends := h.ends.append (by simp [Notice.isEnded])
  shut _ := ⟨Log.Shut.of_closes rfl rfl, (h.shut rfl).2.append (by simp [Notice.isStarted])⟩
  running hs := by cases hs

theorem Told.connects (h : Told ⟨.connecting, a, l⟩) :
    Told ⟨.connected, a, l ++ [.started a, .connected a]⟩ where
  pos _ := h.pos (by simp)
  settled b := by
    have ha := h.pos (by simp)
    have hb := h.settled b
    simp [List.count_append, List.count_cons, settledTo] at ha hb ⊢
    split_ifs at hb ⊢ <;> omega
  ended b := by
    have hb := h.ended b
    simp [Stage.inSession, List.count_cons] at hb ⊢
    split_ifs <;> omega
  finished b := by
    have hb := h.finished b
    simpa [List.count_cons, overTo] using hb
  connections := by
    rw [List.append_cons]
    refine (h.connections.append (by simp [Notice.isConnected])).concat fun _ => ?_
    exact (h.shut rfl).1.append (by simp [Notice.isConnected])
  starts := by
    rw [List.append_cons]
    exact (h.starts.concat fun _ => (h.shut rfl).2).append (by simp [Notice.isStarted])
  ends := h.ends.append (by simp [Notice.isEnded])
  shut hs := by cases hs
  running _ := by
    rw [List.append_cons]
    exact Log.Shut.append (Log.Shut.of_closes rfl rfl) (by simp [Notice.isEnded])

theorem Told.leaves (h : Told ⟨.connected, a, l⟩) : Told ⟨.leaving true, a, l⟩ where
  pos _ := h.pos (by simp)
  settled := h.settled
  ended := h.ended
  finished := h.finished
  connections := h.connections
  starts := h.starts
  ends := h.ends
  shut hs := by cases hs
  running _ := h.running rfl

/-- The end of a session. -/
theorem Told.endsSession {stage : Stage} (h : Told ⟨stage, a, l⟩) (hs : stage.inSession) :
    Told ⟨.over, a, l ++ [.ended a, .disconnected a]⟩ where
  pos ho := absurd rfl ho
  settled b := by
    have hb := h.settled b
    have hstage : stage ≠ .connecting := fun hc => by rw [hc] at hs; cases hs
    simpa [List.count_cons, settledTo, hstage] using hb
  ended b := by
    have hb : l.count (.ended b) + (if b = a then 1 else 0) = l.count (.started b) := by
      simpa [hs] using h.ended b
    simp [Stage.inSession, List.count_append, List.count_cons] at hb ⊢
    split_ifs at hb ⊢ <;> omega
  finished b := by
    have hstage : stage ≠ .over := fun hc => by rw [hc] at hs; cases hs
    have ha := h.pos hstage
    have hb := h.finished b
    simp [List.count_append, List.count_cons, overTo, hstage] at ha hb ⊢
    split_ifs at hb ⊢ <;> omega
  connections := h.connections.append (by simp [Notice.isConnected])
  starts := h.starts.append (by simp [Notice.isStarted])
  ends := by
    rw [List.append_cons]
    exact (h.ends.concat fun _ => h.running hs).append (by simp [Notice.isEnded])
  shut _ := by
    rw [List.append_cons]
    exact ⟨Log.Shut.of_closes rfl rfl,
      Log.Shut.append (Log.Shut.of_closes rfl rfl) (by simp [Notice.isStarted])⟩
  running ho := by cases ho

end Next

/-- What comes next keeps what was told true. -/
theorem Told.next {l l' : Life} (h : l.Told) (hn : Next l l') : l'.Told := by
  cases hn with
  | begins => exact h.begins
  | fails =>
    rw [List.append_cons]
    exact h.givesUp.left
  | givesUp => exact h.givesUp
  | connects => exact h.connects
  | leaves => exact h.leaves
  | drops => exact h.endsSession rfl
  | left => exact h.left
  | leftSession => exact h.endsSession rfl

/-- Whatever comes of a new connection is told truly. -/
theorem told_of_reach {l : Life} (h : Relation.ReflTransGen Next {} l) : l.Told := by
  induction h with
  | refl => exact told_init
  | tail _ hn ih => exact ih.next hn

end Life

end Teamspeak.Client
