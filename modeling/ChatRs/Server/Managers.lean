import ChatRs.Proto

/-!
# Connections (`server/managers.rs`)

The map of senders, and the bounded channel behind each of them. The channel of a session is
made when the session is registered and known by its user id, so its sending half, as stored
under that id, has a single value.
-/

namespace ChatRs

def OUTBOX_DEPTH : Nat := 64

/-- `mpsc::Sender<ServerFrame>`, the sending half of the channel of `userId`. -/
structure Outgoing (userId : Uuid) where

structure ConnectionManager where
  senders : AList Outgoing

namespace ConnectionManager

def new : ConnectionManager := ⟨∅⟩

def insert (c : ConnectionManager) (userId : Uuid) (tx : Outgoing userId) : ConnectionManager :=
  ⟨c.senders.insert userId tx⟩

def remove (c : ConnectionManager) (userId : Uuid) : ConnectionManager :=
  ⟨c.senders.erase userId⟩

-- the pairs `(user_id, sender)`; the second is fixed by the first
def snapshot (c : ConnectionManager) : List Uuid := c.senders.keys

/-- `userId` has a sender in the map. -/
def Connected (c : ConnectionManager) (userId : Uuid) : Prop := userId ∈ c.senders

@[simp] theorem not_connected_new (userId : Uuid) : ¬ new.Connected userId :=
  AList.notMem_empty userId

@[simp] theorem connected_insert (c : ConnectionManager) (userId k : Uuid) (tx : Outgoing userId) :
    (c.insert userId tx).Connected k ↔ k = userId ∨ c.Connected k := AList.mem_insert _

@[simp] theorem connected_remove (c : ConnectionManager) (userId k : Uuid) :
    (c.remove userId).Connected k ↔ k ≠ userId ∧ c.Connected k := AList.mem_erase

theorem mem_snapshot (c : ConnectionManager) (userId : Uuid) :
    userId ∈ c.snapshot ↔ c.Connected userId := AList.mem_keys.symm

theorem snapshot_nodup (c : ConnectionManager) : c.snapshot.Nodup := c.senders.keys_nodup

/-- Removes several, one after the other. -/
def removeAll (c : ConnectionManager) (dead : List Uuid) : ConnectionManager :=
  dead.foldl remove c

/-- The evictions of a broadcast, one after the other, take away the senders on the list. -/
@[simp] theorem connected_removeAll (c : ConnectionManager) (dead : List Uuid) (k : Uuid) :
    (c.removeAll dead).Connected k ↔ k ∉ dead ∧ c.Connected k := by
  induction dead generalizing c with
  | nil => simp [removeAll]
  | cons d dead ih =>
    show ((c.remove d).removeAll dead).Connected k ↔ _
    rw [ih, connected_remove, List.mem_cons, not_or]
    tauto

end ConnectionManager

/-- The channel of a session: what its receiver has not taken yet, and whether the receiver is
gone. -/
structure Outbox where
  queue : List ServerFrame
  closed : Bool

namespace Outbox

/-- `mpsc::channel(OUTBOX_DEPTH)`. -/
def new : Outbox := ⟨[], false⟩

/-- `Sender::try_send`: `none` for `TrySendError::Full` and `TrySendError::Closed`. -/
def trySend (o : Outbox) (f : ServerFrame) : Option Outbox :=
  if o.closed ∨ o.queue.length ≥ OUTBOX_DEPTH then none
  else some { o with queue := o.queue ++ [f] }

/-- `Receiver::recv`, when there is something to receive. -/
def recv (o : Outbox) : Option (ServerFrame × Outbox) :=
  match o.queue with
  | [] => none
  | f :: rest => some (f, { o with queue := rest })

/-- The receiver is dropped, and with it what it has not taken. -/
def drop (_ : Outbox) : Outbox := ⟨[], true⟩

/-- A send goes into an open channel, at its end. -/
theorem trySend_eq_some {o o' : Outbox} {f : ServerFrame} (h : o.trySend f = some o') :
    o.closed = false ∧ o' = { o with queue := o.queue ++ [f] } := by
  rw [trySend] at h
  split at h
  · cases h
  · rename_i hfree
    exact ⟨Bool.eq_false_iff.mpr fun hc => hfree (Or.inl hc), (Option.some.inj h).symm⟩

/-- A receive takes the head of the queue and leaves the channel as open as it was. -/
theorem recv_eq_some {o o' : Outbox} {f : ServerFrame} (h : o.recv = some (f, o')) :
    o.queue = f :: o'.queue ∧ o'.closed = o.closed := by
  rw [recv] at h
  split at h
  · cases h
  · rename_i f' rest hq
    cases h
    exact ⟨hq, rfl⟩

end Outbox

end ChatRs
