import Mathlib.Data.List.Range

/-!
# One direction of a numbered transport

Two ends share a cipher for one direction. The sender seals its messages under the numbers 0, 1, 2
and so on; the receiver tries what comes in under the number of messages it has opened, and goes on
to the next number when it opens. Whoever is in between may hand over anything in any order: as long
as only what was sealed under a number opens under it, the direction is a queue.

* **`Lane`**: what was sealed under which number, and the numbers of the two ends;
* **`Lane.Carries`**: which messages are sealed and not yet opened;
* **`Carries.write`**, **`Carries.read`**: so a message goes in at the end, and what opens is the
  first one.
-/

/-- The messages sealed so far with their numbers, and the numbers the two ends have come to. -/
structure Lane (α : Type) where
  sealed : List (Nat × α)
  sendNonce : Nat
  recvNonce : Nat

namespace Lane

variable {α : Type}

def new : Lane α := ⟨[], 0, 0⟩

/-- A message is sealed. -/
def write (lane : Lane α) (m : α) : Lane α :=
  { lane with sealed := lane.sealed ++ [(lane.sendNonce, m)]
              sendNonce := lane.sendNonce + 1 }

/-- One message after the other. -/
def writeAll (lane : Lane α) (ms : List α) : Lane α := ms.foldl write lane

/-- Something has opened. -/
def read (lane : Lane α) : Lane α := { lane with recvNonce := lane.recvNonce + 1 }

/-- The messages that are sealed and not yet opened, first to last. -/
structure Carries (lane : Lane α) (queue : List α) : Prop where
  numbered : lane.sealed.map Prod.fst = List.range lane.sendNonce
  split : ∃ done, lane.sealed.map Prod.snd = done ++ queue ∧ done.length = lane.recvNonce

theorem Carries.new : (new : Lane α).Carries [] := ⟨rfl, [], rfl, rfl⟩

variable {lane : Lane α} {queue : List α}

/-- What is written to a lane is the last it carries. -/
theorem Carries.write (h : lane.Carries queue) (m : α) : (lane.write m).Carries (queue ++ [m]) := by
  obtain ⟨done, hsplit, hdone⟩ := h.split
  refine ⟨?_, done, ?_, hdone⟩
  · show (lane.sealed ++ [(lane.sendNonce, m)]).map Prod.fst = List.range (lane.sendNonce + 1)
    rw [List.map_append, h.numbered, List.range_succ]
    rfl
  · show (lane.sealed ++ [(lane.sendNonce, m)]).map Prod.snd = done ++ (queue ++ [m])
    rw [List.map_append, hsplit, List.append_assoc]
    rfl

/-- Several messages that are written to a lane are the last it carries. -/
theorem Carries.writeAll (h : lane.Carries queue) (ms : List α) :
    (lane.writeAll ms).Carries (queue ++ ms) := by
  induction ms generalizing lane queue with
  | nil =>
    rw [List.append_nil]
    exact h
  | cons m ms ih =>
    have hnext := ih (h.write m)
    rw [List.append_assoc] at hnext
    exact hnext

/-- **What opens is the next one**: it was sealed under the receiver's number. -/
theorem Carries.read (h : lane.Carries queue) {m : α}
    (hsealed : (lane.recvNonce, m) ∈ lane.sealed) :
    ∃ rest, queue = m :: rest ∧ lane.read.Carries rest := by
  obtain ⟨done, hsplit, hdone⟩ := h.split
  obtain ⟨i, hi, hat⟩ := List.getElem_of_mem hsealed
  -- the place in the list is the number
  have hnumber : i = lane.recvNonce := by
    have hfst : (lane.sealed.map Prod.fst)[i]? = some lane.recvNonce := by
      rw [List.getElem?_map, List.getElem?_eq_getElem hi, hat]
      rfl
    rw [h.numbered] at hfst
    obtain ⟨hlt, heq⟩ := List.getElem?_eq_some_iff.mp hfst
    rw [List.getElem_range] at heq
    exact heq
  have hsnd : (done ++ queue)[i]? = some m := by
    rw [← hsplit, List.getElem?_map, List.getElem?_eq_getElem hi, hat]
    rfl
  rw [hnumber, ← hdone, List.getElem?_append_right (le_refl _), Nat.sub_self] at hsnd
  cases queue with
  | nil => cases hsnd
  | cons m' rest =>
    cases hsnd
    refine ⟨rest, rfl, h.numbered, done ++ [m], ?_, ?_⟩
    · show lane.sealed.map Prod.snd = done ++ [m] ++ rest
      rw [hsplit, List.append_assoc]
      rfl
    · show (done ++ [m]).length = lane.recvNonce + 1
      rw [List.length_append, hdone]
      rfl

end Lane
