import Mathlib

/-! Messages that are to be acknowledged, in the order in which they were handed over. On one
link at most so many of them are under way; the others wait until there is room again. -/

namespace Outbox

/-- A message, and whether it was written to the current link. -/
structure Item (M : Type) where
  message : M
  sent : Bool

variable {M : Type}

def inflight (box : List (Item M)) : Nat := box.countP (·.sent)

def waiting (box : List (Item M)) : Nat := box.countP (!·.sent)

/-- A message that is handed over is written at once where there is a link with room. -/
def publish (window : Nat) (linked : Bool) (box : List (Item M)) (m : M) : List (Item M) :=
  box ++ [⟨m, linked && inflight box < window⟩]

/-- Nothing is under way on a new link. -/
def reset (box : List (Item M)) : List (Item M) := box.map fun k => { k with sent := false }

def next? (box : List (Item M)) : Option M := (box.find? (!·.sent)).map Item.message

/-- The first message that waits is written. -/
def sendNext : List (Item M) → List (Item M)
  | [] => []
  | k :: box => if k.sent then k :: sendNext box else { k with sent := true } :: box

/-- With room again, the next message is written. -/
def makeRoom (window : Nat) (box : List (Item M)) : List (Item M) × Option M :=
  if inflight box < window then (sendNext box, next? box) else (box, none)

/-- An acknowledgement, and the message that it makes room for. -/
def acked (window : Nat) (box : List (Item M)) (k : Nat) : Option (List (Item M) × Option M) :=
  match box[k]? with
  | some ⟨_, true⟩ => some (makeRoom window (box.eraseIdx k))
  | _ => none

variable {window : Nat} {linked : Bool} {box box' : List (Item M)} {m : M}

theorem inflight_publish_le : inflight (publish window linked box m) ≤ inflight box + 1 := by
  rw [inflight, publish, List.countP_append]
  exact Nat.add_le_add_left List.countP_le_length _

/-- What is written at once does not wait. -/
theorem waiting_publish (hlinked : linked = true) (hroom : inflight box < window) :
    waiting (publish window linked box m) = waiting box := by
  simp [waiting, publish, List.countP_append, hlinked, hroom]

@[simp] theorem inflight_reset : inflight (reset box) = 0 := by simp [inflight, reset]

@[simp] theorem message_reset : (reset box).map Item.message = box.map Item.message := by simp [reset]

@[simp] theorem message_sendNext : (sendNext box).map Item.message = box.map Item.message := by
  induction box with
  | nil => rfl
  | cons k box ih =>
    rw [sendNext]
    split
    · rw [List.map_cons, ih, List.map_cons]
    · rfl

theorem waiting_sendNext : waiting (sendNext box) = waiting box - 1 := by
  induction box with
  | nil => rfl
  | cons k box ih =>
    cases hk : k.sent with
    | true => simpa [sendNext, waiting, hk] using ih
    | false => simp [sendNext, waiting, hk]

theorem mem_next? (h : next? box = some m) : m ∈ box.map Item.message := by
  obtain ⟨k, hk, rfl⟩ := Option.map_eq_some_iff.mp h
  exact List.mem_map_of_mem (List.mem_of_find?_eq_some hk)

theorem next?_of_waiting (h : waiting box = 0) : next? box = none := by
  rw [waiting, List.countP_eq_zero] at h
  rw [next?, List.find?_eq_none.mpr h, Option.map_none]

theorem waiting_eraseIdx_le (k : Nat) : waiting (box.eraseIdx k) ≤ waiting box :=
  (List.eraseIdx_sublist box k).countP_le

variable {k : Nat} {m? : Option M}

theorem makeRoom_of_acked (h : acked window box k = some (box', m?)) :
    makeRoom window (box.eraseIdx k) = (box', m?) := by
  unfold acked at h
  split at h
  · exact Option.some.inj h
  · cases h

/-- An acknowledgement takes a message away and writes one that was handed over, if it writes any. -/
theorem mem_acked (h : acked window box k = some (box', m?)) :
    (∀ x ∈ box'.map Item.message, x ∈ box.map Item.message) ∧ ∀ x ∈ m?, x ∈ box.map Item.message := by
  have hrest : ∀ x ∈ (box.eraseIdx k).map Item.message, x ∈ box.map Item.message := fun x hx =>
    ((List.eraseIdx_sublist box k).map _).subset hx
  have hroom := makeRoom_of_acked h
  unfold makeRoom at hroom
  split at hroom
  · cases hroom
    exact ⟨fun x hx => hrest x (message_sendNext ▸ hx), fun x hx => hrest x (mem_next? hx)⟩
  · cases hroom
    exact ⟨hrest, fun x hx => by cases hx⟩

theorem acked_of_waiting (h : acked window box k = some (box', m?)) (hnone : waiting box = 0) :
    waiting box' = 0 ∧ m? = none := by
  have hrest : waiting (box.eraseIdx k) = 0 := Nat.eq_zero_of_le_zero (hnone ▸ waiting_eraseIdx_le k)
  have hroom := makeRoom_of_acked h
  unfold makeRoom at hroom
  split at hroom
  · cases hroom
    exact ⟨by rw [waiting_sendNext, hrest], next?_of_waiting hrest⟩
  · cases hroom
    exact ⟨hrest, rfl⟩

end Outbox
