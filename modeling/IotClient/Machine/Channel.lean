import Mathlib.Data.List.Basic

/-!
# Packets in flight

A channel is the list of the packets in flight. Any of them may be the next to arrive, to be lost
or to be doubled, so packets may overtake each other.
-/

namespace IotClient.Machine

/-- What happens to a packet in flight. -/
inductive Fate where
  | arrives | isLost | isDoubled
  deriving DecidableEq, Repr

namespace Fate

variable {μ : Type}

/-- The channel after the packet at `i` met its fate. -/
def after (channel : List μ) (i : Nat) : Fate → List μ
  | arrives | isLost => channel.eraseIdx i
  | isDoubled => channel ++ channel[i]?.toList

/-- The packet that arrives, if one does. -/
def arriving (channel : List μ) (i : Nat) : Fate → Option μ
  | arrives => channel[i]?
  | isLost | isDoubled => none

variable {channel : List μ} {i : Nat} {x : μ} {p : μ → Bool}

theorem countP_eraseIdx (h : channel[i]? = some x) :
    (channel.eraseIdx i).countP p + (if p x then 1 else 0) = channel.countP p := by
  induction channel generalizing i with
  | nil => cases h
  | cons y ys ih =>
    cases i with
    | zero =>
      cases h
      rw [List.eraseIdx_cons_zero, List.countP_cons]
    | succ i =>
      have hrest := ih (i := i) h
      rw [List.eraseIdx_cons_succ, List.countP_cons, List.countP_cons]
      omega

/-- Only a packet that is doubled is counted once more. -/
theorem countP_after_le {fate : Fate}
    (h : ∀ x, fate = isDoubled → channel[i]? = some x → p x = false) :
    (fate.after channel i).countP p ≤ channel.countP p := by
  cases fate with
  | arrives => exact (List.eraseIdx_sublist channel i).countP_le
  | isLost => exact (List.eraseIdx_sublist channel i).countP_le
  | isDoubled =>
    unfold after
    rw [List.countP_append]
    cases hx : channel[i]? with
    | none => simp
    | some x => simp [h x rfl hx]

/-- No packet comes out of nothing. -/
theorem mem_of_mem_after {fate : Fate} (h : x ∈ fate.after channel i) : x ∈ channel := by
  cases fate with
  | arrives => exact List.mem_of_mem_eraseIdx h
  | isLost => exact List.mem_of_mem_eraseIdx h
  | isDoubled =>
    rcases List.mem_append.mp h with h | h
    · exact h
    · rw [Option.mem_toList] at h
      exact List.mem_of_getElem? h

end Fate

end IotClient.Machine
