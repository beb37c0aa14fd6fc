import MikuServer.Impl.TCPClient
import MikuServer.Proof.CCircleBuff

/-!
# What the socket is sent

`pstart` and `left_len` together are always the length of the buffer. As long as
`pstart` is also the number of bytes that the socket took, these are the first of the
buffer (`Inv`). A `send` that would block moves `pstart` back by one, since its `-1` is
taken for a length, so from then on the number of bytes is ahead of it.
-/

namespace Miku.ZzmCommon.TCPClient

open SendState

/-- A buffer of `moSendTcpList`. -/
structure Sendable (u : BuffStruc) : Prop where
  size : u.mszBuff.length = maxBuffLen + 1
  pos : 1 ≤ u.miLen
  le : u.miLen ≤ maxBuffLen

/-- The bytes that are passed next are in the buffer, those that the socket took are its first, and all of
them where the loop has ended without an error. -/
structure Exact (u : BuffStruc) (s : SendState) : Prop where
  inside : s.Going → 0 ≤ s.pstart ∧ s.pstart + s.leftLen ≤ u.miLen
  first : s.accepted <+: u.msg
  whole : s.leftLen ≤ 0 → s.closed = false → s.accepted = u.msg

/-- No `send` that is called would block. -/
def Unblocked (s : SendState) (result : SendResult) : Prop := s.Going → result ≠ .wouldBlock

instance (s : SendState) (result : SendResult) : Decidable (Unblocked s result) :=
  inferInstanceAs (Decidable (s.Going → result ≠ .wouldBlock))

variable {u : BuffStruc} {s s' : SendState} {result : SendResult}

theorem Sendable.length_msg (hu : Sendable u) : (u.msg.length : Int) = u.miLen := by
  have hpos := hu.pos
  have hle := hu.le
  rw [BuffStruc.msg, List.length_take, hu.size]
  omega

/-! ## One call of `send` -/

/-- The loop after a call that was passed these bytes. -/
def sent (s : SendState) (bytes : List Byte) : SendResult → SendState
  | .accepted room =>
    { s.advance (bytes.take room).length with accepted := s.accepted ++ bytes.take room }
  | .wouldBlock => s.advance (-1)
  | .fatal => { s with closed := true }

theorem step_going {bytes : List Byte} (hg : s.Going) (hb : s.passed u = some bytes) (result : SendResult) :
    s.step u result = some (sent s bytes result) := by
  rw [SendState.step, if_pos hg, turn, hb]
  cases result <;> rfl

/-- A step makes a call, or the loop has ended. -/
theorem step_cases (h : s.step u result = some s') :
    (s.Going ∧ ∃ bytes, s.passed u = some bytes ∧ s' = sent s bytes result) ∨ (¬s.Going ∧ s' = s) := by
  by_cases hg : s.Going
  · rcases hb : s.passed u with _ | bytes
    · rw [SendState.step, if_pos hg, turn, hb] at h
      cases h
    · rw [step_going hg hb] at h
      cases h
      exact .inl ⟨hg, bytes, rfl, rfl⟩
  · rw [SendState.step, if_neg hg] at h
    cases h
    exact .inr ⟨hg, rfl⟩

/-- The pointer and the length; the socket took no fewer bytes than the pointer has passed. -/
structure Placed (u : BuffStruc) (s : SendState) : Prop where
  sum : s.pstart + s.leftLen = u.miLen
  left : 0 ≤ s.leftLen
  ahead : s.pstart ≤ s.accepted.length

theorem start_placed (hu : Sendable u) : Placed u (start u) where
  sum := Int.zero_add _
  left := by
    have hpos := hu.pos
    show 0 ≤ u.miLen
    omega
  ahead := Int.le_refl _

/-- The bytes that are passed are those of the message from `pstart` on. -/
theorem passed_eq (hu : Sendable u) (hp : Placed u s) (h0 : 0 ≤ s.pstart) :
    s.passed u = some (u.msg.drop s.pstart.toNat) := by
  have hle := hu.le
  have hsum := hp.sum
  have hleft := hp.left
  rw [passed, if_pos ⟨h0, by rw [hu.size]; omega⟩, slice, BuffStruc.msg, List.drop_take]
  congr 2
  omega

theorem length_passed {bytes : List Byte} (hp : Placed u s) (hb : s.passed u = some bytes) :
    (bytes.length : Int) ≤ s.leftLen := by
  have hleft := hp.left
  rw [passed] at hb
  split at hb <;> cases hb
  rw [length_slice]
  omega

theorem Placed.step (hp : Placed u s) (h : s.step u result = some s') : Placed u s' := by
  have hsum := hp.sum
  have hleft := hp.left
  have hahead := hp.ahead
  obtain ⟨-, bytes, hb, rfl⟩ | ⟨-, rfl⟩ := step_cases h
  · have hlen := length_passed hp hb
    cases result with
    | accepted room =>
      have htaken : (bytes.take room).length ≤ bytes.length := List.length_take_le' ..
      refine ⟨?_, ?_, ?_⟩ <;> simp only [sent, advance, List.length_append] <;> omega
    | wouldBlock => refine ⟨?_, ?_, ?_⟩ <;> simp only [sent, advance] <;> omega
    | fatal => exact ⟨hsum, hleft, hahead⟩
  · exact hp

/-- The number of bytes that the socket took stays with `pstart` exactly if the call does not block. -/
theorem drift_iff (hp : Placed u s) (h : s.step u result = some s') :
    (s'.accepted.length : Int) = s'.pstart ↔ (s.accepted.length : Int) = s.pstart ∧ Unblocked s result := by
  have hahead := hp.ahead
  obtain ⟨hg, bytes, -, rfl⟩ | ⟨hg, rfl⟩ := step_cases h
  · cases result with
    | accepted room =>
      have hun : Unblocked s (.accepted room) := fun _ => by simp
      simp only [sent, advance, List.length_append, and_iff_left hun]
      omega
    | wouldBlock =>
      have hun : ¬Unblocked s .wouldBlock := fun h => h hg rfl
      simp only [sent, advance, hun, and_false, iff_false]
      omega
    | fatal =>
      have hun : Unblocked s .fatal := fun _ => by simp
      exact (and_iff_left hun).symm
  · have hun : Unblocked s' result := fun h => absurd h hg
    exact (and_iff_left hun).symm

/-! ## Runs without a call that blocks -/

/-- The socket took the bytes before `pstart`. -/
structure Inv (u : BuffStruc) (s : SendState) : Prop where
  placed : Placed u s
  pstart : (s.accepted.length : Int) = s.pstart
  first : s.accepted <+: u.msg

theorem start_inv (hu : Sendable u) : Inv u (start u) := ⟨start_placed hu, rfl, List.nil_prefix⟩

theorem Inv.exact (hu : Sendable u) (hi : Inv u s) : Exact u s where
  inside _ := ⟨by have := hi.pstart; omega, Int.le_of_eq hi.placed.sum⟩
  first := hi.first
  whole hleft _ := by
    have hlen := hu.length_msg
    have hsum := hi.placed.sum
    have hpos := hi.placed.left
    have hpstart := hi.pstart
    exact hi.first.eq_of_length (by omega)

theorem Inv.sent (hi : Inv u s) (result : SendResult) :
    (sent s (u.msg.drop s.accepted.length) result).accepted <+: u.msg := by
  cases result with
  | accepted room =>
    have hmsg : s.accepted ++ u.msg.drop s.accepted.length = u.msg := List.prefix_iff_eq_append.mp hi.first
    show s.accepted ++ (u.msg.drop s.accepted.length).take room <+: u.msg
    conv_rhs => rw [← hmsg]
    exact (List.prefix_append_right_inj _).mpr (List.take_prefix ..)
  | wouldBlock => exact hi.first
  | fatal => exact hi.first

theorem Inv.step (hu : Sendable u) (hi : Inv u s) (hr : Unblocked s result) :
    ∃ s', s.step u result = some s' ∧ Inv u s' := by
  have hpstart := hi.pstart
  by_cases hg : s.Going
  · have hpassed := passed_eq hu hi.placed (by omega)
    have hnat : s.pstart.toNat = s.accepted.length := by omega
    rw [hnat] at hpassed
    have hstep := step_going hg hpassed result
    exact ⟨_, hstep, hi.placed.step hstep, (drift_iff hi.placed hstep).mpr ⟨hpstart, hr⟩, hi.sent result⟩
  · refine ⟨s, ?_, hi⟩
    rw [SendState.step, if_neg hg]

theorem exact_of_unblocked (hu : Sendable u) {results : List SendResult}
    (h : ∀ x ∈ runSteps (SendState.step u) (start u) results, Unblocked x.1 x.2) :
    Always (SendState.step u) (Exact u) (start u) results :=
  always_of_steps (P := Inv u) (Q := fun _ => True) (C := Unblocked) (fun _ _ hi _ hr => hi.step hu hr)
    (fun _ => Inv.exact hu) (fun _ _ => trivial) (start_inv hu) h

/-! ## Runs that end without an error -/

/-- If the whole buffer was sent and no more, no call blocked. -/
theorem unblocked_of_whole (hu : Sendable u) {results : List SendResult} {t : SendState}
    (ht : results.foldlM (SendState.step u) (start u) = some t) (hleft : t.leftLen ≤ 0) (hw : t.accepted = u.msg) :
    ∀ x ∈ runSteps (SendState.step u) (start u) results, Unblocked x.1 x.2 := by
  have hp : Placed u t := foldlM_inv (fun _ _ _ hp h => Placed.step hp h) (start_placed hu) ht
  have hsum := hp.sum
  have hpos := hp.left
  have hlen := hu.length_msg
  have hdrift := foldlM_iff_steps (P := fun s => (s.accepted.length : Int) = s.pstart) (C := Unblocked)
    (fun _ _ _ hp h => Placed.step hp h) (fun _ _ _ hp h => drift_iff hp h) (start_placed hu) ht
  refine (hdrift.mp ?_).2
  rw [hw]
  omega

/-- In every run without a call that blocks the buffer is sent exactly; in one that ends without an error
it is sent exactly only if there was no such call. -/
theorem sends_exactly (u : BuffStruc) (hu : Sendable u) (results : List SendResult) :
    ((∀ x ∈ runSteps (SendState.step u) (start u) results, Unblocked x.1 x.2) →
      Always (SendState.step u) (Exact u) (start u) results) ∧
    ∀ t, results.foldlM (SendState.step u) (start u) = some t → t.leftLen ≤ 0 → t.closed = false →
      (Always (SendState.step u) (Exact u) (start u) results ↔
        ∀ x ∈ runSteps (SendState.step u) (start u) results, Unblocked x.1 x.2) := by
  refine ⟨exact_of_unblocked hu, fun t ht hleft hopen => ⟨fun h => ?_, exact_of_unblocked hu⟩⟩
  exact unblocked_of_whole hu ht hleft ((h.last ht).whole hleft hopen)

theorem length_two : (1 :: 2 :: List.replicate (maxBuffLen - 1) (0 : Byte)).length = maxBuffLen + 1 := by
  rw [List.length_cons, List.length_cons, List.length_replicate]
  rfl

/-- Two bytes, of which the socket takes one, then has no room, and then takes that byte again and the other. -/
theorem sends_exactly_two :
    let u : BuffStruc := ⟨1 :: 2 :: List.replicate (maxBuffLen - 1) 0, 2⟩
    ((∀ x ∈ runSteps (SendState.step u) (start u) [.accepted 1, .wouldBlock, .accepted 2], Unblocked x.1 x.2) →
      Always (SendState.step u) (Exact u) (start u) [.accepted 1, .wouldBlock, .accepted 2]) ∧
    ∀ t, [SendResult.accepted 1, .wouldBlock, .accepted 2].foldlM (SendState.step u) (start u) = some t →
      t.leftLen ≤ 0 → t.closed = false →
      (Always (SendState.step u) (Exact u) (start u) [.accepted 1, .wouldBlock, .accepted 2] ↔
        ∀ x ∈ runSteps (SendState.step u) (start u) [.accepted 1, .wouldBlock, .accepted 2], Unblocked x.1 x.2) :=
  sends_exactly _ ⟨length_two, by decide, by decide⟩ _

/-- A call that blocks before any byte is taken: the next is passed the byte before the buffer. -/
theorem not_exact_blocked :
    let u : BuffStruc := ⟨1 :: 2 :: List.replicate (maxBuffLen - 1) 0, 2⟩
    ¬Always (SendState.step u) (Exact u) (start u) [.wouldBlock] := by
  intro u h
  obtain ⟨-, s', hs, hexact⟩ := h
  have hstep : (start u).step u .wouldBlock = some ((start u).advance (-1)) := by
    have hpassed : (start u).passed u = some (slice u.mszBuff 0 2) := by
      refine if_pos ⟨by decide, ?_⟩
      rw [length_two]
      decide
    rw [SendState.step, if_pos ⟨rfl, by decide⟩, turn, hpassed]
    rfl
  cases hstep.symm.trans hs
  have hinside := (hexact.inside ⟨rfl, by decide⟩).1
  exact absurd hinside (by decide)

end Miku.ZzmCommon.TCPClient
