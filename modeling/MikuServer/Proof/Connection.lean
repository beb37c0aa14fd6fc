import MikuServer.Proof.CircleList
import MikuServer.Proof.Frames

/-!
# A connection with a list

The room and center servers' `ClientInfoEx` have a receive buffer and a list.
`ConnView` says what is in both, and `ConnView.recv` what a read does to it.
-/

namespace Miku

/-- The bytes to use are `w`, and the messages `ms` are in the list, of `n` slots. -/
structure ConnView (n : Nat) (recv : RecvBuff) (list : CircleList) (w : List Byte) (ms : List (List Byte)) :
    Prop where
  window : Window recv.recvedBuff recv.validBuffLen w
  holds : list.Holds n ms
  short : ∀ m ∈ ms, m.length ≤ maxSizePerBuff

variable {n : Nat}

theorem connView_start {mem : List Byte} (hm : mem.length = maxRecvBuffLen) (hn : 0 < n) :
    ConnView n (.new mem) ((CircleList.new 0).initBuffer n) [] [] :=
  ⟨window_nil hm, CircleList.initBuffer_holds (CircleList.new 0) hn, nofun⟩

/-- A read after a residue that leaves room for it. The loop after it has fuel for each byte. -/
theorem ConnView.recv {b : RecvBuff} {list : CircleList} {r x : List Byte} {ms : List (List Byte)}
    (hV : ConnView n b list r ms) (hx : x.length ≤ 0x1000) (hr : r.length < 0x2000) :
    ∃ b', b.recv (padded x) x.length = some b' ∧ ConnView n b' list (r ++ x) ms ∧
      b'.validBuffLen.toNat + 1 = (r ++ x).length + 1 := by
  obtain ⟨b', e1, e2⟩ := recv_ok hV.window (x := x) (by rw [show maxRecvBuffLen = 0x4000 from rfl]; omega)
  exact ⟨b', e1, ⟨e2, hV.holds, hV.short⟩, by rw [e2.valid, Int.toNat_natCast]⟩

end Miku
