import MikuServer.Proof.GateUser
import MikuServer.Proof.RoomClient

/-!
# The receive paths, whatever the peer sends

A turn of the gate's or the room server's loop stays inside its buffers exactly
if what it finds at the front of `recved_buff_` fits (`turn_isSome_iff`): the
length does not overflow, and the packet is at most 0x1000 bytes. A run does
exactly if all of its turns do (`receivePath_iff`).
-/

namespace Miku

namespace RoomServer.ClientInfoEx

open Fields

variable {g : CInt} {n : Nat} {v : Vars}

/-- The loop's variables have their sizes, and the list is as its functions keep it. -/
structure Sized (n : Nat) (v : Vars) : Prop where
  recv : v.recv.Ok
  readBuff : v.tmpReadBuff.length = 0x1000
  list : ∃ ms, v.circleList.Holds n ms ∧ ∀ m ∈ ms, m.length ≤ maxSizePerBuff

theorem Sized.view (hv : Sized n v) :
    ∃ ms, VarsView n v (v.recv.recvedBuff.take v.recv.validBuffLen.toNat) ms := by
  obtain ⟨ms, h1, h2⟩ := hv.list
  exact ⟨ms, ⟨window_take hv.recv.size hv.recv.nonneg hv.recv.lt.le, h1, h2⟩, hv.readBuff⟩

theorem VarsView.sized {w : List Byte} {ms : List (List Byte)} (h : VarsView n v w ms)
    (hw : w.length < maxRecvBuffLen) : Sized n v := by
  have hv := h.1.window.valid
  exact ⟨⟨h.1.window.size, by omega, by omega⟩, h.2, ms, h.1.holds, h.1.short⟩

theorem turn_overflow (hv : Sized n v) (ho : Overflows .third v.recv) : turn g v = none := by
  obtain ⟨ms, hV⟩ := hv.view
  have hw := GateRoomServerPack.fresh.within_overflow hV.1.window ho
  simp only [turn, if_neg (show ¬ v.recv.validBuffLen ≤ 18 by have := ho.1; omega), hw, Option.bind_eq_bind,
    Option.bind_none]

/-- A turn with a packet at the front: it has a value if the packet fits `tmp_read_buff`. -/
theorem turn_packet (hv : Sized n v) {p : Fields} {x : List Byte} (h18 : 18 < v.recv.validBuffLen)
    (hp : p.WellFormed .third) (hw : v.recv.recvedBuff.take v.recv.validBuffLen.toNat = p.wire ++ x) :
    if p.wire.length ≤ 0x1000 then
      ∃ v', turn g v = some (v', true) ∧ Sized n v' ∧ v'.recv.validBuffLen = v.recv.validBuffLen - p.wire.length
    else turn g v = none := by
  obtain ⟨ms, hV⟩ := hv.view
  rw [hw] at hV
  have hval := hV.1.window.valid
  have hlt := hv.recv.lt
  rw [List.length_append] at hval
  have hnext := turn_next (g := g) (p := GateRoomServerPack.ofFields p) hV hp (by omega)
  change OptRel _ (emit g n ms p.wire) _ at hnext
  rw [emit] at hnext
  split
  · rename_i hfit
    rw [if_pos hfit] at hnext
    rcases ht : turn g v with _ | ⟨v', go⟩
    · rw [ht] at hnext
      exact hnext.elim
    · rw [ht] at hnext
      obtain ⟨hgo, hV'⟩ := hnext
      simp only at hgo hV'
      subst hgo
      exact ⟨v', rfl, hV'.sized (by omega), by rw [hV'.1.window.valid]; omega⟩
  · rename_i hfit
    rw [if_neg hfit] at hnext
    rcases ht : turn g v with _ | v'
    · rfl
    · rw [ht] at hnext
      exact hnext.elim

theorem turn_isSome_iff (hv : Sized n v) : (turn g v).isSome ↔ Fits .third v.recv := by
  obtain ⟨ms, hV⟩ := hv.view
  rcases window_cases .third hV.1.window with hs | ho | ⟨h18, p, x, hp, hw, hl⟩
  · rw [turn_stop hV hs]
    exact ⟨fun _ => .inl hs, fun _ => rfl⟩
  · rw [turn_overflow hv ho]
    exact ⟨nofun, fun h => absurd h (not_fits_of_overflows ho)⟩
  · have hwin := hV.1.window
    rw [hw] at hwin
    have hlen := length_wire hp.head hp.tail
    have ht := turn_packet (g := g) hv h18 hp hw
    rw [fits_iff_of_packet h18 hwin hl (by omega)]
    split at ht
    · rename_i hfit
      obtain ⟨v', e1, -⟩ := ht
      rw [e1]
      exact ⟨fun _ => hfit, fun _ => rfl⟩
    · rename_i hfit
      rw [ht]
      exact ⟨nofun, fun h => absurd h hfit⟩

theorem turn_keep (hv : Sized n v) {v' : Vars} {go : Bool} (h : turn g v = some (v', go)) :
    Sized n v' ∧ (go = true → v'.recv.validBuffLen < v.recv.validBuffLen) := by
  obtain ⟨ms, hV⟩ := hv.view
  rcases window_cases .third hV.1.window with hs | ho | ⟨h18, p, x, hp, hw, hl⟩
  · rw [turn_stop hV hs] at h
    cases h
    exact ⟨hv, nofun⟩
  · rw [turn_overflow hv ho] at h
    cases h
  · have hlen := length_wire hp.head hp.tail
    have ht := turn_packet (g := g) hv h18 hp hw
    split at ht
    · obtain ⟨w, e1, e2, e3⟩ := ht
      rw [e1] at h
      cases h
      exact ⟨e2, fun _ => by omega⟩
    · rw [ht] at h
      cases h

/-- The variables as each turn of a call's loop begins. -/
def callTurns (s : ClientInfoEx) (data : List Byte) : List Vars :=
  match (readBuff data).bind fun t => (s.recv.recv t data.length).map (t, ·) with
  | none => []
  | some (t, recv) => heads (turn s.hashKey) (recv.validBuffLen.toNat + 1) ⟨recv, t, s.circleList⟩

variable {s : ClientInfoEx} {x : List Byte}

/-- The connection's block has its size, and the list is as its functions keep it. -/
def Ok (n : Nat) (s : ClientInfoEx) : Prop :=
  s.recv.Ok ∧ ∃ ms, s.circleList.Holds n ms ∧ ∀ m ∈ ms, m.length ≤ maxSizePerBuff

theorem call_eq (hs : s.Ok n) (hx : x.length ≤ 0x1000) :
    ∃ v : Vars, Sized n v ∧ callTurns s x = heads (turn s.hashKey) (v.recv.validBuffLen.toNat + 1) v ∧
      s.dealWithData x = (doWhile (turn s.hashKey) (v.recv.validBuffLen.toNat + 1) v).bind
        fun v => some { s with recv := v.recv, circleList := v.circleList } := by
  obtain ⟨recv, e1, e2⟩ := hs.1.recv hx
  refine ⟨⟨recv, padded x, s.circleList⟩, ⟨e2, length_padded hx, hs.2⟩, ?_, ?_⟩
  · rw [callTurns, readBuff_ok hx, Option.bind_some, e1]
    rfl
  · rw [dealWithData, readBuff_ok hx, Option.bind_eq_bind, Option.bind_some, e1, Option.bind_eq_bind,
      Option.bind_some]
    rfl

theorem call_isSome_iff (hs : s.Ok n) (hx : x.length ≤ 0x1000) :
    (s.dealWithData x).isSome ↔ ∀ t ∈ callTurns s x, Fits .third t.recv := by
  obtain ⟨v, hv, e2, e3⟩ := call_eq hs hx
  have hloop : (doWhile (turn s.hashKey) (v.recv.validBuffLen.toNat + 1) v).isSome ↔
      ∀ t ∈ heads (turn s.hashKey) (v.recv.validBuffLen.toNat + 1) v, Fits .third t.recv := by
    refine isSome_doWhile_iff (fun v => v.recv.validBuffLen.toNat) (fun v v' hv h => ?_)
      (fun v hv => turn_isSome_iff hv) hv (Nat.lt_succ_self _)
    obtain ⟨h1, h2⟩ := turn_keep hv h
    have := h1.recv.nonneg
    have := h2 rfl
    exact ⟨h1, by omega⟩
  rw [e2, e3, isSome_bind_some, hloop]

theorem call_keep (hs : s.Ok n) (hx : x.length ≤ 0x1000) {s' : ClientInfoEx} (h : s.dealWithData x = some s') :
    s'.Ok n := by
  obtain ⟨v, hv, -, e3⟩ := call_eq hs hx
  rw [e3, Option.bind_eq_some_iff] at h
  obtain ⟨v', h1, h2⟩ := h
  cases h2
  have hv' := doWhile_inv (fun v v' _ hv h => (turn_keep hv h).1) hv h1
  exact ⟨hv'.recv, hv'.list⟩

/-- Every read is dealt with inside the buffers exactly if every turn finds what fits. -/
theorem always_call_iff (g : CInt) (hn : 0 < n) {mem : List Byte} (hm : mem.length = maxRecvBuffLen)
    {reads : List (List Byte)} (hr : ∀ x ∈ reads, 1 ≤ x.length ∧ x.length ≤ 0x1000) :
    Always dealWithData (fun s => 0 ≤ s.recv.validBuffLen ∧ s.recv.validBuffLen < 0x4000) (start g n mem) reads ↔
      ∀ v ∈ runTurns dealWithData callTurns (start g n mem) reads, Fits .third v.recv :=
  always_iff (P := Ok n) (fun s x s' hs hx h => call_keep hs hx.2 h) (fun s hs => ⟨hs.1.nonneg, hs.1.lt⟩)
    (fun s x hs hx => call_isSome_iff hs hx.2) hr
    ⟨⟨hm, le_rfl, (by decide : (0 : Int) < maxRecvBuffLen)⟩, [],
      CircleList.initBuffer_holds (CircleList.new 0) hn, nofun⟩

end RoomServer.ClientInfoEx

/-! ## Both paths -/

/-- Every call of the gate's `DealWithData` stays inside its buffers, and leaves
`0 <= valid_buff_len_ < 0x4000`. -/
def GateServer.UserInfoEx.Safe (hashKey : CInt) (mem : List Byte) (ops : List ((CInt → Option Int) × List Byte)) :
    Prop :=
  Always call (fun s => 0 ≤ s.1.recv.validBuffLen ∧ s.1.recv.validBuffLen < 0x4000) (start hashKey mem) ops

/-- Likewise for the room server's. -/
def RoomServer.ClientInfoEx.Safe (g : CInt) (n : Nat) (mem : List Byte) (reads : List (List Byte)) : Prop :=
  Always dealWithData (fun s => 0 ≤ s.recv.validBuffLen ∧ s.recv.validBuffLen < 0x4000) (start g n mem) reads

/-- Every call stays inside its buffers exactly if every turn of its loop begins where
there is nothing to take, or a packet of at most 0x1000 bytes. -/
theorem receivePath_iff (key : CInt) {n : Nat} (hn : 0 < n) {mem : List Byte} (hm : mem.length = maxRecvBuffLen)
    {ops : List ((CInt → Option Int) × List Byte)} (ho : ∀ op ∈ ops, 1 ≤ op.2.length ∧ op.2.length ≤ 0x1000)
    {reads : List (List Byte)} (hr : ∀ x ∈ reads, 1 ≤ x.length ∧ x.length ≤ 0x1000) :
    (GateServer.UserInfoEx.Safe key mem ops ↔
      ∀ v ∈ runTurns GateServer.UserInfoEx.call GateServer.UserInfoEx.callTurns
        (GateServer.UserInfoEx.start key mem) ops, Fits .second v.recv) ∧
    (RoomServer.ClientInfoEx.Safe key n mem reads ↔
      ∀ v ∈ runTurns RoomServer.ClientInfoEx.dealWithData RoomServer.ClientInfoEx.callTurns
        (RoomServer.ClientInfoEx.start key n mem) reads, Fits .third v.recv) :=
  ⟨GateServer.UserInfoEx.always_call_iff key hm ho, RoomServer.ClientInfoEx.always_call_iff key hn hm hr⟩

/-- A read of 19 bytes with `INT_MAX` where a `StruCytPacket` has its length. -/
def hugeRead : List Byte := [0, 0, 0, 0, 0, 0, 0, 0xff, 0xff, 0xff, 0x7f, 0, 0, 0, 0, 0, 0, 0, 0]

theorem receivePath_iff_hugeRead :
    (GateServer.UserInfoEx.Safe 7 (List.replicate maxRecvBuffLen 0) [(fun _ => none, hugeRead)] ↔
      ∀ v ∈ runTurns GateServer.UserInfoEx.call GateServer.UserInfoEx.callTurns
        (GateServer.UserInfoEx.start 7 (List.replicate maxRecvBuffLen 0)) [(fun _ => none, hugeRead)],
        Fits .second v.recv) ∧
    (RoomServer.ClientInfoEx.Safe 7 1 (List.replicate maxRecvBuffLen 0) [hugeRead] ↔
      ∀ v ∈ runTurns RoomServer.ClientInfoEx.dealWithData RoomServer.ClientInfoEx.callTurns
        (RoomServer.ClientInfoEx.start 7 1 (List.replicate maxRecvBuffLen 0)) [hugeRead], Fits .third v.recv) :=
  receivePath_iff 7 Nat.one_pos List.length_replicate (by simp [hugeRead]) (by simp [hugeRead])

/-- The gate reads past `recved_buff_` on it. -/
theorem not_safe_hugeRead :
    ¬ GateServer.UserInfoEx.Safe 7 (List.replicate maxRecvBuffLen 0) [(fun _ => none, hugeRead)] := by
  have hmem : (List.replicate maxRecvBuffLen (0 : Byte)).length = maxRecvBuffLen := List.length_replicate
  have hlt : (0 : Int) < maxRecvBuffLen := by decide
  have hfit : ([] : List Byte).length + hugeRead.length < maxRecvBuffLen := by decide
  obtain ⟨b, e1, e2⟩ := recv_ok (b := .new (List.replicate maxRecvBuffLen 0)) (window_nil hmem) hfit
  obtain ⟨recv, d0, d1, -, d3⟩ := GateServer.UserInfoEx.call_eq
    (s := GateServer.UserInfoEx.start 7 (List.replicate maxRecvBuffLen 0)) ⟨hmem, le_rfl, hlt⟩
    (show (((fun _ => none, hugeRead) : (CInt → Option Int) × List Byte)).2.length ≤ 0x1000 by decide)
  have hb : recv = b := Option.some.inj (d1.symm.trans e1)
  subst hb
  have hlen : Fields.lenAt .second recv.recvedBuff = Fields.lenAt .second hugeRead :=
    Fields.lenAt_window e2 (by decide)
  have ho : Overflows .second recv := by
    rw [Overflows, hlen, e2.valid]
    decide
  rintro ⟨-, s', h, -⟩
  rw [d3, doWhile_none (GateServer.UserInfoEx.turn_overflow (GateServer.UserInfoEx.start_sized d0 _) ho)] at h
  cases h

end Miku
