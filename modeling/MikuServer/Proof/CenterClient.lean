import MikuServer.Impl.CenterClient
import MikuServer.Proof.Connection

/-!
# The center server's queue

For each frame it takes, `DealWithData` queues as many bytes of the current
read, so the queue holds the frames of a stream only where each is the beginning
of the read it is completed by (`queuesFrames_iff`). `turn_stop` and `turn_next`
are a turn of its loop, `call_ok` is one read and `run_ok` the whole stream.
-/

namespace Miku.CenterServer.ClientInfoEx

open Fields

/-- What is queued for a frame completed by the read `x`. -/
def queued (x f : List Byte) : List Byte := (padded x).take f.length

/-- A connection whose list has `n` slots. -/
def start (n : Nat) (mem : List Byte) : ClientInfoEx := ⟨.new mem, (CircleList.new 0).initBuffer n⟩

variable {n : Nat} {x : List Byte}

theorem turn_stop {v : Vars} {w : List Byte} {ms : List (List Byte)} (hV : ConnView n v.recv v.circleList w ms)
    (hs : Stops .second v.recv) :
    ∃ v', turn (padded x) v = some (v', false) ∧ ConnView n v'.recv v'.circleList w ms := by
  by_cases hw : v.recv.validBuffLen ≤ 18
  · exact ⟨v, by rw [turn, if_pos hw], hV⟩
  · obtain ⟨q, hq⟩ := v.tmpPackage.within_stop hV.window hs hw
    refine ⟨{ v with tmpPackage := q }, ?_, hV⟩
    simp only [turn, if_neg hw, hq, Option.bind_eq_bind, Option.bind_some]
    rfl

theorem turn_next (hx : x.length ≤ 0x1000) {v : Vars} {p : StruCytPacket} {w : List Byte} {ms : List (List Byte)}
    (hV : ConnView n v.recv v.circleList (p.wire ++ w) ms) (hp : p.WellFormed) (hn : p.wire.length ≤ 0x1000)
    (hw : ¬ v.recv.validBuffLen ≤ 18) :
    ∃ v', turn (padded x) v = some (v', true) ∧
      ConnView n v'.recv v'.circleList w (CircleList.push n ms (queued x p.wire)) := by
  have hlen : p.byteSize.toInt = p.wire.length := byteSize_front hp hV.window
  have hpad := length_padded hx
  obtain ⟨b, q', e1, e2, e3⟩ := CircleList.addBuffer_push hV.holds hV.short (hpad ▸ hn) hn
  obtain ⟨buff', d1, d2⟩ := moveDown_ok hV.window hlen
  refine ⟨⟨⟨buff', v.recv.validBuffLen - p.byteSize.toInt⟩, p, q'⟩, ?_, d2, e2, e3⟩
  rw [hlen] at d1 ⊢
  simp only [turn, if_neg hw, v.tmpPackage.within_front hp hV.window, Option.bind_eq_bind,
    Option.bind_some, if_true, hlen, e1, d1]

theorem turn_takes (hx : x.length ≤ 0x1000) :
    Takes (frameSize .second) (IsFrame .second 0x1000) (turn (padded x))
      (fun v w ms => ConnView n v.recv v.circleList w ms) (fun _ => True)
      (fun ms f => some (CircleList.push n ms (queued x f))) where
  stop _ _ _ hV hs _ h := turn_stop hV (stops_of_streams (by decide) hV.window hs h)
  next v f w _ hV hf _ h := by
    obtain ⟨p, hp, rfl, hn⟩ := StruCytPacket.isFrame_iff.mp hf
    have hw := length_of_frameSize h
    have hv := hV.window.valid
    obtain ⟨v', h1, h2⟩ := turn_next hx hV hp hn (by omega)
    rw [h1]
    exact ⟨rfl, h2⟩

/-- One read of a stream: its frames are taken, and something is queued for each. -/
theorem call_ok {s : ClientInfoEx} {r : List Byte} {ms : List (List Byte)} {hs : List (List Byte)}
    (hV : ConnView n s.recv s.circleList r ms) (hx : x.length ≤ 0x1000) (hG : ∀ f ∈ hs, IsFrame .second 0x1000 f)
    (hp : Pending (frameSize .second) hs r) (hw : r ++ x <+: hs.flatten) :
    OptRel (fun ms' s' => ConnView n s'.recv s'.circleList
        (drain (frameSize .second) ((r ++ x).length + 1) (r ++ x)).2 ms')
      ((drain (frameSize .second) ((r ++ x).length + 1) (r ++ x)).1.foldlM
        (fun ms f => some (CircleList.push n ms (queued x f))) ms) (s.dealWithData x) := by
  have hr := residue_lt (by omega) hp hG
  obtain ⟨b, e1, e2, hfuel⟩ := hV.recv hx (by omega)
  rw [dealWithData, readBuff_ok hx, Option.bind_eq_bind, Option.bind_some, e1, Option.bind_eq_bind,
    Option.bind_some, hfuel]
  exact optRel_bind (doWhile_drain (framing .second 0x1000) (turn_takes hx) hG hw (Nat.lt_succ_self _)
    e2 fun _ _ => trivial)

theorem start_view {mem : List Byte} (hm : mem.length = maxRecvBuffLen) (hn : 0 < n) :
    ConnView n (start n mem).recv (start n mem).circleList [] [] :=
  connView_start hm hn

/-- What is queued for the frames of a stream. -/
def queuedFor (reads : List (List Byte)) : List (List Byte) :=
  (feed (frameSize .second) [] reads).1.flatMap fun t => t.2.map (queued t.1)

theorem length_queuedFor (reads : List (List Byte)) :
    (queuedFor reads).length = (taken (feed (frameSize .second) [] reads).1).length := by
  simp only [queuedFor, taken, List.length_flatMap, List.length_map]

/-- A whole stream, with room in the list for all its frames. -/
theorem run_ok {mem : List Byte} (hm : mem.length = maxRecvBuffLen) (hn : 0 < n) {frames reads : List (List Byte)}
    (hf : ∀ f ∈ frames, IsFrame .second 0x1000 f) (hcap : frames.length ≤ n)
    (hr : ∀ x ∈ reads, x.length ≤ 0x1000) (hcut : reads.flatten = frames.flatten) :
    ∃ s, reads.foldlM dealWithData (start n mem) = some s ∧ s.circleList.messages = queuedFor reads := by
  have F := framing .second 0x1000
  have hrun := run_feed F dealWithData id (fun x ms f => some (CircleList.push n ms (queued x f))) (fun _ _ => [])
    (V := fun s r ms => ConnView n s.recv s.circleList r ms) (Q := fun x => x.length ≤ 0x1000)
    (C := fun _ : Unit => True)
    (fun s r ms x hs hV hx _ hG hp hw => call_ok hV hx hG hp hw) hr (fun _ _ => trivial) hf
    (by rw [List.map_id]; exact hcut) (.inl rfl) (start_view hm hn)
  rw [List.map_id, foldlM_feed_some] at hrun
  obtain ⟨s, he, hrun⟩ := hrun.of_some
  refine ⟨s, he, ?_⟩
  have hlen : (queuedFor reads).length ≤ n := by
    rw [length_queuedFor]
    exact (taken_first hf hcut).1.length_le.trans hcap
  rw [hrun.holds.messages_eq, ← queuedFor, CircleList.foldl_push _ (by simpa using hlen), List.nil_append]

/-- The messages put into the list are the frames. -/
def QueuesFrames (n : Nat) (mem : List Byte) (reads : List (List Byte)) (frames : List StruCytPacket) : Prop :=
  ∃ s, reads.foldlM dealWithData (start n mem) = some s ∧ s.circleList.messages = frames.map StruCytPacket.wire

theorem queuesFrames_iff {n : Nat} (hn : 0 < n) {mem : List Byte} (hm : mem.length = maxRecvBuffLen)
    {frames : List StruCytPacket} (hf : ∀ p ∈ frames, p.WellFormed ∧ p.wire.length ≤ 0x1000)
    (hcap : frames.length ≤ n) {reads : List (List Byte)} (hr : ∀ x ∈ reads, 1 ≤ x.length ∧ x.length ≤ 0x1000)
    (hcut : reads.flatten = (frames.map StruCytPacket.wire).flatten) :
    QueuesFrames n mem reads frames ↔
      (∀ p ∈ frames.getLast?, 18 < p.wire.length) ∧
      ∀ t ∈ (feed (frameSize .second) [] reads).1, ∀ f ∈ t.2, f <+: padded t.1 := by
  have hG := StruCytPacket.isFrame_map hf
  obtain ⟨s, e1, e2⟩ := run_ok hm hn hG (by rwa [List.length_map]) (fun x hx => (hr x hx).2) hcut
  have hq : QueuesFrames n mem reads frames ↔ queuedFor reads = frames.map StruCytPacket.wire := by
    rw [QueuesFrames, e1, ← e2]
    exact ⟨fun ⟨s', h1, h2⟩ => by cases h1; exact h2, fun h => ⟨s, rfl, h⟩⟩
  have hpre (t : List Byte × List (List Byte)) : (∀ f ∈ t.2, f <+: padded t.1) ↔ ∀ f ∈ t.2, queued t.1 f = f := by
    refine forall₂_congr fun f _ => ?_
    rw [List.prefix_iff_eq_take, eq_comm, queued]
  have hlen := length_queuedFor reads
  rw [hq, ← StruCytPacket.getLast?_wire (P := fun f => 18 < f.length), ← taken_eq_iff hG hcut]
  simp only [hpre]
  rw [← flatMap_eq_taken, ← queuedFor]
  refine ⟨fun h => ?_, fun ⟨h1, h2⟩ => h2.trans h1⟩
  have h1 := (taken_first hG hcut).1.eq_of_length (by rw [← hlen, h])
  exact ⟨h1, h.trans h1.symm⟩

/-- Two packets with a payload of one byte each. -/
def packet (b : Byte) : StruCytPacket := ⟨packHead, 16000, 1, 6001, [b], packTail⟩

theorem packet_ok (b : Byte) : (packet b).WellFormed ∧ (packet b).wire.length ≤ 0x1000 :=
  ⟨⟨rfl, rfl, rfl⟩, (show (packet b).wire.length = 19 from rfl) ▸ by omega⟩

/-- A read for each packet. -/
theorem queuesFrames_iff_two :
    QueuesFrames 2 (List.replicate maxRecvBuffLen 0) [(packet 1).wire, (packet 2).wire] [packet 1, packet 2] ↔
      (∀ p ∈ [packet 1, packet 2].getLast?, 18 < p.wire.length) ∧
      ∀ t ∈ (feed (frameSize .second) [] [(packet 1).wire, (packet 2).wire]).1, ∀ f ∈ t.2, f <+: padded t.1 :=
  queuesFrames_iff (by decide) List.length_replicate (by simp [packet_ok]) (by decide) (by decide) (by decide)

/-- One read for both: the first is queued twice. -/
theorem not_queuesFrames_two :
    [(packet 1).wire ++ (packet 2).wire].flatten = ([packet 1, packet 2].map StruCytPacket.wire).flatten ∧
    ¬ QueuesFrames 2 (List.replicate maxRecvBuffLen 0) [(packet 1).wire ++ (packet 2).wire]
      [packet 1, packet 2] := by
  have hG : ∀ f ∈ [(packet 1).wire, (packet 2).wire], IsFrame .second 0x1000 f := by
    intro f hf
    simp only [List.mem_cons, List.not_mem_nil, or_false] at hf
    rcases hf with rfl | rfl
    · exact ⟨(packet 1).fields, (packet_ok 1).1, rfl, (packet_ok 1).2⟩
    · exact ⟨(packet 2).fields, (packet_ok 2).1, rfl, (packet_ok 2).2⟩
  have hcut : [(packet 1).wire ++ (packet 2).wire].flatten = [(packet 1).wire, (packet 2).wire].flatten := by decide
  have hmem : (List.replicate maxRecvBuffLen (0 : Byte)).length = maxRecvBuffLen := List.length_replicate
  obtain ⟨s, e1, e2⟩ := run_ok hmem (show 0 < 2 by decide) hG (by decide) (by decide) hcut
  refine ⟨by decide, fun ⟨s', h1, h2⟩ => ?_⟩
  rw [e1] at h1
  cases h1
  rw [e2] at h2
  revert h2
  decide

end Miku.CenterServer.ClientInfoEx
