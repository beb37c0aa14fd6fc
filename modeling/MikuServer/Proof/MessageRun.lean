import MikuServer.Proof.Crowd

/-!
# The sizes of what is sent in a run

Everything that the room server sends in a run fits its arrays, if at every login the
microphone holders of the room do (`fits_run`). In a room with many of them they do
not (`not_fits_crowd`).
-/

namespace Miku.RoomServer

open Act UserInfoList ChatRoom

namespace Server

variable {s : Server} {room : ChatRoom}

theorem tidy_new : Tidy .new where
  noChannel h := by
    rw [show ChatRoom.new.videoChannelList = .empty from rfl, StdMap.find?_empty] at h
    cases h
  nodup := (Multiset.nodup_add.mp nodup_allRecords_new).1

theorem Tidy.withList (ht : Tidy room) {l : UserInfoList} (hl : l.allRecords ≤ room.userList.allRecords) :
    Tidy { room with userList := l } :=
  ⟨ht.noChannel, Multiset.nodup_of_le hl ht.nodup⟩

theorem allRecords_walked (l : UserInfoList) : l.walked.allRecords = l.allRecords := by
  rw [UserInfoList.allRecords, UserInfoList.allRecords, walked_unusedUserInfoList, walked_userInfoList]

theorem tidy_invariant : RoomInvariant fun _ => Tidy where
  lookedUp u ht _ := ht.withList (le_of_eq (allRecords_lookedUp _ u))
  walked ht _ := ht.withList (le_of_eq (allRecords_walked _))
  store _ _ ht := ⟨ht.noChannel, ht.nodup⟩
  ids _ _ ht := ⟨ht.noChannel, ht.nodup⟩
  took ht _ hf := by
    refine ⟨ht.noChannel, Multiset.nodup_of_le ?_ ht.nodup⟩
    rw [allRecords_tookList hf]
    exact Multiset.le_cons_self _ _
  pre _ ht := ⟨ht.noChannel, ht.nodup⟩

theorem Tidy.applied (ht : Tidy room) (u : Int) :
    wp (userApplyOneNewVideo u) (fun _ => Tidy) Tidy True room := by
  have hsub {v : Int} {channel : List Byte} (hv : (room.videoChannelList.subscript u []).find? v = some channel) :
      channel = [] := by
    rw [StdMap.find?_subscript] at hv
    split at hv
    · cases hv
      rfl
    · exact ht.noChannel hv
  rw [userApplyOneNewVideo, wp_ofFun]
  dsimp only
  split
  · exact ⟨hsub, ht.nodup⟩
  · refine ⟨fun {v channel} hv => ?_, ht.nodup⟩
    rw [StdMap.find?_assign] at hv
    split at hv
    · cases hv
      rfl
    · exact hsub hv

theorem Tidy.kept (hrooms : Rooms (fun _ => Tidy) s) (m : Message) : Kept (fun _ => Tidy) s m := by
  cases m with
  | userExitRoomID m =>
    intro r p _ _ hp
    refine (hrooms.each r).withList (le_of_eq ?_)
    rw [allRecords_erased hp]
    exact allRecords_pushed { (s.chatRooms r).userList with
      userInfoList := (s.chatRooms r).userList.userInfoList.erase m.userId } p
  | userApplyMicRQ rq => exact fun r p _ _ => (hrooms.each r).applied rq.userId
  | userOffMicRQ rq =>
    refine fun r ht => ⟨fun {v channel} hv => ?_, ht.nodup⟩
    rw [StdMap.find?_erase] at hv
    split at hv
    · cases hv
    · exact ht.noChannel hv
  | clientLoginRS rs => exact fun r p q rest _ _ _ _ _ hf => (hrooms.each r).loggedIn hf
  | clientLoginRQ | cancleUserMicRQ | putUserOnMicRQ | userGiveGiftRQ | userSendMsgRQ | userGiveGiftRS => trivial

/-- Everything that is sent in a run fits, if the microphone holders do at every login. -/
theorem fits_run {es : List Event} (hes : ∀ e ∈ es, FromFrame e)
    (h : ∀ x ∈ runSteps step .new es, HoldersFit x.1 x.2) (hs : run .new es = some s) : ∀ m ∈ s.sent, m.Fits := by
  have hinv : Rooms (fun _ => Tidy) s ∧ Fitting s := by
    refine foldlM_inv_of_steps (I := fun s => Rooms (fun _ => Tidy) s ∧ Fitting s)
      (C := fun s e => FromFrame e ∧ HoldersFit s e) (fun s e s' hi hc hs => ?_) ⟨rooms_new fun _ => tidy_new, fitting_new⟩ (fun x hx => ⟨hes _ (snd_mem_of_runSteps hx), h x hx⟩) hs
    exact ⟨keeps_step tidy_invariant hi.1 (fun m _ => Tidy.kept hi.1 m) hs, fitting_step hi.1 hi.2 hc.1 hc.2 hs⟩
  exact hinv.2.sent

/-- The user 1 logs in, asks for a microphone and logs in again. -/
def loginTwice : List Event :=
  firstLogin ++ [.message (.userApplyMicRQ ⟨1, 2⟩), requestOf 5 8 1 2, replyOf 1 2 1]

/-- The second login is answered with a message with a microphone holder. -/
theorem fits_run_twice : ∃ s, run .new loginTwice = some s ∧
    .toGS (.roomMicInfoID ⟨.roomMicInfoID, 1, 2, [⟨.micInfo, 1, [], []⟩]⟩) .roomMicInfoID 50 8 ∈ s.sent ∧
    ∀ m ∈ s.sent, m.Fits := by
  have hrun : ∃ s, s ∈ run .new loginTwice ∧
      .toGS (.roomMicInfoID ⟨.roomMicInfoID, 1, 2, [⟨.micInfo, 1, [], []⟩]⟩) .roomMicInfoID 50 8 ∈ s.sent := by
    decide +kernel
  obtain ⟨s, hs, hm⟩ := hrun
  exact ⟨s, hs, hm, fits_run (by decide +kernel) (by decide +kernel) hs⟩

/-- 200 users with nicknames of 31 bytes hold microphones in the room 2, and one more user logs in. -/
theorem not_fits_crowd : ¬ ∀ es s, (∀ e ∈ es, FromFrame e) → run .new es = some s → ∀ m ∈ s.sent, m.Fits := by
  intro h
  obtain ⟨s, hs, list, fd, key, hm, hsize⟩ := crowded_run (n := 200) (by decide) (by decide)
  have hfits : list.byteSize + 36 ≤ 0x2000 := h _ s (fromFrame_crowded 200) hs _ hm
  omega

end Server

end Miku.RoomServer
