import CewServer.Client.Lifecycle

/-!
# The end of the received string

The receive buffer is handed to `log_debug` and to `regexec` as a string, and nothing puts a NUL behind
what `recv` stored. There is one all the same as long as `recv` leaves some of the buffer: a record is
zeroed when it is registered, and the first data it receives is the last, so the buffer `recv` fills is
always the zeroed one. `recv` may fill it to the last byte.
-/

namespace CewServer.Client

open Transition Http

/-- The receive buffer as the callback hands it on, after `recv` has stored some bytes. -/
def Record.received (r : Record) (bytes : Bytes) : Bytes :=
  (r.enter.receive bytes).psClientEv.sClient.acRecvBuff

/-- It is the buffer, with what lies behind it, that the request is read from. -/
theorem clientCallbackServe_received (fs : FileSystem) (r : Record) {a : UInt8} {bytes : Bytes}
    (hlen : (a :: bytes).length ≤ recvBuffSize) (behind : Bytes) (reads : List Int) :
    clientCallbackServe fs r (some (a :: bytes)) behind reads
      = let handled := httpHandleClientRequest fs (r.received (a :: bytes) ++ behind)
        let r := (r.enter.receive (a :: bytes)).timerAgain.answer handled
        match handled.sent with
        | none => some (r, true)
        | some _ => (clientDeregister r reads).map fun r => (r, false) := by
  rw [clientCallbackServe, if_pos hlen]
  rfl

/-- Whoever reads the buffer as a string, whatever lies behind it, stays inside: the NUL, the scan for
it, and the part that is copied for the file name. -/
structure StaysInside (acRecvBuff behind : Bytes) : Prop where
  terminated : ∃ k, k < recvBuffSize ∧ acRecvBuff[k]? = some 0
  scanned : (Bytes.cstr (acRecvBuff ++ behind)).length < recvBuffSize
  copied : ∀ groups, Regex.regexec requestRegex (Bytes.cstr (acRecvBuff ++ behind)) = some groups →
    0 ≤ groups.rmSo ∧ groups.rmSo ≤ groups.rmEo ∧ groups.rmEo ≤ recvBuffSize

/-! ### Strings in a buffer -/

theorem length_cstr_le {acRecvBuff : Bytes} {k : Nat} (hk : acRecvBuff[k]? = some 0) (behind : Bytes) :
    (Bytes.cstr (acRecvBuff ++ behind)).length ≤ k := by
  by_contra hlonger
  have hlt : k < (Bytes.cstr (acRecvBuff ++ behind)).length := Nat.lt_of_not_le hlonger
  obtain ⟨rest, hrest⟩ := Bytes.cstr_isPrefix (acRecvBuff ++ behind)
  have hzero : (Bytes.cstr (acRecvBuff ++ behind))[k]? = some 0 := by
    rw [← List.getElem?_append_left hlt, hrest, List.getElem?_append_left]
    · exact hk
    · exact (List.getElem?_eq_some_iff.mp hk).1
  exact Bytes.ne_zero_of_mem_cstr (List.mem_of_getElem? hzero) rfl

/-- The group of a match lies in the string. -/
theorem offsets_le_length {text : Bytes} {groups : Regex.Cursor UInt8}
    (h : Regex.regexec requestRegex text = some groups) :
    0 ≤ groups.rmSo ∧ groups.rmSo ≤ groups.rmEo ∧ groups.rmEo ≤ text.length := by
  have hoffsets := regexec_requestRegex text
  rw [h, Option.map_some] at hoffsets
  obtain ⟨target, htarget, hpair⟩ := Option.map_eq_some_iff.mp hoffsets.symm
  obtain ⟨hso, heo⟩ := Prod.mk.inj hpair
  have hget : 5 ≤ text.length := by
    unfold requestTarget at htarget
    split at htarget
    · rename_i hget
      exact Regex.length_le_of_startsWith hget
    · cases htarget
  have hinside : target.length ≤ text.length - 5 := by
    rw [requestTarget_eq_some htarget, ← List.length_drop]
    exact (List.takeWhile_prefix notSpace).length_le
  omega

theorem staysInside_iff (acRecvBuff behind : Bytes) :
    StaysInside acRecvBuff behind ↔ ∃ k, k < recvBuffSize ∧ acRecvBuff[k]? = some 0 := by
  constructor
  · intro hinside
    exact hinside.terminated
  · rintro ⟨k, hk, hzero⟩
    have hscan := length_cstr_le hzero behind
    refine ⟨⟨k, hk, hzero⟩, by omega, ?_⟩
    intro groups hgroups
    obtain ⟨hso, hgroup, heo⟩ := offsets_le_length hgroups
    exact ⟨hso, hgroup, by omega⟩

/-! ### The buffer `recv` fills -/

/-- A client that can be called has the buffer it was registered with. -/
def Zeroed (w : Worker) : Prop :=
  w.aborted = false → ∀ r ∈ w.records, r.psClientEv.io = true →
    r.psClientEv.sClient.acRecvBuff = List.replicate recvBuffSize 0

theorem Zeroed.step {w t : Worker} {event : Event} (hw : Zeroed w) (hstep : w.step event = some t) :
    Zeroed t := by
  obtain ⟨halive, hmove⟩ := step_cases hstep
  have hw := hw halive
  cases hmove with
  | ignored => exact fun _ => hw
  | registered iFd iId getpeername inetNtop =>
      intro _ r hr hio
      rcases List.mem_append.mp hr with hold | hnew
      · exact hw r hold hio
      · rw [List.mem_singleton.mp hnew]
        rfl
  | called i hr hmove =>
      intro halive q hq hio
      rcases List.mem_or_eq_of_mem_set hq with hold | rfl
      · exact hw q hold hio
      · cases hmove with
        | kept hstarted =>
            have hbuffer := hw _ (List.mem_of_getElem? hr) hstarted
            exact hbuffer
        | disconnected | timedOut | answered => cases hio
        | killed => cases halive

theorem zeroed_of_reachable {promise : Worker → Event → Prop} {w : Worker}
    (hw : Reachable system promise w) : Zeroed w := by
  apply Reachable.invariant _ _ hw
  · rintro s rfl _ r hr
    cases hr
  · intro s event t hs _ hstep
    exact hs.step hstep

theorem received_eq {w : Worker} (hw : Reachable system (fun _ _ => True) w)
    (halive : w.aborted = false) {i : Nat} {r : Record} (hr : w.records[i]? = some r)
    (hio : r.psClientEv.io = true) (bytes : Bytes) :
    r.received bytes = bytes ++ List.replicate (recvBuffSize - bytes.length) 0 := by
  have hzeroed := zeroed_of_reachable hw halive r (List.mem_of_getElem? hr) hio
  show bytes ++ r.psClientEv.sClient.acRecvBuff.drop bytes.length = _
  rw [hzeroed, List.drop_replicate]

/-- After any run, a client that can be called receives some bytes: the buffer is a string that ends
inside exactly if the bytes leave some of it or hold a NUL themselves. -/
theorem received_staysInside_iff {w : Worker} (hw : Reachable system (fun _ _ => True) w)
    (halive : w.aborted = false) {i : Nat} {r : Record} (hr : w.records[i]? = some r)
    (hio : r.psClientEv.io = true) {bytes : Bytes} (hlen : bytes.length ≤ recvBuffSize)
    (behind : Bytes) :
    StaysInside (r.received bytes) behind ↔ bytes.length < recvBuffSize ∨ 0 ∈ bytes := by
  rw [staysInside_iff, received_eq hw halive hr hio]
  constructor
  · rintro ⟨k, hk, hzero⟩
    by_cases hfull : bytes.length < recvBuffSize
    · exact .inl hfull
    · have hnone : recvBuffSize - bytes.length = 0 := by omega
      rw [hnone, List.replicate_zero, List.append_nil] at hzero
      exact .inr (List.mem_of_getElem? hzero)
  · rintro (hroom | hmem)
    · refine ⟨bytes.length, hroom, ?_⟩
      rw [List.getElem?_append_right (Nat.le_refl _), Nat.sub_self, List.getElem?_replicate]
      exact if_pos (Nat.sub_pos_of_lt hroom)
    · obtain ⟨k, hk⟩ := List.mem_iff_getElem?.mp hmem
      have hlt := (List.getElem?_eq_some_iff.mp hk).1
      exact ⟨k, by omega, (List.getElem?_append_left hlt).trans hk⟩

def soleClient : Worker := ⟨[clientRegisterEv 9 1 true true], false⟩

theorem soleClient_reachable : Reachable system (fun _ _ => True) soleClient :=
  .step (l := .ipcCallback (some 9) 1 true true) (.init rfl) trivial rfl

theorem received_staysInside_soleClient :
    StaysInside ((clientRegisterEv 9 1 true true).received (Bytes.ascii "GET / HTTP/1.1\r\n\r\n")) [] :=
  (received_staysInside_iff soleClient_reachable rfl (i := 0) rfl rfl (by decide) []).mpr
    (.inl (by decide))

/-- A request that fills the buffer has no end. -/
theorem received_not_terminated :
    ¬ ∀ w, Reachable system (fun _ _ => True) w → w.aborted = false → ∀ (i : Nat) (r : Record),
      w.records[i]? = some r → r.psClientEv.io = true → ∀ bytes : Bytes, bytes.length ≤ recvBuffSize →
        ∀ behind, StaysInside (r.received bytes) behind := by
  intro hinside
  have hfull := hinside soleClient soleClient_reachable rfl 0 (clientRegisterEv 9 1 true true) rfl rfl
    (List.replicate recvBuffSize 65) (Nat.le_of_eq List.length_replicate) []
  obtain ⟨k, -, hzero⟩ := hfull.terminated
  rw [received_eq soleClient_reachable rfl (i := 0) rfl rfl, List.length_replicate, Nat.sub_self,
    List.replicate_zero, List.append_nil] at hzero
  exact absurd (List.eq_of_mem_replicate (List.mem_of_getElem? hzero)) (by decide)

end CewServer.Client
