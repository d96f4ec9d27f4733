import CewServer.Client.Session

/-!
# A request that arrives in pieces

The first piece of a request is answered as if it were the request, and the client is disconnected
with it, so the pieces after it are drained unseen. What the client is sent is therefore the answer to
the first piece, and it is the answer to the whole request exactly when the piece already holds the
request line, or the whole request is one the server has nothing to say to.
-/

namespace CewServer.Client

open Http

/-! ### The reply to a request -/

def reply (fs : FileSystem) (request : Bytes) : Bytes :=
  (httpHandleClientRequest fs request).sent.getD []

/-- A request without a reply: it does not parse, or the file is there but has no known extension, or
there is no room for it, or the size read for it takes away the whole head. -/
def Silent (fs : FileSystem) (request : Bytes) : Prop :=
  ∀ sFileName, requestedName request = some sFileName →
    fs.access (servedPath sFileName) = true ∧
      ∀ sMime, mimeOfName sFileName = some sMime →
        ∃ file, fs.openRdonly (servedPath sFileName) = some file ∧
          (file.roomFound = false ∨
            file.stSize + (headLength (headOk [] sMime) file.stSize).length ≤ 0)

theorem sdsIncrLen_eq_nil_iff (sds : Sds) {s : Bytes} (hs : s ≠ []) (room : Nat → UInt8) (incr : Int) :
    (sds.sdsIncrLen s room incr).getD [] = [] ↔ incr + s.length ≤ 0 := by
  have hpos : 0 < s.length := List.length_pos_iff.mpr hs
  cases incr with
  | ofNat n =>
      rw [sds.grows]
      simp only [Option.getD_some, List.append_eq_nil_iff, hs, false_and, false_iff,
        Int.ofNat_eq_natCast]
      omega
  | negSucc n =>
      by_cases hlength : n < s.length
      · rw [sds.trims _ _ _ hlength]
        simp only [Option.getD_some, List.take_eq_nil_iff, hs, or_false]
        omega
      · rw [sds.asserts _ _ _ (Nat.le_of_not_lt hlength)]
        simp only [Option.getD_none, true_iff]
        omega

theorem addContent_eq_nil_iff (sds : Sds) {s : Bytes} (hs : s ≠ []) (file : OpenedFile) :
    (addContent sds s file).getD [] = [] ↔ file.roomFound = false ∨ file.stSize + s.length ≤ 0 := by
  rw [addContent]
  cases file.roomFound with
  | false => simp only [Bool.false_eq_true, if_false, Option.getD_none, true_or]
  | true =>
      simp only [if_true, Bool.true_eq_false, false_or]
      exact sdsIncrLen_eq_nil_iff sds hs file.filled file.stSize

theorem headOk_ne_nil (sMime : Bytes) : headOk [] sMime ≠ [] := by
  simp only [headOk, ne_eq, List.append_eq_nil_iff, not_and]
  intro h
  exact absurd h.1.2 (by decide)

theorem headLength_ne_nil (acSendBuff : Bytes) (stSize : Int) : headLength acSendBuff stSize ≠ [] := by
  simp only [headLength, ne_eq, List.append_eq_nil_iff, not_and]
  intro _
  decide

theorem reply_eq_nil_iff (fs : FileSystem) (request : Bytes) :
    reply fs request = [] ↔ Silent fs request := by
  rw [reply, httpHandleClientRequest_eq, Silent]
  cases requestedName request with
  | none => simp only [Option.getD_some, reduceCtorEq, false_imp_iff, implies_true]
  | some sFileName =>
      simp only [Option.some.injEq, forall_eq']
      cases fs.access (servedPath sFileName) with
      | false =>
          simp only [Bool.false_eq_true, if_false, Option.getD_some, false_and, iff_false]
          decide
      | true =>
          simp only [if_true, true_and]
          cases mimeOfName sFileName with
          | none => simp only [Option.getD_some, reduceCtorEq, false_imp_iff, implies_true]
          | some sMime =>
              simp only [Option.some.injEq, forall_eq']
              cases fs.openRdonly (servedPath sFileName) with
              | none => simp only [Option.getD_some, headOk_ne_nil, reduceCtorEq, false_and,
                  exists_false]
              | some file =>
                  simp only [Option.some.injEq, exists_eq_left']
                  exact addContent_eq_nil_iff fs.sds (headLength_ne_nil _ _) file

theorem reply_of_not_parsed {request : Bytes} (fs : FileSystem) (h : requestedName request = none) :
    reply fs request = [] := by
  rw [reply, httpHandleClientRequest_eq, h]
  rfl

theorem reply_congr (fs : FileSystem) {request request' : Bytes}
    (h : requestedName request = requestedName request') : reply fs request = reply fs request' := by
  rw [reply, reply, httpHandleClientRequest_eq, httpHandleClientRequest_eq, h]

theorem requestedName_append {request sFileName : Bytes} (h : requestedName request = some sFileName)
    (more : Bytes) : requestedName (request ++ more) = some sFileName := by
  obtain ⟨target, htarget, rfl⟩ := Option.map_eq_some_iff.mp h
  obtain ⟨rest, hrest⟩ := Bytes.cstr_isPrefix_append request more
  rw [requestedName, ← hrest, requestTarget_append htarget rest]
  rfl

theorem reply_part_iff (fs : FileSystem) (first more : Bytes) :
    reply fs first = reply fs (first ++ more)
      ↔ (requestedName first).isSome ∨ Silent fs (first ++ more) := by
  cases hfirst : requestedName first with
  | some sFileName =>
      have hwhole := requestedName_append hfirst more
      simp only [Option.isSome_some, true_or, iff_true]
      exact reply_congr fs (hfirst.trans hwhole.symm)
  | none =>
      rw [reply_of_not_parsed fs hfirst, ← reply_eq_nil_iff]
      simp only [Option.isSome_none, Bool.false_eq_true, false_or]
      exact eq_comm

/-! ### Pieces delivered to a client -/

structure NewClient where
  worker : Worker
  i : Nat
  iFd : Int
  iId : Int
  alive : worker.aborted = false
  fresh : worker.records[i]? = some (clientRegisterEv iFd iId true true)

structure Splitting (request : Bytes) where
  chunks : List Bytes
  nonempty : ∀ chunk ∈ chunks, chunk ≠ []
  whole : chunks.flatten = request

/-- A piece arrives at a client: its callback receives it if it can be called. -/
def Worker.offer (fs : FileSystem) (behind : Bytes) (reads : List Int) (i : Nat) (w : Worker)
    (chunk : Bytes) : Worker :=
  (w.step (.readable i fs (some chunk) behind reads)).getD w

def Worker.sentTo (w : Worker) (i : Nat) : Bytes := (w.records[i]?.map Record.sent).getD []

/-- All that a new client is sent when pieces arrive one after the other. -/
def NewClient.total (client : NewClient) (fs : FileSystem) (behind : Bytes) (reads : List Int)
    (chunks : List Bytes) : Bytes :=
  (chunks.foldl (Worker.offer fs behind reads client.i) client.worker).sentTo client.i

/-- The string in the receive buffer of a new client is what was received. -/
theorem requestedName_received {chunk : Bytes} (hlen : chunk.length < recvBuffSize) (behind : Bytes) :
    requestedName (chunk ++ (List.replicate recvBuffSize 0).drop chunk.length ++ behind)
      = requestedName chunk := by
  obtain ⟨n, hn⟩ : ∃ n, recvBuffSize - chunk.length = n + 1 :=
    Nat.exists_eq_succ_of_ne_zero (Nat.sub_ne_zero_of_lt hlen)
  have hmemory : chunk ++ (List.replicate recvBuffSize 0).drop chunk.length ++ behind
      = chunk ++ 0 :: (List.replicate n 0 ++ behind) := by
    rw [List.drop_replicate, hn, List.replicate_succ, List.append_assoc, List.cons_append]
  rw [hmemory, requestedName, requestedName, Bytes.cstr_append_zero]

/-- The callback answers the first piece, and cannot be called again. -/
theorem clientCallbackServe_fresh (fs : FileSystem) (iFd iId : Int) {chunk : Bytes}
    (hne : chunk ≠ []) (hlen : chunk.length < recvBuffSize) (behind : Bytes) {reads : List Int}
    (hreads : (clientRegisterEv iFd iId true true).drained reads = true) :
    ∃ r aborted, clientCallbackServe fs (clientRegisterEv iFd iId true true) (some chunk) behind reads
        = some (r, aborted) ∧ r.sent = reply fs chunk ∧
      (aborted = true ∨ r.psClientEv.io = false) := by
  obtain ⟨a, bytes, rfl⟩ := List.exists_cons_of_ne_nil hne
  have hbuffer := reply_congr fs (requestedName_received hlen behind)
  simp only [clientCallbackServe, if_pos (Nat.le_of_lt hlen)]
  split
  · rename_i hkilled
    refine ⟨_, true, rfl, ?_, .inl rfl⟩
    exact hbuffer
  · rename_i message hsent
    -- the socket is the registered one, so the drain is the one assumed
    have hderegister : ∀ r : Record, r.psClientEv.sClient.iSockfd = iFd →
        clientDeregister r reads = some r.release := by
      intro r hsock
      rw [clientDeregister, if_pos]
      rw [Record.drained, hsock]
      exact hreads
    rw [hderegister _ rfl]
    refine ⟨_, false, rfl, ?_, .inr rfl⟩
    exact hbuffer

theorem offer_of_stopped {w : Worker} {i : Nat} {r : Record} (hr : w.records[i]? = some r)
    (hstopped : w.aborted = true ∨ r.psClientEv.io = false) (fs : FileSystem) (behind : Bytes)
    (reads : List Int) (chunk : Bytes) : w.offer fs behind reads i chunk = w := by
  have hnone : w.step (.readable i fs (some chunk) behind reads) = none := by
    unfold Worker.step
    split
    · rfl
    · rename_i halive
      have hio := hstopped.resolve_left halive
      simp only [Worker.callback, hr, hio, Bool.false_eq_true, if_false]
  rw [Worker.offer, hnone]
  rfl

theorem offers_of_stopped {w : Worker} {i : Nat} {r : Record} (hr : w.records[i]? = some r)
    (hstopped : w.aborted = true ∨ r.psClientEv.io = false) (fs : FileSystem) (behind : Bytes)
    (reads : List Int) (chunks : List Bytes) :
    chunks.foldl (Worker.offer fs behind reads i) w = w := by
  induction chunks with
  | nil => rfl
  | cons chunk chunks ih =>
      rw [List.foldl_cons, offer_of_stopped hr hstopped]
      exact ih

theorem NewClient.total_cons (client : NewClient) (fs : FileSystem) (behind : Bytes)
    {reads : List Int} (hreads : (clientRegisterEv client.iFd client.iId true true).drained reads = true)
    {chunk : Bytes} (hne : chunk ≠ []) (hlen : chunk.length < recvBuffSize) (chunks : List Bytes) :
    client.total fs behind reads (chunk :: chunks) = reply fs chunk := by
  obtain ⟨r, aborted, hserve, hsent, hstopped⟩ :=
    clientCallbackServe_fresh fs client.iFd client.iId hne hlen behind hreads
  have hindex := List.getElem?_eq_some_iff.mp client.fresh
  have hset : (client.worker.records.set client.i r)[client.i]? = some r :=
    List.getElem?_set_self hindex.1
  have hoffer : client.worker.offer fs behind reads client.i chunk
      = ⟨client.worker.records.set client.i r, aborted⟩ := by
    have hio : (clientRegisterEv client.iFd client.iId true true).psClientEv.io = true := rfl
    simp only [Worker.offer, Worker.step, client.alive, Bool.false_eq_true, if_false,
      Worker.callback, client.fresh, hio, if_true, hserve, Option.map_some, Option.getD_some]
  rw [NewClient.total, List.foldl_cons, hoffer, offers_of_stopped hset hstopped, Worker.sentTo, hset]
  exact hsent

/-- A client that sends nothing is sent nothing, also when the end of its stream is seen. -/
theorem NewClient.total_nil (client : NewClient) (fs : FileSystem) (behind : Bytes) (reads : List Int) :
    client.total fs behind reads [] = [] := by
  rw [NewClient.total, List.foldl_nil, Worker.sentTo, client.fresh]
  rfl

theorem NewClient.total_eof (client : NewClient) (fs : FileSystem) (behind : Bytes)
    {reads : List Int} (hreads : (clientRegisterEv client.iFd client.iId true true).drained reads = true) :
    client.total fs behind reads [[]] = [] := by
  have hindex := List.getElem?_eq_some_iff.mp client.fresh
  have hderegister : clientDeregister (clientRegisterEv client.iFd client.iId true true).enter reads
      = some (clientRegisterEv client.iFd client.iId true true).enter.release := if_pos hreads
  have hio : (clientRegisterEv client.iFd client.iId true true).psClientEv.io = true := rfl
  have hoffer : client.worker.offer fs behind reads client.i []
      = ⟨client.worker.records.set client.i
          (clientRegisterEv client.iFd client.iId true true).enter.release, false⟩ := by
    simp only [Worker.offer, Worker.step, client.alive, Bool.false_eq_true, if_false,
      Worker.callback, client.fresh, hio, if_true, clientCallbackServe, hderegister, Option.map_some,
      Option.getD_some]
  rw [NewClient.total, List.foldl_cons, List.foldl_nil, hoffer, Worker.sentTo,
    List.getElem?_set_self hindex.1]
  rfl

/-- A request in pieces is answered as the whole is exactly when the first piece parses, or the whole
has no reply. -/
theorem total_segmented_iff (client : NewClient) (fs : FileSystem) (behind behind' : Bytes)
    {reads reads' : List Int}
    (hreads : (clientRegisterEv client.iFd client.iId true true).drained reads = true)
    (hreads' : (clientRegisterEv client.iFd client.iId true true).drained reads' = true)
    {request : Bytes} (hlen : request.length < recvBuffSize) (split : Splitting request) :
    client.total fs behind reads split.chunks = client.total fs behind' reads' [request]
      ↔ (∃ first ∈ split.chunks.head?, (requestedName first).isSome) ∨ Silent fs request := by
  have hnonempty := split.nonempty
  have hwhole := split.whole
  generalize split.chunks = chunks at hnonempty hwhole ⊢
  cases chunks with
  | nil =>
      obtain rfl : [] = request := hwhole
      rw [client.total_nil, client.total_eof fs behind' hreads', ← reply_eq_nil_iff,
        reply_of_not_parsed fs rfl]
      simp only [or_true]
  | cons first rest =>
      have hfirst : first ≠ [] := hnonempty first List.mem_cons_self
      obtain rfl : first ++ rest.flatten = request := hwhole
      have hpart : first.length < recvBuffSize := by
        rw [List.length_append] at hlen
        omega
      have hne : first ++ rest.flatten ≠ [] := fun h => hfirst (List.append_eq_nil_iff.mp h).1
      rw [client.total_cons fs behind hreads hfirst hpart, client.total_cons fs behind' hreads' hne hlen,
        reply_part_iff]
      simp only [List.head?_cons, Option.mem_some_iff, exists_eq_left']

def oneClient : NewClient where
  worker := ⟨[clientRegisterEv 9 1 true true], false⟩
  i := 0
  iFd := 9
  iId := 1
  alive := rfl
  fresh := rfl

def cutInHeaders : Splitting (Bytes.ascii "GET /a.html HTTP/1.1\r\nHost: a\r\n\r\n") where
  chunks := [Bytes.ascii "GET /a.html HTTP/1.1\r\nHo", Bytes.ascii "st: a\r\n\r\n"]
  nonempty := by decide
  whole := by decide

theorem total_segmented_cutInHeaders :
    oneClient.total ⟨fun _ => false, fun _ => none, .plain⟩ [] [7, 0] cutInHeaders.chunks
      = oneClient.total ⟨fun _ => false, fun _ => none, .plain⟩ [] [0]
          [Bytes.ascii "GET /a.html HTTP/1.1\r\nHost: a\r\n\r\n"] :=
  (total_segmented_iff oneClient ⟨fun _ => false, fun _ => none, .plain⟩ [] [] rfl rfl (by decide)
    cutInHeaders).mpr (.inl ⟨_, rfl, by decide⟩)

theorem total_segmented_ne :
    ¬ ∀ (client : NewClient) (fs : FileSystem) (behind : Bytes) (reads : List Int) (request : Bytes)
      (split : Splitting request),
      (clientRegisterEv client.iFd client.iId true true).drained reads = true →
      request.length < recvBuffSize →
      client.total fs behind reads split.chunks = client.total fs behind reads [request] := by
  intro hsame
  have hcut := hsame oneClient ⟨fun _ => false, fun _ => none, .plain⟩ [] [0]
    (Bytes.ascii "GET /a.html HTTP/1.1\r\n\r\n")
    ⟨[Bytes.ascii "GET /a.html", Bytes.ascii " HTTP/1.1\r\n\r\n"], by decide, by decide⟩ rfl
    (by decide)
  rw [oneClient.total_cons _ _ rfl (by decide) (by decide), oneClient.total_cons _ _ rfl (by decide)
    (by decide), reply, reply, httpHandleClientRequest_eq, httpHandleClientRequest_eq] at hcut
  exact absurd hcut (by decide)

end CewServer.Client
