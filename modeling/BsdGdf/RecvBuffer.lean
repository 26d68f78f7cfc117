/-
The receive side of a session: what `RecvFromClient` appends and what
`PullFromRecvBuffer` takes out.

* `framing` — over every run of receives and pulls, what was received is the
  pulled messages with their delimiters followed by what is still in the buffer,
  each message ends at the first occurrence of its delimiter, and with one
  delimiter the messages are those of the whole stream, however it was cut into
  packets and whenever it was pulled;
* `received_eq_stream_iff` — a chunk goes through a C string before it is
  appended, so the buffer gets the whole stream exactly if the stream has no NUL
  byte.
-/
import BsdGdf.NetworkCalls

namespace Gdf

open Runs Framing

variable {net : Network} {k : int32} {c : Call} {s : Session} {calls : List Call}

/-! ### What was received and what was pulled -/

/-- The string appended to the `recvBuffer` of socket `k` for a system call. -/
def Syscall.appended (k : int32) : Syscall → Bytes
  | .recv fd ret => if fd = k then ret.text else []
  | _ => []

/-- The string a call appended to the `recvBuffer` of socket `k`. -/
def receivedBy (k : int32) (r : Reply) : Bytes := r.sys.flatMap (Syscall.appended k)

/-- The message a call pulled from socket `k`, with the delimiter it was pulled
with. -/
def pulledBy (k : int32) : Call → Reply → List (Bytes × Bytes)
  | .pullFromRecvBuffer socket _ endString, ⟨.pulled true msg, _⟩ =>
    if socket = k then [(msg, endString)] else []
  | _, _ => []

/-- Everything appended to the `recvBuffer` of socket `k` so far. -/
def received (k : int32) (es : List NetEvent) : Bytes :=
  es.flatMap fun e => receivedBy k e.output

/-- The successful pulls from socket `k` so far. -/
def pulls (k : int32) (es : List NetEvent) : List (Bytes × Bytes) :=
  es.flatMap fun e => pulledBy k e.input e.output

/-- The messages pulled from socket `k` so far. -/
def messages (k : int32) (es : List NetEvent) : List Bytes := (pulls k es).map Prod.fst

theorem received_concat (es : List NetEvent) (e : NetEvent) :
    received k (es ++ [e]) = received k es ++ receivedBy k e.output := by
  simp [received]

theorem pulls_concat (es : List NetEvent) (e : NetEvent) :
    pulls k (es ++ [e]) = pulls k es ++ pulledBy k e.input e.output := by
  simp [pulls]

/-- Only `RecvFromClient` calls on a socket receive anything from it. -/
theorem receivedBy_eq_nil (h : ∀ recv, c ≠ .recvFromClient k recv) :
    receivedBy k (step net c).2 = [] := by
  refine List.flatMap_eq_nil_iff.mpr fun call hcall => ?_
  cases call with
  | recv fd ret =>
    have hc := (step_sys net c).1 fd ret hcall
    refine if_neg ?_
    rintro rfl
    exact h ret hc
  | _ => rfl

theorem pulledBy_of_names_ne (h : c.names ≠ some k) (r : Reply) : pulledBy k c r = [] := by
  cases c with
  | pullFromRecvBuffer l buf d =>
    have hl : l ≠ k := by
      rintro rfl
      exact h rfl
    simp only [pulledBy]
    split <;> simp_all
  | _ => rfl

/-! ### Runs of receives and pulls -/

/-- The calls on socket `k` are receives and pulls, on a session that starts with an
empty `recvBuffer` and is never closed. -/
structure ReceiveRun (net : Network) (k : int32) (calls : List Call) : Prop where
  start : ∃ s, net.mSessions k = some s ∧ s.recvBuffer = []
  shape : ∀ c ∈ calls, c.names = some k → (∃ recv, c = .recvFromClient k recv) ∨
    ∃ buf d, c = .pullFromRecvBuffer k buf d
  stays : Always step net (fun _ net => net.mSessions k ≠ none) calls

/-- All pulls from socket `k` use the delimiter `d`. -/
def PullsWith (k : int32) (d : Bytes) (calls : List Call) : Prop :=
  ∀ c ∈ calls, ∀ buf d', c = .pullFromRecvBuffer k buf d' → d' = d

/-- A call of such a run appends to the buffer, or takes a message and its delimiter
off the front, or takes the whole buffer. -/
theorem receive_cases (hs : net.mSessions k = some s)
    (hshape : c.names = some k → (∃ recv, c = .recvFromClient k recv) ∨
      ∃ buf d, c = .pullFromRecvBuffer k buf d)
    (hstays : (step net c).1.mSessions k ≠ none) :
    (((step net c).1.session k).recvBuffer =
        s.recvBuffer ++ receivedBy k (step net c).2 ∧ pulledBy k c (step net c).2 = []) ∨
    (∃ buf d p, c = .pullFromRecvBuffer k buf d ∧ d ≠ [] ∧ find d s.recvBuffer = some p ∧
      receivedBy k (step net c).2 = [] ∧
      pulledBy k c (step net c).2 = [(s.recvBuffer.take p, d)] ∧
      ((step net c).1.session k).recvBuffer = s.recvBuffer.drop (p + d.length)) ∨
    (∃ buf, c = .pullFromRecvBuffer k buf [] ∧ receivedBy k (step net c).2 = [] ∧
      pulledBy k c (step net c).2 = [(s.recvBuffer, [])] ∧
      ((step net c).1.session k).recvBuffer = []) := by
  have hses := Network.session_of_some hs
  by_cases hn : c.names = some k
  case neg =>
    -- a call on another socket
    left
    have hkeep : (step net c).1.session k = s := by
      rw [Network.session, step_frame net c hn, hs]
      rfl
    refine ⟨?_, pulledBy_of_names_ne hn _⟩
    rw [hkeep, receivedBy_eq_nil, List.append_nil]
    rintro recv rfl
    exact hn rfl
  rcases hshape hn with ⟨recv, rfl⟩ | ⟨buf, d, rfl⟩
  · left
    rcases net.recvFromClient_cases k recv hses with ⟨-, heq⟩ | ⟨-, -, heq⟩ | ⟨-, -, heq⟩
    · simp [step, heq, receivedBy, pulledBy]
    · exact absurd (by simp [step, heq]) hstays
    · simp [step, heq, receivedBy, pulledBy, Syscall.appended]
  · rcases net.pullFromRecvBuffer_cases k buf d hses with ⟨-, -, heq⟩ | ⟨rfl, -, heq⟩ |
      ⟨-, -, heq⟩ | ⟨p, hd, hp, heq⟩
    · left
      simp [step, heq, receivedBy, pulledBy]
    · right; right
      exact ⟨buf, rfl, by simp [step, receivedBy], by simp [step, heq, pulledBy],
        by simp [step, heq]⟩
    · left
      simp [step, heq, receivedBy, pulledBy]
    · right; left
      exact ⟨buf, d, p, rfl, hd, hp, by simp [step, receivedBy],
        by simp [step, heq, pulledBy], by simp [step, heq]⟩

/-- What `receive_cases` needs, at every step of the run. -/
theorem ReceiveRun.along (h : ReceiveRun net k calls) :
    Along step net (fun _ net c => (∃ s, net.mSessions k = some s) ∧
      (c.names = some k → (∃ recv, c = .recvFromClient k recv) ∨
        ∃ buf d, c = .pullFromRecvBuffer k buf d) ∧
      (step net c).1.mSessions k ≠ none ∧ c ∈ calls) calls := by
  intro pre c hpre
  have hbefore := h.stays pre ((List.prefix_append _ _).trans hpre)
  have hafter := h.stays (pre ++ [c]) hpre
  rw [final_concat] at hafter
  have hmem : c ∈ calls :=
    hpre.subset (List.mem_append_right _ (List.mem_singleton_self c))
  exact ⟨Option.ne_none_iff_exists'.mp hbefore, h.shape c hmem, hafter, hmem⟩

/-! ### Nothing is lost between the packets and the messages -/

/-- What was received is the pulled messages with their delimiters, then the buffer;
each message ends at the first occurrence of its delimiter. -/
def Conserved (k : int32) (es : List NetEvent) (net : Network) : Prop :=
  received k es = ((pulls k es).flatMap fun m => m.1 ++ m.2) ++ (net.session k).recvBuffer ∧
  ∀ m ∈ pulls k es, m.2 ≠ [] → find m.2 (m.1 ++ m.2) = some m.1.length

theorem conserved_step {es : List NetEvent} (hcons : Conserved k es net)
    (hs : net.mSessions k = some s)
    (hshape : c.names = some k → (∃ recv, c = .recvFromClient k recv) ∨
      ∃ buf d, c = .pullFromRecvBuffer k buf d)
    (hstays : (step net c).1.mSessions k ≠ none) :
    Conserved k (es ++ [event step net c]) (step net c).1 := by
  obtain ⟨hrec, hfirst⟩ := hcons
  rw [Network.session_of_some hs] at hrec
  rw [Conserved, received_concat, pulls_concat]
  show received k es ++ receivedBy k (step net c).2 =
      ((pulls k es ++ pulledBy k c (step net c).2).flatMap fun m => m.1 ++ m.2) ++
        ((step net c).1.session k).recvBuffer ∧
    ∀ m ∈ pulls k es ++ pulledBy k c (step net c).2, m.2 ≠ [] →
      find m.2 (m.1 ++ m.2) = some m.1.length
  rcases receive_cases hs hshape hstays with ⟨hbuf, hpull⟩ |
    ⟨buf, d, p, -, hd, hp, hby, hpull, hbuf⟩ | ⟨buf, -, hby, hpull, hbuf⟩
  · rw [hpull, List.append_nil]
    refine ⟨?_, hfirst⟩
    rw [hrec, hbuf, List.append_assoc]
  · -- a message and its delimiter go from the front of the buffer to the end of the list
    rw [hby, hpull, hbuf]
    refine ⟨?_, ?_⟩
    · have hcut := take_append_drop_of_find hp
      rw [List.append_nil, hrec, List.flatMap_append]
      conv_lhs => rw [← hcut]
      simp
    · intro m hm hne
      rcases List.mem_append.mp hm with hm | hm
      · exact hfirst m hm hne
      · obtain rfl := List.mem_singleton.mp hm
        have hlen : (s.recvBuffer.take p).length = p := by
          have := find_lt hp
          rw [List.length_take]
          omega
        show find d (s.recvBuffer.take p ++ d) = some (s.recvBuffer.take p).length
        rw [find_take_append hp, hlen]
  · -- the empty delimiter takes the whole buffer
    rw [hby, hpull, hbuf]
    refine ⟨by simp [hrec], ?_⟩
    intro m hm hne
    rcases List.mem_append.mp hm with hm | hm
    · exact hfirst m hm hne
    · obtain rfl := List.mem_singleton.mp hm
      exact absurd rfl hne

theorem ReceiveRun.conserved (h : ReceiveRun net k calls) :
    Always step net (Conserved k) calls := by
  have h0 : Conserved k [] net := by
    obtain ⟨s, hs, hempty⟩ := h.start
    rw [Conserved, Network.session_of_some hs, hempty]
    exact ⟨rfl, by simp [pulls]⟩
  refine always_of_step h0 ?_ h.along
  rintro es t c hcons ⟨⟨s, hs⟩, hshape, hstays, -⟩
  exact conserved_step hcons hs hshape hstays

/-- What a pull reports: `false` exactly when there is nothing to take, and then it
changes neither `recvBuffer` nor `buf`. -/
def PullReports (k : int32) (net : Network) (c : Call) : Prop :=
  ∀ buf d, c = .pullFromRecvBuffer k buf d →
    ∃ ok out, (step net c).2.ret = .pulled ok out ∧
      (ok = false ↔ (d ≠ [] ∧ ¬ d <:+: (net.session k).recvBuffer) ∨
        (d = [] ∧ (net.session k).recvBuffer = [])) ∧
      (ok = false → out = buf ∧
        ((step net c).1.session k).recvBuffer = (net.session k).recvBuffer)

theorem pullReports (k : int32) (net : Network) (c : Call) : PullReports k net c := by
  rintro buf d rfl
  rcases net.pullFromRecvBuffer_cases k buf d rfl with ⟨hd, hb, heq⟩ | ⟨hd, hb, heq⟩ |
    ⟨hd, hp, heq⟩ | ⟨p, hd, hp, heq⟩
  · exact ⟨false, buf, by simp [step, heq], by simp [hd, hb], by simp [step, heq]⟩
  · exact ⟨true, _, by simp [step, heq]; rfl, by simp [hd, hb], by simp⟩
  · have hno := find_eq_none_iff.mp hp
    exact ⟨false, buf, by simp [step, heq], by simp [hd, hno], by simp [step, heq]⟩
  · have hyes : d <:+: (net.session k).recvBuffer := by
      by_contra hno
      rw [find_eq_none_iff.mpr hno] at hp
      exact absurd hp (by simp)
    exact ⟨true, _, by simp [step, heq]; rfl, by simp [hd, hyes], by simp⟩

/-! ### One delimiter: the messages of the stream -/

theorem ReceiveRun.reads {d : Bytes} (h : ReceiveRun net k calls) (hd : d ≠ [])
    (hpulls : PullsWith k d calls) :
    Always step net (fun es net =>
      Reads d (received k es) (messages k es) (net.session k).recvBuffer) calls := by
  have h0 : Reads d (received k []) (messages k []) (net.session k).recvBuffer := by
    obtain ⟨s, hs, hempty⟩ := h.start
    rw [Network.session_of_some hs, hempty]
    exact .nil []
  refine always_of_step h0 ?_ h.along
  rintro es t c hreads ⟨⟨s, hs⟩, hshape, hstays, hmem⟩
  rw [Network.session_of_some hs] at hreads
  rw [messages, received_concat, pulls_concat, List.map_append]
  show Reads d (received k es ++ receivedBy k (step t c).2)
    (messages k es ++ (pulledBy k c (step t c).2).map Prod.fst) _
  rcases receive_cases hs hshape hstays with ⟨hbuf, hpull⟩ |
    ⟨buf, d', p, hc, -, hp, hby, hpull, hbuf⟩ | ⟨buf, hc, -, -, -⟩
  · rw [hpull, hbuf, List.map_nil, List.append_nil]
    exact hreads.append _
  · obtain rfl : d' = d := hpulls c hmem buf d' hc
    rw [hby, hpull, hbuf, List.append_nil]
    exact hreads.concat hp
  · exact absurd (hpulls c hmem buf [] hc).symm hd

/-- **Message framing does not depend on packet boundaries.** -/
theorem framing (hrun : ReceiveRun net k calls) :
    Always step net (Conserved k) calls ∧
    Along step net (fun _ net c => PullReports k net c) calls ∧
    ∀ d, d ≠ [] → PullsWith k d calls →
      Always step net (fun es _ => messages k es <+: (split d (received k es)).1) calls ∧
      ∀ net' k' calls', ReceiveRun net' k' calls' → PullsWith k' d calls' →
        received k' (trace step net' calls') = received k (trace step net calls) →
        (messages k' (trace step net' calls') <+: messages k (trace step net calls) ∨
          messages k (trace step net calls) <+: messages k' (trace step net' calls')) ∧
        ((messages k' (trace step net' calls')).length =
            (messages k (trace step net calls)).length ∨
          (¬ d <:+: ((final step net' calls').session k').recvBuffer ∧
            ¬ d <:+: ((final step net calls).session k).recvBuffer) →
          messages k' (trace step net' calls') = messages k (trace step net calls) ∧
          ((final step net' calls').session k').recvBuffer =
            ((final step net calls).session k).recvBuffer) := by
  refine ⟨hrun.conserved, fun _ _ _ => pullReports _ _ _, ?_⟩
  intro d hd hpulls
  have hreads := hrun.reads hd hpulls
  refine ⟨?_, ?_⟩
  · intro pre hpre
    rw [(hreads pre hpre).split_eq hd]
    exact List.prefix_append _ _
  intro net' k' calls' hrun' hpulls' hT
  have hend := hreads.last
  have hend' := (hrun'.reads hd hpulls').last
  rw [hT] at hend'
  have hsplit := hend.split_eq hd
  have hsplit' := hend'.split_eq hd
  refine ⟨?_, ?_⟩
  · have hpre : messages k (trace step net calls) <+:
        (split d (received k (trace step net calls))).1 := by
      rw [hsplit]
      exact List.prefix_append _ _
    have hpre' : messages k' (trace step net' calls') <+:
        (split d (received k (trace step net calls))).1 := by
      rw [hsplit']
      exact List.prefix_append _ _
    exact List.prefix_or_prefix_of_prefix hpre' hpre
  · rintro (hlen | ⟨hno', hno⟩)
    · exact hend'.unique hend hlen
    · -- nothing is left to pull in either run, so each has pulled the whole split
      rw [split_of_none (find_eq_none_iff.mpr hno)] at hsplit
      rw [split_of_none (find_eq_none_iff.mpr hno')] at hsplit'
      have heq := hsplit'.symm.trans hsplit
      simpa using heq

/-- `x`, CR LF, `y` in two packets that cut the delimiter, pulled as early as
possible, and in one packet. -/
theorem framing_two_cuts :
    let early : List Call := [.recvFromClient 4 (.data [120, 13]),
      .pullFromRecvBuffer 4 [] [13, 10], .recvFromClient 4 (.data [10, 121]),
      .pullFromRecvBuffer 4 [] [13, 10]]
    let late : List Call := [.recvFromClient 4 (.data [120, 13, 10, 121]),
      .pullFromRecvBuffer 4 [] [13, 10]]
    let net := (step Network.new client4).1
    messages 4 (trace step net early) = messages 4 (trace step net late) ∧
      ((final step net early).session 4).recvBuffer =
        ((final step net late).session 4).recvBuffer := by
  intro early late net
  have hearly : ReceiveRun net 4 early :=
    ⟨⟨_, rfl, rfl⟩, by simp [early], by decide⟩
  have hlate : ReceiveRun net 4 late :=
    ⟨⟨_, rfl, rfl⟩, by simp [late], by decide⟩
  have hd : ([13, 10] : Bytes) ≠ [] := by decide
  have htwo := ((framing hlate).2.2 [13, 10] hd (by simp [PullsWith, late])).2 net 4 early
    hearly (by simp [PullsWith, early]) (by decide)
  exact htwo.2 (.inl (by decide))

/-! ### From the kernel to the buffer -/

/-- The calls on socket `k` are receives that bring the chunks of a stream, each of 1
to `kRecvBufferSize - 1` bytes, one after the other. -/
def Arrives (k : int32) (chunks : List Bytes) (calls : List Call) : Prop :=
  naming Call.names k calls = chunks.map (fun bytes => .recvFromClient k (.data bytes)) ∧
  ∀ bytes ∈ chunks, 1 ≤ bytes.length ∧ bytes.length ≤ kRecvBufferSize - 1

/-- One chunk is appended up to its first NUL. -/
theorem client_step_recv {bytes : Bytes} (hres : s.isReservedDisconnect = false)
    (hbytes : 1 ≤ bytes.length) :
    (Client.step (some s) (.recvFromClient k (.data bytes))).1 =
      some { s with recvBuffer := s.recvBuffer ++ cstr bytes } := by
  have hend : (RecvRet.data bytes).isEnd = false := by
    rw [RecvRet.isEnd, List.isEmpty_eq_false_iff_exists_mem]
    exact List.exists_mem_of_length_pos hbytes
  set net : Network := ⟨ERROR, [], fun _ => some s⟩
  have hs : net.session k = s := rfl
  show ((net.recvFromClient k (.data bytes)).1).mSessions k = _
  rcases net.recvFromClient_cases k (.data bytes) hs with ⟨hr, -⟩ | ⟨-, he, -⟩ | ⟨-, -, heq⟩
  · exact absurd (hres.symm.trans hr) (by simp)
  · exact absurd (hend.symm.trans he) (by simp)
  · rw [heq, Network.setSession_self]
    rfl

theorem client_final_recv : ∀ {chunks : List Bytes} {s : Session},
    s.isReservedDisconnect = false → (∀ bytes ∈ chunks, 1 ≤ bytes.length) →
    final Client.step (some s)
        (chunks.map fun bytes => .recvFromClient k (.data bytes)) =
      some { s with recvBuffer := s.recvBuffer ++ (chunks.map cstr).flatten } := by
  intro chunks
  induction chunks with
  | nil =>
    intro s _ _
    simp
  | cons bytes chunks ih =>
    intro s hres hlen
    rw [List.map_cons, final, client_step_recv hres (hlen _ List.mem_cons_self)]
    have hrest := @ih { s with recvBuffer := s.recvBuffer ++ cstr bytes } hres
      fun b hb => hlen b (List.mem_cons_of_mem _ hb)
    rw [hrest]
    simp

theorem Arrives.recvBuffer {chunks : List Bytes} (h : Arrives k chunks calls)
    (hs : net.mSessions k = some s) (hres : s.isReservedDisconnect = false) :
    ((final step net calls).session k).recvBuffer =
      s.recvBuffer ++ (chunks.map cstr).flatten := by
  have hget := step_local.final_get k net calls
  rw [h.1, hs, client_final_recv hres fun b hb => (h.2 b hb).1] at hget
  rw [Network.session_of_some hget]

/-- **Everything received reaches `recvBuffer`**, exactly if the stream has no NUL
byte. -/
theorem received_eq_stream_iff {chunks : List Bytes} (hs : net.mSessions k = some s)
    (hres : s.isReservedDisconnect = false) (hchunks : Arrives k chunks calls) :
    (((final step net calls).session k).recvBuffer = s.recvBuffer ++ chunks.flatten ∧
      ∀ chunks' calls', Arrives k chunks' calls' → chunks'.flatten = chunks.flatten →
        ((final step net calls').session k).recvBuffer =
          ((final step net calls).session k).recvBuffer) ↔
    0 ∉ chunks.flatten := by
  rw [hchunks.recvBuffer hs hres]
  constructor
  · rintro ⟨hall, -⟩
    exact flatten_map_cstr_eq_iff.mp (List.append_cancel_left hall)
  · intro h0
    rw [flatten_map_cstr_eq_iff.mpr h0]
    refine ⟨rfl, ?_⟩
    intro chunks' calls' hchunks' hsame
    rw [hchunks'.recvBuffer hs hres, flatten_map_cstr_eq_iff.mpr (hsame ▸ h0), hsame]

/-- `ab` in two chunks. -/
theorem received_eq_stream_iff_client4 :
    (((final step (step Network.new client4).1
          [.recvFromClient 4 (.data [97]), .recvFromClient 4 (.data [98])]).session
          4).recvBuffer = [] ++ [[97], [98]].flatten ∧
      ∀ chunks' calls', Arrives 4 chunks' calls' →
        chunks'.flatten = ([[97], [98]] : List Bytes).flatten →
        ((final step (step Network.new client4).1 calls').session 4).recvBuffer =
          ((final step (step Network.new client4).1
            [.recvFromClient 4 (.data [97]), .recvFromClient 4 (.data [98])]).session
            4).recvBuffer) ↔
    0 ∉ ([[97], [98]] : List Bytes).flatten :=
  @received_eq_stream_iff _ 4 (Session.fresh ⟨2, 0, 0⟩ 4) _ _ (by decide) (by decide)
    ⟨by decide, by decide⟩

/-- The stream `a`, NUL, `b` in one chunk reaches the buffer as `a`. -/
theorem stream_not_received :
    ¬ ∀ (net : Network) (k : int32) (s : Session) (chunks : List Bytes) (calls : List Call),
      net.mSessions k = some s → s.isReservedDisconnect = false → Arrives k chunks calls →
      ((final step net calls).session k).recvBuffer = s.recvBuffer ++ chunks.flatten ∧
      ∀ chunks' calls', Arrives k chunks' calls' → chunks'.flatten = chunks.flatten →
        ((final step net calls').session k).recvBuffer =
          ((final step net calls).session k).recvBuffer := by
  intro h
  have hrun := h (step Network.new client4).1 4 (Session.fresh ⟨2, 0, 0⟩ 4) [[97, 0, 98]]
    [.recvFromClient 4 (.data [97, 0, 98])] (by decide) (by decide) ⟨by decide, by decide⟩
  exact absurd hrun.1 (by decide)

end Gdf
