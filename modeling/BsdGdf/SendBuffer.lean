/-
The send side of a session: what `PushToSendBuffer` puts in and what `send()`
has accepted.

The abstract view of it is a `Pipe`: pushes go in at the back, accepted bytes
come out at the front.  `Sends s p` says that the four fields of the session `s`
hold the pipe `p`; it is kept by every call (`sends_step`), where the history
starts again whenever the buffer is emptied.

* `sendBuffer_integrity` — the invariant over every run: the index stays inside
  the buffer, a cleared flag means an empty buffer, and since the buffer was last
  emptied nothing was lost, repeated or reordered;
* `sent_eq_pushed_iff` — over the whole life of a session, everything pushed has
  been sent whenever the flag is down, exactly if no `SendToClient` call resets
  the buffer at a NUL byte.  The length to send is measured on a C string, so
  the reset drops that byte and what follows it.
-/
import BsdGdf.NetworkCalls

namespace Gdf

open Runs

variable {net : Network} {k : int32} {c : Call} {s : Session} {p : Pipe UInt8}
  {calls : List Call}

/-! ### What was pushed and what was sent -/

/-- The bytes a call pushes for socket `k`. -/
def pushedBy (k : int32) : Call → Bytes
  | .pushToSendBuffer socket buf => if socket = k then buf else []
  | _ => []

/-- The bytes `send()` accepted for socket `k` in a system call. -/
def Syscall.accepted (k : int32) : Syscall → Bytes
  | .send fd handed (.sent n) => if fd = k then handed.take n else []
  | _ => []

/-- The bytes `send()` accepted for socket `k` during a call. -/
def sentBy (k : int32) (r : Reply) : Bytes := r.sys.flatMap (Syscall.accepted k)

/-- Everything pushed for socket `k` so far. -/
def pushedTo (k : int32) (es : List NetEvent) : Bytes :=
  es.flatMap fun e => pushedBy k e.input

/-- Everything `send()` has accepted for socket `k` so far. -/
def sentTo (k : int32) (es : List NetEvent) : Bytes :=
  es.flatMap fun e => sentBy k e.output

theorem pushedTo_concat (es : List NetEvent) (e : NetEvent) :
    pushedTo k (es ++ [e]) = pushedTo k es ++ pushedBy k e.input := by
  simp [pushedTo]

theorem sentTo_concat (es : List NetEvent) (e : NetEvent) :
    sentTo k (es ++ [e]) = sentTo k es ++ sentBy k e.output := by
  simp [sentTo]

/-- The call emptied the send buffer of socket `k`: the session is gone, or it was
`ClearSendBuffer`, or a `SendToClient` that took the flag down. -/
def emptied (k : int32) (e : NetEvent) : Bool :=
  decide (e.input.names = some k) &&
    match e.after.mSessions k, e.input with
    | none, _ => true
    | some _, .clearSendBuffer _ => true
    | some s, .sendToClient _ _ => (e.before.session k).sendBufferRemain && !s.sendBufferRemain
    | some _, _ => false

/-- What was pushed for socket `k`, and what `send()` accepted for it, since its send
buffer was last emptied. -/
def sinceEmptied (k : int32) (es : List NetEvent) : Bytes × Bytes :=
  es.foldl (fun h e => if emptied k e then ([], [])
    else (h.1 ++ pushedBy k e.input, h.2 ++ sentBy k e.output)) ([], [])

theorem sinceEmptied_concat (es : List NetEvent) (e : NetEvent) :
    sinceEmptied k (es ++ [e]) = if emptied k e then ([], [])
      else ((sinceEmptied k es).1 ++ pushedBy k e.input,
        (sinceEmptied k es).2 ++ sentBy k e.output) := by
  simp only [sinceEmptied, List.foldl_append, List.foldl_cons, List.foldl_nil]

/-- Only `SendToClient` calls on a socket send anything to it. -/
theorem sentBy_eq_nil (h : ∀ send, c ≠ .sendToClient k send) :
    sentBy k (step net c).2 = [] := by
  refine List.flatMap_eq_nil_iff.mpr fun call hcall => ?_
  cases call with
  | send fd handed ret =>
    have hc := (step_sys net c).2 fd handed ret hcall
    have hfd : fd ≠ k := by
      rintro rfl
      exact h ret hc
    cases ret with
    | error errno => rfl
    | sent n => exact if_neg hfd
  | _ => rfl

theorem pushedBy_of_names_ne (h : c.names ≠ some k) : pushedBy k c = [] := by
  cases c with
  | pushToSendBuffer l buf =>
    refine if_neg ?_
    rintro rfl
    exact h rfl
  | _ => rfl

/-! ### A session holds a pipe -/

/-- The send buffer of `s` holds the pipe `p`. -/
structure Sends (s : Session) (p : Pipe UInt8) : Prop where
  index_le : s.sendBufferIndex ≤ s.sendBuffer.length
  idle : s.sendBufferRemain = false → s.sendBufferIndex = 0 ∧ s.sendBuffer = []
  pending : p.pending = s.unsent

namespace Sends

theorem of_empty (hb : s.sendBuffer = []) (hi : s.sendBufferIndex = 0)
    (hp : p.pending = []) : Sends s p where
  index_le := by rw [hi]; exact Nat.zero_le _
  idle _ := ⟨hi, hb⟩
  pending := by rw [hp, Session.unsent, hb, List.drop_nil]

theorem unsent_of_idle (h : Sends s p) (hr : s.sendBufferRemain = false) : p.pending = [] := by
  rw [h.pending, Session.unsent, (h.idle hr).2, List.drop_nil]

theorem congr {t : Session} (h : Sends s p) (hb : t.sendBuffer = s.sendBuffer)
    (hi : t.sendBufferIndex = s.sendBufferIndex)
    (hr : t.sendBufferRemain = s.sendBufferRemain) : Sends t p where
  index_le := by rw [hi, hb]; exact h.index_le
  idle := by rw [hi, hb, hr]; exact h.idle
  pending := by rw [h.pending, Session.unsent, Session.unsent, hi, hb]

/-- Pushing after a partial send drops the sent part and rewinds the index. -/
theorem push (h : Sends s p) (buf : Bytes) :
    Sends { s with
        sendBuffer := s.unsent ++ buf, sendBufferIndex := 0, sendBufferRemain := true }
      (p.push buf) where
  index_le := Nat.zero_le _
  idle hr := absurd hr (by simp)
  pending := by
    show p.pending ++ buf = _
    rw [h.pending]
    rfl

/-- A partial send moves the index on. -/
theorem advance (h : Sends s p) (hr : s.sendBufferRemain = true) {n : ℕ}
    (hn : n ≤ strlen s.unsent) :
    Sends { s with sendBufferIndex := s.sendBufferIndex + n } (p.take n) where
  index_le := by
    have hle := hn.trans (strlen_le _)
    have := h.index_le
    rw [Session.unsent, List.length_drop] at hle
    show s.sendBufferIndex + n ≤ s.sendBuffer.length
    omega
  idle hf := absurd (hr.symm.trans hf) (by simp)
  pending := by
    show p.pending.drop n = _
    rw [h.pending, Session.unsent, Session.unsent, List.drop_drop]

end Sends

theorem other_call (h : c.names ≠ some k) :
    (step net c).1.session k = net.session k ∧ emptied k (event step net c) = false ∧
      pushedBy k c = [] ∧ sentBy k (step net c).2 = [] := by
  refine ⟨?_, ?_, pushedBy_of_names_ne h, sentBy_eq_nil ?_⟩
  · rw [Network.session, step_frame net c h]
    rfl
  · show (decide (c.names = some k) && _) = false
    rw [decide_eq_false h, Bool.false_and]
  · rintro send rfl
    exact h rfl

theorem emptied_of_erase (hn : c.names = some k)
    (heq : (step net c).1 = net.eraseSession k) : emptied k (event step net c) = true := by
  have hin : (event step net c).input.names = some k := hn
  have hafter : (event step net c).after.mSessions k = none := by
    show (step net c).1.mSessions k = none
    rw [heq, Network.eraseSession_self]
  simp only [emptied, hin, hafter, decide_true, Bool.true_and]

theorem emptied_of_set (hn : c.names = some k) (heq : (step net c).1 = net.setSession k s) :
    emptied k (event step net c) = match c with
      | .clearSendBuffer _ => true
      | .sendToClient _ _ => (net.session k).sendBufferRemain && !s.sendBufferRemain
      | _ => false := by
  have hin : (event step net c).input.names = some k := hn
  have hafter : (event step net c).after.mSessions k = some s := by
    show (step net c).1.mSessions k = some s
    rw [heq, Network.setSession_self]
  simp only [emptied, hin, hafter, decide_true, Bool.true_and]
  cases c <;> rfl

/-- After the call the session holds a pipe, with the history that the call
leaves. -/
def SendsAfter (net : Network) (c : Call) (k : int32) (p : Pipe UInt8) : Prop :=
  ∃ q : Pipe UInt8, Sends ((step net c).1.session k) q ∧
    (q.pushed, q.taken) = if emptied k (event step net c) then ([], [])
      else (p.pushed ++ pushedBy k c, p.taken ++ sentBy k (step net c).2)

namespace SendsAfter

theorem of_erase (hn : c.names = some k) (heq : (step net c).1 = net.eraseSession k) :
    SendsAfter net c k p := by
  refine ⟨Pipe.empty, ?_, by rw [if_pos (emptied_of_erase hn heq)]; rfl⟩
  rw [heq, Network.session_eraseSession]
  exact Sends.of_empty rfl rfl rfl

theorem of_reset (heq : (step net c).1 = net.setSession k s)
    (he : emptied k (event step net c) = true) (hb : s.sendBuffer = [])
    (hi : s.sendBufferIndex = 0) : SendsAfter net c k p := by
  refine ⟨Pipe.empty, ?_, by rw [if_pos he]; rfl⟩
  rw [heq, Network.session_setSession]
  exact Sends.of_empty hb hi rfl

theorem of_set {q : Pipe UInt8} (heq : (step net c).1 = net.setSession k s)
    (he : emptied k (event step net c) = false) (hq : Sends s q)
    (hpush : q.pushed = p.pushed ++ pushedBy k c)
    (hsent : q.taken = p.taken ++ sentBy k (step net c).2) : SendsAfter net c k p := by
  refine ⟨q, ?_, by rw [he, hpush, hsent]; rfl⟩
  rwa [heq, Network.session_setSession]

/-- A call that leaves the send fields alone, pushes nothing and sends nothing. -/
theorem of_same (hs : Sends (net.session k) p) (hn : c.names = some k)
    (heq : (step net c).1 = net.setSession k s)
    (hc : ∀ send, c ≠ .sendToClient k send) (hc' : c ≠ .clearSendBuffer k)
    (hp : pushedBy k c = []) (hb : s.sendBuffer = (net.session k).sendBuffer)
    (hi : s.sendBufferIndex = (net.session k).sendBufferIndex)
    (hr : s.sendBufferRemain = (net.session k).sendBufferRemain) :
    SendsAfter net c k p := by
  obtain ⟨hon, -⟩ := Call.names_eq_some_iff.mp hn
  refine of_set heq ?_ (hs.congr hb hi hr) (by simp [hp]) (by simp [sentBy_eq_nil hc])
  rw [emptied_of_set hn heq]
  cases c with
  | clearSendBuffer l => exact absurd (congrArg Call.clearSendBuffer hon) hc'
  | sendToClient l send => exact absurd (congrArg (Call.sendToClient · send) hon) (hc send)
  | _ => rfl

/-- `SendToClient`, whatever `send()` answers. -/
theorem sendToClient (hs : Sends (net.session k) p) {es : List NetEvent} {send : SendRet}
    (hok : KernelOk es net (.sendToClient k send)) :
    SendsAfter net (.sendToClient k send) k p := by
  have hn : (Call.sendToClient k send).names = some k := rfl
  rcases sendToClient_ok_cases rfl hok with ⟨hr, -, heq⟩ | ⟨-, -, heq⟩ | ⟨errno, -, -, heq⟩ |
    ⟨n, rfl, hr, hlt, heq⟩ | ⟨rfl, hr, heq⟩
  · -- nothing to send
    have hstep : (step net (.sendToClient k send)).1 = net.setSession k (net.session k) := by
      simp only [step, heq]
    refine of_set hstep ?_ hs (by simp [pushedBy]) (by simp [step, heq, sentBy])
    rw [emptied_of_set hn hstep]
    simp [hr]
  · exact of_erase hn (by simp only [step, heq])
  · exact of_erase hn (by simp only [step, heq])
  · -- a partial send
    have hstep := congrArg Prod.fst heq
    refine of_set hstep ?_ (hs.advance hr hlt.le) (by simp [pushedBy, Pipe.take]) ?_
    · rw [emptied_of_set hn hstep]
      simp [hr]
    · show p.taken ++ p.pending.take n = _
      rw [hs.pending, take_eq_take_cstr hlt.le]
      simp [step, heq, sentBy, Syscall.accepted]
  · -- the buffer is reset
    have hstep := congrArg Prod.fst heq
    refine of_reset hstep ?_ rfl rfl
    rw [emptied_of_set hn hstep]
    simp [hr]

end SendsAfter

/-- **Every call keeps the pipe**, starting it again when it empties the buffer. -/
theorem sends_step (hs : Sends (net.session k) p) {es : List NetEvent}
    (hok : KernelOk es net c) (hc : c.isConnect = true → c.on ≠ k) :
    SendsAfter net c k p := by
  by_cases hn : c.names = some k
  case neg =>
    obtain ⟨h1, h2, h3, h4⟩ := other_call hn
    exact ⟨p, by rwa [h1], by simp [h2, h3, h4]⟩
  obtain ⟨hon, -⟩ := Call.names_eq_some_iff.mp hn
  cases c with
  | connectNewClient accept fcntl => exact absurd hon (hc rfl)
  | disconnectClient l =>
    obtain rfl : l = k := hon
    exact .of_erase hn rfl
  | recvFromClient l recv =>
    obtain rfl : l = k := hon
    rcases net.recvFromClient_cases l recv rfl with ⟨-, heq⟩ | ⟨-, -, heq⟩ | ⟨-, -, heq⟩
    · exact .of_same hs hn (congrArg Prod.fst heq) (by simp) (by simp) rfl rfl rfl rfl
    · exact .of_erase hn (congrArg Prod.fst heq)
    · exact .of_same hs hn (congrArg Prod.fst heq) (by simp) (by simp) rfl rfl rfl rfl
  | sendToClient l send =>
    obtain rfl : l = k := hon
    exact .sendToClient hs hok
  | pushToSendBuffer l buf =>
    obtain rfl : l = k := hon
    refine .of_set rfl (emptied_of_set hn rfl) (hs.push buf) ?_ ?_
    · simp [Pipe.push, pushedBy]
    · simp [Pipe.push, step, sentBy]
  | pullFromRecvBuffer l buf d =>
    obtain rfl : l = k := hon
    rcases net.pullFromRecvBuffer_cases l buf d rfl with ⟨-, -, heq⟩ | ⟨-, -, heq⟩ |
      ⟨-, -, heq⟩ | ⟨p, -, -, heq⟩ <;>
      exact .of_same hs hn (congrArg Prod.fst heq) (by simp) (by simp) rfl rfl rfl rfl
  | reserveDisconnectClient l =>
    obtain rfl : l = k := hon
    exact .of_same hs hn rfl (by simp) (by simp) rfl rfl rfl rfl
  | clearRecvBuffer l =>
    obtain rfl : l = k := hon
    exact .of_same hs hn rfl (by simp) (by simp) rfl rfl rfl rfl
  | clearSendBuffer l =>
    obtain rfl : l = k := hon
    exact .of_reset rfl (emptied_of_set hn rfl) rfl rfl

/-! ### Over a run -/

theorem SetsUp.sends {conn : Call} (h : SetsUp net conn k) :
    Sends ((step net conn).1.session k) Pipe.empty := by
  obtain ⟨addr, hs⟩ := h.session
  rw [Network.session_of_some hs]
  exact Sends.of_empty rfl rfl rfl

/-- What `SendToClient` hands to `send()`. -/
theorem handed_eq {handed : Bytes} {ret : SendRet}
    (h : Syscall.send k handed ret ∈ (step net c).2.sys) :
    handed = cstr (net.session k).unsent := by
  obtain rfl := (step_sys net c).2 k handed ret h
  rcases net.sendToClient_cases k ret rfl with ⟨-, -, heq⟩ | ⟨-, -, heq⟩ | ⟨-, -, heq⟩ |
    ⟨-, -, -, heq⟩ | ⟨-, -, heq⟩ <;> simp [step, heq] at h <;> exact h

/-- **Send-buffer integrity.**  Along every run after the session was set up, the
index stays inside the buffer, a cleared flag means an empty buffer, what was
pushed since the buffer was last emptied is what `send()` has accepted followed by
what is unsent, and `send()` is never handed more than that. -/
theorem sendBuffer_integrity {conn : Call} (hnew : SetsUp net conn k)
    (hcalls : ∀ c ∈ calls, c.isConnect = true → c.on ≠ k)
    (hkernel : Along step (step net conn).1 KernelOk calls) :
    Always step (step net conn).1 (fun es net => ∀ s, net.mSessions k = some s →
      s.sendBufferIndex ≤ s.sendBuffer.length ∧
      (s.sendBufferRemain = false → s.sendBufferIndex = 0 ∧ s.sendBuffer = []) ∧
      (sinceEmptied k es).1 =
        (sinceEmptied k es).2 ++ s.sendBuffer.drop s.sendBufferIndex) calls ∧
    Along step (step net conn).1 (fun _ net c => ∀ s, net.mSessions k = some s →
      ∀ handed ret, Syscall.send k handed ret ∈ (step net c).2.sys →
        handed.length ≤ s.sendBuffer.length - s.sendBufferIndex) calls := by
  constructor
  · have hinv : Always step (step net conn).1 (fun es net => ∃ p : Pipe UInt8,
        Sends (net.session k) p ∧ (p.pushed, p.taken) = sinceEmptied k es) calls := by
      refine always_of_step ⟨Pipe.empty, hnew.sends, rfl⟩ ?_
        (hkernel.and (Along.of_forall fun c hc _ _ => hcalls c hc))
      rintro es net c ⟨p, hs, hp⟩ ⟨hok, hc⟩
      obtain ⟨q, hq, hhist⟩ := sends_step hs hok hc
      refine ⟨q, hq, ?_⟩
      rw [sinceEmptied_concat, hhist, ← hp]
      rfl
    intro pre hpre s hs
    obtain ⟨p, hp, hhist⟩ := hinv pre hpre
    rw [Network.session_of_some hs] at hp
    refine ⟨hp.index_le, hp.idle, ?_⟩
    rw [← hhist]
    show p.pushed = p.taken ++ s.unsent
    rw [← hp.pending, p.conserve]
  · intro pre c _ s hs handed ret hsend
    rw [handed_eq hsend, Network.session_of_some hs, length_cstr, ← List.length_drop]
    exact strlen_le _

/-- A partial send of a string with a NUL, and a push after it. -/
theorem sendBuffer_integrity_client4 :
    Always step (step Network.new client4).1 (fun es net => ∀ s, net.mSessions 4 = some s →
      s.sendBufferIndex ≤ s.sendBuffer.length ∧
      (s.sendBufferRemain = false → s.sendBufferIndex = 0 ∧ s.sendBuffer = []) ∧
      (sinceEmptied 4 es).1 =
        (sinceEmptied 4 es).2 ++ s.sendBuffer.drop s.sendBufferIndex)
      [.pushToSendBuffer 4 [97, 98, 0], .sendToClient 4 (.sent 1),
        .pushToSendBuffer 4 [99]] ∧
    Along step (step Network.new client4).1 (fun _ net c => ∀ s, net.mSessions 4 = some s →
      ∀ handed ret, Syscall.send 4 handed ret ∈ (step net c).2.sys →
        handed.length ≤ s.sendBuffer.length - s.sendBufferIndex)
      [.pushToSendBuffer 4 [97, 98, 0], .sendToClient 4 (.sent 1),
        .pushToSendBuffer 4 [99]] :=
  sendBuffer_integrity (by decide) (by decide) (by decide)

/-- `SendToClient` resets the buffer at a NUL byte: `send()` accepts everything
before a NUL that stands in the unsent bytes. -/
def ResetsAtNul (k : int32) (net : Network) (c : Call) : Prop :=
  c = .sendToClient k (.sent (strlen (net.session k).unsent)) ∧
    (net.session k).sendBufferRemain = true ∧ 0 ∈ (net.session k).unsent

/-- The session is there and not reserved, and its buffer holds the pipe of
everything pushed and sent so far. -/
def Open (k : int32) (es : List NetEvent) (net : Network) : Prop :=
  ∃ p : Pipe UInt8, net.mSessions k = some (net.session k) ∧
    (net.session k).isReservedDisconnect = false ∧ Sends (net.session k) p ∧
    p.pushed = pushedTo k es ∧ p.taken = sentTo k es

/-- After a call that set the session to `s`, with the pipe `q`. -/
theorem Open.of_set {es : List NetEvent} {q : Pipe UInt8}
    (heq : (step net c).1 = net.setSession k s) (hres : s.isReservedDisconnect = false)
    (hq : Sends s q) (hpush : q.pushed = pushedTo k es ++ pushedBy k c)
    (hsent : q.taken = sentTo k es ++ sentBy k (step net c).2) :
    Open k (es ++ [event step net c]) (step net c).1 := by
  refine ⟨q, ?_, ?_, ?_, ?_, ?_⟩
  · rw [heq, Network.session_setSession, Network.setSession_self]
  · rw [heq, Network.session_setSession, hres]
  · rwa [heq, Network.session_setSession]
  · rw [pushedTo_concat]
    exact hpush
  · rw [sentTo_concat]
    exact hsent

/-- With the flag down and the history kept, everything has been sent. -/
theorem Open.sent_eq_pushed {es : List NetEvent} (h : Open k es net)
    (hs : net.mSessions k = some s) (hr : s.sendBufferRemain = false) :
    sentTo k es = pushedTo k es := by
  obtain ⟨p, -, -, hp, hpush, hsent⟩ := h
  rw [Network.session_of_some hs] at hp
  rw [← hpush, ← hsent]
  exact p.taken_eq_pushed_iff.mpr (hp.unsent_of_idle hr)

/-- A push, or a successful send that does not reset the buffer at a NUL, keeps the
history of the session. -/
theorem Open.keep {es : List NetEvent} (h : Open k es net) (hok : KernelOk es net c)
    (hshape : (∃ buf, c = .pushToSendBuffer k buf) ∨ ∃ n, c = .sendToClient k (.sent n))
    (hnul : ¬ ResetsAtNul k net c) : Open k (es ++ [event step net c]) (step net c).1 := by
  obtain ⟨p, hs, hres, hp, hpush, hsent⟩ := h
  rcases hshape with ⟨buf, rfl⟩ | ⟨n, rfl⟩
  · refine .of_set rfl hres (hp.push buf) ?_ ?_
    · simp [Pipe.push, pushedBy, hpush]
    · simp [Pipe.push, step, sentBy, hsent]
  · rcases sendToClient_ok_cases rfl hok with ⟨-, -, heq⟩ | ⟨-, hres', -⟩ | ⟨errno, herr, -, -⟩ |
      ⟨m, hm, hr, hlt, heq⟩ | ⟨hm, hr, heq⟩
    · refine .of_set (congrArg Prod.fst heq) hres hp ?_ ?_
      · simp [pushedBy, hpush]
      · simp [step, heq, sentBy, hsent]
    · exact absurd (hres.symm.trans hres') (by simp)
    · exact absurd herr (by simp)
    · obtain rfl : n = m := by simpa using hm
      refine .of_set (congrArg Prod.fst heq) hres (hp.advance hr hlt.le) ?_ ?_
      · simp [Pipe.take, pushedBy, hpush]
      · show p.taken ++ p.pending.take n = _
        rw [hp.pending, take_eq_take_cstr hlt.le, hsent]
        simp [step, heq, sentBy, Syscall.accepted]
    · -- everything before the end was accepted, and there is no NUL: the pipe is empty
      obtain rfl : n = strlen (net.session k).unsent := by simpa using hm
      have hclean : cstr (net.session k).unsent = (net.session k).unsent :=
        cstr_eq_self_iff.mpr fun h0 => hnul ⟨rfl, hr, h0⟩
      have hdrained : (p.take (strlen (net.session k).unsent)).pending = [] := by
        show p.pending.drop _ = []
        rw [hp.pending]
        exact List.drop_eq_nil_of_le (by rw [← length_cstr, hclean])
      refine .of_set (congrArg Prod.fst heq) hres (Sends.of_empty rfl rfl hdrained) ?_ ?_
      · simp [Pipe.take, pushedBy, hpush]
      · show p.taken ++ p.pending.take _ = _
        rw [hp.pending, take_strlen, hsent]
        simp [step, heq, sentBy, Syscall.accepted, length_cstr]

/-- A reset at a NUL leaves the flag down with bytes that were never sent. -/
theorem Open.lost {es : List NetEvent} (h : Open k es net) (hok : KernelOk es net c)
    (hnul : ResetsAtNul k net c) :
    ∃ s, (step net c).1.mSessions k = some s ∧ s.sendBufferRemain = false ∧
      sentTo k (es ++ [event step net c]) ≠ pushedTo k (es ++ [event step net c]) := by
  obtain ⟨p, hs, hres, hp, hpush, hsent⟩ := h
  obtain ⟨rfl, hr, h0⟩ := hnul
  rcases sendToClient_ok_cases rfl hok with ⟨hr', -, -⟩ | ⟨hr', -, -⟩ | ⟨errno, herr, -, -⟩ |
    ⟨m, hm, -, hlt, -⟩ | ⟨-, -, heq⟩
  · exact absurd (hr.symm.trans hr') (by simp)
  · exact absurd (hr.symm.trans hr') (by simp)
  · exact absurd herr (by simp)
  · obtain rfl : strlen (net.session k).unsent = m := by simpa using hm
    exact absurd hlt (lt_irrefl _)
  · have hstep : (step net (.sendToClient k (.sent (strlen (net.session k).unsent)))).1 =
        net.setSession k _ := congrArg Prod.fst heq
    refine ⟨_, by rw [hstep, Network.setSession_self], rfl, ?_⟩
    rw [pushedTo_concat, sentTo_concat]
    have hby : sentBy k (step net (.sendToClient k (.sent (strlen (net.session k).unsent)))).2 =
        cstr (net.session k).unsent := by
      simp [step, heq, sentBy, Syscall.accepted, length_cstr]
    show sentTo k es ++ sentBy k (step net _).2 ≠ pushedTo k es ++ []
    rw [hby, List.append_nil, ← hsent, ← hpush, ← p.conserve, hp.pending]
    intro heq
    exact cstr_eq_self_iff.mp (List.append_cancel_left heq) h0

/-- **No pushed byte is lost**, exactly if the buffer is never reset at a NUL: along a
run of pushes and successful sends on a new session, everything pushed has been
sent whenever the flag is down iff no call resets the buffer at a NUL byte. -/
theorem sent_eq_pushed_iff {conn : Call} (hnew : SetsUp net conn k)
    (hcalls : ∀ c ∈ calls, (∃ buf, c = .pushToSendBuffer k buf) ∨
      ∃ n, c = .sendToClient k (.sent n))
    (hkernel : Along step (step net conn).1 KernelOk calls) :
    Always step (step net conn).1 (fun es net => ∀ s, net.mSessions k = some s →
      s.sendBufferRemain = false → sentTo k es = pushedTo k es) calls ↔
    Along step (step net conn).1 (fun _ net c => ¬ ResetsAtNul k net c) calls := by
  have h0 : Open k [] (step net conn).1 := by
    obtain ⟨addr, hs⟩ := hnew.session
    have hses := Network.session_of_some hs
    exact ⟨Pipe.empty, by rw [hs, hses], by rw [hses]; rfl, hnew.sends, rfl, rfl⟩
  refine always_iff_along h0 (fun _ _ _ => rfl) ?_ ?_
    (hkernel.and (Along.of_forall fun c hc _ _ => hcalls c hc))
  · rintro es net c hopen ⟨hok, hshape⟩ hnul
    have hnext := hopen.keep hok hshape hnul
    exact ⟨hnext, fun s hs hr => hnext.sent_eq_pushed hs hr⟩
  · rintro es net c hopen ⟨hok, -⟩ hnul hgood
    obtain ⟨s, hs, hr, hne⟩ := hopen.lost hok (not_not.mp hnul)
    exact hne (hgood s hs hr)

/-- One push, sent in two pieces. -/
theorem sent_eq_pushed_iff_client4 :
    Always step (step Network.new client4).1 (fun es net => ∀ s, net.mSessions 4 = some s →
      s.sendBufferRemain = false → sentTo 4 es = pushedTo 4 es)
      [.pushToSendBuffer 4 [97, 98], .sendToClient 4 (.sent 1), .sendToClient 4 (.sent 1)] ↔
    Along step (step Network.new client4).1 (fun _ net c => ¬ ResetsAtNul 4 net c)
      [.pushToSendBuffer 4 [97, 98], .sendToClient 4 (.sent 1), .sendToClient 4 (.sent 1)] :=
  sent_eq_pushed_iff (by decide) (by simp) (by decide)

/-- `a`, NUL, `b` is pushed, `send()` accepts the one byte it is handed, and the flag
is down: `NUL b` is never sent. -/
theorem pushed_not_sent :
    ¬ ∀ (net : Network) (conn : Call) (k : int32) (calls : List Call), SetsUp net conn k →
      (∀ c ∈ calls, (∃ buf, c = .pushToSendBuffer k buf) ∨ ∃ n, c = .sendToClient k (.sent n)) →
      Along step (step net conn).1 KernelOk calls →
      Always step (step net conn).1 (fun es net => ∀ s, net.mSessions k = some s →
        s.sendBufferRemain = false → sentTo k es = pushedTo k es) calls := by
  intro h
  have hrun := h Network.new client4 4
    [.pushToSendBuffer 4 [97, 0, 98], .sendToClient 4 (.sent 1)] (by decide) (by simp)
    (by decide)
  exact absurd (hrun.last _ rfl rfl) (by decide)

end Gdf
