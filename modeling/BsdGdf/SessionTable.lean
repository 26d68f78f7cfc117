/-
The session table: who has a session, what a call tells about it, and what one
client can see of another.

* `clients_independent` — what a client gets is what it gets when the calls on all
  other sockets are left out;
* `recv_reports`, `send_reports` — the results of `RecvFromClient` and
  `SendToClient` against the presence of the session.  The exit that serves a
  reserved disconnect closes the session and still reports `SUCCESS`;
* `table_sound_iff` — every key is an open descriptor and every new session starts
  empty, exactly if no call that inserts a session names a socket that has none.
  These are the client calls that bind `mSessions[socket]`, but for a `RecvFromClient`
  at the end of the stream, which erases it again; `ConnectNewClient` names the socket
  that `accept()` returns, and keeps the buffers of a session it finds.

`Tracks` ties the table to the open descriptors; `Tracks.next` is its step lemma, over
the five effects that a call can have.
-/
import BsdGdf.NetworkCalls

namespace Gdf

open Runs Ledger

variable {net : Network} {k : int32} {c : Call} {s : Session} {calls : List Call}

/-! ### Clients do not interfere -/

/-- The byte strings handed to `send()` for socket `k` in a system call. -/
def Syscall.handedTo (k : int32) : Syscall → List Bytes
  | .send fd handed _ => if fd = k then [handed] else []
  | _ => []

/-- The byte strings handed to `send()` for socket `k` so far. -/
def handedTo (k : int32) (p : List (Call × Reply)) : List Bytes :=
  p.flatMap fun io => io.2.sys.flatMap (Syscall.handedTo k)

theorem handedTo_of_names_ne (h : c.names ≠ some k) :
    (step net c).2.sys.flatMap (Syscall.handedTo k) = [] := by
  refine List.flatMap_eq_nil_iff.mpr fun call hcall => ?_
  cases call with
  | send fd handed ret =>
    have hc := (step_sys net c).2 fd handed ret hcall
    refine if_neg ?_
    rintro rfl
    exact h (by rw [hc]; rfl)
  | _ => rfl

/-- Only the calls that name a socket hand anything to `send()` for it. -/
theorem handedTo_filter (net : Network) (calls : List Call) :
    handedTo k ((io (trace step net calls)).filter fun p => decide (p.1.names = some k)) =
      handedTo k (io (trace step net calls)) := by
  induction calls generalizing net with
  | nil => rfl
  | cons c calls ih =>
    rw [io_trace_cons]
    show _ = (step net c).2.sys.flatMap (Syscall.handedTo k) ++
      handedTo k (io (trace step (step net c).1 calls))
    by_cases hk : c.names = some k
    · rw [List.filter_cons_of_pos (by simpa using hk), ← ih]
      rfl
    · rw [List.filter_cons_of_neg (by simpa using hk), ih, handedTo_of_names_ne hk]
      rfl

/-- **Clients do not interfere.**  For every run and every socket: the final session,
what the calls on the socket return, and what is handed to `send()` for it, are the
same when every other call is removed. -/
theorem clients_independent (net : Network) (calls : List Call) (k : int32) :
    (final step net calls).mSessions k =
      (final step net (naming Call.names k calls)).mSessions k ∧
    (io (trace step net calls)).filter (fun p => decide (p.1.names = some k)) =
      io (trace step net (naming Call.names k calls)) ∧
    handedTo k (io (trace step net calls)) =
      handedTo k (io (trace step net (naming Call.names k calls))) := by
  have hio := step_local.io_naming k net calls
  refine ⟨step_local.final_naming k net calls, hio, ?_⟩
  rw [← hio, handedTo_filter]

/-! ### What the result of a call tells -/

/-- `SUCCESS` means that the session is still there, `FAILURE` that it was erased and
its descriptor closed exactly once; other sessions are as they were. -/
structure Reports (net : Network) (k : int32) (r : Network × Bool × List Syscall) : Prop where
  success : r.2.1 = SUCCESS ↔ ∃ s, r.1.mSessions k = some s
  failure : r.2.1 = FAILURE ↔ r.1.mSessions k = none ∧ r.2.2.count (.close k) = 1
  others : ∀ l, l ≠ k → r.1.mSessions l = net.mSessions l

theorem Reports.of_set {sys : List Syscall} :
    Reports net k (net.setSession k s, SUCCESS, sys) where
  success := by simp
  failure := by simp
  others l hl := Network.setSession_of_ne hl

theorem Reports.of_erase {sys : List Syscall} (hclose : sys.count (.close k) = 1) :
    Reports net k (net.eraseSession k, FAILURE, sys) where
  success := by simp
  failure := by simp [hclose]
  others l hl := Network.eraseSession_of_ne hl

theorem recv_reports (net : Network) (k : int32) (recv : RecvRet) :
    Reports net k (net.recvFromClient k recv) := by
  rcases net.recvFromClient_cases k recv rfl with ⟨-, heq⟩ | ⟨-, -, heq⟩ | ⟨-, -, heq⟩ <;>
    rw [heq]
  · exact .of_set
  · exact .of_erase (by simp)
  · exact .of_set

theorem send_reports (hs : net.mSessions k = some s)
    (hserve : ¬ (s.sendBufferRemain = false ∧ s.isReservedDisconnect = true)) (send : SendRet) :
    Reports net k (net.sendToClient k send) := by
  rcases net.sendToClient_cases k send (Network.session_of_some hs) with ⟨-, -, heq⟩ |
    ⟨hr, hres, -⟩ | ⟨-, -, heq⟩ | ⟨-, -, -, heq⟩ | ⟨-, -, heq⟩
  · rw [heq]
    exact .of_set
  · exact absurd ⟨hr, hres⟩ hserve
  · rw [heq]
    exact .of_erase (by simp)
  · rw [heq]
    exact .of_set
  · rw [heq]
    exact .of_set

/-- The exit that serves a reserved disconnect. -/
theorem send_serves (hs : net.mSessions k = some s) (hr : s.sendBufferRemain = false)
    (hres : s.isReservedDisconnect = true) (send : SendRet) :
    net.sendToClient k send = (net.eraseSession k, SUCCESS, [.close k]) := by
  rcases net.sendToClient_cases k send (Network.session_of_some hs) with ⟨-, hres', -⟩ |
    ⟨-, -, heq⟩ | ⟨hr', -, -⟩ | ⟨hr', -, -, -⟩ | ⟨hr', -, -⟩
  · exact absurd (hres.symm.trans hres') (by simp)
  · exact heq
  all_goals exact absurd (hr.symm.trans hr') (by simp)

/-- **What the return values tell the caller**, on every exit: the session is there
after `SUCCESS` and gone after `FAILURE`, but for the `SendToClient` call that serves a
reserved disconnect with nothing left to send. -/
theorem result_tells_session (hs : net.mSessions k = some s) :
    (∀ recv, Reports net k (net.recvFromClient k recv)) ∧
    ∀ send,
      if s.sendBufferRemain = false ∧ s.isReservedDisconnect = true then
        (net.sendToClient k send).2.1 = SUCCESS ∧
        (net.sendToClient k send).1.mSessions k = none ∧
        (net.sendToClient k send).2.2.count (.close k) = 1 ∧
        ∀ l, l ≠ k → (net.sendToClient k send).1.mSessions l = net.mSessions l
      else Reports net k (net.sendToClient k send) := by
  refine ⟨recv_reports net k, fun send => ?_⟩
  by_cases hserve : s.sendBufferRemain = false ∧ s.isReservedDisconnect = true
  · rw [if_pos hserve, send_serves hs hserve.1 hserve.2]
    exact ⟨rfl, Network.eraseSession_self, by simp, fun l hl => Network.eraseSession_of_ne hl⟩
  · rw [if_neg hserve]
    exact send_reports hs hserve send

/-- A client that is to be sent something, and one that is about to be disconnected. -/
theorem result_tells_session_client4 :
    let tells (net : Network) (s : Session) :=
      (∀ recv, Reports net 4 (net.recvFromClient 4 recv)) ∧ ∀ send,
        if s.sendBufferRemain = false ∧ s.isReservedDisconnect = true then
          (net.sendToClient 4 send).2.1 = SUCCESS ∧
          (net.sendToClient 4 send).1.mSessions 4 = none ∧
          (net.sendToClient 4 send).2.2.count (.close 4) = 1 ∧
          ∀ l, l ≠ 4 → (net.sendToClient 4 send).1.mSessions l = net.mSessions l
        else Reports net 4 (net.sendToClient 4 send)
    tells (final step Network.new [client4, .pushToSendBuffer 4 [97, 98]])
        { Session.fresh ⟨2, 0, 0⟩ 4 with sendBuffer := [97, 98], sendBufferRemain := true } ∧
      tells (final step Network.new [client4, .reserveDisconnectClient 4])
        { Session.fresh ⟨2, 0, 0⟩ 4 with isReservedDisconnect := true } :=
  ⟨result_tells_session (by decide), result_tells_session (by decide)⟩

/-- With a reserved disconnect and nothing to send, `SendToClient` returns `SUCCESS`
and the session is gone. -/
theorem success_without_session :
    ¬ ∀ (calls : List Call) (k : int32) (s : Session),
      (final step Network.new calls).mSessions k = some s →
      (∀ recv, Reports (final step Network.new calls) k
        ((final step Network.new calls).recvFromClient k recv)) ∧
      ∀ send, Reports (final step Network.new calls) k
        ((final step Network.new calls).sendToClient k send) := by
  intro h
  have hrun := h [client4, .reserveDisconnectClient 4] 4
    { Session.fresh ⟨2, 0, 0⟩ 4 with isReservedDisconnect := true } (by decide)
  obtain ⟨s, hs⟩ := (hrun.2 (.sent 0)).success.mp (by decide)
  exact absurd hs (by
    have hgone : ((final step Network.new [client4, .reserveDisconnectClient 4]).sendToClient 4
      (.sent 0)).1.mSessions 4 = none := by decide
    simp [hgone])

/-! ### Keys are open descriptors -/

/-- The open descriptors `h` are the keys of the table and the descriptors `srv` that
are kept outside it. -/
structure Tracks (srv h : int32 → Bool) (net : Network) : Prop where
  held : ∀ k, h k = ((net.mSessions k).isSome || srv k)
  apart : ∀ k, srv k = true → net.mSessions k = none
  error : net.mSessions ERROR = none
  socket : ∀ k s, net.mSessions k = some s → s.socket = k

/-- A call that inserts only names sockets that have a session. -/
def Named (net : Network) (c : Call) : Prop :=
  c.inserts = true → ∃ s, net.mSessions c.on = some s

/-- `accept()` returns a descriptor that is not open. -/
def AcceptsClosed (h : int32 → Bool) (c : Call) : Prop :=
  c.isConnect = true → c.on ≠ ERROR → h c.on = false

instance (h : int32 → Bool) (c : Call) : Decidable (AcceptsClosed h c) :=
  inferInstanceAs (Decidable (_ → _ → _))

section Tracks

variable {srv h h' : int32 → Bool}

/-- Setting a session for an open descriptor. -/
theorem Tracks.set (ht : Tracks srv h net) (hk : k ≠ ERROR) (hsocket : s.socket = k)
    (hsrv : srv k = false) (hopen : h' k = true) (hrest : ∀ l, l ≠ k → h' l = h l) :
    Tracks srv h' (net.setSession k s) := by
  refine ⟨fun l => ?_, fun l hl => ?_, ?_, fun l s' hs' => ?_⟩
  · by_cases hlk : l = k
    · rw [hlk, hopen, Network.setSession_self]
      rfl
    · rw [hrest l hlk, Network.setSession_of_ne hlk]
      exact ht.held l
  · have hlk : l ≠ k := by
      rintro rfl
      exact absurd (hl.symm.trans hsrv) (by simp)
    rw [Network.setSession_of_ne hlk]
    exact ht.apart l hl
  · rw [Network.setSession_of_ne (Ne.symm hk)]
    exact ht.error
  · by_cases hlk : l = k
    · rw [hlk, Network.setSession_self] at hs'
      rw [← Option.some_inj.mp hs', hsocket, hlk]
    · rw [Network.setSession_of_ne hlk] at hs'
      exact ht.socket l s' hs'

/-- Erasing the session of a closed descriptor. -/
theorem Tracks.erase (ht : Tracks srv h net) (hsrv : srv k = false) (hclosed : h' k = false)
    (hrest : ∀ l, l ≠ k → h' l = h l) : Tracks srv h' (net.eraseSession k) := by
  have hgone : ∀ l, (net.eraseSession k).mSessions l = if l = k then none
      else net.mSessions l := fun l => Function.update_apply _ _ _ _
  refine ⟨fun l => ?_, fun l hl => ?_, ?_, fun l s' hs' => ?_⟩
  · by_cases hlk : l = k
    · rw [hgone, if_pos hlk, hlk, hclosed, hsrv]
      rfl
    · rw [hgone, if_neg hlk, hrest l hlk]
      exact ht.held l
  · rw [hgone, ht.apart l hl, ite_self]
  · rw [hgone, ht.error, ite_self]
  · by_cases hlk : l = k
    · rw [hgone, if_pos hlk] at hs'
      exact absurd hs' (by simp)
    · rw [hgone, if_neg hlk] at hs'
      exact ht.socket l s' hs'

/-- A call that inserts only where there is a session keeps the table and the open
descriptors together. -/
theorem Tracks.next {net' : Network} {ents : List (Entry int32)} (ht : Tracks srv h net)
    (heff : Effect net c net' ents) (hnamed : Named net c) (haccept : AcceptsClosed h c)
    (hsrv : c.isConnect = false → srv c.on = false) : Tracks srv (heldFrom h ents) net' := by
  have hout : h c.on = false → srv c.on = false := by
    intro hclosed
    have hor := (ht.held c.on).symm.trans hclosed
    exact (Bool.or_eq_false_iff.mp hor).2
  cases heff with
  | refused hconn hfd => exact ht
  | dropped hconn hfd =>
    -- opened and closed again within the call
    rw [heldFrom_opened_closed (haccept hconn hfd)]
    exact ht
  | accepted s hconn hfd hsocket =>
    exact ht.set hfd hsocket (hout (haccept hconn hfd)) (by simp) (by simp +contextual)
  | updated s hconn hsocket hin =>
    obtain ⟨s₀, hs₀⟩ : ∃ s, net.mSessions c.on = some s := by
      rcases hin with hin | hin
      · exact hin
      · exact hnamed hin
    have hne : c.on ≠ ERROR := by
      intro he
      rw [he, ht.error] at hs₀
      exact absurd hs₀ (by simp)
    rw [Network.session_of_some hs₀, ht.socket _ _ hs₀] at hsocket
    have hopen : h c.on = true := by
      rw [ht.held, hs₀]
      rfl
    exact ht.set hne hsocket (hsrv hconn) hopen fun _ _ => rfl
  | erased hconn hin =>
    have hclosed := hsrv hconn
    by_cases he : c.on = ERROR
    · rw [if_pos he]
      have hnone : h c.on = false := by
        rw [ht.held, hclosed, he, ht.error]
        rfl
      exact ht.erase hclosed hnone fun _ _ => rfl
    · rw [if_neg he]
      exact ht.erase hclosed (by simp) (by simp +contextual)

end Tracks

/-! ### Soundness of the table and isolation of successive clients -/

/-- Every key is a descriptor that `accept()` returned and that is not closed since,
and its session says so. -/
def Sound (es : List NetEvent) (net : Network) : Prop :=
  ∀ k s, net.mSessions k = some s → held (ledger es) k = true ∧ s.socket = k

/-- Every session that was set up started with empty buffers. -/
def StartEmpty (es : List NetEvent) : Prop :=
  ∀ e ∈ es, ∀ k, e.input.isConnect = true → e.output.ret = .socket k → k ≠ ERROR →
    ∃ s, e.after.mSessions k = some s ∧ s.recvBuffer = [] ∧ s.sendBuffer = []

/-- From the `ConnectNewClient` call on that sets up a client, the calls on its socket
are answered as they are on an object that never had another client. -/
def Isolated (net : Network) (calls : List Call) : Prop :=
  ∀ pre c post k, calls = pre ++ c :: post → c.isConnect = true →
    (step (final step net pre) c).2.ret = .socket k → k ≠ ERROR →
    (io (trace step (final step net pre) (c :: post))).filter
        (fun p => decide (p.1.names = some k)) =
      io (trace step Network.new (naming Call.names k (c :: post)))

theorem on_of_connect (hconn : c.isConnect = true) (hret : (step net c).2.ret = .socket k)
    (hk : k ≠ ERROR) : c.on = k := by
  obtain ⟨addr, fcntl, rfl, -⟩ := connect_succeeded hconn hret hk
  rfl

/-- The invariant of runs in which every inserting call is on a socket with a session:
the open descriptors are the keys, and no session started with anything in it. -/
structure Settled (es : List NetEvent) (net : Network) : Prop where
  tracks : Tracks (fun _ => false) (held (ledger es)) net
  start : StartEmpty es

theorem Settled.sound {es : List NetEvent} (h : Settled es net) : Sound es net := by
  intro k s hs
  refine ⟨?_, h.tracks.socket k s hs⟩
  rw [h.tracks.held, hs]
  rfl

/-- A successful `ConnectNewClient` call finds no session. -/
theorem Settled.setsUp {es : List NetEvent} (h : Settled es net)
    (haccept : AcceptsClosed (held (ledger es)) c) (hconn : c.isConnect = true)
    (hret : (step net c).2.ret = .socket k) (hk : k ≠ ERROR) : SetsUp net c k := by
  obtain rfl := on_of_connect hconn hret hk
  have hclosed := haccept hconn hk
  rw [h.tracks.held, Bool.or_false, Option.isSome_eq_false_iff,
    Option.isNone_iff_eq_none] at hclosed
  exact ⟨hconn, hret, hk, hclosed⟩

theorem Settled.next {es : List NetEvent} (h : Settled es net) (hnamed : Named net c)
    (haccept : AcceptsClosed (held (ledger es)) c) :
    Settled (es ++ [event step net c]) (step net c).1 := by
  refine ⟨?_, ?_⟩
  · rw [ledger_concat, held_append]
    exact h.tracks.next (step_effect net c) hnamed haccept fun _ => rfl
  · intro e he k hconn hret hk
    rcases List.mem_append.mp he with he | he
    · exact h.start e he k hconn hret hk
    · obtain rfl := List.mem_singleton.mp he
      obtain ⟨addr, hs⟩ := (h.setsUp haccept hconn hret hk).session
      exact ⟨_, hs, rfl, rfl⟩

/-- A call that inserts where there is no session leaves a key that is not open. -/
theorem Settled.unsound {es : List NetEvent} (h : Settled es net) (hnamed : ¬ Named net c) :
    ¬ Sound (es ++ [event step net c]) (step net c).1 := by
  intro hsound
  rw [Named, Classical.not_imp] at hnamed
  obtain ⟨hins, hno⟩ := hnamed
  -- the key that is inserted is not an open descriptor, since it was no key before
  have hnone : net.mSessions c.on = none := by
    by_contra hne
    exact hno (Option.ne_none_iff_exists'.mp hne)
  have hconn : c.isConnect = false := by
    cases c <;> simp_all [Call.inserts, Call.isConnect]
  have heff := step_effect net c
  rw [Sound, ledger_concat, held_append] at hsound
  revert heff hsound
  show (∀ k s, (step net c).1.mSessions k = some s →
    heldFrom (held (ledger es)) (entries (step net c).2.sys) k = true ∧ s.socket = k) → _
  generalize (step net c).1 = net', entries (step net c).2.sys = ents
  intro hsound heff
  cases heff with
  | updated s =>
    have hheld := (hsound c.on s Network.setSession_self).1
    rw [heldFrom_nil, h.tracks.held, hnone] at hheld
    exact absurd hheld (by simp)
  | erased hc hin =>
    rcases hin with hin | hin
    · exact hno hin
    · exact absurd (hins.symm.trans hin) (by simp)
  | refused hc => exact absurd (hconn.symm.trans hc) (by simp)
  | dropped hc => exact absurd (hconn.symm.trans hc) (by simp)
  | accepted s hc => exact absurd (hconn.symm.trans hc) (by simp)

theorem isolated_of_setsUp
    (h : ∀ pre c, pre ++ [c] <+: calls → ∀ k, c.isConnect = true →
      (step (final step net pre) c).2.ret = .socket k → k ≠ ERROR →
      SetsUp (final step net pre) c k) : Isolated net calls := by
  rintro pre c post k rfl hconn hret hk
  have hpre : pre ++ [c] <+: pre ++ c :: post := ⟨post, by simp⟩
  -- the new client starts from no session, as it does on a new object
  obtain ⟨-, -, -, hnone⟩ := h pre c hpre k hconn hret hk
  rw [step_local.io_filter k, ← step_local.io_naming k Network.new,
    step_local.io_filter k Network.new, hnone]
  rfl

/-- **Soundness of the session table and isolation of successive clients**, exactly if
every call that inserts is on a socket that has a session.  The kernel's `accept()`
returns descriptors that are not open. -/
theorem table_sound_iff (hnew : ∀ k, net.mSessions k = none)
    (haccept : Along step net (fun es _ c => AcceptsClosed (held (ledger es)) c) calls) :
    (Always step net (fun es net => Sound es net ∧ StartEmpty es) calls ∧
      Isolated net calls) ↔
    Along step net (fun _ net c => Named net c) calls := by
  have h0 : Settled [] net := by
    refine ⟨⟨fun k => ?_, fun _ h => absurd h (by simp), hnew _, fun k s hs => ?_⟩, ?_⟩
    · rw [hnew k]
      rfl
    · exact absurd (hs.symm.trans (hnew k)) (by simp)
    · intro e he
      exact absurd he (by simp)
  refine ⟨fun h => ?_, fun hnamed => ?_⟩
  · refine (always_iff_along h0 ⟨h0.sound, h0.start⟩ ?_ ?_ haccept).mp h.1
    · intro es net c hs hacc hnamed
      have hnext := hs.next hnamed hacc
      exact ⟨hnext, hnext.sound, hnext.start⟩
    · rintro es net c hs - hnamed ⟨hsound, -⟩
      exact hs.unsound hnamed hsound
  · have hsettled : Always step net Settled calls :=
      always_of_step h0 (fun es t c h hP => h.next hP.1 hP.2) (hnamed.and haccept)
    refine ⟨fun pre hpre => ⟨(hsettled pre hpre).sound, (hsettled pre hpre).start⟩, ?_⟩
    refine isolated_of_setsUp fun pre c hpre k hconn hret hk => ?_
    have hbefore := hsettled pre ((List.prefix_append _ _).trans hpre)
    exact hbefore.setsUp (haccept pre c hpre) hconn hret hk

/-- Two clients one after the other on descriptor 7. -/
theorem table_sound_iff_reused :
    (Always step Network.new (fun es net => Sound es net ∧ StartEmpty es)
        [.connectNewClient ⟨7, ⟨2, 0, 0⟩⟩ 0, .disconnectClient 7,
          .connectNewClient ⟨7, ⟨2, 0, 0⟩⟩ 0] ∧
      Isolated Network.new [.connectNewClient ⟨7, ⟨2, 0, 0⟩⟩ 0, .disconnectClient 7,
        .connectNewClient ⟨7, ⟨2, 0, 0⟩⟩ 0]) ↔
    Along step Network.new (fun _ net c => Named net c)
      [.connectNewClient ⟨7, ⟨2, 0, 0⟩⟩ 0, .disconnectClient 7,
        .connectNewClient ⟨7, ⟨2, 0, 0⟩⟩ 0] :=
  table_sound_iff (fun _ => rfl) (by decide)

/-- A late push after a disconnect reaches the next client on the same descriptor. -/
theorem secret_leaks :
    ¬ ∀ (net : Network) (calls : List Call), (∀ k, net.mSessions k = none) →
      Along step net (fun es _ c => AcceptsClosed (held (ledger es)) c) calls →
      Always step net (fun es net => Sound es net ∧ StartEmpty es) calls ∧
        Isolated net calls := by
  intro h
  have hrun := h Network.new [.connectNewClient ⟨7, ⟨2, 0, 0⟩⟩ 0, .disconnectClient 7,
    .pushToSendBuffer 7 [115, 101, 99], .connectNewClient ⟨7, ⟨2, 0, 0⟩⟩ 0] (fun _ => rfl)
    (by decide)
  obtain ⟨s, hs, -, hempty⟩ := hrun.1.last.2 _ (List.mem_cons_of_mem _ (List.mem_cons_of_mem _
    (List.mem_cons_of_mem _ List.mem_cons_self))) 7 rfl rfl (by decide)
  obtain rfl := Option.some_inj.mp hs
  exact absurd hempty (by decide)

end Gdf
