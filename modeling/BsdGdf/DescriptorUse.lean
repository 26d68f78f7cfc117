/-
What a `Network` object does with a descriptor while it is open.

`UsesOpen h sys` follows the system calls of a method one by one: each is on a descriptor
that is open at its time, and `recv()` and `send()` are on a client, never on a server
socket.  `no_use_after_close` says it of every call up to the destructor, and when the
`close()` of the destructor is on an open descriptor too.  The setting up of the server
socket by `Init` is among the calls; the server socket that `accept()` is called on is not.
-/
import BsdGdf.Lifetime

namespace Gdf

open Runs Ledger

/-- The descriptor a system call is on; `socket()` and `accept()` give a new one. -/
def Syscall.uses : Syscall → Option int32
  | .socket _ => none
  | .accept _ => none
  | .fcntl fd _ => some fd
  | .recv fd _ => some fd
  | .send fd _ _ => some fd
  | .close fd => some fd

/-- It reads from a descriptor, or writes to it. -/
def Syscall.transfers : Syscall → Bool
  | .recv _ _ => true
  | .send _ _ _ => true
  | _ => false

/-- Every system call is on a descriptor that is open at its time, and what transfers
bytes is on none of the server sockets `srv`. -/
def UsesOpen (srv : int32 → Bool) : (int32 → Bool) → List Syscall → Prop
  | _, [] => True
  | h, call :: sys =>
    (∀ fd, call.uses = some fd → h fd = true ∧ (call.transfers = true → srv fd = false)) ∧
      UsesOpen srv (heldFrom h (entries [call])) sys

variable {net : Network} {srv h : int32 → Bool} {k : int32} {sys : List Syscall}

theorem usesOpen_nil : UsesOpen srv h [] := trivial

theorem usesOpen_opened {call : Syscall} (huses : call.uses = none)
    (hentry : call.entry = some (.opened k)) (hrest : UsesOpen srv (post h (.opened k)) sys) :
    UsesOpen srv h (call :: sys) := by
  refine ⟨fun fd hfd => ?_, ?_⟩
  · rw [huses] at hfd
    exact absurd hfd (by simp)
  · have hentries : entries [call] = [.opened k] := by simp [entries, hentry]
    rw [hentries]
    exact hrest

theorem usesOpen_kept {call : Syscall} (huses : call.uses = some k) (hopen : h k = true)
    (hsrv : call.transfers = true → srv k = false) (hentry : call.entry = none)
    (hrest : UsesOpen srv h sys) : UsesOpen srv h (call :: sys) := by
  refine ⟨fun fd hfd => ?_, ?_⟩
  · obtain rfl := Option.some_inj.mp (huses.symm.trans hfd)
    exact ⟨hopen, hsrv⟩
  · have hentries : entries [call] = [] := by simp [entries, hentry]
    rw [hentries]
    exact hrest

theorem usesOpen_close (hopen : h k = true) : UsesOpen srv h [.close k] := by
  refine ⟨fun fd hfd => ?_, trivial⟩
  obtain rfl := Option.some_inj.mp hfd
  exact ⟨hopen, fun htransfers => absurd htransfers (by simp [Syscall.transfers])⟩

theorem usesOpen_failed {call : Syscall} (huses : call.uses = none) :
    UsesOpen srv h [call] := by
  refine ⟨fun fd hfd => ?_, trivial⟩
  rw [huses] at hfd
  exact absurd hfd (by simp)

theorem Tracks.client (ht : Tracks srv h net) (hs : ∃ s, net.mSessions k = some s) :
    h k = true ∧ srv k = false := by
  obtain ⟨s, hs⟩ := hs
  refine ⟨by rw [ht.held, hs]; rfl, ?_⟩
  by_contra hsrv
  rw [ht.apart k (by simpa using hsrv)] at hs
  exact absurd hs (by simp)

theorem usesOpen_init (ret : int32) (setup : SetupRet) :
    UsesOpen srv h (net.init ret setup).2.2 := by
  obtain ⟨-, -, hcases⟩ := init_sys net ret setup
  rcases hcases with ⟨-, heq⟩ | ⟨hret, sys, hsys, heq⟩ <;> rw [heq]
  · exact usesOpen_failed rfl
  refine usesOpen_opened rfl (if_neg hret) ?_
  have hclose : UsesOpen srv (post h (.opened ret)) (if setup.Ok then [] else [.close ret]) := by
    split_ifs
    · exact usesOpen_nil
    · exact usesOpen_close (by simp)
  rcases hsys with rfl | rfl
  · exact hclose
  · exact usesOpen_kept rfl (by simp)
      (fun htransfers => absurd htransfers (by simp [Syscall.transfers])) rfl hclose

theorem usesOpen_connect (accept : AcceptRet) (fcntl : int32) :
    UsesOpen srv h (step net (.connectNewClient accept fcntl)).2.sys := by
  have hentry : accept.fd ≠ ERROR →
      (Syscall.accept accept.fd).entry = some (.opened accept.fd) := fun hfd => if_neg hfd
  rcases net.connectNewClient_cases accept fcntl rfl with
    ⟨-, heq⟩ | ⟨hfd, -, heq⟩ | ⟨hfd, -, heq⟩ <;> simp only [step, heq]
  · exact usesOpen_failed rfl
  · refine usesOpen_opened rfl (hentry hfd) (usesOpen_kept rfl (by simp) ?_ rfl ?_)
    · exact fun htransfers => absurd htransfers (by simp [Syscall.transfers])
    · exact usesOpen_close (by simp)
  · refine usesOpen_opened rfl (hentry hfd) (usesOpen_kept rfl (by simp) ?_ rfl trivial)
    exact fun htransfers => absurd htransfers (by simp [Syscall.transfers])

/-- **One call** uses only what is open. -/
theorem usesOpen_live {a : Act} (ht : Tracks srv h net) (hon : OnSession net a) :
    UsesOpen srv h (live net a).2.sys := by
  cases a with
  | init ret setup => exact usesOpen_init ret setup
  | call c =>
    show UsesOpen srv h (step net c).2.sys
    cases c with
    | connectNewClient accept fcntl => exact usesOpen_connect accept fcntl
    | disconnectClient k => exact usesOpen_close (ht.client (hon _ rfl rfl)).1
    | recvFromClient k recv =>
      obtain ⟨hopen, hsrv⟩ := ht.client (hon _ rfl rfl)
      rcases net.recvFromClient_cases k recv rfl with ⟨-, heq⟩ | ⟨-, -, heq⟩ | ⟨-, -, heq⟩ <;>
        simp only [step, heq]
      · exact usesOpen_nil
      · exact usesOpen_kept rfl hopen (fun _ => hsrv) rfl (usesOpen_close hopen)
      · exact usesOpen_kept rfl hopen (fun _ => hsrv) rfl usesOpen_nil
    | sendToClient k send =>
      obtain ⟨hopen, hsrv⟩ := ht.client (hon _ rfl rfl)
      rcases net.sendToClient_cases k send rfl with ⟨-, -, heq⟩ | ⟨-, -, heq⟩ | ⟨-, -, heq⟩ |
        ⟨-, -, -, heq⟩ | ⟨-, -, heq⟩ <;> simp only [step, heq]
      · exact usesOpen_nil
      · exact usesOpen_close hopen
      · exact usesOpen_kept rfl hopen (fun _ => hsrv) rfl (usesOpen_close hopen)
      · exact usesOpen_kept rfl hopen (fun _ => hsrv) rfl usesOpen_nil
      · exact usesOpen_kept rfl hopen (fun _ => hsrv) rfl usesOpen_nil
    | _ => exact usesOpen_nil

/-- The server sockets set up so far. -/
def servedIn (es : List (Event Network Act Reply)) (k : int32) : Bool :=
  decide (k ∈ served (es.map Event.input))

/-- The `close()` of the destructor is on an open descriptor if a server socket was set up
on its number, or a client has it. -/
theorem usesOpen_destroy_iff (ht : Tracks srv h net) :
    UsesOpen srv h net.destroy.2 ↔
      (∃ s, net.mSessions net.mServerSocket = some s) ∨ srv net.mServerSocket = true := by
  have hheld : h net.mServerSocket = true ↔
      (∃ s, net.mSessions net.mServerSocket = some s) ∨ srv net.mServerSocket = true := by
    rw [ht.held, Bool.or_eq_true, Option.isSome_iff_exists]
  rw [← hheld]
  constructor
  · rintro ⟨huses, -⟩
    exact (huses _ rfl).1
  · exact usesOpen_close

theorem usesOpen_run (acts : List Act) :
    Along live Network.new (fun _ net a => OnSession net a) acts →
    Fresh (fun _ => false) (ledger (trace live Network.new acts)) →
    Along live Network.new
      (fun es net a => UsesOpen (servedIn es) (held (ledger es)) (live net a).2.sys) acts := by
  induction acts using List.reverseRecOn with
  | nil => exact fun _ _ => along_nil
  | append_singleton acts a ih =>
    intro hon hfresh
    obtain ⟨hon, hlast⟩ := (along_concat acts a).mp hon
    rw [trace_concat, ledger_concat, fresh_append] at hfresh
    obtain ⟨ht, -⟩ := alive acts hon hfresh.1
    refine (along_concat acts a).mpr ⟨ih hon hfresh.1, ?_⟩
    have hinputs : (trace live Network.new acts).map Event.input = acts := by
      have hio : (io (trace live Network.new acts)).map Prod.fst = acts := inputs_trace _ _
      rwa [io, List.map_map] at hio
    have hserved : servedIn (trace live Network.new acts) = fun k => decide (k ∈ served acts) := by
      funext k
      rw [servedIn, hinputs]
    rw [hserved]
    exact usesOpen_live ht hlast

/-- **Nothing is used after it was closed**: up to the destructor, with any calls and any
answers of the kernel, every `fcntl()`, `recv()`, `send()` and `close()` is on a descriptor
that is open then, and bytes are transferred with clients only.  The kernel hands out
descriptors that are not open, and the client methods are called on sockets that have a
session.  The destructor closes an open descriptor exactly if a server socket was set up on
the number in `mServerSocket`, or a client has it. -/
theorem no_use_after_close {acts : List Act}
    (hon : Along live Network.new (fun _ net a => OnSession net a) acts)
    (hfresh : Fresh (fun _ => false) (ledger (trace live Network.new acts))) :
    let net := final live Network.new acts
    let h := held (ledger (trace live Network.new acts))
    Along live Network.new
        (fun es net a => UsesOpen (servedIn es) (held (ledger es)) (live net a).2.sys) acts ∧
      (UsesOpen (fun k => decide (k ∈ served acts)) h net.destroy.2 ↔
        (∃ s, net.mSessions net.mServerSocket = some s) ∨ net.mServerSocket ∈ served acts) := by
  refine ⟨usesOpen_run acts hon hfresh, ?_⟩
  rw [usesOpen_destroy_iff (alive acts hon hfresh).1, decide_eq_true_iff]

/-- A client that is sent something, and disconnected when it fails. -/
theorem no_use_after_close_failed :
    let acts : List Act := [.init 3 ⟨0, 0, 0, 0, 0, some [49], 0, 0⟩,
      .call (.connectNewClient ⟨4, ⟨2, 0, 0⟩⟩ 0), .call (.pushToSendBuffer 4 [72]),
      .call (.sendToClient 4 (.error .EINTR))]
    let net := final live Network.new acts
    let h := held (ledger (trace live Network.new acts))
    Along live Network.new
        (fun es net a => UsesOpen (servedIn es) (held (ledger es)) (live net a).2.sys) acts ∧
      (UsesOpen (fun k => decide (k ∈ served acts)) h net.destroy.2 ↔
        (∃ s, net.mSessions net.mServerSocket = some s) ∨ net.mServerSocket ∈ served acts) := by
  refine no_use_after_close ?_ ?_
  · refine (along_concat [_, _, _] _).mpr ⟨(along_concat [_, _] _).mpr ⟨(along_concat [_] _).mpr
      ⟨(along_concat [] _).mpr ⟨along_nil, ?_⟩, ?_⟩, ?_⟩, ?_⟩
    · intro c hc
      exact absurd hc (by simp)
    · intro c hc hconn
      obtain rfl := Act.call.inj hc
      exact absurd hconn (by simp [Call.isConnect])
    · intro c hc _
      obtain rfl := Act.call.inj hc
      exact ⟨_, rfl⟩
    · intro c hc _
      obtain rfl := Act.call.inj hc
      exact ⟨_, rfl⟩
  · show Fresh (fun _ => false) [.opened 3, .opened 4, .closed 4]
    simp [Fresh]

end Gdf
