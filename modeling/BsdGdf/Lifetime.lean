/-
The life of a `Network` object, from its constructor to the end of its destructor:
any number of `Init` calls and client calls in between.

`closes_all_iff` says when every descriptor the object got from `socket()` and
`accept()` is closed exactly once by then, and nothing else is closed: when the
destructor starts, the clients in the table and the server sockets of the `Init` calls
that succeeded have to be exactly the one descriptor in `mServerSocket`.  The
destructor closes that one and clears the table without closing the clients; `Init`
overwrites it; and an `Init` call that fails after `socket()` closes it and leaves the
number there, to be closed again.  `closesAll_iff_of_listening` reads the condition for a
kernel whose `accept()` needs an open server socket.
-/
import BsdGdf.SessionTable

namespace Gdf

open Runs Ledger

variable {net : Network} {c : Call}

/-- A call of a public method of the object. -/
inductive Act
  | init (ret : int32) (setup : SetupRet)
  | call (c : Call)
  deriving DecidableEq, Repr

/-- Perform it. -/
def live (net : Network) : Act → Network × Reply
  | .init ret setup =>
    let r := net.init ret setup
    (r.1, ⟨.bool r.2.1, r.2.2⟩)
  | .call c => step net c

/-- All calls `setServerSocket` makes succeed. -/
def SetupRet.Ok (ret : SetupRet) : Prop :=
  ret.reuseaddr ≠ ERROR ∧ ret.keepalive ≠ ERROR ∧ ret.nodelay ≠ ERROR ∧ ret.nonblock ≠ ERROR ∧
    ret.hostname ≠ -1 ∧ ret.hostEntry ≠ none ∧ ret.bind ≠ ERROR ∧ ret.listen ≠ ERROR

instance (ret : SetupRet) : Decidable ret.Ok :=
  inferInstanceAs (Decidable (_ ∧ _ ∧ _ ∧ _ ∧ _ ∧ _ ∧ _ ∧ _))

/-- The server socket an `Init` call sets up, if it succeeds. -/
def Act.serves : Act → List int32
  | .init ret setup => if ret ≠ ERROR ∧ setup.Ok then [ret] else []
  | .call _ => []

/-- The server sockets of the `Init` calls that succeeded. -/
def served (acts : List Act) : List int32 := acts.flatMap Act.serves

/-- The descriptors opened and closed in the life of an object, its destructor
included. -/
def descriptors (acts : List Act) : List (Entry int32) :=
  ledger (trace live Network.new acts) ++ entries (final live Network.new acts).destroy.2

/-- Every client call but `ConnectNewClient` is on a socket that has a session. -/
def OnSession (net : Network) (a : Act) : Prop :=
  ∀ c, a = .call c → c.isConnect = false → ∃ s, net.mSessions c.on = some s

/-! ### One call -/

/-- Setting up the server socket neither opens nor closes a descriptor. -/
theorem setServerSocket_cases (net : Network) (setup : SetupRet) :
    (net.setServerSocket setup).1.mSessions = net.mSessions ∧
    (net.setServerSocket setup).1.mServerSocket = net.mServerSocket ∧
    ((net.setServerSocket setup).2.1 = SUCCESS ↔ setup.Ok) ∧
    ((net.setServerSocket setup).2.2 = [] ∨
      (net.setServerSocket setup).2.2 = [.fcntl net.mServerSocket setup.nonblock]) := by
  rcases setup with ⟨reuseaddr, keepalive, nodelay, nonblock, hostname, hostEntry, bind, listen⟩
  cases hostEntry <;> simp only [Network.setServerSocket, SetupRet.Ok] <;> grind

/-- `Init` leaves the table, and its system calls are those of the setting up. -/
theorem init_sys (net : Network) (ret : int32) (setup : SetupRet) :
    (net.init ret setup).1.mSessions = net.mSessions ∧
    (net.init ret setup).1.mServerSocket = ret ∧
    ((ret = ERROR ∧ (net.init ret setup).2.2 = [.socket ret]) ∨
      (ret ≠ ERROR ∧ ∃ sys, (sys = [] ∨ sys = [.fcntl ret setup.nonblock]) ∧
        (net.init ret setup).2.2 =
          .socket ret :: sys ++ if setup.Ok then [] else [.close ret])) := by
  obtain ⟨hsess, hsock, hok, hsys⟩ := setServerSocket_cases { net with mServerSocket := ret } setup
  by_cases hret : ret = ERROR
  · simp [Network.init, Network.createServerSocket, hret]
  cases hset : ({ net with mServerSocket := ret }.setServerSocket setup).2.1 with
  | false =>
    have hno : ¬ setup.Ok := fun hyes => Bool.false_ne_true (hset.symm.trans (hok.mpr hyes))
    simpa [Network.init, Network.createServerSocket, hret, hset, hsess, hsock, hno] using hsys
  | true =>
    have hyes : setup.Ok := hok.mp hset
    simpa [Network.init, Network.createServerSocket, hret, hset, hsess, hsock, hyes] using hsys

/-- What `Init` does to the table, the server socket and the descriptors. -/
theorem init_cases (net : Network) (ret : int32) (setup : SetupRet) :
    (net.init ret setup).1.mSessions = net.mSessions ∧
    (net.init ret setup).1.mServerSocket = ret ∧
    ((ret = ERROR ∧ entries (net.init ret setup).2.2 = []) ∨
      (ret ≠ ERROR ∧ ¬ setup.Ok ∧
        entries (net.init ret setup).2.2 = [.opened ret, .closed ret]) ∨
      (ret ≠ ERROR ∧ setup.Ok ∧ entries (net.init ret setup).2.2 = [.opened ret])) := by
  obtain ⟨hsess, hsock, hcases⟩ := init_sys net ret setup
  refine ⟨hsess, hsock, ?_⟩
  rcases hcases with ⟨hret, heq⟩ | ⟨hret, sys, hsys, heq⟩ <;> rw [heq]
  · exact .inl ⟨hret, by simp [entries, Syscall.entry, hret]⟩
  by_cases hyes : setup.Ok
  · rcases hsys with rfl | rfl <;>
      simp [entries, Syscall.entry, List.filterMap_cons, hret, hyes]
  · rcases hsys with rfl | rfl <;>
      simp [entries, Syscall.entry, List.filterMap_cons, hret, hyes]

theorem Effect.accepts {h : int32 → Bool} {net' : Network} {ents : List (Entry int32)}
    (heff : Effect net c net' ents) (hfresh : Fresh h ents) : AcceptsClosed h c := by
  intro hconn hfd
  cases heff with
  | refused _ hfd' => exact absurd hfd' hfd
  | dropped => exact hfresh.1
  | accepted => exact hfresh.1
  | updated _ hconn' => exact absurd (hconn.symm.trans hconn') (by simp)
  | erased hconn' => exact absurd (hconn.symm.trans hconn') (by simp)

/-- A call on a socket with a session closes only what is open. -/
theorem Effect.owned {srv h : int32 → Bool} {net' : Network} {ents : List (Entry int32)}
    (heff : Effect net c net' ents) (ht : Tracks srv h net)
    (hon : c.isConnect = false → ∃ s, net.mSessions c.on = some s) : Owned h ents := by
  cases heff with
  | refused => exact trivial
  | dropped => exact ⟨by simp, trivial⟩
  | accepted => exact trivial
  | updated => exact trivial
  | erased hconn =>
    obtain ⟨s, hs⟩ := hon hconn
    by_cases he : c.on = ERROR
    · rw [if_pos he]
      exact trivial
    · rw [if_neg he]
      refine ⟨?_, trivial⟩
      rw [ht.held, hs]
      rfl

/-- A new server socket is kept outside the table. -/
theorem Tracks.serve {srv h : int32 → Bool} {k : int32} (ht : Tracks srv h net)
    (hclosed : h k = false) :
    Tracks (fun l => srv l || decide (l = k)) (post h (.opened k)) net := by
  have hnone : net.mSessions k = none := by
    have hor := (ht.held k).symm.trans hclosed
    rw [Bool.or_eq_false_iff] at hor
    exact Option.isNone_iff_eq_none.mp (Option.isSome_eq_false_iff.mp hor.1)
  refine ⟨fun l => ?_, fun l hl => ?_, ht.error, ht.socket⟩
  · by_cases hlk : l = k
    · simp [hlk]
    · simp [hlk, ht.held l]
  · by_cases hlk : l = k
    · rw [hlk, hnone]
    · exact ht.apart l (by simpa [hlk] using hl)

theorem Tracks.call {srv h : int32 → Bool} (ht : Tracks srv h net)
    (hon : c.isConnect = false → ∃ s, net.mSessions c.on = some s)
    (hfresh : Fresh h (entries (step net c).2.sys)) :
    Tracks srv (heldFrom h (entries (step net c).2.sys)) (step net c).1 := by
  have heff := step_effect net c
  refine ht.next heff (fun hins => hon ?_) (heff.accepts hfresh) fun hconn => ?_
  · cases c <;> simp_all [Call.inserts, Call.isConnect]
  · -- a socket with a session is not a server socket
    obtain ⟨s, hs⟩ := hon hconn
    by_contra hsrv
    rw [ht.apart _ (by simpa using hsrv)] at hs
    exact absurd hs (by simp)

/-- An `Init` call adds its server socket if it succeeds, and leaves nothing open if it
fails. -/
theorem Tracks.init {srv h : int32 → Bool} {ret : int32} {setup : SetupRet}
    (ht : Tracks srv h net) (hfresh : Fresh h (entries (net.init ret setup).2.2)) :
    Tracks (fun k => srv k || decide (k ∈ (Act.init ret setup).serves))
        (heldFrom h (entries (net.init ret setup).2.2)) (net.init ret setup).1 ∧
      Owned h (entries (net.init ret setup).2.2) := by
  obtain ⟨hsess, -, hcases⟩ := init_cases net ret setup
  have hsame : ∀ {srv' h' : int32 → Bool}, Tracks srv' h' net →
      Tracks srv' h' (net.init ret setup).1 := by
    intro srv' h' ht'
    exact ⟨by rw [hsess]; exact ht'.held, by rw [hsess]; exact ht'.apart,
      by rw [hsess]; exact ht'.error, by rw [hsess]; exact ht'.socket⟩
  rcases hcases with ⟨hret, hent⟩ | ⟨hret, hno, hent⟩ | ⟨hret, hyes, hent⟩
  · -- no server socket
    have hserves : (Act.init ret setup).serves = [] := if_neg fun h => h.1 hret
    rw [hent, hserves]
    refine ⟨hsame ?_, trivial⟩
    simpa using ht
  · -- the server socket that could not be set up is closed again
    rw [hent] at hfresh ⊢
    have hserves : (Act.init ret setup).serves = [] := if_neg fun h => hno h.2
    rw [heldFrom_opened_closed hfresh.1, hserves]
    refine ⟨hsame ?_, by simp, trivial⟩
    simpa using ht
  · rw [hent] at hfresh ⊢
    have hserves : (Act.init ret setup).serves = [ret] := if_pos ⟨hret, hyes⟩
    rw [hserves]
    refine ⟨hsame ?_, trivial⟩
    simpa using ht.serve hfresh.1

/-- **One call** keeps the open descriptors to the keys of the table and the server
sockets that were set up, and closes only what is open. -/
theorem Tracks.live {srv h : int32 → Bool} {a : Act} (ht : Tracks srv h net)
    (hon : OnSession net a) (hfresh : Fresh h (entries (live net a).2.sys)) :
    Tracks (fun k => srv k || decide (k ∈ a.serves)) (heldFrom h (entries (live net a).2.sys))
        (live net a).1 ∧
      Owned h (entries (live net a).2.sys) := by
  cases a with
  | call c =>
    have hsess := hon c rfl
    have hsrv : (fun k => srv k || decide (k ∈ (Act.call c).serves)) = srv := by
      funext k
      simp [Act.serves]
    rw [hsrv]
    exact ⟨ht.call hsess hfresh, (step_effect net c).owned ht hsess⟩
  | init ret setup => exact ht.init hfresh

/-! ### The whole life -/

theorem alive (acts : List Act) :
    Along live Network.new (fun _ net a => OnSession net a) acts →
    Fresh (fun _ => false) (ledger (trace live Network.new acts)) →
    Tracks (fun k => decide (k ∈ served acts)) (held (ledger (trace live Network.new acts)))
        (final live Network.new acts) ∧
      Owned (fun _ => false) (ledger (trace live Network.new acts)) := by
  induction acts using List.reverseRecOn with
  | nil =>
    intro _ _
    exact ⟨⟨fun _ => rfl, fun _ _ => rfl, rfl, fun _ _ h => absurd h (by simp [Network.new])⟩,
      trivial⟩
  | append_singleton acts a ih =>
    intro hon hfresh
    obtain ⟨hon, hlast⟩ := (along_concat acts a).mp hon
    rw [trace_concat, ledger_concat, fresh_append] at hfresh
    obtain ⟨ht, howned⟩ := ih hon hfresh.1
    obtain ⟨ht', howned'⟩ := ht.live hlast hfresh.2
    rw [trace_concat, ledger_concat, held_append, final_concat, owned_append]
    refine ⟨?_, howned, howned'⟩
    have hserved : (fun k => decide (k ∈ served (acts ++ [a]))) =
        fun k => decide (k ∈ served acts) || decide (k ∈ a.serves) := by
      funext k
      simp [served, List.flatMap_append]
    rw [hserved]
    exact ht'

/-- What the destructor finds is what it closes: the clients in the table and the
server sockets that were set up are exactly the descriptor in `mServerSocket`. -/
def ClosesAll (acts : List Act) : Prop :=
  ∀ k, ((∃ s, (final live Network.new acts).mSessions k = some s) ∨ k ∈ served acts) ↔
    (k = (final live Network.new acts).mServerSocket ∧ k ≠ ERROR)

theorem error_notMem_served (acts : List Act) : ERROR ∉ served acts := by
  intro hmem
  obtain ⟨a, -, ha⟩ := List.mem_flatMap.mp hmem
  cases a with
  | call c => simp [Act.serves] at ha
  | init ret setup =>
    simp only [Act.serves] at ha
    split at ha
    · rename_i hret
      exact hret.1 (List.mem_singleton.mp ha).symm
    · simp at ha

/-- **Descriptor ownership**: over a whole life, every descriptor is closed exactly
once and nothing else is closed, exactly if the destructor finds what it closes.  The
kernel hands out descriptors that are not open. -/
theorem closes_all_iff {acts : List Act}
    (hon : Along live Network.new (fun _ net a => OnSession net a) acts)
    (hfresh : Fresh (fun _ => false) (descriptors acts)) :
    (ClosedOnce (descriptors acts) ∧ Owned (fun _ => false) (descriptors acts)) ↔
      ClosesAll acts := by
  have hrun := (fresh_append _ _ _).mp hfresh
  obtain ⟨ht, howned⟩ := alive acts hon hrun.1
  set net := final live Network.new acts with hnet
  set es := ledger (trace live Network.new acts) with hes
  have hdestroy : entries net.destroy.2 =
      if net.mServerSocket = ERROR then [] else [.closed net.mServerSocket] :=
    entries_close _
  have hheld : ∀ k, held es k = true ↔ (∃ s, net.mSessions k = some s) ∨ k ∈ served acts := by
    intro k
    rw [ht.held]
    simp [Option.isSome_iff_exists]
  have herror : held es ERROR = false := by
    rw [ht.held, ht.error]
    simpa using error_notMem_served acts
  -- only the destructor can close what is not open, and only it can leave something open
  rw [descriptors, closedOnce_append_iff hfresh howned, hdestroy]
  show (∀ k, heldFrom (held es) _ k = false) ∧ _ ↔
    ∀ k, ((∃ s, net.mSessions k = some s) ∨ k ∈ served acts) ↔
      (k = net.mServerSocket ∧ k ≠ ERROR)
  simp only [← hheld]
  by_cases hsock : net.mServerSocket = ERROR
  · -- the destructor closes nothing
    rw [if_pos hsock, hsock]
    constructor
    · rintro ⟨hend, -⟩ k
      have hk := hend k
      rw [heldFrom_nil] at hk
      simp [hk]
    · intro hiff
      refine ⟨fun k => ?_, trivial⟩
      rw [heldFrom_nil, ← Bool.not_eq_true, hiff k]
      exact fun hk => hk.2 hk.1
  · rw [if_neg hsock, closed_last_iff]
    constructor
    · intro hiff k
      rw [hiff k]
      constructor
      · rintro rfl
        exact ⟨rfl, hsock⟩
      · exact fun hk => hk.1
    · intro hiff k
      rw [hiff k]
      constructor
      · exact fun hk => hk.1
      · rintro rfl
        exact ⟨rfl, hsock⟩

/-- `accept()` succeeds only while `mServerSocket` is an open descriptor. -/
def Listening (es : List (Event Network Act Reply)) (net : Network) (a : Act) : Prop :=
  ∀ c, a = .call c → c.isConnect = true → c.on ≠ ERROR →
    held (ledger es) net.mServerSocket = true

/-- Without a server socket there are no clients. -/
theorem no_clients (acts : List Act) :
    Along live Network.new (fun _ net a => OnSession net a) acts →
    Fresh (fun _ => false) (ledger (trace live Network.new acts)) →
    Along live Network.new Listening acts → served acts = [] →
    ∀ k, (final live Network.new acts).mSessions k = none := by
  induction acts using List.reverseRecOn with
  | nil =>
    intro _ _ _ _ k
    rfl
  | append_singleton acts a ih =>
    intro hon hfresh hlisten hserved
    obtain ⟨hon, hlast⟩ := (along_concat acts a).mp hon
    obtain ⟨hlisten, hopen⟩ := (along_concat acts a).mp hlisten
    rw [trace_concat, ledger_concat, fresh_append] at hfresh
    obtain ⟨ht, -⟩ := alive acts hon hfresh.1
    rw [served, List.flatMap_append, List.append_eq_nil_iff] at hserved
    have hempty := ih hon hfresh.1 hlisten hserved.1
    have hclosed : ∀ k, held (ledger (trace live Network.new acts)) k = false := by
      intro k
      rw [ht.held, hempty k, served, hserved.1]
      rfl
    intro k
    rw [final_concat]
    cases a with
    | init ret setup =>
      show (Network.init _ ret setup).1.mSessions k = none
      rw [(init_cases _ ret setup).1]
      exact hempty k
    | call c =>
      have heff := step_effect (final live Network.new acts) c
      have hclient : c.isConnect = true := by
        by_contra hno
        obtain ⟨s, hs⟩ := hlast c rfl (by simpa using hno)
        rw [hempty] at hs
        exact absurd hs (by simp)
      show (step _ c).1.mSessions k = none
      generalize (step (final live Network.new acts) c).1 = net', entries _ = ents at heff
      cases heff with
      | refused => exact hempty k
      | dropped => exact hempty k
      | accepted s hconn hfd =>
        -- `accept()` cannot have succeeded, since nothing is open
        have hheld := hopen c rfl hconn hfd
        rw [hclosed] at hheld
        exact absurd hheld (by simp)
      | updated s hno => exact absurd (hclient.symm.trans hno) (by simp)
      | erased hno => exact absurd (hclient.symm.trans hno) (by simp)

/-- Where `accept()` needs an open server socket, the destructor finds what it closes
exactly if the table is empty, and the only server socket that was set up is the one in
`mServerSocket`, if that is one. -/
theorem closesAll_iff_of_listening {acts : List Act}
    (hon : Along live Network.new (fun _ net a => OnSession net a) acts)
    (hfresh : Fresh (fun _ => false) (descriptors acts))
    (hlisten : Along live Network.new Listening acts) :
    ClosesAll acts ↔ (∀ k, (final live Network.new acts).mSessions k = none) ∧
      ∀ k, k ∈ served acts ↔ (k = (final live Network.new acts).mServerSocket ∧ k ≠ ERROR) := by
  have hrun := (fresh_append _ _ _).mp hfresh
  obtain ⟨ht, -⟩ := alive acts hon hrun.1
  constructor
  · intro hall
    have hempty : ∀ k, (final live Network.new acts).mSessions k = none := by
      intro k
      by_contra hk
      -- the client is on the number in `mServerSocket`, and so is every server socket
      have hsock := (hall k).mp (.inl (Option.ne_none_iff_exists'.mp hk))
      have hsome : served acts ≠ [] := by
        intro hnil
        exact hk (no_clients acts hon hrun.1 hlisten hnil k)
      obtain ⟨l, hl⟩ := List.exists_mem_of_ne_nil _ hsome
      have hlk : l = k := ((hall l).mp (.inr hl)).1.trans hsock.1.symm
      exact hk (ht.apart k (by simpa using hlk ▸ hl))
    refine ⟨hempty, fun k => ?_⟩
    have hk := hall k
    rw [hempty k] at hk
    simpa using hk
  · rintro ⟨hempty, hserved⟩ k
    rw [hempty k, ← hserved k]
    simp

/-- One client, accepted and disconnected. -/
theorem closes_all_iff_served :
    (ClosedOnce (descriptors [.init 3 ⟨0, 0, 0, 0, 0, some [49], 0, 0⟩,
        .call (.connectNewClient ⟨4, ⟨2, 0, 0⟩⟩ 0), .call (.disconnectClient 4)]) ∧
      Owned (fun _ => false) (descriptors [.init 3 ⟨0, 0, 0, 0, 0, some [49], 0, 0⟩,
        .call (.connectNewClient ⟨4, ⟨2, 0, 0⟩⟩ 0), .call (.disconnectClient 4)])) ↔
    ClosesAll [.init 3 ⟨0, 0, 0, 0, 0, some [49], 0, 0⟩,
      .call (.connectNewClient ⟨4, ⟨2, 0, 0⟩⟩ 0), .call (.disconnectClient 4)] := by
  refine closes_all_iff ?_ ?_
  · refine (along_concat [_, _] _).mpr ⟨(along_concat [_] _).mpr ⟨(along_concat [] _).mpr
      ⟨along_nil, ?_⟩, ?_⟩, ?_⟩
    · intro c hc
      exact absurd hc (by simp)
    · intro c hc hconn
      obtain rfl := Act.call.inj hc
      exact absurd hconn (by decide)
    · intro c hc _
      obtain rfl := Act.call.inj hc
      exact ⟨_, rfl⟩
  · show Fresh (fun _ => false) [.opened 3, .opened 4, .closed 4, .closed 3]
    simp [Fresh]

/-- `bind()` fails in `Init`: the server socket is closed there, and again by the
destructor. -/
theorem server_socket_closed_twice :
    ¬ ∀ acts : List Act, Along live Network.new (fun _ net a => OnSession net a) acts →
      Fresh (fun _ => false) (descriptors acts) →
      ClosedOnce (descriptors acts) ∧ Owned (fun _ => false) (descriptors acts) := by
  intro h
  have hrun := h [.init 3 ⟨0, 0, 0, 0, 0, some [49], ERROR, 0⟩]
    ((along_concat [] _).mpr ⟨along_nil, fun c hc => absurd hc (by simp)⟩)
    (by show Fresh (fun _ => false) [.opened 3, .closed 3, .closed 3]; simp [Fresh])
  have hclosed : closings 3 [.closed 3, .closed 3] = 1 := hrun.1 [] 3 _ rfl
  exact absurd hclosed (by decide)

end Gdf
