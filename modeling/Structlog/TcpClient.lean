import Mathlib.Data.Stream.Init
import Structlog.LogMsg

/-!
# `tcp_client` and `tcp_sink`

`send` calls the system with what is left of the data until nothing is left, the system fails or
it takes nothing.  `Network` has the results of the calls to come; of what a call of `::send`
takes, it is never more than it was given.

An error closes the socket and throws.  Where the system takes nothing, the loop ends as if all
had been sent: `sendLoop_cases` tells the three ends apart, and `Stalls` says from the results
whether it is that one.
-/

namespace Structlog

open Lib

/-! ## The system -/

/-- What a call of `::send` returns; an error is the text of `errno`. -/
inductive SendResult
  | error (errno : Bytes)
  | accepted (count : ℕ)

/-- What becomes of one of the addresses that `connect` tries. -/
inductive AddressResult
  | socketFailed (errno : Bytes)
  | connectFailed (errno : Bytes)
  | connected (fd : ℕ)

structure Network where
  /-- The calls of `::send` to come. -/
  sends : Stream' SendResult
  /-- The calls of `::getaddrinfo` to come, with the addresses that are found. -/
  lookups : Stream' (Bytes → Bytes → Except Bytes (List AddressResult))
  /-- What has been accepted from the latest connection. -/
  accepted : Bytes
  /-- What has been accepted from the ones before it, the latest first. -/
  earlier : List Bytes

namespace Network

/-- `::send`. -/
def send (buf : Bytes) (net : Network) : SendResult × Network :=
  let net' := { net with sends := net.sends.tail }
  match net.sends.head with
  | .error errno => (.error errno, net')
  | .accepted count =>
      (.accepted (min count buf.length), { net' with accepted := net.accepted ++ buf.take count })

/-- `::getaddrinfo`. -/
def getaddrinfo (host port : Bytes) (net : Network) :
    Except Bytes (List AddressResult) × Network :=
  (net.lookups.head host port, { net with lookups := net.lookups.tail })

/-- A socket has been connected. -/
def connected (net : Network) : Network :=
  { net with accepted := [], earlier := net.accepted :: net.earlier }

end Network

/-! ## The client -/

/-- `tcp_client`, with the system it runs on; no socket is `-1`. -/
structure TcpClient where
  socket : Option ℕ
  net : Network

namespace TcpClient

def isConnected (c : TcpClient) : Bool := c.socket.isSome

def close (c : TcpClient) : TcpClient := { c with socket := none }

/-- `throw_spdlog_ex(msg, last_errno)`. -/
def systemError (msg errno : Bytes) : Thrown := spdlogEx (msg ++ ascii ": " ++ errno)

/-- The loop of `connect`, with `last_errno`. -/
def connectLoop : List AddressResult → Bytes → TcpClient → Bytes × TcpClient
  | [], lastErrno, c => (lastErrno, c)
  | .socketFailed errno :: rest, _, c | .connectFailed errno :: rest, _, c =>
      connectLoop rest errno { c with socket := none }
  | .connected fd :: _, lastErrno, c => (lastErrno, ⟨some fd, c.net.connected⟩)

def connect (host : Bytes) (port : ℤ) (c : TcpClient) : Outcome TcpClient :=
  let c := c.close
  match c.net.getaddrinfo host (decimalInt port) with
  | (.error msg, net) => (some (spdlogEx (ascii "::getaddrinfo failed: " ++ msg)), { c with net })
  | (.ok addrinfoResult, net) =>
      let (lastErrno, c) := connectLoop addrinfoResult (ascii "Success") { c with net }
      if c.socket = none then (some (systemError (ascii "::connect failed") lastErrno), c)
      else (none, c)

/-- The loop of `send`. -/
def sendLoop (data : Bytes) (bytesSent : ℕ) (c : TcpClient) : Outcome TcpClient :=
  if bytesSent < data.length then
    match c.net.send (data.drop bytesSent) with
    | (.error errno, net) =>
        (some (systemError (ascii "write(2) failed") errno), { c with net }.close)
    | (.accepted 0, net) => (none, { c with net }) -- probably should not happen
    | (.accepted (less + 1), net) => sendLoop data (bytesSent + (less + 1)) { c with net }
  else (none, c)
termination_by data.length - bytesSent

def send (data : Bytes) (c : TcpClient) : Outcome TcpClient := sendLoop data 0 c

end TcpClient

/-! ## The sink -/

structure TcpSinkConfig where
  serverHost : Bytes
  serverPort : ℤ

structure TcpSink (φ : Type*) where
  config : TcpSinkConfig
  client : TcpClient
  formatter : φ

namespace TcpSink

variable {φ : Type*}

/-- `client_.connect(config_.server_host, config_.server_port)`. -/
def connect (s : TcpSink φ) : Outcome (TcpSink φ) :=
  let (thrown, client) := s.client.connect s.config.serverHost s.config.serverPort
  (thrown, { s with client })

/-- `client_.send(formatted.data(), formatted.size())`. -/
def send (formatted : Bytes) (s : TcpSink φ) : Outcome (TcpSink φ) :=
  let (thrown, client) := s.client.send formatted
  (thrown, { s with client })

/-- `sink_it_`; the formatter may throw, and may change itself. -/
def sinkIt (format : Record → φ → Except Thrown Bytes × φ) (msg : Record) (s : TcpSink φ) :
    Outcome (TcpSink φ) :=
  match format msg s.formatter with
  | (.error thrown, formatter) => (some thrown, { s with formatter })
  | (.ok formatted, formatter) =>
      let s := { s with formatter }
      Outcome.andThen (if s.client.isConnected then (none, s) else s.connect) (send formatted)

end TcpSink

/-! ## The results of the calls -/

namespace SendResult

def count : SendResult → ℕ
  | error _ => 0
  | accepted count => count

end SendResult

/-- Of `n` bytes, some are missing still when a call takes nothing. -/
def Stalls (n : ℕ) (sends : Stream' SendResult) : Prop :=
  ∃ k, sends.get k = .accepted 0 ∧ (∀ j < k, ∃ count, sends.get j = .accepted count) ∧
    ((sends.take k).map SendResult.count).sum < n

theorem not_stalls_zero (sends : Stream' SendResult) : ¬ Stalls 0 sends := by
  rintro ⟨k, -, -, hless⟩
  exact Nat.not_lt_zero _ hless

theorem not_stalls_error {n : ℕ} {sends : Stream' SendResult} {errno : Bytes}
    (h : sends.head = .error errno) : ¬ Stalls n sends := by
  rintro ⟨k, hnone, hbefore, -⟩
  obtain ⟨count, hcount⟩ : ∃ count, sends.get 0 = .accepted count := by
    rcases Nat.eq_zero_or_pos k with rfl | hpos
    · exact ⟨0, hnone⟩
    · exact hbefore 0 hpos
  cases h.symm.trans hcount

theorem stalls_nothing {n : ℕ} (hn : 0 < n) {sends : Stream' SendResult}
    (h : sends.head = .accepted 0) : Stalls n sends :=
  ⟨0, h, fun j hj => absurd hj (Nat.not_lt_zero j), hn⟩

/-- What is taken is no longer missing. -/
theorem stalls_tail {n count : ℕ} (hcount : 0 < count) {sends : Stream' SendResult}
    (h : sends.head = .accepted count) : Stalls n sends ↔ Stalls (n - count) sends.tail := by
  have hsum k : ((sends.take (k + 1)).map SendResult.count).sum =
      count + ((sends.tail.take k).map SendResult.count).sum := by
    rw [Stream'.take_succ, List.map_cons, List.sum_cons, h]
    rfl
  constructor
  · rintro ⟨k, hnone, hbefore, hless⟩
    cases k with
    | zero =>
        have hzero : count = 0 := SendResult.accepted.inj (h.symm.trans hnone)
        omega
    | succ k =>
        rw [hsum] at hless
        exact ⟨k, hnone, fun j hj => hbefore (j + 1) (by omega), by omega⟩
  · rintro ⟨k, hnone, hbefore, hless⟩
    refine ⟨k + 1, hnone, ?_, ?_⟩
    · intro j hj
      cases j with
      | zero => exact ⟨count, h⟩
      | succ j => exact hbefore j (by omega)
    · rw [hsum]
      omega

/-! ## The loop -/

namespace TcpClient

/-- What `send` does to the system: so many calls have been made, and so many bytes taken. -/
structure Taken (calls count : ℕ) (missing : Bytes) (c c' : TcpClient) : Prop where
  sends : c'.net.sends = c.net.sends.drop calls
  lookups : c'.net.lookups = c.net.lookups
  accepted : c'.net.accepted = c.net.accepted ++ missing.take count
  earlier : c'.net.earlier = c.net.earlier

/-- The loop ends as all is taken, because a call takes nothing, or because one fails. -/
inductive SendEnd (missing : Bytes) (c : TcpClient) (count : ℕ) : Outcome TcpClient → Prop
  | all {c' : TcpClient} (hcount : count = missing.length) (socket : c'.socket = c.socket)
      (hgoes : ¬ Stalls missing.length c.net.sends) : SendEnd missing c count (none, c')
  | nothing {c' : TcpClient} (hcount : count < missing.length)
      (hstalls : Stalls missing.length c.net.sends) : SendEnd missing c count (none, c')
  | error {c' : TcpClient} (thrown : Thrown) (socket : c'.socket = none)
      (hgoes : ¬ Stalls missing.length c.net.sends) : SendEnd missing c count (some thrown, c')

section

variable {missing : Bytes} {c : TcpClient} {count : ℕ}

/-- The client after a call that has taken something. -/
theorem net_send (h : c.net.sends.head = .accepted count) :
    c.net.send missing = (.accepted (min count missing.length),
      { c.net with
        sends := c.net.sends.tail
        accepted := c.net.accepted ++ missing.take count }) := by
  rw [Network.send, h]

theorem Taken.cons (h : c.net.sends.head = .accepted count) {calls rest : ℕ} {c' : TcpClient}
    (htaken : Taken calls rest (missing.drop (min count missing.length))
      { c with net := (c.net.send missing).2 } c') :
    Taken (calls + 1) (min count missing.length + rest) missing c c' := by
  rw [net_send h] at htaken
  refine ⟨?_, htaken.lookups, ?_, htaken.earlier⟩
  · rw [htaken.sends, Stream'.drop_succ]
  · rw [htaken.accepted, List.take_add, ← List.append_assoc, ← List.take_eq_take_min]

theorem SendEnd.cons (h : c.net.sends.head = .accepted count) (hpos : 0 < count) {rest : ℕ}
    {r : Outcome TcpClient}
    (hend : SendEnd (missing.drop (min count missing.length))
      { c with net := (c.net.send missing).2 } rest r) :
    SendEnd missing c (min count missing.length + rest) r := by
  have hless : missing.length - min count missing.length = missing.length - count := by omega
  have hstalls : Stalls missing.length c.net.sends ↔
      Stalls (missing.drop (min count missing.length)).length c.net.sends.tail := by
    rw [stalls_tail hpos h, List.length_drop, hless]
  rw [net_send h] at hend
  cases hend with
  | all hcount socket hgoes =>
      rw [List.length_drop] at hcount
      exact .all (by omega) socket (mt hstalls.mp hgoes)
  | nothing hcount hnothing =>
      rw [List.length_drop] at hcount
      exact .nothing (by omega) (hstalls.mpr hnothing)
  | error thrown socket hgoes => exact .error thrown socket (mt hstalls.mp hgoes)

end

/-- Every call but the last takes a byte, so there are no more calls than bytes. -/
theorem sendLoop_cases {data : Bytes} {bytesSent : ℕ} (hsent : bytesSent ≤ data.length)
    (c : TcpClient) :
    ∃ calls ≤ data.length - bytesSent, ∃ count,
      Taken calls count (data.drop bytesSent) c (sendLoop data bytesSent c).2 ∧
        SendEnd (data.drop bytesSent) c count (sendLoop data bytesSent c) := by
  induction hleft : data.length - bytesSent using Nat.strong_induction_on
    generalizing bytesSent c with
  | _ left ih =>
  by_cases hless : bytesSent < data.length
  case neg =>
    have hdone : bytesSent = data.length := by omega
    rw [sendLoop, if_neg hless, hdone, List.drop_length]
    exact ⟨0, Nat.zero_le _, 0, ⟨rfl, rfl, (List.append_nil _).symm, rfl⟩,
      .all rfl rfl (not_stalls_zero _)⟩
  case pos =>
    have hlength : (data.drop bytesSent).length = data.length - bytesSent := List.length_drop
    have hpos : 0 < (data.drop bytesSent).length := by omega
    cases hsends : c.net.sends.head with
    | error errno =>
        rw [sendLoop, if_pos hless, Network.send, hsends]
        exact ⟨1, by omega, 0, ⟨rfl, rfl, (List.append_nil _).symm, rfl⟩,
          .error _ rfl (not_stalls_error hsends)⟩
    | accepted count =>
        cases count with
        | zero =>
            rw [sendLoop, if_pos hless, net_send hsends, Nat.zero_min]
            exact ⟨1, by omega, 0, ⟨rfl, rfl, rfl, rfl⟩, .nothing hpos (stalls_nothing hpos hsends)⟩
        | succ count =>
            -- a byte is taken, so the loop goes on with fewer
            obtain ⟨less, hmin⟩ : ∃ less, min (count + 1) (data.drop bytesSent).length = less + 1 :=
              Nat.exists_eq_add_one.mpr (by omega)
            have hturn : sendLoop data bytesSent c =
                sendLoop data (bytesSent + (less + 1))
                  { c with net := (c.net.send (data.drop bytesSent)).2 } := by
              rw [sendLoop, if_pos hless, net_send hsends, hmin]
            obtain ⟨calls, hcalls, rest, htaken, hend⟩ :=
              ih (data.length - (bytesSent + (less + 1))) (by omega) (by omega)
                { c with net := (c.net.send (data.drop bytesSent)).2 } rfl
            rw [← List.drop_drop, ← hmin] at htaken hend
            rw [hturn, ← hmin]
            exact ⟨calls + 1, by omega, _, htaken.cons hsends, hend.cons hsends (Nat.succ_pos _)⟩

/-- `send` and its socket. -/
theorem send_cases (data : Bytes) (c : TcpClient) :
    ∃ calls ≤ data.length, ∃ count,
      Taken calls count data c (c.send data).2 ∧ SendEnd data c count (c.send data) :=
  sendLoop_cases (Nat.zero_le _) c

/-- A socket of one of the addresses, or none. -/
theorem connectLoop_cases (addresses : List AddressResult) (lastErrno : Bytes) (net : Network) :
    (connectLoop addresses lastErrno ⟨none, net⟩).2 = ⟨none, net⟩ ∨
      ∃ fd, (connectLoop addresses lastErrno ⟨none, net⟩).2 = ⟨some fd, net.connected⟩ := by
  induction addresses generalizing lastErrno with
  | nil => exact .inl rfl
  | cons address rest ih =>
      cases address with
      | socketFailed errno => exact ih errno
      | connectFailed errno => exact ih errno
      | connected fd => exact .inr ⟨fd, rfl⟩

/-- A connection is new. -/
theorem connect_cases (host : Bytes) (port : ℤ) (c : TcpClient) :
    let r := c.connect host port
    (r.1.isSome ∧ r.2.net.accepted = c.net.accepted ∧ r.2.net.earlier = c.net.earlier) ∨
      (r.1 = none ∧ r.2.net.earlier = c.net.accepted :: c.net.earlier) := by
  unfold connect close Network.getaddrinfo
  dsimp only
  cases c.net.lookups.head host (decimalInt port) with
  | error msg => exact .inl ⟨rfl, rfl, rfl⟩
  | ok addresses =>
      have hcases := connectLoop_cases addresses (ascii "Success")
        { c.net with lookups := c.net.lookups.tail }
      dsimp only at hcases ⊢
      rcases hcases with hnone | ⟨fd, hsome⟩
      · rw [hnone, if_pos rfl]
        exact .inl ⟨rfl, rfl, rfl⟩
      · rw [hsome, if_neg (Option.some_ne_none fd)]
        exact .inr ⟨rfl, rfl⟩

end TcpClient

/-! ## A message -/

namespace TcpSink

variable {φ : Type*}

/-- The next message gets a new connection, unless an exception comes before it. -/
def Reconnects (s : TcpSink φ) : Prop :=
  ∀ (format : Record → φ → Except Thrown Bytes × φ) (msg : Record),
    let r := s.sinkIt format msg
    (r.1.isSome ∧ r.2.client.net.accepted = s.client.net.accepted ∧
      r.2.client.net.earlier = s.client.net.earlier) ∨
      r.2.client.net.earlier = s.client.net.accepted :: s.client.net.earlier

/-- If `send` returns, the connection has accepted the data after what it had accepted before;
if it throws, the connection has been given up. -/
structure SendsExactly (data : Bytes) (s : TcpSink φ) : Prop where
  accepted : (s.send data).1 = none →
    (s.send data).2.client.net.accepted = s.client.net.accepted ++ data ∧
      (s.send data).2.client.net.earlier = s.client.net.earlier
  closed : (s.send data).1.isSome → (s.send data).2.client.isConnected = false
  reconnects : (s.send data).1.isSome → (s.send data).2.Reconnects

theorem reconnects_of_closed {s : TcpSink φ} (h : s.client.isConnected = false) :
    s.Reconnects := by
  intro format msg
  rw [sinkIt]
  rcases format msg s.formatter with ⟨thrown | formatted, formatter⟩
  · exact .inl ⟨rfl, rfl, rfl⟩
  · dsimp only
    rw [h, if_neg Bool.false_ne_true]
    rcases s.client.connect_cases s.config.serverHost s.config.serverPort with
      ⟨hthrown, hkept⟩ | ⟨hreturned, hearlier⟩
    · obtain ⟨thrown, hthrown⟩ := Option.isSome_iff_exists.mp hthrown
      have hconnect : ({ s with formatter } : TcpSink φ).connect.1 = some thrown := hthrown
      rw [Outcome.andThen_threw hconnect]
      exact .inl ⟨rfl, hkept⟩
    · have hconnect : ({ s with formatter } : TcpSink φ).connect.1 = none := hreturned
      rw [Outcome.andThen_returned hconnect]
      obtain ⟨calls, -, count, htaken, -⟩ := TcpClient.send_cases formatted
        (s.client.connect s.config.serverHost s.config.serverPort).2
      exact .inr (htaken.earlier.trans hearlier)

/-- `send` ends after at most as many calls as there are bytes; the data are sent exactly, or
the connection is given up, exactly if no call takes nothing while bytes are missing. -/
theorem tcp_send_exact_iff (data : Bytes) (s : TcpSink φ) :
    (∃ calls ≤ data.length,
      (s.send data).2.client.net.sends = s.client.net.sends.drop calls) ∧
      (s.SendsExactly data ↔ ¬ Stalls data.length s.client.net.sends) := by
  obtain ⟨calls, hcalls, count, htaken, hend⟩ := s.client.send_cases data
  refine ⟨⟨calls, hcalls, htaken.sends⟩, ?_⟩
  have hsend : s.send data =
      ((s.client.send data).1, { s with client := (s.client.send data).2 }) := rfl
  generalize s.client.send data = r at htaken hend hsend
  cases hend with
  | all hcount socket hgoes =>
      refine iff_of_true ?_ hgoes
      have hreturned : ¬ (s.send data).1.isSome := by
        rw [hsend]
        exact Bool.false_ne_true
      refine ⟨fun _ => ?_, fun h => absurd h hreturned, fun h => absurd h hreturned⟩
      rw [hsend]
      refine ⟨htaken.accepted.trans ?_, htaken.earlier⟩
      rw [hcount, List.take_length]
  | nothing hcount hstalls =>
      refine iff_of_false ?_ (not_not.mpr hstalls)
      intro hexact
      have haccepted := (hexact.accepted (by rw [hsend])).1
      rw [hsend] at haccepted
      have hall := List.append_cancel_left (htaken.accepted.symm.trans haccepted)
      have hlength : (data.take count).length = count := List.length_take_of_le hcount.le
      rw [hall] at hlength
      omega
  | error thrown socket hgoes =>
      refine iff_of_true ?_ hgoes
      have hclosed : (s.send data).2.client.isConnected = false := by
        rw [hsend, TcpClient.isConnected, socket]
        rfl
      refine ⟨fun h => ?_, fun _ => hclosed, fun _ => reconnects_of_closed hclosed⟩
      rw [hsend] at h
      cases h

/-- A connected sink, whose system takes two bytes and then nothing. -/
def stalled : TcpSink Unit where
  config := ⟨ascii "localhost", 514⟩
  client := ⟨some 3, fun k => .accepted (if k = 0 then 2 else 0), fun _ _ _ => .ok [], [], []⟩
  formatter := ()

/-- Three of the five bytes are not sent, and nothing is thrown. -/
theorem tcp_send_stalled :
    (stalled.send (ascii "hello")).1 = none ∧
      (stalled.send (ascii "hello")).2.client.net.accepted = ascii "he" ∧
      (stalled.send (ascii "hello")).2.client.isConnected = true ∧
      ¬ stalled.SendsExactly (ascii "hello") := by
  have hsend : stalled.client.send (ascii "hello") =
      (none, ⟨some 3, fun _ => .accepted 0, fun _ _ _ => .ok [], ascii "he", []⟩) := by
    rw [TcpClient.send, TcpClient.sendLoop]
    change TcpClient.sendLoop (ascii "hello") 2 _ = _
    rw [TcpClient.sendLoop]
    rfl
  have hsink : stalled.send (ascii "hello") =
      (none, { stalled with client := ⟨some 3, fun _ => .accepted 0, fun _ _ _ => .ok [],
        ascii "he", []⟩ }) := by
    rw [TcpSink.send, hsend]
  refine ⟨by rw [hsink], by rw [hsink], by rw [hsink]; rfl, ?_⟩
  intro hexact
  have haccepted := (hexact.accepted (by rw [hsink])).1
  rw [hsink] at haccepted
  revert haccepted
  decide

end TcpSink

end Structlog
